import SegregatedFit.Arithmetic

/-!
# Size classes

Free blocks are kept in fourteen lists by size: 32 bytes, 48 bytes, then ranges that double from `[64, 128)` up to
`[65536, 131072)`, and one class for everything from 131072 bytes on.
-/

namespace SegregatedFit

/-- The number of size classes. -/
abbrev classCount : Nat := 14

/-- The class of a block of `size` bytes. From 64 bytes on it is the logarithm of the size less four, and the last class
has no upper end. Smaller classes hold smaller blocks. -/
def classOf (size : Nat) : Fin classCount :=
  if size ≤ 32 then ⟨0, by decide⟩
  else if size < 64 then ⟨1, by decide⟩
  else ⟨min (size.log2 - 4) 13, by have := Nat.min_le_right (size.log2 - 4) 13; unfold classCount; omega⟩

/-- A smaller block belongs to the same class or to a smaller one. -/
theorem classOf_le_classOf {a b : Nat} (h : a ≤ b) : classOf a ≤ classOf b := by
  have log : a.log2 ≤ b.log2 := by
    rcases Nat.eq_zero_or_pos a with rfl | pos
    · simp
    · exact (Nat.le_log2 (by omega)).2 (Nat.le_trans (Nat.log2_self_le (by omega)) h)
  have six : 64 ≤ b → 6 ≤ b.log2 := fun hb => (Nat.le_log2 (by omega)).2 hb
  simp only [classOf]
  repeat' split
  all_goals simp only [Fin.mk_le_mk]
  all_goals omega

/-- The classes from the given one up to the last. -/
def classesFrom (first : Fin classCount) : List (Fin classCount) := (List.finRange classCount).drop first

end SegregatedFit
