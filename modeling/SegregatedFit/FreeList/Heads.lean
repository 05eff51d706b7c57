import SegregatedFit.FreeList.Class

/-!
# Heads of the free lists

For every size class the offset of the first member of its list, zero for an empty list.
-/

namespace SegregatedFit

/-- The offsets of the first members of the free lists. -/
structure Heads where
  offsets : Vector Nat classCount
  deriving DecidableEq

namespace Heads

/-- The heads of fourteen empty lists. -/
def empty : Heads := ⟨Vector.replicate classCount 0⟩

/-- The head of the list of a class. -/
def get (h : Heads) (c : Fin classCount) : Nat := h.offsets[c.val]

/-- Whether the list of a class has no member. -/
def isEmpty (h : Heads) (c : Fin classCount) : Bool := h.get c == 0

/-- The heads with another head for the list of a class. -/
def set (h : Heads) (c : Fin classCount) (offset : Nat) : Heads := ⟨h.offsets.set c.val offset⟩

@[simp] theorem get_empty (c : Fin classCount) : empty.get c = 0 := by
  simp [empty, get]

theorem get_set (h : Heads) (c d : Fin classCount) (offset : Nat) :
    (h.set c offset).get d = if d = c then offset else h.get d := by
  rcases c with ⟨c, hc⟩
  rcases d with ⟨d, hd⟩
  simp only [get, set, Vector.getElem_set, Fin.mk.injEq, eq_comm]

/-- Heads that agree on every class are the same. -/
theorem ext {h k : Heads} (same : ∀ c, h.get c = k.get c) : h = k := by
  rcases h with ⟨h⟩
  rcases k with ⟨k⟩
  congr 1
  exact Vector.ext fun i hi => same ⟨i, hi⟩

end Heads

end SegregatedFit
