import SegregatedFit.Proofs.Creation
import SegregatedFit.Proofs.Request
import Mathlib.Order.Bounds.Basic

/-!
# Rounding up

A value rounded up to the alignment is the least multiple of sixteen that is not below it. `roundUp?` finds it whenever it is
a 64-bit number (`roundUp?_eq_some_iff_rounds`). `roundUp` adds the whole unit before it takes one away, so it is a fault one
value earlier: at `2 ^ 64 - 16`, which is a multiple of sixteen itself and needs no rounding. Everywhere else the two agree
(`roundings_agree`).

The block for a request is the least one that holds the header and the bytes asked for and that may be free later, as long as
it is less than half the address space (`blockSizeFor_exact`). On the way to it no sum of words wraps around
(`toNat_blockSizeWord`).
-/

namespace SegregatedFit

/-- The least multiple of the alignment that is not below a value. -/
def Rounds (value rounded : Nat) : Prop := IsLeast {m | alignment ∣ m ∧ value ≤ m} rounded

variable {value rounded n b : Nat}

/-- Rounding up is adding fifteen and leaving the remainder by sixteen out. -/
theorem rounds_iff : Rounds value rounded ↔ rounded = (value + 15) / 16 * 16 := by
  have least : Rounds value ((value + 15) / 16 * 16) := by
    refine ⟨⟨Nat.dvd_mul_left _ _, by omega⟩, ?_⟩
    rintro m ⟨multiple, above⟩
    simp only [alignment] at multiple
    omega
  constructor
  · intro h
    exact h.unique least
  · rintro rfl
    exact least

/-- The rounding that may answer nothing finds every multiple of the alignment that is a 64-bit number. -/
theorem roundUp?_eq_some_iff_rounds :
    roundUp? value = some rounded ↔ Rounds value rounded ∧ rounded < 0x1_0000_0000_0000_0000 := by
  rw [roundUp?_eq_some_iff, rounds_iff]
  omega

/-- Without an answer the sum that is to be cut down leaves the 64-bit range. -/
theorem roundUp?_eq_none_iff : roundUp? value = none ↔ 0x1_0000_0000_0000_0000 ≤ value + 15 := by
  unfold roundUp?
  split
  · next fits =>
    simp only [reduceCtorEq, false_iff]
    exact Nat.not_le_of_lt fits
  · next large => exact iff_of_true rfl (Nat.le_of_not_lt large)

/-- The two ways to round up find the same number and fail together, except for one value: at `2 ^ 64 - 16` the one is a fault,
and the other answers the value itself. -/
theorem roundings_agree (value : Nat) :
    (∀ rounded, roundUp? value = some rounded ↔ Rounds value rounded ∧ rounded < 0x1_0000_0000_0000_0000) ∧
    (∀ rounded, roundUp value = .ok rounded ↔ roundUp? value = some rounded ∧ value ≠ 0xffff_ffff_ffff_fff0) ∧
    ∀ f, roundUp value = .error f ↔ f = .addOverflow ∧ (roundUp? value = none ∨ value = 0xffff_ffff_ffff_fff0) := by
  refine ⟨fun rounded => roundUp?_eq_some_iff_rounds, fun rounded => ?_, fun f => ?_⟩
  -- The one sum has to stay below the bound with sixteen added, the other with fifteen.
  · rw [roundUp_eq, roundUp?_eq_some_iff]
    split
    · rw [Except.ok.injEq, alignedBase]
      omega
    · simp only [reduceCtorEq, false_iff]
      omega
  · rw [roundUp_eq, roundUp?_eq_none_iff]
    split
    · simp only [reduceCtorEq, false_iff]
      omega
    · rw [Except.error.injEq, eq_comm]
      have : 0x1_0000_0000_0000_0000 ≤ value + 15 ∨ value = 0xffff_ffff_ffff_fff0 := by omega
      simp only [this, and_true]

/-- The last multiple of sixteen needs no rounding, and one way to round it up is a fault. -/
theorem roundUp_fault_of_last_multiple : Rounds 0xffff_ffff_ffff_fff0 0xffff_ffff_ffff_fff0 ∧
    roundUp? 0xffff_ffff_ffff_fff0 = some 0xffff_ffff_ffff_fff0 ∧ roundUp 0xffff_ffff_ffff_fff0 = .error .addOverflow ∧
    ¬ ∀ value < 0x1_0000_0000_0000_0000, (∀ rounded, roundUp? value = some rounded ↔ roundUp value = .ok rounded) ∧
      (roundUp? value = none ↔ roundUp value = .error .addOverflow) := by
  have answer : roundUp? 0xffff_ffff_ffff_fff0 = some 0xffff_ffff_ffff_fff0 := by decide
  have fault : roundUp 0xffff_ffff_ffff_fff0 = .error .addOverflow := by decide
  refine ⟨rounds_iff.mpr (by decide), answer, fault, ?_⟩
  intro agree
  cases fault.symm.trans (((agree _ (by decide)).1 _).mp answer)

/-! ## The size of a block -/

/-- A size that a block may have which holds the header and the bytes of a request. -/
def Accommodates (n b : Nat) : Prop := alignment ∣ b ∧ n + headerSize ≤ b ∧ minBlockSize ≤ b

/-- The least such size is the bytes and the header rounded up, and the smallest size of a block for small requests. -/
theorem isLeast_accommodates : IsLeast {b | Accommodates n b} (max ((n + 23) / 16 * 16) 32) := by
  refine ⟨⟨?_, ?_, Nat.le_max_right _ _⟩, ?_⟩
  · simp only [alignment]
    omega
  · simp only [headerSize]
    omega
  · rintro b ⟨multiple, room, large⟩
    simp only [alignment, headerSize, minBlockSize] at multiple room large
    omega

/-- The size of the block for a request in the arithmetic of 64-bit words, whose sums wrap around. -/
def blockSizeWord (n : UInt64) : UInt64 := max ((n + 8 + 15) &&& ~~~15) 32

/-- The larger of two words is the larger number. -/
theorem toNat_max_word (a c : UInt64) : (max a c).toNat = max a.toNat c.toNat := by
  rw [show max a c = if a ≤ c then c else a from rfl]
  split
  · next le => exact (Nat.max_eq_right (UInt64.le_iff_toNat_le.mp le)).symm
  · next gt => exact (Nat.max_eq_left (Nat.le_of_not_le (mt UInt64.le_iff_toNat_le.mpr gt))).symm

/-- No sum wraps around on the way to the size of a block. -/
theorem toNat_blockSizeWord {n : UInt64} (fits : n.toNat + 23 < 0x1_0000_0000_0000_0000) :
    (blockSizeWord n).toNat = max ((n.toNat + 23) / 16 * 16) 32 := by
  have sum : (n + 8 + 15).toNat = n.toNat + 23 := by
    rw [UInt64.toNat_add, UInt64.toNat_add]
    simp only [UInt64.reduceToNat]
    omega
  have mask : (~~~15 : UInt64).toNat = 0x1_0000_0000_0000_0000 - alignment := by decide
  rw [blockSizeWord, toNat_max_word, UInt64.toNat_and, sum, mask]
  exact congrArg (max · 32) (clearLowBits_alignment fits)

/-- The size of the block for a request is the least one that accommodates it, as long as this is less than half the address
space. When it is a 64-bit number at all, wrapping sums find it too. It has room for the bytes of the request, and larger
requests get no smaller blocks. -/
theorem blockSizeFor_exact (n : UInt64) : ∃ b, IsLeast {b | Accommodates n.toNat b} b ∧
    blockSizeFor n.toNat = (if b ≤ 0x7fff_ffff_ffff_ffff then some b else none) ∧
    (b < 0x1_0000_0000_0000_0000 → (blockSizeWord n).toNat = b) ∧ n.toNat ≤ b - headerSize ∧
    ∀ (m : UInt64) (c : Nat), n ≤ m → blockSizeFor m.toNat = some c → b ≤ c := by
  refine ⟨_, isLeast_accommodates, ?_, fun word => toNat_blockSizeWord (by omega), ?_, ?_⟩
  · split
    · next small => exact blockSizeFor_eq_some_iff.mpr ⟨rfl, by omega⟩
    · next large =>
      rw [Option.eq_none_iff_forall_ne_some]
      intro b fits
      have := blockSizeFor_eq_some_iff.mp fits
      omega
  · simp only [headerSize]
    omega
  · intro m c le fits
    have := (blockSizeFor_eq_some_iff.mp fits).1
    have := UInt64.le_iff_toNat_le.mp le
    omega

/-- The block for a request of twenty bytes, and the one for the largest request that there is a block for. -/
theorem blockSizeFor_exact_largest : blockSizeFor 0x7fff_ffff_ffff_ffe8 = some 0x7fff_ffff_ffff_fff0 ∧
    blockSizeFor 0x7fff_ffff_ffff_ffe9 = none ∧ (blockSizeWord 20).toNat = 32 ∧ 32 ≤ 0x7fff_ffff_ffff_fff0 := by
  have largest : blockSizeFor 0x7fff_ffff_ffff_ffe8 = some 0x7fff_ffff_ffff_fff0 := by decide
  obtain ⟨b, -, answer, word, -, mono⟩ := blockSizeFor_exact 20
  have small : blockSizeFor (20 : UInt64).toNat = some 32 := by decide
  rw [small] at answer
  split at answer
  · cases answer
    exact ⟨largest, by decide, word (by decide), mono 0x7fff_ffff_ffff_ffe8 _ (by decide) largest⟩
  · cases answer

end SegregatedFit
