import SegregatedFit.Fault

/-!
# Sizes and addresses

Sizes, addresses and offsets are natural numbers below `2 ^ 64`. A sum of sizes that leaves this range and a difference
below zero are faults. A step from one address to another goes around the address space instead: true sizes never take
it past either end, but the size in a damaged header or footer may be anything, and one near `2 ^ 64` leads backwards
(`stepUp`, `stepDown`). Block sizes and payload addresses are multiples of sixteen, and requests are rounded up to them.
-/

namespace SegregatedFit

/-- The alignment of every payload and the unit of every block size. -/
@[simp] def alignment : Nat := 16

/-- The bytes of a header; footers and links are as large. -/
@[simp] def headerSize : Nat := 8

/-- The smallest block: a header, two links and a footer, so that it can be free. -/
@[simp] def minBlockSize : Nat := 32

/-- The sum of two numbers, a fault when it does not fit in 64 bits. -/
def addChecked (a b : Nat) : Except Fault Nat :=
  if a + b < 0x1_0000_0000_0000_0000 then .ok (a + b) else .error .addOverflow

/-- The difference of two numbers, a fault when it is negative. -/
def subChecked (a b : Nat) : Except Fault Nat :=
  if b ≤ a then .ok (a - b) else .error .subOverflow

/-- The address `n` bytes above `a`, around the end of the address space. -/
def stepUp (a n : Nat) : Nat := (a + n) % 0x1_0000_0000_0000_0000

/-- The address `n` bytes below `a`, around the start of the address space. -/
def stepDown (a n : Nat) : Nat := (a + 0x1_0000_0000_0000_0000 - n) % 0x1_0000_0000_0000_0000

/-- A step up that stays in the address space is a sum. -/
theorem stepUp_of_lt {a n : Nat} (h : a + n < 0x1_0000_0000_0000_0000) : stepUp a n = a + n := Nat.mod_eq_of_lt h

/-- A step down that stays in the address space is a difference. -/
theorem stepDown_of_le {a n : Nat} (h : n ≤ a) (small : a < 0x1_0000_0000_0000_0000) : stepDown a n = a - n := by
  unfold stepDown
  omega

/-- A value with the low bits cleared that `unit - 1` has set. For a unit that is a power of two this rounds down to its
multiples. -/
def clearLowBits (value unit : Nat) : Nat := value &&& (0x1_0000_0000_0000_0000 - unit)

/-- Clearing the low bits of a value rounds it down to a multiple of the alignment. -/
theorem clearLowBits_alignment {value : Nat} (h : value < 0x1_0000_0000_0000_0000) :
    clearLowBits value alignment = value / 16 * 16 := by
  apply Nat.eq_of_testBit_eq
  intro i
  have mask : (0x1_0000_0000_0000_0000 - 16).testBit i = (decide (i < 64) && !(15 : Nat).testBit i) :=
    Nat.testBit_two_pow_sub_succ (n := 64) (x := 15) (by decide) i
  have low : (15 : Nat).testBit i = decide (i < 4) := Nat.testBit_two_pow_sub_one 4 i
  have high : 64 ≤ i → value.testBit i = false := fun hi =>
    Nat.testBit_lt_two_pow (Nat.lt_of_lt_of_le h (Nat.pow_le_pow_right (n := 2) (i := 64) (by decide) hi))
  rw [clearLowBits, alignment, Nat.testBit_and, mask, low, ← Nat.shiftRight_eq_div_pow value 4, ← Nat.shiftLeft_eq _ 4,
    Nat.testBit_shiftLeft, Nat.testBit_shiftRight]
  by_cases h4 : 4 ≤ i
  · rw [Nat.add_sub_cancel' h4]
    by_cases h64 : i < 64
    · have : ¬ i < 4 := by omega
      simp [h4, h64, this]
    · simp [high (by omega)]
  · have : i < 4 := by omega
    simp [h4, this]

/-- A value rounded up to a multiple of a power of two: the unit less one is added, then the low bits are cleared. The
unit is added first and one taken away after, so values within a unit of `2 ^ 64` are faults, and so is the unit zero.
-/
def roundUpTo (value unit : Nat) : Except Fault Nat := do
  let sum ← addChecked value unit
  let padded ← subChecked sum 1
  let _ ← subChecked unit 1
  return clearLowBits padded unit

/-- A value rounded up to the alignment of payloads. -/
def roundUp (value : Nat) : Except Fault Nat := roundUpTo value alignment

/-- A value rounded up to the alignment of payloads, or nothing when the rounding leaves the 64-bit range. -/
def roundUp? (value : Nat) : Option Nat :=
  if value + (alignment - 1) < 0x1_0000_0000_0000_0000 then some (clearLowBits (value + (alignment - 1)) alignment) else none

/-- The size of the block that serves a request of `n` bytes: the header is added, the sum is rounded up, and no block
is smaller than `minBlockSize`. Nothing when this is more than half the address space. -/
def blockSizeFor (n : Nat) : Option Nat := do
  guard (n + headerSize < 0x1_0000_0000_0000_0000)
  let size := max (← roundUp? (n + headerSize)) minBlockSize
  guard (size < 0x8000_0000_0000_0000)
  return size

end SegregatedFit
