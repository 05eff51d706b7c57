import SegregatedFit.Memory

/-!
# Bytes of memory

The bytes a client reads and writes are parts of the words at multiples of eight, the least significant byte first. A
byte that was written is read back and no other byte changes (`Memory.byte_setByte`); the lists of bytes follow from
that.
-/

namespace SegregatedFit

namespace Memory

/-- The address of the word that holds the byte at `a`. -/
def wordAddress (a : Nat) : Nat := a / 8 * 8

/-- How far the byte at `a` stands above the low end of its word, in bits. -/
def bitPosition (a : Nat) : UInt64 := UInt64.ofNat (a % 8 * 8)

/-- The byte at an address. -/
def byte (m : Memory) (a : Nat) : UInt8 := (m.word (wordAddress a) >>> bitPosition a).toUInt8

/-- The memory with another byte at an address. -/
def setByte (m : Memory) (a : Nat) (v : UInt8) : Memory :=
  m.setWord (wordAddress a)
    ((m.word (wordAddress a) &&& ~~~(0xff <<< bitPosition a)) ||| (v.toUInt64 <<< bitPosition a))

/-- The `n` bytes from an address on. -/
def bytes (m : Memory) (a n : Nat) : List UInt8 := (List.range' a n).map m.byte

/-- The memory with the given bytes from an address on. -/
def setBytes (m : Memory) (a : Nat) : List UInt8 → Memory
  | [] => m
  | v :: vs => (m.setByte a v).setBytes (a + 1) vs

/-- The memory with the `n` bytes from `source` on copied to `target`; they are all read before the first is written. -/
def copyBytes (m : Memory) (source target n : Nat) : Memory := m.setBytes target (m.bytes source n)

/-- The memory with the `n` bytes from an address on set to zero. -/
def zeroBytes (m : Memory) (a n : Nat) : Memory := m.setBytes a (List.replicate n 0)

/-! ## Reading after writing -/

theorem toNat_bitPosition (a : Nat) : (bitPosition a).toNat = a % 8 * 8 := by
  rw [bitPosition, UInt64.toNat_ofNat_of_lt' (by change _ < 0x1_0000_0000_0000_0000; omega)]

/-- The low eight bits are those set in the mask that cuts out a byte. -/
theorem getLsbD_lowByte (j : Nat) : (255#64).getLsbD j = decide (j < 8) := by
  rw [BitVec.getLsbD_ofNat, show (255 : Nat) = 2 ^ 8 - 1 from rfl, Nat.testBit_two_pow_sub_one]
  by_cases h : j < 8
  · simp [h]
    omega
  · simp [h]

/-- The bits of a byte are the bits of its word from its position on. -/
theorem getLsbD_shiftRight_bitPosition (w : UInt64) (a : Nat) {i : Nat} (hi : i < 8) :
    ((w >>> bitPosition a).toUInt8).toBitVec.getLsbD i = w.toBitVec.getLsbD (a % 8 * 8 + i) := by
  have : a % 8 * 8 % 64 = a % 8 * 8 := by omega
  simp [toNat_bitPosition, hi, this]

/-- A byte that was written is read back, and no other byte changes. -/
theorem byte_setByte (m : Memory) (a b : Nat) (v : UInt8) : (m.setByte a v).byte b = if b = a then v else m.byte b := by
  by_cases same : wordAddress b = wordAddress a
  · apply UInt8.eq_of_toBitVec_eq
    apply BitVec.eq_of_getLsbD_eq
    intro i hi
    have inWord : b % 8 * 8 + i < 64 := by omega
    have lowByte : (0xff : UInt64).toBitVec = 255#64 := rfl
    have position : ((bitPosition a).toBitVec % 64).toNat = a % 8 * 8 := by
      have : a % 8 * 8 % 64 = a % 8 * 8 := by omega
      rw [BitVec.toNat_umod]
      simp [toNat_bitPosition, this]
    rw [byte, getLsbD_shiftRight_bitPosition _ _ hi, setByte, same, word_setWord_self]
    simp only [UInt64.toBitVec_or, UInt64.toBitVec_and, UInt64.toBitVec_not, UInt64.toBitVec_shiftLeft, BitVec.getLsbD_or,
      BitVec.getLsbD_and, BitVec.getLsbD_not, BitVec.shiftLeft_eq', BitVec.getLsbD_shiftLeft, UInt8.toBitVec_toUInt64,
      BitVec.getLsbD_setWidth, lowByte, getLsbD_lowByte, inWord]
    rw [position]
    by_cases h : b = a
    · subst h
      have whole : i < 64 := by omega
      have above : ¬ b % 8 * 8 + i < b % 8 * 8 := by omega
      simp [hi, whole, above, BitVec.getLsbD_eq_getElem]
    · rw [if_neg h, byte, getLsbD_shiftRight_bitPosition _ _ hi, same]
      have : b % 8 ≠ a % 8 := by unfold wordAddress at same; omega
      have far : b % 8 * 8 + i < a % 8 * 8 ∨ 8 ≤ b % 8 * 8 + i - a % 8 * 8 := by omega
      rcases far with far | far
      · simp [far]
      · have : ¬ b % 8 * 8 + i < a % 8 * 8 := by omega
        have : ¬ b % 8 * 8 + i - a % 8 * 8 < 8 := by omega
        simp [*]
  · have : b ≠ a := fun h => same (by rw [h])
    simp [setByte, byte, word_setWord_of_ne, same, this]

/-- The bytes of a list that was written are read back, and no other byte changes. -/
theorem byte_setBytes (m : Memory) (a b : Nat) (vs : List UInt8) :
    (m.setBytes a vs).byte b = if a ≤ b then (vs[b - a]?).getD (m.byte b) else m.byte b := by
  induction vs generalizing m a with
  | nil => simp [setBytes]
  | cons v vs ih =>
    rw [setBytes, ih, byte_setByte]
    rcases Nat.lt_trichotomy b a with h | h | h
    · simp [show ¬ a + 1 ≤ b by omega, show ¬ a ≤ b by omega, show b ≠ a by omega]
    · subst h
      simp [show ¬ b + 1 ≤ b by omega]
    · rw [show b - a = b - (a + 1) + 1 by omega, List.getElem?_cons_succ]
      simp [show a + 1 ≤ b by omega, show a ≤ b by omega, show b ≠ a by omega]

/-- A word keeps its value when a byte of another word is written. -/
theorem word_setByte_of_ne (m : Memory) {a b : Nat} (v : UInt8) (h : b ≠ wordAddress a) :
    (m.setByte a v).word b = m.word b := word_setWord_of_ne _ _ h

end Memory

end SegregatedFit
