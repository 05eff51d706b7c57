import SegregatedFit.Arithmetic

/-!
# Boundary tags

A tag is one 64-bit word at the start of every block. The size of the block stands above the low four bits, which are
free because sizes are multiples of sixteen; bit 0 says that the block is allocated, and bit 1 that the block before it
is. A free block repeats its size in a tag at its end, where the block after it finds it.
-/

namespace SegregatedFit

/-- What the word at the start of a block says. -/
structure Tag where
  /-- The bytes of the whole block, the tag included. -/
  size : Nat
  /-- Whether the block is allocated. -/
  allocated : Bool
  /-- Whether the block right before this one is allocated. -/
  predecessorAllocated : Bool
  deriving DecidableEq, Repr

namespace Tag

/-- A tag of the given size and flags, a fault when the size is not a multiple of the alignment. -/
def make (size : Nat) (allocated predecessorAllocated : Bool) : Except Fault Tag :=
  if size % alignment = 0 then .ok { size, allocated, predecessorAllocated } else .error (.unalignedSize size)

/-- A size that is a multiple of the alignment makes a tag. -/
theorem make_of_aligned {size : Nat} (aligned : size % 16 = 0) (allocated predecessorAllocated : Bool) :
    make size allocated predecessorAllocated = .ok { size, allocated, predecessorAllocated } := if_pos aligned

/-- The tag with another size, a fault when it is not a multiple of the alignment. -/
def withSize (t : Tag) (size : Nat) : Except Fault Tag := make size t.allocated t.predecessorAllocated

/-- The tag of a block that was handed out (`allocated` set) or taken back. -/
def withAllocated (t : Tag) (allocated : Bool) : Tag := { t with allocated }

/-- The tag of a block whose predecessor was handed out (`predecessorAllocated` set) or taken back. -/
def withPredecessorAllocated (t : Tag) (predecessorAllocated : Bool) : Tag := { t with predecessorAllocated }

/-- The word of a tag: the size without its low four bits, and the two flags below it. -/
def encode (t : Tag) : UInt64 :=
  UInt64.ofNat (t.size / 16 * 16 + 2 * t.predecessorAllocated.toNat + t.allocated.toNat)

/-- The tag a word stands for. Bits 2 and 3 mean nothing. -/
def decode (w : UInt64) : Tag where
  size := w.toNat / 16 * 16
  allocated := w.toNat % 2 == 1
  predecessorAllocated := w.toNat / 2 % 2 == 1

/-! ## Reading back -/

theorem toNat_encode (t : Tag) (small : t.size < 0x1_0000_0000_0000_0000) :
    t.encode.toNat = t.size / 16 * 16 + 2 * t.predecessorAllocated.toNat + t.allocated.toNat := by
  have := t.predecessorAllocated.toNat_le
  have := t.allocated.toNat_le
  rw [encode, UInt64.toNat_ofNat_of_lt' (by change _ < 0x1_0000_0000_0000_0000; omega)]

/-- A tag whose size a block can have is read back from its word. -/
theorem decode_encode (t : Tag) (small : t.size < 0x1_0000_0000_0000_0000) (aligned : t.size % 16 = 0) :
    decode t.encode = t := by
  have word := t.toNat_encode small
  obtain ⟨size, a, p⟩ := t
  simp only at small aligned word
  simp only [decode, word, Tag.mk.injEq]
  cases a <;> cases p <;> simp <;> omega

/-- Writing back the tag read from a word keeps the word but for bits 2 and 3, which are cleared. -/
theorem toNat_encode_decode (w : UInt64) : (decode w).encode.toNat = w.toNat / 16 * 16 + w.toNat % 4 := by
  have := w.toNat_lt
  rw [toNat_encode _ (by simp only [decode]; omega)]
  simp only [decode]
  have bit : ∀ n : Nat, (n % 2 == 1).toNat = n % 2 := fun n => by
    rcases Nat.mod_two_eq_zero_or_one n with h | h <;> simp [h]
  rw [bit, bit]
  omega

end Tag

end SegregatedFit
