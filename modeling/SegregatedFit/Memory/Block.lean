import SegregatedFit.Memory
import SegregatedFit.Tag

/-!
# Blocks in memory

A block is known by the address of its tag. The payload starts right after the tag; while the block is free, its first
two words are links to neighbours in a free list and its last word repeats the size.

    free block:       | tag | previous | next | ........ | footer |
    allocated block:  | tag | payload ........................... |

The functions here read and write these words. Whether a word has the meaning it is read with depends on the block: only
a free block has links and a footer.
-/

namespace SegregatedFit

/-- The two links of a free block. -/
inductive Link where
  | previous | next
  deriving DecidableEq, Repr

/-- How far a link stands behind the tag. -/
def Link.position : Link → Nat
  | previous => 8
  | next => 16

/-- The address of the payload of a block. -/
def payloadOf (b : Nat) : Nat := b + headerSize

namespace Memory

/-- The tag of a block. -/
def tag (m : Memory) (b : Nat) : Tag := Tag.decode (m.word b)

/-- The memory with another tag for a block. -/
def setTag (m : Memory) (b : Nat) (t : Tag) : Memory := m.setWord b t.encode

/-- The memory with the flag for the block before `b` set as given. -/
def setPredecessorAllocated (m : Memory) (b : Nat) (flag : Bool) : Memory :=
  m.setTag b ((m.tag b).withPredecessorAllocated flag)

/-- A link of a block, the offset of another block in the same heap or zero. -/
def link (m : Memory) (b : Nat) (l : Link) : Nat := (m.word (b + l.position)).toNat

/-- The memory with another link for a block. -/
def setLink (m : Memory) (b : Nat) (l : Link) (offset : Nat) : Memory := m.setWord (b + l.position) (UInt64.ofNat offset)

/-- The address of the last word of a block of `size` bytes. -/
def footerAddress (b size : Nat) : Nat := stepUp b (size - headerSize)

/-- The block right after a block. -/
def following (m : Memory) (b : Nat) : Nat := stepUp b (m.tag b).size

/-- The block right before a block. It is found through its footer, so it must be free. -/
def preceding (m : Memory) (b : Nat) : Except Fault Nat :=
  if (m.tag b).predecessorAllocated then .error (.allocatedPredecessor b)
  else .ok (stepDown b (m.tag (b - headerSize)).size)

/-- The bytes of a block that a client may use. -/
def payloadSize (m : Memory) (b : Nat) : Except Fault Nat := subChecked (m.tag b).size headerSize

/-! ## Reading after writing -/

theorem tag_aligned (m : Memory) (b : Nat) : (m.tag b).size % 16 = 0 := Nat.mul_mod_left _ _

theorem tag_setTag_self (m : Memory) (b : Nat) {t : Tag} (small : t.size < 0x1_0000_0000_0000_0000)
    (aligned : t.size % 16 = 0) : (m.setTag b t).tag b = t := by
  rw [tag, setTag, word_setWord_self, t.decode_encode small aligned]

theorem tag_setTag_of_ne (m : Memory) {a b : Nat} (t : Tag) (h : b ≠ a) : (m.setTag a t).tag b = m.tag b := by
  rw [tag, setTag, word_setWord_of_ne _ _ h, tag]

theorem tag_setLink_of_ne (m : Memory) {a b : Nat} {l : Link} (offset : Nat) (h : b ≠ a + l.position) :
    (m.setLink a l offset).tag b = m.tag b := by
  rw [tag, setLink, word_setWord_of_ne _ _ h, tag]

@[simp] theorem tag_setLink_self (m : Memory) (b : Nat) (l : Link) (offset : Nat) :
    (m.setLink b l offset).tag b = m.tag b :=
  tag_setLink_of_ne _ _ (by cases l <;> simp [Link.position])

theorem link_setLink_self (m : Memory) (b : Nat) (l : Link) {offset : Nat} (small : offset < 0x1_0000_0000_0000_0000) :
    (m.setLink b l offset).link b l = offset := by
  rw [link, setLink, word_setWord_self, UInt64.toNat_ofNat_of_lt' small]

theorem link_setLink_of_ne (m : Memory) {a b : Nat} {k l : Link} (offset : Nat)
    (h : b + k.position ≠ a + l.position) : (m.setLink a l offset).link b k = m.link b k := by
  rw [link, setLink, word_setWord_of_ne _ _ h, link]

end Memory

end SegregatedFit
