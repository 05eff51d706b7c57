import SegregatedFit.Text

/-!
# Broken laws of a heap

What the audit of a heap reports. A violation names the law that is broken, the block it was noticed at and the numbers
found there, so that its text can be read without the heap.
-/

namespace SegregatedFit

/-- A law of the heap that does not hold, with the header address of the block it was noticed at. -/
inductive Violation where
  /-- The header before the first block is not the one written when the heap was made. -/
  | damagedPrologue (address : Nat)
  /-- The last header is not an allocated one of size zero, or does not end where the source says the heap ends. -/
  | damagedEpilogue (address finish : Nat)
  /-- A block lies outside the addresses the heap may use. -/
  | outOfBounds (address low high : Nat)
  /-- The payload of a block is not aligned. -/
  | misaligned (address : Nat)
  /-- The size of a block is too small, not a multiple of the alignment, or reaches past the last header. -/
  | badSize (address size : Nat)
  /-- The two size fields of a free block differ. -/
  | footerMismatch (address header footer : Nat)
  /-- A block says of the block before it that it is allocated (`flag` set) or free, and it is not. -/
  | stalePredecessorFlag (address : Nat) (flag : Bool)
  /-- A free block stands right after another free block. -/
  | uncoalesced (address : Nat)
  /-- An allocated block is a member of a free list. -/
  | allocatedInFreeList (address sizeClass : Nat)
  /-- A free block is a member of the list of a class it does not belong to. -/
  | wrongClass (address size sizeClass : Nat)
  /-- A member of a free list does not point back to the member before it, or was met before. -/
  | brokenLink (address : Nat)
  /-- A free block is a member of no free list. -/
  | unlisted (address : Nat)
  deriving DecidableEq, Repr

/-- The header address of the block the violation was noticed at. -/
def Violation.address : Violation → Nat
  | damagedPrologue a | damagedEpilogue a _ | outOfBounds a _ _ | misaligned a | badSize a _ | footerMismatch a _ _
  | stalePredecessorFlag a _ | uncoalesced a | allocatedInFreeList a _ | wrongClass a _ _ | brokenLink a | unlisted a => a

/-- The text of a violation. -/
def Violation.message : Violation → String
  | damagedPrologue a => s!"prologue at {hex a} is damaged"
  | damagedEpilogue a e => s!"epilogue at {hex a} is damaged or not at the end of the heap (end {hex e})"
  | outOfBounds a l h => s!"block {hex a} lies outside the heap [{hex l}, {hex h}]"
  | misaligned a => s!"payload of block {hex a} is not 16-byte aligned"
  | badSize a s => s!"block {hex a} has invalid size {s}"
  | footerMismatch a h f => s!"free block {hex a} has header size {h} but footer size {f}"
  | stalePredecessorFlag a true => s!"block {hex a} says its predecessor is allocated but it is not"
  | stalePredecessorFlag a false => s!"block {hex a} says its predecessor is free but it is not"
  | uncoalesced a => s!"free block {hex a} follows another free block"
  | allocatedInFreeList a c => s!"allocated block {hex a} is linked in size class {c}"
  | wrongClass a s c => s!"free block {hex a} of size {s} is linked in class {c}"
  | brokenLink a => s!"free list link at {hex a} is inconsistent"
  | unlisted a => s!"free block {hex a} is not linked in any size class"

end SegregatedFit
