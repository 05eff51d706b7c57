import SegregatedFit.Violation

/-!
# Faults

A fault stops an operation where it stands: a number left the 64-bit range, or the memory the operation works on does
not look the way the operation needs it. No operation on a healthy heap ends in a fault; a caller that breaks the rules,
or that has written over a header, can bring one about.
-/

namespace SegregatedFit

/-- Why an operation stopped where it stood. -/
inductive Fault where
  /-- A sum does not fit in 64 bits. -/
  | addOverflow
  /-- A difference is negative. -/
  | subOverflow
  /-- A header is to hold a size that is not a multiple of the alignment. -/
  | unalignedSize (size : Nat)
  /-- A header is looked for at an address that is not a multiple of eight. -/
  | unalignedHeader (address : Nat)
  /-- A block is looked for at an offset that no block of the heap can have. -/
  | offsetOutside (offset : Nat)
  /-- The offset of a block is asked for, and the block is not in the heap. -/
  | addressOutside
  /-- A footer is to be written into a block too small to hold one. -/
  | noRoomForFooter
  /-- The block before a block is asked for, and it is allocated. -/
  | allocatedPredecessor (address : Nat)
  /-- A link is to be written into an allocated block. -/
  | linkInAllocated
  /-- An allocated block is to join a free list. -/
  | insertAllocated (address : Nat)
  /-- An allocated block is to leave a free list. -/
  | removeAllocated (address : Nat)
  /-- An allocated block is to be handed out. -/
  | carveAllocated
  /-- A block is to be handed out for a size larger than its own. -/
  | carveTooSmall
  /-- A free block is released. -/
  | alreadyFree (address : Nat)
  /-- A pointer that is not in the heap is released. -/
  | foreignPointer (pointer : Nat)
  /-- A size class is named that does not exist. -/
  | noSuchClass (sizeClass : Nat)
  /-- A walk meets more blocks than the heap has room for, so it never ends. -/
  | endlessWalk
  /-- The audit after an operation found a broken law. -/
  | brokenHeap (violation : Violation)
  deriving DecidableEq, Repr

/-- The text of a fault. Where it names the place that the client called from, it has the word `CALLER`. -/
def Fault.message : Fault → String
  | addOverflow => "attempt to add with overflow"
  | subOverflow => "attempt to subtract with overflow"
  | unalignedSize n =>
    s!"assertion `left == right` failed: block size {n} is not 16-byte aligned\n  left: {n % 16}\n right: 0"
  | unalignedHeader a => s!"assertion `left == right` failed\n  left: {a % 8}\n right: 0"
  | offsetOutside o => s!"offset {hex o} outside the heap"
  | addressOutside => "assertion failed: self.contains(block.addr())"
  | noRoomForFooter => "assertion failed: size >= MIN_BLOCK_SIZE"
  | allocatedPredecessor a => s!"block {hex a} has an allocated predecessor"
  | linkInAllocated => "assertion failed: !self.is_allocated()"
  | insertAllocated a => s!"inserting allocated block {hex a}"
  | removeAllocated a => s!"removing allocated block {hex a}"
  | carveAllocated => "assertion failed: !block.is_allocated()"
  | carveTooSmall => "assertion failed: block.size() >= size"
  | alreadyFree a => s!"block {hex a} is already free"
  | foreignPointer p => s!"{hex p} is not in this heap"
  | noSuchClass c => s!"size class {c} does not exist"
  | endlessWalk => "walk does not end"
  | brokenHeap v => s!"heap invariant violated at {hex v.address} (call at CALLER): {v.message}"

end SegregatedFit
