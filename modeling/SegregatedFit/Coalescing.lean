import SegregatedFit.FreeList

/-!
# Taking a block back

A block that is released is merged at once with the free blocks on either side, so that no two free blocks ever touch.
-/

namespace SegregatedFit

namespace StoreM

/-- Enlarges the free block `b` by `extra` bytes and repeats its new size in its footer. -/
def enlarge (b extra : Nat) : StoreM Unit := do
  let tag ← StoreM.tag b
  setTag b (← tag.withSize (← addChecked tag.size extra))
  writeFooter b

/-- Merges the free block `b` into the block before it, if that one is free too. Answers the block that holds both. -/
def mergePreceding (span : Span) (b : Nat) : StoreM Nat := do
  let tag ← StoreM.tag b
  if tag.predecessorAllocated then return b
  let before ← preceding b
  FreeList.remove span before
  enlarge before (← StoreM.tag b).size
  return before

/-- Merges the block after the free block `b` into it, if that one is free too. -/
def mergeFollowing (span : Span) (b : Nat) : StoreM Unit := do
  let next ← following b
  if (← StoreM.tag next).allocated then return
  FreeList.remove span next
  let after ← following next
  enlarge b (← StoreM.tag next).size
  setPredecessorAllocated after false

/-- Takes back the allocated block `b`: it becomes free, is merged with its free neighbours, and the result joins the
list of its class. Answers the block that joined. -/
def release (span : Span) (b : Nat) : StoreM Nat := do
  let tag ← StoreM.tag b
  if tag.allocated = false then throw (.alreadyFree b)
  setTag b (tag.withAllocated false)
  writeFooter b
  setPredecessorAllocated (← following b) false
  let merged ← mergePreceding span b
  mergeFollowing span merged
  FreeList.insert span merged
  return merged

end StoreM

end SegregatedFit
