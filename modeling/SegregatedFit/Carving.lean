import SegregatedFit.FreeList

/-!
# Handing out a free block

A free block that is larger than what is wanted is cut in two when the rest can stand as a free block of its own; a
smaller rest stays with the block that is handed out.
-/

namespace SegregatedFit

namespace StoreM

/-- Makes the free block `b` an allocated block of `wanted` bytes, and files the rest, if there is enough of it, as a
free block right behind. -/
def carve (span : Span) (b wanted : Nat) : StoreM Unit := do
  let tag ← StoreM.tag b
  if tag.allocated then throw .carveAllocated
  if tag.size < wanted then throw .carveTooSmall
  FreeList.remove span b
  let tag ← StoreM.tag b
  let leftover ← subChecked tag.size wanted
  if minBlockSize ≤ leftover then
    setTag b (← Tag.make wanted true tag.predecessorAllocated)
    let rest ← following b
    setTag rest (← Tag.make leftover false true)
    writeFooter rest
    FreeList.insert span rest
  else
    setTag b (tag.withAllocated true)
    setPredecessorAllocated (← following b) true

end StoreM

end SegregatedFit
