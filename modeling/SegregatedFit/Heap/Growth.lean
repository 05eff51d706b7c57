import SegregatedFit.Heap
import SegregatedFit.FreeList

/-!
# Growing a heap

When no free block fits, the heap asks its source for more bytes. A free block right before the epilogue is enlarged by
what it lacks; otherwise a new block is put where the epilogue stands. Either way the new block ends where the moved
epilogue begins. Nothing is written before the source has given the bytes, so a refusal changes nothing.
-/

namespace SegregatedFit

namespace Heap

variable {σ : Type}

/-- Asks the source for `delta` bytes at the end of the span and answers whether it gave them there. -/
def requestGrowth [Backing σ] (delta : Nat) : HeapM σ Bool := do
  match ← HeapM.extend delta with
  | none =>
    HeapM.tell (.growthRefused delta)
    return false
  | some start =>
    let span := (← get).span
    if start ≠ span.finish then
      HeapM.tell (.growthMisplaced start span.finish)
      return false
    HeapM.tell (.grew delta (← addChecked span.length delta))
    return true

/-- Moves the epilogue `delta` bytes up. The block before it is allocated, because only growth moves the epilogue. -/
def moveEpilogue (delta : Nat) : HeapM σ Unit := do
  let span ← (← get).span.grow delta
  modify fun s => { s with span }
  HeapM.onStore fun span => StoreM.setTag span.epilogue { size := 0, allocated := true, predecessorAllocated := true }

/-- Enlarges a free block right before the epilogue to `wanted` bytes and makes it allocated. Answers nothing when there
is no such block, when it is large enough already, or when the source gives no more; then nothing has changed. -/
def extendTrailing [Backing σ] (wanted : Nat) : HeapM σ (Option Nat) := do
  if (← HeapM.onStore fun span => StoreM.tag span.epilogue).predecessorAllocated then return none
  let last ← HeapM.onStore fun span => StoreM.preceding span.epilogue
  let tag ← HeapM.onStore fun _ => StoreM.tag last
  if wanted ≤ tag.size then return none
  let deficit := wanted - tag.size
  if ← requestGrowth deficit then
    HeapM.onStore fun span => do
      FreeList.remove span last
      StoreM.setTag last (← Tag.make wanted true tag.predecessorAllocated)
    moveEpilogue deficit
    return some last
  else return none

/-- Puts a new allocated block of `wanted` bytes where the epilogue stands. Answers nothing when the source gives no
more; then nothing has changed. -/
def append [Backing σ] (wanted : Nat) : HeapM σ (Option Nat) := do
  if ← requestGrowth wanted then
    let block := (← get).span.epilogue
    HeapM.onStore fun span => do
      let tag ← StoreM.tag span.epilogue
      StoreM.setTag span.epilogue (← Tag.make wanted true tag.predecessorAllocated)
    moveEpilogue wanted
    return some block
  else return none

/-- A block of `wanted` bytes at the end of the heap, by the first of the two ways that succeeds. -/
def grow [Backing σ] (wanted : Nat) : HeapM σ (Option Nat) := do
  match ← extendTrailing wanted with
  | some block => return some block
  | none => append wanted

end Heap

end SegregatedFit
