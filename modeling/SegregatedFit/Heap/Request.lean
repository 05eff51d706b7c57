import SegregatedFit.Heap.Growth
import SegregatedFit.FreeList.Search
import SegregatedFit.Carving
import SegregatedFit.Coalescing
import SegregatedFit.Audit
import SegregatedFit.Memory.Bytes

/-!
# Requests

What a client asks of a heap: memory, memory set to zero, to take memory back, and to move it into a block of another
size. A pointer is the address of a payload; `none` is the null pointer. When the tuning says so, the heap is audited
after every request that changed it, and a broken law is a fault.
-/

namespace SegregatedFit

/-- A request of a client. -/
inductive Request where
  /-- Asks for `size` bytes. -/
  | allocate (size : Nat)
  /-- Asks for `count` elements of `size` bytes each, all zero. -/
  | allocateZeroed (count size : Nat)
  /-- Gives back what an earlier request was answered with. -/
  | release (pointer : Option Nat)
  /-- Asks for `size` bytes in place of an earlier answer, with the bytes that stood there. -/
  | resize (pointer : Option Nat) (size : Nat)
  deriving DecidableEq, Repr

namespace HeapState

variable {σ : Type}

/-- The outcome of an audit of the heap as it is. -/
def audit [Backing σ] (s : HeapState σ) : Except Finding Unit :=
  SegregatedFit.audit s.store s.span (Backing.lowest s.source) (Backing.highest s.source)

end HeapState

/-- The block whose payload a pointer points at. -/
def blockOf (pointer : Nat) : Except Fault Nat :=
  if (pointer - headerSize) % 8 ≠ 0 then .error (.unalignedHeader (pointer - headerSize)) else .ok (pointer - headerSize)

namespace Heap

variable {σ : Type}

/-- Audits the heap if its tuning says so, and stops with a fault at a broken law. -/
def selfCheck [Backing σ] : HeapM σ Unit := do
  let s ← get
  if s.tuning.selfCheck then
    match s.audit with
    | .ok () => return
    | .error (.fault f) => throw f
    | .error (.violation v) =>
      HeapM.tell (.auditFailed v)
      throw (.brokenHeap v)

/-- An allocated block of `wanted` bytes, from a free block if one fits and from the source otherwise. -/
def obtain [Backing σ] (wanted : Nat) : HeapM σ (Option Nat) := do
  let s ← get
  match ← FreeList.bestFit s.store s.span wanted s.tuning.probeBudget with
  | some block =>
    HeapM.onStore fun span => StoreM.carve span block wanted
    return some block
  | none => grow wanted

/-- A pointer to at least `size` bytes, or nothing when no block can be that large or the heap cannot grow. -/
def allocate [Backing σ] (size : Nat) : HeapM σ (Option Nat) := do
  match blockSizeFor size with
  | none =>
    HeapM.tell (.requestTooLarge size)
    return none
  | some wanted =>
    match ← obtain wanted with
    | none =>
      HeapM.tell (.outOfMemory size)
      return none
    | some block =>
      let blockSize := (← HeapM.onStore fun _ => StoreM.tag block).size
      HeapM.tell (.allocated size (payloadOf block) blockSize)
      selfCheck
      return some (payloadOf block)

/-- Takes back the block of a pointer. -/
def releasePointer [Backing σ] (pointer : Nat) : HeapM σ Unit := do
  if (← get).span.contains pointer = false then throw (.foreignPointer pointer)
  let block ← blockOf pointer
  let merged ← HeapM.onStore fun span => StoreM.release span block
  let freeSize := (← HeapM.onStore fun _ => StoreM.tag merged).size
  HeapM.tell (.released pointer freeSize)
  selfCheck

/-- Takes back the block of a pointer; the null pointer is ignored. -/
def release [Backing σ] : Option Nat → HeapM σ Unit
  | none => return
  | some pointer => releasePointer pointer

/-- The bytes that a client may use behind a pointer. -/
def usableSize (pointer : Nat) : HeapM σ Nat := do
  let block ← blockOf pointer
  let s ← get
  s.memory.payloadSize block

/-- Moves an allocation into a block for `size` bytes and keeps as many of its bytes as fit. The new block is found
before the old one is taken back, so when there is none the old pointer stays good. Without a pointer this allocates,
and for no bytes it releases. -/
def resize [Backing σ] : Option Nat → Nat → HeapM σ (Option Nat)
  | none, size => allocate size
  | some pointer, 0 => do
    releasePointer pointer
    return none
  | some pointer, size => do
    let oldSize ← usableSize pointer
    match ← allocate size with
    | none => return none
    | some moved =>
      HeapM.modifyMemory (·.copyBytes pointer moved (min oldSize size))
      releasePointer pointer
      HeapM.tell (.resized pointer size moved)
      return some moved

/-- A pointer to `count * size` bytes that are all zero, or nothing when these are too many or the heap cannot grow. -/
def allocateZeroed [Backing σ] (count size : Nat) : HeapM σ (Option Nat) := do
  if 0x1_0000_0000_0000_0000 ≤ count * size then
    HeapM.tell (.zeroedOverflow count size)
    return none
  match ← allocate (count * size) with
  | none => return none
  | some pointer =>
    HeapM.modifyMemory (·.zeroBytes pointer (count * size))
    return some pointer

/-- Serves a request. The answer of a release is the null pointer. -/
def serve [Backing σ] : Request → HeapM σ (Option Nat)
  | .allocate size => allocate size
  | .allocateZeroed count size => allocateZeroed count size
  | .release pointer => do
    release pointer
    return none
  | .resize pointer size => resize pointer size

end Heap

end SegregatedFit
