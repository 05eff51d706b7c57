import SegregatedFit.Operation
import SegregatedFit.Span
import SegregatedFit.FreeList.Heads

/-!
# What the free lists work on

The store of a heap is the memory together with the heads of the free lists. The operations on free lists and on
neighbouring blocks are made of the steps below, each of which reads or writes one word or one head.
-/

namespace SegregatedFit

/-- The memory and the heads of the free lists. -/
structure Store where
  memory : Memory
  heads : Heads

/-- An operation on a store. -/
abbrev StoreM := Operation Store

namespace StoreM

/-- The tag of a block. -/
def tag (b : Nat) : StoreM Tag := return (← get).memory.tag b

/-- Changes the tag of a block. -/
def setTag (b : Nat) (t : Tag) : StoreM Unit := modify fun s => { s with memory := s.memory.setTag b t }

/-- Changes the flag of a block that says whether the block before it is allocated. -/
def setPredecessorAllocated (b : Nat) (flag : Bool) : StoreM Unit :=
  modify fun s => { s with memory := s.memory.setPredecessorAllocated b flag }

/-- A link of a block. -/
def link (b : Nat) (l : Link) : StoreM Nat := return (← get).memory.link b l

/-- Changes a link of a block, which must be free. -/
def setLink (b : Nat) (l : Link) (offset : Nat) : StoreM Unit := do
  if (← tag b).allocated then throw .linkInAllocated
  modify fun s => { s with memory := s.memory.setLink b l offset }

/-- Repeats the size of a block in its footer. -/
def writeFooter (b : Nat) : StoreM Unit := do
  let size := (← tag b).size
  if size < minBlockSize then throw .noRoomForFooter
  setTag (Memory.footerAddress b size) { size, allocated := false, predecessorAllocated := false }

/-- The block right after a block. -/
def following (b : Nat) : StoreM Nat := return (← get).memory.following b

/-- The block right before a block, which must be free. -/
def preceding (b : Nat) : StoreM Nat := do
  let s ← get
  s.memory.preceding b

/-- The head of the list of a class. -/
def head (c : Fin classCount) : StoreM Nat := return (← get).heads.get c

/-- Changes the head of the list of a class. -/
def setHead (c : Fin classCount) (offset : Nat) : StoreM Unit :=
  modify fun s => { s with heads := s.heads.set c offset }

/-! ## Running the steps -/

theorem tag_apply (b : Nat) (s : Store) : tag b s = .ok (s.memory.tag b) s := rfl

theorem setTag_apply (b : Nat) (t : Tag) (s : Store) :
    setTag b t s = .ok () { s with memory := s.memory.setTag b t } := rfl

theorem setPredecessorAllocated_apply (b : Nat) (flag : Bool) (s : Store) :
    setPredecessorAllocated b flag s = .ok () { s with memory := s.memory.setPredecessorAllocated b flag } := rfl

theorem link_apply (b : Nat) (l : Link) (s : Store) : link b l s = .ok (s.memory.link b l) s := rfl

theorem setLink_apply {b : Nat} {s : Store} (l : Link) (offset : Nat) (free : (s.memory.tag b).allocated = false) :
    setLink b l offset s = .ok () { s with memory := s.memory.setLink b l offset } := by
  simp only [setLink, Operation.bind_apply, tag_apply, free]
  rfl

theorem writeFooter_apply {b : Nat} {s : Store} (large : minBlockSize ≤ (s.memory.tag b).size) :
    writeFooter b s = .ok () { s with
      memory := s.memory.setTag (Memory.footerAddress b (s.memory.tag b).size)
        { size := (s.memory.tag b).size, allocated := false, predecessorAllocated := false } } := by
  simp only [writeFooter, Operation.bind_apply, tag_apply, Nat.not_lt.mpr large]
  rfl

theorem following_apply (b : Nat) (s : Store) : following b s = .ok (s.memory.following b) s := rfl

theorem head_apply (c : Fin classCount) (s : Store) : head c s = .ok (s.heads.get c) s := rfl

theorem setHead_apply (c : Fin classCount) (offset : Nat) (s : Store) :
    setHead c offset s = .ok () { s with heads := s.heads.set c offset } := rfl

end StoreM

end SegregatedFit
