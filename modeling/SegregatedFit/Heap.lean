import SegregatedFit.Backing
import SegregatedFit.Store
import SegregatedFit.Tuning

/-!
# Heaps

A heap is its source, the span it manages, the heads of its free lists and its tuning; everything else about it stands
in the memory. An operation on a heap works on the heap, the memory and the program break, and leaves records of what it
did. When it stops with a fault, all of these are as they were when it stopped.
-/

namespace SegregatedFit

/-- A heap over a source of type `σ`, apart from what stands in the memory. -/
structure Heap (σ : Type) where
  source : σ
  span : Span
  heads : Heads
  tuning : Tuning

/-- A source at work: it shares the memory and the program break with others, and tells what it does. -/
structure Site (σ : Type) where
  source : σ
  memory : Memory
  programBreak : ProgramBreak
  records : List Record := []

/-- A heap at work. -/
structure HeapState (σ : Type) extends Site σ where
  span : Span
  heads : Heads
  tuning : Tuning

/-- An operation on a heap. -/
abbrev HeapM (σ : Type) := Operation (HeapState σ)

variable {σ : Type}

/-- Asks the source for `n` bytes more. -/
def Site.extend [Backing σ] (s : Site σ) (n : Nat) : Option Nat × Site σ :=
  let e := Backing.extend s.source s.programBreak n
  (e.start, { s with source := e.source, programBreak := e.programBreak, records := s.records ++ e.records })

/-- Leaves a record. -/
def Site.tell (s : Site σ) (r : Record) : Site σ := { s with records := s.records ++ [r] }

namespace HeapState

/-- The heap that is at work. -/
def heap (s : HeapState σ) : Heap σ := { source := s.source, span := s.span, heads := s.heads, tuning := s.tuning }

/-- The part of the state that free lists and blocks are made of. -/
def store (s : HeapState σ) : Store := { memory := s.memory, heads := s.heads }

end HeapState

namespace HeapM

/-- Asks the source for `n` bytes more. -/
def extend [Backing σ] (n : Nat) : HeapM σ (Option Nat) := fun s =>
  let (start, site) := s.toSite.extend n
  .ok start { s with toSite := site }

/-- Leaves a record. -/
def tell (r : Record) : HeapM σ Unit := modify fun s => { s with toSite := s.toSite.tell r }

/-- Runs an operation on the store of the heap. -/
def onStore {α : Type} (x : Span → StoreM α) : HeapM σ α := fun s =>
  match x s.span s.store with
  | .ok a t => .ok a { s with memory := t.memory, heads := t.heads }
  | .error f t => .error f { s with memory := t.memory, heads := t.heads }

/-- Changes the memory. -/
def modifyMemory (f : Memory → Memory) : HeapM σ Unit := modify fun s => { s with memory := f s.memory }

/-! ## Running the steps -/

theorem extend_apply [Backing σ] (n : Nat) (s : HeapState σ) :
    extend n s = .ok (s.toSite.extend n).1 { s with toSite := (s.toSite.extend n).2 } := rfl

theorem tell_apply (r : Record) (s : HeapState σ) : tell r s = .ok () { s with toSite := s.toSite.tell r } := rfl

theorem onStore_apply {α : Type} (x : Span → StoreM α) (s : HeapState σ) :
    onStore x s = match x s.span s.store with
      | .ok a t => .ok a { s with memory := t.memory, heads := t.heads }
      | .error f t => .error f { s with memory := t.memory, heads := t.heads } := rfl

theorem modifyMemory_apply (f : Memory → Memory) (s : HeapState σ) :
    modifyMemory f s = .ok () { s with memory := f s.memory } := rfl

end HeapM

end SegregatedFit
