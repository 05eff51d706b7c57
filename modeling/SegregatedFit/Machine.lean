import SegregatedFit.Heap.Creation
import SegregatedFit.Heap.Request
import SegregatedFit.Heap.View

/-!
# Machines

A machine has one memory and one program break, and any number of heaps that share them. Operations run on one heap at a
time, in any order.
-/

namespace SegregatedFit

/-- A memory, a program break, and the heaps made so far. A heap that could not be made keeps its place in the row. -/
structure Machine (σ : Type) where
  memory : Memory
  programBreak : ProgramBreak
  heaps : Array (Option (Heap σ)) := #[]

/-- What an operation answers, and the records it leaves. -/
structure Report (ε α : Type) where
  answer : Except ε α
  records : List Record

namespace Machine

variable {σ : Type}

/-- The heap at a place of the row, ready to work. -/
def heapState (M : Machine σ) (i : Nat) : Option (HeapState σ) := do
  let h ← (M.heaps[i]?).join
  return { source := h.source, memory := M.memory, programBreak := M.programBreak, span := h.span, heads := h.heads,
           tuning := h.tuning }

/-- Makes a heap over a source and puts it at the end of the row. -/
def create [Backing σ] (M : Machine σ) (source : σ) (tuning : Tuning) : Report CreationFailure Unit × Machine σ :=
  match Heap.create tuning { source, memory := M.memory, programBreak := M.programBreak } with
  | .ok h s =>
    ({ answer := .ok (), records := s.records },
      { memory := s.memory, programBreak := s.programBreak, heaps := M.heaps.push (some h) })
  | .error f s =>
    ({ answer := .error f, records := s.records },
      { memory := s.memory, programBreak := s.programBreak, heaps := M.heaps.push none })

/-- Keeps the place of a heap that has no source. -/
def skip (M : Machine σ) : Machine σ := { M with heaps := M.heaps.push none }

/-- Runs an operation on the heap at a place of the row, if there is one. -/
def act {α : Type} (M : Machine σ) (i : Nat) (x : HeapM σ α) : Option (Report Fault α × Machine σ) :=
  (M.heapState i).map fun s =>
    let settle (s : HeapState σ) : Machine σ :=
      { memory := s.memory, programBreak := s.programBreak, heaps := M.heaps.setIfInBounds i (some s.heap) }
    match x s with
    | .ok a s => ({ answer := .ok a, records := s.records }, settle s)
    | .error f s => ({ answer := .error f, records := s.records }, settle s)

/-- The program break moved by someone who is no heap, or nothing when it cannot be moved so. -/
def shiftBreak (M : Machine σ) (n : Int) : Option (Machine σ) :=
  (M.programBreak.shift n).map fun b => { M with programBreak := b }

end Machine

end SegregatedFit
