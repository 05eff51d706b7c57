import SegregatedFit.Heap

/-!
# Making a heap

A heap begins at the present end of its source. The first address is rounded up to the alignment, so that payloads come
out aligned wherever the source begins; then the prologue and the epilogue are written, and there are no blocks yet.
-/

namespace SegregatedFit

variable {σ : Type}

/-- Why no heap was made: an error that the client is told, or a fault. -/
inductive CreationFailure where
  | error (error : CreationError)
  | fault (fault : Fault)
  deriving DecidableEq, Repr

/-- A computation that has no state stops with the state as it is. -/
instance : MonadLift (Except Fault) (EStateM CreationFailure (Site σ)) where
  monadLift
    | .ok a => pure a
    | .error f => throw (.fault f)

/-- The memory with the unused first word, the prologue, its footer and the epilogue of a span without blocks. -/
def Memory.format (m : Memory) (span : Span) : Memory :=
  let prologue : Tag := { size := prologueSize, allocated := true, predecessorAllocated := true }
  let epilogue : Tag := { size := 0, allocated := true, predecessorAllocated := true }
  (((m.setWord span.base 0).setTag span.prologue prologue).setTag (span.prologue + headerSize) prologue).setTag
    span.epilogue epilogue

namespace Heap

/-- Asks the source for the bytes of a heap without blocks and writes them. -/
def format [Backing σ] : EStateM CreationFailure (Site σ) Span := do
  let some first ← modifyGet (Site.extend · 0) | throw (.error (.exhausted 0))
  let base ← roundUp first
  let padding ← subChecked base first
  let total ← addChecked padding initialLength
  let some start ← modifyGet (Site.extend · total) | throw (.error (.exhausted total))
  if start ≠ first then throw (.error (.nonContiguous first start))
  let span ← Span.initial base
  modify fun s => { s with memory := s.memory.format span }
  modify (Site.tell · (.formatted base padding))
  return span

/-- Makes a heap. A tuning that is not allowed is refused before the source is asked for anything. -/
def create [Backing σ] (tuning : Tuning) : EStateM CreationFailure (Site σ) (Heap σ) := do
  match tuning.validate with
  | .error e => throw (.error e)
  | .ok tuning =>
    let span ← format
    return { source := (← get).source, span, heads := .empty, tuning }

end Heap

end SegregatedFit
