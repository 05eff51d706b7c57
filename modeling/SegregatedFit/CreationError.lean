import SegregatedFit.Text

/-!
# Errors of making a heap

Why no heap could be made. Once a heap exists, running out of memory is answered by a null pointer instead.
-/

namespace SegregatedFit

/-- Why no heap, or no source for one, could be made. -/
inductive CreationError where
  /-- The source did not give the bytes that a fresh heap needs. -/
  | exhausted (bytes : Nat)
  /-- The source gave bytes elsewhere than it had announced. -/
  | nonContiguous (expected found : Nat)
  /-- No reservation can have the capacity asked for. -/
  | badCapacity
  /-- The tuning of the heap is not allowed. -/
  | badTuning (reason : String)
  deriving DecidableEq, Repr

/-- The text of a creation error. -/
def CreationError.message : CreationError → String
  | exhausted n => s!"heap source could not provide {n} bytes"
  | nonContiguous e f => s!"heap source returned {hex f}, expected the range to continue at {hex e}"
  | badCapacity => "invalid region layout"
  | badTuning reason => s!"invalid configuration: {reason}"

end SegregatedFit
