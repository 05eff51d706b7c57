import SegregatedFit.CreationError

/-!
# Tuning

The two choices a client has when it makes a heap: how many free blocks one search may look at, and whether the heap is
audited after every operation.
-/

namespace SegregatedFit

/-- The free blocks one search looks at unless the client says otherwise. -/
def defaultProbeBudget : Nat := 18

/-- The choices a client makes for one heap. -/
structure Tuning where
  /-- The most free blocks one search looks at. A larger budget finds tighter fits, a smaller one bounds the time of an
  allocation on a heap with long free lists. -/
  probeBudget : Nat := defaultProbeBudget
  /-- Whether the heap is audited after every operation. -/
  selfCheck : Bool := true
  deriving DecidableEq, Repr

/-- The tuning itself, or the reason why no heap can have it: a search that may look at no block finds none. -/
def Tuning.validate (t : Tuning) : Except CreationError Tuning :=
  if t.probeBudget = 0 then .error (.badTuning "probe budget must be at least 1") else .ok t

end SegregatedFit
