import SegregatedFit.FreeList

/-!
# Bounded best fit

A search looks through the lists of the class of the wanted size and of the larger classes, from front to back, and
wants the block that leaves the least over. What is left over must be nothing at all or enough for a free block of its
own. It stops at an exact fit, after the first class with a fitting block, and when its budget of blocks to look at is
used up; then the best block so far wins.
-/

namespace SegregatedFit

namespace FreeList

/-- A block that fits, and how much of it would be left over. -/
structure Candidate where
  block : Nat
  leftover : Nat
  deriving DecidableEq, Repr

/-- How the search of one list ended. -/
inductive ScanResult where
  /-- The whole search is over, with this answer. -/
  | decided (answer : Option Nat)
  /-- The list ended with this best candidate and this much of the budget left. -/
  | ended (best : Option Candidate) (budget : Nat)
  deriving DecidableEq, Repr

/-- The better of the best candidate so far and a block of `size` bytes for a request of `wanted` bytes. A block that is
as good as the best so far does not replace it. -/
def Candidate.improve (best : Option Candidate) (block size wanted : Nat) : Option Candidate :=
  if size < wanted + minBlockSize then best
  else match best with
    | none => some ⟨block, size - wanted⟩
    | some c => if size - wanted < c.leftover then some ⟨block, size - wanted⟩ else some c

/-- Searches one list from an offset on. -/
def scan (m : Memory) (span : Span) (wanted : Nat) :
    (budget cursor : Nat) → (best : Option Candidate) → Except Fault ScanResult
  | budget, 0, best => .ok (.ended best budget)
  | 0, cursor + 1, best => do
    let _ ← span.blockAt (cursor + 1)
    return .decided (best.map Candidate.block)
  | budget + 1, cursor + 1, best => do
    let b ← span.blockAt (cursor + 1)
    let size := (m.tag b).size
    if size = wanted then return .decided (some b)
    scan m span wanted budget (m.link b .next) (Candidate.improve best b size wanted)

/-- Searches the lists of several classes one after the other. -/
def searchClasses (s : Store) (span : Span) (wanted : Nat) :
    (budget : Nat) → List (Fin classCount) → Except Fault (Option Nat)
  | _, [] => .ok none
  | budget, c :: cs => do
    match ← scan s.memory span wanted budget (s.heads.get c) none with
    | .decided answer => return answer
    | .ended (some best) _ => return some best.block
    | .ended none budget => searchClasses s span wanted budget cs

/-- The free block to hand out for a block of `wanted` bytes, looking at no more than `budget` blocks. -/
def bestFit (s : Store) (span : Span) (wanted budget : Nat) : Except Fault (Option Nat) :=
  searchClasses s span wanted budget (classesFrom (classOf wanted))

end FreeList

end SegregatedFit
