import SegregatedFit.Backing

/-!
# Growth by the program break

The range ends at the program break and grows with it. Others may move the break too. The source remembers where it left
the break and refuses to go on once someone has moved it, so that its range stays in one piece. The request that notices
has advanced the break already; those bytes belong to nobody.
-/

namespace SegregatedFit

/-- The range that one source got from the program break. -/
structure DataSegment where
  /-- The first address of the range and the first address behind it, once there is a range. -/
  range : Option (Nat × Nat) := none
  deriving DecidableEq, Repr

namespace DataSegment

/-- What is told when an advance of the break starts elsewhere than at the end of the range. -/
def joins (d : DataSegment) (start : Nat) : Except Record Nat :=
  match d.range with
  | none => .ok start
  | some (first, finish) => if start = finish then .ok first else .error (.breakMoved finish start)

/-- Asks for `n` bytes more. An advance by half the address space or more is not even tried, and one that starts at address
zero gives no pointer. -/
def extend (d : DataSegment) (brk : ProgramBreak) (n : Nat) : Extension DataSegment :=
  if 0x8000_0000_0000_0000 ≤ n then { start := none, source := d, programBreak := brk }
  else match brk.advance n with
    | (none, brk) => { start := none, source := d, programBreak := brk, records := [.breakRefused n] }
    | (some 0, brk) => { start := none, source := d, programBreak := brk }
    | (some start, brk) =>
      match d.joins start with
      | .error moved => { start := none, source := d, programBreak := brk, records := [moved] }
      | .ok first => { start := some start, source := { range := some (first, start + n) }, programBreak := brk }

instance : Backing DataSegment where
  extend := extend
  lowest d := (d.range.map Prod.fst).getD 0
  highest d := (d.range.map fun r => r.2 - 1).getD 0

end DataSegment

end SegregatedFit
