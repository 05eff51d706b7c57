import SegregatedFit.Backing

/-!
# A source that follows a script

An arena of fixed capacity whose refusals and gaps are laid down in advance, and which may misreport its bounds. It
serves to bring a heap into the situations a well-behaved source never brings it into.
-/

namespace SegregatedFit

/-- How an arena misbehaves. -/
structure Script where
  /-- Whether the request with the given number is refused. -/
  refuses : Nat → Bool := fun _ => false
  /-- The bytes left out in front of the request with the given number. -/
  gap : Nat → Nat := fun _ => 0
  /-- How far the lowest address reported lies from the true one. -/
  lowShift : Int := 0
  /-- How far the highest address reported lies from the true one. -/
  highShift : Int := 0
  /-- Whether the highest of all addresses is reported as the highest address. -/
  unbounded : Bool := false

/-- An arena and what was asked of it so far. -/
structure Scripted where
  base : Nat
  capacity : Nat
  script : Script
  used : Nat := 0
  /-- The bytes of every request, the first request first. -/
  requests : List Nat := []

namespace Scripted

/-- An integer as a 64-bit address. -/
def wrap (n : Int) : Nat := (n % 0x1_0000_0000_0000_0000).toNat

/-- Asks for `n` bytes more, as the script lays down for the next request. -/
def extend (a : Scripted) (brk : ProgramBreak) (n : Nat) : Extension Scripted :=
  let index := a.requests.length
  let asked := { a with requests := a.requests ++ [n] }
  let start := a.used + a.script.gap index
  if a.script.refuses index ∨ a.capacity < start ∨ a.capacity - start < n then
    { start := none, source := asked, programBreak := brk }
  else { start := some (a.base + start), source := { asked with used := start + n }, programBreak := brk }

instance : Backing Scripted where
  extend := extend
  lowest a := wrap (a.base + a.script.lowShift)
  highest a := if a.script.unbounded then 0x1_0000_0000_0000_0000 - 1 else wrap (a.base + a.used - 1 + a.script.highShift)

end Scripted

end SegregatedFit
