import SegregatedFit.Record

/-!
# Backing: where heap memory comes from

A heap gets its memory from a source, which gives bytes at the end of one range of addresses that only grows. A source
may stand on the program break, which it shares with every other user of the break, so an extension takes the break and
gives it back.
-/

namespace SegregatedFit

/-- The end of the data segment of a program, shared by everyone who moves it. -/
structure ProgramBreak where
  /-- The first address behind the data segment. -/
  top : Nat
  /-- How often an advance was asked for. -/
  calls : Nat := 0
  /-- Whether the advance with the given number, by the given bytes, is refused. -/
  refuses : Nat → Nat → Bool := fun _ _ => false
  /-- How far others move the break up right before the advance with the given number. -/
  drift : Nat → Nat := fun _ => 0
  /-- The ranges that others took by moving the break up, each with the first address behind it. -/
  taken : List (Nat × Nat) := []

namespace ProgramBreak

/-- Whether the break may move up by `n` bytes. It stays an address, and no answer is the last address, which means a
refusal. -/
def reaches (b : ProgramBreak) (n : Nat) : Bool :=
  b.top ≠ 0xffff_ffff_ffff_ffff && b.top + n < 0x1_0000_0000_0000_0000

/-- The break after others took `n` bytes, or as it was when there are not so many. -/
def yielding (b : ProgramBreak) (n : Nat) : ProgramBreak :=
  if b.reaches n then { b with top := b.top + n, taken := (b.top, b.top + n) :: b.taken } else b

/-- Moves the break up by `n` bytes and answers where it was, or leaves it alone and answers nothing. Others may have moved
it before. -/
def advance (b : ProgramBreak) (n : Nat) : Option Nat × ProgramBreak :=
  let b := b.yielding (b.drift b.calls)
  if b.refuses b.calls n || !b.reaches n then (none, { b with calls := b.calls + 1 })
  else (some b.top, { b with top := b.top + n, calls := b.calls + 1 })

/-- The break moved up or down by someone who is no source of a heap, or nothing when it cannot be moved so. -/
def shift (b : ProgramBreak) (n : Int) : Option ProgramBreak :=
  match n with
  | .ofNat n => if b.refuses b.calls n || !b.reaches n then none else some { b.yielding n with calls := b.calls + 1 }
  | .negSucc n => if n + 1 ≤ b.top then some { b with top := b.top - (n + 1), calls := b.calls + 1 } else none

end ProgramBreak

/-- The answer of a source to a request for more bytes. -/
structure Extension (σ : Type) where
  /-- The first of the new bytes, or nothing. -/
  start : Option Nat
  source : σ
  programBreak : ProgramBreak
  /-- What the source tells about it. -/
  records : List Record := []

/-- A source of heap memory. -/
class Backing (σ : Type) where
  /-- Asks for more bytes at the end of the range. Asking for none tells where the range ends. -/
  extend : σ → ProgramBreak → Nat → Extension σ
  /-- The first address of the range handed out so far. -/
  lowest : σ → Nat
  /-- The last address of the range handed out so far. -/
  highest : σ → Nat

end SegregatedFit
