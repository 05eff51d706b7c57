import SegregatedFit.Backing
import SegregatedFit.CreationError

/-!
# A reservation of fixed capacity

All the memory is reserved when the source is made, and handed out from the front. Growth fails once the capacity is
used up.
-/

namespace SegregatedFit

/-- A reservation, of which the first `used` bytes were handed out. -/
structure Reserve where
  base : Nat
  capacity : Nat
  used : Nat := 0
  deriving DecidableEq, Repr

namespace Reserve

/-- A fresh reservation. `place` says where the machine puts so many bytes, if it has room for them. The capacity,
rounded up to the alignment, must be less than half the address space. -/
def create (capacity : Nat) (place : Nat → Option Nat) : Except CreationError Reserve :=
  if 0x8000_0000_0000_0000 - 16 < capacity then .error .badCapacity
  else match place capacity with
    | none => .error (.exhausted capacity)
    | some base => .ok { base, capacity }

/-- The bytes not handed out yet. -/
def remaining (r : Reserve) : Nat := r.capacity - r.used

instance : Backing Reserve where
  extend r brk n :=
    if r.remaining < n then
      { start := none, source := r, programBreak := brk, records := [.reserveExhausted n r.remaining] }
    else { start := some (r.base + r.used), source := { r with used := r.used + n }, programBreak := brk }
  lowest r := r.base
  highest r := r.base + r.used - 1

end Reserve

end SegregatedFit
