import SegregatedFit.Violation

/-!
# Records

What a heap and its source tell about their work while they do it. A record is one event with the numbers that belong to
it; its importance and its text are functions of the event.
-/

namespace SegregatedFit

/-- How important a record is. -/
inductive Level where
  | error | warn | debug | trace
  deriving DecidableEq, Repr

/-- The name of a level. -/
def Level.name : Level → String
  | error => "error"
  | warn => "warn"
  | debug => "debug"
  | trace => "trace"

/-- An event in the work of a heap or its source. -/
inductive Record where
  /-- A reservation has too little left for the bytes asked for. -/
  | reserveExhausted (asked left : Nat)
  /-- The program break could not be moved. -/
  | breakRefused (asked : Nat)
  /-- Someone else has moved the program break. -/
  | breakMoved (expected found : Nat)
  /-- A heap was made at an aligned address, after some unused bytes. -/
  | formatted (base padding : Nat)
  /-- The source gave no bytes. -/
  | growthRefused (asked : Nat)
  /-- The source gave bytes that do not begin where the heap ends. -/
  | growthMisplaced (found expected : Nat)
  /-- The source gave bytes at the end of the heap. -/
  | grew (asked total : Nat)
  /-- A request is larger than any block. -/
  | requestTooLarge (size : Nat)
  /-- No block was found for a request and the heap could not grow. -/
  | outOfMemory (size : Nat)
  /-- A request was served. -/
  | allocated (size pointer blockSize : Nat)
  /-- A block was taken back and is now part of a free block of the size given. -/
  | released (pointer freeSize : Nat)
  /-- An allocation was moved. -/
  | resized (pointer size moved : Nat)
  /-- The bytes of an array of elements are too many to count. -/
  | zeroedOverflow (count size : Nat)
  /-- The audit after an operation found a broken law. -/
  | auditFailed (violation : Violation)
  deriving DecidableEq, Repr

namespace Record

/-- How important an event is. -/
def level : Record → Level
  | auditFailed _ => .error
  | reserveExhausted .. | breakRefused _ | breakMoved .. | growthRefused _ | growthMisplaced .. | requestTooLarge _
  | outOfMemory _ | zeroedOverflow .. => .warn
  | formatted .. | grew .. => .debug
  | allocated .. | released .. | resized .. => .trace

/-- The text of an event. Where it names the place that the client called from, it has the word `CALLER`. -/
def text : Record → String
  | reserveExhausted n left => s!"region exhausted: asked for {n} bytes, {left} left"
  | breakRefused n => s!"sbrk({n}) failed"
  | breakMoved e f => s!"program break moved from {hex e} to {hex f} behind the heap's back"
  | formatted b p => s!"heap formatted at {hex b} ({p} bytes of padding)"
  | growthRefused n => s!"heap source refused to grow by {n} bytes"
  | growthMisplaced f e => s!"heap source grew at {hex f}, expected {hex e}"
  | grew n total => s!"heap grew by {n} bytes to {total} bytes"
  | requestTooLarge n => s!"allocate({n}): request too large"
  | outOfMemory n => s!"allocate({n}): out of memory"
  | allocated n p b => s!"allocate({n}) -> {hex p} (block of {b})"
  | released p n => s!"release({hex p}) -> free block of {n}"
  | resized p n q => s!"resize({hex p}, {n}) -> {hex q}"
  | zeroedOverflow c n => s!"allocate_zeroed({c}, {n}): size overflows"
  | auditFailed v => s!"heap check failed after call at CALLER: {v.message}"

end Record

end SegregatedFit
