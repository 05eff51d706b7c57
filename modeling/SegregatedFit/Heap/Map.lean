import SegregatedFit.Heap.View

/-!
# The map of a heap

A printable picture of a heap: one line for every block with its offset and size, and one for every free list that is
not empty with the offsets of its members from front to back.
-/

namespace SegregatedFit

/-- The digits of an offset in a map, at least. -/
def mapDigits : Nat := 4

/-- The line of one block. -/
def BlockEntry.mapLine (e : BlockEntry) : String :=
  let state := if e.allocated then "allocated" else "free"
  let note := if e.predecessorAllocated then "" else "  (prev free)"
  "  " ++ alignLeft 9 state ++ " @" ++ hexPadded mapDigits e.offset ++ " size " ++ alignRight 8 (toString e.size) ++ note

namespace Store

/-- The line of the free list of a class, or no line when it is empty. -/
def mapListLine (s : Store) (span : Span) (c : Fin classCount) : Except Fault (List String) := do
  if s.heads.isEmpty c then return []
  let offsets := (← s.freeList span c).map fun e => hex e.offset
  return ["  class " ++ alignRight 2 (toString c.val) ++ ": " ++ " -> ".intercalate offsets]

/-- The lines of the map. -/
def mapLines (s : Store) (span : Span) : Except Fault (List String) := do
  let blocks ← s.blocks span
  let lists ← (List.finRange classCount).mapM (s.mapListLine span)
  return [s!"heap at {hex span.base}, {span.length} bytes", "  prologue  @" ++ hexPadded mapDigits prologueOffset]
    ++ blocks.map BlockEntry.mapLine ++ ["  epilogue  @" ++ hexPadded mapDigits span.epilogueOffset] ++ lists.flatten

/-- The map of the heap, every line ended by a line feed. -/
def mapText (s : Store) (span : Span) : Except Fault String := do
  return String.join ((← s.mapLines span).map (· ++ "\n"))

end Store

end SegregatedFit
