import SegregatedFit.Backing.Reserve
import SegregatedFit.Backing.DataSegment
import SegregatedFit.Backing.Scripted

/-!
# Sources of several kinds side by side

One machine can hold heaps over reservations, over the program break and over scripted arenas at once.
-/

namespace SegregatedFit

/-- A source of any of the kinds provided. -/
inductive Provided where
  | reserve (source : Reserve)
  | dataSegment (source : DataSegment)
  | scripted (source : Scripted)

/-- The answer of a source, seen as a source of another type. -/
def Extension.map {σ τ : Type} (f : σ → τ) (e : Extension σ) : Extension τ :=
  { start := e.start, source := f e.source, programBreak := e.programBreak, records := e.records }

namespace Provided

instance : Backing Provided where
  extend
    | reserve r, brk, n => (Backing.extend r brk n).map reserve
    | dataSegment d, brk, n => (Backing.extend d brk n).map dataSegment
    | scripted a, brk, n => (Backing.extend a brk n).map scripted
  lowest
    | reserve r => Backing.lowest r
    | dataSegment d => Backing.lowest d
    | scripted a => Backing.lowest a
  highest
    | reserve r => Backing.highest r
    | dataSegment d => Backing.highest d
    | scripted a => Backing.highest a

end Provided

end SegregatedFit
