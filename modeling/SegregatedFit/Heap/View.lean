import SegregatedFit.Heap
import SegregatedFit.FreeList

/-!
# Views of a heap

What a client can see of a heap without changing it: its blocks in address order, the members of its free lists, and
totals.
-/

namespace SegregatedFit

/-- One block as a client sees it. -/
structure BlockEntry where
  /-- The distance of the tag from the base of the heap. -/
  offset : Nat
  /-- The address of the payload. -/
  payload : Nat
  /-- The bytes of the whole block, the tag included. -/
  size : Nat
  allocated : Bool
  predecessorAllocated : Bool
  deriving DecidableEq, Repr

/-- The size class of a block. -/
def BlockEntry.sizeClass (e : BlockEntry) : Fin classCount := classOf e.size

/-- Totals over the blocks of a heap. -/
structure Totals where
  /-- The bytes from the base up to the end of the epilogue. -/
  heapSize : Nat
  allocatedBlocks : Nat := 0
  allocatedBytes : Nat := 0
  freeBlocks : Nat := 0
  freeBytes : Nat := 0
  largestFree : Nat := 0
  deriving DecidableEq, Repr

/-- The totals with one more block. -/
def Totals.add (t : Totals) (e : BlockEntry) : Except Fault Totals := do
  if e.allocated then
    return { t with
      allocatedBlocks := t.allocatedBlocks + 1, allocatedBytes := ← addChecked t.allocatedBytes e.size }
  else
    return { t with
      freeBlocks := t.freeBlocks + 1, freeBytes := ← addChecked t.freeBytes e.size,
      largestFree := max t.largestFree e.size }

/-- How far the byte counts are from what they can hold at most. -/
def Totals.room (t : Totals) : Nat := (0x1_0000_0000_0000_0000 - t.allocatedBytes) + (0x1_0000_0000_0000_0000 - t.freeBytes)

/-- Every block of nonzero size takes room. -/
theorem Totals.room_add {t t' : Totals} {e : BlockEntry} (h : t.add e = .ok t') (hs : e.size ≠ 0) : t'.room < t.room := by
  simp only [Totals.add, addChecked] at h
  split at h <;> split at h <;> cases h <;> simp only [Totals.room] <;> omega

namespace Store

/-- What a client sees of the block at `a`. -/
def entry (s : Store) (span : Span) (a : Nat) : Except Fault BlockEntry := do
  let tag := s.memory.tag a
  return { offset := ← span.offsetOf a, payload := payloadOf a, size := tag.size, allocated := tag.allocated,
           predecessorAllocated := tag.predecessorAllocated }

/-- An entry holds the size in the tag of its block. -/
theorem size_of_entry {s : Store} {span : Span} {a : Nat} {e : BlockEntry} (h : s.entry span a = .ok e) :
    e.size = (s.memory.tag a).size := by
  unfold entry at h
  cases offset : span.offsetOf a <;> rw [offset] at h <;> cases h
  rfl

/-- The blocks from the one at `a` on, up to the epilogue or a block of size zero, a fault when there are more than
`limit` of them. -/
def entriesFrom (s : Store) (span : Span) (limit a : Nat) : Except Fault (List BlockEntry) :=
  if a = span.epilogue ∨ (s.memory.tag a).size = 0 then .ok []
  else match limit with
    | 0 => .error .endlessWalk
    | limit + 1 => do
      let e ← s.entry span a
      return e :: (← entriesFrom s span limit (s.memory.following a))

/-- The blocks between the prologue and the epilogue. They come in address order unless the size in a damaged header
leads backwards. Every block met lies in the span, so a walk over more blocks than the span has words meets some block
twice and never ends. -/
def blocks (s : Store) (span : Span) : Except Fault (List BlockEntry) :=
  s.entriesFrom span (span.length / 8) (s.memory.following span.prologue)

/-- The members of the free list of a class, from front to back. -/
def freeList (s : Store) (span : Span) (sizeClass : Nat) : Except Fault (List BlockEntry) :=
  if h : sizeClass < classCount then do
    (← FreeList.members s span ⟨sizeClass, h⟩).mapM (s.entry span)
  else .error (.noSuchClass sizeClass)

/-- The totals with the blocks from the one at `a` on, up to the epilogue or a block of size zero. Every block takes room
in the totals, so this ends also where the size in a damaged header leads in a circle. -/
def totalsFrom (s : Store) (span : Span) (t : Totals) (a : Nat) : Except Fault Totals :=
  if _stop : a = span.epilogue ∨ (s.memory.tag a).size = 0 then .ok t
  else match _entry : s.entry span a with
    | .error f => .error f
    | .ok e => match _add : t.add e with
      | .error f => .error f
      | .ok t => totalsFrom s span t (s.memory.following a)
termination_by t.room
decreasing_by exact Totals.room_add _add (size_of_entry _entry ▸ fun h => _stop (.inr h))

/-- The walk without its reasons to end. -/
theorem totalsFrom_eq (s : Store) (span : Span) (t : Totals) (a : Nat) :
    s.totalsFrom span t a =
      if a = span.epilogue ∨ (s.memory.tag a).size = 0 then .ok t
      else (do s.totalsFrom span (← t.add (← s.entry span a)) (s.memory.following a)) := by
  rw [totalsFrom]
  split
  · rfl
  · split
    · simp only [*, bind, Except.bind]
    · split <;> simp only [*, bind, Except.bind]

/-- Totals over all blocks. -/
def totals (s : Store) (span : Span) : Except Fault Totals :=
  s.totalsFrom span { heapSize := span.length } (s.memory.following span.prologue)

/-- The totals are those of the blocks, where the blocks can be listed. -/
theorem totalsFrom_of_entriesFrom {s : Store} {span : Span} {limit a : Nat} {es : List BlockEntry}
    (h : s.entriesFrom span limit a = .ok es) (t : Totals) : s.totalsFrom span t a = es.foldlM Totals.add t := by
  induction limit generalizing a es t with
  | zero =>
    unfold entriesFrom at h
    split at h <;> cases h
    rw [totalsFrom_eq, if_pos (by assumption)]
    rfl
  | succ limit ih =>
    unfold entriesFrom at h
    simp only at h
    split at h
    · cases h
      rw [totalsFrom_eq, if_pos (by assumption)]
      rfl
    · rw [totalsFrom_eq, if_neg (by assumption)]
      cases entry : s.entry span a with
      | error f =>
        rw [entry] at h
        cases h
      | ok e =>
        cases rest : s.entriesFrom span limit (s.memory.following a) with
        | error f =>
          rw [entry, rest] at h
          cases h
        | ok es' =>
          rw [entry, rest] at h
          cases h
          exact bind_congr (ih rest)

end Store

end SegregatedFit
