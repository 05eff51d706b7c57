import SegregatedFit.Heap.View
import SegregatedFit.Proofs.Growth
import SegregatedFit.Proofs.Search
import Mathlib.Data.List.Nodup
import Mathlib.Data.List.Perm.Subperm

/-!
# What a client sees of a heap is what its layout says

The walk over the blocks, the walks over the free lists and the totals are functions of the layout and the base of the heap
(`Layout.entries`, `Layout.freeEntries`, `Layout.totals`): none of them ever looks at a byte of a client. A free block never
follows another free block, so every member of a free list is shown behind an allocated block.
-/

namespace SegregatedFit

/-- A block as a client sees it that comes after a block of the state given. -/
def Block.entry (b : Block) (base : Nat) (state : Bool) : BlockEntry :=
  { offset := b.offset, payload := payloadOf (base + b.offset), size := b.size, allocated := b.allocated,
    predecessorAllocated := state }

/-- The blocks of a row as a client sees them. -/
def entriesOf (base : Nat) : Bool → List Block → List BlockEntry
  | _, [] => []
  | state, b :: bs => b.entry base state :: entriesOf base b.allocated bs

/-- The totals with the blocks of a row. -/
def Totals.addBlocks (t : Totals) (bs : List Block) : Totals where
  heapSize := t.heapSize
  allocatedBlocks := t.allocatedBlocks + (bs.filter Block.allocated).length
  allocatedBytes := t.allocatedBytes + ((bs.filter Block.allocated).map Block.size).sum
  freeBlocks := t.freeBlocks + (bs.filter fun b => !b.allocated).length
  freeBytes := t.freeBytes + ((bs.filter fun b => !b.allocated).map Block.size).sum
  largestFree := ((bs.filter fun b => !b.allocated).map Block.size).foldl max t.largestFree

namespace Layout

/-- The blocks as a client sees them. -/
def entries (L : Layout) (base : Nat) : List BlockEntry := entriesOf base true L.blocks

/-- The members of the free list of a class as a client sees them. -/
def freeEntries (L : Layout) (base : Nat) (c : Fin classCount) : List BlockEntry :=
  (L.lists c).map fun o => Block.entry { offset := o, size := L.sizeAt o, allocated := false } base true

/-- The totals over all blocks. -/
def totals (L : Layout) : Totals := Totals.addBlocks { heapSize := L.finish + headerSize } L.blocks

end Layout

variable {s : Store} {span : Span} {L : Layout}

/-! ## Blocks -/

theorem Store.entry_run {b : Block} {state : Bool} (tag : s.memory.tag (span.base + b.offset) = ⟨b.size, b.allocated, state⟩)
    (inside : b.offset ≤ span.epilogueOffset) : s.entry span (span.base + b.offset) = .ok (b.entry span.base state) := by
  have offset : span.offsetOf (span.base + b.offset) = .ok b.offset := by
    refine Span.offsetOf_eq_ok_iff.mpr ⟨Span.contains_iff.mpr ?_, by omega⟩
    simp only [Span.finish, Span.length, headerSize]
    omega
  simp only [Store.entry, offset, tag, bind, Except.bind, pure, Except.pure, Block.entry]

/-- The walk from block to block meets the blocks of a row that ends where the epilogue stands. -/
theorem Store.entriesFrom_run {start limit : Nat} {state : Bool} {bs : List Block}
    (tiled : Tiled start bs span.epilogueOffset) (segment : Segment s.memory span.base state (bs ++ [span.sentinel]))
    (enough : bs.length ≤ limit) : s.entriesFrom span limit (span.base + start) = .ok (entriesOf span.base state bs) := by
  induction bs generalizing start limit state with
  | nil =>
    obtain rfl : start = span.epilogueOffset := tiled
    rw [entriesFrom.eq_def, if_pos (.inl rfl)]
    rfl
  | cons b bs ih =>
    have bounds := tiled.bounds List.mem_cons_self
    obtain ⟨rfl, large, sizeAligned, rest⟩ := Tiled.cons_iff.mp tiled
    obtain ⟨tag, footer, segment⟩ := Segment.cons_iff.mp segment
    obtain ⟨limit, rfl⟩ : ∃ k, limit = k + 1 := ⟨limit - 1, by rw [List.length_cons] at enough; omega⟩
    have going : ¬ (span.base + b.offset = span.epilogue ∨ (s.memory.tag (span.base + b.offset)).size = 0) := by
      rw [tag]
      simp only [Span.epilogue]
      omega
    have fits := span.finish_lt
    have following : s.memory.following (span.base + b.offset) = span.base + (b.offset + b.size) := by
      rw [Memory.following, tag, stepUp_of_lt (by simp only; omega), Nat.add_assoc]
    rw [entriesFrom.eq_def, if_neg going]
    simp only [Store.entry_run tag (by omega), following, ih rest segment (Nat.le_of_succ_le_succ enough), bind, Except.bind,
      pure, Except.pure, entriesOf]

/-- The blocks shown are those of the layout. -/
theorem Layout.Describes.blocks_run (h : L.Describes s span) : s.blocks span = .ok (L.entries span.base) := by
  have first : s.memory.following span.prologue = span.base + 24 := by
    have fits := span.finish_lt
    have := span.first_le
    rw [Memory.following, h.laid.prologue, stepUp_of_lt (by simp only [Span.prologue, prologueOffset, prologueSize]; omega)]
    rfl
  rw [Store.blocks, first]
  refine Store.entriesFrom_run h.laid.tiled h.laid.segment ?_
  have := h.laid.tiled.length_le
  simp only [Span.length, headerSize]
  omega

/-! ## Free lists -/

/-- A free block stands behind an allocated one. -/
theorem Coalesced.lastState_eq {before after : List Block} {b : Block} (h : Coalesced (before ++ b :: after))
    (free : b.allocated = false) : lastState true before = true := by
  rcases List.eq_nil_or_concat before with rfl | ⟨before, y, rfl⟩
  · rfl
  obtain ⟨-, -, touch⟩ := coalesced_append.mp h
  rcases touch y (by simp) b (by simp) with allocated | allocated
  · simpa using allocated
  · rw [free] at allocated
    cases allocated

/-- Following the links from the first member on meets all members. -/
theorem FreeList.follow_run {m : Memory} {back limit : Nat} {os : List Nat} (linked : Linked m span.base back os 0)
    (place : ∀ o ∈ os, o % 16 = 8 ∧ o ≤ span.epilogueOffset) (enough : os.length ≤ limit) :
    FreeList.follow m span limit (os.headD 0) = .ok (os.map (span.base + ·)) := by
  induction os generalizing back limit with
  | nil =>
    rw [List.headD_nil, follow.eq_def, if_pos rfl]
    rfl
  | cons o os ih =>
    obtain ⟨-, next, rest⟩ := Linked.cons_iff.mp linked
    obtain ⟨aligned, high⟩ := place o List.mem_cons_self
    obtain ⟨limit, rfl⟩ : ∃ k, limit = k + 1 := ⟨limit - 1, by rw [List.length_cons] at enough; omega⟩
    have found : span.blockAt o = .ok (span.base + o) := Span.blockAt_eq (by omega) high (by omega)
    have going : ¬ (o :: os).headD 0 = 0 := by
      rw [List.headD_cons]
      omega
    rw [follow.eq_def, if_neg going]
    simp only [List.headD_cons, found, next, ih rest (fun p hp => place p (.tail _ hp)) (Nat.le_of_succ_le_succ enough),
      bind, Except.bind, pure, Except.pure, List.map_cons]

namespace Listed

variable {ls : Lists}

/-- A list has no more members than the span has words. -/
theorem length_le (h : Listed s span ls) (c : Fin classCount) : (ls c).length ≤ span.length / 8 := by
  have words : ((ls c).map (· / 8)).Nodup := by
    refine List.Nodup.map_on ?_ (h.nodup c)
    intro o ho p hp same
    have := (h.place c o ho).1
    have := (h.place c p hp).1
    omega
  have within : (ls c).map (· / 8) ⊆ List.range (span.length / 8) := by
    intro w hw
    obtain ⟨o, ho, rfl⟩ := List.mem_map.mp hw
    have := (h.place c o ho).2
    rw [List.mem_range, Span.length, headerSize]
    omega
  have count := (List.subperm_of_subset words within).length_le
  rwa [List.length_map, List.length_range] at count

/-- The walk along a list meets its members and ends. -/
theorem members_run (h : Listed s span ls) (c : Fin classCount) :
    FreeList.members s span c = .ok ((ls c).map (span.base + ·)) := by
  rw [FreeList.members, h.front]
  refine FreeList.follow_run (h.linked c) (fun o ho => ?_) (h.length_le c)
  have := h.place c o ho
  omega

end Listed

namespace Layout.Describes

/-- A member of a free list is shown as a free block behind an allocated one. -/
theorem entry_run (h : L.Describes s span) {c : Fin classCount} {o : Nat} (ho : o ∈ L.lists c) :
    s.entry span (span.base + o) = .ok (Block.entry ⟨o, L.sizeAt o, false⟩ span.base true) := by
  obtain ⟨b, hb, free, rfl, -⟩ := (h.files c o).mp ho
  have bounds := h.laid.bounds hb
  obtain ⟨before, after, split⟩ := List.append_of_mem hb
  obtain ⟨tag, -⟩ := (split ▸ h.laid).around
  rw [(split ▸ h.coalesced : Coalesced _).lastState_eq free] at tag
  rw [sizeAt_eq h.laid.tiled hb]
  obtain ⟨offset, size, allocated⟩ := b
  obtain rfl : allocated = false := free
  exact Store.entry_run tag (by omega)

/-- The members of the free lists shown are those of the layout. -/
theorem freeList_run (h : L.Describes s span) (c : Fin classCount) :
    s.freeList span c = .ok (L.freeEntries span.base c) := by
  have shown : ∀ os : List Nat, (∀ o ∈ os, o ∈ L.lists c) → (os.map (span.base + ·)).mapM (s.entry span) =
      .ok (os.map fun o => Block.entry ⟨o, L.sizeAt o, false⟩ span.base true) := by
    intro os
    induction os with
    | nil => exact fun _ => rfl
    | cons o os ih =>
      intro member
      rw [List.map_cons, List.mapM_cons, h.entry_run (member o List.mem_cons_self), ih fun p hp => member p (.tail _ hp)]
      rfl
  rw [Store.freeList, dif_pos c.isLt, h.arranged.listed.members_run]
  exact shown _ fun _ ho => ho

end Layout.Describes

/-! ## Totals -/

/-- Adding the blocks one after the other never overflows as long as all their bytes together can be counted. -/
theorem Totals.foldlM_add {base : Nat} {state : Bool} {bs : List Block} {t : Totals}
    (fits : t.allocatedBytes + t.freeBytes + (bs.map Block.size).sum < 0x1_0000_0000_0000_0000) :
    (entriesOf base state bs).foldlM Totals.add t = .ok (t.addBlocks bs) := by
  induction bs generalizing state t with
  | nil => rfl
  | cons b bs ih =>
    rw [List.map_cons, List.sum_cons] at fits
    cases allocated : b.allocated with
    | true =>
      have room : t.allocatedBytes + b.size < 0x1_0000_0000_0000_0000 := by omega
      have one : t.add (b.entry base state) = .ok { t with
          allocatedBlocks := t.allocatedBlocks + 1, allocatedBytes := t.allocatedBytes + b.size } := by
        simp only [Totals.add, Block.entry, allocated, if_true, addChecked, room, bind, Except.bind, pure, Except.pure]
      rw [entriesOf, List.foldlM_cons, one]
      refine (ih (by simp only; omega)).trans ?_
      simp [Totals.addBlocks, allocated, Nat.add_assoc, Nat.add_comm 1]
    | false =>
      have room : t.freeBytes + b.size < 0x1_0000_0000_0000_0000 := by omega
      have one : t.add (b.entry base state) = .ok { t with
          freeBlocks := t.freeBlocks + 1, freeBytes := t.freeBytes + b.size, largestFree := max t.largestFree b.size } := by
        simp only [Totals.add, Block.entry, allocated, Bool.false_eq_true, if_false, addChecked, room, if_true, bind,
          Except.bind, pure, Except.pure]
      rw [entriesOf, List.foldlM_cons, one]
      refine (ih (by simp only; omega)).trans ?_
      simp [Totals.addBlocks, allocated, Nat.add_assoc, Nat.add_comm 1]

/-- The totals shown are those of the layout. -/
theorem Layout.Describes.totals_run (h : L.Describes s span) : s.totals span = .ok L.totals := by
  have run := Store.totalsFrom_of_entriesFrom h.blocks_run { heapSize := span.length }
  have size : L.finish + headerSize = span.length := by rw [h.finish_eq, Span.length]
  have fits := span.finish_lt
  have sum : 24 + (L.blocks.map Block.size).sum = span.epilogueOffset := h.finish_eq
  rw [Store.totals, run, Layout.totals, size]
  exact Totals.foldlM_add (by simp only; omega)

end SegregatedFit
