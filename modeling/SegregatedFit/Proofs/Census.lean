import SegregatedFit.Proofs.Damage
import Mathlib.Data.List.FinRange
import Mathlib.Data.List.Nodup

/-!
# The views of a heap agree

The walk over the blocks, the walks over the free lists, the totals and the client's own account of its pointers are four ways
of looking at one heap. `Session.Census` says that they see the same blocks: the entries tile the span, the allocated ones are
those of the client, the free ones are the members of the lists in some order, and the totals count all of them once.
-/

namespace SegregatedFit

/-- The block that an entry shows. -/
def BlockEntry.block (e : BlockEntry) : Block := { offset := e.offset, size := e.size, allocated := e.allocated }

namespace Session

variable {σ : Type} [Backing σ]

/-- The blocks, the members of the free lists and the totals that a client sees agree with each other and with the pointers
that it has. -/
structure Census (S : Session σ) (es : List BlockEntry) (fs : Fin classCount → List BlockEntry) (t : Totals) : Prop where
  /-- The blocks stand one right behind the other from the end of the prologue up to the epilogue. -/
  tiled : Tiled (prologueOffset + prologueSize) (es.map BlockEntry.block) S.state.span.epilogueOffset
  ascending : es.Pairwise fun e f => e.payload < f.payload
  payload : ∀ e ∈ es, e.payload = S.state.pointerTo e.offset
  live : S.ledger.live = ((es.filter (·.allocated)).map (·.payload)).toFinset
  usable : ∀ e ∈ es, e.allocated = true →
    ∃ n, Heap.usableSize e.payload S.state = .ok n S.state ∧ e.size = n + headerSize
  /-- Every free block is in the lists once, and shown there as it is among the blocks. -/
  free : ((List.finRange classCount).flatMap fs).Perm (es.filter (!·.allocated))
  sizeClass : ∀ c, ∀ e ∈ fs c, e.sizeClass = c
  allocatedBlocks : t.allocatedBlocks = (es.filter (·.allocated)).length
  allocatedBytes : t.allocatedBytes = ((es.filter (·.allocated)).map (·.size)).sum
  freeBlocks : t.freeBlocks = (es.filter (!·.allocated)).length
  freeBytes : t.freeBytes = ((es.filter (!·.allocated)).map (·.size)).sum
  largestFree : t.largestFree = ((es.filter (!·.allocated)).map (·.size)).max?.getD 0
  heapSize : t.heapSize = S.state.span.length
  conserved : t.heapSize = initialLength + t.allocatedBytes + t.freeBytes

end Session

/-! ## Blocks and their entries -/

variable {base : Nat} {state : Bool} {bs : List Block} {e : BlockEntry}

theorem map_block_entriesOf (base : Nat) (state : Bool) (bs : List Block) :
    (entriesOf base state bs).map BlockEntry.block = bs := by
  induction bs generalizing state with
  | nil => rfl
  | cons b bs ih => rw [entriesOf, List.map_cons, ih, Block.entry, BlockEntry.block]

theorem payload_of_mem_entriesOf (he : e ∈ entriesOf base state bs) : e.payload = payloadOf (base + e.offset) := by
  induction bs generalizing state with
  | nil => cases he
  | cons b bs ih =>
    rcases List.mem_cons.mp he with rfl | he
    · rfl
    · exact ih he

/-- No free block follows a free block, so every free block is shown behind an allocated one. -/
theorem filter_free_entriesOf (coalesced : Coalesced bs) (first : ∀ b ∈ bs.head?, state = true ∨ b.allocated = true) :
    (entriesOf base state bs).filter (!·.allocated) = (bs.filter (!·.allocated)).map (·.entry base true) := by
  induction bs generalizing state with
  | nil => rfl
  | cons b bs ih =>
    obtain ⟨touch, coalesced⟩ := coalesced_cons.mp coalesced
    rw [entriesOf, List.filter_cons, List.filter_cons, ih coalesced touch]
    cases allocated : b.allocated with
    | true => simp [Block.entry, allocated]
    | false =>
      obtain rfl : state = true := (first b rfl).resolve_right (by simp [allocated])
      simp [Block.entry, allocated]

namespace Layout.Describes

variable {s : Store} {span : Span} {L : Layout}

/-- The lists hold every free block once. -/
theorem members_perm (h : L.Describes s span) :
    ((List.finRange classCount).flatMap L.lists).Perm ((L.blocks.filter (!·.allocated)).map Block.offset) := by
  have once : ((List.finRange classCount).flatMap L.lists).Nodup := by
    refine List.nodup_flatMap.mpr ⟨fun c _ => h.threaded.nodup c, (List.nodup_finRange _).imp ?_⟩
    intro c d ne o ho hp
    exact ne (h.arranged.listed.class_unique ho hp)
  have apart : ((L.blocks.filter (!·.allocated)).map Block.offset).Nodup :=
    h.laid.tiled.nodup_offsets.sublist (List.filter_sublist.map _)
  refine (List.perm_ext_iff_of_nodup once apart).mpr fun o => ?_
  simp only [List.mem_flatMap, List.mem_finRange, true_and, List.mem_map, List.mem_filter, Bool.not_eq_true']
  constructor
  · rintro ⟨c, ho⟩
    obtain ⟨b, hb, free, at_, -⟩ := (h.files c o).mp ho
    exact ⟨b, ⟨hb, free⟩, at_⟩
  · rintro ⟨b, ⟨hb, free⟩, rfl⟩
    exact ⟨_, h.files.mem hb free⟩

/-- The members of all free lists together are the free blocks. -/
theorem freeEntries_perm (h : L.Describes s span) (base : Nat) :
    ((List.finRange classCount).flatMap (L.freeEntries base)).Perm ((L.entries base).filter (!·.allocated)) := by
  have shown : (L.entries base).filter (!·.allocated) = ((L.blocks.filter (!·.allocated)).map Block.offset).map
      fun o => Block.entry ⟨o, L.sizeAt o, false⟩ base true := by
    rw [entries, filter_free_entriesOf h.coalesced fun _ _ => .inl rfl, List.map_map]
    refine List.map_congr_left fun b hb => ?_
    obtain ⟨hb, free⟩ := List.mem_filter.mp hb
    rw [Function.comp_apply, sizeAt_eq h.laid.tiled hb]
    simpa [Block.entry] using free
  rw [shown, show (List.finRange classCount).flatMap (L.freeEntries base) = _ from (List.map_flatMap).symm]
  exact h.members_perm.map _

theorem sizeClass_of_mem_freeEntries (h : L.Describes s span) {c : Fin classCount} (he : e ∈ L.freeEntries base c) :
    e.sizeClass = c := by
  obtain ⟨o, ho, rfl⟩ := List.mem_map.mp he
  obtain ⟨b, hb, -, rfl, cls⟩ := (h.files c o).mp ho
  rw [BlockEntry.sizeClass, Block.entry, sizeAt_eq h.laid.tiled hb, cls]

end Layout.Describes

/-- The bytes of the blocks that are allocated and of those that are not are the bytes of all blocks. -/
theorem sum_size_filter (bs : List Block) : ((bs.filter Block.allocated).map Block.size).sum +
    ((bs.filter (!·.allocated)).map Block.size).sum = (bs.map Block.size).sum := by
  rw [← List.sum_append, ← List.map_append]
  exact ((List.filter_append_perm Block.allocated bs).map Block.size).sum_eq

/-! ## The census -/

namespace Session

variable {σ : Type} [Backing σ] {C : Contract σ} {S : Session σ} {L : Layout}

theorem Sound.live_eq (h : S.Sound C L) : S.ledger.live =
    (((L.entries S.state.span.base).filter (·.allocated)).map (·.payload)).toFinset := by
  ext p
  rw [h.live_iff, List.mem_toFinset, List.mem_map]
  constructor
  · rintro ⟨x, hx, rfl⟩
    obtain ⟨hx, allocated⟩ := Layout.mem_lent.mp hx
    rw [← map_block_entriesOf S.state.span.base true L.blocks] at hx
    obtain ⟨e, he, rfl⟩ := List.mem_map.mp hx
    exact ⟨e, List.mem_filter.mpr ⟨he, allocated⟩, payload_of_mem_entriesOf he⟩
  · rintro ⟨e, he, rfl⟩
    obtain ⟨he, allocated⟩ := List.mem_filter.mp he
    have hx := List.mem_map_of_mem (f := BlockEntry.block) he
    rw [Layout.entries, map_block_entriesOf] at hx
    exact ⟨e.block, Layout.mem_lent.mpr ⟨hx, allocated⟩, (payload_of_mem_entriesOf he).symm⟩

/-- The totals are those of the entries. -/
theorem totals_entries (L : Layout) (base : Nat) : L.totals =
    { heapSize := L.finish + headerSize
      allocatedBlocks := ((L.entries base).filter (·.allocated)).length
      allocatedBytes := (((L.entries base).filter (·.allocated)).map (·.size)).sum
      freeBlocks := ((L.entries base).filter (!·.allocated)).length
      freeBytes := (((L.entries base).filter (!·.allocated)).map (·.size)).sum
      largestFree := (((L.entries base).filter (!·.allocated)).map (·.size)).max?.getD 0 } := by
  have sizes : ∀ p : Bool → Bool, (L.blocks.filter fun b => p b.allocated).map Block.size =
      ((L.entries base).filter fun e => p e.allocated).map BlockEntry.size := by
    intro p
    have blocks := map_block_entriesOf base true L.blocks
    rw [← Layout.entries] at blocks
    rw [← blocks, List.filter_map, List.map_map]
    rfl
  have allocated := sizes id
  have free := sizes not
  simp only [id_eq] at allocated
  have counts := congrArg List.length allocated
  have counts' := congrArg List.length free
  simp only [List.length_map] at counts counts'
  simp only [Layout.totals, Totals.addBlocks, allocated, free, counts, counts', Nat.zero_add, List.foldl_max, Nat.zero_max]

/-- The views of a sound session agree. -/
theorem Sound.census_of_layout (h : S.Sound C L) :
    S.Census (L.entries S.state.span.base) (L.freeEntries S.state.span.base) L.totals := by
  have describes := h.healthy.describes
  have blocks := map_block_entriesOf S.state.span.base true L.blocks
  have tiled := describes.laid.tiled
  have inBlocks : ∀ e ∈ L.entries S.state.span.base, e.block ∈ L.blocks := by
    intro e he
    have hx := List.mem_map_of_mem (f := BlockEntry.block) he
    rwa [Layout.entries, blocks] at hx
  have whole : L.totals.heapSize = S.state.span.length := by
    rw [Layout.totals, Totals.addBlocks, describes.finish_eq, Span.length]
  have totals := totals_entries L S.state.span.base
  refine
    { tiled := blocks ▸ tiled
      ascending := ?_
      payload := fun e he => payload_of_mem_entriesOf he
      live := h.live_eq
      usable := ?_
      free := describes.freeEntries_perm _
      sizeClass := fun c e he => describes.sizeClass_of_mem_freeEntries he
      allocatedBlocks := congrArg Totals.allocatedBlocks totals
      allocatedBytes := congrArg Totals.allocatedBytes totals
      freeBlocks := congrArg Totals.freeBlocks totals
      freeBytes := congrArg Totals.freeBytes totals
      largestFree := congrArg Totals.largestFree totals
      heapSize := whole
      conserved := ?_ }
  · have ordered := tiled.pairwise
    rw [← blocks, List.pairwise_map] at ordered
    refine ordered.imp_of_mem ?_
    intro e f he hf apart
    have bounds := describes.laid.bounds (inBlocks e he)
    have here := payload_of_mem_entriesOf he
    have there := payload_of_mem_entriesOf hf
    simp only [payloadOf, BlockEntry.block] at *
    omega
  · intro e he allocated
    have hx := Layout.mem_lent.mpr ⟨inBlocks e he, allocated⟩
    have bounds := describes.laid.bounds (inBlocks e he)
    have usable := h.healthy.usableSize_run hx
    rw [payload_of_mem_entriesOf he]
    refine ⟨_, usable, ?_⟩
    simp only [BlockEntry.block, headerSize] at *
    omega
  · have sum := sum_size_filter L.blocks
    have finish : 24 + (L.blocks.map Block.size).sum = L.finish := rfl
    simp only [Layout.totals, Totals.addBlocks, initialLength, headerSize]
    omega

/-- In every session that can be reached, the walks over the blocks and over the free lists and the totals come to an end,
and they agree with each other and with the pointers of the client. -/
theorem Reachable.census (h : Reachable C S) : ∃ es fs t, S.state.store.blocks S.state.span = .ok es ∧
    (∀ c : Fin classCount, S.state.store.freeList S.state.span c = .ok (fs c)) ∧
    S.state.store.totals S.state.span = .ok t ∧ S.Census es fs t := by
  obtain ⟨L, sound⟩ := h.sound
  have describes := sound.healthy.describes
  exact ⟨_, _, _, describes.blocks_run, describes.freeList_run, describes.totals_run, sound.census_of_layout⟩

/-- Three blocks, the middle one of which was taken back, and then a fourth out of the front of it: the views agree on three
blocks that the client has and on a free one. -/
theorem Reachable.census_reserve : ∃ (S : Session Reserve) (es : List BlockEntry) (fs : Fin classCount → List BlockEntry)
    (t : Totals), S.answers = [some 4144, some 4176, some 4288, none, some 4176] ∧ S.ledger.live = {4144, 4176, 4288} ∧
      S.state.span.length = 208 ∧ S.state.store.blocks S.state.span = .ok es ∧
      (∀ c : Fin classCount, S.state.store.freeList S.state.span c = .ok (fs c)) ∧
      S.state.store.totals S.state.span = .ok t ∧ S.Census es fs t := by
  have made : Heap.create { selfCheck := false } (Reserve.site 4104 400 UInt64.ofNat) = .ok _ _ := rfl
  have created : Session.Reachable Reserve.contract _ := .created ⟨by decide, by decide⟩ made
  have first := created.performed (a := .request (.allocate 20)) (by intro _ h; cases h) rfl
  have second := first.performed (a := .request (.allocate 100)) (by intro _ h; cases h) rfl
  have third := second.performed (a := .request (.allocate 20)) (by intro _ h; cases h) rfl
  have fourth := third.performed (a := .request (.release (some 4176))) (by rintro _ ⟨⟩; decide) rfl
  have fifth := fourth.performed (a := .request (.allocate 40)) (by intro _ h; cases h) rfl
  obtain ⟨es, fs, t, views⟩ := Reachable.census fifth
  exact ⟨_, es, fs, t, rfl, by decide, rfl, views⟩

end Session

end SegregatedFit
