import SegregatedFit.Proofs.Session
import SegregatedFit.Proofs.Shown

/-!
# What becomes of a block that is taken back

A block that is taken back becomes one free block with its free neighbours. No two free blocks touch, so there is at most
one such neighbour on either side, and the blocks further away are allocated (`Layout.Surrounds`). There are four cases, by
whether a free neighbour stands before the block and behind it; they are one statement about the row of blocks and the lists
(`Layout.Surrounds.release_eq`), and one about the memory (`HeapState.Healthy.release_absorbs`).
-/

namespace SegregatedFit

/-- The block `x` as one free block with the blocks `ys` before it and `zs` behind it. -/
def Block.joined (x : Block) (ys zs : List Block) : Block where
  offset := ((ys ++ x :: zs).headD x).offset
  size := ((ys ++ x :: zs).map Block.size).sum
  allocated := false

/-- Whether the block was lent does not matter. -/
theorem Block.joined_mark (x : Block) (ys zs : List Block) (allocated : Bool) :
    ({ x with allocated } : Block).joined ys zs = x.joined ys zs := by
  cases ys <;> simp [joined]

namespace Layout

/-- The free neighbours of a block `x` are `ys` before it and `zs` behind it, at most one on either side, and what stands
further away begins and ends with allocated blocks. -/
structure Surrounds (L : Layout) (before ys : List Block) (x : Block) (zs after : List Block) : Prop where
  split : L.blocks = (before ++ ys) ++ x :: (zs ++ after)
  one_before : ys.length ≤ 1
  one_behind : zs.length ≤ 1
  free : ∀ y ∈ ys ++ zs, y.allocated = false
  last : ∀ y ∈ before.getLast?, y.allocated = true
  head : ∀ z ∈ after.head?, z.allocated = true

/-- The layout in which a block and its free neighbours have become one free block, which is at the front of the list of its
class. -/
def absorb (L : Layout) (before ys : List Block) (x : Block) (zs after : List Block) : Layout where
  blocks := before ++ x.joined ys zs :: after
  lists := (L.lists.without ((ys ++ zs).map Block.offset)).push (x.joined ys zs)

end Layout

/-! ## The row of blocks -/

namespace Focus

variable {before ys zs after : List Block} {x : Block} {ls : Lists}

theorem joinBefore_eq (one : ys.length ≤ 1) (free : ∀ y ∈ ys, y.allocated = false) (unused : x.allocated = false)
    (last : ∀ y ∈ before.getLast?, y.allocated = true) :
    joinBefore ⟨before ++ ys, x, after, ls⟩ = ⟨before, x.joined ys [], after, ys.foldl Lists.drop ls⟩ := by
  match ys, one with
  | [], _ =>
    have alone : x.joined [] [] = x := by
      obtain ⟨offset, size, allocated⟩ := x
      simp only at unused
      simp [Block.joined, unused]
    cases neighbour : before.getLast? with
    | none => simp [joinBefore, neighbour, alone]
    | some y => simp [joinBefore, neighbour, alone, last y neighbour]
  | [y], _ =>
    have state : y.allocated = false := free y List.mem_cons_self
    simp [joinBefore, state, Block.joined]

theorem joinAfter_eq (one : zs.length ≤ 1) (free : ∀ z ∈ zs, z.allocated = false)
    (head : ∀ z ∈ after.head?, z.allocated = true) :
    joinAfter ⟨before, x.joined ys [], zs ++ after, ls⟩ = ⟨before, x.joined ys zs, after, zs.foldl Lists.drop ls⟩ := by
  match zs, one with
  | [], _ =>
    cases after with
    | nil => rfl
    | cons z after => simp [joinAfter, head z rfl]
  | [z], _ =>
    have state : z.allocated = false := free z List.mem_cons_self
    cases ys <;> simp [joinAfter, state, Block.joined, Nat.add_assoc]

end Focus

namespace Layout

variable {L : Layout} {s : Store} {span : Span} {before ys zs after : List Block} {x : Block}

/-- Every block has its free neighbours, and nothing free touches these. -/
theorem Describes.surrounds (h : L.Describes s span) (hx : x ∈ L.blocks) :
    ∃ before ys zs after, L.Surrounds before ys x zs after := by
  obtain ⟨front, back, split⟩ := List.append_of_mem hx
  obtain ⟨left, right, -⟩ := coalesced_append.mp (split ▸ h.coalesced)
  obtain ⟨-, right⟩ := coalesced_cons.mp right
  -- The block next to `x` is its neighbour if it is free, and then the one beyond is not, since the two touch.
  obtain ⟨before, ys, rfl, one, free, last⟩ : ∃ before ys, front = before ++ ys ∧ ys.length ≤ 1 ∧
      (∀ y ∈ ys, y.allocated = false) ∧ ∀ y ∈ before.getLast?, y.allocated = true := by
    rcases List.eq_nil_or_concat front with rfl | ⟨before, y, rfl⟩
    · exact ⟨[], [], rfl, Nat.zero_le _, by simp, by simp⟩
    rw [List.concat_eq_append] at left ⊢
    cases state : y.allocated with
    | true => exact ⟨before ++ [y], [], by simp, Nat.zero_le _, by simp, by simpa using state⟩
    | false =>
      obtain ⟨-, -, touch⟩ := coalesced_append.mp left
      exact ⟨before, [y], rfl, Nat.le_refl _, by simpa using state,
        fun z hz => (touch z hz y rfl).resolve_right (by simp [state])⟩
  obtain ⟨zs, after, rfl, one', free', head⟩ : ∃ zs after, back = zs ++ after ∧ zs.length ≤ 1 ∧
      (∀ z ∈ zs, z.allocated = false) ∧ ∀ z ∈ after.head?, z.allocated = true := by
    cases back with
    | nil => exact ⟨[], [], rfl, Nat.zero_le _, by simp, by simp⟩
    | cons z after =>
      cases state : z.allocated with
      | true => exact ⟨[], z :: after, rfl, Nat.zero_le _, by simp, by simpa using state⟩
      | false =>
        obtain ⟨touch, -⟩ := coalesced_cons.mp right
        exact ⟨[z], after, rfl, Nat.le_refl _, by simpa using state,
          fun y hy => (touch y hy).resolve_left (by simp [state])⟩
  refine ⟨before, ys, zs, after, split, one, one', ?_, last, head⟩
  intro y hy
  exact (List.mem_append.mp hy).elim (free y) (free' y)

/-- Taking a block back makes one free block of it and its free neighbours. -/
theorem Surrounds.release_eq (around : L.Surrounds before ys x zs after) (h : L.Describes s span)
    (live : x.allocated = true) : L.release x.offset = L.absorb before ys x zs after := by
  have taken : L.take x.offset = some ⟨before ++ ys, x, zs ++ after, L.lists⟩ := by
    rw [take_eq h.laid.tiled around.split, live]
    rfl
  -- The neighbours may be in one list or in two; either way the other members keep their order.
  have left : zs.foldl Lists.drop (ys.foldl Lists.drop L.lists) = L.lists.without ((ys ++ zs).map Block.offset) := by
    rw [← List.foldl_append]
    refine Lists.foldl_drop_eq_without h.threaded.nodup fun y hy c hc => h.own_class ?_ hc
    rw [around.split]
    simp only [List.mem_append, List.mem_cons] at hy ⊢
    tauto
  simp only [release, taken, Focus.mark]
  rw [Focus.joinBefore_eq around.one_before (fun y hy => around.free y (List.mem_append_left _ hy)) rfl around.last,
    Block.joined_mark, Focus.joinAfter_eq around.one_behind (fun z hz => around.free z (List.mem_append_right _ hz))
    around.head, left]
  rfl

/-- The free neighbours leave their lists, and the block that was lent was in none. -/
theorem Surrounds.not_mem_without (around : L.Surrounds before ys x zs after) (h : L.Describes s span)
    (live : x.allocated = true) {b : Block} (hb : b ∈ ys ++ x :: zs) (c : Fin classCount) :
    b.offset ∉ L.lists.without ((ys ++ zs).map Block.offset) c := by
  rw [Lists.mem_without]
  rintro ⟨member, left⟩
  rw [List.mem_append, List.mem_cons] at hb
  rcases hb with hb | rfl | hb
  · exact left (List.mem_map_of_mem (List.mem_append_left _ hb))
  · obtain ⟨y, hy, free, same, -⟩ := (h.files c _).mp member
    exact h.offset_ne_of_free hy free (mem_lent.mpr ⟨by simp [around.split], live⟩) same.symm
  · exact left (List.mem_map_of_mem (List.mem_append_right _ hb))

end Layout

/-! ## The memory -/

namespace Laid

variable {m m' : Memory} {span : Span} {before after bs cs : List Block} {b : Block}

/-- A stretch of blocks gives way to one block. The blocks before it and behind it keep their tags, except that the block
right behind it, or the epilogue, is told its state. -/
theorem tags_around (h : Laid m span (before ++ cs ++ after)) (h' : Laid m' span (before ++ b :: after)) :
    (∀ y ∈ before ++ (after ++ [span.sentinel]).tail, m'.tag (span.base + y.offset) = m.tag (span.base + y.offset)) ∧
      m'.tag (span.base + (b.offset + b.size)) =
        (m.tag (span.base + (b.offset + b.size))).withPredecessorAllocated b.allocated := by
  obtain ⟨z, zs, split, at_, told⟩ := h'.next
  have segment := h.segment
  rw [List.append_assoc, List.append_assoc, Segment.append_iff, Segment.append_iff, split, Segment.cons_iff] at segment
  have segment' := h'.segment
  rw [List.append_assoc, List.cons_append, Segment.append_iff, Segment.cons_iff, split, Segment.cons_iff] at segment'
  obtain ⟨low, -, knew, -, high⟩ := segment
  obtain ⟨low', -, -, -, -, high'⟩ := segment'
  constructor
  · rw [split, List.tail_cons]
    intro y hy
    rcases List.mem_append.mp hy with hy | hy
    · exact low.tag_eq low' hy
    · exact high.tag_eq high' hy
  · rw [told, ← at_, knew]
    rfl

end Laid

namespace HeapState

variable {σ : Type} [Backing σ]

/-- What becomes of a heap when the block `x` is taken back: one free block of it and its free neighbours `ys` and `zs`. -/
structure Absorbs (C : Contract σ) (s : HeapState σ) (L : Layout) (before ys : List Block) (x : Block)
    (zs after : List Block) (s' : HeapState σ) : Prop where
  surrounds : L.Surrounds before ys x zs after
  becomes : s.Becomes C L s' { answer := none, layout := L.absorb before ys x zs after }
  source : s'.source = s.source
  programBreak : s'.programBreak = s.programBreak
  span : s'.span = s.span
  /-- No list holds the blocks that have become one, before that one is put at the front of its list. -/
  left : ∀ b ∈ ys ++ x :: zs, ∀ c, b.offset ∉ L.lists.without ((ys ++ zs).map Block.offset) c
  header : s'.memory.tag (s.span.base + (x.joined ys zs).offset) =
    { size := (x.joined ys zs).size, allocated := false, predecessorAllocated := true }
  footer : (s'.memory.tag (Memory.footerAddress (s.span.base + (x.joined ys zs).offset) (x.joined ys zs).size)).size =
    (x.joined ys zs).size
  /-- The block behind, or the epilogue, is told that a free block stands before it. -/
  behind : s'.memory.tag (s.span.base + ((x.joined ys zs).offset + (x.joined ys zs).size)) =
    (s.memory.tag (s.span.base + ((x.joined ys zs).offset + (x.joined ys zs).size))).withPredecessorAllocated false
  others : ∀ b ∈ before ++ (after ++ [s.span.sentinel]).tail,
    s'.memory.tag (s.span.base + b.offset) = s.memory.tag (s.span.base + b.offset)
  lent_iff : ∀ y, y ∈ (L.absorb before ys x zs after).lent ↔ y ∈ L.lent ∧ y ≠ x

variable {C : Contract σ} {L : Layout} {s : HeapState σ} {x : Block}

/-- A block that is lent can be taken back without a fault, and it becomes one free block with its free neighbours. -/
theorem Healthy.release_absorbs (h : s.Healthy C L) (hx : x ∈ L.lent) :
    ∃ before ys zs after s', Heap.release (some (s.pointerTo x.offset)) s = .ok () s' ∧
      s.Absorbs C L before ys x zs after s' := by
  obtain ⟨mem, live⟩ := Layout.mem_lent.mp hx
  obtain ⟨before, ys, zs, after, around⟩ := h.describes.surrounds mem
  obtain ⟨s', run, served⟩ := h.releasePointer_run hx none
  have released := around.release_eq h.describes live
  have lent := fun y => h.describes.mem_lent_release hx (y := y)
  rw [released] at served lent
  have becomes := served.becomes h
  have same : s'.span = s.span := served.span_eq h rfl
  have laid : Laid s.memory s.span (before ++ (ys ++ x :: zs) ++ after) := by
    have laid : Laid s.memory s.span L.blocks := h.describes.laid
    rw [around.split] at laid
    simpa only [List.append_assoc, List.cons_append] using laid
  have laid' : Laid s'.memory s.span (before ++ x.joined ys zs :: after) := same ▸ served.healthy.describes.laid
  have coalesced : Coalesced (before ++ x.joined ys zs :: after) := served.healthy.describes.coalesced
  have inside : x.joined ys zs ∈ before ++ x.joined ys zs :: after := by simp
  have bounds := laid'.bounds inside
  obtain ⟨-, fits⟩ := laid'.writable inside
  obtain ⟨others, behind⟩ := laid.tags_around laid'
  obtain ⟨source, programBreak⟩ := served.source_eq rfl
  refine ⟨before, ys, zs, after, s', run, ?_⟩
  exact
    { surrounds := around
      becomes
      source
      programBreak
      span := same
      left := fun b hb => around.not_mem_without h.describes live hb
      header := by
        rw [laid'.around.1, coalesced.lastState_eq rfl]
        rfl
      footer := by
        rw [Memory.footerAddress, headerSize, stepUp_of_lt (by omega), Nat.add_assoc, ← Nat.add_sub_assoc (by omega)]
        exact laid'.footer inside rfl
      behind
      others
      lent_iff := lent }

/-- A block of 112 bytes is taken back that stands between two free blocks of 32 bytes: 176 bytes are free from the first
block of the heap on. -/
theorem Healthy.release_absorbs_reserve : ∃ (s s' : HeapState Reserve) (L : Layout) (before ys zs after : List Block)
    (x : Block), s.Healthy Reserve.contract L ∧ x ∈ L.lent ∧ s.pointerTo x.offset = 4176 ∧
    Heap.release (some 4176) s = .ok () s' ∧ s.Absorbs Reserve.contract L before ys x zs after s' ∧
    s'.memory.tag 4136 = { size := 176, allocated := false, predecessorAllocated := true } := by
  obtain ⟨S, S', reachable, live, done, tag⟩ : ∃ S S' : Session Reserve, S.Reachable Reserve.contract ∧
      4176 ∈ S.ledger.live ∧ Heap.release (some 4176) S.state = .ok () S'.state ∧
      S'.state.memory.tag 4136 = { size := 176, allocated := false, predecessorAllocated := true } := by
    have made : Heap.create { selfCheck := false } (Reserve.site 4104 400 UInt64.ofNat) = .ok _ _ := rfl
    have created : Session.Reachable Reserve.contract _ := .created ⟨by decide, by decide⟩ made
    have first := created.performed (a := .request (.allocate 20)) (by intro _ h; cases h) rfl
    have second := first.performed (a := .request (.allocate 100)) (by intro _ h; cases h) rfl
    have third := second.performed (a := .request (.allocate 20)) (by intro _ h; cases h) rfl
    have fourth := third.performed (a := .request (.allocate 20)) (by intro _ h; cases h) rfl
    have fifth := fourth.performed (a := .request (.release (some 4144))) (by rintro _ ⟨⟩; decide) rfl
    have sixth := fifth.performed (a := .request (.release (some 4288))) (by rintro _ ⟨⟩; decide) rfl
    exact ⟨_, { state := _ }, sixth, by decide, rfl, rfl⟩
  obtain ⟨L, sound⟩ := reachable.sound
  obtain ⟨x, hx, pointer⟩ := (sound.live_iff 4176).mp live
  obtain ⟨before, ys, zs, after, s', run, absorbs⟩ := sound.healthy.release_absorbs hx
  rw [pointer, done] at run
  cases run
  exact ⟨S.state, S'.state, L, before, ys, zs, after, x, sound.healthy, hx, pointer, done, absorbs, tag⟩

end HeapState

end SegregatedFit
