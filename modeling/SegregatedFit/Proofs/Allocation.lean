import SegregatedFit.Proofs.Session
import SegregatedFit.Proofs.Shown

/-!
# Where an allocation is placed

An allocation ends in one of five ways, each of which is a change of the row of blocks and of the lists (`Layout.Places`): the
block found is handed out as it is, or cut in two; the last block is enlarged; a new block is put behind the last one; or there
is none. Which of them it is depends on the search and on what the source grants (`HeapState.Healthy.allocate_places`). However
a block was found, it has the size that the request needs and not a byte more: the search passes over blocks whose rest would
be too small to stand alone.
-/

namespace SegregatedFit

namespace Layout

/-- The request for the bytes that the last block lacks, when it is free and too small. It comes before the request for a whole
new block, which is made when it was refused. -/
def declined (L : Layout) (wanted : Nat) : List (Nat × Bool) :=
  (L.shortLast wanted).toList.map fun y => (wanted - y.size, false)

/-- How an allocation of a block of `wanted` bytes ends, given the offset of the free block that the search found. -/
inductive Places (L : Layout) (wanted : Nat) : Option Nat → Outcome → Prop where
  /-- The block found has the size wanted: it leaves its list and is handed out as it stands. -/
  | whole {before after : List Block} {x : Block} (split : L.blocks = before ++ x :: after) (free : x.allocated = false)
      (exact : x.size = wanted) :
      Places L wanted (some x.offset)
        { answer := some x.offset
          layout :=
            { blocks := before ++ { offset := x.offset, size := wanted, allocated := true } :: after
              lists := L.lists.without [x.offset] } }
  /-- The block found is larger: it leaves its list, its first bytes are handed out, and the rest, which can stand as a
  block, goes to the front of the list of its class. -/
  | cut {before after : List Block} {x rest : Block} (split : L.blocks = before ++ x :: after) (free : x.allocated = false)
      (larger : wanted + minBlockSize ≤ x.size)
      (left : rest = { offset := x.offset + wanted, size := x.size - wanted, allocated := false }) :
      Places L wanted (some x.offset)
        { answer := some x.offset
          layout :=
            { blocks := before ++ { offset := x.offset, size := wanted, allocated := true } :: rest :: after
              lists := (L.lists.without [x.offset]).push rest } }
  /-- The last block is free and too small, and the source grants the bytes that it lacks: it leaves its list, is enlarged
  and handed out. -/
  | enlarged {before : List Block} {y : Block} (split : L.blocks = before ++ [y]) (free : y.allocated = false)
      (short : y.size < wanted) :
      Places L wanted none
        { answer := some y.offset
          layout :=
            { blocks := before ++ [{ offset := y.offset, size := wanted, allocated := true }]
              lists := L.lists.without [y.offset] }
          asked := [(wanted - y.size, true)] }
  /-- The source grants a whole new block behind the last one, where the epilogue stood. -/
  | appended :
      Places L wanted none
        { answer := some L.finish
          layout :=
            { blocks := L.blocks ++ [{ offset := L.finish, size := wanted, allocated := true }]
              lists := L.lists }
          asked := L.declined wanted ++ [(wanted, true)] }
  /-- The source refuses, and nothing changes. -/
  | refused : Places L wanted none { answer := none, layout := L, asked := L.declined wanted ++ [(wanted, false)] }

variable {L : Layout} {s : Store} {span : Span} {wanted budget : Nat} {grant : Nat → Bool}

theorem shortLast_eq_some_iff {y : Block} :
    L.shortLast wanted = some y ↔ L.blocks.getLast? = some y ∧ y.allocated = false ∧ y.size < wanted := by
  simp [shortLast, Option.filter_eq_some_iff]

/-- A block that was found is handed out. -/
theorem Places.answer_eq {p : Nat} {o : Outcome} (h : L.Places wanted (some p) o) : o.answer = some p := by
  cases h <;> rfl

namespace Describes

/-- A block that suits is handed out whole or cut in two. -/
theorem carve_places (h : L.Describes s span) {x : Block} (hx : x ∈ L.blocks) (free : x.allocated = false)
    (fits : x.size = wanted ∨ wanted + 32 ≤ x.size) :
    L.Places wanted (some x.offset) { answer := some x.offset, layout := L.carve x.offset wanted } := by
  obtain ⟨before, after, split⟩ := List.append_of_mem hx
  have left : L.lists.drop x = L.lists.without [x.offset] :=
    Lists.drop_eq_without (h.threaded.nodup _) fun c hc => h.own_class hx hc
  have carved : L.carve x.offset wanted = (⟨before, x, after, L.lists.without [x.offset]⟩ : Focus).cut wanted := by
    simp [carve, take_eq h.laid.tiled split, free, left]
  rw [carved]
  -- A block whose rest is too small to stand alone would be handed out whole, but is never found.
  rcases fits with exact | larger
  · rw [Focus.cut_of_lt (by simp only; omega)]
    simp only [Focus.putDown, Focus.mark, Focus.blocks, exact]
    exact .whole split free exact
  · rw [Focus.cut_of_le (by simp only; omega)]
    simp only [Focus.file, Focus.split, Focus.front, Focus.rest, Focus.blocks, List.append_assoc, List.singleton_append]
    exact .cut split free larger rfl

/-- A heap that grows enlarges its last block or gets a new one. -/
theorem grow_places (h : L.Describes s span) : L.Places wanted none (L.grow grant wanted) := by
  -- However the request for the missing bytes went, the one for a whole block ends in one of two ways.
  have ends : ∀ granted, L.Places wanted none ((L.appendIf granted wanted).after (L.declined wanted)) := by
    intro granted
    cases granted with
    | true => exact .appended
    | false => exact .refused
  cases short : L.shortLast wanted with
  | none =>
    have none_declined : L.declined wanted = [] := by simp [declined, short]
    have here := ends (grant 0)
    rw [none_declined] at here
    simp only [grow, short]
    exact here
  | some y =>
    simp only [grow, short]
    cases granted : grant 0 with
    | true =>
      obtain ⟨last, free, small⟩ := shortLast_eq_some_iff.mp short
      obtain ⟨before, split⟩ := List.getLast?_eq_some_iff.mp last
      have left : L.lists.drop y = L.lists.without [y.offset] :=
        Lists.drop_eq_without (h.threaded.nodup _) fun c hc => h.own_class (List.mem_of_getLast? last) hc
      have enlarged : L.enlargeLast y wanted =
          ⟨before ++ [⟨y.offset, wanted, true⟩], L.lists.without [y.offset]⟩ := by
        rw [Layout.enlargeLast, left, split, List.dropLast_concat]
      simp only [if_true, enlargeIf, enlarged]
      exact .enlarged split free small
    | false =>
      have one_declined : L.declined wanted = [(wanted - y.size, false)] := by simp [declined, short]
      exact one_declined ▸ ends (grant 1)

theorem obtain_places (h : L.Describes s span) :
    L.Places wanted (L.bestFit wanted budget) (L.obtain budget grant wanted) := by
  cases found : L.bestFit wanted budget with
  | none =>
    simp only [obtain, found]
    exact h.grow_places
  | some o =>
    obtain ⟨x, hx, free, rfl, fits⟩ := h.bestFit_fits found
    simp only [obtain, found]
    exact h.carve_places hx free fits

end Describes

end Layout

namespace HeapState

variable {σ : Type} [Backing σ] {C : Contract σ} {L : Layout} {s : HeapState σ} {n wanted : Nat}

/-- An allocation whose block is not too large for any heap runs without a fault. It searches the free lists, and what the
search found and what the source granted say where the block is placed. The block has the size wanted exactly, so its client
may use at least the bytes it asked for, and all blocks lent before stay lent with the bytes in them. -/
theorem Healthy.allocate_places (h : s.Healthy C L) (size : wanted = max ((n + 8 + 15) / 16 * 16) minBlockSize)
    (small : wanted ≤ 0x7fff_ffff_ffff_ffff) :
    ∃ found o s',
      FreeList.bestFit s.store s.span wanted s.tuning.probeBudget = .ok (found.map (s.span.base + ·)) ∧
      Heap.allocate n s = .ok (o.answer.map s.pointerTo) s' ∧
      L.Places wanted found o ∧
      s.Becomes C L s' o ∧
      (∀ y ∈ L.lent, y ∈ o.layout.lent) ∧
      ∀ p ∈ o.answer, Heap.usableSize (s.pointerTo p) s' = .ok (wanted - headerSize) s' ∧ n ≤ wanted - headerSize := by
  have fits : blockSizeFor n = some wanted :=
    blockSizeFor_eq_some_iff.mpr ⟨by rw [size, minBlockSize], by omega⟩
  obtain ⟨-, -, room⟩ := blockSizeFor_bounds fits
  obtain ⟨grant, s', run, served⟩ := h.allocate_run n
  have placed : L.allocate s.tuning.probeBudget grant n = L.obtain s.tuning.probeBudget grant wanted := by
    simp only [Layout.allocate, fits]
  rw [placed] at run served
  have hands : (L.obtain s.tuning.probeBudget grant wanted).Hands L wanted := h.describes.obtain_hands
  refine ⟨L.bestFit wanted s.tuning.probeBudget, _, s', h.describes.bestFit_run _ _, run, h.describes.obtain_places,
    served.becomes h, ?_, ?_⟩
  · intro y hy
    cases answer : (L.obtain s.tuning.probeBudget grant wanted).answer with
    | none => rwa [hands.layout_eq answer]
    | some p => exact (hands.lent_iff answer).mpr (.inl hy)
  · intro p answer
    have usable := served.healthy.usableSize_run ((hands.lent_iff answer).mpr (.inr rfl))
    rw [served.pointerTo_eq] at usable
    exact ⟨usable, by rw [headerSize]; omega⟩

/-- Of a free block of 112 bytes behind an allocated one, 48 bytes are handed out for a request of 40, and 64 are left. -/
theorem Healthy.allocate_places_reserve : ∃ (s s' : HeapState Reserve) (L : Layout) (o : Outcome),
    s.Healthy Reserve.contract L ∧ s.span.base = 4112 ∧
    FreeList.bestFit s.store s.span 48 s.tuning.probeBudget = .ok (some 4168) ∧
    (48 : Nat) = max ((40 + 8 + 15) / 16 * 16) minBlockSize ∧ Heap.allocate 40 s = .ok (some 4176) s' ∧
    L.Places 48 (some 56) o ∧ s.Becomes Reserve.contract L s' o ∧ Heap.usableSize 4176 s' = .ok 40 s' := by
  obtain ⟨s, L, healthy, base, search⟩ : ∃ (s : HeapState Reserve) (L : Layout), s.Healthy Reserve.contract L ∧
      s.span.base = 4112 ∧ FreeList.bestFit s.store s.span 48 s.tuning.probeBudget = .ok (some 4168) := by
    have made : Heap.create { selfCheck := false } (Reserve.site 4104 400 UInt64.ofNat) = .ok _ _ := rfl
    have created : Session.Reachable Reserve.contract _ := .created ⟨by decide, by decide⟩ made
    have first := created.performed (a := .request (.allocate 20)) (by intro _ h; cases h) rfl
    have second := first.performed (a := .request (.allocate 100)) (by intro _ h; cases h) rfl
    have third := second.performed (a := .request (.allocate 20)) (by intro _ h; cases h) rfl
    have fourth := third.performed (a := .request (.release (some 4176))) (by rintro _ ⟨⟩; decide) rfl
    obtain ⟨L, sound⟩ := fourth.sound
    exact ⟨_, L, sound.healthy, rfl, rfl⟩
  obtain ⟨found, o, s', search', run, places, becomes, -, usable⟩ := healthy.allocate_places (n := 40) rfl (by decide)
  have found_eq : found.map (s.span.base + ·) = some 4168 := Except.ok.inj (search'.symm.trans search)
  rw [base] at found_eq
  obtain ⟨o', rfl, at_⟩ := Option.map_eq_some_iff.mp found_eq
  obtain rfl : o' = 56 := by omega
  have answer := places.answer_eq
  have pointer : s.pointerTo 56 = 4176 := by
    rw [pointerTo, base]
    rfl
  obtain ⟨use, -⟩ := usable 56 answer
  rw [answer, Option.map_some, pointer] at run
  rw [pointer] at use
  exact ⟨s, s', L, o, healthy, base, search, rfl, run, places, becomes, use⟩

end HeapState

end SegregatedFit
