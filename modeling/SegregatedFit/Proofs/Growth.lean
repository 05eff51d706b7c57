import SegregatedFit.Heap.Growth
import SegregatedFit.Proofs.Carving
import SegregatedFit.Proofs.Contract
import Mathlib.Algebra.Ring.Nat

/-!
# Growing a heap is adding at the end of its layout

A heap grows by an allocated block at its end: either the last block, which was free and too small, is enlarged
(`Layout.enlargeLast`), or a new block is put behind the last one (`Layout.append`). What becomes of a heap depends on its
source only through the requests that it grants, so the functions on layouts take a function `grant` that says whether the
first, the second, … of their requests is granted (`Layout.grow`), and answer with the requests they made (`Outcome`).

`HeapState.Healthy` is the invariant of a heap at work, and `HeapState.Served` says what a step makes of it.
-/

namespace SegregatedFit

/-! ## Growth of a layout -/

/-- What an operation makes of a layout: its answer as an offset, the layout, and the requests made to the source. -/
structure Outcome where
  answer : Option Nat
  layout : Layout
  asked : List (Nat × Bool) := []

/-- The outcome of an operation that comes after the requests given. -/
def Outcome.after (o : Outcome) (calls : List (Nat × Bool)) : Outcome := { o with asked := calls ++ o.asked }

namespace Layout

/-- The offset behind the last block, where the epilogue stands. -/
def finish (L : Layout) : Nat := 24 + (L.blocks.map Block.size).sum

/-- The layout with a new allocated block behind the last one. -/
def append (L : Layout) (wanted : Nat) : Layout :=
  { L with blocks := L.blocks ++ [{ offset := L.finish, size := wanted, allocated := true }] }

/-- The last block, when it is free and smaller than `wanted`. -/
def shortLast (L : Layout) (wanted : Nat) : Option Block :=
  L.blocks.getLast?.filter fun y => !y.allocated && decide (y.size < wanted)

/-- The layout with the last block, which is `y`, enlarged and allocated. -/
def enlargeLast (L : Layout) (y : Block) (wanted : Nat) : Layout :=
  { blocks := L.blocks.dropLast ++ [{ offset := y.offset, size := wanted, allocated := true }], lists := L.lists.drop y }

/-- A new block at the end of the heap, if the source grants its bytes. -/
def appendIf (L : Layout) (granted : Bool) (wanted : Nat) : Outcome :=
  { answer := if granted then some L.finish else none
    layout := if granted then L.append wanted else L
    asked := [(wanted, granted)] }

/-- The last block, which is `y`, enlarged, if the source grants the bytes it lacks. -/
def enlargeIf (L : Layout) (y : Block) (granted : Bool) (wanted : Nat) : Outcome :=
  { answer := if granted then some y.offset else none
    layout := if granted then L.enlargeLast y wanted else L
    asked := [(wanted - y.size, granted)] }

/-- A block of `wanted` bytes at the end of the heap. -/
def grow (L : Layout) (grant : Nat → Bool) (wanted : Nat) : Outcome :=
  match L.shortLast wanted with
  | none => L.appendIf (grant 0) wanted
  | some y =>
    if grant 0 then L.enlargeIf y true wanted
    else (L.appendIf (grant 1) wanted).after [(wanted - y.size, false)]

end Layout

/-- The blocks of a tiling fill the space between its ends. -/
theorem Tiled.sum_size {start finish : Nat} {bs : List Block} (h : Tiled start bs finish) :
    start + (bs.map Block.size).sum = finish := by
  induction bs generalizing start with
  | nil => exact h
  | cons b bs ih =>
    obtain ⟨-, -, -, rest⟩ := h
    rw [List.map_cons, List.sum_cons, ← Nat.add_assoc, ih rest]

theorem Layout.Describes.finish_eq {L : Layout} {s : Store} {span : Span} (h : L.Describes s span) :
    L.finish = span.epilogueOffset := h.laid.tiled.sum_size

/-! ## The end of a heap -/

/-- A span is known by its ends. -/
theorem Span.eq_of_ends {s t : Span} (base : s.base = t.base) (ends : s.epilogueOffset = t.epilogueOffset) : s = t := by
  cases s
  cases t
  simp_all only

theorem Span.grow_eq (span : Span) {delta : Nat} (aligned : delta % 16 = 0)
    (fits : span.base + (span.epilogueOffset + delta) + 8 < 0x1_0000_0000_0000_0000) :
    ∃ span', span.grow delta = .ok span' ∧ span'.base = span.base ∧
      span'.epilogueOffset = span.epilogueOffset + delta :=
  ⟨_, (dif_pos aligned).trans (dif_pos fits), rfl, rfl⟩

/-- The epilogue is an allocated block of size zero that knows the state of the last block. -/
theorem Laid.epilogue {m : Memory} {span : Span} {bs : List Block} (h : Laid m span bs) :
    m.tag span.epilogue = ⟨0, true, lastState true bs⟩ := (Segment.append_iff.mp h.segment).2.1

/-- A gap at the end of a heap is filled with one allocated block, and the epilogue is put behind it. -/
theorem Gap.extend {s : Store} {span span' : Span} {before filed : List Block} {start finish : Nat} {state : Bool}
    {ls : Lists} {b : Block} (h : Gap s span before start state finish [] filed ls) (at_ : b.offset = start)
    (allocated : b.allocated = true) (large : 32 ≤ b.size) (aligned : b.size % 16 = 0) (base : span'.base = span.base)
    (ends : span'.epilogueOffset = start + b.size) :
    Arranged ⟨(s.memory.put span.base b (lastState true before)).setTag span'.epilogue ⟨0, true, true⟩, s.heads⟩ span'
        (before ++ [b]) filed ls ∧
      SamePayloads span.base before s.memory
        ((s.memory.put span.base b (lastState true before)).setTag span'.epilogue ⟨0, true, true⟩) := by
  subst at_
  have first := h.left.start_le
  have start_aligned := h.left.aligned
  have inside := span'.finish_lt
  have writable : b.Writable := .of_allocated allocated aligned (by omega)
  have outside : ∀ a, a < span.base + b.offset →
      ((s.memory.put span.base b (lastState true before)).setTag span'.epilogue ⟨0, true, true⟩).word a =
        s.memory.word a := by
    intro a low
    rw [Memory.setTag, Memory.word_setWord_of_ne _ _ (by simp only [Span.epilogue]; omega)]
    exact Memory.word_put_of_ne (by omega) (fun free => by rw [allocated] at free; cases free)
  refine ⟨⟨⟨?_, Tiled.append_iff.mpr ⟨_, h.left, rfl, large, aligned, ends.symm⟩, ?_⟩, ?_, h.files, ?_⟩, ?_⟩
  · rw [Memory.tag_eq (outside _ (by simp only [Span.prologue, prologueOffset, base]; omega))]
    simpa only [Span.prologue, base] using h.prologue
  · rw [List.append_assoc, base]
    refine Segment.append_iff.mpr ⟨h.low.congr ?_ ?_, ?_, ?_, ?_⟩
    · intro c hc
      have := h.bounds_before hc
      exact outside _ (by omega)
    · intro c hc free
      have := h.bounds_before hc
      exact outside _ (by omega)
    · rw [Memory.tag_setTag_of_ne _ _ (by simp only [Span.epilogue]; omega), Memory.tag_put writable]
    · intro free
      rw [allocated] at free
      cases free
    · rw [allocated, ← base]
      exact Segment.sentinel_iff.mpr (Memory.tag_setTag_self _ _ (by decide) rfl)
  · rw [base]
    refine h.threaded.congr ?_
    intro c o ho
    obtain ⟨y, hy, -, rfl, -⟩ := (h.files c o).mp ho
    have := h.bounds_before (by simpa using h.sub hy)
    exact ⟨outside _ (by omega), outside _ (by omega)⟩
  · intro y hy
    exact List.mem_append_left _ (by simpa using h.sub hy)
  · intro y hy _ a low high
    have := h.bounds_before hy
    exact outside _ (by omega)

section Ends

variable {L : Layout} {s : Store} {span span' : Span} {wanted : Nat}

/-- A new block behind the last one. -/
theorem Layout.Describes.append (h : L.Describes s span) (aligned : wanted % 16 = 0) (large : 32 ≤ wanted)
    (base : span'.base = span.base) (ends : span'.epilogueOffset = span.epilogueOffset + wanted) :
    let m := (s.memory.setTag span.epilogue ⟨wanted, true, lastState true L.blocks⟩).setTag span'.epilogue ⟨0, true, true⟩
    (L.append wanted).Describes ⟨m, s.heads⟩ span' ∧ SamePayloads span.base L.blocks s.memory m := by
  have gap : Gap s span L.blocks span.epilogueOffset _ span.epilogueOffset [] L.blocks L.lists :=
    Arranged.open [] (by simpa using h.arranged) (by simp) h.laid.tiled rfl
  obtain ⟨done, same⟩ := gap.extend (b := ⟨span.epilogueOffset, wanted, true⟩) rfl rfl large aligned base ends
  rw [Memory.put_allocated rfl] at done same
  have layout : L.append wanted = ⟨L.blocks ++ [⟨span.epilogueOffset, wanted, true⟩], L.lists⟩ := by
    rw [Layout.append, h.finish_eq]
  refine ⟨layout ▸ ⟨done.laid, ?_, done.threaded, ?_⟩, same⟩
  · refine coalesced_append.mpr ⟨h.coalesced, .singleton _, ?_⟩
    intro _ _ z hz
    obtain rfl := Option.some.inj hz
    exact .inr rfl
  · exact (Files.skip_iff rfl).mpr (by simpa using done.files)

/-- The last block, which is free, is enlarged and allocated. -/
theorem Layout.Describes.enlargeLast (h : L.Describes s span) {before : List Block} {y : Block}
    (split : L.blocks = before ++ [y]) (free : y.allocated = false) (aligned : wanted % 16 = 0) (large : 32 ≤ wanted)
    (base : span'.base = span.base) (ends : span'.epilogueOffset = y.offset + wanted) :
    let left := s.unlink span.base y.offset
    let t := { left with memory := left.memory.setTag (span.base + y.offset) ⟨wanted, true, lastState true before⟩ }
    (do
        FreeList.remove span (span.base + y.offset)
        StoreM.setTag (span.base + y.offset) (← Tag.make wanted true (lastState true before)) : StoreM Unit) s = .ok () t ∧
      (L.enlargeLast y wanted).Describes { t with memory := t.memory.setTag span'.epilogue ⟨0, true, true⟩ } span' ∧
      SamePayloads span.base before s.memory (t.memory.setTag span'.epilogue ⟨0, true, true⟩) := by
  have arranged := h.arranged
  rw [split] at arranged
  obtain ⟨run, out, same⟩ := arranged.remove free fun z hz => arranged.laid.tiled.offset_ne hz
  obtain ⟨_, left, middle⟩ := Tiled.append_iff.mp arranged.laid.tiled
  obtain ⟨rfl, sizes⟩ := Tiled.cons_iff.mp middle
  have gap : Gap _ span before y.offset _ span.epilogueOffset [] (before ++ []) (L.lists.drop y) :=
    Arranged.open [y] (by simpa using out) (List.Subset.refl _) left ⟨rfl, sizes⟩
  obtain ⟨done, same'⟩ := gap.extend (b := ⟨y.offset, wanted, true⟩) rfl rfl large aligned base ends
  rw [Memory.put_allocated rfl] at done same'
  obtain ⟨coalesced, -, -⟩ := coalesced_append.mp (split ▸ h.coalesced)
  have layout : L.enlargeLast y wanted = ⟨before ++ [⟨y.offset, wanted, true⟩], L.lists.drop y⟩ := by
    simp [Layout.enlargeLast, split]
  refine ⟨?_, ?_, (same.mono fun z hz _ => List.mem_append_left _ hz).trans same'⟩
  · simp only [Operation.bind_apply, run, Tag.make_of_aligned aligned, Operation.lift_ok, Operation.pure_apply,
      StoreM.setTag_apply]
  rw [layout]
  refine ⟨done.laid, ?_, done.threaded, ?_⟩
  · refine coalesced_append.mpr ⟨coalesced, .singleton _, ?_⟩
    intro _ _ z hz
    obtain rfl := Option.some.inj hz
    exact .inr rfl
  · exact (Files.skip_iff rfl).mpr done.files

/-- The new block is lent, and the blocks lent before stay so. -/
theorem Layout.mem_lent_append {y : Block} :
    y ∈ (L.append wanted).lent ↔ y ∈ L.lent ∨ y = ⟨L.finish, wanted, true⟩ := by
  simp only [Layout.mem_lent, Layout.append, List.mem_append, List.mem_singleton, or_and_right]
  exact or_congr_right (and_iff_left_of_imp fun e => by rw [e])

theorem Layout.mem_lent_enlargeLast {y z : Block} (last : L.blocks.getLast? = some y) (free : y.allocated = false) :
    z ∈ (L.enlargeLast y wanted).lent ↔ z ∈ L.lent ∨ z = ⟨y.offset, wanted, true⟩ := by
  obtain ⟨before, split⟩ := List.getLast?_eq_some_iff.mp last
  have ne : z.allocated = true → z ≠ y := fun allocated => Block.ne_of_allocated allocated free
  have lent : z = ⟨y.offset, wanted, true⟩ → z.allocated = true := fun e => by rw [e]
  simp only [Layout.mem_lent, Layout.enlargeLast, split, List.dropLast_concat, List.mem_append, List.mem_singleton]
  tauto

end Ends

/-! ## Heaps at work -/

variable {σ : Type} [Backing σ]

/-- The invariant of a heap at work over a source that keeps the contract: the memory holds a layout, and the range of the
source begins no later than the span and ends with it. -/
structure HeapState.Healthy (C : Contract σ) (s : HeapState σ) (L : Layout) : Prop where
  describes : L.Describes s.store s.span
  keeps : C.Keeps s.source s.programBreak
  range : ∃ first ≤ s.span.base, C.range s.source = some (first, s.span.finish)

/-- What an operation makes of a heap that holds a layout: the layout becomes that of the outcome, the source was asked for
what the outcome says, and the blocks that were allocated before and after keep their payloads. -/
structure HeapState.Served (C : Contract σ) (L : Layout) (s : HeapState σ) (o : Outcome) (s' : HeapState σ) : Prop where
  healthy : s'.Healthy C o.layout
  base : s'.span.base = s.span.base
  tuning : s'.tuning = s.tuning
  asked : Asked s.source s.programBreak o.asked s'.source s'.programBreak
  payloads : SamePayloads s.span.base (L.blocks ∩ o.layout.blocks) s.memory s'.memory

namespace HeapState

variable {C : Contract σ} {L : Layout} {s s₁ s' : HeapState σ} {o o' : Outcome}

/-- Nothing happens, apart from records. -/
theorem Healthy.served (h : s.Healthy C L) (answer : Option Nat) (records : List Record) :
    Served C L s { answer, layout := L } { s with records } :=
  ⟨⟨h.describes, h.keeps, h.range⟩, rfl, rfl, .nil _ _, .refl _ _ _⟩

/-- The span ends later by the bytes that the source gave. -/
theorem Served.finish_eq (h : s.Healthy C L) (served : Served C L s o s') :
    s'.span.finish = s.span.finish + givenBytes o.asked := by
  obtain ⟨first, -, range⟩ := h.range
  obtain ⟨first', -, range'⟩ := served.healthy.range
  obtain ⟨-, grown⟩ := served.asked.range_eq C h.keeps range
  rw [range'] at grown
  exact (Prod.mk.inj (Option.some.inj grown)).2

/-- A heap whose source gave nothing has the span that it had. -/
theorem Served.span_eq (h : s.Healthy C L) (served : Served C L s o s') (asked : givenBytes o.asked = 0) :
    s'.span = s.span := by
  have finish := served.finish_eq h
  have base := served.base
  simp only [Span.finish, Span.length, asked] at finish
  exact Span.eq_of_ends base (by omega)

/-- A source that was asked for nothing is as it was. -/
theorem Served.source_eq (served : Served C L s o s') (asked : o.asked = []) :
    s'.source = s.source ∧ s'.programBreak = s.programBreak := by
  have none := served.asked
  rw [asked] at none
  generalize s'.source = x, s'.programBreak = b at none ⊢
  cases none
  exact ⟨rfl, rfl⟩

theorem Served.trans (h : Served C L s o s₁) (h' : Served C o.layout s₁ o' s')
    (middle : ∀ b ∈ L.blocks, b ∈ o'.layout.blocks → b.allocated = true → b ∈ o.layout.blocks) :
    Served C L s (o'.after o.asked) s' where
  healthy := h'.healthy
  base := h'.base.trans h.base
  tuning := h'.tuning.trans h.tuning
  asked := h.asked.trans h'.asked
  payloads := by
    have same' := h'.payloads
    rw [h.base] at same'
    refine (h.payloads.mono ?_).trans (same'.mono ?_)
    all_goals
      intro b hb allocated
      obtain ⟨hb, hb'⟩ := List.mem_inter_iff.mp hb
      have := middle b hb hb' allocated
      exact List.mem_inter_iff.mpr ⟨by assumption, by assumption⟩

/-! ## Asking the source -/

/-- The heap asks for bytes and learns whether the source gave them; the memory is as it was. -/
theorem Healthy.requestGrowth_run (h : s.Healthy C L) (delta : Nat) :
    ∃ granted x b rs, Heap.requestGrowth delta s =
        .ok granted { s with source := x, programBreak := b, records := rs } ∧
      Asked s.source s.programBreak [(delta, granted)] x b := by
  obtain ⟨first, -, range⟩ := h.range
  have asked := Asked.one s.source s.programBreak delta
  obtain ⟨kept, range'⟩ := asked.range_eq C h.keeps range
  obtain ⟨-, fits⟩ := C.fits kept range'
  cases answer : (Backing.extend s.source s.programBreak delta).start with
  | none =>
    rw [answer] at asked
    refine ⟨false, _, _, (s.toSite.extend delta).2.records ++ [.growthRefused delta], ?_, asked⟩
    simp only [Heap.requestGrowth, Operation.bind_apply, HeapM.extend_apply, Site.extend, answer, HeapM.tell_apply]
    rfl
  | some start =>
    obtain rfl := C.start_eq h.keeps range answer
    rw [answer] at asked fits
    have room : s.span.length + delta < 0x1_0000_0000_0000_0000 := by
      simp only [Option.isSome_some, givenBytes, if_true, Span.finish] at fits
      omega
    refine ⟨true, _, _, (s.toSite.extend delta).2.records ++ [.grew delta (s.span.length + delta)], ?_, asked⟩
    simp only [Heap.requestGrowth, Operation.bind_apply, HeapM.extend_apply, Site.extend, answer, Operation.get_apply,
      ne_eq, not_true_eq_false, if_false, addChecked, room, if_true, Operation.lift_ok, Operation.pure_apply,
      HeapM.tell_apply]
    rfl

/-- The span after its source gave bytes at its end. -/
theorem Healthy.grow_span (h : s.Healthy C L) {delta : Nat} (aligned : delta % 16 = 0) {x : σ} {b : ProgramBreak}
    (asked : Asked s.source s.programBreak [(delta, true)] x b) :
    ∃ span, s.span.grow delta = .ok span ∧ span.base = s.span.base ∧
      span.epilogueOffset = s.span.epilogueOffset + delta ∧ C.Keeps x b ∧
      ∃ first ≤ span.base, C.range x = some (first, span.finish) := by
  obtain ⟨first, le, range⟩ := h.range
  obtain ⟨kept, range'⟩ := asked.range_eq C h.keeps range
  obtain ⟨-, fits⟩ := C.fits kept range'
  simp only [givenBytes, if_true, Nat.add_zero, Span.finish, Span.length, headerSize] at fits range'
  obtain ⟨span, grown, base, ends⟩ := s.span.grow_eq aligned (by omega)
  refine ⟨span, grown, base, ends, kept, first, base ▸ le, range'.trans ?_⟩
  simp only [Span.finish, Span.length, headerSize, base, ends, Option.some.injEq, Prod.mk.injEq, true_and]
  omega

end HeapState

omit [Backing σ] in
/-- An operation that runs on the store runs on the heap. -/
theorem HeapM.onStore_run {α : Type} {x : Span → StoreM α} {a : α} {s : HeapState σ} {t : Store}
    (h : x s.span s.store = .ok a t) : HeapM.onStore x s = .ok a { s with memory := t.memory, heads := t.heads } := by
  rw [HeapM.onStore_apply, h]

omit [Backing σ] in
/-- An operation that changes nothing on the store changes nothing on the heap. -/
theorem HeapM.onStore_read {α : Type} {x : Span → StoreM α} {a : α} {s : HeapState σ}
    (h : x s.span s.store = .ok a s.store) : HeapM.onStore x s = .ok a s := HeapM.onStore_run h

omit [Backing σ] in
/-- An operation on the store that comes to an end on a heap has come to an end on its store. -/
theorem HeapM.onStore_eq_ok {α : Type} {x : Span → StoreM α} {a : α} {s s' : HeapState σ} (h : HeapM.onStore x s = .ok a s') :
    ∃ t, x s.span s.store = .ok a t ∧ s' = { s with memory := t.memory, heads := t.heads } := by
  rw [HeapM.onStore_apply] at h
  cases run : x s.span s.store with
  | error e t =>
    rw [run] at h
    cases h
  | ok b t =>
    rw [run] at h
    cases h
    exact ⟨t, rfl, rfl⟩

omit [Backing σ] in
theorem Heap.moveEpilogue_run {s : HeapState σ} {delta : Nat} {span : Span} (h : s.span.grow delta = .ok span) :
    Heap.moveEpilogue delta s =
      .ok () { s with span, memory := s.memory.setTag span.epilogue ⟨0, true, true⟩ } := by
  simp only [Heap.moveEpilogue, Operation.bind_apply, Operation.get_apply, h, Operation.lift_ok, Operation.pure_apply,
    Operation.modify_apply]
  rfl

namespace HeapState

variable {C : Contract σ} {L : Layout} {s : HeapState σ} {wanted : Nat}

/-- A refusal changes nothing. -/
theorem Healthy.refused (h : s.Healthy C L) {delta : Nat} {x : σ} {b : ProgramBreak}
    (asked : Asked s.source s.programBreak [(delta, false)] x b) (rs : List Record) :
    Served C L s { answer := none, layout := L, asked := [(delta, false)] }
      { s with source := x, programBreak := b, records := rs } := by
  obtain ⟨first, le, range⟩ := h.range
  obtain ⟨kept, range'⟩ := asked.range_eq C h.keeps range
  exact ⟨⟨h.describes, kept, first, le, range'⟩, rfl, rfl, asked, .refl _ _ _⟩

/-- A new block is put behind the last one, if the source gives its bytes. -/
theorem Healthy.append_run (h : s.Healthy C L) (aligned : wanted % 16 = 0) (large : 32 ≤ wanted) :
    ∃ granted s', Heap.append wanted s = .ok ((L.appendIf granted wanted).answer.map (s.span.base + ·)) s' ∧
      Served C L s (L.appendIf granted wanted) s' := by
  obtain ⟨granted, x, b, rs, run, asked⟩ := h.requestGrowth_run wanted
  cases granted with
  | false =>
    refine ⟨false, _, ?_, h.refused asked rs⟩
    simp only [Heap.append, Operation.bind_apply, run]
    rfl
  | true =>
    obtain ⟨span, grown, base, ends, kept, range⟩ := h.grow_span aligned asked
    obtain ⟨done, payloads⟩ := h.describes.append aligned large base ends
    have tag : s.memory.tag s.span.epilogue = ⟨0, true, lastState true L.blocks⟩ := h.describes.laid.epilogue
    have moved := Heap.moveEpilogue_run (s := ⟨⟨x, s.memory.setTag s.span.epilogue
      ⟨wanted, true, lastState true L.blocks⟩, b, rs⟩, s.span, s.heads, s.tuning⟩) grown
    refine ⟨true, ⟨⟨x, _, b, rs⟩, span, s.heads, s.tuning⟩, ?_, ⟨⟨done, kept, range⟩, base, rfl, asked,
      payloads.mono fun c hc _ => (List.mem_inter_iff.mp hc).1⟩⟩
    simp only [Heap.append, Operation.bind_apply, run, if_true, Operation.get_apply, HeapM.onStore_apply,
      StoreM.tag_apply, Tag.make_of_aligned aligned, Operation.lift_ok, Operation.pure_apply, StoreM.setTag_apply,
      HeapState.store, tag, moved, Layout.appendIf, Option.map_some, h.describes.finish_eq]
    rfl

/-- A free block at the end is found from the epilogue. -/
theorem Healthy.trailing_run (h : s.Healthy C L) {before : List Block} {y : Block} (split : L.blocks = before ++ [y])
    (free : y.allocated = false) :
    y.size % 16 = 0 ∧ y.offset + y.size = s.span.epilogueOffset ∧
      HeapM.onStore (fun span => StoreM.preceding span.epilogue) s = .ok (s.span.base + y.offset) s ∧
      HeapM.onStore (fun _ => StoreM.tag (s.span.base + y.offset)) s = .ok ⟨y.size, false, lastState true before⟩ s := by
  have laid : Laid s.store.memory s.span (before ++ [y]) := split ▸ h.describes.laid
  obtain ⟨_, _, middle⟩ := Tiled.append_iff.mp laid.tiled
  obtain ⟨rfl, -, aligned, ends⟩ := Tiled.cons_iff.mp middle
  have ends : y.offset + y.size = s.span.epilogueOffset := ends
  obtain ⟨tag, -⟩ := laid.around
  have read := laid.preceding free
  rw [ends] at read
  refine ⟨aligned, ends, HeapM.onStore_read ?_, HeapM.onStore_read ?_⟩
  · simp only [StoreM.preceding, Operation.bind_apply, Operation.get_apply, Span.epilogue, read, Operation.lift_ok,
      Operation.pure_apply]
  · rw [StoreM.tag_apply, tag, free]

/-- The last block is enlarged, if it is free and too small and the source gives the bytes it lacks. -/
theorem Healthy.extendTrailing_run (h : s.Healthy C L) (aligned : wanted % 16 = 0) (large : 32 ≤ wanted) :
    match L.shortLast wanted with
    | none => Heap.extendTrailing wanted s = .ok none s
    | some y => ∃ granted s', Heap.extendTrailing wanted s =
          .ok ((L.enlargeIf y granted wanted).answer.map (s.span.base + ·)) s' ∧
        Served C L s (L.enlargeIf y granted wanted) s' := by
  have tag : HeapM.onStore (fun span => StoreM.tag span.epilogue) s = .ok ⟨0, true, lastState true L.blocks⟩ s :=
    HeapM.onStore_read (by rw [StoreM.tag_apply, h.describes.laid.epilogue])
  rcases List.eq_nil_or_concat L.blocks with empty | ⟨before, y, split⟩
  · simp only [Layout.shortLast, empty, List.getLast?_nil, Option.filter_none]
    simp only [Heap.extendTrailing, Operation.bind_apply, tag, empty]
    rfl
  rw [List.concat_eq_append] at split
  have last : lastState true L.blocks = y.allocated := by simp [split]
  have short : L.shortLast wanted = if y.allocated = false ∧ y.size < wanted then some y else none := by
    simp [Layout.shortLast, split, Option.filter]
  rw [short]
  cases state : y.allocated with
  | true =>
    simp only [Bool.true_eq_false, false_and, if_false]
    simp only [Heap.extendTrailing, Operation.bind_apply, tag, last, state]
    rfl
  | false =>
    obtain ⟨sizeAligned, ends, found, found'⟩ := h.trailing_run split state
    rcases Nat.lt_or_ge y.size wanted with small | enough
    · obtain ⟨granted, x, b, rs, run, asked⟩ := h.requestGrowth_run (wanted - y.size)
      rw [if_pos ⟨rfl, small⟩]
      cases granted with
      | false =>
        refine ⟨false, _, ?_, h.refused asked rs⟩
        simp only [Heap.extendTrailing, Operation.bind_apply, tag, last, state, Bool.false_eq_true, if_false, found,
          found', Nat.not_le.mpr small, run]
        rfl
      | true =>
        obtain ⟨span, grown, base, moved, kept, range⟩ := h.grow_span (by omega) asked
        obtain ⟨left, done, payloads⟩ := h.describes.enlargeLast split state aligned large base (by omega)
        generalize (⟨_, _⟩ : Store) = t at left done payloads
        have wrote := HeapM.onStore_run (s := ⟨⟨x, s.memory, b, rs⟩, s.span, s.heads, s.tuning⟩) (x := fun span => do
          FreeList.remove span (s.span.base + y.offset)
          StoreM.setTag (s.span.base + y.offset) (← Tag.make wanted true (lastState true before))) left
        have settled := Heap.moveEpilogue_run (s := ⟨⟨x, t.memory, b, rs⟩, s.span, t.heads, s.tuning⟩) grown
        refine ⟨true, ⟨⟨x, _, b, rs⟩, span, t.heads, s.tuning⟩, ?_, ⟨⟨done, kept, range⟩, base, rfl, asked,
          payloads.mono ?_⟩⟩
        · simp only [Heap.extendTrailing, Operation.bind_apply, tag, last, state, Bool.false_eq_true, if_false, found,
            found', Nat.not_le.mpr small, run, if_true, wrote, settled]
          rfl
        · intro c hc allocated
          obtain ⟨hc, -⟩ := List.mem_inter_iff.mp hc
          have ne : c ≠ y := Block.ne_of_allocated allocated state
          simpa [split, ne] using hc
    · rw [if_neg (by omega)]
      simp only [Heap.extendTrailing, Operation.bind_apply, tag, last, state, Bool.false_eq_true, if_false, found,
        found', enough, if_true]
      rfl

/-- The heap grows as its layout does, for some answers of the source. -/
theorem Healthy.grow_run (h : s.Healthy C L) (aligned : wanted % 16 = 0) (large : 32 ≤ wanted) :
    ∃ grant s', Heap.grow wanted s = .ok ((L.grow grant wanted).answer.map (s.span.base + ·)) s' ∧
      Served C L s (L.grow grant wanted) s' := by
  have trailing := h.extendTrailing_run aligned large
  cases short : L.shortLast wanted with
  | none =>
    rw [short] at trailing
    obtain ⟨granted, s', run, served⟩ := h.append_run aligned large
    refine ⟨fun _ => granted, s', ?_, by simpa only [Layout.grow, short] using served⟩
    simp only [Heap.grow, Operation.bind_apply, trailing, run, Layout.grow, short]
  | some y =>
    rw [short] at trailing
    obtain ⟨granted, s₁, run, served⟩ := trailing
    cases granted with
    | true =>
      refine ⟨fun _ => true, s₁, ?_, by simpa only [Layout.grow, short, if_true] using served⟩
      simp only [Heap.grow, Operation.bind_apply, run, Layout.grow, short, if_true]
      rfl
    | false =>
      obtain ⟨granted, s', run', served'⟩ := served.healthy.append_run aligned large
      have both := served.trans served' fun b hb _ _ => hb
      have grown : L.grow (fun j => decide (j ≠ 0) && granted) wanted =
          (L.appendIf granted wanted).after [(wanted - y.size, false)] := by simp [Layout.grow, short]
      refine ⟨_, s', ?_, grown ▸ both⟩
      rw [served.base] at run'
      rw [grown]
      simp only [Heap.grow, Operation.bind_apply, run, Layout.enlargeIf, Bool.false_eq_true, if_false, Option.map_none]
      exact run'

end HeapState

/-! ## Outcomes and the answers of a source -/

/-- The requests were granted as laid down: `pattern` says whether the first, the second, … is granted. -/
def Follows (calls : List (Nat × Bool)) (pattern : Nat → Bool) : Prop :=
  ∀ j call, calls[j]? = some call → call.2 = pattern j

theorem Follows.left {calls calls' : List (Nat × Bool)} {pattern : Nat → Bool} (h : Follows (calls ++ calls') pattern) :
    Follows calls pattern := fun j call at_ => h j call (by
  rw [List.getElem?_append_left (List.getElem?_eq_some_iff.mp at_).1, at_])

/-- The requests that come after others follow the rest of a pattern. -/
theorem Follows.right {calls calls' : List (Nat × Bool)} {pattern : Nat → Bool} (h : Follows (calls ++ calls') pattern) :
    Follows calls' fun j => pattern (calls.length + j) := fun j call at_ =>
  h (calls.length + j) call (by rw [List.getElem?_append_right (Nat.le_add_right _ _), Nat.add_sub_cancel_left, at_])

/-- The outcome of a growth depends on the answers to the requests made only. -/
theorem Layout.grow_congr {L : Layout} {grant pattern : Nat → Bool} {wanted : Nat}
    (h : Follows (L.grow grant wanted).asked pattern) : L.grow grant wanted = L.grow pattern wanted := by
  cases short : L.shortLast wanted with
  | none =>
    simp only [Layout.grow, short] at h ⊢
    have first : grant 0 = pattern 0 := h 0 _ rfl
    rw [first]
  | some y =>
    simp only [Layout.grow, short] at h ⊢
    cases first : grant 0 with
    | true =>
      rw [first] at h
      have first' : true = pattern 0 := h 0 _ rfl
      simp only [← first', if_true]
    | false =>
      rw [first] at h
      have first' : false = pattern 0 := h 0 _ rfl
      have second : grant 1 = pattern 1 := h 1 _ rfl
      simp only [← first', second, Bool.false_eq_true, if_false]

end SegregatedFit
