import SegregatedFit.Heap.Request
import SegregatedFit.Proofs.Audit
import SegregatedFit.Proofs.Growth
import SegregatedFit.Proofs.Payload
import SegregatedFit.Proofs.Search

/-!
# Serving a request is serving it on the layout

`Layout.serve` says what a request makes of a layout, given which of the requests to the source are granted. A heap in a
healthy state that is asked for something it may be asked for (`Layout.Permits`) does not fault, and it does what the
function on layouts says (`HeapState.Healthy.serve_run`). The pointers that are answered are addresses of payloads; layouts
answer with the offsets of blocks.
-/

namespace SegregatedFit

/-! ## Requests on layouts -/

namespace Layout

/-- A block of `wanted` bytes, from the free lists or at the end of the heap. -/
def obtain (L : Layout) (budget : Nat) (grant : Nat → Bool) (wanted : Nat) : Outcome :=
  match L.bestFit wanted budget with
  | some o => { answer := some o, layout := L.carve o wanted }
  | none => L.grow grant wanted

/-- A block for a request of `size` bytes. -/
def allocate (L : Layout) (budget : Nat) (grant : Nat → Bool) (size : Nat) : Outcome :=
  match blockSizeFor size with
  | none => { answer := none, layout := L }
  | some wanted => L.obtain budget grant wanted

/-- A block for `size` bytes in place of the one at an offset, which is taken back when there is one. -/
def exchange (L : Layout) (budget : Nat) (grant : Nat → Bool) (offset size : Nat) : Outcome :=
  let o := L.allocate budget grant size
  match o.answer with
  | none => o
  | some _ => { o with layout := o.layout.release offset }

/-- What a request makes of the layout of a heap that begins at `base`. -/
def serve (L : Layout) (base budget : Nat) (grant : Nat → Bool) : Request → Outcome
  | .allocate size => L.allocate budget grant size
  | .allocateZeroed count size =>
    if 0x1_0000_0000_0000_0000 ≤ count * size then { answer := none, layout := L }
    else L.allocate budget grant (count * size)
  | .release none => { answer := none, layout := L }
  | .release (some pointer) => { answer := none, layout := L.release (pointer - headerSize - base) }
  | .resize none size => L.allocate budget grant size
  | .resize (some pointer) 0 => { answer := none, layout := L.release (pointer - headerSize - base) }
  | .resize (some pointer) (size + 1) => L.exchange budget grant (pointer - headerSize - base) (size + 1)

end Layout

/-- The pointer that a request takes back or may take back, if any. -/
def Request.pointer : Request → Option Nat
  | .allocate _ | .allocateZeroed _ _ => none
  | .release pointer | .resize pointer _ => pointer

/-- The pointer that a request takes back, given its answer. When there is no room to move an allocation to, it stays. -/
def Request.consumed : Request → Option Nat → Option Nat
  | .allocate _, _ | .allocateZeroed _ _, _ => none
  | .release pointer, _ | .resize pointer 0, _ => pointer
  | .resize pointer (_ + 1), answer => if answer.isSome then pointer else none

/-- The bytes that a request asks for. -/
def Request.room : Request → Nat
  | .allocate size | .resize _ size => size
  | .allocateZeroed count size => count * size
  | .release _ => 0

/-- A client may name a block that it has, or no block. -/
def Layout.Permits (L : Layout) (base : Nat) (r : Request) : Prop :=
  ∀ pointer ∈ r.pointer, ∃ x ∈ L.lent, payloadOf (base + x.offset) = pointer

/-! ## The size of the block for a request -/

theorem roundUp?_eq_some_iff {n m : Nat} :
    roundUp? n = some m ↔ n + 15 < 0x1_0000_0000_0000_0000 ∧ m = (n + 15) / 16 * 16 := by
  unfold roundUp?
  by_cases fits : n + (alignment - 1) < 0x1_0000_0000_0000_0000
  · rw [if_pos fits, clearLowBits_alignment fits]
    simp only [alignment] at fits ⊢
    simp only [Option.some.injEq]
    omega
  · rw [if_neg fits]
    simp only [alignment] at fits
    simp only [reduceCtorEq, false_iff]
    omega

theorem guard_eq_some_iff {p : Prop} [Decidable p] {u : Unit} : (guard p : Option Unit) = some u ↔ p := by
  by_cases h : p <;> simp [guard, h]

/-- The block for a request is the smallest that has room for the bytes and the header and may be free later, as long as that
is less than half the address space. -/
theorem blockSizeFor_eq_some_iff {n wanted : Nat} :
    blockSizeFor n = some wanted ↔ wanted = max ((n + 23) / 16 * 16) 32 ∧ wanted < 0x8000_0000_0000_0000 := by
  unfold blockSizeFor
  constructor
  · intro h
    obtain ⟨_, -, h⟩ := Option.bind_eq_some_iff.mp h
    obtain ⟨rounded, round, h⟩ := Option.bind_eq_some_iff.mp h
    obtain ⟨_, small, h⟩ := Option.bind_eq_some_iff.mp h
    obtain ⟨-, rfl⟩ := roundUp?_eq_some_iff.mp round
    obtain rfl := Option.some.inj h
    exact ⟨rfl, guard_eq_some_iff.mp small⟩
  · rintro ⟨rfl, small⟩
    refine Option.bind_eq_some_iff.mpr ⟨(), guard_eq_some_iff.mpr ?_, Option.bind_eq_some_iff.mpr
      ⟨_, roundUp?_eq_some_iff.mpr ⟨?_, rfl⟩, Option.bind_eq_some_iff.mpr ⟨(), guard_eq_some_iff.mpr small, rfl⟩⟩⟩
    all_goals
      simp only [headerSize]
      omega

/-- The block for a request has an aligned size of at least the smallest one, with room for the bytes and the header. -/
theorem blockSizeFor_bounds {n wanted : Nat} (h : blockSizeFor n = some wanted) :
    wanted % 16 = 0 ∧ 32 ≤ wanted ∧ n + 8 ≤ wanted := by
  obtain ⟨rfl, -⟩ := blockSizeFor_eq_some_iff.mp h
  omega

/-! ## Requests and the answers of a source -/

namespace Layout

variable {L : Layout} {budget size : Nat} {grant pattern : Nat → Bool}

theorem obtain_congr {wanted : Nat} (h : Follows (L.obtain budget grant wanted).asked pattern) :
    L.obtain budget grant wanted = L.obtain budget pattern wanted := by
  cases found : L.bestFit wanted budget with
  | none =>
    simp only [obtain, found] at h ⊢
    exact grow_congr h
  | some o => simp only [obtain, found]

theorem allocate_congr (h : Follows (L.allocate budget grant size).asked pattern) :
    L.allocate budget grant size = L.allocate budget pattern size := by
  cases fits : blockSizeFor size with
  | none => simp only [allocate, fits]
  | some wanted =>
    simp only [allocate, fits] at h ⊢
    exact obtain_congr h

theorem exchange_asked (L : Layout) (budget : Nat) (grant : Nat → Bool) (offset size : Nat) :
    (L.exchange budget grant offset size).asked = (L.allocate budget grant size).asked := by
  unfold exchange
  extract_lets o
  split <;> rfl

/-- The outcome of a request depends on the answers to the requests made to the source only. -/
theorem serve_congr {base : Nat} {r : Request} (h : Follows (L.serve base budget grant r).asked pattern) :
    L.serve base budget grant r = L.serve base budget pattern r := by
  cases r with
  | allocate size => exact allocate_congr h
  | allocateZeroed count size =>
    by_cases large : 0x1_0000_0000_0000_0000 ≤ count * size
    · simp only [serve, large, if_true]
    · simp only [serve, large, if_false] at h ⊢
      exact allocate_congr h
  | release pointer => cases pointer <;> rfl
  | resize pointer size =>
    cases pointer with
    | none => cases size <;> exact allocate_congr h
    | some pointer =>
      cases size with
      | zero => rfl
      | succ size =>
        simp only [serve, exchange_asked] at h
        simp only [serve, exchange, allocate_congr h]

end Layout

/-! ## What an allocation hands out -/

/-- An allocation of `wanted` bytes lends a block that was not lent before, or nothing happens. -/
def Outcome.Hands (o : Outcome) (L : Layout) (wanted : Nat) : Prop :=
  match o.answer with
  | none => o.layout = L
  | some p => (∀ y, y ∈ o.layout.lent ↔ y ∈ L.lent ∨ y = ⟨p, wanted, true⟩) ∧ ∀ y ∈ L.lent, y.offset ≠ p

/-- A request settles which blocks are lent: the block of the pointer consumed no longer is, and the block that is answered
now is. It has room for the bytes asked for, and stands where no block was lent before. -/
def Outcome.Settles (o : Outcome) (L : Layout) (base : Nat) (r : Request) : Prop :=
  ∃ wanted, r.room + 8 ≤ wanted ∧
    (∀ p ∈ o.answer, ∀ y ∈ L.lent, y.offset + y.size ≤ p ∨ p + wanted ≤ y.offset) ∧ ∀ y, y ∈ o.layout.lent ↔
    (y ∈ L.lent ∧ some (payloadOf (base + y.offset)) ≠ r.consumed o.answer) ∨ ∃ p ∈ o.answer, y = ⟨p, wanted, true⟩

namespace Outcome.Hands

variable {o : Outcome} {L : Layout} {wanted p : Nat}

theorem lent_iff (h : o.Hands L wanted) (answer : o.answer = some p) {y : Block} :
    y ∈ o.layout.lent ↔ y ∈ L.lent ∨ y = ⟨p, wanted, true⟩ := by
  simp only [Outcome.Hands, answer] at h
  exact h.1 y

theorem offset_ne (h : o.Hands L wanted) (answer : o.answer = some p) {y : Block} (hy : y ∈ L.lent) : y.offset ≠ p := by
  simp only [Outcome.Hands, answer] at h
  exact h.2 y hy

theorem layout_eq (h : o.Hands L wanted) (answer : o.answer = none) : o.layout = L := by
  simpa only [Outcome.Hands, answer] using h

/-- The block handed out was no block that clients had. -/
theorem new (h : o.Hands L wanted) (answer : o.answer = some p) : (⟨p, wanted, true⟩ : Block) ∉ L.blocks :=
  fun mem => h.offset_ne answer (Layout.mem_lent.mpr ⟨mem, rfl⟩) rfl

/-- Nothing is handed out when nothing happens. -/
theorem nothing : Outcome.Hands { answer := none, layout := L } L wanted := rfl

/-- The block handed out stands where no block was lent. -/
theorem apart (h : o.Hands L wanted) (answer : o.answer = some p) {s : Store} {span : Span}
    (handed : o.layout.Describes s span) {y : Block} (hy : y ∈ L.lent) : y.offset + y.size ≤ p ∨ p + wanted ≤ y.offset :=
  handed.laid.tiled.apart (Layout.mem_lent.mp ((h.lent_iff answer).mpr (.inl hy))).1
    (Layout.mem_lent.mp ((h.lent_iff answer).mpr (.inr rfl))).1 (h.offset_ne answer hy)

/-- An allocation consumes nothing. -/
theorem settles (h : o.Hands L wanted) {s : Store} {span : Span} (handed : o.layout.Describes s span) {r : Request}
    (room : r.room + 8 ≤ wanted) (keeps : r.consumed o.answer = none) (base : Nat) : o.Settles L base r := by
  refine ⟨wanted, room, ?_, ?_⟩
  · intro p answer y hy
    exact h.apart answer handed hy
  · intro y
    rw [keeps]
    cases answer : o.answer with
    | none => simp [h.layout_eq answer]
    | some p => simp [h.lent_iff answer]

end Outcome.Hands

namespace Layout.Describes

variable {L : Layout} {s : Store} {span : Span} {wanted : Nat} {grant : Nat → Bool}

/-- A block that is not lent stands elsewhere than the blocks lent. -/
theorem offset_ne_of_free (h : L.Describes s span) {x y : Block} (hx : x ∈ L.blocks) (free : x.allocated = false)
    (hy : y ∈ L.lent) : y.offset ≠ x.offset := by
  obtain ⟨mem, allocated⟩ := mem_lent.mp hy
  intro same
  exact Block.ne_of_allocated allocated free (h.laid.tiled.eq_of_offset mem hx same)

theorem appendIf_hands (h : L.Describes s span) (granted : Bool) : (L.appendIf granted wanted).Hands L wanted := by
  cases granted with
  | false => exact rfl
  | true =>
    refine ⟨fun y => mem_lent_append, ?_⟩
    intro y hy
    have bounds := h.laid.bounds (mem_lent.mp hy).1
    have finish := h.finish_eq
    omega

theorem grow_hands (h : L.Describes s span) : (L.grow grant wanted).Hands L wanted := by
  cases short : L.shortLast wanted with
  | none =>
    simp only [Layout.grow, short]
    exact h.appendIf_hands _
  | some y =>
    obtain ⟨last, small⟩ := Option.filter_eq_some_iff.mp short
    obtain ⟨free, -⟩ : y.allocated = false ∧ y.size < wanted := by simpa using small
    cases first : grant 0 with
    | true =>
      simp only [Layout.grow, short, first, if_true]
      exact ⟨fun z => mem_lent_enlargeLast last free, fun z hz => h.offset_ne_of_free (List.mem_of_getLast? last) free hz⟩
    | false =>
      simp only [Layout.grow, short, first, Bool.false_eq_true, if_false]
      exact h.appendIf_hands _

theorem obtain_hands (h : L.Describes s span) {budget : Nat} : (L.obtain budget grant wanted).Hands L wanted := by
  cases found : L.bestFit wanted budget with
  | none =>
    simp only [obtain, found]
    exact h.grow_hands
  | some o =>
    obtain ⟨x, hx, free, rfl, fits⟩ := h.bestFit_fits found
    simp only [obtain, found]
    exact ⟨fun y => h.mem_lent_carve hx free fits, fun y hy => h.offset_ne_of_free hx free hy⟩

end Layout.Describes

/-- An allocation hands out a block of the size that the request needs, or nothing happens. -/
theorem Layout.Describes.allocate_hands {L : Layout} {s : Store} {span : Span} (h : L.Describes s span) (budget size : Nat)
    (grant : Nat → Bool) : ∃ wanted, size + 8 ≤ wanted ∧ (L.allocate budget grant size).Hands L wanted := by
  cases fits : blockSizeFor size with
  | none => exact ⟨size + 8, Nat.le_refl _, by simp only [Layout.allocate, fits]; exact rfl⟩
  | some wanted => exact ⟨wanted, (blockSizeFor_bounds fits).2.2, by simp only [Layout.allocate, fits]; exact h.obtain_hands⟩

/-- The blocks lent have different pointers. -/
theorem Layout.Describes.payload_inj {L : Layout} {s : Store} {span : Span} (h : L.Describes s span) {x y : Block}
    (hx : x ∈ L.lent) (hy : y ∈ L.lent) : payloadOf (span.base + x.offset) = payloadOf (span.base + y.offset) ↔ x = y := by
  constructor
  · intro same
    simp only [payloadOf] at same
    exact h.laid.tiled.eq_of_offset (Layout.mem_lent.mp hx).1 (Layout.mem_lent.mp hy).1 (by omega)
  · intro same
    rw [same]

/-- No block was lent at the offset of the block handed out. -/
theorem Outcome.Settles.offset_ne {o : Outcome} {L : Layout} {base : Nat} {r : Request} (h : o.Settles L base r) {s : Store}
    {span : Span} (described : L.Describes s span) : ∀ p ∈ o.answer, ∀ y ∈ L.lent, y.offset ≠ p := by
  obtain ⟨wanted, room, apart, -⟩ := h
  intro p answer y hy
  have := described.laid.bounds (Layout.mem_lent.mp hy).1
  have := apart p answer y hy
  omega

/-- A block is taken back, and the layout has nothing to answer. -/
theorem Layout.Describes.release_settles {L : Layout} {s : Store} {span : Span} (h : L.Describes s span) {x : Block}
    (hx : x ∈ L.lent) {r : Request} (consumes : r.consumed none = some (payloadOf (span.base + x.offset))) :
    Outcome.Settles { answer := none, layout := L.release x.offset } L span.base r := by
  refine ⟨r.room + 8, Nat.le_refl _, ?_, ?_⟩
  · intro p hp
    cases hp
  · intro y
    simp only [consumes, h.mem_lent_release hx, Option.mem_def, reduceCtorEq, false_and, exists_false, or_false, ne_eq,
      Option.some.injEq]
    exact and_congr_right fun hy => not_congr (h.payload_inj hy hx).symm

/-- A block is handed out and another one is taken back. -/
theorem Layout.Describes.exchange_settles {L : Layout} {s s' : Store} {span span' : Span} (h : L.Describes s span)
    {o : Outcome} {wanted p : Nat} (hands : o.Hands L wanted) (answer : o.answer = some p)
    (moved : o.layout.Describes s' span') {x : Block} (hx : x ∈ L.lent) {r : Request} (room : r.room + 8 ≤ wanted)
    (consumes : r.consumed (some p) = some (payloadOf (span.base + x.offset))) (asked : List (Nat × Bool)) :
    Outcome.Settles { answer := some p, layout := o.layout.release x.offset, asked } L span.base r := by
  refine ⟨wanted, room, ?_, ?_⟩
  · rintro _ ⟨⟩ y hy
    exact hands.apart answer moved hy
  · intro y
    have old := (hands.lent_iff answer).mpr (.inl hx)
    rw [moved.mem_lent_release old, hands.lent_iff answer]
    simp only [consumes, Option.mem_some_iff, exists_eq_left', ne_eq, Option.some.injEq]
    constructor
    · rintro ⟨kept | rfl, other⟩
      · exact .inl ⟨kept, fun same => other ((h.payload_inj kept hx).mp same)⟩
      · exact .inr rfl
    · rintro (⟨kept, other⟩ | rfl)
      · exact ⟨.inl kept, fun same => other (by rw [same])⟩
      · exact ⟨.inr rfl, fun same => hands.offset_ne answer hx (by rw [← same])⟩

/-- The block of a pointer stands right before it, at a multiple of eight. -/
theorem blockOf_eq_ok_iff {pointer b : Nat} :
    blockOf pointer = .ok b ↔ (pointer - headerSize) % 8 = 0 ∧ b = pointer - headerSize := by
  unfold blockOf
  split
  · next unaligned => simp only [reduceCtorEq, unaligned, false_and]
  · next aligned => simp only [Except.ok.injEq, not_not.mp aligned, true_and, eq_comm]

/-! ## Requests on heaps -/

variable {σ : Type} [Backing σ]

namespace HeapState

variable {C : Contract σ} {L : Layout} {s s₁ : HeapState σ} {o : Outcome} {x : Block} {pointer : Nat}

/-- The blocks lie within the bounds that the source reports, and the span ends with them. -/
theorem Healthy.within (h : s.Healthy C L) :
    (∀ b ∈ L.blocks, Backing.lowest s.source ≤ s.span.base + b.offset ∧
      s.span.base + b.offset + headerSize ≤ Backing.highest s.source + 1) ∧
    s.span.finish = Backing.highest s.source + 1 := by
  obtain ⟨first, le, range⟩ := h.range
  have positive : first < s.span.finish := by
    simp only [Span.finish, Span.length, headerSize]
    omega
  obtain ⟨lowest, highest⟩ := C.bounds h.keeps range positive
  refine ⟨?_, highest.symm⟩
  intro b hb
  have bounds := h.describes.laid.bounds hb
  rw [lowest, highest]
  simp only [Span.finish, Span.length, headerSize]
  omega

/-- A healthy heap is lawful. -/
theorem Healthy.lawful (h : s.Healthy C L) :
    s.store.Lawful s.span (Backing.lowest s.source) (Backing.highest s.source) := ⟨L, h.describes, h.within⟩

/-- A healthy heap passes its audit. -/
theorem Healthy.audit_run (h : s.Healthy C L) : s.audit = .ok () := h.describes.audit_run h.within.1 h.within.2

/-- The audit after a request does not stop a heap that passes it. -/
theorem selfCheck_of_audit (passed : s.audit = .ok ()) : Heap.selfCheck s = .ok () s := by
  simp only [Heap.selfCheck, Operation.bind_apply, Operation.get_apply, passed]
  cases s.tuning.selfCheck <;> rfl

theorem Healthy.selfCheck_run (h : s.Healthy C L) : Heap.selfCheck s = .ok () s := selfCheck_of_audit h.audit_run

/-- Records do not matter. -/
theorem Served.tell (h : Served C L s o s₁) (r : Record) : Served C L s o { s₁ with toSite := s₁.toSite.tell r } :=
  ⟨⟨h.healthy.describes, h.healthy.keeps, h.healthy.range⟩, h.base, h.tuning, h.asked, h.payloads⟩

theorem Healthy.obtain_run (h : s.Healthy C L) {wanted : Nat} (aligned : wanted % 16 = 0) (large : 32 ≤ wanted) :
    ∃ grant s', Heap.obtain wanted s =
        .ok ((L.obtain s.tuning.probeBudget grant wanted).answer.map (s.span.base + ·)) s' ∧
      Served C L s (L.obtain s.tuning.probeBudget grant wanted) s' := by
  have search := h.describes.bestFit_run wanted s.tuning.probeBudget
  cases found : L.bestFit wanted s.tuning.probeBudget with
  | none =>
    obtain ⟨grant, s', run, served⟩ := h.grow_run aligned large
    rw [found] at search
    refine ⟨grant, s', ?_, by simpa only [Layout.obtain, found] using served⟩
    simp only [Heap.obtain, Operation.bind_apply, Operation.get_apply, search, Option.map_none, Operation.lift_ok,
      Operation.pure_apply, Layout.obtain, found, run]
  | some o =>
    obtain ⟨x, hx, free, rfl, fits⟩ := h.describes.bestFit_fits found
    obtain ⟨before, after, split⟩ := List.append_of_mem hx
    obtain ⟨run, done, payloads⟩ := h.describes.carve_run split free aligned large (by omega)
    generalize Focus.carved ⟨before, x, after, L.lists.drop x⟩ wanted s.store s.span.base = t at run done payloads
    have carved := HeapM.onStore_run (s := s) (x := fun span => StoreM.carve span (s.span.base + x.offset) wanted) run
    rw [found] at search
    refine ⟨fun _ => false, { s with memory := t.memory, heads := t.heads }, ?_, ?_⟩
    · simp only [Heap.obtain, Operation.bind_apply, Operation.get_apply, search, Option.map_some, Operation.lift_ok,
        Operation.pure_apply, Layout.obtain, found, carved]
    · simp only [Layout.obtain, found]
      exact ⟨⟨done, h.keeps, h.range⟩, rfl, rfl, .nil _ _, payloads.mono fun b hb _ => (List.mem_inter_iff.mp hb).1⟩

/-- The pointer to the payload of the block at an offset. -/
def pointerTo (s : HeapState σ) (offset : Nat) : Nat := payloadOf (s.span.base + offset)

/-- Pointers mean the same before and after. -/
theorem Served.pointerTo_eq (h : Served C L s o s₁) : s₁.pointerTo = s.pointerTo :=
  funext fun _ => by rw [pointerTo, pointerTo, h.base]

theorem Healthy.allocate_run (h : s.Healthy C L) (size : Nat) :
    ∃ grant s', Heap.allocate size s = .ok ((L.allocate s.tuning.probeBudget grant size).answer.map s.pointerTo) s' ∧
      Served C L s (L.allocate s.tuning.probeBudget grant size) s' := by
  cases fits : blockSizeFor size with
  | none =>
    refine ⟨fun _ => false, { s with toSite := s.toSite.tell (.requestTooLarge size) }, ?_, ?_⟩
    · simp only [Heap.allocate, fits, Operation.bind_apply, HeapM.tell_apply, Layout.allocate]
      rfl
    · simp only [Layout.allocate, fits]
      exact h.served none _
  | some wanted =>
    obtain ⟨aligned, large, -⟩ := blockSizeFor_bounds fits
    obtain ⟨grant, s', run, served⟩ := h.obtain_run aligned large
    simp only [Layout.allocate, fits]
    cases answer : (L.obtain s.tuning.probeBudget grant wanted).answer with
    | none =>
      rw [answer] at run
      refine ⟨grant, { s' with toSite := s'.toSite.tell (.outOfMemory size) }, ?_, served.tell _⟩
      simp only [Heap.allocate, fits, Operation.bind_apply, run, Option.map_none, HeapM.tell_apply, answer]
      rfl
    | some p =>
      rw [answer] at run
      have read := HeapM.onStore_read (s := s') (x := fun _ => StoreM.tag (s.span.base + p)) (StoreM.tag_apply _ _)
      have told := served.tell (.allocated size (payloadOf (s.span.base + p)) (s'.store.memory.tag (s.span.base + p)).size)
      refine ⟨grant, _, ?_, told⟩
      simp only [Heap.allocate, fits, Operation.bind_apply, run, Option.map_some, read, HeapM.tell_apply,
        told.healthy.selfCheck_run, answer]
      rfl

/-! ## Pointers -/

omit [Backing σ] in
/-- The payload of a block that is lent begins at a multiple of sixteen inside the span, right behind the block. -/
theorem blockOf_pointerTo (h : L.Describes s.store s.span) (hx : x ∈ L.lent) :
    s.span.contains (s.pointerTo x.offset) = true ∧ blockOf (s.pointerTo x.offset) = .ok (s.span.base + x.offset) := by
  have bounds := h.laid.bounds (Layout.mem_lent.mp hx).1
  have aligned := s.span.base_aligned
  constructor
  · simp only [Span.contains_iff, pointerTo, payloadOf, Span.finish, Span.length, headerSize]
    omega
  · simp only [blockOf_eq_ok_iff, pointerTo, payloadOf, headerSize]
    omega

/-- A client may use all bytes of a block but its tag. -/
theorem Healthy.usableSize_run (h : s.Healthy C L) (hx : x ∈ L.lent) :
    Heap.usableSize (s.pointerTo x.offset) s = .ok (x.size - 8) s := by
  obtain ⟨mem, -⟩ := Layout.mem_lent.mp hx
  have bounds := h.describes.laid.bounds mem
  have size : (s.memory.tag (s.span.base + x.offset)).size = x.size := (h.describes.laid.tag mem).1
  have enough : 8 ≤ x.size := by omega
  have payload : s.memory.payloadSize (s.span.base + x.offset) = .ok (x.size - 8) := by
    simp only [Memory.payloadSize, subChecked, size, headerSize, enough, if_true]
  simp only [Heap.usableSize, Operation.bind_apply, (blockOf_pointerTo h.describes hx).2, Operation.lift_ok,
    Operation.pure_apply, Operation.get_apply, payload]

/-- The block of a pointer is taken back, and then the heap is audited if its tuning says so. -/
theorem releasePointer_eq (h : L.Describes s.store s.span) (hx : x ∈ L.lent) :
    ∃ (t : Store) (records : List Record), (L.release x.offset).Describes t s.span ∧
      SamePayloads s.span.base (L.blocks.filter (· ≠ x)) s.memory t.memory ∧
      Heap.releasePointer (s.pointerTo x.offset) s =
        Heap.selfCheck { s with toSite := { s.toSite with memory := t.memory, records }, heads := t.heads } := by
  obtain ⟨mem, live⟩ := Layout.mem_lent.mp hx
  obtain ⟨before, after, split⟩ := List.append_of_mem mem
  obtain ⟨inside, block⟩ := blockOf_pointerTo h hx
  obtain ⟨run, done, payloads⟩ := h.release_run split live
  generalize s.span.base + (Focus.mark ⟨before, x, after, L.lists⟩ false).joinBefore.block.offset = merged at run
  generalize Focus.released ⟨before, x, after, L.lists⟩ s.store s.span.base = t at run done payloads
  have released := HeapM.onStore_run (s := s) (x := fun span => StoreM.release span (s.span.base + x.offset)) run
  have read := HeapM.onStore_read (s := { s with memory := t.memory, heads := t.heads })
    (x := fun _ => StoreM.tag merged) (StoreM.tag_apply _ _)
  refine ⟨t, s.records ++ [.released (s.pointerTo x.offset) (t.memory.tag merged).size], done, payloads.mono ?_, ?_⟩
  · intro b hb _
    obtain ⟨hb, other⟩ := List.mem_filter.mp hb
    simpa [split, of_decide_eq_true other] using hb
  · simp only [Heap.releasePointer, Operation.bind_apply, Operation.get_apply, inside, Bool.true_eq_false, if_false, block,
      Operation.lift_ok, Operation.pure_apply, released, read, HeapM.tell_apply]
    rfl

/-- The block of a pointer is taken back. -/
theorem Healthy.releasePointer_run (h : s.Healthy C L) (hx : x ∈ L.lent) (answer : Option Nat) :
    ∃ s', Heap.releasePointer (s.pointerTo x.offset) s = .ok () s' ∧
      Served C L s { answer, layout := L.release x.offset } s' := by
  obtain ⟨t, records, done, payloads, run⟩ := releasePointer_eq h.describes hx
  have served : Served C L s { answer, layout := L.release x.offset }
      { s with toSite := { s.toSite with memory := t.memory, records }, heads := t.heads } := by
    refine ⟨⟨done, h.keeps, h.range⟩, rfl, rfl, .nil _ _, payloads.mono ?_⟩
    intro b hb allocated
    obtain ⟨old, hb⟩ := List.mem_inter_iff.mp hb
    have kept := (h.describes.mem_lent_release hx).mp (Layout.mem_lent.mpr ⟨hb, allocated⟩)
    exact List.mem_filter.mpr ⟨old, by simpa using kept.2⟩
  exact ⟨_, run.trans served.healthy.selfCheck_run, served⟩

/-- Writing into the payload of the block handed out disturbs nothing. -/
theorem Served.fill (h : Served C L s o s₁) {wanted p : Nat} (hands : o.Hands L wanted) (answer : o.answer = some p)
    (vs : List UInt8) (room : vs.length + 8 ≤ wanted) :
    Served C L s o { s₁ with memory := s₁.memory.setBytes (s.pointerTo p) vs } := by
  have new := (hands.lent_iff answer).mpr (.inr rfl)
  obtain ⟨describes, same⟩ := h.healthy.describes.setBytes new (s.pointerTo p) vs (by rw [h.base, pointerTo]) (by
    simp only [h.base, pointerTo, payloadOf, headerSize]
    omega)
  rw [h.base] at same
  refine ⟨⟨describes, h.healthy.keeps, h.healthy.range⟩, h.base, h.tuning, h.asked, h.payloads.trans
    (same.mono fun c hc _ => List.mem_filter.mpr ?_)⟩
  obtain ⟨old, hc⟩ := List.mem_inter_iff.mp hc
  exact ⟨hc, by simpa using fun e : c = ⟨p, wanted, true⟩ => hands.new answer (e ▸ old)⟩

/-- No more bytes are copied into the block handed out than were asked for. -/
theorem Served.copy (h : Served C L s o s₁) {wanted p n : Nat} (hands : o.Hands L wanted) (answer : o.answer = some p)
    (room : n + 8 ≤ wanted) (source u : Nat) :
    Served C L s o { s₁ with memory := s₁.memory.copyBytes source (s.pointerTo p) (min u n) } := by
  refine h.fill hands answer _ ?_
  simp only [Memory.bytes, List.length_map, List.length_range']
  omega

/-- No more bytes of the block handed out are set to zero than were asked for. -/
theorem Served.zero (h : Served C L s o s₁) {wanted p n : Nat} (hands : o.Hands L wanted) (answer : o.answer = some p)
    (room : n + 8 ≤ wanted) : Served C L s o { s₁ with memory := s₁.memory.zeroBytes (s.pointerTo p) n } :=
  h.fill hands answer _ (by rwa [List.length_replicate])

end HeapState

/-! ## The steps of a request -/

namespace Heap

variable {s s₁ s₂ : HeapState σ} {p q n u count size : Nat}

/-- The block of a pointer is taken back. -/
theorem serve_release (back : releasePointer p s = .ok () s₁) : serve (.release (some p)) s = .ok none s₁ := by
  simp only [serve, release, Operation.bind_apply, back]
  rfl

/-- When there is no room to move to, that was all. -/
theorem resize_refused (positive : 0 < n) (usable : usableSize p s = .ok u s) (refused : allocate n s = .ok none s₁) :
    resize (some p) n s = .ok none s₁ := by
  obtain ⟨n, rfl⟩ := Nat.exists_eq_succ_of_ne_zero positive.ne'
  simp only [resize, Operation.bind_apply, usable, refused]
  rfl

/-- A block is allocated, bytes are copied into it, and the old block is taken back. -/
theorem resize_granted (positive : 0 < n) (usable : usableSize p s = .ok u s) (granted : allocate n s = .ok (some q) s₁)
    (back : releasePointer p { s₁ with memory := s₁.memory.copyBytes p q (min u n) } = .ok () s₂) :
    resize (some p) n s = .ok (some q) { s₂ with toSite := s₂.toSite.tell (.resized p n q) } := by
  obtain ⟨n, rfl⟩ := Nat.exists_eq_succ_of_ne_zero positive.ne'
  simp only [resize, Operation.bind_apply, usable, granted, HeapM.modifyMemory_apply, back, HeapM.tell_apply]
  rfl

/-- The number of bytes to be set to zero does not fit in a word. -/
theorem allocateZeroed_overflow (large : 0x1_0000_0000_0000_0000 ≤ count * size) :
    allocateZeroed count size s = .ok none { s with toSite := s.toSite.tell (.zeroedOverflow count size) } := by
  simp only [allocateZeroed, large, if_true, Operation.bind_apply, HeapM.tell_apply]
  rfl

theorem allocateZeroed_refused (small : count * size < 0x1_0000_0000_0000_0000)
    (refused : allocate (count * size) s = .ok none s₁) : allocateZeroed count size s = .ok none s₁ := by
  simp only [allocateZeroed, Nat.not_le.mpr small, if_false, Operation.bind_apply, refused]
  rfl

theorem allocateZeroed_granted (small : count * size < 0x1_0000_0000_0000_0000)
    (granted : allocate (count * size) s = .ok (some q) s₁) :
    allocateZeroed count size s = .ok (some q) { s₁ with memory := s₁.memory.zeroBytes q (count * size) } := by
  simp only [allocateZeroed, Nat.not_le.mpr small, if_false, Operation.bind_apply, granted, HeapM.modifyMemory_apply]
  rfl

end Heap

namespace HeapState

variable {C : Contract σ} {L : Layout} {s : HeapState σ} {x : Block}

/-! ## Requests -/

/-- An allocation is moved as the layout says: a new block is found, bytes are copied into it, and the old one is taken
back. -/
theorem Healthy.resize_run (h : s.Healthy C L) (hx : x ∈ L.lent) (size : Nat) :
    ∃ grant s', Heap.resize (some (s.pointerTo x.offset)) (size + 1) s =
        .ok ((L.exchange s.tuning.probeBudget grant x.offset (size + 1)).answer.map s.pointerTo) s' ∧
      Served C L s (L.exchange s.tuning.probeBudget grant x.offset (size + 1)) s' ∧
      (L.exchange s.tuning.probeBudget grant x.offset (size + 1)).Settles L s.span.base
        (.resize (some (s.pointerTo x.offset)) (size + 1)) := by
  obtain ⟨grant, s₁, run, served⟩ := h.allocate_run (size + 1)
  obtain ⟨wanted, room, hands⟩ := h.describes.allocate_hands s.tuning.probeBudget (size + 1) grant
  have usable := h.usableSize_run hx
  cases answer : (L.allocate s.tuning.probeBudget grant (size + 1)).answer with
  | none =>
    rw [answer] at run
    have exchanged : L.exchange s.tuning.probeBudget grant x.offset (size + 1) =
        L.allocate s.tuning.probeBudget grant (size + 1) := by simp only [Layout.exchange, answer]
    refine ⟨grant, s₁, ?_, exchanged ▸ served, exchanged ▸ hands.settles (r := .resize _ (size + 1))
      served.healthy.describes room (by simp only [Request.consumed, answer]; rfl) _⟩
    rw [exchanged, answer]
    exact Heap.resize_refused size.succ_pos usable run
  | some p =>
    rw [answer] at run
    have old := (hands.lent_iff answer).mpr (.inl hx)
    have copied := served.copy hands answer room (s.pointerTo x.offset) (x.size - 8)
    obtain ⟨s₂, back, served'⟩ := copied.healthy.releasePointer_run old (some p)
    rw [copied.pointerTo_eq] at back
    have both := copied.trans served' fun b hb _ allocated =>
      (Layout.mem_lent.mp ((hands.lent_iff answer).mpr (.inl (Layout.mem_lent.mpr ⟨hb, allocated⟩)))).1
    have told := both.tell (.resized (s.pointerTo x.offset) (size + 1) (s.pointerTo p))
    have exchanged : L.exchange s.tuning.probeBudget grant x.offset (size + 1) = Outcome.after
        { answer := some p, layout := (L.allocate s.tuning.probeBudget grant (size + 1)).layout.release x.offset }
        (L.allocate s.tuning.probeBudget grant (size + 1)).asked := by
      simp only [Layout.exchange, answer, Outcome.after, List.append_nil]
    refine ⟨grant, _, ?_, exchanged ▸ told, exchanged ▸ h.describes.exchange_settles (r := .resize _ (size + 1)) hands answer
      copied.healthy.describes hx room rfl _⟩
    rw [exchanged]
    exact Heap.resize_granted size.succ_pos usable run back

/-- An allocation is set to zero when there is one. -/
theorem Healthy.allocateZeroed_run (h : s.Healthy C L) (count size : Nat) :
    ∃ grant s', Heap.allocateZeroed count size s =
        .ok ((L.serve s.span.base s.tuning.probeBudget grant (.allocateZeroed count size)).answer.map s.pointerTo) s' ∧
      Served C L s (L.serve s.span.base s.tuning.probeBudget grant (.allocateZeroed count size)) s' ∧
      (L.serve s.span.base s.tuning.probeBudget grant (.allocateZeroed count size)).Settles L s.span.base
        (.allocateZeroed count size) := by
  by_cases large : 0x1_0000_0000_0000_0000 ≤ count * size
  · simp only [Layout.serve, large, if_true]
    exact ⟨fun _ => false, _, Heap.allocateZeroed_overflow large, h.served none _,
      Outcome.Hands.nothing.settles h.describes (Nat.le_refl _) rfl _⟩
  obtain ⟨grant, s₁, run, served⟩ := h.allocate_run (count * size)
  obtain ⟨wanted, room, hands⟩ := h.describes.allocate_hands s.tuning.probeBudget (count * size) grant
  simp only [Layout.serve, large, if_false]
  cases answer : (L.allocate s.tuning.probeBudget grant (count * size)).answer with
  | none =>
    rw [answer] at run
    exact ⟨grant, s₁, answer ▸ Heap.allocateZeroed_refused (Nat.not_le.mp large) run, served,
      hands.settles (r := .allocateZeroed count size) served.healthy.describes room rfl _⟩
  | some p =>
    rw [answer] at run
    have zeroed := served.zero hands answer room
    exact ⟨grant, _, answer ▸ Heap.allocateZeroed_granted (Nat.not_le.mp large) run, zeroed,
      hands.settles (r := .allocateZeroed count size) zeroed.healthy.describes room rfl _⟩

/-- A healthy heap serves what it may be asked for as its layout says, for some answers of the source. -/
theorem Healthy.serve_run (h : s.Healthy C L) {r : Request} (permits : L.Permits s.span.base r) :
    ∃ grant s', Heap.serve r s =
        .ok ((L.serve s.span.base s.tuning.probeBudget grant r).answer.map s.pointerTo) s' ∧
      Served C L s (L.serve s.span.base s.tuning.probeBudget grant r) s' ∧
      (L.serve s.span.base s.tuning.probeBudget grant r).Settles L s.span.base r := by
  have place : ∀ x : Block, s.pointerTo x.offset - headerSize - s.span.base = x.offset := by
    intro x
    simp only [pointerTo, payloadOf, Nat.add_sub_cancel, Nat.add_sub_cancel_left]
  have named : ∀ p ∈ r.pointer, ∃ x ∈ L.lent, p = s.pointerTo x.offset := by
    intro p hp
    obtain ⟨x, hx, same⟩ := permits p hp
    exact ⟨x, hx, same.symm⟩
  have allocates : ∀ size, r.room = size → (∀ answer, r.consumed answer = none) → ∃ grant s',
      Heap.allocate size s = .ok ((L.allocate s.tuning.probeBudget grant size).answer.map s.pointerTo) s' ∧
        Served C L s (L.allocate s.tuning.probeBudget grant size) s' ∧
        (L.allocate s.tuning.probeBudget grant size).Settles L s.span.base r := by
    rintro size rfl keeps
    obtain ⟨grant, s', run, served⟩ := h.allocate_run r.room
    obtain ⟨wanted, room, hands⟩ := h.describes.allocate_hands s.tuning.probeBudget r.room grant
    exact ⟨grant, s', run, served, hands.settles served.healthy.describes room (keeps _) _⟩
  cases r with
  | allocate size => exact allocates size rfl fun _ => rfl
  | allocateZeroed count size => exact h.allocateZeroed_run count size
  | release pointer =>
    cases pointer with
    | none => exact ⟨fun _ => false, s, rfl, h.served none s.records,
        Outcome.Hands.nothing.settles h.describes (Nat.le_refl _) rfl _⟩
    | some pointer =>
      obtain ⟨x, hx, rfl⟩ := named _ rfl
      obtain ⟨s', run, served⟩ := h.releasePointer_run hx none
      simp only [Layout.serve, place]
      exact ⟨fun _ => false, s', Heap.serve_release run, served, h.describes.release_settles hx rfl⟩
  | resize pointer size =>
    cases pointer with
    | none =>
      refine allocates size rfl ?_
      intro answer
      cases size <;> simp [Request.consumed]
    | some pointer =>
      obtain ⟨x, hx, rfl⟩ := named _ rfl
      cases size with
      | zero =>
        obtain ⟨s', run, served⟩ := h.releasePointer_run hx none
        simp only [Layout.serve, place]
        refine ⟨fun _ => false, s', ?_, served, h.describes.release_settles hx rfl⟩
        simp only [Heap.serve, Heap.resize, Operation.bind_apply, run]
        rfl
      | succ size =>
        simp only [Layout.serve, place]
        exact h.resize_run hx size

end HeapState

end SegregatedFit
