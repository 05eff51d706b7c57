import SegregatedFit.Machine
import SegregatedFit.Proofs.Canonical
import SegregatedFit.Proofs.Neighbours
import Mathlib.Logic.Function.Basic
import Mathlib.Logic.Relation

/-!
# Heaps over one program break

A community is a machine whose heaps all stand over the program break, together with what the client of each heap knows. It
changes step by step: a heap is made or fails to be made, a client asks its heap for something or writes behind a pointer of
its own, or others move the break up (`Community.Step`). Others may also move the break while an operation is at work, between
any two of its requests; `ProgramBreak.drift` says how far.

Whatever the order of these steps, the heaps coexist (`Community.Coexists`): their spans have nothing in common with each other
nor with what others took, a step of one heap changes nothing in the span of another, every heap passes its audit, and a heap
that ends below the break never grows again.

The invariant is that every session is sound and that all spans are apart (`Community.Settled`). It is kept because bytes
are always taken from the break on, where nobody has anything yet (`Community.Passes`).
-/

namespace SegregatedFit

/-! ## Heaps of a machine -/

namespace Machine

variable {σ α : Type} {M M' : Machine σ} {i : Nat} {s : HeapState σ}

theorem heapState_eq_some_iff : M.heapState i = some s ↔
    ∃ h : Heap σ, M.heaps[i]? = some (some h) ∧
      h.at { source := h.source, memory := M.memory, programBreak := M.programBreak } = s := by
  unfold heapState
  cases M.heaps[i]? with
  | none => simp
  | some place => cases place <;> simp [Heap.at]

/-- An operation that came to an end leaves the memory, the break and its heap as it made them, and all else alone. -/
theorem act_eq_ok {x : HeapM σ α} {a : α} {records : List Record}
    (done : M.act i x = some (⟨.ok a, records⟩, M')) : ∃ s t, M.heapState i = some s ∧ x s = .ok a t ∧
      M' = { memory := t.memory, programBreak := t.programBreak, heaps := M.heaps.setIfInBounds i (some t.heap) } := by
  obtain ⟨s, present, ran⟩ := Option.map_eq_some_iff.mp done
  cases run : x s with
  | error f t =>
    rw [run] at ran
    cases ran
  | ok b t =>
    rw [run] at ran
    cases ran
    exact ⟨s, t, present, run, rfl⟩

end Machine

/-- A machine with heaps over its program break, and what the client of each of them knows. -/
structure Community where
  machine : Machine DataSegment
  ledgers : Nat → Ledger := fun _ => {}

namespace Community

/-- The session of the heap at a place of the row. -/
def session (c : Community) (i : Nat) : Option (Session DataSegment) :=
  (c.machine.heapState i).map fun s => { state := s, ledger := c.ledgers i }

/-- One step, and the place of the heap that takes it, if it is no step of others. -/
inductive Step : Option Nat → Community → Community → Prop where
  | created {c : Community} (tuning : Tuning) : Step (some c.machine.heaps.size) c
      { machine := (c.machine.create {} tuning).2, ledgers := Function.update c.ledgers c.machine.heaps.size {} }
  | requested {c : Community} {i : Nat} {S : Session DataSegment} {r : Request} {answer : Option Nat} {records : List Record}
      {M : Machine DataSegment} (present : c.session i = some S) (allowed : S.Allows (.request r))
      (done : c.machine.act i (Heap.serve r) = some (⟨.ok answer, records⟩, M)) :
      Step (some i) c { machine := M, ledgers := Function.update c.ledgers i ((c.ledgers i).settle r answer) }
  | wrote {c : Community} {i pointer index : Nat} {S : Session DataSegment} {vs : List UInt8} {records : List Record}
      {M : Machine DataSegment} (present : c.session i = some S) (allowed : S.Allows (.write pointer index vs))
      (done : c.machine.act i (HeapM.modifyMemory (·.setBytes (pointer + index) vs)) = some (⟨.ok (), records⟩, M)) :
      Step (some i) c { machine := M, ledgers := Function.update c.ledgers i ((c.ledgers i).write pointer index vs) }
  | moved {c : Community} {n : Nat} {M : Machine DataSegment} (done : c.machine.shiftBreak n = some M) :
      Step none c { c with machine := M }

/-- Any number of steps. -/
def Run : Community → Community → Prop := Relation.ReflTransGen fun c d => ∃ who, Step who c d

/-- One step more. -/
theorem Run.andThen {c d e : Community} {who : Option Nat} (run : c.Run d) (step : Step who d e) : c.Run e :=
  run.tail ⟨who, step⟩

/-- No heap was made yet, the break is an address, and what others took lies below it. -/
structure Fresh (c : Community) : Prop where
  heaps : c.machine.heaps = #[]
  proper : c.machine.programBreak.Proper

/-- What holds of heaps that do not get in each other's way. -/
structure Coexists (c : Community) : Prop where
  disjoint : ∀ i j s t, i ≠ j → c.machine.heapState i = some s → c.machine.heapState j = some t →
    ∀ a, s.span.contains a = true → t.span.contains a = false
  untaken : ∀ i s, c.machine.heapState i = some s → ∀ r ∈ c.machine.programBreak.taken, ∀ a, r.1 ≤ a → a < r.2 →
    s.span.contains a = false
  audit : ∀ i s, c.machine.heapState i = some s → s.audit = .ok ()
  total : ∀ i S r, c.session i = some S → S.Allows (.request r) →
    ∃ answer records M, c.machine.act i (Heap.serve r) = some (⟨.ok answer, records⟩, M)
  spares : ∀ who d, Step who c d → ∀ j s, who ≠ some j → c.machine.heapState j = some s →
    ∃ s', d.machine.heapState j = some s' ∧ s'.heap = s.heap ∧
      ∀ a, s.span.contains a = true → d.machine.memory.byte a = c.machine.memory.byte a
  cutOff : ∀ i s, c.machine.heapState i = some s → s.span.finish < c.machine.programBreak.top → ∀ d, c.Run d →
    ∃ s', d.machine.heapState i = some s' ∧ s'.span = s.span

/-! ## Sessions of a community -/

variable {c d : Community} {i j : Nat} {S T : Session DataSegment} {who : Option Nat}

theorem session_eq_some_iff : c.session i = some S ↔
    ∃ h : Heap DataSegment, c.machine.heaps[i]? = some (some h) ∧
      { state := h.at { source := h.source, memory := c.machine.memory, programBreak := c.machine.programBreak },
        ledger := c.ledgers i } = S := by
  simp only [session, Option.map_eq_some_iff, Machine.heapState_eq_some_iff]
  constructor
  · rintro ⟨_, ⟨h, present, rfl⟩, rfl⟩
    exact ⟨h, present, rfl⟩
  · rintro ⟨h, present, rfl⟩
    exact ⟨_, ⟨h, present, rfl⟩, rfl⟩

theorem heapState_iff {s : HeapState DataSegment} :
    c.machine.heapState i = some s ↔ ∃ S, c.session i = some S ∧ S.state = s := by
  simp only [session, Option.map_eq_some_iff]
  constructor
  · intro present
    exact ⟨_, ⟨s, present, rfl⟩, rfl⟩
  · rintro ⟨_, ⟨_, present, rfl⟩, rfl⟩
    exact present

/-- A heap whose place nobody touched finds the memory and the break as the others left them. -/
theorem session_beside (present : c.session j = some T) (place : d.machine.heaps[j]? = c.machine.heaps[j]?)
    (ledger : d.ledgers j = c.ledgers j) :
    d.session j = some (T.beside d.machine.memory d.machine.programBreak) := by
  obtain ⟨h, here, rfl⟩ := session_eq_some_iff.mp present
  exact session_eq_some_iff.mpr ⟨h, place.trans here, by rw [ledger]; rfl⟩

/-- No heap comes up at a place that nobody touched. -/
theorem session_absent (absent : c.session j = none) (place : d.machine.heaps[j]? = c.machine.heaps[j]?) :
    d.session j = none := by
  rw [Option.eq_none_iff_forall_ne_some] at absent ⊢
  intro R present
  obtain ⟨h, here, -⟩ := session_eq_some_iff.mp present
  exact absent _ (session_eq_some_iff.mpr ⟨h, place.symm.trans here, rfl⟩)

/-- All sessions share the memory and the break, and each has its own ledger. -/
theorem session_site (present : c.session i = some S) :
    S.state.memory = c.machine.memory ∧ S.state.programBreak = c.machine.programBreak ∧ S.ledger = c.ledgers i := by
  obtain ⟨h, -, rfl⟩ := session_eq_some_iff.mp present
  exact ⟨rfl, rfl, rfl⟩

/-! ## The invariant -/

/-- Every session is sound, and no two spans overlap. -/
structure Settled (c : Community) : Prop where
  proper : c.machine.programBreak.Proper
  sound : ∀ i S, c.session i = some S → ∃ L, S.Sound DataSegment.contract L
  apart : ∀ i j S T, i ≠ j → c.session i = some S → c.session j = some T →
    S.state.span.finish ≤ T.state.span.base ∨ T.state.span.finish ≤ S.state.span.base

/-- What a step does: the break does not move down; the heaps that do not take the step find the words of their spans as they
were; and the heap that takes it either goes on from its base, at whose end the break stood if it grew, or is a new one that
begins at the break or above. -/
structure Passes (who : Option Nat) (c d : Community) : Prop where
  later : c.machine.programBreak.Later d.machine.programBreak
  others : ∀ j T, who ≠ some j → c.session j = some T →
    d.session j = some (T.beside d.machine.memory d.machine.programBreak) ∧
      ∀ a, T.state.span.base ≤ a → a < T.state.span.finish → d.machine.memory.word a = c.machine.memory.word a
  absent : ∀ j, who ≠ some j → c.session j = none → d.session j = none
  own : ∀ i, who = some i → ∀ S, c.session i = some S → ∃ S', d.session i = some S' ∧
    (∃ L, S'.Sound DataSegment.contract L) ∧ S'.state.span.base = S.state.span.base ∧
      (S'.state.span.finish = S.state.span.finish ∨ c.machine.programBreak.top = S.state.span.finish)
  new : ∀ i, who = some i → c.session i = none → ∀ S', d.session i = some S' →
    (∃ L, S'.Sound DataSegment.contract L) ∧ c.machine.programBreak.top ≤ S'.state.span.base

/-- The span of a heap ends at or below the break. -/
theorem Settled.finish_le (h : c.Settled) (present : c.session i = some S) :
    S.state.span.finish ≤ c.machine.programBreak.top := by
  obtain ⟨L, sound⟩ := h.sound i S present
  rw [← (session_site present).2.1]
  exact sound.healthy.finish_le

/-- A heap that grew while the break stood at its end stays apart from the others, which end at or below the break. -/
theorem Settled.apart_grown (h : c.Settled) (ne : i ≠ j) (present : c.session i = some S) (other : c.session j = some T)
    {finish : Nat} (grown : finish = S.state.span.finish ∨ c.machine.programBreak.top = S.state.span.finish) :
    finish ≤ T.state.span.base ∨ T.state.span.finish ≤ S.state.span.base := by
  have apart := h.apart i j S T ne present other
  rcases grown with rfl | here
  · exact apart
  · have below := h.finish_le other
    have positive : T.state.span.base < T.state.span.finish := by
      simp only [Span.finish, Span.length, headerSize]
      omega
    exact .inr (by omega)

/-- A session that is none of the step's own was there before. -/
theorem Passes.before (step : Passes who c d) (other : who ≠ some j) (present : d.session j = some T) :
    ∃ S, c.session j = some S ∧ T = S.beside d.machine.memory d.machine.programBreak := by
  cases before : c.session j with
  | none => cases present.symm.trans (step.absent j other before)
  | some S => exact ⟨S, rfl, Option.some.inj (present.symm.trans (step.others j S other before).1)⟩

/-- The heap that takes a step stays apart from the others. -/
theorem Passes.apart (step : Passes (some i) c d) (h : c.Settled) (ne : i ≠ j) (present : d.session i = some S)
    (other : c.session j = some T) :
    S.state.span.finish ≤ T.state.span.base ∨ T.state.span.finish ≤ S.state.span.base := by
  cases before : c.session i with
  | none => exact .inr (Nat.le_trans (h.finish_le other) (step.new i rfl before S present).2)
  | some R =>
    obtain ⟨_, after, -, base, grown⟩ := step.own i rfl R before
    obtain rfl := Option.some.inj (after.symm.trans present)
    rw [base]
    exact h.apart_grown ne before other grown

/-- A step keeps the invariant. -/
theorem Settled.passes (h : c.Settled) (step : Passes who c d) : d.Settled where
  proper := step.later.proper h.proper
  sound i S present := by
    by_cases mine : who = some i
    · cases before : c.session i with
      | none => exact (step.new i mine before S present).1
      | some R =>
        obtain ⟨_, after, sound, -⟩ := step.own i mine R before
        exact Option.some.inj (after.symm.trans present) ▸ sound
    · obtain ⟨R, before, rfl⟩ := step.before mine present
      obtain ⟨L, sound⟩ := h.sound i R before
      obtain ⟨memory, top, -⟩ := session_site before
      refine ⟨L, sound.beside ?_ (top ▸ step.later)⟩
      rw [memory]
      exact (step.others i R mine before).2
  apart i j S T ne present present' := by
    by_cases mine : who = some i
    · subst mine
      obtain ⟨R, before, rfl⟩ := step.before (fun same => ne (Option.some.inj same)) present'
      exact step.apart (T := R) h ne present before
    · obtain ⟨Q, before, rfl⟩ := step.before mine present
      by_cases yours : who = some j
      · subst yours
        exact (step.apart (T := Q) h ne.symm present' before).symm
      · obtain ⟨R, before', rfl⟩ := step.before yours present'
        exact h.apart i j Q R ne before before'

/-! ## Every step keeps the invariant -/

/-- A heap goes on as an operation left it, and leaves the words outside of its span alone. -/
theorem Settled.acted (h : c.Settled) (present : c.session i = some S) {T : Session DataSegment}
    (sound : ∃ L, T.Sound DataSegment.contract L) (later : c.machine.programBreak.Later T.state.programBreak)
    (base : T.state.span.base = S.state.span.base)
    (grown : T.state.span.finish = S.state.span.finish ∨ c.machine.programBreak.top = S.state.span.finish)
    (outside : ∀ a, a < S.state.span.base ∨ T.state.span.finish ≤ a →
      T.state.memory.word a = c.machine.memory.word a) :
    Passes (some i) c
      { machine := { memory := T.state.memory, programBreak := T.state.programBreak,
                     heaps := c.machine.heaps.setIfInBounds i (some T.state.heap) }
        ledgers := Function.update c.ledgers i T.ledger } where
  later := later
  others j R other before := by
    have ne : i ≠ j := fun same => other (congrArg some same)
    refine ⟨session_beside before (Array.getElem?_setIfInBounds_ne ne) (Function.update_of_ne ne.symm _ _), ?_⟩
    intro a low high
    have apart := h.apart_grown ne present before grown
    exact outside a (by omega)
  absent j other before := by
    have ne : i ≠ j := fun same => other (congrArg some same)
    exact session_absent before (Array.getElem?_setIfInBounds_ne ne)
  own := by
    rintro _ ⟨⟩ R before
    obtain rfl := Option.some.inj (present.symm.trans before)
    obtain ⟨k, place, -⟩ := session_eq_some_iff.mp present
    obtain ⟨inside, -⟩ := Array.getElem?_eq_some_iff.mp place
    refine ⟨_, session_eq_some_iff.mpr ⟨_, Array.getElem?_setIfInBounds_self_of_lt inside, rfl⟩, ?_, base, grown⟩
    obtain ⟨L, healthy, live, written⟩ := sound
    refine ⟨L, ⟨healthy.describes, healthy.keeps, healthy.range⟩, ?_, ?_⟩
    · simp only [Function.update_self]
      exact live
    · simp only [Function.update_self]
      exact written
  new := by
    rintro _ ⟨⟩ absent
    cases present.symm.trans absent

/-- A new heap that begins at the break or above, or a place without a heap, is put at the end of the row. -/
theorem Settled.pushed (h : c.Settled) {m : Memory} {b : ProgramBreak} {place : Option (Heap DataSegment)}
    (later : c.machine.programBreak.Later b) (below : ∀ a < c.machine.programBreak.top, m.word a = c.machine.memory.word a)
    (new : ∀ k ∈ place, c.machine.programBreak.top ≤ k.span.base ∧
      (k.at { source := k.source, memory := m, programBreak := b }).Healthy DataSegment.contract Layout.empty) :
    Passes (some c.machine.heaps.size) c
      { machine := { memory := m, programBreak := b, heaps := c.machine.heaps.push place }
        ledgers := Function.update c.ledgers c.machine.heaps.size {} } where
  later := later
  others j R other before := by
    have ne : j ≠ c.machine.heaps.size := fun same => other (congrArg some same.symm)
    refine ⟨session_beside before (by rw [Array.getElem?_push, if_neg ne]) (Function.update_of_ne ne _ _), ?_⟩
    intro a low high
    have := h.finish_le before
    exact below a (by omega)
  absent j other before := by
    have ne : j ≠ c.machine.heaps.size := fun same => other (congrArg some same.symm)
    exact session_absent before (by rw [Array.getElem?_push, if_neg ne])
  own := by
    rintro _ ⟨⟩ R before
    obtain ⟨k, here, -⟩ := session_eq_some_iff.mp before
    obtain ⟨inside, -⟩ := Array.getElem?_eq_some_iff.mp here
    exact absurd inside (Nat.lt_irrefl _)
  new := by
    rintro _ ⟨⟩ - R after
    obtain ⟨k, here, rfl⟩ := session_eq_some_iff.mp after
    rw [Array.getElem?_push_size] at here
    obtain ⟨above, healthy⟩ := new k (Option.some.inj here)
    simp only [Function.update_self]
    exact ⟨⟨_, .created healthy⟩, above⟩

/-- Making a heap. -/
theorem Settled.created (h : c.Settled) (tuning : Tuning) : Passes (some c.machine.heaps.size) c
    { machine := (c.machine.create {} tuning).2, ledgers := Function.update c.ledgers c.machine.heaps.size {} } := by
  unfold Machine.create
  cases run : Heap.create tuning
      { source := ({} : DataSegment), memory := c.machine.memory, programBreak := c.machine.programBreak } with
  | ok k site =>
    obtain ⟨later, above, healthy⟩ := Heap.create_above h.proper run
    refine h.pushed later ?_ ?_
    · intro a low
      exact Heap.create_outside run (.inl (Nat.lt_of_lt_of_le low above))
    · rintro _ ⟨⟩
      exact ⟨above, healthy.describes, healthy.keeps, healthy.range⟩
  | error f site =>
    obtain ⟨memory, calls, asked⟩ := Heap.create_eq_error run
    refine h.pushed (DataSegment.later_of_asked asked) ?_ ?_
    · intro a low
      rw [memory]
    · intro k hk
      cases hk

/-- What an action of its client makes of a heap. -/
theorem Settled.performed (h : c.Settled) {a : Action} (present : c.session i = some S) (allowed : S.Allows a)
    (done : S.perform a = .ok T) : Passes (some i) c
      { machine := { memory := T.state.memory, programBreak := T.state.programBreak,
                     heaps := c.machine.heaps.setIfInBounds i (some T.state.heap) }
        ledgers := Function.update c.ledgers i T.ledger } := by
  obtain ⟨L, sound⟩ := h.sound i S present
  obtain ⟨memory, top, -⟩ := session_site present
  obtain ⟨T', L', run, sound'⟩ := sound.perform_run allowed
  cases run.symm.trans done
  obtain ⟨later, base, grown⟩ := sound.perform_finish allowed done
  rw [top] at later grown
  refine h.acted present ⟨L', sound'⟩ later base grown ?_
  intro w far
  rw [← memory]
  exact sound.perform_outside allowed done far

/-- What each step does. -/
theorem Settled.step (h : c.Settled) (step : Step who c d) : Passes who c d := by
  cases step with
  | created tuning => exact h.created tuning
  | @requested _ i S r answer records M present allowed done =>
    obtain ⟨s, t, here, run, rfl⟩ := Machine.act_eq_ok done
    obtain ⟨_, present', rfl⟩ := heapState_iff.mp here
    obtain rfl := Option.some.inj (present.symm.trans present')
    have step := h.performed present allowed (Session.perform_of_serve run)
    rwa [(session_site present).2.2] at step
  | wrote present allowed done =>
    obtain ⟨s, t, here, run, rfl⟩ := Machine.act_eq_ok done
    obtain ⟨_, present', rfl⟩ := heapState_iff.mp here
    obtain rfl := Option.some.inj (present.symm.trans present')
    cases run
    have step := h.performed present allowed rfl
    rwa [(session_site present).2.2] at step
  | @moved _ n M done =>
    obtain ⟨b, moved, rfl⟩ := Option.map_eq_some_iff.mp done
    refine ⟨ProgramBreak.later_shift moved, ?_, ?_, ?_, ?_⟩
    · intro j R _ before
      exact ⟨session_beside before rfl rfl, fun _ _ _ => rfl⟩
    · intro j _ before
      exact session_absent before rfl
    · rintro i ⟨⟩
    · rintro i ⟨⟩

/-- Any number of steps keep the invariant. -/
theorem Settled.run (h : c.Settled) (run : c.Run d) : d.Settled := by
  induction run with
  | refl => exact h
  | tail _ step ih =>
    obtain ⟨who, step⟩ := step
    exact ih.passes (ih.step step)

/-- Nothing can be out of order where there are no heaps. -/
theorem Fresh.settled (h : c.Fresh) : c.Settled := by
  have none : ∀ i S, c.session i ≠ some S := by
    intro i S present
    obtain ⟨k, place, -⟩ := session_eq_some_iff.mp present
    rw [h.heaps] at place
    cases place
  exact ⟨h.proper, fun i S present => absurd present (none i S), fun i _ S _ _ present => absurd present (none i S)⟩

/-! ## Heaps coexist -/

/-- A heap that ends below the break goes on to end there. -/
theorem Settled.cut_off (h : c.Settled) (present : c.session i = some S)
    (cut : S.state.span.finish < c.machine.programBreak.top) (run : c.Run d) :
    ∃ T, d.session i = some T ∧ T.state.span = S.state.span ∧ S.state.span.finish < d.machine.programBreak.top := by
  induction run with
  | refl => exact ⟨S, present, rfl, cut⟩
  | tail run step ih =>
    obtain ⟨T, there, span, below⟩ := ih
    obtain ⟨who, step⟩ := step
    have passes := (h.run run).step step
    have still := Nat.lt_of_lt_of_le below passes.later.top
    by_cases mine : who = some i
    · obtain ⟨T', after, -, base, grown⟩ := passes.own i mine T there
      rw [span] at base grown
      have finish := grown.resolve_right (by omega)
      refine ⟨T', after, Span.eq_of_ends base ?_, still⟩
      simp only [Span.finish, Span.length, headerSize] at finish
      omega
    · exact ⟨_, (passes.others i T mine there).1, span, still⟩

/-- A step changes nothing of the heaps that do not take it. -/
theorem Passes.spares (step : Passes who c d) {s : HeapState DataSegment} (other : who ≠ some j)
    (present : c.machine.heapState j = some s) : ∃ s', d.machine.heapState j = some s' ∧ s'.heap = s.heap ∧
      ∀ a, s.span.contains a = true → d.machine.memory.byte a = c.machine.memory.byte a := by
  obtain ⟨T, there, rfl⟩ := heapState_iff.mp present
  obtain ⟨after, words⟩ := step.others j T other there
  refine ⟨_, heapState_iff.mpr ⟨_, after, rfl⟩, rfl, ?_⟩
  intro a inside
  obtain ⟨low, high⟩ := Span.contains_iff.mp inside
  exact Span.byte_eq words low high

/-- Heaps whose sessions are sound and whose spans are apart coexist. -/
theorem Settled.coexists (h : c.Settled) : c.Coexists where
  disjoint i j s t ne present present' a inside := by
    obtain ⟨S, here, rfl⟩ := heapState_iff.mp present
    obtain ⟨T, there, rfl⟩ := heapState_iff.mp present'
    have apart := h.apart i j S T ne here there
    rw [Span.contains_iff] at inside
    rw [← Bool.not_eq_true, Span.contains_iff]
    omega
  untaken i s present r taken a low high := by
    obtain ⟨S, here, rfl⟩ := heapState_iff.mp present
    obtain ⟨L, sound⟩ := h.sound i S here
    rw [← (session_site here).2.1] at taken
    exact sound.healthy.not_taken taken low high
  audit i s present := by
    obtain ⟨S, here, rfl⟩ := heapState_iff.mp present
    obtain ⟨L, sound⟩ := h.sound i S here
    exact sound.healthy.audit_run
  total i S r here allowed := by
    obtain ⟨L, sound⟩ := h.sound i S here
    obtain ⟨S', -, performed, -⟩ := sound.perform_run allowed
    obtain ⟨answer, run, -⟩ := Session.perform_eq_ok performed
    have present := heapState_iff.mpr ⟨S, here, rfl⟩
    exact ⟨answer, _, _, by simp only [Machine.act, present, Option.map_some, run]; rfl⟩
  spares who d step j s other present := (h.step step).spares other present
  cutOff i s present cut d run := by
    obtain ⟨S, here, rfl⟩ := heapState_iff.mp present
    obtain ⟨T, there, span, -⟩ := h.cut_off here cut run
    exact ⟨_, heapState_iff.mpr ⟨T, there, rfl⟩, span⟩

/-- Heaps over one program break coexist, in whatever order heaps are made, clients act and others move the break. -/
theorem Fresh.coexist (fresh : c.Fresh) (run : c.Run d) : d.Coexists := (fresh.settled.run run).coexists

/-- A heap is made and grows; the next one is not made, because others take eight bytes between the two requests for it; the
one after that is made and grows; others take a hundred bytes; and then the first heap cannot grow any more. -/
theorem Fresh.coexist_interrupted : ∃ c d : Community, c.Fresh ∧ c.Run d ∧
    (4176, 4184) ∈ d.machine.programBreak.taken ∧ (4288, 4388) ∈ d.machine.programBreak.taken ∧
    (d.machine.heapState 0).map (·.span.length) = some 64 ∧ (d.machine.heapState 1).isNone = true ∧
    (d.machine.heapState 2).map (·.span.length) = some 64 ∧ d.Coexists := by
  have fresh : Fresh { machine := { memory := { background := UInt64.ofNat },
                                    programBreak := { top := 4104, drift := fun k => if k = 4 then 8 else 0 } } } :=
    ⟨rfl, by decide, by simp⟩
  have start : Run { machine := { memory := { background := UInt64.ofNat },
                                  programBreak := { top := 4104, drift := fun k => if k = 4 then 8 else 0 } } } _ := .refl
  have first := start.andThen (.created { probeBudget := 2, selfCheck := false })
  have grown := first.andThen (.requested (i := 0) (r := .allocate 20) rfl (by intro _ h; cases h) rfl)
  have failed := grown.andThen (.created { probeBudget := 2, selfCheck := false })
  have second := failed.andThen (.created { probeBudget := 2, selfCheck := false })
  have grown' := second.andThen (.requested (i := 2) (r := .allocate 20) rfl (by intro _ h; cases h) rfl)
  have moved := grown'.andThen (.moved (n := 100) rfl)
  have refused := moved.andThen (.requested (i := 0) (r := .allocate 20) rfl (by intro _ h; cases h) rfl)
  exact ⟨_, _, fresh, refused, by decide, by decide, rfl, rfl, rfl, fresh.coexist refused⟩

end Community

end SegregatedFit
