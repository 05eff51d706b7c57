import SegregatedFit.Proofs.Session
import SegregatedFit.Proofs.Paired
import SegregatedFit.Proofs.SharedBreak

/-!
# Heaps beside each other

A heap keeps to its span: what a client does to it leaves every word outside of the span alone (`Session.Sound.perform_outside`),
and so does the making of a heap (`Heap.create_outside`). In turn a heap does not notice what happens outside of its span,
nor that others have moved the program break up (`Session.Sound.beside`).

Over the program break a heap grows only while the break stands at its end (`Session.Sound.perform_finish`), and a heap that
is made begins above the break as it was (`Heap.create_above`).
-/

namespace SegregatedFit

/-! ## What happens outside of a span -/

section Outside

variable {s : Store} {span : Span} {L : Layout} {m : Memory}

/-- A heap is described by the words of its span. -/
theorem Layout.Describes.congr (h : L.Describes s span)
    (same : ∀ a, span.base ≤ a → a < span.finish → m.word a = s.memory.word a) :
    L.Describes { s with memory := m } span := by
  have inside : ∀ k, k ≤ span.epilogueOffset → m.word (span.base + k) = s.memory.word (span.base + k) := by
    intro k low
    exact same _ (Nat.le_add_right _ _) (by simp only [Span.finish, Span.length, headerSize]; omega)
  have first := span.first_le
  refine ⟨h.laid.congr (inside _ ?_) (inside _ (Nat.le_refl _)) (fun b hb => ?_) fun b hb _ => ?_, h.coalesced,
    h.threaded.congr ?_, h.files⟩
  · simp only [prologueOffset]
    omega
  · have := h.laid.bounds hb
    exact inside _ (by omega)
  · have := h.laid.bounds hb
    exact inside _ (by omega)
  · intro c o ho
    obtain ⟨x, hx, free, rfl, -⟩ := (h.files c o).mp ho
    have := h.laid.bounds hx
    exact ⟨inside (x.offset + 8) (by omega), inside (x.offset + 16) (by omega)⟩

/-- The bytes of a span stand in its words. -/
theorem Span.byte_eq {m' : Memory} (same : ∀ a, span.base ≤ a → a < span.finish → m'.word a = m.word a) {a : Nat}
    (low : span.base ≤ a) (high : a < span.finish) : m'.byte a = m.byte a := by
  have aligned := span.base_aligned
  rw [Memory.byte, Memory.byte, same]
  all_goals
    simp only [Memory.wordAddress]
    omega

end Outside

namespace Session

/-- A session as it is found after others were at work: the memory and the break are what they made of them. -/
def beside {σ : Type} (S : Session σ) (m : Memory) (b : ProgramBreak) : Session σ :=
  { S with state := { S.state with memory := m, programBreak := b, records := [] } }

/-- Others who keep out of the span and only move the break up do not disturb a session. -/
theorem Sound.beside {S : Session DataSegment} {L : Layout} (h : S.Sound DataSegment.contract L) {m : Memory}
    {b : ProgramBreak} (same : ∀ a, S.state.span.base ≤ a → a < S.state.span.finish → m.word a = S.state.memory.word a)
    (later : S.state.programBreak.Later b) : (S.beside m b).Sound DataSegment.contract L := by
  refine ⟨⟨h.healthy.describes.congr same, h.healthy.keeps.mono later, h.healthy.range⟩, h.live_iff, ?_⟩
  intro x hx i v wrote
  obtain ⟨inside, byte⟩ := h.written x hx i v wrote
  have bounds := h.healthy.describes.laid.bounds (Layout.mem_lent.mp hx).1
  refine ⟨inside, Eq.trans (Span.byte_eq same ?_ ?_) byte⟩
  all_goals
    simp only [Session.beside, HeapState.pointerTo, payloadOf, Span.finish, Span.length, headerSize]
    omega

variable {σ : Type} [Backing σ] {C : Contract σ} {S S' : Session σ} {L : Layout} {a : Action}

/-- Whatever a client does to its heap, it leaves the words outside of the span alone. -/
theorem Sound.perform_outside (h : S.Sound C L) (allowed : S.Allows a) (done : S.perform a = .ok S') {w : Nat}
    (outside : w < S.state.span.base ∨ S'.state.span.finish ≤ w) : S'.state.memory.word w = S.state.memory.word w := by
  cases a with
  | request r =>
    obtain ⟨answer, run, -, -⟩ := perform_eq_ok done
    exact h.healthy.serve_outside (h.permits allowed) run outside
  | write pointer index vs =>
    obtain ⟨x, hx, rfl, room⟩ := h.allows_write allowed
    have bounds := h.healthy.describes.laid.bounds (Layout.mem_lent.mp hx).1
    have aligned := S.state.span.base_aligned
    cases done
    refine Memory.word_setBytes ?_
    intro i hi
    simp only [HeapState.pointerTo, payloadOf, Span.finish, Span.length, headerSize, Memory.wordAddress] at outside ⊢
    omega

end Session

/-! ## Growth over a shared break -/

namespace HeapState

variable {s s' : HeapState DataSegment} {L : Layout} {o : Outcome}

/-- The span of a heap ends at or below the break. -/
theorem Healthy.finish_le (h : s.Healthy DataSegment.contract L) : s.span.finish ≤ s.programBreak.top := by
  obtain ⟨first, -, range⟩ := h.range
  exact (h.keeps.ordered _ _ range).2

/-- No address of the span was taken by others. -/
theorem Healthy.not_taken (h : s.Healthy DataSegment.contract L) {r : Nat × Nat} (hr : r ∈ s.programBreak.taken) {a : Nat}
    (low : r.1 ≤ a) (high : a < r.2) : s.span.contains a = false := by
  obtain ⟨first, le, range⟩ := h.range
  have apart := h.keeps.apart _ _ range r hr a low high
  rw [← Bool.not_eq_true, Span.contains_iff]
  omega

/-- A request leaves the break where it was or moves it up, and the span grows only when it ends at the break. -/
theorem Served.finish_or (h : s.Healthy DataSegment.contract L) (served : Served DataSegment.contract L s o s') :
    s.programBreak.Later s'.programBreak ∧ (s'.span.finish = s.span.finish ∨ s.programBreak.top = s.span.finish) := by
  obtain ⟨first, -, range⟩ := h.range
  refine ⟨DataSegment.later_of_asked served.asked, ?_⟩
  rcases DataSegment.top_eq_of_given served.asked h.keeps range with nothing | here
  · exact .inl (by rw [served.finish_eq h, nothing, Nat.add_zero])
  · exact .inr here

end HeapState

/-- Whatever a client does to its heap, the heap grows only while the break stands at its end, and the break does not move
down. -/
theorem Session.Sound.perform_finish {S S' : Session DataSegment} {L : Layout} {a : Action}
    (h : S.Sound DataSegment.contract L) (allowed : S.Allows a) (done : S.perform a = .ok S') :
    S.state.programBreak.Later S'.state.programBreak ∧ S'.state.span.base = S.state.span.base ∧
      (S'.state.span.finish = S.state.span.finish ∨ S.state.programBreak.top = S.state.span.finish) := by
  cases a with
  | request r =>
    obtain ⟨o, -, served, -⟩ := h.request_eq_ok allowed done
    obtain ⟨later, grown⟩ := HeapState.Served.finish_or h.healthy served
    exact ⟨later, served.base, grown⟩
  | write pointer index vs =>
    cases done
    exact ⟨.refl _, rfl, .inl rfl⟩

/-! ## Making a heap beside others -/

section Failure

variable {σ α β : Type} {site site' : Site σ} {f : CreationFailure}

/-- A computation without a state has failed and left the state as it was, or what followed it has failed. -/
theorem lift_bind_eq_error {x : Except Fault α} {g : α → EStateM CreationFailure (Site σ) β}
    (h : ((liftM x : EStateM CreationFailure (Site σ) α) >>= g) site = .error f site') :
    site' = site ∨ ∃ a, x = .ok a ∧ g a site = .error f site' := by
  cases x with
  | error e =>
    cases h
    exact .inl rfl
  | ok a => exact .inr ⟨a, rfl, h⟩

/-- A request that has to be granted was refused, or what followed it has failed. -/
theorem extend_bind_eq_error [Backing σ] {n : Nat} {e : CreationFailure} {g : Nat → EStateM CreationFailure (Site σ) β}
    (h : (do
      let some a ← modifyGet (Site.extend · n) | throw e
      g a) site = .error f site') :
    site' = (site.extend n).2 ∨ ∃ a, (site.extend n).1 = some a ∧ g a (site.extend n).2 = .error f site' := by
  rw [Operation.bind_apply, Operation.modifyGet_apply] at h
  cases answer : (site.extend n).1 with
  | none =>
    simp only [answer] at h
    cases h
    exact .inl rfl
  | some a =>
    simp only [answer] at h
    exact .inr ⟨a, rfl, h⟩

end Failure

variable {σ : Type} [Backing σ] {tuning : Tuning} {site site' : Site σ} {heap : Heap σ} {f : CreationFailure}

/-- A span that could not be formatted has cost requests to the source and nothing else. -/
theorem Heap.format_eq_error (failed : Heap.format site = .error f site') : site'.memory = site.memory ∧
    ∃ calls, Asked site.source site.programBreak calls site'.source site'.programBreak := by
  have one := Asked.one site.source site.programBreak 0
  rcases extend_bind_eq_error failed with rfl | ⟨first, -, failed⟩
  · exact ⟨rfl, _, one⟩
  rcases lift_bind_eq_error failed with rfl | ⟨base, -, failed⟩
  · exact ⟨rfl, _, one⟩
  rcases lift_bind_eq_error failed with rfl | ⟨padding, -, failed⟩
  · exact ⟨rfl, _, one⟩
  rcases lift_bind_eq_error failed with rfl | ⟨total, -, failed⟩
  · exact ⟨rfl, _, one⟩
  have two := one.trans (Asked.one (site.extend 0).2.source (site.extend 0).2.programBreak total)
  rcases extend_bind_eq_error failed with rfl | ⟨start, -, failed⟩
  · exact ⟨rfl, _, two⟩
  by_cases contiguous : start = first
  · simp only [contiguous, ne_eq, not_true_eq_false, if_false] at failed
    rcases lift_bind_eq_error failed with rfl | ⟨span, -, failed⟩
    · exact ⟨rfl, _, two⟩
    · cases failed
  · simp only [contiguous, ne_eq, not_false_eq_true, if_true] at failed
    cases failed
    exact ⟨rfl, _, two⟩

theorem Heap.create_eq_error (failed : Heap.create tuning site = .error f site') : site'.memory = site.memory ∧
    ∃ calls, Asked site.source site.programBreak calls site'.source site'.programBreak := by
  by_cases zero : tuning.probeBudget = 0
  · have invalid : tuning.validate = .error _ := if_pos zero
    simp only [Heap.create, invalid] at failed
    cases failed
    exact ⟨rfl, [], .nil _ _⟩
  have valid : tuning.validate = .ok tuning := if_neg zero
  simp only [Heap.create, valid, Operation.bind_apply] at failed
  cases run : (Heap.format : EStateM CreationFailure (Site σ) Span) site with
  | ok span t =>
    rw [run] at failed
    cases failed
  | error e t =>
    rw [run] at failed
    cases failed
    exact Heap.format_eq_error run

/-- The making of a heap leaves the words outside of its span alone. -/
theorem Heap.create_outside (made : Heap.create tuning site = .ok heap site') {a : Nat}
    (outside : a < heap.span.base ∨ heap.span.finish ≤ a) : site'.memory.word a = site.memory.word a := by
  obtain ⟨run, -⟩ := Heap.create_eq_ok made
  obtain ⟨_, -, -, ends, memory, -⟩ := Heap.format_eq_ok run
  simp only [Span.finish, Span.length, headerSize, ends] at outside
  rw [memory, Memory.format, Memory.setTag, Memory.word_setWord_of_ne, Memory.setTag, Memory.word_setWord_of_ne,
    Memory.setTag, Memory.word_setWord_of_ne, Memory.word_setWord_of_ne]
  all_goals
    simp only [ne_eq, Span.prologue, Span.epilogue, prologueOffset, headerSize, ends]
    omega

/-- A heap that is made over the break begins where the break was, or above. -/
theorem Heap.create_above {m : Memory} {b : ProgramBreak} {heap : Heap DataSegment} {site' : Site DataSegment}
    (proper : b.Proper) (made : Heap.create tuning { source := {}, memory := m, programBreak := b } = .ok heap site') :
    b.Later site'.programBreak ∧ b.top ≤ heap.span.base ∧
      (heap.at site').Healthy DataSegment.contract Layout.empty := by
  obtain ⟨first, answer, base, -, asked, healthy⟩ := Heap.create_run (C := DataSegment.contract)
    (by exact DataSegment.holds_new proper) made
  refine ⟨DataSegment.later_of_asked asked, ?_, healthy⟩
  obtain ⟨c, later, ⟨refused, -⟩ | ⟨-, _, _, -, given, -⟩⟩ := DataSegment.extend_cases {} b 0
  · cases answer.symm.trans refused
  · cases answer.symm.trans given
    have := later.top
    rw [base, alignedBase]
    omega

end SegregatedFit
