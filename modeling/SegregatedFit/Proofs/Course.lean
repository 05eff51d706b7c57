import SegregatedFit.Proofs.SelfCheck
import SegregatedFit.Proofs.Views

/-!
# Whole courses of actions

A client acts one step after the other (`Session.run`), and does at every step what it may do then (`Session.Legal`). Such a
course of actions never faults, neither in a request nor in the audit after it nor in a view in between
(`Session.Inspectable`), and the audit after requests changes nothing: with it switched on or off, the course leads to the
same pointers, memory, lists, source and records.
-/

namespace SegregatedFit

variable {σ : Type} [Backing σ]

namespace Session

/-- The session after some actions, one after the other. -/
def run (S : Session σ) : List Action → Except Fault (Session σ)
  | [] => .ok S
  | a :: as => (S.perform a).bind fun S' => S'.run as

/-- The client may do each of the actions when its turn comes. -/
def Legal (S : Session σ) : List Action → Prop
  | [] => True
  | a :: as => S.Allows a ∧ ∀ S', S.perform a = .ok S' → S'.Legal as

/-- The same session with the audit after requests switched on or off. -/
def withSelfCheck (S : Session σ) (flag : Bool) : Session σ := { S with state := S.state.withSelfCheck flag }

/-- Every view of the heap has an answer: the audit passes, and the blocks, the totals, the members of the free lists and the
bytes behind the pointers of the client can be told. -/
structure Inspectable (S : Session σ) : Prop where
  audit : S.state.audit = .ok ()
  blocks : ∃ es, S.state.store.blocks S.state.span = .ok es
  totals : ∃ t, S.state.store.totals S.state.span = .ok t
  freeList : ∀ c < classCount, ∃ es, S.state.store.freeList S.state.span c = .ok es
  usableSize : ∀ p ∈ S.ledger.live, ∃ n, Heap.usableSize p S.state = .ok n S.state

variable {C : Contract σ} {S S' : Session σ} {L : Layout} {r : Request} {a : Action} {as bs : List Action}

/-- A step that a client may make, and a course that is legal from there on. -/
theorem Legal.cons (allowed : S.Allows a) (done : S.perform a = .ok S') (legal : S'.Legal as) : S.Legal (a :: as) := by
  refine ⟨allowed, fun T step => ?_⟩
  cases done.symm.trans step
  exact legal

/-- What a client may do at every step of a course it may do at every step of its beginning. -/
theorem Legal.of_prefix (h : S.Legal as) (begins : bs <+: as) : S.Legal bs := by
  obtain ⟨rest, rfl⟩ := begins
  induction bs generalizing S with
  | nil => trivial
  | cons b bs ih =>
    obtain ⟨allowed, legal⟩ := h
    exact ⟨allowed, fun S' done => ih (legal S' done)⟩

/-! ## The switch does not matter -/

/-- Whether the audit is switched on is no part of the invariant. -/
theorem Sound.withSelfCheck (h : S.Sound C L) (flag : Bool) : (S.withSelfCheck flag).Sound C L :=
  ⟨⟨h.healthy.describes, h.healthy.keeps, h.healthy.range⟩, h.live_iff, h.written⟩

/-- A request that is allowed is served in the same way with the audit switched on or off. -/
theorem Sound.serve_blind (h : S.Sound C L) (allowed : S.Allows (.request r)) :
    ∃ (answer : Option Nat) (s' : HeapState σ), ∀ flag,
      Heap.serve r (S.state.withSelfCheck flag) = .ok answer (s'.withSelfCheck flag) := by
  obtain ⟨answer, s', served⟩ : ∃ answer s', Heap.serve r (S.state.withSelfCheck true) = .ok answer s' := by
    obtain ⟨_, s', run, -⟩ := (h.withSelfCheck true).healthy.serve_run (h.permits allowed)
    exact ⟨_, s', run⟩
  obtain ⟨tuning, unchecked⟩ := Heap.serve_transparent r _ _ _ served
  have on : s'.withSelfCheck true = s' := HeapState.withSelfCheck_eq (by rw [tuning]; rfl)
  refine ⟨answer, s', fun flag => ?_⟩
  cases flag with
  | true => rw [on, served]
  | false => exact unchecked

/-- An action that is allowed leads to the same session with the audit switched on or off. -/
theorem Sound.perform_blind (h : S.Sound C L) (allowed : S.Allows a) (done : S.perform a = .ok S') (flag : Bool) :
    (S.withSelfCheck flag).perform a = .ok (S'.withSelfCheck flag) := by
  cases a with
  | write pointer index vs =>
    cases done
    rfl
  | request r =>
    obtain ⟨answer, s', served⟩ := h.serve_blind allowed
    have plain : Heap.serve r S.state = .ok answer (s'.withSelfCheck S.state.tuning.selfCheck) := served _
    simp only [perform, plain] at done
    cases done
    have switched : Heap.serve r (S.withSelfCheck flag).state = .ok answer (s'.withSelfCheck flag) := served flag
    simp only [perform, switched]
    rfl

/-- A legal course of actions does not fault, keeps the invariant, and leads to the same session with the audit switched on or
off. -/
theorem Sound.run_blind (h : S.Sound C L) (legal : S.Legal as) : ∃ S' L', S.run as = .ok S' ∧ S'.Sound C L' ∧
    ∀ flag, (S.withSelfCheck flag).run as = .ok (S'.withSelfCheck flag) := by
  induction as generalizing S L with
  | nil => exact ⟨S, L, rfl, h, fun _ => rfl⟩
  | cons a as ih =>
    obtain ⟨allowed, legal⟩ := legal
    obtain ⟨T, M, step, sound⟩ := h.perform_run allowed
    obtain ⟨S', L', done, sound', blind⟩ := ih sound (legal T step)
    refine ⟨S', L', ?_, sound', fun flag => ?_⟩
    · rw [Session.run, step]
      exact done
    · rw [Session.run, h.perform_blind allowed step flag]
      exact blind flag

/-! ## Views -/

theorem Sound.inspectable (h : S.Sound C L) : S.Inspectable where
  audit := h.healthy.audit_run
  blocks := ⟨_, h.healthy.describes.blocks_run⟩
  totals := ⟨_, h.healthy.describes.totals_run⟩
  freeList c hc := ⟨_, h.healthy.describes.freeList_run ⟨c, hc⟩⟩
  usableSize p hp := by
    obtain ⟨x, hx, rfl⟩ := (h.live_iff p).mp hp
    exact ⟨_, h.healthy.usableSize_run hx⟩

/-- A legal course of actions over a source that keeps the contract never faults, whatever the sizes asked for, and at each
step of it every view has an answer. A heap with the audit after requests switched on or off goes through the same course: it
gives the same answers and has the same memory, lists, span, source and records. -/
theorem run_total_and_blind {tuning : Tuning} {site site' : Site σ} {heap : Heap σ}
    (keeps : C.Keeps site.source site.programBreak) (made : Heap.create tuning site = .ok heap site')
    (legal : Session.Legal { state := heap.at site' } as) (begins : bs <+: as) :
    ∃ S, Session.run { state := heap.at site' } bs = .ok S ∧ S.Inspectable ∧ ∀ flag, ∃ heap',
      Heap.create { tuning with selfCheck := flag } site = .ok heap' site' ∧
      Session.run { state := heap'.at site' } bs = .ok (S.withSelfCheck flag) := by
  obtain ⟨-, -, -, -, -, healthy⟩ := Heap.create_run keeps made
  obtain ⟨S, L, done, sound, blind⟩ := (Sound.created healthy).run_blind (legal.of_prefix begins)
  exact ⟨S, done, sound.inspectable, fun flag => ⟨_, Heap.create_withSelfCheck made flag, blind flag⟩⟩

/-- A course over a reservation, with sizes up to the end of the address space. -/
theorem run_reserve : ∃ (heap : Heap Reserve) (site : Site Reserve) (as : List Action) (S : Session Reserve),
    Heap.create { selfCheck := true } (Reserve.site 4104 200 UInt64.ofNat) = .ok heap site ∧
    Session.run { state := heap.at site } as = .ok (S.withSelfCheck true) ∧ S.Inspectable ∧
    S.answers = [some 4144, none, none, some 4176] := by
  obtain ⟨heap, site, as, S, made, legal, plain, answers⟩ : ∃ (heap : Heap Reserve) (site : Site Reserve) (as : List Action)
      (S : Session Reserve), Heap.create { selfCheck := false } (Reserve.site 4104 200 UInt64.ofNat) = .ok heap site ∧
      Session.Legal { state := heap.at site } as ∧ Session.run { state := heap.at site } as = .ok S ∧
      S.answers = [some 4144, none, none, some 4176] := by
    refine ⟨_, _, [.request (.allocate 20), .write 4144 3 [1, 2], .request (.resize (some 4144) 0xffff_ffff_ffff_ffff),
      .request (.allocateZeroed 0x8000_0000_0000_0000 2), .request (.resize (some 4144) 50)], _, rfl, ?_, rfl, rfl⟩
    refine .cons (by intro _ h; cases h) rfl ?_
    refine .cons ⟨by decide, _, rfl, by decide⟩ rfl ?_
    refine .cons (by rintro _ ⟨⟩; decide) rfl ?_
    refine .cons (by intro _ h; cases h) rfl ?_
    exact .cons (by rintro _ ⟨⟩; decide) rfl trivial
  obtain ⟨S', done, inspectable, blind⟩ := run_total_and_blind (C := Reserve.contract) ⟨by decide, by decide⟩ made legal
    (List.prefix_refl _)
  cases done.symm.trans plain
  obtain ⟨heap', made', done'⟩ := blind true
  exact ⟨heap', site, as, S, made', done', inspectable, answers⟩

end Session

end SegregatedFit
