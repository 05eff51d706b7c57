import SegregatedFit.Backing.Scripted
import SegregatedFit.Proofs.Session

/-!
# Requests that are answered with nothing

A heap that looks for a block writes nothing before it has one: the search only reads, and growth asks the source first. So
when there is no block, the memory, the lists, the span and the tuning are as they were (`HeapM.Cautious`); only the source
and the records may have changed. Nothing is assumed of the heap or of its source, so this holds for damaged heaps too.
-/

namespace SegregatedFit

variable {σ α β : Type}

/-- Memory, lists, span and tuning are as they were. -/
structure HeapState.Untouched (s s' : HeapState σ) : Prop where
  store : s'.store = s.store
  span : s'.span = s.span
  tuning : s'.tuning = s.tuning

theorem HeapState.Untouched.refl (s : HeapState σ) : s.Untouched s := ⟨rfl, rfl, rfl⟩

theorem HeapState.Untouched.trans {s t u : HeapState σ} (h : s.Untouched t) (h' : t.Untouched u) : s.Untouched u :=
  ⟨h'.store.trans h.store, h'.span.trans h.span, h'.tuning.trans h.tuning⟩

namespace HeapM

/-- The operation leaves its heap untouched whenever it comes to an end. -/
def Inert (x : HeapM σ α) : Prop := ∀ s a s', x s = .ok a s' → s.Untouched s'

/-- The operation has something to answer whenever it comes to an end. -/
def Gives (x : HeapM σ (Option α)) : Prop := ∀ s s', x s ≠ .ok none s'

/-- The operation leaves its heap untouched when it has nothing to answer. -/
def Cautious (x : HeapM σ (Option α)) : Prop := ∀ s s', x s = .ok none s' → s.Untouched s'

/-! ## Operations that write nothing -/

namespace Inert

theorem pure (a : α) : Inert (pure a : HeapM σ α) := by
  rintro s _ _ ⟨⟩
  exact .refl s

theorem bind {x : HeapM σ α} {f : α → HeapM σ β} (hx : Inert x) (hf : ∀ a, Inert (f a)) : Inert (x >>= f) := by
  intro s b s' run
  obtain ⟨a, t, first, rest⟩ := Operation.bind_eq_ok run
  exact (hx _ _ _ first).trans (hf a _ _ _ rest)

theorem lift (x : Except Fault α) : Inert (liftM x : HeapM σ α) := by
  cases x with
  | ok a => exact pure a
  | error f => rintro s _ _ ⟨⟩

theorem get : Inert (MonadStateOf.get : HeapM σ (HeapState σ)) := by
  rintro s _ _ ⟨⟩
  exact .refl s

theorem tell (r : Record) : Inert (tell r : HeapM σ Unit) := by
  rintro s _ _ ⟨⟩
  exact ⟨rfl, rfl, rfl⟩

theorem extend [Backing σ] (n : Nat) : Inert (extend n : HeapM σ (Option Nat)) := by
  rintro s _ _ ⟨⟩
  exact ⟨rfl, rfl, rfl⟩

/-- What only looks at the store leaves the heap untouched. -/
theorem onStore {x : Span → StoreM α} (reads : ∀ span s a t, x span s = .ok a t → t = s) : Inert (onStore x : HeapM σ α) := by
  intro s a s' run
  obtain ⟨t, done, rfl⟩ := onStore_eq_ok run
  obtain rfl := reads _ _ _ _ done
  exact ⟨rfl, rfl, rfl⟩

theorem tag (f : Span → Nat) : Inert (HeapM.onStore fun span => StoreM.tag (f span) : HeapM σ Tag) :=
  onStore fun _ _ _ _ run => by cases run; rfl

theorem preceding (f : Span → Nat) : Inert (HeapM.onStore fun span => StoreM.preceding (f span) : HeapM σ Nat) := by
  refine onStore fun span s a t run => ?_
  obtain ⟨_, _, ⟨⟩, run⟩ := Operation.bind_eq_ok run
  cases before : s.memory.preceding (f span) with
  | error e =>
    simp only [before] at run
    cases run
  | ok b =>
    simp only [before] at run
    cases run
    rfl

end Inert

/-! ## Operations that write nothing unless they have an answer -/

theorem Gives.some (a : α) : Gives (pure (some a) : HeapM σ (Option α)) := by
  rintro s s' ⟨⟩

theorem Gives.bind {x : HeapM σ β} {f : β → HeapM σ (Option α)} (hf : ∀ b, Gives (f b)) : Gives (x >>= f) := by
  intro s s' run
  obtain ⟨b, t, -, rest⟩ := Operation.bind_eq_ok run
  exact hf b t s' rest

theorem Gives.cautious {x : HeapM σ (Option α)} (h : Gives x) : Cautious x := fun s s' run => absurd run (h s s')

theorem Inert.cautious {x : HeapM σ (Option α)} (h : Inert x) : Cautious x := fun s s' run => h s none s' run

theorem Cautious.bind {x : HeapM σ β} {f : β → HeapM σ (Option α)} (hx : Inert x) (hf : ∀ b, Cautious (f b)) :
    Cautious (x >>= f) := by
  intro s s' run
  obtain ⟨b, t, first, rest⟩ := Operation.bind_eq_ok run
  exact (hx _ _ _ first).trans (hf b _ _ rest)

/-- A second way is tried when the first has nothing to answer. -/
theorem Cautious.orElse {x : HeapM σ (Option β)} {f : Option β → HeapM σ (Option α)} (hx : Cautious x)
    (hnone : Cautious (f none)) (hsome : ∀ b, Gives (f (some b))) : Cautious (x >>= f) := by
  intro s s' run
  obtain ⟨b, t, first, rest⟩ := Operation.bind_eq_ok run
  cases b with
  | none => exact (hx _ _ first).trans (hnone _ _ rest)
  | some b => exact absurd rest (hsome b _ _)

end HeapM

/-! ## Looking for a block -/

namespace Heap

open HeapM

variable [Backing σ]

theorem requestGrowth_inert (delta : Nat) : Inert (requestGrowth delta : HeapM σ Bool) := by
  refine .bind (.extend delta) fun start => ?_
  cases start with
  | none => exact .bind (.tell _) fun _ => .pure false
  | some start =>
    refine .bind .get fun s => ?_
    dsimp only
    split
    · exact .bind (.tell _) fun _ => .pure false
    · exact .bind (.lift _) fun _ => .bind (.tell _) fun _ => .pure true

theorem extendTrailing_cautious (wanted : Nat) : Cautious (extendTrailing wanted : HeapM σ (Option Nat)) := by
  refine .bind (.tag _) fun epilogue => ?_
  split
  · exact (Inert.pure none).cautious
  refine .bind (.preceding _) fun last => .bind (.tag _) fun tag => ?_
  split
  · exact (Inert.pure none).cautious
  refine .bind (requestGrowth_inert _) fun granted => ?_
  split
  · exact (Gives.bind fun _ => .bind fun _ => .some last).cautious
  · exact (Inert.pure none).cautious

theorem append_cautious (wanted : Nat) : Cautious (append wanted : HeapM σ (Option Nat)) := by
  refine .bind (requestGrowth_inert _) fun granted => ?_
  split
  · exact (Gives.bind fun s : HeapState σ => .bind fun _ => .bind fun _ => .some s.span.epilogue).cautious
  · exact (Inert.pure none).cautious

theorem grow_cautious (wanted : Nat) : Cautious (grow wanted : HeapM σ (Option Nat)) :=
  (extendTrailing_cautious wanted).orElse (append_cautious wanted) fun block => .some block

theorem obtain_cautious (wanted : Nat) : Cautious (obtain wanted : HeapM σ (Option Nat)) := by
  refine .bind .get fun s => .bind (.lift _) fun found => ?_
  cases found with
  | some block => exact (Gives.bind fun _ => .some block).cautious
  | none => exact grow_cautious wanted

theorem allocate_cautious (size : Nat) : Cautious (allocate size : HeapM σ (Option Nat)) := by
  unfold allocate
  split
  · exact (Inert.bind (.tell _) fun _ => .pure none).cautious
  · refine (obtain_cautious _).orElse (Inert.bind (.tell _) fun _ => .pure none).cautious fun block => ?_
    exact .bind fun _ => .bind fun _ => .bind fun _ => .some (payloadOf block)

theorem allocateZeroed_cautious (count size : Nat) : Cautious (allocateZeroed count size : HeapM σ (Option Nat)) := by
  unfold allocateZeroed
  split
  · exact (Inert.bind (.tell _) fun _ => .pure none).cautious
  · exact (allocate_cautious _).orElse (Inert.pure none).cautious fun pointer => .bind fun _ => .some pointer

omit [Backing σ] in
theorem usableSize_inert (pointer : Nat) : Inert (usableSize pointer : HeapM σ Nat) :=
  .bind (.lift _) fun _ => .bind .get fun _ => .lift _

/-- A pointer for which there is no other block stays as it is. -/
theorem resize_cautious (pointer : Option Nat) (size : Nat) (moves : pointer = none ∨ size ≠ 0) :
    Cautious (resize pointer size : HeapM σ (Option Nat)) := by
  cases pointer with
  | none => exact allocate_cautious size
  | some pointer =>
    cases size with
    | zero => simp at moves
    | succ size =>
      refine .bind (usableSize_inert pointer) fun _ => ?_
      refine Cautious.orElse (allocate_cautious _) (Inert.pure none).cautious fun moved => ?_
      exact .bind fun _ => .bind fun _ => .bind fun _ => .some moved

end Heap

/-- The bytes that a client may use behind a pointer are told from the memory alone. -/
theorem HeapState.Untouched.usableSize {s s' : HeapState σ} (h : s.Untouched s') {pointer n : Nat}
    (usable : Heap.usableSize pointer s = .ok n s) : Heap.usableSize pointer s' = .ok n s' := by
  have memory : s'.memory = s.memory := congrArg Store.memory h.store
  obtain ⟨b, t, located, told⟩ := Operation.bind_eq_ok usable
  obtain ⟨block, rfl⟩ := Operation.lift_eq_ok located
  obtain ⟨_, _, ⟨⟩, read⟩ := Operation.bind_eq_ok told
  obtain ⟨size, -⟩ := Operation.lift_eq_ok read
  simp only [Heap.usableSize, Operation.bind_apply, Operation.get_apply, block, memory, size, Operation.lift_ok,
    Operation.pure_apply]

/-! ## Requests -/

/-- An arena with a script on a machine whose memory holds what `background` says. -/
def Scripted.site (base capacity : Nat) (script : Script) (background : Nat → UInt64) : Site Scripted where
  source := { base, capacity, script }
  memory := { background }
  programBreak := { top := 0 }

/-- The request asks for memory. A release does not, and neither does moving an allocation into a block for no bytes. -/
def Request.Asks : Request → Prop
  | .allocate _ | .allocateZeroed _ _ | .resize none _ | .resize (some _) (_ + 1) => True
  | .release _ | .resize (some _) 0 => False

variable {r : Request}

/-- A request that asks for memory takes nothing back unless it has an answer. -/
theorem Request.Asks.consumed_none (asks : r.Asks) : r.consumed none = none := by
  cases r with
  | release pointer => exact asks.elim
  | resize pointer size =>
    cases pointer <;> cases size
    case some.zero => exact asks.elim
    all_goals rfl
  | _ => rfl

theorem Ledger.settle_none (l : Ledger) (kept : r.consumed none = none) : l.settle r none = l := by
  simp [settle, kept]

variable [Backing σ]

theorem Heap.serve_cautious (asks : r.Asks) : HeapM.Cautious (serve r : HeapM σ (Option Nat)) := by
  cases r with
  | allocate size => exact allocate_cautious size
  | allocateZeroed count size => exact allocateZeroed_cautious count size
  | release pointer => exact asks.elim
  | resize pointer size =>
    refine resize_cautious pointer size ?_
    cases pointer with
    | none => exact .inl rfl
    | some pointer =>
      cases size with
      | zero => exact asks.elim
      | succ size => exact .inr (Nat.succ_ne_zero size)

/-- A request for memory that is answered with nothing leaves memory, lists, span and tuning as they were, and the client has
the pointers that it had: from any state, over any source, whatever the source answered to the heap. An attempt to enlarge the
last free block that fails on the way leaves the heap as it was, before a new block is tried. -/
theorem Session.perform_unanswered {S S' : Session σ} (asks : r.Asks) (done : S.perform (.request r) = .ok S')
    (unanswered : S'.answers = S.answers ++ [none]) :
    S.state.Untouched S'.state ∧ S'.ledger = S.ledger ∧
      (∀ pointer n, Heap.usableSize pointer S.state = .ok n S.state →
        Heap.usableSize pointer S'.state = .ok n S'.state) ∧
      ∀ wanted (s t : HeapState σ), Heap.extendTrailing wanted s = .ok none t →
        s.Untouched t ∧ Heap.grow wanted s = Heap.append wanted t := by
  obtain ⟨answer, run, settled, answers⟩ := perform_eq_ok done
  obtain rfl : answer = none := by simpa [answers] using unanswered
  have untouched := Heap.serve_cautious asks _ _ run
  refine ⟨untouched, settled.trans (S.ledger.settle_none asks.consumed_none), ?_, ?_⟩
  · intro pointer n usable
    exact untouched.usableSize usable
  · intro wanted s t trailing
    refine ⟨Heap.extendTrailing_cautious wanted _ _ trailing, ?_⟩
    simp only [Heap.grow, Operation.bind_apply, trailing]

/-- A move for which the arena leaves a gap when the last free block is to be enlarged, and refuses when a new block is tried
instead: two allocations, a release, and the move. -/
theorem Session.unanswered_scripted : ∃ S S' : Session Scripted,
    S.perform (.request (.resize (some 4128) 200)) = .ok S' ∧ S.answers = [some 4128, some 4176, none] ∧
      S'.state.source.requests = [0, 32, 48, 48, 160, 208] ∧ S.state.Untouched S'.state ∧
      S'.ledger.live = {4128} ∧ Heap.usableSize 4128 S'.state = .ok 40 S'.state ∧
      S'.state.heads.get 1 = 72 := by
  obtain ⟨heap, site, A, B, S, S', -, -, -, -, done, answers, refused, requests, live, usable, linked⟩ :
      ∃ (heap : Heap Scripted) (site : Site Scripted) (A B S S' : Session Scripted),
        Heap.create { selfCheck := false } (Scripted.site 4096 4096
          { gap := fun i => if i = 4 then 16 else 0, refuses := fun i => i == 5 } UInt64.ofNat) = .ok heap site ∧
        Session.perform { state := heap.at site } (.request (.allocate 40)) = .ok A ∧
        A.perform (.request (.allocate 40)) = .ok B ∧ B.perform (.request (.release (some 4176))) = .ok S ∧
        S.perform (.request (.resize (some 4128) 200)) = .ok S' ∧ S.answers = [some 4128, some 4176, none] ∧
        S'.answers = S.answers ++ [none] ∧ S'.state.source.requests = [0, 32, 48, 48, 160, 208] ∧
        S.ledger.live = {4128} ∧ Heap.usableSize 4128 S.state = .ok 40 S.state ∧
        S.state.heads.get 1 = 72 :=
    ⟨_, _, _, _, _, _, rfl, rfl, rfl, rfl, rfl, rfl, rfl, rfl, by decide, rfl, rfl⟩
  obtain ⟨untouched, ledger, usable', -⟩ := perform_unanswered (r := .resize (some 4128) 200) trivial done refused
  have heads : S'.state.heads = S.state.heads := congrArg Store.heads untouched.store
  exact ⟨S, S', done, answers, requests, untouched, ledger ▸ live, usable' _ _ usable, heads ▸ linked⟩

end SegregatedFit
