import SegregatedFit.Proofs.Session
import SegregatedFit.Proofs.Views

/-!
# What clients write steers nothing

Two runs are twins when they begin with heaps of the same tuning whose sources begin at the same address, and go on with the
same requests. Between the requests the clients may write what they like, each its own bytes, and the memories may hold
whatever they like at first (`Session.Twins`). When the sources grant and refuse the same requests, twins cannot be told
apart: they gave the same answers, made the same requests to their sources, and show the same (`Session.Alike`).

The reason is that a request does to a layout what it does, whatever the memory holds, so both heaps hold one layout.
-/

namespace SegregatedFit

/-- A site whose source is recorded from now on. -/
def Site.recorded {σ : Type} (site : Site σ) : Site (Recording σ) := { site with source := { source := site.source } }

variable {σ τ : Type} [Backing σ] [Backing τ]

/-- A recorded source makes the promises that the source makes. -/
theorem Contract.keeps_recorded (C : Contract σ) {site : Site σ} (keeps : C.Keeps site.source site.programBreak) :
    (Recording.contract C).Keeps site.recorded.source site.recorded.programBreak := keeps

namespace Session

/-- Two runs that begin with heaps of the same tuning at the same address and go on with the same requests, with any writes
in between. -/
inductive Twins (C : Contract σ) (D : Contract τ) : Session (Recording σ) → Session (Recording τ) → Prop where
  | created {tuning : Tuning} {x : Site σ} {y : Site τ} {x' : Site (Recording σ)} {y' : Site (Recording τ)}
      {h : Heap (Recording σ)} {k : Heap (Recording τ)} (keeps : C.Keeps x.source x.programBreak)
      (keeps' : D.Keeps y.source y.programBreak)
      (start : (Backing.extend x.source x.programBreak 0).start = (Backing.extend y.source y.programBreak 0).start)
      (made : Heap.create tuning x.recorded = .ok h x') (made' : Heap.create tuning y.recorded = .ok k y') :
      Twins C D { state := h.at x' } { state := k.at y' }
  | requested {S S' : Session (Recording σ)} {T T' : Session (Recording τ)} (r : Request) (before : Twins C D S T)
      (allowed : S.Allows (.request r)) (allowed' : T.Allows (.request r)) (done : S.perform (.request r) = .ok S')
      (done' : T.perform (.request r) = .ok T') : Twins C D S' T'
  | wroteLeft {S S' : Session (Recording σ)} {T : Session (Recording τ)} (pointer index : Nat) (vs : List UInt8)
      (before : Twins C D S T) (allowed : S.Allows (.write pointer index vs))
      (done : S.perform (.write pointer index vs) = .ok S') : Twins C D S' T
  | wroteRight {S : Session (Recording σ)} {T T' : Session (Recording τ)} (pointer index : Nat) (vs : List UInt8)
      (before : Twins C D S T) (allowed : T.Allows (.write pointer index vs))
      (done : T.perform (.write pointer index vs) = .ok T') : Twins C D S T'

/-- Two sessions that cannot be told apart, neither by their answers and the requests to their sources nor by anything that
their heaps show. -/
structure Alike (S : Session (Recording σ)) (T : Session (Recording τ)) : Prop where
  answers : S.answers = T.answers
  live : S.ledger.live = T.ledger.live
  calls : S.state.source.calls = T.state.source.calls
  blocks : S.state.store.blocks S.state.span = T.state.store.blocks T.state.span
  freeList : ∀ c, S.state.store.freeList S.state.span c = T.state.store.freeList T.state.span c
  totals : S.state.store.totals S.state.span = T.state.store.totals T.state.span
  usable : ∀ p ∈ S.ledger.live, ∃ n, Heap.usableSize p S.state = .ok n S.state ∧ Heap.usableSize p T.state = .ok n T.state
  audit : S.state.audit = T.state.audit

/-- The invariant of twins: both heaps hold the same layout at the same address, and made the same requests. -/
structure Matched (C : Contract σ) (D : Contract τ) (S : Session (Recording σ)) (T : Session (Recording τ)) (L : Layout) :
    Prop where
  left : S.Sound (Recording.contract C) L
  right : T.Sound (Recording.contract D) L
  base : S.state.span.base = T.state.span.base
  tuning : S.state.tuning = T.state.tuning
  answers : S.answers = T.answers
  live : S.ledger.live = T.ledger.live
  calls : S.state.source.calls = T.state.source.calls

variable {C : Contract σ} {D : Contract τ} {S S' : Session (Recording σ)} {T T' : Session (Recording τ)} {L : Layout}
  {pattern : Nat → Bool}

/-! ## What both heaps show -/

theorem Matched.alike (h : Matched C D S T L) : S.Alike T where
  answers := h.answers
  live := h.live
  calls := h.calls
  blocks := by rw [h.left.healthy.describes.blocks_run, h.right.healthy.describes.blocks_run, h.base]
  freeList c := by
    by_cases known : c < classCount
    · have left := h.left.healthy.describes.freeList_run ⟨c, known⟩
      have right := h.right.healthy.describes.freeList_run ⟨c, known⟩
      rw [h.base] at left
      exact left.trans right.symm
    · rw [Store.freeList, Store.freeList, dif_neg known, dif_neg known]
  totals := by rw [h.left.healthy.describes.totals_run, h.right.healthy.describes.totals_run]
  usable p hp := by
    obtain ⟨x, hx, rfl⟩ := (h.left.live_iff p).mp hp
    refine ⟨_, h.left.healthy.usableSize_run hx, ?_⟩
    have right := h.right.healthy.usableSize_run hx
    rwa [HeapState.pointerTo, ← h.base] at right
  audit := by rw [h.left.healthy.audit_run, h.right.healthy.audit_run]

/-! ## Twins stay matched -/

/-- Two heaps that were just made at the same address match. -/
theorem Matched.created {tuning : Tuning} {x : Site σ} {y : Site τ} {x' : Site (Recording σ)} {y' : Site (Recording τ)}
    {h : Heap (Recording σ)} {k : Heap (Recording τ)} (keeps : C.Keeps x.source x.programBreak)
    (keeps' : D.Keeps y.source y.programBreak)
    (start : (Backing.extend x.source x.programBreak 0).start = (Backing.extend y.source y.programBreak 0).start)
    (made : Heap.create tuning x.recorded = .ok h x') (made' : Heap.create tuning y.recorded = .ok k y') :
    Matched C D { state := h.at x' } { state := k.at y' } Layout.empty := by
  obtain ⟨first, answer, base, tuned, asked, healthy⟩ := Heap.create_run (C.keeps_recorded keeps) made
  obtain ⟨first', answer', base', tuned', asked', healthy'⟩ := Heap.create_run (D.keeps_recorded keeps') made'
  obtain rfl : first = first' := Option.some.inj (answer.symm.trans (start.trans answer'))
  exact ⟨.created healthy, .created healthy', base.trans base'.symm, tuned.trans tuned'.symm, rfl, rfl,
    (Recording.calls_eq asked).trans (Recording.calls_eq asked').symm⟩

/-- A request adds to the requests made to the source. -/
theorem Sound.calls_eq (h : S.Sound (Recording.contract C) L) {r : Request} (allowed : S.Allows (.request r))
    (done : S.perform (.request r) = .ok S') :
    ∃ asked, S'.state.source.calls = S.state.source.calls ++ asked := by
  obtain ⟨-, o, s', -, run, served, -⟩ := h.request_run allowed
  cases run.symm.trans done
  exact ⟨o.asked, Recording.calls_eq served.asked⟩

/-- A request keeps two sessions matched, because the sources give the same answers. -/
theorem Matched.requested (h : Matched C D S T L) {r : Request} (allowed : S.Allows (.request r))
    (allowed' : T.Allows (.request r)) (done : S.perform (.request r) = .ok S') (done' : T.perform (.request r) = .ok T')
    (follows : Follows S'.state.source.calls pattern) (follows' : Follows T'.state.source.calls pattern) :
    ∃ L', Matched C D S' T' L' := by
  obtain ⟨grant, o, s', outcome, run, served, settles⟩ := h.left.request_run allowed
  obtain ⟨grant', o', t', outcome', run', served', settles'⟩ := h.right.request_run allowed'
  cases run.symm.trans done
  cases run'.symm.trans done'
  have calls : s'.source.calls = S.state.source.calls ++ o.asked := Recording.calls_eq served.asked
  have calls' : t'.source.calls = S.state.source.calls ++ o'.asked := h.calls ▸ Recording.calls_eq served'.asked
  rw [calls] at follows
  rw [calls'] at follows'
  -- Both outcomes are the outcome for the one pattern of answers that both sources follow.
  obtain rfl : o = o' := by
    rw [outcome] at follows ⊢
    rw [outcome', ← h.base, ← h.tuning] at follows' ⊢
    rw [Layout.serve_congr follows.right, Layout.serve_congr follows'.right]
  have pointers : T.state.pointerTo = S.state.pointerTo := funext fun _ => by
    rw [HeapState.pointerTo, HeapState.pointerTo, h.base]
  refine ⟨o.layout, h.left.settled served settles, h.right.settled served' settles', ?_, ?_, ?_, ?_, ?_⟩
  · exact served.base.trans (h.base.trans served'.base.symm)
  · exact served.tuning.trans (h.tuning.trans served'.tuning.symm)
  · simp only [h.answers, pointers]
  · simp only [Ledger.settle, h.live, pointers]
  · exact calls.trans calls'.symm

/-- Each of two twins is a run of its own. -/
theorem Twins.reachable (h : Twins C D S T) :
    S.Reachable (Recording.contract C) ∧ T.Reachable (Recording.contract D) := by
  induction h with
  | created keeps keeps' start made made' =>
    exact ⟨.created (C.keeps_recorded keeps) made, .created (D.keeps_recorded keeps') made'⟩
  | requested _ before allowed allowed' done done' ih =>
    exact ⟨ih.1.performed allowed done, ih.2.performed allowed' done'⟩
  | wroteLeft _ _ _ before allowed done ih => exact ⟨ih.1.performed allowed done, ih.2⟩
  | wroteRight _ _ _ before allowed done ih => exact ⟨ih.1, ih.2.performed allowed done⟩

/-- Twins whose sources grant and refuse the same requests are matched. -/
theorem Twins.matched (h : Twins C D S T) (follows : Follows S.state.source.calls pattern)
    (follows' : Follows T.state.source.calls pattern) : ∃ L, Matched C D S T L := by
  induction h with
  | created keeps keeps' start made made' => exact ⟨Layout.empty, .created keeps keeps' start made made'⟩
  | requested _ before allowed allowed' done done' ih =>
    obtain ⟨_, sound⟩ := before.reachable.1.sound
    obtain ⟨_, sound'⟩ := before.reachable.2.sound
    obtain ⟨_, calls⟩ := sound.calls_eq allowed done
    obtain ⟨_, calls'⟩ := sound'.calls_eq allowed' done'
    obtain ⟨L, matched⟩ := ih (calls ▸ follows).left (calls' ▸ follows').left
    exact matched.requested allowed allowed' done done' follows follows'
  | wroteLeft _ _ _ before allowed done ih =>
    cases done
    obtain ⟨L, matched⟩ := ih follows follows'
    exact ⟨L, { matched with left := matched.left.wrote allowed }⟩
  | wroteRight _ _ _ before allowed done ih =>
    cases done
    obtain ⟨L, matched⟩ := ih follows follows'
    exact ⟨L, { matched with right := matched.right.wrote allowed }⟩

/-- Twins whose sources grant and refuse the same requests cannot be told apart, whatever their clients wrote. -/
theorem Twins.alike_of_follows (h : Twins C D S T) (follows : Follows S.state.source.calls pattern)
    (follows' : Follows T.state.source.calls pattern) : S.Alike T := by
  obtain ⟨L, matched⟩ := h.matched follows follows'
  exact matched.alike

/-- Two runs over memories that held different words at first: one client writes behind its pointer, the other one does not,
and the last request is refused in both. -/
theorem Twins.alike_reserve : ∃ S T : Session (Recording Reserve), Twins Reserve.contract Reserve.contract S T ∧
    S.state.memory.byte 4144 = 1 ∧ T.state.memory.byte 4144 = 48 ∧
    S.state.source.calls = [(0, true), (40, true), (32, true), (5008, false)] ∧ S.Alike T := by
  have made : Heap.create { probeBudget := 2, selfCheck := false } (Reserve.site 4104 200 fun _ => 0).recorded =
      .ok _ _ := rfl
  have made' : Heap.create { probeBudget := 2, selfCheck := false } (Reserve.site 4104 200 UInt64.ofNat).recorded =
      .ok _ _ := rfl
  have created : Twins Reserve.contract Reserve.contract _ _ :=
    .created (x := Reserve.site 4104 200 fun _ => 0) (y := Reserve.site 4104 200 UInt64.ofNat) ⟨by decide, by decide⟩
      ⟨by decide, by decide⟩ rfl made made'
  have first : Twins Reserve.contract Reserve.contract _ _ :=
    .requested (.allocate 20) created (by intro _ h; cases h) (by intro _ h; cases h) rfl rfl
  have wrote : Twins Reserve.contract Reserve.contract _ _ :=
    .wroteLeft 4144 0 [1, 2, 3] first ⟨by decide, _, rfl, by decide⟩ rfl
  have refused : Twins Reserve.contract Reserve.contract _ _ :=
    .requested (.allocate 5000) wrote (by intro _ h; cases h) (by intro _ h; cases h) rfl rfl
  have follows : Follows [(0, true), (40, true), (32, true), (5008, false)] fun j => decide (j < 3) := by
    rintro (_ | _ | _ | _ | j) call at_ <;> cases at_ <;> rfl
  exact ⟨_, _, refused, by decide, by decide, rfl, refused.alike_of_follows follows follows⟩

end Session

end SegregatedFit
