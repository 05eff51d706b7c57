import SegregatedFit.Proofs.Course
import SegregatedFit.Proofs.Vacancy

/-!
# Pointers that were taken back

A pointer that was taken back is spent: it lies in the span, no pointer of the client has a block that covers the word right
before it, and this word does not say "allocated" (`Session.Spent`). It stays spent whatever the client does, as long as no
block is handed out that covers the word; merges, splits, links and growth leave the bit clear. A client that gives a spent
pointer back again is stopped before anything has changed.
-/

namespace SegregatedFit

variable {σ : Type} [Backing σ]

/-- The block of a pointer covers an address. -/
def HeapState.Covers (s : HeapState σ) (pointer a : Nat) : Prop :=
  ∃ n, Heap.usableSize pointer s = .ok n s ∧ pointer ≤ a + headerSize ∧ a < pointer + n

/-- The block, in a heap that begins at `base`, ends before the word right before `p` or begins behind this word. -/
def Block.Clears (x : Block) (base p : Nat) : Prop := p ≤ base + x.offset ∨ base + x.offset + x.size + headerSize ≤ p

namespace Session

/-- None of the pointers that are answered in a course of actions has a block that covers the word right before `p`. -/
def Avoids (p : Nat) (S : Session σ) : List Action → Prop
  | [] => True
  | a :: as => ∀ S', S.perform a = .ok S' →
      (∀ q, S'.answers = S.answers ++ [some q] → ¬ S'.state.Covers q (p - headerSize)) ∧ S'.Avoids p as

/-- A pointer into the span such that no block of the client covers the word right before it, and this word does not say that
its block is allocated. -/
structure Spent (p : Nat) (S : Session σ) : Prop where
  aligned : p % alignment = 0
  inside : S.state.span.base + headerSize ≤ p ∧ p < S.state.span.finish
  uncovered : ∀ q ∈ S.ledger.live, ¬ S.state.Covers q (p - headerSize)
  vacant : S.state.memory.Vacant (p - headerSize)

variable {C : Contract σ} {S S' : Session σ} {L : Layout} {r : Request} {a : Action} {as : List Action} {p : Nat}

/-- A step whose answer avoids the word, and a course that avoids it from there on. -/
theorem Avoids.cons (done : S.perform a = .ok S')
    (apart : ∀ q, S'.answers = S.answers ++ [some q] → ¬ S'.state.Covers q (p - headerSize)) (rest : S'.Avoids p as) :
    S.Avoids p (a :: as) := by
  intro T step
  cases done.symm.trans step
  exact ⟨apart, rest⟩

/-- The block of a pointer of the client reaches from the tag before the pointer to the end of its payload. -/
theorem Sound.covers_iff (h : S.Sound C L) {x : Block} (hx : x ∈ L.lent) {address : Nat} :
    S.state.Covers (S.state.pointerTo x.offset) address ↔
      S.state.span.base + x.offset ≤ address ∧ address < S.state.span.base + x.offset + x.size := by
  have bounds := h.healthy.describes.laid.bounds (Layout.mem_lent.mp hx).1
  have usable := h.healthy.usableSize_run hx
  constructor
  · rintro ⟨n, told, low, high⟩
    rw [usable] at told
    cases told
    simp only [HeapState.pointerTo, payloadOf, headerSize] at low high
    omega
  · rintro ⟨low, high⟩
    refine ⟨_, usable, ?_⟩
    simp only [HeapState.pointerTo, payloadOf, headerSize]
    omega

/-- A block that does not cover the word right before an aligned pointer ends before this word or begins behind it. -/
theorem Sound.clears_of_not_covers (h : S.Sound C L) {x : Block} (hx : x ∈ L.lent) (aligned : p % alignment = 0)
    (inside : S.state.span.base + headerSize ≤ p) (clear : ¬ S.state.Covers (S.state.pointerTo x.offset) (p - headerSize)) :
    x.Clears S.state.span.base p := by
  have bounds := h.healthy.describes.laid.bounds (Layout.mem_lent.mp hx).1
  have base := S.state.span.base_aligned
  rw [h.covers_iff hx] at clear
  simp only [Block.Clears, alignment, headerSize] at clear aligned inside ⊢
  omega

/-- No block lent covers the word right before a spent pointer. -/
theorem Spent.clears (spent : S.Spent p) (h : S.Sound C L) {x : Block} (hx : x ∈ L.lent) : x.Clears S.state.span.base p :=
  h.clears_of_not_covers hx spent.aligned spent.inside.1 (spent.uncovered _ ((h.live_iff _).mpr ⟨x, hx, rfl⟩))

/-- A client that gives a spent pointer back is stopped, and nothing has changed. -/
theorem Spent.release_run (spent : S.Spent p) :
    Heap.serve (.release (some p)) S.state = .error (.alreadyFree (p - headerSize)) S.state := by
  have base := S.state.span.base_aligned
  obtain ⟨aligned, inside, -, vacant⟩ := spent
  simp only [alignment, headerSize] at aligned inside vacant ⊢
  have contained : S.state.span.contains p = true := Span.contains_iff.mpr (by omega)
  have place : blockOf p = .ok (p - 8) := blockOf_eq_ok_iff.mpr ⟨by simp only [headerSize]; omega, rfl⟩
  have stopped : StoreM.release S.state.span (p - 8) S.state.store = .error (.alreadyFree (p - 8)) S.state.store := by
    have clear : (S.state.store.memory.tag (p - 8)).allocated = false := vacant
    simp only [StoreM.release, Operation.bind_apply, StoreM.tag_apply, clear, if_true, Operation.throw_apply]
  simp only [Heap.serve, Heap.release, Heap.releasePointer, Operation.bind_apply, Operation.get_apply, contained,
    Bool.true_eq_false, if_false, place, Operation.lift_ok, Operation.pure_apply, HeapM.onStore_apply, stopped]
  rfl

/-! ## A pointer that is taken back is spent -/

/-- A pointer into the span is spent after a request when no block that is lent then covers the word right before it, and the
word said nothing of an allocated block before, or the pointer was taken back by the request. -/
theorem Sound.spent_of_served (h : S.Sound C L) {o : Outcome}
    (serve : Heap.serve r S.state = .ok (o.answer.map S.state.pointerTo) S'.state) (served : S.state.Served C L o S'.state)
    (settles : o.Settles L S.state.span.base r) (sound : S'.Sound C o.layout) (aligned : p % alignment = 0)
    (inside : S.state.span.base + headerSize ≤ p ∧ p < S.state.span.finish)
    (clears : ∀ y ∈ o.layout.lent, y.Clears S.state.span.base p)
    (before : r.consumed (o.answer.map S.state.pointerTo) = some p ∨ S.state.memory.Vacant (p - headerSize)) :
    S'.Spent p := by
  have base := S.state.span.base_aligned
  have finish := served.finish_eq h.healthy
  simp only [Block.Clears, alignment, headerSize] at aligned inside clears before
  have word : p - 8 + 8 = p := by omega
  refine ⟨aligned, ?_, ?_, ?_⟩
  · rw [served.base, finish]
    simp only [headerSize]
    omega
  · intro q hq covers
    obtain ⟨y, hy, rfl⟩ := (sound.live_iff q).mp hq
    obtain ⟨low, high⟩ := (sound.covers_iff hy).mp covers
    have := clears y hy
    rw [served.base] at low high
    simp only [headerSize] at low high
    omega
  · refine Heap.serve_vacant serve (by simp only [headerSize]; omega) ?_ ?_ (before.imp_left fun taken => by
      rw [headerSize, word, taken])
    · intro here
      simp only [Span.finish, Span.length, headerSize, Span.epilogue] at inside finish here
      omega
    · intro q hq
      obtain ⟨offset, answer, rfl⟩ := Option.map_eq_some_iff.mp hq
      obtain ⟨wanted, room, -, lent⟩ := settles
      have hy := (lent ⟨offset, wanted, true⟩).mpr (.inr ⟨offset, answer, rfl⟩)
      have bounds := sound.healthy.describes.laid.bounds (Layout.mem_lent.mp hy).1
      have := clears _ hy
      dsimp only at bounds this
      simp only [HeapState.pointerTo, payloadOf, headerSize]
      omega

/-- A request that takes a pointer back leaves it spent. Its block was lent while the block that is answered was found, so that
one stands elsewhere. -/
theorem Sound.spends (h : S.Sound C L) (allowed : S.Allows (.request r)) (done : S.perform (.request r) = .ok S')
    (live : p ∈ S.ledger.live) (gone : p ∉ S'.ledger.live) : S'.Spent p := by
  obtain ⟨o, serve, served, settles, sound, ledger, -⟩ := h.request_eq_ok allowed done
  have taken : r.consumed (o.answer.map S.state.pointerTo) = some p := by
    rw [ledger, Ledger.mem_settle] at gone
    by_contra kept
    exact gone (.inl ⟨live, fun same => kept same.symm⟩)
  obtain ⟨x, hx, rfl⟩ := (h.live_iff p).mp live
  have mem := (Layout.mem_lent.mp hx).1
  have bounds := h.healthy.describes.laid.bounds mem
  have base := S.state.span.base_aligned
  refine h.spent_of_served serve served settles sound ?_ ?_ ?_ (.inl taken)
  · simp only [HeapState.pointerTo, payloadOf, headerSize, alignment]
    omega
  · simp only [HeapState.pointerTo, payloadOf, headerSize, Span.finish, Span.length]
    omega
  · intro y hy
    have large := (sound.healthy.describes.laid.bounds (Layout.mem_lent.mp hy).1).2.2.1
    have apart : y.offset + y.size ≤ x.offset ∨ x.offset + x.size ≤ y.offset := by
      obtain ⟨wanted, room, apart, lent⟩ := settles
      rcases (lent y).mp hy with ⟨old, kept⟩ | ⟨q, answer, rfl⟩
      · refine h.healthy.describes.laid.tiled.apart (Layout.mem_lent.mp old).1 mem ?_
        intro same
        exact gone ((sound.live_iff _).mpr ⟨y, hy, by rw [served.pointerTo_eq, same]⟩)
      · exact (apart q answer x hx).symm
    simp only [Block.Clears, HeapState.pointerTo, payloadOf, headerSize]
    omega

/-! ## A spent pointer stays spent -/

theorem Spent.wrote (spent : S.Spent p) (h : S.Sound C L) {pointer index : Nat} {vs : List UInt8}
    (allowed : S.Allows (.write pointer index vs)) (done : S.perform (.write pointer index vs) = .ok S') : S'.Spent p := by
  obtain ⟨x, hx, rfl, fits⟩ := h.allows_write allowed
  have clears := spent.clears h hx
  have sound := h.wrote allowed
  cases done
  refine ⟨spent.aligned, spent.inside, ?_, spent.vacant.setBytes ?_ ?_⟩
  · intro q hq
    obtain ⟨y, hy, rfl⟩ := (h.live_iff q).mp hq
    exact fun covers => spent.uncovered _ hq ((h.covers_iff hy).mpr ((sound.covers_iff hy).mp covers))
  · have := spent.aligned
    simp only [alignment, headerSize] at this ⊢
    omega
  · have := spent.inside
    simp only [Block.Clears, HeapState.pointerTo, payloadOf, headerSize] at clears this ⊢
    omega

theorem Spent.requested (spent : S.Spent p) (h : S.Sound C L) (allowed : S.Allows (.request r))
    (done : S.perform (.request r) = .ok S')
    (avoids : ∀ q, S'.answers = S.answers ++ [some q] → ¬ S'.state.Covers q (p - headerSize)) : S'.Spent p := by
  obtain ⟨o, serve, served, settles, sound, -, answers⟩ := h.request_eq_ok allowed done
  refine h.spent_of_served serve served settles sound spent.aligned spent.inside ?_ (.inr spent.vacant)
  intro y hy
  obtain ⟨wanted, -, -, lent⟩ := settles
  rcases (lent y).mp hy with ⟨old, -⟩ | ⟨q, answer, rfl⟩
  · exact spent.clears h old
  · have clear := avoids (S.state.pointerTo q) (by rw [answers, show o.answer = some q from answer]; rfl)
    rw [← served.pointerTo_eq] at clear
    have clears := sound.clears_of_not_covers hy spent.aligned (served.base ▸ spent.inside.1) clear
    rwa [served.base] at clears

/-- A spent pointer stays spent when a block is handed out that does not cover the word right before it, and whatever else the
client does. -/
theorem Spent.perform (spent : S.Spent p) (h : S.Sound C L) (allowed : S.Allows a) (done : S.perform a = .ok S')
    (avoids : ∀ q, S'.answers = S.answers ++ [some q] → ¬ S'.state.Covers q (p - headerSize)) : S'.Spent p := by
  cases a with
  | request r => exact spent.requested h allowed done avoids
  | write pointer index vs => exact spent.wrote h allowed done

/-- A spent pointer stays spent in every legal course of actions that avoids the word right before it. -/
theorem Spent.run (spent : S.Spent p) (h : S.Sound C L) (legal : S.Legal as) (avoids : S.Avoids p as) :
    ∃ T, S.run as = .ok T ∧ T.Spent p := by
  induction as generalizing S L with
  | nil => exact ⟨S, rfl, spent⟩
  | cons a as ih =>
    obtain ⟨allowed, legal⟩ := legal
    obtain ⟨S', L', step, sound⟩ := h.perform_run allowed
    obtain ⟨apart, avoids⟩ := avoids S' step
    obtain ⟨T, run, spent'⟩ := ih (spent.perform h allowed step apart) sound (legal S' step) avoids
    refine ⟨T, ?_, spent'⟩
    rw [Session.run, step]
    exact run

/-- A client that gives back a pointer which was taken back from it, by a release or by a move, is stopped with the address of
the block, and nothing in the heap or the memory has changed: whatever was merged, cut, linked and grown in between, as long
as no block handed out since then covers the word right before the pointer. -/
theorem Reachable.release_again (h : Reachable C S) (allowed : S.Allows (.request r))
    (done : S.perform (.request r) = .ok S') (live : p ∈ S.ledger.live) (gone : p ∉ S'.ledger.live) (legal : S'.Legal as)
    (avoids : S'.Avoids p as) : ∃ T, S'.run as = .ok T ∧
      Heap.serve (.release (some p)) T.state = .error (.alreadyFree (p - headerSize)) T.state ∧
      (Fault.alreadyFree (p - headerSize)).message = "block " ++ hex (p - headerSize) ++ " is already free" := by
  obtain ⟨L, sound⟩ := h.sound
  obtain ⟨S'', L', step, sound'⟩ := sound.perform_run allowed
  cases done.symm.trans step
  obtain ⟨T, run, spent⟩ := (sound.spends allowed done live gone).run sound' legal avoids
  exact ⟨T, run, spent.release_run, rfl⟩

/-- A block is released and merged into the block before it, is the rest of an allocation, is merged again, and a new block is
put at the end of the heap: its pointer is not taken back once more. -/
theorem Reachable.release_again_reserve : ∃ T : Session Reserve,
    T.answers = [some 4144, some 4176, some 4208, some 4240, none, none, some 4144, none, some 4272] ∧
    Heap.serve (.release (some 4176)) T.state = .error (.alreadyFree 4168) T.state ∧
    (Fault.alreadyFree 4168).message = "block 0x1048 is already free" := by
  have made : Heap.create { probeBudget := 2, selfCheck := false } (Reserve.site 4104 400 UInt64.ofNat) = .ok _ _ := rfl
  have created : Session.Reachable Reserve.contract _ := .created ⟨by decide, by decide⟩ made
  have one := created.performed (a := .request (.allocate 20)) (by intro _ h; cases h) rfl
  have two := one.performed (a := .request (.allocate 20)) (by intro _ h; cases h) rfl
  have three := two.performed (a := .request (.allocate 20)) (by intro _ h; cases h) rfl
  have four := three.performed (a := .request (.allocate 20)) (by intro _ h; cases h) rfl
  obtain ⟨S, S', as, U, reachable, allowed, done, live, gone, legal, avoids, run, answers⟩ :
      ∃ (S S' : Session Reserve) (as : List Action) (U : Session Reserve), S.Reachable Reserve.contract ∧
        S.Allows (.request (.release (some 4176))) ∧ S.perform (.request (.release (some 4176))) = .ok S' ∧
        4176 ∈ S.ledger.live ∧ 4176 ∉ S'.ledger.live ∧ S'.Legal as ∧ S'.Avoids 4176 as ∧ S'.run as = .ok U ∧
        U.answers = [some 4144, some 4176, some 4208, some 4240, none, none, some 4144, none, some 4272] := by
    refine ⟨_, _, [.request (.release (some 4144)), .request (.allocate 20), .write 4144 16 [1, 1, 1, 1, 1, 1, 1, 1],
      .request (.release (some 4208)), .request (.allocate 100)], _, four, by rintro _ ⟨⟩; decide, rfl, by decide, by decide,
      ?_, ?_, rfl, rfl⟩
    · refine .cons (by rintro _ ⟨⟩; decide) rfl ?_
      refine .cons (by intro _ h; cases h) rfl ?_
      refine .cons ⟨by decide, _, rfl, by decide⟩ rfl ?_
      refine .cons (by rintro _ ⟨⟩; decide) rfl ?_
      exact .cons (by intro _ h; cases h) rfl trivial
    · refine .cons rfl (by rintro _ ⟨⟩) ?_
      refine .cons rfl (by rintro _ ⟨⟩ ⟨_, ⟨⟩, low, high⟩; revert high; decide) ?_
      refine .cons rfl (by rintro _ ⟨⟩) ?_
      refine .cons rfl (by rintro _ ⟨⟩) ?_
      exact .cons rfl (by rintro _ ⟨⟩ ⟨_, ⟨⟩, low, high⟩; revert low; decide) trivial
  obtain ⟨T, run', stopped, text⟩ := reachable.release_again allowed done live gone legal avoids
  cases run.symm.trans run'
  exact ⟨_, answers, stopped, text⟩

end Session

end SegregatedFit
