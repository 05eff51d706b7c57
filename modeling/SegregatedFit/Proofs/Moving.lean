import SegregatedFit.Proofs.Isolation
import SegregatedFit.Proofs.Shown

/-!
# Moving an allocation

To move an allocation is to allocate and then to take the old block back; in between, bytes are copied from the old block
to the new one. What is copied stays in the payload of the new block, which holds no tag, no link and no footer, so a heap in
which an allocation was moved has the structure of one in which the two requests were made one after the other
(`HeapState.SameStructure`). Taking the old block back may join it with a block beside the new one, but leaves the payload of
the new one alone, so the bytes of the client have moved with it (`Session.Moved`).
-/

namespace SegregatedFit

variable {σ : Type} [Backing σ]

/-- The bytes of one payload are copied to the start of another. -/
theorem Memory.byte_copyBytes (m : Memory) {p q n i : Nat} (inside : i < n) :
    (m.copyBytes p q n).byte (q + i) = m.byte (p + i) := by
  have enough : i < (m.bytes p n).length := by simpa [bytes] using inside
  rw [copyBytes, byte_setBytes, if_pos (Nat.le_add_right _ _), Nat.add_sub_cancel_left, List.getElem?_eq_getElem enough]
  simp [bytes]

/-- The pointer of an allocation that is resized is consumed when there is an answer. -/
theorem Request.consumed_resize {pointer answer : Option Nat} {n : Nat} (positive : 0 < n) :
    (Request.resize pointer n).consumed answer = if answer.isSome then pointer else none := by
  obtain ⟨n, rfl⟩ := Nat.exists_eq_succ_of_ne_zero positive.ne'
  rfl

/-! ## The steps of a move -/

namespace HeapState

/-- Two heaps have the same structure: the same source, the same span, the same blocks, and the same free lists in the same
order. Only what stands in the payloads of their blocks may differ. -/
structure SameStructure (s t : HeapState σ) : Prop where
  source : s.source = t.source
  programBreak : s.programBreak = t.programBreak
  span : s.span = t.span
  tuning : s.tuning = t.tuning
  heads : s.heads = t.heads
  blocks : s.store.blocks s.span = t.store.blocks t.span
  freeList : ∀ c : Fin classCount, s.store.freeList s.span c = t.store.freeList t.span c

variable {C : Contract σ} {L : Layout} {s s' t t' : HeapState σ} {o o' : Outcome}

/-- Healthy heaps of one layout have the same structure when they have the same source and the same span. -/
theorem Healthy.sameStructure (h : s.Healthy C L) (h' : t.Healthy C L) (source : s.source = t.source)
    (programBreak : s.programBreak = t.programBreak) (span : s.span = t.span) (tuning : s.tuning = t.tuning) :
    s.SameStructure t where
  source
  programBreak
  span
  tuning
  heads := Heads.ext fun c => (h.describes.threaded.front c).trans (h'.describes.threaded.front c).symm
  blocks := by rw [h.describes.blocks_run, h'.describes.blocks_run, span]
  freeList c := by rw [h.describes.freeList_run, h'.describes.freeList_run, span]

/-- The steps of a move, when there is room: the bytes arrive, and the structure is the one that allocating and taking back
without a copy in between leads to. -/
theorem Healthy.move_run (h : s.Healthy C L) {x : Block} (hx : x ∈ L.lent) {n q wanted : Nat} (positive : 0 < n)
    {s₁ : HeapState σ} (granted : Heap.allocate n s = .ok (some (s.pointerTo q)) s₁) (served : s.Served C L o s₁)
    (hands : o.Hands L wanted) (room : n + 8 ≤ wanted) (answer : o.answer = some q) :
    ∃ s₂ t, Heap.resize (some (s.pointerTo x.offset)) n s = .ok (some (s.pointerTo q)) s₂ ∧
      (∃ v, n ≤ v ∧ Heap.usableSize (s.pointerTo q) s₂ = .ok v s₂) ∧
      (∀ i < min (x.size - 8) n, s₂.memory.byte (s.pointerTo q + i) = s.memory.byte (s.pointerTo x.offset + i)) ∧
      Heap.releasePointer (s.pointerTo x.offset) s₁ = .ok () t ∧ s₂.SameStructure t ∧
      s₂.source = s₁.source ∧ s₂.programBreak = s₁.programBreak := by
  have old := (hands.lent_iff answer).mpr (.inl hx)
  have new := (hands.lent_iff answer).mpr (.inr rfl)
  have copied := served.copy hands answer room (s.pointerTo x.offset) (x.size - 8)
  obtain ⟨s₂, back, released⟩ := copied.healthy.releasePointer_run old (some q)
  obtain ⟨t, back', released'⟩ := served.healthy.releasePointer_run old (some q)
  rw [copied.pointerTo_eq] at back
  rw [served.pointerTo_eq] at back'
  have new' : ⟨q, wanted, true⟩ ∈ (o.layout.release x.offset).lent :=
    (copied.healthy.describes.mem_lent_release old).mpr ⟨new, fun same => hands.offset_ne answer hx (by rw [← same])⟩
  have told := released.tell (.resized (s.pointerTo x.offset) n (s.pointerTo q))
  have moved := Heap.resize_granted positive (h.usableSize_run hx) granted back
  refine ⟨_, t, moved, ⟨wanted - 8, by omega, ?_⟩, ?_, back', ?_⟩
  · have usable := told.healthy.usableSize_run new'
    rwa [told.pointerTo_eq, copied.pointerTo_eq] at usable
  · -- The bytes were at the old block until they were copied, and stay at the new one when the old one is taken back.
    intro i hi
    have kept := (told.becomes copied.healthy).kept _ new new' i (by simp only [headerSize]; omega)
    have same := (served.becomes h).kept x hx old i (by simp only [headerSize]; omega)
    rw [copied.pointerTo_eq] at kept
    rw [← same]
    exact kept.trans (s₁.memory.byte_copyBytes hi)
  · obtain ⟨source, programBreak⟩ := told.source_eq rfl
    obtain ⟨source', programBreak'⟩ := released'.source_eq rfl
    have structural := told.healthy.sameStructure released'.healthy (source.trans source'.symm)
      (programBreak.trans programBreak'.symm)
      ((told.span_eq copied.healthy rfl).trans (released'.span_eq served.healthy rfl).symm)
      (told.tuning.trans released'.tuning.symm)
    exact ⟨structural, source, programBreak⟩

end HeapState

namespace Session

/-- An allocation of `u` usable bytes at `p` was moved to `q`, for `n` bytes. -/
structure Moved (S : Session σ) (p u n q : Nat) (S' : Session σ) : Prop where
  ne : q ≠ p
  live : S'.ledger.live = insert q (S.ledger.live.erase p)
  room : ∃ v, n ≤ v ∧ Heap.usableSize q S'.state = .ok v S'.state
  copied : ∀ i < min u n, S'.state.memory.byte (q + i) = S.state.memory.byte (p + i)
  /-- Allocating and then taking back leads to the same structure, with the same requests to the source. -/
  replayed : ∃ T U calls, S.perform (.request (.allocate n)) = .ok T ∧ T.answers = S.answers ++ [some q] ∧
    T.perform (.request (.release (some p))) = .ok U ∧ S'.state.SameStructure U.state ∧
    Asked S.state.source S.state.programBreak calls T.state.source T.state.programBreak ∧
    Asked S.state.source S.state.programBreak calls S'.state.source S'.state.programBreak

variable {C : Contract σ} {S : Session σ} {p n : Nat}

/-- A live allocation that is resized is moved, or it stays where it is with the bytes in it; what stands behind the other
pointers is as it was. Without a pointer, resizing is allocating, and to no bytes it is taking back. -/
theorem Reachable.resize_moves (h : Reachable C S) (live : p ∈ S.ledger.live) (positive : 0 < n) :
    (∃ S' answer u, S.perform (.request (.resize (some p) n)) = .ok S' ∧ S'.answers = S.answers ++ [answer] ∧ S.Spares S' ∧
      Heap.usableSize p S.state = .ok u S.state ∧
      match answer with
      | some q => S.Moved p u n q S'
      | none => S'.ledger.live = S.ledger.live ∧ Heap.usableSize p S'.state = .ok u S'.state ∧
          ∀ i < u, S'.state.memory.byte (p + i) = S.state.memory.byte (p + i)) ∧
    (∀ m, Heap.resize (σ := σ) none m = Heap.allocate m) ∧
    ∀ p', Heap.resize (σ := σ) (some p') 0 = (do Heap.release (some p'); return none) := by
  refine ⟨?_, fun m => rfl, fun p' => rfl⟩
  obtain ⟨L, sound⟩ := h.sound
  obtain ⟨x, hx, rfl⟩ := (sound.live_iff p).mp live
  have usable := sound.healthy.usableSize_run hx
  obtain ⟨S', done, spares⟩ : ∃ S', S.perform (.request (.resize (some (S.state.pointerTo x.offset)) n)) = .ok S' ∧
      S.Spares S' := by
    obtain ⟨-, o, s', -, done, served, settles⟩ :=
      sound.request_run (r := .resize (some (S.state.pointerTo x.offset)) n) (by rintro _ ⟨⟩; exact live)
    exact ⟨_, done, sound.spares served settles⟩
  obtain ⟨answer, resized, ledger, answers⟩ := perform_eq_ok done
  obtain ⟨grant, s₁, run, served⟩ := sound.healthy.allocate_run n
  obtain ⟨wanted, room, hands⟩ := sound.healthy.describes.allocate_hands S.state.tuning.probeBudget n grant
  generalize L.allocate S.state.tuning.probeBudget grant n = o at run served hands
  refine ⟨S', answer, _, done, answers, spares, usable, ?_⟩
  cases found : o.answer with
  | none =>
    rw [found] at run
    obtain ⟨rfl, rfl⟩ := EStateM.Result.ok.inj ((Heap.resize_refused positive usable run).symm.trans resized)
    have live' : S'.ledger.live = S.ledger.live := by
      ext r
      rw [ledger, Ledger.mem_settle, Request.consumed_resize positive]
      simp
    obtain ⟨v, usable', kept⟩ := spares.kept _ live (live' ▸ live)
    obtain ⟨rfl, -⟩ := EStateM.Result.ok.inj (usable.symm.trans usable')
    exact ⟨live', kept⟩
  | some q =>
    rw [found] at run
    obtain ⟨s₂, t, moved, room, copied, back, structural, source, programBreak⟩ :=
      sound.healthy.move_run hx positive run served hands room found
    obtain ⟨rfl, rfl⟩ := EStateM.Result.ok.inj (moved.symm.trans resized)
    have allocated := perform_of_serve (S := S) (r := .allocate n) run
    have ne : S.state.pointerTo q ≠ S.state.pointerTo x.offset := fun e => (spares.fresh _ answers).1 (e ▸ live)
    refine ⟨ne, ?_, room, copied, _, _, o.asked, allocated, rfl, perform_of_serve (Heap.serve_release back), structural,
      served.asked, ?_⟩
    · ext r
      rw [ledger, Ledger.mem_settle, Request.consumed_resize positive]
      simp [and_comm, eq_comm, or_comm]
    · rw [source, programBreak]
      exact served.asked

/-- A block in which a client wrote something is moved to the front of the heap, where a block was taken back. -/
theorem Reachable.resize_moves_reserve : ∃ S S' : Session Reserve, S.Reachable Reserve.contract ∧ 4176 ∈ S.ledger.live ∧
    S.perform (.request (.resize (some 4176) 10)) = .ok S' ∧ S.Moved 4176 24 10 4144 S' ∧
    S'.state.memory.byte 4148 = 2 := by
  obtain ⟨S, S', reachable, live, done, answers, usable, byte⟩ : ∃ S S' : Session Reserve, S.Reachable Reserve.contract ∧
      4176 ∈ S.ledger.live ∧ S.perform (.request (.resize (some 4176) 10)) = .ok S' ∧
      S'.answers = S.answers ++ [some 4144] ∧ Heap.usableSize 4176 S.state = .ok 24 S.state ∧
      S.state.memory.byte 4180 = 2 := by
    have made : Heap.create { selfCheck := false } (Reserve.site 4104 200 UInt64.ofNat) = .ok _ _ := rfl
    have created : Session.Reachable Reserve.contract _ := .created ⟨by decide, by decide⟩ made
    have first := created.performed (a := .request (.allocate 20)) (by intro _ h; cases h) rfl
    have second := first.performed (a := .request (.allocate 20)) (by intro _ h; cases h) rfl
    have wrote := second.performed (a := .write 4176 3 [1, 2, 3]) ⟨by decide, _, rfl, by decide⟩ rfl
    have third := wrote.performed (a := .request (.release (some 4144))) (by rintro _ ⟨⟩; decide) rfl
    exact ⟨_, _, third, by decide, rfl, rfl, rfl, rfl⟩
  obtain ⟨⟨S'', answer, u, done', answers', -, usable', moved⟩, -⟩ := reachable.resize_moves live (n := 10) (by decide)
  obtain rfl := Except.ok.inj (done.symm.trans done')
  obtain rfl := List.singleton_inj.mp (List.append_cancel_left (answers.symm.trans answers'))
  obtain ⟨rfl, -⟩ := EStateM.Result.ok.inj (usable.symm.trans usable')
  exact ⟨S, S', reachable, live, done, moved, (moved.copied 4 (by decide)).trans byte⟩

end Session

end SegregatedFit
