import SegregatedFit.Proofs.Session

/-!
# Clients are not disturbed

The blocks of the pointers that a client has lie between the prologue and the epilogue and do not overlap, so what the client
writes behind one pointer is read back until that pointer is taken back (`Session.Isolated`). No request changes a byte
behind a pointer that the client has before and after it, and no pointer is answered that the client has already
(`Session.Spares`).
-/

namespace SegregatedFit

variable {σ : Type} [Backing σ]

namespace Session

/-- What a client relies on: its pointers are aligned, their blocks lie between the prologue and the epilogue and do not
overlap, and the bytes that it wrote are where it wrote them. -/
structure Isolated (S : Session σ) : Prop where
  placed : ∀ p ∈ S.ledger.live, p % alignment = 0 ∧ ∃ n, Heap.usableSize p S.state = .ok n S.state ∧
    S.state.span.prologue + prologueSize ≤ p - headerSize ∧ p + n ≤ S.state.span.epilogue
  disjoint : ∀ p ∈ S.ledger.live, ∀ q ∈ S.ledger.live, p ≠ q → ∀ n m, Heap.usableSize p S.state = .ok n S.state →
    Heap.usableSize q S.state = .ok m S.state → p + n ≤ q - headerSize ∨ q + m ≤ p - headerSize
  written : ∀ p ∈ S.ledger.live, ∀ i v, S.ledger.written p i = some v → S.state.memory.byte (p + i) = v

/-- What a request that leads from one session to another spares: the pointer answered is a new one, and what stands behind
the pointers that the client has before and after is as it was. -/
structure Spares (S S' : Session σ) : Prop where
  fresh : ∀ p, S'.answers = S.answers ++ [some p] → p ∉ S.ledger.live ∧ p ∈ S'.ledger.live
  kept : ∀ q ∈ S.ledger.live, q ∈ S'.ledger.live → ∃ n, Heap.usableSize q S.state = .ok n S.state ∧
    Heap.usableSize q S'.state = .ok n S'.state ∧ ∀ i < n, S'.state.memory.byte (q + i) = S.state.memory.byte (q + i)

variable {C : Contract σ} {S : Session σ} {L : Layout} {r : Request}

theorem Sound.isolated (h : S.Sound C L) : S.Isolated where
  placed p hp := by
    obtain ⟨x, hx, rfl⟩ := (h.live_iff p).mp hp
    have bounds := h.healthy.describes.laid.bounds (Layout.mem_lent.mp hx).1
    have aligned := S.state.span.base_aligned
    refine ⟨?_, _, h.healthy.usableSize_run hx, ?_, ?_⟩
    all_goals
      simp only [HeapState.pointerTo, payloadOf, headerSize, alignment, Span.prologue, prologueOffset, prologueSize,
        Span.epilogue]
      omega
  disjoint p hp q hq ne n m usable usable' := by
    obtain ⟨x, hx, rfl⟩ := (h.live_iff p).mp hp
    obtain ⟨y, hy, rfl⟩ := (h.live_iff q).mp hq
    rw [h.healthy.usableSize_run hx] at usable
    rw [h.healthy.usableSize_run hy] at usable'
    cases usable
    cases usable'
    have mem := (Layout.mem_lent.mp hx).1
    have mem' := (Layout.mem_lent.mp hy).1
    have bounds := h.healthy.describes.laid.bounds mem
    have bounds' := h.healthy.describes.laid.bounds mem'
    have apart := h.healthy.describes.laid.tiled.apart mem mem' fun e => ne (by rw [e])
    simp only [HeapState.pointerTo, payloadOf, headerSize]
    omega
  written p hp i v wrote := by
    obtain ⟨x, hx, rfl⟩ := (h.live_iff p).mp hp
    exact (h.written x hx i v wrote).2

/-- A request spares what its outcome on the layout keeps. -/
theorem Sound.spares (h : S.Sound C L) {o : Outcome} {s' : HeapState σ} (served : S.state.Served C L o s')
    (settles : o.Settles L S.state.span.base r) :
    S.Spares ⟨s', S.ledger.settle r (o.answer.map S.state.pointerTo), S.answers ++ [o.answer.map S.state.pointerTo]⟩ where
  fresh p answers := by
    obtain ⟨q, answer, rfl⟩ := Option.map_eq_some_iff.mp (List.singleton_inj.mp (List.append_cancel_left answers))
    refine ⟨?_, Ledger.mem_settle.mpr (.inr (by rw [answer]; rfl))⟩
    intro live
    obtain ⟨x, hx, same⟩ := (h.live_iff _).mp live
    simp only [HeapState.pointerTo, payloadOf] at same
    exact settles.offset_ne h.healthy.describes q answer x hx (by omega)
  kept q before after := by
    obtain ⟨x, hx, rfl⟩ := (h.live_iff q).mp before
    have sound := h.settled served settles
    obtain ⟨y, hy, same⟩ := (sound.live_iff _).mp after
    rw [served.pointerTo_eq] at same
    -- The block lent afterwards is the one lent before, since a block that is answered stands elsewhere.
    obtain rfl : y = x := by
      have new := settles.offset_ne h.healthy.describes
      obtain ⟨wanted, -, -, lent⟩ := settles
      rcases (lent y).mp hy with ⟨old, -⟩ | ⟨p, answer, rfl⟩
      · exact (h.healthy.describes.payload_inj old hx).mp same
      · simp only [HeapState.pointerTo, payloadOf] at same
        exact absurd (by omega) (new p answer x hx)
    have usable := sound.healthy.usableSize_run hy
    rw [served.pointerTo_eq] at usable
    exact ⟨_, h.healthy.usableSize_run hx, usable, fun i hi => h.byte_eq served hx hy (by omega)⟩

/-- After any run the blocks of a client are where they should be and what it wrote is there, and whatever request it makes
next, what stands behind the pointers that it keeps stays as it is. -/
theorem Reachable.isolated_and_spares (h : Reachable C S) :
    S.Isolated ∧ ∀ r, S.Allows (.request r) → ∃ S', S.perform (.request r) = .ok S' ∧ S.Spares S' := by
  obtain ⟨L, sound⟩ := h.sound
  refine ⟨sound.isolated, ?_⟩
  intro r allowed
  obtain ⟨-, o, s', -, run, served, settles⟩ := sound.request_run allowed
  exact ⟨_, run, sound.spares served settles⟩

theorem Reachable.isolated_reserve : ∃ S : Session Reserve, S.Reachable Reserve.contract ∧ S.Isolated ∧
    S.state.memory.byte 4180 = 2 ∧ ∃ S', S.perform (.request (.release (some 4208))) = .ok S' ∧ S.Spares S' := by
  obtain ⟨S, reachable, -, live, wrote⟩ := Reachable.of_reserve
  obtain ⟨isolated, spares⟩ := reachable.isolated_and_spares
  refine ⟨S, reachable, isolated, isolated.written 4176 (by rw [live]; decide) 4 2 wrote, spares _ ?_⟩
  intro p hp
  obtain rfl := Option.some.inj hp
  rw [live]
  decide

end Session

end SegregatedFit
