import SegregatedFit.Proofs.Finding
import SegregatedFit.Proofs.SelfCheck

/-!
# The bounds of the source after a failed growth

A growth that failed leaves the heap as it was, but the source may have moved: bytes that do not begin at the end of the span
count as a failed growth, and the source has handed them out nevertheless. The audit compares the span with the bounds that
the source reports now. So after a request that was answered with nothing, whether the heap passes its audit is up to those
bounds alone (`HeapState.Bounded`). While they fit, the heap goes on to serve what it can serve from what it has
(`HeapState.Suffices`); when they do not, the next audit stops it (`HeapState.Prospects`).
-/

namespace SegregatedFit

variable {σ : Type} [Backing σ]

namespace HeapState

/-- The bounds that the source reports fit the span: the first block, if there is one, stands within them, and they end where
the span does. -/
structure Bounded (s : HeapState σ) : Prop where
  low : s.span.epilogueOffset = 24 ∨ Backing.lowest s.source ≤ s.span.base + 24
  ends : s.span.finish = Backing.highest s.source + 1

variable {s s' : HeapState σ} {L : Layout} {r : Request}

/-- A heap that holds a layout passes its audit exactly when the bounds fit. -/
theorem audit_eq_ok_iff_bounded (h : L.Describes s.store s.span) : s.audit = .ok () ↔ s.Bounded := by
  constructor
  · intro passed
    obtain ⟨M, describes, within, ends⟩ := audit_sound passed
    refine ⟨?_, ends⟩
    have tiled := describes.laid.tiled
    cases blocks : M.blocks with
    | nil =>
      rw [blocks] at tiled
      exact .inl tiled.symm
    | cons b bs =>
      rw [blocks] at tiled
      obtain ⟨first, -⟩ := Tiled.cons_iff.mp tiled
      have := (within b (by simp [blocks])).1
      exact .inr (by omega)
  · rintro ⟨low, ends⟩
    refine h.audit_run ?_ ends
    intro b hb
    have bounds := h.laid.bounds hb
    have finish : s.span.finish = s.span.base + (s.span.epilogueOffset + 8) := rfl
    simp only [headerSize]
    omega

/-- When the source has moved its end on behind the span, the audit finds the epilogue in the wrong place. -/
theorem audit_of_moved (h : L.Describes s.store s.span) (low : Backing.lowest s.source ≤ s.span.base + 24)
    (moved : s.span.finish ≤ Backing.highest s.source) (fits : Backing.highest s.source + 1 < 0x1_0000_0000_0000_0000) :
    s.audit = .error (.violation (.damagedEpilogue s.span.epilogue (Backing.highest s.source + 1))) := by
  obtain ⟨segment, last⟩ := Segment.append_iff.mp h.laid.segment
  have passed : Audit.Passed s.memory s.span (Backing.lowest s.source) (Backing.highest s.source) 24 true L.blocks
      s.span.epilogueOffset := by
    refine ⟨h.laid.tiled, segment, h.coalesced, fun _ _ => .inl rfl, ?_, le_rfl⟩
    intro b hb
    have bounds := h.laid.bounds hb
    have finish : s.span.finish = s.span.base + (s.span.epilogueOffset + 8) := rfl
    simp only [headerSize]
    omega
  have stops : Audit.inspectEpilogue s.memory s.span (Backing.highest s.source) (lastState true L.blocks) =
      .error (.violation (.damagedEpilogue s.span.epilogue (Backing.highest s.source + 1))) := by
    unfold Audit.inspectEpilogue
    rw [if_neg (by omega), if_pos (.inr (.inr (by omega)))]
  refine auditIn_eq_error_iff_walks.mpr ?_
  rw [if_pos h.laid.prologue]
  refine .inl ((Audit.walk_eq_error_iff rfl s.span.first_le fits).mpr ⟨L.blocks, s.span.epilogueOffset, passed, ?_⟩)
  rw [Audit.Halts, if_pos rfl]
  exact stops

/-! ## Serving without the source -/

/-- The heap can serve the request without its source: it is given back a block that is lent, or a free block that it has
serves the allocation. -/
def Suffices (s : HeapState σ) : Request → Prop
  | .release (some pointer) => ∃ L : Layout, L.Describes s.store s.span ∧ ∃ x ∈ L.lent, s.pointerTo x.offset = pointer
  | .allocate size => ∃ wanted b, blockSizeFor size = some wanted ∧
      FreeList.bestFit s.store s.span wanted s.tuning.probeBudget = .ok (some b)
  | _ => False

/-- The heap can serve each of the requests without its source when its turn comes. -/
def SufficesFor (s : HeapState σ) : List Request → Prop
  | [] => True
  | r :: rs => s.Suffices r ∧ ∀ answer t, Heap.serve r s = .ok answer t → t.SufficesFor rs

/-- Such a request is served in the memory, and then the heap is audited if its tuning says so. -/
theorem Suffices.serve_eq (enough : s.Suffices r) (h : L.Describes s.store s.span) :
    ∃ (answer : Option Nat) (M : Layout) (t : HeapState σ), M.Describes t.store t.span ∧ t.source = s.source ∧
      t.span = s.span ∧ t.tuning = s.tuning ∧ Heap.serve r s = (do Heap.selfCheck; return answer) t := by
  cases r with
  | release pointer =>
    cases pointer with
    | none => exact enough.elim
    | some pointer =>
      obtain ⟨M, describes, x, hx, rfl⟩ := enough
      obtain ⟨t, records, done, -, run⟩ := releasePointer_eq describes hx
      refine ⟨none, M.release x.offset,
        { s with toSite := { s.toSite with memory := t.memory, records }, heads := t.heads }, done, rfl, rfl, rfl, ?_⟩
      simp only [Heap.serve, Heap.release, Operation.bind_apply, run]
  | allocate size =>
    obtain ⟨wanted, b, fits, found⟩ := enough
    obtain ⟨aligned, large, -⟩ := blockSizeFor_bounds fits
    have search := h.bestFit_run wanted s.tuning.probeBudget
    rw [found] at search
    obtain ⟨o, best, rfl⟩ := Option.map_eq_some_iff.mp (Except.ok.inj search).symm
    obtain ⟨x, hx, free, rfl, room⟩ := h.bestFit_fits best
    obtain ⟨before, after, split⟩ := List.append_of_mem hx
    obtain ⟨carved, done, -⟩ := h.carve_run split free aligned large (by omega)
    generalize Focus.carved ⟨before, x, after, L.lists.drop x⟩ wanted s.store s.span.base = t at carved done
    have run := HeapM.onStore_run (s := s) (x := fun span => StoreM.carve span (s.span.base + x.offset) wanted) carved
    have read := HeapM.onStore_read (s := { s with memory := t.memory, heads := t.heads })
      (x := fun _ => StoreM.tag (s.span.base + x.offset)) (StoreM.tag_apply _ _)
    refine ⟨some (payloadOf (s.span.base + x.offset)), _,
      { s with toSite := { s.toSite with memory := t.memory, records := s.records ++ [.allocated size
        (payloadOf (s.span.base + x.offset)) (t.memory.tag (s.span.base + x.offset)).size] }, heads := t.heads },
      done, rfl, rfl, rfl, ?_⟩
    simp only [Heap.serve, Heap.allocate, fits, Heap.obtain, Operation.bind_apply, Operation.get_apply, found,
      Operation.lift_ok, Operation.pure_apply, run, read, HeapM.tell_apply]
    rfl
  | allocateZeroed count size => exact enough.elim
  | resize pointer size => exact enough.elim

/-- While the bounds fit, the heap serves what it can serve without its source, and still holds a layout then. -/
theorem Suffices.serve_run (enough : s.Suffices r) (h : L.Describes s.store s.span) (fits : s.Bounded) :
    ∃ answer t, Heap.serve r s = .ok answer t ∧ t.Bounded ∧ ∃ M : Layout, M.Describes t.store t.span := by
  obtain ⟨answer, M, t, describes, source, span, -, run⟩ := enough.serve_eq h
  have fits' : t.Bounded := ⟨by rw [source, span]; exact fits.low, by rw [source, span]; exact fits.ends⟩
  refine ⟨answer, t, ?_, fits', M, describes⟩
  rw [run, Operation.bind_apply, selfCheck_of_audit ((audit_eq_ok_iff_bounded describes).mpr fits')]
  rfl

/-- While the bounds fit, the heap goes on to serve what it can serve without its source, and passes its audit. -/
theorem SufficesFor.serve_run {rs : List Request} (enough : s.SufficesFor rs) (h : L.Describes s.store s.span)
    (fits : s.Bounded) : ∃ answers t, rs.mapM Heap.serve s = .ok answers t ∧ t.audit = .ok () := by
  induction rs generalizing s L with
  | nil => exact ⟨[], s, rfl, (audit_eq_ok_iff_bounded h).mpr fits⟩
  | cons r rs ih =>
    obtain ⟨now, later⟩ := enough
    obtain ⟨answer, t, run, fits', M, describes⟩ := now.serve_run h fits
    obtain ⟨answers, u, rest, passed⟩ := ih (later answer t run) describes fits'
    refine ⟨answer :: answers, u, ?_, passed⟩
    rw [List.mapM_cons, Operation.bind_apply, run]
    simp only [Operation.bind_apply, rest, Operation.pure_apply]

/-- When the bounds do not fit, the audit after the next request that the heap can serve without its source stops it. -/
theorem Suffices.serve_halts (enough : s.Suffices r) (h : L.Describes s.store s.span) (misfit : ¬ s.Bounded)
    (on : s.tuning.selfCheck = true) : ∃ f t, Heap.serve r s = .error f t := by
  obtain ⟨answer, M, t, describes, source, span, tuning, run⟩ := enough.serve_eq h
  cases checked : Heap.selfCheck t with
  | error f u => exact ⟨f, u, by rw [run, Operation.bind_apply, checked]⟩
  | ok v u =>
    obtain ⟨-, passed⟩ := Heap.selfCheck_eq_ok checked
    obtain ⟨low, ends⟩ := (audit_eq_ok_iff_bounded describes).mp (passed (tuning ▸ on))
    rw [source, span] at low ends
    exact absurd ⟨low, ends⟩ misfit

/-- What a heap that holds a layout has to expect, given the bounds that its source reports. -/
structure Prospects (s : HeapState σ) : Prop where
  /-- It passes its audit exactly when they fit. -/
  audit_iff : s.audit = .ok () ↔ s.Bounded
  /-- While they fit, it goes on to serve what it can serve without its source, and passes its audit. -/
  serves : s.Bounded → ∀ rs, s.SufficesFor rs → ∃ answers t, rs.mapM Heap.serve s = .ok answers t ∧ t.audit = .ok ()
  /-- When they do not fit, the audit after the next such request stops it. -/
  halts : ¬ s.Bounded → s.tuning.selfCheck = true → ∀ r, s.Suffices r → ∃ f t, Heap.serve r s = .error f t
  /-- When only their end has moved on, the epilogue is found in the wrong place. -/
  moved : Backing.lowest s.source ≤ s.span.base + 24 → s.span.finish ≤ Backing.highest s.source →
    Backing.highest s.source + 1 < 0x1_0000_0000_0000_0000 →
    s.audit = .error (.violation (.damagedEpilogue s.span.epilogue (Backing.highest s.source + 1)))

theorem prospects (h : L.Describes s.store s.span) : s.Prospects where
  audit_iff := audit_eq_ok_iff_bounded h
  serves fits _ enough := enough.serve_run h fits
  halts misfit on _ enough := enough.serve_halts h misfit on
  moved := audit_of_moved h

/-- A heap that passes its audit and answers a request for memory with nothing is as it was, whatever its source did. If the
source still reports the same bounds, the heap passes its audit as before; in any case the bounds alone decide. -/
theorem prospects_of_unanswered (passed : s.audit = .ok ()) (asks : r.Asks) (unanswered : Heap.serve r s = .ok none s') :
    s.Untouched s' ∧ s'.Prospects ∧
      (Backing.lowest s'.source = Backing.lowest s.source → Backing.highest s'.source = Backing.highest s.source →
        s'.audit = .ok ()) := by
  have same := Heap.serve_cautious asks _ _ unanswered
  obtain ⟨L, describes, -⟩ := audit_sound passed
  have described : L.Describes s'.store s'.span := by rwa [same.store, same.span]
  refine ⟨same, prospects described, fun lowest highest => ?_⟩
  obtain ⟨low, ends⟩ := (audit_eq_ok_iff_bounded describes).mp passed
  refine (audit_eq_ok_iff_bounded described).mpr ⟨?_, ?_⟩
  · rwa [same.span, lowest]
  · rwa [same.span, highest]

/-- A reservation that has no room for an allocation: the heap passes its audit then, takes back a block that is lent, and
hands it out again. -/
theorem prospects_reserve : ∃ (S : Session Reserve) (s' : HeapState Reserve), S.answers = [some 4144, some 4176] ∧
    Heap.serve (.allocate 5000) S.state = .ok none s' ∧ S.state.Untouched s' ∧ s'.audit = .ok () ∧
    ∃ answers t, [Request.release (some 4144), .allocate 20].mapM Heap.serve s' = .ok answers t ∧ t.audit = .ok () := by
  obtain ⟨S, s', t, reachable, answers, live, refused, lowest, highest, lowest', highest', released, size, found⟩ :
      ∃ (S : Session Reserve) (s' t : HeapState Reserve), S.Reachable Reserve.contract ∧
        S.answers = [some 4144, some 4176] ∧ S.ledger.live = {4144, 4176} ∧
        Heap.serve (.allocate 5000) S.state = .ok none s' ∧
        Backing.lowest S.state.source = 4104 ∧ Backing.highest S.state.source = 4207 ∧
        Backing.lowest s'.source = 4104 ∧ Backing.highest s'.source = 4207 ∧
        Heap.serve (.release (some 4144)) s' = .ok none t ∧ blockSizeFor 20 = some 32 ∧
        FreeList.bestFit t.store t.span 32 t.tuning.probeBudget = .ok (some 4136) := by
    have made : Heap.create { probeBudget := 2, selfCheck := false } (Reserve.site 4104 200 UInt64.ofNat) = .ok _ _ := rfl
    have created : Session.Reachable Reserve.contract _ := .created ⟨by decide, by decide⟩ made
    have first := created.performed (a := .request (.allocate 20)) (by intro _ h; cases h) rfl
    have second := first.performed (a := .request (.allocate 20)) (by intro _ h; cases h) rfl
    exact ⟨_, _, _, second, rfl, by decide, rfl, rfl, rfl, rfl, rfl, rfl, rfl, rfl⟩
  obtain ⟨L, sound⟩ := reachable.sound
  obtain ⟨same, prospects, unmoved⟩ :=
    prospects_of_unanswered (r := .allocate 5000) sound.healthy.audit_run trivial refused
  have passed := unmoved (lowest'.trans lowest.symm) (highest'.trans highest.symm)
  obtain ⟨x, hx, place⟩ := (sound.live_iff 4144).mp (by rw [live]; decide)
  have place' : s'.pointerTo x.offset = 4144 := by rw [pointerTo, same.span]; exact place
  have describes : L.Describes s'.store s'.span := by rw [same.store, same.span]; exact sound.healthy.describes
  refine ⟨S, s', answers, refused, same, passed, prospects.serves (prospects.audit_iff.mp passed) _ ⟨?_, ?_⟩⟩
  · exact ⟨L, describes, x, hx, place'⟩
  · intro answer u run
    cases released.symm.trans run
    exact ⟨⟨32, 4136, size, found⟩, fun _ _ _ => trivial⟩

/-- An arena that leaves a gap in front of the first block: the allocation is answered with nothing, and the heap, which passed
its audit before, does not pass it any more. -/
theorem audit_lost_by_gap : ¬ ∀ (tuning : Tuning) (site site' : Site Scripted) (heap : Heap Scripted) (r : Request)
    (s' : HeapState Scripted), Heap.create tuning site = .ok heap site' → (heap.at site').audit = .ok () → r.Asks →
    Heap.serve r (heap.at site') = .ok none s' → s'.audit = .ok () := by
  intro always
  obtain ⟨heap, site, s', made, refused, fits, low, moved, room⟩ :
      ∃ (heap : Heap Scripted) (site : Site Scripted) (s' : HeapState Scripted),
        Heap.create {} (Scripted.site 4096 4096 { gap := fun i => if i = 2 then 16 else 0 } UInt64.ofNat) = .ok heap site ∧
        Heap.serve (.allocate 40) (heap.at site) = .ok none s' ∧ (heap.at site).Bounded ∧
        Backing.lowest s'.source ≤ s'.span.base + 24 ∧ s'.span.finish ≤ Backing.highest s'.source ∧
        Backing.highest s'.source + 1 < 0x1_0000_0000_0000_0000 :=
    ⟨_, _, _, rfl, rfl, ⟨.inl rfl, rfl⟩, by decide, by decide, by decide⟩
  have asks : (Request.allocate 40).Asks := trivial
  have describes := Heap.create_describes made
  have same := Heap.serve_cautious asks _ _ refused
  have lost := audit_of_moved (L := .empty) (by rwa [same.store, same.span]) low moved room
  rw [always _ _ _ _ _ _ made ((audit_eq_ok_iff_bounded describes).mpr fits) asks refused] at lost
  cases lost

end HeapState

end SegregatedFit
