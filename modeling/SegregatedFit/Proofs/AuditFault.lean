import SegregatedFit.Proofs.Finding
import SegregatedFit.Proofs.Session

/-!
# Damage that the audit does not survive

The audit is to report damage and not to fall victim to it, but two of its steps fault on what they read. The end of a block
is computed before its size is judged, so a size that leads out of the address space is never reported (`Audit.Overlong`). A
link is turned into the address of a block before the address is tested, so a link to no place of a block is never reported
either. On every other memory the audit passes or names a violation (`audit_eq_fault_iff`).

An audit that answers may have read outside of the span. The link onwards of a member is read before any test of the member,
and when a link leads to the epilogue, or to the word below it, that word lies behind the span. It has no part in the answer,
since no such place is accepted as a member (`Audit.Accepted.links_within`).
-/

namespace SegregatedFit

namespace Audit

variable {m : Memory} {span : Span} {low high start a back freeCount : Nat} {state : Bool} {c : Fin classCount}
  {listed : List Nat} {f : Fault}

theorem guard_eq_error_iff {α : Type} {c : Prop} [Decidable c] {f e : Finding} {x : Except Finding α} :
    (if c then .error f else x) = .error e ↔ c ∧ f = e ∨ ¬ c ∧ x = .error e := by
  by_cases h : c <;> simp [h]

/-- The header at an offset lies within the bounds of the source, and its size leads out of the address space. -/
structure Overlong (m : Memory) (span : Span) (low high offset : Nat) : Prop where
  inside : offset < span.epilogueOffset
  low_le : low ≤ span.base + offset
  high_le : span.base + offset + headerSize ≤ high + 1
  size : 0x1_0000_0000_0000_0000 ≤ span.base + offset + (m.tag (span.base + offset)).size

/-- The inspection of a block faults at such a header only. -/
theorem inspectBlock_eq_fault_iff (aligned : start % 16 = 8) (inside : start < span.epilogueOffset)
    (fits : high + 1 < 0x1_0000_0000_0000_0000) :
    inspectBlock m span low high (span.base + start) state = .error (.fault f) ↔
      f = .addOverflow ∧ Overlong m span low high start := by
  have baseAligned := span.base_aligned
  have epilogueAligned := span.epilogueOffset_aligned
  have spanFits := span.finish_lt
  have sizeAligned := m.tag_aligned (span.base + start)
  unfold inspectBlock
  extract_lets tag footer
  simp only [guard_eq_error_iff, reduceCtorEq, and_false, false_or, Finding.fault.injEq]
  simp only [headerSize, minBlockSize, alignment, payloadOf, Span.epilogue]
  constructor
  · rintro ⟨low_le, ⟨wraps, -⟩ | ⟨-, high_le, -, size, ⟨long, rfl⟩ | ⟨-, -, -, rest⟩⟩⟩
    · omega
    · exact ⟨rfl, inside, by omega, by simp only [headerSize]; omega, long⟩
    · split at rest
      · cases rest
      split at rest
      · cases rest
      split at rest <;> cases rest
  · rintro ⟨rfl, -, low_le, high_le, size⟩
    simp only [headerSize] at high_le
    refine ⟨by omega, .inr ⟨by omega, by omega, by omega, ?_, .inl ⟨size, rfl⟩⟩⟩
    simp only [tag]
    omega

/-- The inspection of the epilogue does not fault. -/
theorem inspectEpilogue_ne_fault (fits : high + 1 < 0x1_0000_0000_0000_0000) :
    inspectEpilogue m span high state ≠ .error (.fault f) := by
  unfold inspectEpilogue
  simp only [ne_eq, guard_eq_error_iff]
  rintro (⟨wraps, -⟩ | ⟨-, ⟨-, e⟩ | ⟨-, ⟨-, e⟩ | ⟨-, e⟩⟩⟩)
  · omega
  all_goals cases e

/-- The inspection of a member of a list does not fault. -/
theorem inspectMember_ne_fault : inspectMember m span freeCount c listed back a ≠ .error (.fault f) := by
  unfold inspectMember
  simp only [ne_eq, guard_eq_error_iff, reduceCtorEq, and_false, or_false, not_false_eq_true]

/-- The walk through a list faults at links to places where no block can be. -/
theorem listHalts_fault_iff {ahead : Nat} : ListHalts m span freeCount c listed back ahead (.error (.fault f)) ↔
    ahead ≠ 0 ∧ span.blockAt ahead = .error f := by
  by_cases atEnd : ahead = 0
  · simp [ListHalts, atEnd]
  rw [ListHalts, if_neg atEnd]
  constructor
  · rintro ⟨_, ⟨⟩, ⟨f', stray, ⟨⟩⟩ | ⟨a, -, stops⟩⟩
    · exact ⟨atEnd, stray⟩
    · exact absurd stops inspectMember_ne_fault
  · rintro ⟨-, stray⟩
    exact ⟨_, rfl, .inl ⟨f, stray, rfl⟩⟩

/-- The walk from block to block faults at headers whose size leads out of the address space. -/
theorem walk_eq_fault_iff (aligned : start % 16 = 8) (le : start ≤ span.epilogueOffset)
    (fits : high + 1 < 0x1_0000_0000_0000_0000) :
    walk m span low high (span.base + start) state = .error (.fault f) ↔
      f = .addOverflow ∧ ∃ bs offset, Passed m span low high start state bs offset ∧ Overlong m span low high offset := by
  rw [walk_eq_error_iff aligned le fits]
  constructor
  · rintro ⟨bs, finish, passed, halts⟩
    by_cases atEnd : finish = span.epilogueOffset
    · rw [Halts, if_pos atEnd] at halts
      exact absurd halts (inspectEpilogue_ne_fault fits)
    · rw [Halts, if_neg atEnd] at halts
      obtain ⟨_, ⟨⟩, stops⟩ := halts
      have inside := Nat.lt_of_le_of_ne passed.below atEnd
      obtain ⟨rfl, long⟩ := (inspectBlock_eq_fault_iff (passed.tiled.aligned.trans aligned) inside fits).mp stops
      exact ⟨rfl, bs, finish, passed, long⟩
  · rintro ⟨rfl, bs, finish, passed, long⟩
    refine ⟨bs, finish, passed, ?_⟩
    rw [Halts, if_neg (Nat.ne_of_lt long.inside)]
    exact ⟨_, rfl, (inspectBlock_eq_fault_iff (passed.tiled.aligned.trans aligned) long.inside fits).mpr ⟨rfl, long⟩⟩

/-- The links of a member that is accepted lie within the span when the epilogue is lent, so nothing that was read behind the
span is used. -/
theorem Accepted.links_within {os : List Nat} {ahead o : Nat} (accepted : Accepted m span freeCount c listed 0 os ahead)
    (ho : o ∈ os) (lent : (m.tag span.epilogue).allocated = true) : span.base + o + 24 ≤ span.finish := by
  obtain ⟨place, free, -⟩ := accepted.members o ho
  have aligned := span.epilogueOffset_aligned
  by_contra outside
  obtain rfl | below : o = span.epilogueOffset ∨ o + 8 = span.epilogueOffset := by
    simp only [Span.finish, Span.length, headerSize] at outside
    omega
  · rw [Span.epilogue, free] at lent
    cases lent
  · -- The link back is the word of the epilogue, which is odd, and offsets of members are even.
    obtain ⟨before, after, rfl⟩ := List.append_of_mem ho
    obtain ⟨-, back, -⟩ := Linked.append_iff.mp accepted.linked
    have even : before.getLastD 0 % 8 = 0 := by
      rcases List.eq_nil_or_concat before with rfl | ⟨xs, x, rfl⟩
      · rfl
      · rw [List.concat_eq_append, List.getLastD_concat]
        exact (accepted.members x (by simp)).place.2.2
    have epilogue : span.base + o + Link.previous.position = span.epilogue := by
      simp only [Link.position, Span.epilogue]
      omega
    rw [Memory.link, epilogue] at back
    have odd : (m.word span.epilogue).toNat % 2 = 1 := by simpa [Memory.tag, Tag.decode] using lent
    omega

end Audit

open Audit

variable {s : Store} {span : Span} {low high : Nat} {f : Fault}

/-- The audit faults exactly when the walk comes to a header whose size leads out of the address space, or when all blocks
pass and the walk through the lists comes to a link to a place where no block can be. -/
theorem audit_eq_fault_iff (fits : high + 1 < 0x1_0000_0000_0000_0000) : audit s span low high = .error (.fault f) ↔
    s.memory.tag span.prologue = { size := prologueSize, allocated := true, predecessorAllocated := true } ∧
      ((f = .addOverflow ∧ ∃ bs offset, Passed s.memory span low high 24 true bs offset ∧
          Overlong s.memory span low high offset) ∨
        ∃ bs ls c os ahead, Passable s.memory span low high 24 true bs ∧
          Comes s span (freeAddresses span.base bs).length ls c os ahead ∧ ahead ≠ 0 ∧ span.blockAt ahead = .error f) := by
  rw [audit, auditIn_eq_error_iff_walks]
  by_cases prologue :
      s.memory.tag span.prologue = { size := prologueSize, allocated := true, predecessorAllocated := true }
  swap
  · rw [if_neg prologue]
    simp only [reduceCtorEq, false_iff]
    exact fun h => prologue h.1
  rw [if_pos prologue, walk_eq_fault_iff rfl span.first_le fits]
  refine (or_congr_right ?_).trans (and_iff_right prologue).symm
  constructor
  · rintro ⟨free, walked, stops | ⟨-, -, -, -, ⟨⟩⟩⟩
    obtain ⟨bs, row, rfl⟩ := (walk_eq_ok_iff rfl span.first_le).mp walked
    obtain ⟨ls, c, os, ahead, comes, halts⟩ := walkLists_eq_error_iff.mp stops
    exact ⟨bs, ls, c, os, ahead, row, comes, listHalts_fault_iff.mp halts⟩
  · rintro ⟨bs, ls, c, os, ahead, row, comes, stray⟩
    refine ⟨_, (walk_eq_ok_iff rfl span.first_le).mpr ⟨bs, row, rfl⟩, .inl (walkLists_eq_error_iff.mpr ?_)⟩
    exact ⟨ls, c, os, ahead, comes, listHalts_fault_iff.mpr stray⟩

/-- A client may write over the size of its own block, so that it leads out of the address space. -/
theorem Session.Reachable.overwritten : ∃ (S : Session Reserve) (m : Memory), S.Reachable Reserve.contract ∧
    Backing.highest S.state.source + 1 < 0x1_0000_0000_0000_0000 ∧
    m.tag S.state.span.prologue = { size := prologueSize, allocated := true, predecessorAllocated := true } ∧
    Overlong m S.state.span (Backing.lowest S.state.source) (Backing.highest S.state.source) 24 := by
  have made : Heap.create { selfCheck := false } (Reserve.site 4104 200 UInt64.ofNat) = .ok _ _ := rfl
  have created : Session.Reachable Reserve.contract _ := .created ⟨by decide, by decide⟩ made
  have first := created.performed (a := .request (.allocate 40)) (by intro _ h; cases h) rfl
  obtain ⟨S, reachable, base, ends, low, high, prologue⟩ : ∃ S : Session Reserve, S.Reachable Reserve.contract ∧
      S.state.span.base = 4112 ∧ S.state.span.epilogueOffset = 72 ∧ Backing.lowest S.state.source = 4104 ∧
      Backing.highest S.state.source = 4191 ∧ S.state.memory.tag 4120 = ⟨16, true, true⟩ :=
    ⟨_, first, rfl, rfl, rfl, rfl, rfl⟩
  refine ⟨S, S.state.memory.setWord 4136 0xffff_ffff_ffff_fff3, reachable, by omega, ?_, by omega, by omega, ?_, ?_⟩
  · rw [Span.prologue, base, Memory.tag, Memory.word_setWord_of_ne _ _ (by decide)]
    exact prologue
  · rw [base, high]
    decide
  · rw [base, Memory.tag, Memory.word_setWord_self]
    decide

/-- A block whose size was written over makes the audit fault. -/
theorem audit_fault_reserve : ∃ (S : Session Reserve) (m : Memory), S.Reachable Reserve.contract ∧
    { S.state with memory := m }.audit = .error (.fault .addOverflow) := by
  obtain ⟨S, m, reachable, fits, prologue, long⟩ := Session.Reachable.overwritten
  exact ⟨S, m, reachable, (audit_eq_fault_iff fits).mpr ⟨prologue, .inl ⟨rfl, [], 24, .nil S.state.span.first_le, long⟩⟩⟩

/-- There are damaged heaps that the audit neither passes nor names a violation of. -/
theorem audit_unanswered : ¬ ∀ (S : Session Reserve) (m : Memory), S.Reachable Reserve.contract →
    Backing.highest S.state.source + 1 < 0x1_0000_0000_0000_0000 →
    { S.state with memory := m }.audit = .ok () ∨ ∃ v, { S.state with memory := m }.audit = .error (.violation v) := by
  intro always
  obtain ⟨S, m, reachable, fits, prologue, long⟩ := Session.Reachable.overwritten
  have faulted : audit { memory := m, heads := S.state.heads } S.state.span (Backing.lowest S.state.source)
      (Backing.highest S.state.source) = .error (.fault .addOverflow) := by
    rw [audit, auditIn_eq_error_iff_walks, if_pos prologue]
    exact .inl ((walk_eq_fault_iff rfl S.state.span.first_le fits).mpr ⟨rfl, [], 24, .nil S.state.span.first_le, long⟩)
  rcases always S m reachable fits with passed | ⟨v, found⟩
  · cases faulted.symm.trans passed
  · cases faulted.symm.trans found

end SegregatedFit
