import SegregatedFit.Proofs.AuditFault

/-!
# What a violation says

An audit that reports a violation has come to the header that the violation names and found the law broken there that it names.
`Diagnosed` says so for every violation: what it tells of a size, a footer or a flag is stored there, and everything that the
audit has met before is in order. A violation of a block is reported behind a row of blocks that pass, a violation of a list
behind members that pass and after a walk that met no broken block, and a free block is reported missing when all lists are
complete. Nothing is assumed of the memory, the heads or the bounds.

The walks go in the order of the addresses and along the lists, and whatever they report is the first broken law on their way.
A missing block is looked for in a set that is searched in any order. With several missing blocks the search decides which of
them is reported, and it need not be the first in the order of the walk (`unlisted_not_first`). No other report depends on it.
-/

namespace SegregatedFit

namespace Audit

variable {m : Memory} {span : Span} {low high start freeCount o : Nat} {state : Bool} {c : Fin classCount}
  {ls : Lists} {os : List Nat} {v : Violation}

/-! ## One inspection -/

/-- The header at `a` lies within the bounds of the source, and its size is one that a block there can have. -/
structure Fitting (m : Memory) (span : Span) (low high a : Nat) : Prop where
  low_le : low ≤ a
  high_le : a + headerSize ≤ high + 1
  large : minBlockSize ≤ (m.tag a).size
  below : a + (m.tag a).size ≤ span.epilogue

/-- The header at `a`, which stands behind a block of the state given, breaks the law that a violation names. -/
inductive BlockBreaks (m : Memory) (span : Span) (low high a : Nat) (state : Bool) : Violation → Prop where
  | outOfBounds (outside : a < low ∨ high + 1 < a + headerSize) : BlockBreaks m span low high a state (.outOfBounds a low high)
  | badSize {size : Nat} (low_le : low ≤ a) (high_le : a + headerSize ≤ high + 1) (stored : (m.tag a).size = size)
      (wrong : size < minBlockSize ∨ span.epilogue < a + size) : BlockBreaks m span low high a state (.badSize a size)
  | stalePredecessorFlag {flag : Bool} (fitting : Fitting m span low high a)
      (stored : (m.tag a).predecessorAllocated = flag) (stale : flag ≠ state) :
      BlockBreaks m span low high a state (.stalePredecessorFlag a flag)
  | uncoalesced {size : Nat} (fitting : Fitting m span low high a) (stored : m.tag a = ⟨size, false, false⟩)
      (touches : state = false) : BlockBreaks m span low high a state (.uncoalesced a)
  | footerMismatch {size footer : Nat} (fitting : Fitting m span low high a) (stored : m.tag a = ⟨size, false, true⟩)
      (apart : state = true) (repeated : (m.tag (a + size - headerSize)).size = footer) (differ : footer ≠ size) :
      BlockBreaks m span low high a state (.footerMismatch a size footer)

/-- A violation that the inspection of a block reports is true. -/
theorem breaks_of_inspectBlock (aligned : start % 16 = 8) (inside : start < span.epilogueOffset)
    (stops : inspectBlock m span low high (span.base + start) state = .error (.violation v)) :
    BlockBreaks m span low high (span.base + start) state v := by
  have baseAligned := span.base_aligned
  have spanFits := span.finish_lt
  have sizeAligned := m.tag_aligned (span.base + start)
  unfold inspectBlock at stops
  simp only [guard_eq_error_iff, reduceCtorEq, and_false, false_or, Finding.violation.injEq] at stops
  simp only [headerSize, minBlockSize, alignment, payloadOf, Span.epilogue] at stops
  obtain ⟨below, rfl⟩ | ⟨low_le, -, ⟨above, rfl⟩ | ⟨high_le, ⟨odd, -⟩ | ⟨-, ⟨small, rfl⟩ | ⟨large, -, stops⟩⟩⟩⟩ := stops
  · exact .outOfBounds (.inl below)
  · exact .outOfBounds (.inr (by simp only [headerSize]; omega))
  · omega
  · exact .badSize (by omega) (by simp only [headerSize]; omega) rfl (.inl (by simp only [minBlockSize]; omega))
  obtain ⟨long, rfl⟩ | ⟨fits, stops⟩ := stops
  · exact .badSize (by omega) (by simp only [headerSize]; omega) rfl (.inr long)
  have fitting : Fitting m span low high (span.base + start) := by
    refine ⟨by omega, ?_, ?_, Nat.le_of_not_lt fits⟩
    · simp only [headerSize]
      omega
    · simp only [minBlockSize]
      omega
  obtain ⟨stale, rfl⟩ | ⟨known, stops⟩ := stops
  · exact .stalePredecessorFlag fitting rfl stale
  split at stops
  · cases stops
  next lent =>
    have free : (m.tag (span.base + start)).allocated = false := by simpa using lent
    simp only [guard_eq_error_iff, reduceCtorEq, and_false, or_false, Finding.violation.injEq] at stops
    rw [not_not] at known
    have stored : m.tag (span.base + start) = ⟨(m.tag (span.base + start)).size, false, state⟩ := by rw [← free, ← known]
    obtain ⟨touches, rfl⟩ | ⟨apart, differ, rfl⟩ := stops
    · exact .uncoalesced fitting (touches ▸ stored) touches
    · rw [Bool.not_eq_false] at apart
      refine .footerMismatch fitting (apart ▸ stored) apart ?_ differ
      rw [Memory.footerAddress, headerSize, stepUp_of_lt (by omega)]
      congr 2
      omega

/-- The epilogue, which stands behind a block of the state given, breaks the law that a violation names. -/
inductive EpilogueBreaks (m : Memory) (span : Span) (high : Nat) (state : Bool) : Violation → Prop where
  | damagedEpilogue {size : Nat} {allocated flag : Bool} (stored : m.tag span.epilogue = ⟨size, allocated, flag⟩)
      (wrong : size ≠ 0 ∨ allocated = false ∨ span.finish ≠ high + 1) :
      EpilogueBreaks m span high state (.damagedEpilogue span.epilogue (high + 1))
  | stalePredecessorFlag {flag : Bool} (ends : span.finish = high + 1) (stored : m.tag span.epilogue = ⟨0, true, flag⟩)
      (stale : flag ≠ state) : EpilogueBreaks m span high state (.stalePredecessorFlag span.epilogue flag)

/-- A violation that the inspection of the epilogue reports is true. -/
theorem breaks_of_inspectEpilogue (stops : inspectEpilogue m span high state = .error (.violation v)) :
    EpilogueBreaks m span high state v := by
  unfold inspectEpilogue at stops
  simp only [guard_eq_error_iff, reduceCtorEq, and_false, or_false, false_or, Finding.violation.injEq] at stops
  obtain ⟨-, ⟨wrong, rfl⟩ | ⟨right, stale, rfl⟩⟩ := stops
  · exact .damagedEpilogue rfl wrong
  · rw [not_or, not_not, not_or, Bool.not_eq_false, not_not] at right
    obtain ⟨size, allocated, ends⟩ := right
    exact .stalePredecessorFlag ends (by rw [← size, ← allocated]) stale

/-- The block at an offset breaks the law that a violation names: it is not a member that can follow the members `os` in the
list of a class. -/
inductive MemberBreaks (m : Memory) (span : Span) (freeCount : Nat) (ls : Lists) (c : Fin classCount) (os : List Nat)
    (o : Nat) : Violation → Prop where
  | allocatedInFreeList (stored : (m.tag (span.base + o)).allocated = true) :
      MemberBreaks m span freeCount ls c os o (.allocatedInFreeList (span.base + o) c)
  | wrongClass {size : Nat} {flag : Bool} (stored : m.tag (span.base + o) = ⟨size, false, flag⟩) (other : classOf size ≠ c) :
      MemberBreaks m span freeCount ls c os o (.wrongClass (span.base + o) size c)
  | brokenLink (free : (m.tag (span.base + o)).allocated = false) (sizeClass : classOf (m.tag (span.base + o)).size = c)
      (broken : m.link (span.base + o) .previous ≠ os.getLastD 0 ∨ (o ∈ os ∨ ∃ d < c, o ∈ ls d) ∨
        freeCount < (listedBelow span.base ls c).length + os.length + 1) :
      MemberBreaks m span freeCount ls c os o (.brokenLink (span.base + o))

theorem mem_listedBelow {base o : Nat} : base + o ∈ listedBelow base ls c ↔ ∃ d < c, o ∈ ls d := by
  simp [listedBelow, addresses]

/-- A violation that the inspection of a member reports is true. -/
theorem breaks_of_inspectMember (inside : o ≤ span.epilogueOffset)
    (stops : inspectMember m span freeCount c ((addresses span.base os).reverse ++ listedBelow span.base ls c) (os.getLastD 0)
      (span.base + o) = .error (.violation v)) : MemberBreaks m span freeCount ls c os o v := by
  have contains : span.contains (span.base + o) = true := by
    simp only [Span.contains_iff, Span.finish, Span.length, headerSize]
    omega
  unfold inspectMember at stops
  simp only [guard_eq_error_iff, reduceCtorEq, and_false, or_false, Finding.violation.injEq] at stops
  obtain ⟨outside, -⟩ | ⟨-, ⟨stored, rfl⟩ | ⟨lent, ⟨other, rfl⟩ | ⟨same, broken, rfl⟩⟩⟩ := stops
  · rw [contains] at outside
    cases outside
  · exact .allocatedInFreeList stored
  · rw [Bool.not_eq_true] at lent
    exact .wrongClass (by rw [← lent]) other
  · rw [Bool.not_eq_true] at lent
    refine .brokenLink lent (not_not.mp same) (broken.imp_right (Or.imp ?_ ?_))
    · intro again
      rw [List.mem_append, List.mem_reverse, mem_listedBelow, addresses, List.mem_map] at again
      refine again.imp_left ?_
      rintro ⟨p, hp, place⟩
      rwa [← Nat.add_left_cancel place]
    · intro full
      rw [List.length_append, List.length_reverse, addresses, List.length_map] at full
      omega

end Audit

/-! ## Missing blocks -/

open Audit

/-- The addresses of the members of all lists. -/
def Audit.members (base : Nat) (ls : Lists) : List Nat := (List.finRange classCount).flatMap fun c => addresses base (ls c)

/-- Both walks pass: the blocks are `bs`, the lists are `ls`, and these have no more members than there are free blocks. -/
structure Walked (s : Store) (span : Span) (low high : Nat) (bs : List Block) (ls : Lists) : Prop where
  prologue : s.memory.tag span.prologue = ⟨prologueSize, true, true⟩
  row : Passable s.memory span low high 24 true bs
  complete : ∀ c, Complete s span c (ls c)
  count : (members span.base ls).length ≤ (freeAddresses span.base bs).length

/-- Both walks pass, and the free block at `a` is in no list. -/
def Missing (s : Store) (span : Span) (low high a : Nat) : Prop :=
  ∃ bs ls, Walked s span low high bs ls ∧ ∃ b ∈ bs, b.allocated = false ∧ (∀ c, b.offset ∉ ls c) ∧ span.base + b.offset = a

/-- The order that takes one block before all others. -/
def Audit.Order.foremost (a : Nat) : Order where
  run free := if a ∈ free then a :: free.erase a else free
  perm free := by
    split
    · next mem => exact (List.perm_cons_erase mem).symm
    · exact List.Perm.refl free

/-- Where only one block is in no list, every search finds it. -/
theorem Audit.Order.find?_eq_some {order : Order} {free listed : List Nat} {a : Nat} (mem : a ∈ free) (absent : a ∉ listed)
    (only : ∀ x ∈ free, x ∉ listed → x = a) : (order.run free).find? (fun x => decide (x ∉ listed)) = some a := by
  cases found : (order.run free).find? (fun x => decide (x ∉ listed)) with
  | none =>
    rw [List.find?_eq_none] at found
    exact absurd (decide_eq_true absent) (found a (mem_run.mpr mem))
  | some x =>
    have missing := List.find?_some found
    rw [decide_eq_true_eq] at missing
    rw [only x (mem_run.mp (List.mem_of_find?_eq_some found)) missing]

variable {order order' : Order} {s : Store} {span : Span} {low high a o : Nat} {bs : List Block} {ls : Lists}
  {free listed : List Nat}

theorem Audit.add_mem_members : span.base + o ∈ members span.base ls ↔ ∃ c, o ∈ ls c := by
  simp [members, addresses]

/-- What both walks answer when they pass. -/
theorem Walked.runs (h : Walked s span low high bs ls) :
    walk s.memory span low high (span.base + 24) true = .ok (freeAddresses span.base bs) ∧
      walkLists s span (freeAddresses span.base bs).length = .ok (members span.base ls).reverse := by
  refine ⟨(walk_eq_ok_iff rfl span.first_le).mpr ⟨bs, h.row, rfl⟩, ?_⟩
  rw [← List.append_nil (members span.base ls).reverse]
  exact walkLists_of_complete (List.nodup_finRange _) (fun c _ => h.complete c) (fun _ _ _ _ => List.not_mem_nil) h.count

/-- Whatever both walks answer, it is what stands in the memory. -/
theorem walked_of_runs (prologue : s.memory.tag span.prologue = ⟨prologueSize, true, true⟩)
    (walked : walk s.memory span low high (span.base + 24) true = .ok free)
    (met : walkLists s span free.length = .ok listed) :
    ∃ bs ls, Walked s span low high bs ls ∧ free = freeAddresses span.base bs ∧ listed = (members span.base ls).reverse := by
  obtain ⟨bs, row, rfl⟩ := (walk_eq_ok_iff rfl span.first_le).mp walked
  obtain ⟨ls, complete, rfl, count⟩ := complete_of_walkLists (List.nodup_finRange _) met (Nat.zero_le _)
  rw [List.append_nil] at count ⊢
  rw [List.length_reverse] at count
  exact ⟨bs, ls, ⟨prologue, row, fun c => complete c (List.mem_finRange c), count⟩, rfl, rfl⟩

/-- When both walks pass, the audit reports the free block that the search finds. -/
theorem auditIn_eq_unlisted (prologue : s.memory.tag span.prologue = ⟨prologueSize, true, true⟩)
    (walked : walk s.memory span low high (span.base + 24) true = .ok free)
    (met : walkLists s span free.length = .ok listed)
    (found : (order.run free).find? (fun x => decide (x ∉ listed)) = some a) :
    auditIn order s span low high = .error (.violation (.unlisted a)) := by
  rw [auditIn_eq_error_iff_walks, if_pos prologue]
  exact .inr ⟨free, walked, .inr ⟨listed, met, a, found, rfl⟩⟩

/-- Every missing block is reported when it is searched for first. -/
theorem Missing.auditIn_foremost (h : Missing s span low high a) :
    auditIn (.foremost a) s span low high = .error (.violation (.unlisted a)) := by
  obtain ⟨bs, ls, both, b, hb, free, missing, rfl⟩ := h
  obtain ⟨walked, met⟩ := both.runs
  refine auditIn_eq_unlisted both.prologue walked met ?_
  have mem : span.base + b.offset ∈ freeAddresses span.base bs := mem_freeAddresses.mpr ⟨b, hb, free, rfl⟩
  have absent : span.base + b.offset ∉ (members span.base ls).reverse := by
    rw [List.mem_reverse, add_mem_members]
    rintro ⟨c, listed⟩
    exact missing c listed
  have first : (Order.foremost (span.base + b.offset)).run (freeAddresses span.base bs) =
      (span.base + b.offset) :: (freeAddresses span.base bs).erase (span.base + b.offset) := if_pos mem
  rw [first, List.find?_cons_of_pos (by simpa using absent)]

/-- Only a report of a missing block depends on the order of the search. -/
theorem auditIn_eq_of_ne_unlisted {r : Except Finding Unit} (run : auditIn order s span low high = r)
    (other : ∀ a, r ≠ .error (.violation (.unlisted a))) : auditIn order' s span low high = r := by
  cases r with
  | ok u => exact auditIn_eq_ok_iff_walks.mpr (auditIn_eq_ok_iff_walks.mp run)
  | error e =>
    rw [auditIn_eq_error_iff_walks] at run ⊢
    split at run
    · next prologue =>
      rw [if_pos prologue]
      obtain stops | ⟨free, walked, stops | ⟨-, -, a, -, rfl⟩⟩ := run
      · exact .inl stops
      · exact .inr ⟨free, walked, .inl stops⟩
      · exact absurd rfl (other a)
    · next damaged =>
      rw [if_neg damaged]
      exact run

/-! ## The whole audit -/

/-- What a violation says of the heap, when the free blocks are searched in the order given. -/
inductive Diagnosed (order : Order) (s : Store) (span : Span) (low high : Nat) : Violation → Prop where
  /-- The tag of the prologue is damaged. -/
  | prologue (damaged : s.memory.tag span.prologue ≠ ⟨prologueSize, true, true⟩) :
      Diagnosed order s span low high (.damagedPrologue span.prologue)
  /-- The blocks `bs` pass, and the header behind them breaks a law. -/
  | block {bs : List Block} {offset : Nat} {v : Violation} (prologue : s.memory.tag span.prologue = ⟨prologueSize, true, true⟩)
      (passed : Passed s.memory span low high 24 true bs offset) (inside : offset < span.epilogueOffset)
      (breaks : BlockBreaks s.memory span low high (span.base + offset) (lastState true bs) v) :
      Diagnosed order s span low high v
  /-- All blocks pass, and the epilogue breaks a law. -/
  | epilogue {bs : List Block} {v : Violation} (prologue : s.memory.tag span.prologue = ⟨prologueSize, true, true⟩)
      (passed : Passed s.memory span low high 24 true bs span.epilogueOffset)
      (breaks : EpilogueBreaks s.memory span high (lastState true bs) v) : Diagnosed order s span low high v
  /-- The walk from block to block passes, the lists below a class are complete, the list of this class leads through the
  members `os` to a block, and that block breaks a law. -/
  | member {bs : List Block} {ls : Lists} {c : Fin classCount} {os : List Nat} {o : Nat} {v : Violation}
      (prologue : s.memory.tag span.prologue = ⟨prologueSize, true, true⟩)
      (row : Passable s.memory span low high 24 true bs)
      (comes : Comes s span (freeAddresses span.base bs).length ls c os o)
      (place : 8 ≤ o ∧ o ≤ span.epilogueOffset ∧ o % 8 = 0)
      (breaks : MemberBreaks s.memory span (freeAddresses span.base bs).length ls c os o v) : Diagnosed order s span low high v
  /-- Both walks pass, a free block is in no list, and all that are searched before it are in a list. -/
  | unlisted {bs : List Block} {ls : Lists} {b : Block} {before after : List Nat} (both : Walked s span low high bs ls)
      (hb : b ∈ bs) (free : b.allocated = false) (missing : ∀ c, b.offset ∉ ls c)
      (searched : order.run (freeAddresses span.base bs) = before ++ (span.base + b.offset) :: after)
      (listed : ∀ a ∈ before, a ∈ members span.base ls) :
      Diagnosed order s span low high (.unlisted (span.base + b.offset))

/-- A violation that the audit reports is true, and the first that it comes to. -/
theorem diagnosed_of_auditIn {v : Violation} (found : auditIn order s span low high = .error (.violation v)) :
    Diagnosed order s span low high v := by
  rw [auditIn_eq_error_iff_walks] at found
  split at found
  swap
  next damaged =>
    cases found
    exact .prologue damaged
  next prologue =>
  obtain stops | ⟨free, walked, stops | ⟨listed, met, a, search, same⟩⟩ := found
  · obtain ⟨bs, offset, r, passed, halts, run⟩ :=
      @walk_halts s.memory span low high 24 true rfl span.first_le
    obtain rfl : r = .error (.violation v) := by
      rw [run] at stops
      cases r <;> cases stops
      rfl
    by_cases atEnd : offset = span.epilogueOffset
    · subst atEnd
      rw [Halts, if_pos rfl] at halts
      exact .epilogue prologue passed (breaks_of_inspectEpilogue halts)
    · rw [Halts, if_neg atEnd] at halts
      obtain ⟨_, ⟨⟩, stops⟩ := halts
      have inside := Nat.lt_of_le_of_ne passed.below atEnd
      exact .block prologue passed inside (breaks_of_inspectBlock passed.tiled.aligned inside stops)
  · obtain ⟨bs, row, rfl⟩ := (walk_eq_ok_iff rfl span.first_le).mp walked
    obtain ⟨ls, c, os, o, comes, halts⟩ := walkLists_eq_error_iff.mp stops
    by_cases atEnd : o = 0
    · rw [ListHalts, if_pos atEnd] at halts
      cases halts
    · rw [ListHalts, if_neg atEnd] at halts
      obtain ⟨_, ⟨⟩, ⟨_, -, ⟨⟩⟩ | ⟨a, at_, stops⟩⟩ := halts
      obtain ⟨place, rfl⟩ := Span.blockAt_eq_ok_iff.mp at_
      exact .member prologue row comes place (breaks_of_inspectMember place.2.1 stops)
  · cases same
    obtain ⟨bs, ls, both, rfl, rfl⟩ := walked_of_runs prologue walked met
    obtain ⟨absent, before, after, searched, passed⟩ := List.find?_eq_some_iff_append.mp search
    have mem : a ∈ order.run (freeAddresses span.base bs) := searched ▸ List.mem_append_cons_self
    obtain ⟨b, hb, free, rfl⟩ := mem_freeAddresses.mp (Order.mem_run.mp mem)
    rw [decide_eq_true_eq, List.mem_reverse, add_mem_members, not_exists] at absent
    refine .unlisted both hb free absent searched fun x hx => ?_
    simpa using passed x hx

/-- What is reported missing is missing. -/
theorem missing_of_auditIn (found : auditIn order s span low high = .error (.violation (.unlisted a))) :
    Missing s span low high a := by
  cases diagnosed_of_auditIn found with
  | block _ _ _ breaks => cases breaks
  | epilogue _ _ breaks => cases breaks
  | member _ _ _ _ breaks => cases breaks
  | unlisted both hb free missing => exact ⟨_, _, both, _, hb, free, missing, rfl⟩

/-- Every violation that the audit reports is true, and it is the first that the walks and then the search come to. A missing
block apart, the order of the search has no part in what the audit ends with. The blocks that can be reported missing are those
that are missing, each of them in some order. -/
theorem audit_diagnosed (s : Store) (span : Span) (low high : Nat) :
    (∀ order v, auditIn order s span low high = .error (.violation v) → Diagnosed order s span low high v) ∧
    (∀ order order' r, auditIn order s span low high = r → (∀ a, r ≠ .error (.violation (.unlisted a))) →
      auditIn order' s span low high = r) ∧
    ∀ a, (∃ order, auditIn order s span low high = .error (.violation (.unlisted a))) ↔ Missing s span low high a := by
  refine ⟨fun order v => diagnosed_of_auditIn, fun order order' r => auditIn_eq_of_ne_unlisted, fun a => ⟨?_, ?_⟩⟩
  · rintro ⟨order, found⟩
    exact missing_of_auditIn found
  · intro missing
    exact ⟨.foremost a, missing.auditIn_foremost⟩

/-- The head of a list is led to a block that is lent: the audit names that block and the list, in whatever order it searches. -/
theorem audit_diagnosed_misled : ∃ (S : Session Reserve) (h : Heads), S.Reachable Reserve.contract ∧ ∀ order,
    auditIn order { S.state.store with heads := h } S.state.span (Backing.lowest S.state.source)
      (Backing.highest S.state.source) = .error (.violation (.allocatedInFreeList 4168 0)) ∧
    Diagnosed order { S.state.store with heads := h } S.state.span (Backing.lowest S.state.source)
      (Backing.highest S.state.source) (.allocatedInFreeList 4168 0) := by
  obtain ⟨S, reachable, found⟩ : ∃ S : Session Reserve, S.Reachable Reserve.contract ∧
      audit { S.state.store with heads := S.state.heads.set 0 56 } S.state.span (Backing.lowest S.state.source)
        (Backing.highest S.state.source) = .error (.violation (.allocatedInFreeList 4168 0)) := by
    have made : Heap.create { probeBudget := 2, selfCheck := false } (Reserve.site 4104 200 UInt64.ofNat) = .ok _ _ := rfl
    have created : Session.Reachable Reserve.contract _ := .created ⟨by decide, by decide⟩ made
    have first := created.performed (a := .request (.allocate 20)) (by intro _ h; cases h) rfl
    have second := first.performed (a := .request (.allocate 20)) (by intro _ h; cases h) rfl
    have released := second.performed (a := .request (.release (some 4144))) (by rintro _ ⟨⟩; decide) rfl
    exact ⟨_, released, by decide +kernel⟩
  refine ⟨S, S.state.heads.set 0 56, reachable, fun order => ?_⟩
  obtain ⟨diagnosed, same, -⟩ := audit_diagnosed { S.state.store with heads := S.state.heads.set 0 56 } S.state.span
    (Backing.lowest S.state.source) (Backing.highest S.state.source)
  have reported := same .walk order _ found (by rintro a ⟨⟩)
  exact ⟨reported, diagnosed order _ reported⟩

/-- A block that is reported missing need not be the first that is out of order. Three free blocks of one class are in its list,
at 4264, 4200 and 4136. With the list cut behind the first, the blocks at 4136 and 4200 are missing, and a search from the last
block on reports the one at 4200. With the list led from the first through a place in the lent block before 4200, where no block
begins, and on to the last, the walk through the lists accepts that place, and the block at 4200 is reported in every order. -/
theorem unlisted_not_first : ∃ (S : Session Reserve) (cut led : Memory) (order : Order), S.Reachable Reserve.contract ∧
    Missing { S.state.store with memory := cut } S.state.span (Backing.lowest S.state.source)
      (Backing.highest S.state.source) 4136 ∧
    auditIn order { S.state.store with memory := cut } S.state.span (Backing.lowest S.state.source)
      (Backing.highest S.state.source) = .error (.violation (.unlisted 4200)) ∧
    walk led S.state.span (Backing.lowest S.state.source) (Backing.highest S.state.source) (S.state.span.base + 24) true =
      .ok [4136, 4200, 4264] ∧
    walkLists { S.state.store with memory := led } S.state.span 3 = .ok [4136, 4176, 4264] ∧
    ∀ order, auditIn order { S.state.store with memory := led } S.state.span (Backing.lowest S.state.source)
      (Backing.highest S.state.source) = .error (.violation (.unlisted 4200)) := by
  let backwards : Order := ⟨List.reverse, List.reverse_perm⟩
  let cut (m : Memory) : Memory := m.setWord 4280 0
  let lead (m : Memory) : Memory :=
    ((((m.setWord 4280 64).setWord 4176 32).setWord 4184 152).setWord 4192 24).setWord 4144 64
  obtain ⟨S, reachable, first, last, prologue, walked, met⟩ : ∃ S : Session Reserve, S.Reachable Reserve.contract ∧
      audit { S.state.store with memory := cut S.state.memory } S.state.span (Backing.lowest S.state.source)
        (Backing.highest S.state.source) = .error (.violation (.unlisted 4136)) ∧
      auditIn backwards { S.state.store with memory := cut S.state.memory } S.state.span (Backing.lowest S.state.source)
        (Backing.highest S.state.source) = .error (.violation (.unlisted 4200)) ∧
      (lead S.state.memory).tag S.state.span.prologue = ⟨prologueSize, true, true⟩ ∧
      walk (lead S.state.memory) S.state.span (Backing.lowest S.state.source) (Backing.highest S.state.source)
        (S.state.span.base + 24) true = .ok [4136, 4200, 4264] ∧
      walkLists { S.state.store with memory := lead S.state.memory } S.state.span 3 = .ok [4136, 4176, 4264] := by
    have made : Heap.create { probeBudget := 2, selfCheck := false } (Reserve.site 4104 200 UInt64.ofNat) = .ok _ _ := rfl
    have created : Session.Reachable Reserve.contract _ := .created ⟨by decide, by decide⟩ made
    have first := created.performed (a := .request (.allocate 20)) (by intro _ h; cases h) rfl
    have second := first.performed (a := .request (.allocate 20)) (by intro _ h; cases h) rfl
    have third := second.performed (a := .request (.allocate 20)) (by intro _ h; cases h) rfl
    have fourth := third.performed (a := .request (.allocate 20)) (by intro _ h; cases h) rfl
    have fifth := fourth.performed (a := .request (.allocate 20)) (by intro _ h; cases h) rfl
    have lone := fifth.performed (a := .request (.release (some 4144))) (by rintro _ ⟨⟩; decide) rfl
    have pair := lone.performed (a := .request (.release (some 4208))) (by rintro _ ⟨⟩; decide) rfl
    have triple := pair.performed (a := .request (.release (some 4272))) (by rintro _ ⟨⟩; decide) rfl
    exact ⟨_, triple, by decide +kernel⟩
  refine ⟨S, cut S.state.memory, lead S.state.memory, backwards, reachable, missing_of_auditIn first, last, walked, met, ?_⟩
  intro order
  exact auditIn_eq_unlisted prologue walked met (Order.find?_eq_some (by decide) (by decide) (by decide))

end SegregatedFit
