import SegregatedFit.Proofs.Audit

/-!
# Where the audit stops

An audit that does not pass stops at the first inspection that fails, and everything before has passed. The walk from block to
block stops behind a row of blocks that it passes (`Audit.Passed`, `Audit.walk_eq_error_iff`), and the walk through the lists
stops in one list, behind members that it accepts, when the lists of the classes below are complete (`Audit.Comes`,
`Audit.walkLists_eq_error_iff`). Together with the prologue and the free blocks that are in no list these are all the ways in
which an audit can end with a finding (`auditIn_eq_error_iff_walks`), and only the last depends on the order of the search.
-/

namespace SegregatedFit

namespace Audit

variable {m : Memory} {span : Span} {low high start freeCount : Nat} {state : Bool} {e : Finding} {c : Fin classCount}
  {s : Store}

/-! ## The walk from block to block -/

/-- The walk ends with a finding exactly where it halts with it behind some blocks that it passes. -/
theorem walk_eq_error_iff (aligned : start % 16 = 8) (le : start ≤ span.epilogueOffset)
    (fits : high + 1 < 0x1_0000_0000_0000_0000) :
    walk m span low high (span.base + start) state = .error e ↔
      ∃ bs finish, Passed m span low high start state bs finish ∧
        Halts m span low high finish (lastState state bs) (.error e) := by
  constructor
  · intro found
    obtain ⟨bs, finish, r, passed, halts, run⟩ := @walk_halts m span low high start state aligned le
    rw [run] at found
    cases r with
    | ok u => cases found
    | error e' =>
      cases found
      exact ⟨bs, finish, passed, halts⟩
  · rintro ⟨bs, finish, passed, halts⟩
    rw [passed.walk_eq aligned fits, halts.walk_eq]
    rfl

/-! ## The walk through the lists -/

/-- The addresses of the members of the lists below a class, the latest first. -/
def listedBelow (base : Nat) (ls : Lists) (c : Fin classCount) : List Nat :=
  (((List.finRange classCount).filter (· < c)).flatMap fun d => addresses base (ls d)).reverse

/-- The walk through the lists comes to the offset `ahead` in the list of a class: the lists below are complete, and the
members `os` of this one are accepted. -/
structure Comes (s : Store) (span : Span) (freeCount : Nat) (ls : Lists) (c : Fin classCount) (os : List Nat) (ahead : Nat) :
    Prop where
  below : ∀ d < c, Complete s span d (ls d)
  front : s.heads.get c = os.headD ahead
  accepted : Accepted s.memory span freeCount c (listedBelow span.base ls c) 0 os ahead

/-- A fold stops at the first element that it stops at. -/
theorem foldlM_eq_error_iff {α β ε : Type} {f : β → α → Except ε β} {xs : List α} {b : β} {e : ε} :
    xs.foldlM f b = .error e ↔
      ∃ before x after r, xs = before ++ x :: after ∧ before.foldlM f b = .ok r ∧ f r x = .error e := by
  induction xs generalizing b with
  | nil => simp [pure, Except.pure]
  | cons x xs ih =>
    rw [List.foldlM_cons]
    cases first : f b x with
    | error e' =>
      constructor
      · rintro ⟨⟩
        exact ⟨[], x, xs, b, rfl, rfl, first⟩
      · rintro ⟨_ | ⟨y, before⟩, z, after, r, split, run, stops⟩
        · cases split
          cases run
          rw [← stops, first]
          rfl
        · cases split
          rw [List.foldlM_cons, first] at run
          cases run
    | ok r =>
      refine Iff.trans ih ⟨?_, ?_⟩
      · rintro ⟨before, z, after, r', rfl, run, stops⟩
        refine ⟨x :: before, z, after, r', rfl, ?_, stops⟩
        rw [List.foldlM_cons, first]
        exact run
      · rintro ⟨_ | ⟨y, before⟩, z, after, r', split, run, stops⟩
        · cases split
          cases run
          rw [first] at stops
          cases stops
        · cases split
          rw [List.foldlM_cons, first] at run
          exact ⟨before, z, after, r', rfl, run, stops⟩

/-- The classes before a class are those below it. -/
theorem filter_lt_of_split {before after : List (Fin classCount)} (split : List.finRange classCount = before ++ c :: after) :
    (List.finRange classCount).filter (· < c) = before := by
  have sorted := List.pairwise_lt_finRange classCount
  rw [split] at sorted ⊢
  obtain ⟨-, tail, less⟩ := List.pairwise_append.mp sorted
  obtain ⟨more, -⟩ := List.pairwise_cons.mp tail
  rw [List.filter_append, List.filter_eq_self.mpr fun d hd => by simpa using less d hd c List.mem_cons_self,
    List.filter_eq_nil_iff.mpr, List.append_nil]
  intro d hd
  rcases List.mem_cons.mp hd with rfl | hd
  · simp
  · simpa using Fin.le_of_lt (more d hd)

/-- The walk through the lists ends with a finding exactly where it halts with it. -/
theorem walkLists_eq_error_iff : walkLists s span freeCount = .error e ↔
    ∃ ls c os ahead, Comes s span freeCount ls c os ahead ∧
      ListHalts s.memory span freeCount c ((addresses span.base os).reverse ++ listedBelow span.base ls c)
        (os.getLastD 0) ahead (.error e) := by
  rw [walkLists, foldlM_eq_error_iff]
  constructor
  · rintro ⟨before, c, after, listed, split, met, stops⟩
    have nodup := List.nodup_finRange classCount
    rw [split] at nodup
    obtain ⟨ls, known, rfl, count⟩ := complete_of_walkLists (List.nodup_append.mp nodup).1 met (Nat.zero_le _)
    obtain ⟨os, ahead, r, front, accepted, halts, run⟩ :=
      @walkList_halts s.memory span c freeCount 0 (s.heads.get c) _ count
    have same : (before.flatMap fun d => addresses span.base (ls d)).reverse ++ [] = listedBelow span.base ls c := by
      rw [List.append_nil, listedBelow, filter_lt_of_split split]
    rw [same] at accepted halts run stops
    rw [run] at stops
    cases r with
    | ok u => cases stops
    | error e' =>
      cases stops
      refine ⟨ls, c, os, ahead, ⟨fun d less => known d ?_, front, accepted⟩, halts⟩
      rw [← filter_lt_of_split split]
      exact List.mem_filter.mpr ⟨List.mem_finRange d, by simpa using less⟩
  · rintro ⟨ls, c, os, ahead, ⟨below, front, accepted⟩, halts⟩
    obtain ⟨before, after, split⟩ := List.append_of_mem (List.mem_finRange c)
    have nodup := List.nodup_finRange classCount
    rw [split] at nodup
    have count := accepted.count
    have same : (before.flatMap fun d => addresses span.base (ls d)).reverse ++ [] = listedBelow span.base ls c := by
      rw [List.append_nil, listedBelow, filter_lt_of_split split]
    refine ⟨before, c, after, listedBelow span.base ls c, split, ?_, ?_⟩
    · rw [← same]
      refine walkLists_of_complete (List.nodup_append.mp nodup).1 ?_ (fun _ _ _ _ => List.not_mem_nil) ?_
      · intro d hd
        rw [← filter_lt_of_split split] at hd
        exact below d (by simpa using (List.mem_filter.mp hd).2)
      · rw [← same, List.append_nil, List.length_reverse] at count
        rw [List.length_nil]
        omega
    · rw [front, accepted.walkList_eq, halts.walkList_eq]
      rfl

end Audit

/-! ## The whole audit -/

open Audit

theorem bind_eq_error_iff {α β : Type} {x : Except Finding α} {g : α → Except Finding β} {e : Finding} :
    (x >>= g) = .error e ↔ x = .error e ∨ ∃ a, x = .ok a ∧ g a = .error e := by
  cases x <;> simp [bind, Except.bind]

/-- How the audit ends with a finding: at the prologue, in the walk from block to block, in the walk through the lists, or with
the first free block in the order of the search that is in no list. -/
theorem auditIn_eq_error_iff_walks {order : Order} {s : Store} {span : Span} {low high : Nat} {e : Finding} :
    auditIn order s span low high = .error e ↔
      if s.memory.tag span.prologue = { size := prologueSize, allocated := true, predecessorAllocated := true } then
        walk s.memory span low high (span.base + 24) true = .error e ∨
          ∃ free, walk s.memory span low high (span.base + 24) true = .ok free ∧ (walkLists s span free.length = .error e ∨
            ∃ listed, walkLists s span free.length = .ok listed ∧
              ∃ a, (order.run free).find? (fun a => decide (a ∉ listed)) = some a ∧ e = .violation (.unlisted a))
      else e = .violation (.damagedPrologue span.prologue) := by
  have begins : span.prologue + prologueSize = span.base + 24 := Nat.add_assoc _ _ _
  unfold auditIn
  by_cases prologue :
      s.memory.tag span.prologue = { size := prologueSize, allocated := true, predecessorAllocated := true }
  · simp only [prologue, ne_eq, not_true_eq_false, if_false, if_true, begins, bind_eq_error_iff]
    refine or_congr Iff.rfl (exists_congr fun free => and_congr_right fun _ => or_congr Iff.rfl
      (exists_congr fun listed => and_congr_right fun _ => ?_))
    cases (order.run free).find? (fun a => decide (a ∉ listed)) with
    | none => simp [pure, Except.pure]
    | some a => simp [throw, throwThe, MonadExceptOf.throw, eq_comm]
  · simp only [prologue, ne_eq, not_false_eq_true, if_true, if_false]
    constructor
    · rintro ⟨⟩
      rfl
    · rintro rfl
      rfl

end SegregatedFit
