import SegregatedFit.Proofs.Session
import Mathlib.Data.List.FinRange
import Mathlib.Data.List.MinMax
import Mathlib.Data.List.Sort

/-!
# Bounded best fit finds the tightest block of a prefix

The reference of the search is plain: of the first blocks of the lists searched, put one list behind the other, as many as
the budget allows, take the first of those that leave least over (`tightest`). The search stops earlier than that, at an
exact fit and behind the first class with a block that suits, and loses nothing by it (`Listed.searchClasses_run`): nothing is
tighter than an exact fit, and every block of a larger class is larger than all blocks of a smaller one.

A row lists blocks by their offsets and sizes.
-/

namespace SegregatedFit

open FreeList

/-- A block suits a request of `wanted` bytes when nothing is left over, or enough for a free block. -/
def Suits (wanted : Nat) (x : Nat × Nat) : Prop := x.2 = wanted ∨ wanted + minBlockSize ≤ x.2

instance (wanted : Nat) : DecidablePred (Suits wanted) := fun x =>
  inferInstanceAs (Decidable (x.2 = wanted ∨ wanted + minBlockSize ≤ x.2))

/-- Of the blocks of a row that suit, the first of those that leave least over. -/
def tightest (wanted : Nat) (row : List (Nat × Nat)) : Option (Nat × Nat) :=
  (row.filter (Suits wanted ·)).argmin fun x => x.2 - wanted

/-- The members of the lists of several classes one after the other, with the sizes in their tags. -/
def Store.row (s : Store) (base : Nat) (ls : Lists) (cs : List (Fin classCount)) : List (Nat × Nat) :=
  cs.flatMap fun c => (ls c).map fun o => (o, (s.memory.tag (base + o)).size)

/-- A block of a row as a candidate. -/
def candidate (wanted : Nat) (x : Nat × Nat) : Candidate := { block := x.1, leftover := x.2 - wanted }

/-! ## The tightest block of a row -/

section Rows

variable {wanted : Nat} {xs ys row : List (Nat × Nat)} {x y : Nat × Nat}

theorem mem_of_tightest (h : tightest wanted xs = some x) : x ∈ xs ∧ Suits wanted x := by
  simpa using List.mem_filter.mp (List.argmin_mem h)

theorem tightest_eq_none_iff : tightest wanted xs = none ↔ ∀ x ∈ xs, ¬ Suits wanted x := by
  simp [tightest, List.argmin_eq_none]

/-- No block of the row that suits is smaller. -/
theorem le_of_tightest (h : tightest wanted xs = some x) (hy : y ∈ xs) (suits : Suits wanted y) : x.2 ≤ y.2 := by
  have least := List.le_of_mem_argmin (List.mem_filter.mpr ⟨hy, by simpa using suits⟩) h
  rcases (mem_of_tightest h).2 with exact | large
  · rcases suits with exact' | large'
    all_goals omega
  · simp only [minBlockSize] at large
    omega

/-- One more block at the end of a row wins when it suits and leaves less over than all before it. -/
theorem tightest_concat : tightest wanted (xs ++ [y]) =
    if Suits wanted y then
      match tightest wanted xs with
      | none => some y
      | some x => if y.2 - wanted < x.2 - wanted then some y else some x
    else tightest wanted xs := by
  unfold tightest
  by_cases suits : Suits wanted y
  · rw [List.filter_append, List.filter_singleton, if_pos suits]
    simp only [suits, decide_true, cond_true, List.argmin_concat]
    cases (xs.filter (Suits wanted ·)).argmin fun x => x.2 - wanted <;> rfl
  · simp [suits]

/-- Blocks that leave no less over do not matter when they come later. -/
theorem tightest_append_of_some (h : tightest wanted xs = some x) (le : ∀ y ∈ ys, Suits wanted y → x.2 ≤ y.2) :
    tightest wanted (xs ++ ys) = some x := by
  induction ys using List.reverseRecOn with
  | nil => rwa [List.append_nil]
  | append_singleton ys y ih =>
    have before := ih fun z hz => le z (List.mem_append_left _ hz)
    rw [← List.append_assoc, tightest_concat, before]
    split
    · next suits =>
      have := le y (by simp) suits
      simp only
      rw [if_neg (by omega)]
    · rfl

/-- Blocks that do not suit do not matter. -/
theorem tightest_append_of_none (h : tightest wanted xs = none) : tightest wanted (xs ++ ys) = tightest wanted ys := by
  unfold tightest at h ⊢
  rw [List.filter_append, List.argmin_eq_none.mp h, List.nil_append]

/-- Nothing is tighter than an exact fit, so the first one wins. -/
theorem tightest_of_exact (before : ∀ x ∈ xs, x.2 ≠ wanted) (exact : y.2 = wanted) :
    tightest wanted (xs ++ y :: ys) = some y := by
  have first : tightest wanted (xs ++ [y]) = some y := by
    rw [tightest_concat, if_pos (.inl exact)]
    cases best : tightest wanted xs with
    | none => rfl
    | some x =>
      obtain ⟨hx, suits⟩ := mem_of_tightest best
      have large := suits.resolve_left (before x hx)
      simp only [minBlockSize] at large ⊢
      rw [if_pos (by omega)]
  rw [List.append_cons]
  refine tightest_append_of_some first ?_
  rintro z - (same | large)
  · omega
  · omega

/-- Nothing is tighter than an exact fit, so what comes behind one does not matter. -/
theorem tightest_append_of_exact (hx : x ∈ xs) (exact : x.2 = wanted) :
    tightest wanted (xs ++ ys) = tightest wanted xs := by
  cases best : tightest wanted xs with
  | none => exact absurd (.inl exact) (tightest_eq_none_iff.mp best x hx)
  | some z =>
    have le := le_of_tightest best hx (.inl exact)
    refine tightest_append_of_some best ?_
    rintro y - (same | large)
    · omega
    · omega

/-! ## One list -/

/-- A block that is no exact fit is compared with the best candidate so far. -/
theorem improve_tightest (inexact : y.2 ≠ wanted) :
    Candidate.improve ((tightest wanted xs).map (candidate wanted)) y.1 y.2 wanted =
      (tightest wanted (xs ++ [y])).map (candidate wanted) := by
  rw [tightest_concat]
  unfold Candidate.improve
  by_cases large : wanted + minBlockSize ≤ y.2
  · rw [if_neg (Nat.not_lt.mpr large), if_pos (.inr large)]
    cases tightest wanted xs with
    | none => rfl
    | some x =>
      simp only [Option.map_some, candidate]
      split <;> rfl
  · have sliver : ¬ Suits wanted y := not_or.mpr ⟨inexact, large⟩
    rw [if_pos (Nat.lt_of_not_le large), if_neg sliver]

/-- A search of one row that has seen some blocks already goes to the end of the row when it meets no exact fit and its budget
allows; otherwise it ends the whole search. Either way it has the tightest of the blocks that it has seen. -/
theorem scanRow_eq {budget : Nat} (seen : ∀ x ∈ xs, x.2 ≠ wanted) :
    scanRow wanted budget row ((tightest wanted xs).map (candidate wanted)) =
      if row.length ≤ budget ∧ ∀ x ∈ row, x.2 ≠ wanted then
        .ended ((tightest wanted (xs ++ row)).map (candidate wanted)) (budget - row.length)
      else .decided ((tightest wanted (xs ++ row.take budget)).map Prod.fst) := by
  induction row generalizing xs budget with
  | nil => simp [scanRow]
  | cons y row ih =>
    cases budget with
    | zero =>
      rw [scanRow, if_neg (by simp), List.take_zero, List.append_nil, Option.map_map]
      rfl
    | succ budget =>
      rw [scanRow, List.take_succ_cons]
      by_cases exact : y.2 = wanted
      · rw [if_pos exact, if_neg (by simp [exact]), tightest_of_exact seen exact]
        rfl
      · have seen' : ∀ x ∈ xs ++ [y], x.2 ≠ wanted := by
          intro x hx
          rcases List.mem_append.mp hx with hx | hx
          · exact seen x hx
          · rwa [List.mem_singleton.mp hx]
        rw [if_neg exact, improve_tightest exact, ih seen']
        simp only [List.append_assoc, List.singleton_append, List.length_cons, Nat.add_le_add_iff_right,
          Nat.add_sub_add_right, List.forall_mem_cons, ne_eq, exact, not_false_eq_true, true_and]

end Rows

/-! ## Several lists -/

namespace Listed

variable {s : Store} {span : Span} {ls : Lists} {wanted budget : Nat} {cs : List (Fin classCount)} {c d : Fin classCount}
  {x y : Nat × Nat}

/-- The size of a member tells its list. -/
theorem classOf_row (h : Listed s span ls) (hx : x ∈ s.row span.base ls cs) : x.1 ∈ ls (classOf x.2) ∧ classOf x.2 ∈ cs := by
  obtain ⟨c, hc, hx⟩ := List.mem_flatMap.mp hx
  obtain ⟨o, ho, rfl⟩ := List.mem_map.mp hx
  rw [h.sizeClass c o ho]
  exact ⟨ho, hc⟩

/-- Every member of a list is larger than all members of the lists of smaller classes. -/
theorem lt_of_class_lt (h : Listed s span ls) (hx : x ∈ s.row span.base ls [c]) (hy : y ∈ s.row span.base ls cs)
    (larger : ∀ d ∈ cs, c < d) : x.2 < y.2 := by
  have low : classOf x.2 = c := List.mem_singleton.mp (h.classOf_row hx).2
  have high := larger _ (h.classOf_row hy).2
  rcases Nat.lt_or_ge x.2 y.2 with lt | ge
  · exact lt
  · have := classOf_le_classOf ge
    rw [low] at this
    exact absurd high (not_lt_of_ge this)

/-- The search of several lists, smaller classes first, finds the tightest of the first blocks. -/
theorem searchClasses_run (h : Listed s span ls) (ascending : cs.Pairwise (· < ·)) :
    FreeList.searchClasses s span wanted budget cs =
      .ok ((tightest wanted ((s.row span.base ls cs).take budget)).map fun x => span.base + x.1) := by
  induction cs generalizing budget with
  | nil => simp [FreeList.searchClasses, Store.row, tightest]
  | cons c cs ih =>
    obtain ⟨larger, ascending⟩ := List.pairwise_cons.mp ascending
    have here : s.row span.base ls (c :: cs) = s.row span.base ls [c] ++ s.row span.base ls cs := by simp [Store.row]
    have run := scan_run (fun o => (s.memory.tag (span.base + o)).size) (h.linked c)
      (fun o ho => ⟨by have := h.place c o ho; omega, rfl⟩) wanted budget none
    have single : ((ls c).map fun o => (o, (s.memory.tag (span.base + o)).size)) = s.row span.base ls [c] := by
      simp [Store.row]
    have scanned := @scanRow_eq wanted [] (s.row span.base ls [c]) budget (by simp)
    rw [Option.map_none, ← h.front c, single] at run
    rw [show (tightest wanted []).map (candidate wanted) = none from rfl, List.nil_append, List.nil_append] at scanned
    rw [here]
    simp only [FreeList.searchClasses, run, scanned]
    by_cases whole : (s.row span.base ls [c]).length ≤ budget ∧ ∀ x ∈ s.row span.base ls [c], x.2 ≠ wanted
    · rw [if_pos whole, List.take_append, List.take_of_length_le whole.1]
      cases best : tightest wanted (s.row span.base ls [c]) with
      | none =>
        rw [tightest_append_of_none best]
        exact ih ascending
      | some x =>
        rw [tightest_append_of_some best]
        · rfl
        · intro y hy _
          exact Nat.le_of_lt (h.lt_of_class_lt (mem_of_tightest best).1 (List.mem_of_mem_take hy) larger)
    · rw [if_neg whole]
      have same : tightest wanted ((s.row span.base ls [c] ++ s.row span.base ls cs).take budget) =
          tightest wanted ((s.row span.base ls [c]).take budget) := by
        rcases Nat.lt_or_ge budget (s.row span.base ls [c]).length with short | long
        · rw [List.take_append_of_le_length (Nat.le_of_lt short)]
        · obtain ⟨x, hx, exact⟩ : ∃ x ∈ s.row span.base ls [c], x.2 = wanted := by simpa [long] using whole
          rw [List.take_append, List.take_of_length_le long]
          exact tightest_append_of_exact hx exact
      rw [same]
      cases tightest wanted ((s.row span.base ls [c]).take budget) <;> rfl

theorem mem_classesFrom {first c : Fin classCount} : c ∈ classesFrom first ↔ first ≤ c := by
  revert first c
  decide

/-- The search finds the tightest of the first blocks of the class wanted and the larger ones. -/
theorem bestFit_run (h : Listed s span ls) (wanted budget : Nat) : FreeList.bestFit s span wanted budget =
    .ok ((tightest wanted ((s.row span.base ls (classesFrom (classOf wanted))).take budget)).map fun x => span.base + x.1) :=
  h.searchClasses_run ((List.sortedLT_finRange classCount).pairwise.drop)

/-- A block that suits is a member of one of the lists searched. -/
theorem mem_row_of_suits (h : Listed s span ls) (hx : x ∈ s.row span.base ls (List.finRange classCount))
    (suits : Suits wanted x) : x ∈ s.row span.base ls (classesFrom (classOf wanted)) := by
  obtain ⟨c, -, hx⟩ := List.mem_flatMap.mp hx
  have single : x ∈ s.row span.base ls [c] := by simpa [Store.row] using hx
  have here : classOf x.2 = c := List.mem_singleton.mp (h.classOf_row single).2
  have enough : wanted ≤ x.2 := by
    rcases suits with exact | large
    · exact Nat.le_of_eq exact.symm
    · omega
  exact List.mem_flatMap.mpr ⟨c, mem_classesFrom.mpr (here ▸ classOf_le_classOf enough), hx⟩

/-- The size of a block of a row is the one in its tag. -/
theorem size_of_mem_row (hx : x ∈ s.row span.base ls cs) : (s.memory.tag (span.base + x.1)).size = x.2 := by
  obtain ⟨c, -, hx⟩ := List.mem_flatMap.mp hx
  obtain ⟨o, -, rfl⟩ := List.mem_map.mp hx
  rfl

/-- Best fit answers with the first of the tightest blocks among those that its budget allows it to look at, and with nothing
only when none of these suits. A larger budget never finds a larger block, and with a budget for all free blocks none of the
heap that suits is smaller than the one found. -/
theorem bestFit_eq_tightest (h : Listed s span ls) (wanted budget : Nat) :
    FreeList.bestFit s span wanted budget =
        .ok ((tightest wanted ((s.row span.base ls (classesFrom (classOf wanted))).take budget)).map
          fun x => span.base + x.1) ∧
      (FreeList.bestFit s span wanted budget = .ok none ↔
        ∀ x ∈ (s.row span.base ls (classesFrom (classOf wanted))).take budget, ¬ Suits wanted x) ∧
      (∀ more ≥ budget, ∀ a, FreeList.bestFit s span wanted budget = .ok (some a) →
        ∃ b, FreeList.bestFit s span wanted more = .ok (some b) ∧ (s.memory.tag b).size ≤ (s.memory.tag a).size) ∧
      ((s.row span.base ls (List.finRange classCount)).length ≤ budget →
        ∀ x ∈ s.row span.base ls (List.finRange classCount), Suits wanted x →
          ∃ a, FreeList.bestFit s span wanted budget = .ok (some a) ∧ (s.memory.tag a).size ≤ x.2) := by
  have tighter : ∀ {budget x}, x ∈ (s.row span.base ls (classesFrom (classOf wanted))).take budget → Suits wanted x →
      ∃ a, FreeList.bestFit s span wanted budget = .ok (some a) ∧ (s.memory.tag a).size ≤ x.2 := by
    intro budget x hx suits
    cases best : tightest wanted ((s.row span.base ls (classesFrom (classOf wanted))).take budget) with
    | none => exact absurd suits (tightest_eq_none_iff.mp best x hx)
    | some y =>
      refine ⟨span.base + y.1, by rw [h.bestFit_run, best, Option.map_some], ?_⟩
      rw [size_of_mem_row (List.mem_of_mem_take (mem_of_tightest best).1)]
      exact le_of_tightest best hx suits
  refine ⟨h.bestFit_run wanted budget, ?_, ?_, ?_⟩
  · rw [h.bestFit_run, Except.ok.injEq, Option.map_eq_none_iff]
    exact tightest_eq_none_iff
  · intro more le a found
    rw [h.bestFit_run, Except.ok.injEq] at found
    obtain ⟨x, best, rfl⟩ := Option.map_eq_some_iff.mp found
    obtain ⟨hx, suits⟩ := mem_of_tightest best
    rw [size_of_mem_row (List.mem_of_mem_take hx)]
    exact tighter (List.take_subset_take_left _ le hx) suits
  · intro all x hx suits
    have searched := h.mem_row_of_suits hx suits
    have split : s.row span.base ls (List.finRange classCount) =
        s.row span.base ls ((List.finRange classCount).take (classOf wanted)) ++
          s.row span.base ls (classesFrom (classOf wanted)) := by
      rw [classesFrom, Store.row, Store.row, Store.row, ← List.flatMap_append, List.take_append_drop]
    rw [split, List.length_append] at all
    rw [← List.take_of_length_le (Nat.le_of_add_left_le all)] at searched
    exact tighter searched suits

/-- A heap with two free blocks of one class, the larger one in front: a search that may look at one block takes it, and a
search that may look at two takes the other one. -/
theorem bestFit_reserve : ∃ (s : Store) (span : Span) (ls : Lists), Listed s span ls ∧
    FreeList.bestFit s span 48 1 = .ok (some 4248) ∧ FreeList.bestFit s span 48 2 = .ok (some 4136) ∧
    (tightest 48 ((s.row span.base ls (classesFrom (classOf 48))).take 2)).map (fun x => span.base + x.1) = some 4136 := by
  have made : Heap.create { selfCheck := false } (Reserve.site 4104 400 UInt64.ofNat) = .ok _ _ := rfl
  have created : Session.Reachable Reserve.contract _ := .created ⟨by decide, by decide⟩ made
  have first := created.performed (a := .request (.allocate 72)) (by intro _ h; cases h) rfl
  have second := first.performed (a := .request (.allocate 20)) (by intro _ h; cases h) rfl
  have third := second.performed (a := .request (.allocate 88)) (by intro _ h; cases h) rfl
  have fourth := third.performed (a := .request (.allocate 20)) (by intro _ h; cases h) rfl
  have fifth := fourth.performed (a := .request (.release (some 4144))) (by rintro _ ⟨⟩; decide) rfl
  have sixth := fifth.performed (a := .request (.release (some 4256))) (by rintro _ ⟨⟩; decide) rfl
  obtain ⟨L, sound⟩ := sixth.sound
  have listed := sound.healthy.describes.arranged.listed
  obtain ⟨run, -⟩ := bestFit_eq_tightest listed 48 2
  exact ⟨_, _, L.lists, listed, rfl, rfl, Except.ok.inj (run.symm.trans rfl)⟩

end Listed

end SegregatedFit
