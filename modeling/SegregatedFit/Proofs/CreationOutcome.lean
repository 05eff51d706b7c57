import SegregatedFit.Proofs.Audit
import SegregatedFit.Proofs.Neighbours
import SegregatedFit.Proofs.Rounding
import SegregatedFit.Proofs.Views

/-!
# How the making of a heap ends

The making of a heap asks the source where its range ends and then for the padding up to the next multiple of sixteen and the
bytes of a heap without blocks. It ends in one of five ways (`Heap.Ends`), which are told apart by the tuning and by what the
source answers: the tuning is not allowed, the one or the other request is refused, the bytes are given elsewhere, or the heap
is made. Unless the heap is made, nothing is written. A heap that is made is blank (`Heap.Blank`), whatever stood in the memory
and whatever the source had given before, and over a source that keeps the contract it passes its audit.

The source only has to end low enough: where it ends within sixty-four bytes of the end of the address space, rounding up or
the first bytes of the heap could leave it (`Heap.create_ends`).
-/

namespace SegregatedFit

variable {σ : Type} [Backing σ]

/-- The source was asked for some numbers of bytes and gave them where the flag says so, and no byte was written. -/
structure Site.OnlyAsked (site site' : Site (Recording σ)) (calls : List (Nat × Bool)) : Prop where
  calls : site'.source.calls = site.source.calls ++ calls
  memory : site'.memory = site.memory

/-- One request. -/
theorem Site.OnlyAsked.one {site : Site (Recording σ)} {n : Nat} {answer : Option Nat} (h : (site.extend n).1 = answer) :
    site.OnlyAsked (site.extend n).2 [(n, answer.isSome)] := by
  subst h
  exact ⟨rfl, rfl⟩

omit [Backing σ] in
theorem Site.OnlyAsked.trans {x y z : Site (Recording σ)} {calls calls' : List (Nat × Bool)} (h : x.OnlyAsked y calls)
    (h' : y.OnlyAsked z calls') : x.OnlyAsked z (calls ++ calls') :=
  ⟨by rw [h'.calls, h.calls, List.append_assoc], h'.memory.trans h.memory⟩

omit [Backing σ] in
/-- A computation without a state that has a result is followed by the next one. -/
theorem lift_bind_of_eq {α β : Type} {x : Except Fault α} {a : α} (h : x = .ok a)
    (f : α → EStateM CreationFailure (Site σ) β) (t : Site σ) :
    ((liftM x : EStateM CreationFailure (Site σ) α) >>= f) t = f a t := by
  rw [h]
  rfl

namespace Heap

/-- The tuning is allowed, and the source says that its range ends at `first`, less than sixteen bytes of padding below the
least multiple of sixteen from there on. -/
structure Begins (tuning : Tuning) (site : Site (Recording σ)) (first padding : Nat) : Prop where
  allowed : 0 < tuning.probeBudget
  answer : (site.extend 0).1 = some first
  rounds : Rounds first (first + padding)
  padding_lt : padding < alignment

/-- A heap without blocks that begins at `start`: only the bytes of its span were written, which are thirty-two, it shows no
blocks, all its lists are empty, and it passes its audit if its source keeps the contract. -/
structure Blank (site site' : Site (Recording σ)) (heap : Heap (Recording σ)) (start : Nat) : Prop where
  base : heap.span.base = start
  length : heap.span.length = initialLength
  written : site'.memory = site.memory.format heap.span
  outside : ∀ a, a < start ∨ start + initialLength ≤ a → site'.memory.byte a = site.memory.byte a
  blocks : (heap.at site').store.blocks heap.span = .ok []
  freeList : ∀ c < classCount, (heap.at site').store.freeList heap.span c = .ok []
  totals : (heap.at site').store.totals heap.span = .ok { heapSize := initialLength }
  audit : ∀ C : Contract σ, C.Keeps site.source.source site.programBreak → (heap.at site').audit = .ok ()

/-- How the making of a heap ends, with the requests that were made until then. -/
inductive Ends (tuning : Tuning) (site : Site (Recording σ)) :
    EStateM.Result CreationFailure (Site (Recording σ)) (Heap (Recording σ)) → Prop where
  | badTuning (zero : tuning.probeBudget = 0) :
      Ends tuning site (.error (.error (.badTuning "probe budget must be at least 1")) site)
  | refused {site' : Site (Recording σ)} (allowed : 0 < tuning.probeBudget) (answer : (site.extend 0).1 = none)
      (asked : site.OnlyAsked site' [(0, false)]) : Ends tuning site (.error (.error (.exhausted 0)) site')
  | refusedBytes {first padding : Nat} {site' : Site (Recording σ)} (begins : Begins tuning site first padding)
      (answer : ((site.extend 0).2.extend (padding + initialLength)).1 = none)
      (asked : site.OnlyAsked site' [(0, true), (padding + initialLength, false)]) :
      Ends tuning site (.error (.error (.exhausted (padding + initialLength))) site')
  | misplaced {first padding start : Nat} {site' : Site (Recording σ)} (begins : Begins tuning site first padding)
      (answer : ((site.extend 0).2.extend (padding + initialLength)).1 = some start) (elsewhere : start ≠ first)
      (asked : site.OnlyAsked site' [(0, true), (padding + initialLength, true)]) :
      Ends tuning site (.error (.error (.nonContiguous first start)) site')
  | made {first padding : Nat} {site' : Site (Recording σ)} {heap : Heap (Recording σ)}
      (begins : Begins tuning site first padding)
      (answer : ((site.extend 0).2.extend (padding + initialLength)).1 = some first)
      (calls : site'.source.calls = site.source.calls ++ [(0, true), (padding + initialLength, true)])
      (tuned : heap.tuning = tuning) (source : heap.source = site'.source) (blank : Blank site site' heap (first + padding)) :
      Ends tuning site (.ok heap site')

/-! ## Formatting -/

section Format

variable {τ : Type} [Backing τ] {site : Site τ} {first start : Nat}

/-- A source that does not say where its range ends is asked for nothing more. -/
theorem format_of_refused (answer : (site.extend 0).1 = none) :
    format site = .error (.error (.exhausted 0)) (site.extend 0).2 := by
  rw [format, Operation.bind_apply, Operation.modifyGet_apply, answer]
  rfl

/-- The padding is less than a unit, and the rounded address is the first one with the padding added. -/
theorem alignedBase_bounds (first : Nat) : first ≤ alignedBase first ∧ alignedBase first < first + 16 := by
  unfold alignedBase
  omega

/-- Formatting at a range that ends low enough asks for the padding and the bytes of a heap without blocks, and goes by the
answer. -/
theorem format_eq (answer : (site.extend 0).1 = some first) (low : first + 64 < 0x1_0000_0000_0000_0000) :
    ∃ span : Span, format site =
      let asked := (site.extend 0).2.extend (alignedBase first - first + initialLength)
      match asked.1 with
      | none => .error (.error (.exhausted (alignedBase first - first + initialLength))) asked.2
      | some start => if start ≠ first then .error (.error (.nonContiguous first start)) asked.2
        else .ok span (Site.tell { asked.2 with memory := asked.2.memory.format span }
          (.formatted (alignedBase first) (alignedBase first - first))) := by
  obtain ⟨above, below⟩ := alignedBase_bounds first
  -- Below the bound neither the rounding nor a sum on the way to the span leaves the address space.
  have round : roundUp first = .ok (alignedBase first) := by rw [roundUp_eq, if_pos (by omega)]
  have padding : subChecked (alignedBase first) first = .ok (alignedBase first - first) := if_pos above
  have total : addChecked (alignedBase first - first) initialLength = .ok (alignedBase first - first + initialLength) :=
    if_pos (by simp only [initialLength]; omega)
  have aligned : alignedBase first % 16 = 0 := Nat.mul_mod_left _ _
  have initial : Span.initial (alignedBase first) = .ok _ := (dif_pos aligned).trans (dif_pos (by omega))
  generalize Span.mk .. = span at initial
  refine ⟨span, ?_⟩
  rw [format, Operation.bind_apply, Operation.modifyGet_apply, answer]
  simp only
  rw [lift_bind_of_eq round, lift_bind_of_eq padding, lift_bind_of_eq total, Operation.bind_apply, Operation.modifyGet_apply]
  obtain ⟨answer', t⟩ := (site.extend 0).2.extend (alignedBase first - first + initialLength)
  cases answer' with
  | none => rfl
  | some start =>
    by_cases contiguous : start = first
    · simp only [contiguous, ne_eq, not_true_eq_false, if_false]
      exact lift_bind_of_eq initial _ _
    · simp only [contiguous, ne_eq, not_false_eq_true, if_true]
      rfl

/-- With a tuning that is allowed, a heap is made when its span is formatted. -/
theorem create_eq {tuning : Tuning} (allowed : 0 < tuning.probeBudget) : create tuning site = match format site with
    | .ok span t => .ok { source := t.source, span, heads := .empty, tuning } t
    | .error e t => .error e t := by
  have valid : tuning.validate = .ok tuning := if_neg (by omega)
  simp only [create, valid, Operation.bind_apply]
  cases format site <;> rfl

end Format

/-! ## A heap that was made -/

variable {tuning : Tuning} {site site' : Site (Recording σ)} {heap : Heap (Recording σ)}

/-- A heap that was made is blank. -/
theorem blank_of_made (made : create tuning site = .ok heap site') :
    ∃ first, (site.extend 0).1 = some first ∧ Blank site site' heap (alignedBase first) := by
  have describes := create_describes made
  obtain ⟨run, -⟩ := create_eq_ok made
  obtain ⟨first, answer, base, ends, memory, -⟩ := format_eq_ok run
  have length : heap.span.length = initialLength := by rw [Span.length, ends]; rfl
  refine ⟨first, answer, base, length, memory, ?_, describes.blocks_run, ?_, describes.totals_run, ?_⟩
  · intro a far
    have aligned := heap.span.base_aligned
    have same := create_outside made (a := Memory.wordAddress a) (by
      simp only [Memory.wordAddress, Span.finish, length, base, initialLength] at aligned far ⊢
      omega)
    rw [Memory.byte, Memory.byte, same]
  · intro c small
    exact describes.freeList_run ⟨c, small⟩
  · intro C keeps
    obtain ⟨_, -, -, -, -, healthy⟩ := create_run (C := Recording.contract C) keeps made
    exact healthy.audit_run

/-- Whatever the source, the making of a heap ends in one of the five ways, as long as the source ends low enough. -/
theorem create_ends (tuning : Tuning) (site : Site (Recording σ))
    (low : ∀ first, (site.extend 0).1 = some first → first + 64 < 0x1_0000_0000_0000_0000) :
    Ends tuning site (create tuning site) := by
  by_cases zero : tuning.probeBudget = 0
  · have invalid : tuning.validate = .error _ := if_pos zero
    simp only [create, invalid]
    exact .badTuning zero
  have allowed : 0 < tuning.probeBudget := by omega
  cases answer : (site.extend 0).1 with
  | none =>
    rw [create_eq allowed, format_of_refused answer]
    exact .refused allowed answer (.one answer)
  | some first =>
    obtain ⟨span, formatted⟩ := format_eq answer (low first answer)
    obtain ⟨above, below⟩ := alignedBase_bounds first
    have sum : first + (alignedBase first - first) = alignedBase first := Nat.add_sub_cancel' above
    have begins : Begins tuning site first (alignedBase first - first) :=
      ⟨allowed, answer, by rw [sum]; exact rounds_iff.mpr rfl, by simp only [alignment]; omega⟩
    have made : create tuning site = _ := create_eq allowed
    cases answer' : ((site.extend 0).2.extend (alignedBase first - first + initialLength)).1 with
    | none =>
      simp only [formatted, answer'] at made
      rw [made]
      exact .refusedBytes begins answer' ((Site.OnlyAsked.one answer).trans (.one answer'))
    | some start =>
      have asked := (Site.OnlyAsked.one answer).trans (.one answer')
      by_cases contiguous : start = first
      · subst contiguous
        simp only [formatted, answer', ne_eq, not_true_eq_false, if_false] at made
        obtain ⟨first, answered, blank⟩ := blank_of_made made
        obtain rfl := Option.some.inj (answer.symm.trans answered)
        rw [made]
        exact .made begins answer' asked.calls rfl rfl (sum.symm ▸ blank)
      · simp only [formatted, answer', contiguous, ne_eq, not_false_eq_true, if_true] at made
        rw [made]
        exact .misplaced begins answer' contiguous asked

/-- A reservation of which eight bytes were given away before: the heap begins after eight bytes of padding. -/
theorem create_ends_reserve : ∃ (site site' : Site (Recording Reserve)) (heap : Heap (Recording Reserve)),
    site.source.calls = [(8, true)] ∧ (site.extend 0).1 = some 4104 ∧
    Heap.create { probeBudget := 2, selfCheck := false } site = .ok heap site' ∧ heap.span.base = 4112 ∧
    site'.source.calls = [(8, true), (0, true), (40, true)] ∧
    Ends { probeBudget := 2, selfCheck := false } site (.ok heap site') := by
  have made : Heap.create { probeBudget := 2, selfCheck := false }
      { (Reserve.site 4096 200 UInt64.ofNat) with
        source := (⟨{ base := 4096, capacity := 200, used := 8 }, [(8, true)]⟩ : Recording Reserve) } = .ok _ _ := rfl
  refine ⟨_, _, _, rfl, rfl, made, rfl, rfl, made ▸ create_ends _ _ ?_⟩
  rintro _ ⟨⟩
  decide

end Heap

end SegregatedFit
