import SegregatedFit.Heap.Creation
import SegregatedFit.Proofs.Growth

/-!
# A heap that was made has no blocks

A heap is made by two requests to its source: one for no bytes, which tells where the range ends, and one for the padding and
the bytes of a heap without blocks. When both are granted by a source that keeps the contract and the heap is made, it is
healthy and has no blocks (`Heap.create_run`).
-/

namespace SegregatedFit

/-- The layout without blocks. -/
def Layout.empty : Layout := { blocks := [], lists := fun _ => [] }

/-- A heap that is ready to work at a site. -/
def Heap.at {σ : Type} (h : Heap σ) (site : Site σ) : HeapState σ :=
  { site with source := h.source, span := h.span, heads := h.heads, tuning := h.tuning }

/-- The address where a heap begins whose source gives bytes from `first` on. -/
def alignedBase (first : Nat) : Nat := (first + 15) / 16 * 16

/-! ## The memory of a heap without blocks -/

/-- The prologue and the epilogue are written where they belong. -/
theorem Layout.empty_describes (m : Memory) {span : Span} (ends : span.epilogueOffset = 24) :
    Layout.empty.Describes ⟨m.format span, .empty⟩ span := by
  have prologue : (m.format span).tag span.prologue = ⟨16, true, true⟩ := by
    unfold Memory.format
    rw [Memory.tag_setTag_of_ne _ _ (by simp only [Span.prologue, Span.epilogue, prologueOffset]; omega),
      Memory.tag_setTag_of_ne _ _ (by simp only [headerSize]; omega), Memory.tag_setTag_self _ _ (by decide) (by decide)]
    rfl
  have epilogue : (m.format span).tag span.epilogue = ⟨0, true, true⟩ := by
    unfold Memory.format
    exact Memory.tag_setTag_self _ _ (by decide) (by decide)
  exact ⟨⟨prologue, ends.symm, Segment.sentinel_iff.mpr epilogue⟩, .nil,
    ⟨fun c => Heads.get_empty c, fun _ => trivial, fun _ => .nil⟩, fun c o => by simp [Layout.empty]⟩

/-! ## Making a heap -/

/-- Rounding up adds the whole unit first, and that sum has to be a 64-bit number. -/
theorem roundUp_eq (first : Nat) : roundUp first =
    if first + 16 < 0x1_0000_0000_0000_0000 then .ok (alignedBase first) else .error .addOverflow := by
  by_cases fits : first + 16 < 0x1_0000_0000_0000_0000
  · have sum : addChecked first 16 = .ok (first + 16) := if_pos fits
    have less : subChecked (first + 16) 1 = .ok (first + 15) := if_pos (by omega)
    have mask : subChecked 16 1 = .ok 15 := rfl
    have cleared : clearLowBits (first + 15) 16 = alignedBase first := clearLowBits_alignment (by omega)
    simp only [roundUp, roundUpTo, alignment, sum, less, mask, cleared, fits, if_true, bind, Except.bind, pure, Except.pure]
  · have sum : addChecked first 16 = .error .addOverflow := if_neg fits
    simp only [roundUp, roundUpTo, alignment, sum, fits, if_false, bind, Except.bind]

theorem roundUp_eq_ok {first base : Nat} (h : roundUp first = .ok base) :
    first + 16 < 0x1_0000_0000_0000_0000 ∧ base = alignedBase first := by
  rw [roundUp_eq] at h
  split at h
  · next fits => exact ⟨fits, (Except.ok.inj h).symm⟩
  · cases h

theorem Span.initial_eq_ok {base : Nat} {span : Span} (h : Span.initial base = .ok span) :
    span.base = base ∧ span.epilogueOffset = 24 := by
  unfold Span.initial at h
  split at h
  · split at h
    · obtain rfl := Except.ok.inj h
      exact ⟨rfl, rfl⟩
    · cases h
  · cases h

/-- A computation that is followed by another one has succeeded. -/
theorem Operation.bind_eq_ok {ε σ α β : Type} {x : EStateM ε σ α} {f : α → EStateM ε σ β} {b : β} {s s' : σ}
    (h : (x >>= f) s = .ok b s') : ∃ a t, x s = .ok a t ∧ f a t = .ok b s' := by
  rw [Operation.bind_apply] at h
  cases run : x s with
  | ok a t =>
    rw [run] at h
    exact ⟨a, t, rfl, h⟩
  | error e t =>
    rw [run] at h
    cases h

/-- A computation without a state that comes to an end leaves the state as it was. -/
theorem Operation.lift_eq_ok {σ α : Type} {x : Except Fault α} {a : α} {s s' : σ}
    (h : (liftM x : EStateM Fault σ α) s = .ok a s') : x = .ok a ∧ s = s' := by
  cases x with
  | error e => cases h
  | ok b =>
    cases h
    exact ⟨rfl, rfl⟩

section Inversion

variable {σ α β : Type} {site site' : Site σ} {b : β}

/-- A computation without a state that is followed by another one has succeeded and left the state as it was. -/
theorem lift_bind_eq_ok {x : Except Fault α} {f : α → EStateM CreationFailure (Site σ) β}
    (h : ((liftM x : EStateM CreationFailure (Site σ) α) >>= f) site = .ok b site') :
    ∃ a, x = .ok a ∧ f a site = .ok b site' := by
  cases x with
  | error e => cases h
  | ok a => exact ⟨a, rfl, h⟩

/-- A request that has to be granted was granted when something came after it. -/
theorem extend_bind_eq_ok [Backing σ] {n : Nat} {e : CreationFailure} {f : Nat → EStateM CreationFailure (Site σ) β}
    (h : (do
      let some a ← modifyGet (Site.extend · n) | throw e
      f a) site = .ok b site') :
    ∃ a, (Backing.extend site.source site.programBreak n).start = some a ∧ f a (site.extend n).2 = .ok b site' := by
  rw [Operation.bind_apply, Operation.modifyGet_apply] at h
  cases answer : (site.extend n).1 with
  | none =>
    simp only [answer] at h
    cases h
  | some a =>
    simp only [answer] at h
    exact ⟨a, answer, h⟩

end Inversion

variable {σ : Type} [Backing σ]

/-- What the making of a heap asks of its source. -/
def creationCalls (first : Nat) : List (Nat × Bool) := [(0, true), (alignedBase first - first + 32, true)]

/-- A span that was formatted begins at the first aligned address of the bytes given and holds no blocks. -/
theorem Heap.format_eq_ok {site site' : Site σ} {span : Span} (made : Heap.format site = .ok span site') :
    ∃ first, (Backing.extend site.source site.programBreak 0).start = some first ∧
      span.base = alignedBase first ∧ span.epilogueOffset = 24 ∧ site'.memory = site.memory.format span ∧
      Asked (site.extend 0).2.source (site.extend 0).2.programBreak [(alignedBase first - first + 32, true)]
        site'.source site'.programBreak := by
  obtain ⟨first, answer, made⟩ := extend_bind_eq_ok made
  obtain ⟨base, round, made⟩ := lift_bind_eq_ok made
  obtain ⟨padding, pad, made⟩ := lift_bind_eq_ok made
  obtain ⟨total, sum, made⟩ := lift_bind_eq_ok made
  obtain ⟨start, answer', made⟩ := extend_bind_eq_ok made
  by_cases contiguous : start = first
  swap
  · simp only [contiguous, ne_eq, not_false_eq_true, if_true] at made
    cases made
  simp only [contiguous, ne_eq, not_true_eq_false, if_false] at made
  obtain ⟨span', initial, made⟩ := lift_bind_eq_ok made
  cases made
  obtain ⟨-, rfl⟩ := roundUp_eq_ok round
  obtain ⟨at_, ends⟩ := Span.initial_eq_ok initial
  obtain rfl : total = alignedBase first - first + 32 := by
    unfold subChecked at pad
    unfold addChecked at sum
    split at pad <;> cases pad
    split at sum <;> cases sum
    rfl
  have asked := Asked.one (site.extend 0).2.source (site.extend 0).2.programBreak (alignedBase first - first + 32)
  rw [answer'] at asked
  exact ⟨first, answer, at_, ends, rfl, asked⟩

/-- A heap that was made lies in a span that was formatted, and its lists are empty. -/
theorem Heap.create_eq_ok {tuning : Tuning} {site site' : Site σ} {heap : Heap σ}
    (made : Heap.create tuning site = .ok heap site') : Heap.format site = .ok heap.span site' ∧
      heap.source = site'.source ∧ heap.heads = .empty ∧ heap.tuning = tuning := by
  by_cases zero : tuning.probeBudget = 0
  · have invalid : tuning.validate = .error _ := if_pos zero
    simp only [Heap.create, invalid] at made
    cases made
  have valid : tuning.validate = .ok tuning := if_neg zero
  simp only [Heap.create, valid] at made
  obtain ⟨span, t, run, made⟩ := Operation.bind_eq_ok made
  cases made
  exact ⟨run, rfl, rfl, rfl⟩

/-- A heap that has been made has no blocks, whatever its source. -/
theorem Heap.create_describes {tuning : Tuning} {site site' : Site σ} {heap : Heap σ}
    (made : Heap.create tuning site = .ok heap site') : Layout.empty.Describes (heap.at site').store (heap.at site').span := by
  obtain ⟨run, -, heads, -⟩ := Heap.create_eq_ok made
  obtain ⟨_, -, -, ends, memory, -⟩ := Heap.format_eq_ok run
  have described := Layout.empty_describes site.memory ends
  rwa [← memory, ← heads] at described

/-- A heap over a source that keeps the contract is healthy when it has been made, and has no blocks. -/
theorem Heap.create_run {C : Contract σ} {tuning : Tuning} {site site' : Site σ} {heap : Heap σ}
    (keeps : C.Keeps site.source site.programBreak) (made : Heap.create tuning site = .ok heap site') :
    ∃ first, (Backing.extend site.source site.programBreak 0).start = some first ∧
      heap.span.base = alignedBase first ∧ heap.tuning = tuning ∧
      Asked site.source site.programBreak (creationCalls first) heap.source site'.programBreak ∧
      (heap.at site').Healthy C Layout.empty := by
  have described := Heap.create_describes made
  obtain ⟨run, source, -, tuned⟩ := Heap.create_eq_ok made
  obtain ⟨first, answer, at_, ends, -, asked⟩ := Heap.format_eq_ok run
  rw [← source] at asked
  obtain ⟨lowest, -, range⟩ := C.granted 0 keeps answer
  obtain ⟨kept, range'⟩ := asked.range_eq C (C.keeps 0 keeps) range
  obtain ⟨order, -⟩ := C.fits (C.keeps 0 keeps) range
  have calls := (Asked.one site.source site.programBreak 0).trans asked
  rw [answer] at calls
  refine ⟨first, answer, at_, tuned, calls, described, kept, lowest, ?_, range'.trans ?_⟩
  · simp only [Heap.at, at_, alignedBase]
    omega
  · simp only [Heap.at, at_, alignedBase, givenBytes, if_true, Span.finish, Span.length, ends, headerSize]
    congr 2
    omega

end SegregatedFit
