import SegregatedFit.Backing.DataSegment
import SegregatedFit.Proofs.Contract

/-!
# The program break is shared

The break only moves up, as long as nobody moves it down, and what anyone takes of it begins where it stood
(`ProgramBreak.Later`). So a range that ends at or below the break has nothing in common with what is taken afterwards, and a
data segment keeps the contract of sources whatever others do (`DataSegment.contract`, `DataSegment.Holds.mono`).

A segment that ends below the break is given nothing any more: an advance starts at the break, so it does not join
(`DataSegment.top_eq_of_given`).
-/

namespace SegregatedFit

namespace ProgramBreak

/-- The break is an address, and what others took lies below it. -/
structure Proper (b : ProgramBreak) : Prop where
  address : b.top < 0x1_0000_0000_0000_0000
  below : ∀ r ∈ b.taken, r.2 ≤ b.top

/-- A break at a later time: it has not moved down, and what others took since lies above where it was. -/
structure Later (b c : ProgramBreak) : Prop where
  top : b.top ≤ c.top
  proper : b.Proper → c.Proper
  fresh : ∀ r ∈ c.taken, r ∈ b.taken ∨ b.top ≤ r.1

variable {b c d : ProgramBreak} {n start : Nat}

theorem Later.refl (b : ProgramBreak) : b.Later b := ⟨Nat.le_refl _, id, fun _ => .inl⟩

theorem Later.trans (h : b.Later c) (h' : c.Later d) : b.Later d := by
  refine ⟨Nat.le_trans h.top h'.top, h'.proper ∘ h.proper, ?_⟩
  intro r hr
  rcases h'.fresh r hr with old | above
  · exact h.fresh r old
  · exact .inr (Nat.le_trans h.top above)

theorem reaches_iff : b.reaches n = true ↔ b.top ≠ 0xffff_ffff_ffff_ffff ∧ b.top + n < 0x1_0000_0000_0000_0000 := by
  simp [reaches]

/-- Others take bytes. -/
theorem later_yielding (b : ProgramBreak) (n : Nat) : b.Later (b.yielding n) := by
  unfold yielding
  split
  · next fits =>
    refine ⟨Nat.le_add_right _ _, fun proper => ⟨(reaches_iff.mp fits).2, ?_⟩, ?_⟩
    · rintro r (_ | ⟨_, old⟩)
      · exact Nat.le_refl _
      · exact Nat.le_trans (proper.below r old) (Nat.le_add_right _ _)
    · rintro r (_ | ⟨_, old⟩)
      · exact .inr (Nat.le_refl _)
      · exact .inl old
  · exact .refl b

/-- A source takes bytes. -/
theorem Later.take {calls : Nat} (fits : b.top + n < 0x1_0000_0000_0000_0000) :
    b.Later { b with top := b.top + n, calls } :=
  ⟨Nat.le_add_right _ _, fun proper => ⟨fits, fun r hr => Nat.le_trans (proper.below r hr) (Nat.le_add_right _ _)⟩,
    fun _ => .inl⟩

/-- An advance is refused, or it starts where others left the break and goes up by the bytes asked for. -/
theorem advance_cases (b : ProgramBreak) (n : Nat) : ∃ c, b.Later c ∧
    (b.advance n = (none, c) ∨ c.top + n < 0x1_0000_0000_0000_0000 ∧
      ∃ calls, b.advance n = (some c.top, { c with top := c.top + n, calls })) := by
  have later := b.later_yielding (b.drift b.calls)
  unfold advance
  generalize b.yielding (b.drift b.calls) = c at later
  by_cases refused : (c.refuses c.calls n || !c.reaches n) = true
  · exact ⟨{ c with calls := c.calls + 1 }, ⟨later.top, fun proper => ⟨(later.proper proper).1, (later.proper proper).2⟩,
      later.fresh⟩, .inl (if_pos refused)⟩
  · refine ⟨c, later, .inr ⟨?_, c.calls + 1, if_neg refused⟩⟩
    have fits : c.reaches n = true := by
      simp only [Bool.or_eq_true, Bool.not_eq_true', not_or, Bool.not_eq_false] at refused
      exact refused.2
    exact (reaches_iff.mp fits).2

/-- Others move the break up. -/
theorem later_shift (moved : b.shift (n : Int) = some c) : b.Later c := by
  have later := b.later_yielding n
  simp only [shift] at moved
  split at moved
  · cases moved
  · cases moved
    exact ⟨later.top, fun proper => ⟨(later.proper proper).1, (later.proper proper).2⟩, later.fresh⟩

end ProgramBreak

namespace DataSegment

/-- The range of a segment lies below the break and has no address in common with what others took. -/
structure Holds (d : DataSegment) (b : ProgramBreak) : Prop where
  proper : b.Proper
  ordered : ∀ first finish, d.range = some (first, finish) → first ≤ finish ∧ finish ≤ b.top
  apart : ∀ first finish, d.range = some (first, finish) → ∀ r ∈ b.taken, ∀ a, r.1 ≤ a → a < r.2 → a < first ∨ finish ≤ a

variable {d : DataSegment} {b c : ProgramBreak} {n : Nat}

/-- What others do to the break leaves the range alone. -/
theorem Holds.mono (h : d.Holds b) (later : b.Later c) : d.Holds c where
  proper := later.proper h.proper
  ordered first finish range := by
    obtain ⟨order, below⟩ := h.ordered first finish range
    exact ⟨order, Nat.le_trans below later.top⟩
  apart first finish range r hr a low high := by
    rcases later.fresh r hr with old | above
    · exact h.apart first finish range r old a low high
    · have := h.ordered first finish range
      exact .inr (by omega)

/-- A range is made, or goes on where it ends. -/
theorem joins_eq_ok {start first : Nat} (h : d.joins start = .ok first) :
    d.range = some (first, start) ∨ d.range = none ∧ first = start := by
  unfold joins at h
  split at h
  · next none =>
    cases h
    exact .inr ⟨none, rfl⟩
  · next range =>
    split at h
    · next here =>
      cases h
      rw [here]
      exact .inl range
    · cases h

/-- A request is refused and leaves the segment as it was, or it starts at the break, which goes up by the bytes asked for. -/
theorem extend_cases (d : DataSegment) (b : ProgramBreak) (n : Nat) : ∃ c, b.Later c ∧
    ((Backing.extend d b n).start = none ∧ (Backing.extend d b n).source = d ∧ (Backing.extend d b n).programBreak = c ∨
      c.top + n < 0x1_0000_0000_0000_0000 ∧ ∃ first calls, (d.range = some (first, c.top) ∨ d.range = none ∧ first = c.top) ∧
        (Backing.extend d b n).start = some c.top ∧ (Backing.extend d b n).source = ⟨some (first, c.top + n)⟩ ∧
        (Backing.extend d b n).programBreak = { c with top := c.top + n, calls }) := by
  rw [show Backing.extend d b n = d.extend b n from rfl]
  unfold extend
  split
  · exact ⟨b, .refl b, .inl ⟨rfl, rfl, rfl⟩⟩
  obtain ⟨c, later, refused | ⟨fits, calls, given⟩⟩ := b.advance_cases n
  · rw [refused]
    exact ⟨c, later, .inl ⟨rfl, rfl, rfl⟩⟩
  · have lost : b.Later { c with top := c.top + n, calls } := later.trans (.take fits)
    rw [given]
    by_cases null : c.top = 0
    · refine ⟨_, lost, .inl ?_⟩
      simp only [null, and_self]
    simp only
    cases joined : d.joins c.top with
    | error moved => exact ⟨_, lost, .inl ⟨rfl, rfl, rfl⟩⟩
    | ok first => exact ⟨c, later, .inr ⟨fits, first, calls, joins_eq_ok joined, rfl, rfl, rfl⟩⟩

variable {first finish : Nat}

/-- A range that is made or goes on at the break. -/
theorem Holds.take (h : d.Holds b) {calls : Nat} (fits : b.top + n < 0x1_0000_0000_0000_0000)
    (joined : d.range = some (first, b.top) ∨ d.range = none ∧ first = b.top) :
    Holds ⟨some (first, b.top + n)⟩ { b with top := b.top + n, calls } := by
  have le : first ≤ b.top := by
    rcases joined with range | ⟨-, rfl⟩
    · exact (h.ordered _ _ range).1
    · exact Nat.le_refl _
  refine ⟨(ProgramBreak.Later.take fits).proper h.proper, ?_, ?_⟩
  · rintro _ _ ⟨⟩
    exact ⟨Nat.le_trans le (Nat.le_add_right _ _), Nat.le_refl _⟩
  · rintro _ _ ⟨⟩ r hr a low high
    have below := h.proper.below r hr
    rcases joined with range | ⟨-, rfl⟩
    · have := h.apart _ _ range r hr a low high
      exact .inl (by omega)
    · exact .inl (by omega)

/-- A segment whose range lies below the break and apart from what others took keeps the contract, and goes on to do so
whatever others do. -/
def contract : Contract DataSegment where
  Keeps := Holds
  range := DataSegment.range
  keeps := by
    intro d b n h
    obtain ⟨c, later, ⟨-, source, moved⟩ | ⟨fits, first, calls, joined, -, source, moved⟩⟩ := extend_cases d b n
    · rw [source, moved]
      exact h.mono later
    · rw [source, moved]
      exact (h.mono later).take fits joined
  refused := by
    intro d b n h answer
    obtain ⟨c, later, ⟨-, source, -⟩ | ⟨-, first, calls, -, given, -⟩⟩ := extend_cases d b n
    · rw [source]
    · cases answer.symm.trans given
  granted := by
    intro d b n start h answer
    obtain ⟨c, later, ⟨refused, -⟩ | ⟨-, first, calls, joined, given, source, -⟩⟩ := extend_cases d b n
    · cases answer.symm.trans refused
    · cases answer.symm.trans given
      exact ⟨first, joined, congrArg range source⟩
  fits := by
    intro d b first finish h range
    have := h.ordered first finish range
    have := h.proper.address
    omega
  bounds := by
    intro d b first finish h range order
    simp only [Backing.lowest, Backing.highest, range, Option.map_some, Option.getD_some, true_and]
    omega

/-- A source that has given nothing yet. -/
theorem holds_new (proper : b.Proper) : Holds {} b where
  proper := proper
  ordered first finish range := by cases range
  apart first finish range := by cases range

/-! ## Several requests -/

variable {calls : List (Nat × Bool)} {e : DataSegment}

/-- Whatever is asked for, the break does not move down. -/
theorem later_of_asked (asked : Asked d b calls e c) : b.Later c := by
  induction asked with
  | nil => exact .refl _
  | @cons d e b c calls n _ ih =>
    obtain ⟨c', later, ⟨-, -, moved⟩ | ⟨fits, first, made, -, -, -, moved⟩⟩ := extend_cases d b n
    · rw [moved] at ih
      exact later.trans ih
    · rw [moved] at ih
      exact (later.trans (.take fits)).trans ih

/-- A segment is given more only while the break stands at its end. -/
theorem top_eq_of_given (asked : Asked d b calls e c) (h : d.Holds b) (range : d.range = some (first, finish)) :
    givenBytes calls = 0 ∨ b.top = finish := by
  induction asked with
  | nil => exact .inl rfl
  | @cons d e b c calls n _ ih =>
    have below := (h.ordered _ _ range).2
    obtain ⟨c', later, ⟨refused, source, moved⟩ | ⟨-, first', made, joined, -⟩⟩ := extend_cases d b n
    · rw [source, moved] at ih
      rcases ih (h.mono later) range with nothing | here
      · simp only [givenBytes, refused, Option.isSome_none, Bool.false_eq_true, if_false, nothing]
        exact .inl trivial
      · have := later.top
        exact .inr (by omega)
    · rcases joined with here | ⟨none, -⟩
      · obtain ⟨-, here⟩ := Prod.mk.inj (Option.some.inj (range.symm.trans here))
        have := later.top
        exact .inr (by omega)
      · cases range.symm.trans none

end DataSegment

end SegregatedFit
