import SegregatedFit.Proofs.SharedBreak
import Mathlib.Algebra.Ring.Nat

/-!
# What sources give

A source is asked for bytes any number of times, and in between others may move the program break up or down as they like
(`Supplied`). The sources provided keep their promise to heaps all the same (`Dependable`): the bytes they give follow one
another from the lowest address on, without gap or overlap, and end with the highest address; a request for no bytes tells
where they end and changes nothing; and a refusal changes neither bound (`sources_dependable`).

A reservation keeps the promise because nobody else has a part in it. A data segment does because it remembers where it left
the break: an advance that starts elsewhere is refused, however the break got there, and one that starts there goes on with
the range, even if others moved the break away and back again. The contract of `SharedBreak` does not say that, since it holds
as long as nobody moves the break down; the one here (`DataSegment.lasting`) says less about the break and holds for all moves.
-/

namespace SegregatedFit

/-- Ranges of addresses, each by its first address and its bytes, that follow one another from `first` on and end at `finish`. -/
def Abutting : Nat → List (Nat × Nat) → Nat → Prop
  | first, [], finish => first = finish
  | first, (start, n) :: ranges, finish => start = first ∧ Abutting (start + n) ranges finish

namespace Abutting

variable {first finish : Nat} {ranges : List (Nat × Nat)}

/-- One range more at the end. -/
theorem concat (h : Abutting first ranges finish) (n : Nat) : Abutting first (ranges ++ [(finish, n)]) (finish + n) := by
  induction ranges generalizing first with
  | nil =>
    obtain rfl : first = finish := h
    exact ⟨rfl, rfl⟩
  | cons range ranges ih => exact ⟨h.1, ih h.2⟩

/-- The ranges end behind all their bytes. -/
theorem finish_eq (h : Abutting first ranges finish) : finish = first + (ranges.map Prod.snd).sum := by
  induction ranges generalizing first with
  | nil => exact h.symm
  | cons range ranges ih =>
    obtain ⟨rfl, rest⟩ := h
    rw [ih rest, List.map_cons, List.sum_cons, Nat.add_assoc]

/-- Every address from the first on up to the end lies in exactly one of the ranges, and no other address lies in any. -/
theorem countP_eq (h : Abutting first ranges finish) (a : Nat) :
    ranges.countP (fun r => r.1 ≤ a && a < r.1 + r.2) = if first ≤ a ∧ a < finish then 1 else 0 := by
  induction ranges generalizing first with
  | nil =>
    obtain rfl : first = finish := h
    rw [List.countP_nil, if_neg (by omega)]
  | cons range ranges ih =>
    obtain ⟨start, n⟩ := range
    obtain ⟨rfl, rest⟩ := h
    have ends := rest.finish_eq
    rw [List.countP_cons, ih rest]
    simp only [Bool.and_eq_true, decide_eq_true_eq]
    split <;> split <;> split <;> omega

end Abutting

/-! ## Requests and moves of the break in any order -/

section Supply

variable {σ : Type} [Backing σ]

/-- A source is asked for bytes while others move the program break up and down. The bytes given are named by their first
address and their number, the first ones first. -/
inductive Supplied (x : σ) (b : ProgramBreak) : List (Nat × Nat) → σ → ProgramBreak → Prop where
  | start : Supplied x b [] x b
  | granted {grants : List (Nat × Nat)} {y : σ} {c : ProgramBreak} {n start : Nat} (before : Supplied x b grants y c)
      (answer : (Backing.extend y c n).start = some start) :
      Supplied x b (grants ++ [(start, n)]) (Backing.extend y c n).source (Backing.extend y c n).programBreak
  | refused {grants : List (Nat × Nat)} {y : σ} {c : ProgramBreak} {n : Nat} (before : Supplied x b grants y c)
      (answer : (Backing.extend y c n).start = none) :
      Supplied x b grants (Backing.extend y c n).source (Backing.extend y c n).programBreak
  | moved {grants : List (Nat × Nat)} {y : σ} {c d : ProgramBreak} {n : Int} (before : Supplied x b grants y c)
      (shifted : c.shift n = some d) : Supplied x b grants y d

/-- What a heap may rely on, whatever is asked of the source and whatever others do to the break. -/
structure Dependable (x : σ) (b : ProgramBreak) : Prop where
  contiguous : ∀ {grants y c}, Supplied x b grants y c → grants ≠ [] →
    Abutting (Backing.lowest y) grants (Backing.highest y + 1) ∧ Backing.highest y + 1 < 0x1_0000_0000_0000_0000
  tiled : ∀ {grants y c}, Supplied x b grants y c → grants ≠ [] → ∀ a,
    grants.countP (fun r => r.1 ≤ a && a < r.1 + r.2) = if Backing.lowest y ≤ a ∧ a < Backing.highest y + 1 then 1 else 0
  probed : ∀ {grants y c start}, Supplied x b grants y c → grants ≠ [] → (Backing.extend y c 0).start = some start →
    start = Backing.highest y + 1 ∧ (Backing.extend y c 0).source = y
  refused : ∀ {grants y c n}, Supplied x b grants y c → (Backing.extend y c n).start = none →
    Backing.lowest (Backing.extend y c n).source = Backing.lowest y ∧
      Backing.highest (Backing.extend y c n).source = Backing.highest y

/-- A contract that is kept also while others move the break as they like. A source that refuses, or is asked for no bytes once
it has a range, is as it was, and the bounds reported are those of an empty range, too. -/
structure Contract.Lasts (C : Contract σ) : Prop where
  moved : ∀ {x b c n}, C.Keeps x b → b.shift n = some c → C.Keeps x c
  refused : ∀ {x b n}, C.Keeps x b → (Backing.extend x b n).start = none → (Backing.extend x b n).source = x
  probed : ∀ {x b r start}, C.Keeps x b → C.range x = some r → (Backing.extend x b 0).start = some start →
    (Backing.extend x b 0).source = x
  bounds : ∀ {x b first finish}, C.Keeps x b → C.range x = some (first, finish) →
    Backing.lowest x = first ∧ Backing.highest x + 1 = finish

variable {C : Contract σ} {x y : σ} {b c : ProgramBreak} {grants : List (Nat × Nat)}

/-- The promises go on to hold, and the bytes given so far make up the range. -/
theorem Supplied.abutting (run : Supplied x b grants y c) (lasts : C.Lasts) (keeps : C.Keeps x b)
    (empty : ∀ first finish, C.range x = some (first, finish) → first = finish) : C.Keeps y c ∧
    (C.range y = none → grants = []) ∧ ∀ first finish, C.range y = some (first, finish) → Abutting first grants finish := by
  induction run with
  | start => exact ⟨keeps, fun _ => rfl, empty⟩
  | @granted grants y c n start _ answer ih =>
    obtain ⟨kept, fresh, abutting⟩ := ih
    obtain ⟨first, old, new⟩ := C.granted n kept answer
    refine ⟨C.keeps n kept, ?_, ?_⟩
    · intro none
      cases none.symm.trans new
    -- The bytes begin where those given before end, unless they are the first ones.
    intro first' finish range
    obtain ⟨rfl, rfl⟩ := Prod.mk.inj (Option.some.inj (new.symm.trans range))
    rcases old with range | ⟨none, rfl⟩
    · exact (abutting _ _ range).concat n
    · rw [fresh none]
      exact ⟨rfl, rfl⟩
  | refused _ answer ih =>
    obtain ⟨kept, fresh, abutting⟩ := ih
    rw [C.refused _ kept answer]
    exact ⟨C.keeps _ kept, fresh, abutting⟩
  | moved _ shifted ih => exact ⟨lasts.moved ih.1 shifted, ih.2⟩

/-- A source that keeps a contract which lasts is dependable, as long as it has given nothing yet. -/
theorem Contract.Lasts.dependable (lasts : C.Lasts) (keeps : C.Keeps x b)
    (empty : ∀ first finish, C.range x = some (first, finish) → first = finish) : Dependable x b := by
  have given : ∀ {grants y c}, Supplied x b grants y c → grants ≠ [] →
      C.range y = some (Backing.lowest y, Backing.highest y + 1) ∧
        Abutting (Backing.lowest y) grants (Backing.highest y + 1) := by
    intro grants y c run some
    obtain ⟨kept, fresh, abutting⟩ := run.abutting lasts keeps empty
    cases range : C.range y with
    | none => exact absurd (fresh range) some
    | some r =>
      obtain ⟨lowest, highest⟩ := lasts.bounds kept range
      rw [lowest, highest]
      exact ⟨rfl, abutting _ _ range⟩
  refine ⟨?_, ?_, ?_, ?_⟩
  · intro grants y c run some
    obtain ⟨range, abutting⟩ := given run some
    exact ⟨abutting, (C.fits (run.abutting lasts keeps empty).1 range).2⟩
  · intro grants y c run some a
    exact (given run some).2.countP_eq a
  · intro grants y c start run some answer
    have kept := (run.abutting lasts keeps empty).1
    have range := (given run some).1
    exact ⟨C.start_eq kept range answer, lasts.probed kept range answer⟩
  · intro grants y c n run answer
    rw [lasts.refused (run.abutting lasts keeps empty).1 answer]
    exact ⟨rfl, rfl⟩

end Supply

/-! ## Reservations -/

namespace Reserve

/-- Where the machine puts reservations: never at address zero, and always before the end of the address space. -/
def Places (place : Nat → Option Nat) : Prop :=
  ∀ capacity base, place capacity = some base → 0 < base ∧ base + capacity < 0x1_0000_0000_0000_0000

/-- A reservation that does not begin at address zero keeps the contract. -/
def lasting : Contract Reserve where
  Keeps r b := Reserve.contract.Keeps r b ∧ 0 < r.base
  range := Reserve.contract.range
  keeps := by
    rintro r b n ⟨keeps, positive⟩
    refine ⟨Reserve.contract.keeps n keeps, ?_⟩
    simp only [Backing.extend]
    split <;> exact positive
  refused n h := Reserve.contract.refused n h.1
  granted n _ h := Reserve.contract.granted n h.1
  fits h := Reserve.contract.fits h.1
  bounds h := Reserve.contract.bounds h.1

/-- A reservation that refuses is as it was. -/
theorem source_of_refused {r : Reserve} {b : ProgramBreak} {n : Nat} (answer : (Backing.extend r b n).start = none) :
    (Backing.extend r b n).source = r := by
  simp only [Backing.extend] at answer ⊢
  split at answer
  · next short => rw [if_pos short]
  · cases answer

theorem lasting_lasts : lasting.Lasts where
  moved h _ := h
  refused _ := source_of_refused
  probed := by
    intro r b _ start _ _ _
    simp only [Backing.extend, Nat.not_lt_zero, if_false, Nat.add_zero]
  bounds := by
    rintro r b first finish ⟨-, positive⟩ range
    obtain ⟨rfl, rfl⟩ := Prod.mk.inj (Option.some.inj range)
    simp only [Backing.lowest, Backing.highest, true_and]
    omega

variable {capacity : Nat} {place : Nat → Option Nat} {r s : Reserve} {b c : ProgramBreak} {grants : List (Nat × Nat)}

/-- A reservation that was made is a fresh one at the place that the machine found. -/
theorem create_eq_ok (made : create capacity place = .ok r) : ∃ base, place capacity = some base ∧ r = { base, capacity } := by
  unfold create at made
  split at made
  · cases made
  · split at made
    · cases made
    · next base placed => exact ⟨base, placed, (Except.ok.inj made).symm⟩

/-- A request to a reservation is granted when so many bytes are left, from the first of them on. -/
theorem extend_start (r : Reserve) (b : ProgramBreak) (n : Nat) :
    (Backing.extend r b n).start = if n ≤ r.remaining then some (r.base + r.used) else none := by
  simp only [Backing.extend]
  by_cases short : r.remaining < n
  · rw [if_pos short, if_neg (Nat.not_le_of_lt short)]
  · rw [if_neg short, if_pos (Nat.le_of_not_lt short)]

/-- A reservation as it is after it gave some bytes: it stays where it is and as large as it is, its used bytes are those it
gave, the bounds reported are those of the used bytes, and a request is granted when so many bytes are left. -/
structure Metered (r s : Reserve) (grants : List (Nat × Nat)) : Prop where
  base : s.base = r.base
  capacity : s.capacity = r.capacity
  used_le : s.used ≤ s.capacity
  used_eq : s.used = (grants.map Prod.snd).sum
  lowest : Backing.lowest s = r.base
  highest : Backing.highest s = r.base + s.used - 1
  start_eq : ∀ b n, (Backing.extend s b n).start = if n ≤ s.capacity - s.used then some (r.base + s.used) else none

theorem Metered.of_base (base : s.base = r.base) (capacity : s.capacity = r.capacity) (used_le : s.used ≤ s.capacity)
    (used_eq : s.used = (grants.map Prod.snd).sum) : Metered r s grants :=
  ⟨base, capacity, used_le, used_eq, base, by rw [← base]; rfl, fun b n => base ▸ extend_start s b n⟩

/-- Whatever is asked of a fresh reservation, it is metered. -/
theorem metered (run : Supplied r b grants s c) (fresh : r.used = 0) : Metered r s grants := by
  induction run with
  | start => exact .of_base rfl rfl (by omega) fresh
  | @granted grants s c n start _ answer ih =>
    rw [extend_start] at answer
    split at answer
    · next enough =>
      have short : ¬ s.remaining < n := Nat.not_lt_of_le enough
      have fits := ih.used_le
      have sum := ih.used_eq
      simp only [remaining] at enough
      refine .of_base ?_ ?_ ?_ ?_
      all_goals simp only [Backing.extend, short, if_false]
      · exact ih.base
      · exact ih.capacity
      · omega
      · simp only [List.map_append, List.sum_append, List.map_cons, List.map_nil, List.sum_singleton, ← sum]
    · cases answer
  | refused _ answer ih =>
    rw [source_of_refused answer]
    exact ih
  | moved _ _ ih => exact ih

end Reserve

/-! ## The program break -/

namespace ProgramBreak

variable {b c : ProgramBreak} {n : Nat}

theorem yielding_lt (h : b.top < 0x1_0000_0000_0000_0000) (n : Nat) : (b.yielding n).top < 0x1_0000_0000_0000_0000 := by
  unfold yielding
  split
  · next fits => exact (reaches_iff.mp fits).2
  · exact h

/-- The break stays an address when it is advanced. -/
theorem advance_lt (h : b.top < 0x1_0000_0000_0000_0000) (n : Nat) : (b.advance n).2.top < 0x1_0000_0000_0000_0000 := by
  unfold advance
  generalize yields : b.yielding (b.drift b.calls) = c
  have address : c.top < 0x1_0000_0000_0000_0000 := yields ▸ yielding_lt h _
  dsimp only
  split
  · exact address
  · next granted =>
    simp only [Bool.or_eq_true, Bool.not_eq_true', not_or, Bool.not_eq_false] at granted
    exact (reaches_iff.mp granted.2).2

/-- The break stays an address when others move it. -/
theorem shift_lt (h : b.top < 0x1_0000_0000_0000_0000) {n : Int} (shifted : b.shift n = some c) :
    c.top < 0x1_0000_0000_0000_0000 := by
  cases n with
  | ofNat n =>
    simp only [shift] at shifted
    split at shifted <;> cases shifted
    exact yielding_lt h n
  | negSucc n =>
    simp only [shift] at shifted
    split at shifted <;> cases shifted
    simp only
    omega

end ProgramBreak

namespace DataSegment

/-- The break is an address, and so are the ends of the range, which does not begin at address zero. -/
structure Bounded (d : DataSegment) (b : ProgramBreak) : Prop where
  address : b.top < 0x1_0000_0000_0000_0000
  ordered : ∀ first finish, d.range = some (first, finish) →
    0 < first ∧ first ≤ finish ∧ finish < 0x1_0000_0000_0000_0000

variable {d : DataSegment} {b c : ProgramBreak} {n start : Nat}

/-- The break stays an address when a segment asks for bytes. -/
theorem extend_lt (h : b.top < 0x1_0000_0000_0000_0000) (d : DataSegment) (n : Nat) :
    (Backing.extend d b n).programBreak.top < 0x1_0000_0000_0000_0000 := by
  have advanced := ProgramBreak.advance_lt h n
  rw [show Backing.extend d b n = d.extend b n from rfl, extend]
  generalize b.advance n = step at advanced ⊢
  obtain ⟨_ | _ | start, c⟩ := step
  all_goals
    split
    · exact h
  · exact advanced
  · exact advanced
  · simp only
    split <;> exact advanced

/-- Bytes never begin at address zero. -/
theorem start_pos (answer : (Backing.extend d b n).start = some start) : 0 < start := by
  rw [show Backing.extend d b n = d.extend b n from rfl, extend] at answer
  split at answer
  · cases answer
  generalize b.advance n = step at answer
  obtain ⟨_ | _ | start', c⟩ := step
  · cases answer
  · cases answer
  · simp only at answer
    split at answer
    · cases answer
    · cases answer
      exact Nat.succ_pos _

/-- A segment that refuses is as it was. -/
theorem source_of_refused (answer : (Backing.extend d b n).start = none) : (Backing.extend d b n).source = d := by
  obtain ⟨c, -, ⟨-, source, -⟩ | ⟨-, first, calls, -, given, -⟩⟩ := extend_cases d b n
  · exact source
  · cases answer.symm.trans given

/-- A segment that is given bytes goes on with its range, or begins one. -/
theorem source_of_granted (answer : (Backing.extend d b n).start = some start) : ∃ first,
    (d.range = some (first, start) ∨ d.range = none ∧ first = start) ∧
      (Backing.extend d b n).source = ⟨some (first, start + n)⟩ ∧ start + n < 0x1_0000_0000_0000_0000 := by
  obtain ⟨c, -, ⟨refused, -⟩ | ⟨fits, first, calls, joined, given, source, -⟩⟩ := extend_cases d b n
  · cases answer.symm.trans refused
  · cases answer.symm.trans given
    exact ⟨first, joined, source, fits⟩

/-- Asking for bytes keeps a segment bounded. -/
theorem Bounded.extend (h : d.Bounded b) (n : Nat) :
    Bounded (Backing.extend d b n).source (Backing.extend d b n).programBreak := by
  refine ⟨extend_lt h.address d n, ?_⟩
  intro first finish range
  cases answer : (Backing.extend d b n).start with
  | none =>
    rw [source_of_refused answer] at range
    exact h.ordered first finish range
  | some start =>
    obtain ⟨first', joined, source, fits⟩ := source_of_granted answer
    rw [source] at range
    cases range
    -- A range that is begun begins at the break, which was not at address zero then.
    have positive := start_pos answer
    rcases joined with range | ⟨-, rfl⟩
    · have := h.ordered _ _ range
      omega
    · omega

/-- The bounds that a bounded segment reports are those of its range, also when that is empty. -/
theorem Bounded.bounds (h : d.Bounded b) {first finish : Nat} (range : d.range = some (first, finish)) :
    Backing.lowest d = first ∧ Backing.highest d + 1 = finish := by
  have := h.ordered _ _ range
  simp only [Backing.lowest, Backing.highest, range, Option.map_some, Option.getD_some, true_and]
  omega

/-- A segment keeps the contract however others move the break. -/
def lasting : Contract DataSegment where
  Keeps := Bounded
  range := DataSegment.range
  keeps n h := h.extend n
  refused n _ answer := by rw [source_of_refused answer]
  granted n _ _ answer := by
    obtain ⟨first, joined, source, -⟩ := source_of_granted answer
    exact ⟨first, joined, by rw [source]⟩
  fits h range := (h.ordered _ _ range).2
  bounds h range _ := h.bounds range

theorem lasting_lasts : lasting.Lasts where
  moved h shifted := ⟨ProgramBreak.shift_lt h.address shifted, h.ordered⟩
  refused _ := source_of_refused
  probed := by
    intro d b r start _ range answer
    obtain ⟨first, joined, source, -⟩ := source_of_granted answer
    rw [source]
    rcases joined with here | ⟨none, -⟩
    · exact congrArg DataSegment.mk here.symm
    · cases range.symm.trans none
  bounds h range := h.bounds range

end DataSegment

/-! ## The sources provided -/

/-- Reservations and data segments are dependable, whatever is asked of them and however others move the break; and what is
left of a reservation is always what it has not given yet. -/
theorem sources_dependable :
    (∀ (capacity : Nat) (place : Nat → Option Nat) (r : Reserve) (b : ProgramBreak), Reserve.Places place →
      Reserve.create capacity place = .ok r → r.capacity = capacity ∧ Dependable r b ∧
        ∀ grants s c, Supplied r b grants s c → r.Metered s grants) ∧
    ∀ b : ProgramBreak, b.top < 0x1_0000_0000_0000_0000 → Dependable ({} : DataSegment) b := by
  refine ⟨?_, ?_⟩
  · intro capacity place r b places made
    obtain ⟨base, placed, rfl⟩ := Reserve.create_eq_ok made
    obtain ⟨positive, fits⟩ := places capacity base placed
    refine ⟨rfl, Reserve.lasting_lasts.dependable ⟨⟨Nat.zero_le _, fits⟩, positive⟩ ?_, ?_⟩
    · rintro first finish ⟨⟩
      rfl
    · intro grants s c run
      exact Reserve.metered run rfl
  · intro b address
    refine DataSegment.lasting_lasts.dependable ⟨address, ?_⟩ ?_
    all_goals
      rintro first finish ⟨⟩

/-- A segment is given sixteen bytes; others take eight, so the next request is refused and its bytes are lost; others give all
of that back, and then the segment goes on where it ended. A reservation of as many bytes is used up. -/
theorem sources_dependable_returned : ∃ (d : DataSegment) (b c : ProgramBreak) (r s : Reserve) (place : Nat → Option Nat),
    Supplied {} b [(4104, 16), (4120, 32)] d c ∧ Abutting 4104 [(4104, 16), (4120, 32)] 4152 ∧
    Dependable ({} : DataSegment) b ∧ Reserve.Places place ∧ Reserve.create 48 place = .ok r ∧
    Supplied r b [(4096, 16), (4112, 32)] s b ∧ s.remaining = 0 ∧ Dependable r b ∧ r.Metered s [(4096, 16), (4112, 32)] := by
  have segment : Supplied ({} : DataSegment) { top := 4104 } [] {} { top := 4104 } := .start
  have first := segment.granted (n := 16) rfl
  have away := first.moved (n := 8) rfl
  have refused := away.refused (n := 24) rfl
  have back := refused.moved (n := -32) rfl
  have second := back.granted (n := 32) rfl
  have dependable := sources_dependable.2 { top := 4104 } (by decide)
  have reserve : Supplied ({ base := 4096, capacity := 48 } : Reserve) { top := 4104 } [] _ { top := 4104 } := .start
  have used := (reserve.granted (n := 16) rfl).granted (n := 32) rfl
  have places : Reserve.Places fun n => if n ≤ 4096 then some 4096 else none := by
    intro capacity base placed
    obtain ⟨small, placed⟩ := Option.ite_none_right_eq_some.mp placed
    obtain rfl := Option.some.inj placed
    omega
  have made : Reserve.create 48 (fun n => if n ≤ 4096 then some 4096 else none) = .ok { base := 4096, capacity := 48 } := rfl
  obtain ⟨-, dependable', metered⟩ := sources_dependable.1 48 _ _ { top := 4104 } places made
  exact ⟨_, _, _, _, _, _, second, (dependable.contiguous second (by decide)).1, dependable, places, made, used, rfl,
    dependable', metered _ _ _ used⟩

end SegregatedFit
