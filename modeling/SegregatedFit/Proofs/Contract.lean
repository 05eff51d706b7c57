import SegregatedFit.Backing.Reserve

/-!
# What a source promises

A source keeps the contract when its range stays in one piece: a request for bytes is either refused, and then the range is
as it was, or it is answered with the present end of the range, which then grows by the bytes asked for; the bounds reported
are those of the range, and the range does not reach the end of the address space. Nothing is said about which requests
are refused.

`Asked` names the requests that were made between two states of a source. Everything that the contract says about one request
it says about any number of them.
-/

namespace SegregatedFit

/-- What a source promises, from the states on that are singled out. -/
structure Contract (σ : Type) [Backing σ] where
  /-- The states of the source and of the program break in which the promises hold. -/
  Keeps : σ → ProgramBreak → Prop
  /-- The first address of the range given so far and the first address behind it, once there is a range. -/
  range : σ → Option (Nat × Nat)
  /-- The promises go on to hold whatever is asked for. -/
  keeps : ∀ {x b} n, Keeps x b → Keeps (Backing.extend x b n).source (Backing.extend x b n).programBreak
  /-- A refusal leaves the range alone. -/
  refused : ∀ {x b} n, Keeps x b → (Backing.extend x b n).start = none →
    range (Backing.extend x b n).source = range x
  /-- The bytes given begin at the end of the range, or begin a range when there is none, and the range ends behind them. -/
  granted : ∀ {x b} n {start}, Keeps x b → (Backing.extend x b n).start = some start →
    ∃ first, (range x = some (first, start) ∨ range x = none ∧ first = start) ∧
      range (Backing.extend x b n).source = some (first, start + n)
  /-- The range ends before the address space does. -/
  fits : ∀ {x b first finish}, Keeps x b → range x = some (first, finish) → first ≤ finish ∧ finish < 0x1_0000_0000_0000_0000
  /-- The bounds reported are the first and the last address of the range. -/
  bounds : ∀ {x b first finish}, Keeps x b → range x = some (first, finish) → first < finish →
    Backing.lowest x = first ∧ Backing.highest x + 1 = finish

/-- A source was asked for some numbers of bytes one after the other, and gave them where the flag says so. -/
inductive Asked {σ : Type} [Backing σ] : σ → ProgramBreak → List (Nat × Bool) → σ → ProgramBreak → Prop where
  | nil (x : σ) (b : ProgramBreak) : Asked x b [] x b
  | cons {x y : σ} {b c : ProgramBreak} {calls : List (Nat × Bool)} (n : Nat)
      (rest : Asked (Backing.extend x b n).source (Backing.extend x b n).programBreak calls y c) :
      Asked x b ((n, (Backing.extend x b n).start.isSome) :: calls) y c

/-- The bytes that were given. -/
def givenBytes : List (Nat × Bool) → Nat
  | [] => 0
  | (n, granted) :: calls => (if granted then n else 0) + givenBytes calls

namespace Asked

variable {σ : Type} [Backing σ] {x y z : σ} {b c d : ProgramBreak} {calls calls' : List (Nat × Bool)}

/-- One request. -/
theorem one (x : σ) (b : ProgramBreak) (n : Nat) :
    Asked x b [(n, (Backing.extend x b n).start.isSome)] (Backing.extend x b n).source
      (Backing.extend x b n).programBreak := cons n (nil _ _)

theorem trans (h : Asked x b calls y c) (h' : Asked y c calls' z d) : Asked x b (calls ++ calls') z d := by
  induction h with
  | nil => exact h'
  | cons n _ ih => exact cons n (ih h')

/-- The promises go on to hold, and the range has grown by the bytes given. -/
theorem range_eq (C : Contract σ) (h : Asked x b calls y c) (keeps : C.Keeps x b) {first finish : Nat}
    (range : C.range x = some (first, finish)) :
    C.Keeps y c ∧ C.range y = some (first, finish + givenBytes calls) := by
  induction h generalizing finish with
  | nil => exact ⟨keeps, range⟩
  | @cons x y b c calls n _ ih =>
    have kept := C.keeps n keeps
    cases answer : (Backing.extend x b n).start with
    | none =>
      have same := C.refused n keeps answer
      simpa [givenBytes, answer] using ih kept (same.trans range)
    | some start =>
      obtain ⟨first', old, new⟩ := C.granted n keeps answer
      rw [range] at old
      obtain ⟨rfl, rfl⟩ : first = first' ∧ finish = start := by simpa using old
      simpa [givenBytes, answer, Nat.add_assoc] using ih kept new

end Asked

/-- The bytes given begin where the range ends. -/
theorem Contract.start_eq {σ : Type} [Backing σ] (C : Contract σ) {x : σ} {b : ProgramBreak} {first finish start n : Nat}
    (keeps : C.Keeps x b) (range : C.range x = some (first, finish)) (answer : (Backing.extend x b n).start = some start) :
    start = finish := by
  obtain ⟨first', old, -⟩ := C.granted n keeps answer
  rw [range] at old
  obtain ⟨-, rfl⟩ : first = first' ∧ finish = start := by simpa using old
  rfl

/-! ## Sources that keep the contract -/

/-- A reservation that ends before the address space does keeps the contract. -/
def Reserve.contract : Contract Reserve where
  Keeps r _ := r.used ≤ r.capacity ∧ r.base + r.capacity < 0x1_0000_0000_0000_0000
  range r := some (r.base, r.base + r.used)
  keeps := by
    rintro r b n ⟨used, fits⟩
    simp only [Backing.extend]
    split
    · exact ⟨used, fits⟩
    · next enough =>
      simp only [remaining] at enough
      exact ⟨by simp only; omega, fits⟩
  refused := by
    intro r b n _ answer
    simp only [Backing.extend] at answer ⊢
    split at answer
    · next short => rw [if_pos short]
    · cases answer
  granted := by
    intro r b n start _ answer
    simp only [Backing.extend] at answer ⊢
    split at answer
    · cases answer
    · next enough =>
      obtain rfl := Option.some.inj answer
      exact ⟨r.base, .inl rfl, by rw [if_neg enough]; simp only [Nat.add_assoc]⟩
  fits := by
    rintro r b first finish ⟨used, fits⟩ range
    obtain ⟨rfl, rfl⟩ := Prod.mk.inj (Option.some.inj range)
    omega
  bounds := by
    rintro r b first finish _ range order
    obtain ⟨rfl, rfl⟩ := Prod.mk.inj (Option.some.inj range)
    simp only [Backing.lowest, Backing.highest, true_and]
    omega

/-- A source together with the requests made to it, each with whether it was granted. -/
structure Recording (σ : Type) where
  source : σ
  calls : List (Nat × Bool) := []

namespace Recording

variable {σ : Type} [Backing σ]

instance : Backing (Recording σ) where
  extend r b n :=
    let e := Backing.extend r.source b n
    { start := e.start, source := ⟨e.source, r.calls ++ [(n, e.start.isSome)]⟩, programBreak := e.programBreak,
      records := e.records }
  lowest r := Backing.lowest r.source
  highest r := Backing.highest r.source

/-- Recording the requests does not change what a source promises. -/
def contract (C : Contract σ) : Contract (Recording σ) where
  Keeps r b := C.Keeps r.source b
  range r := C.range r.source
  keeps n h := C.keeps n h
  refused n h answer := C.refused n h answer
  granted n _ h answer := C.granted n h answer
  fits h range := C.fits h range
  bounds h range order := C.bounds h range order

/-- All requests are recorded. -/
theorem calls_eq {x y : Recording σ} {b c : ProgramBreak} {calls : List (Nat × Bool)} (h : Asked x b calls y c) :
    y.calls = x.calls ++ calls := by
  induction h with
  | nil => exact (List.append_nil _).symm
  | cons n _ ih => rw [ih, List.append_cons]; rfl

end Recording

end SegregatedFit
