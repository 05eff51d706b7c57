import SegregatedFit.Proofs.Creation
import SegregatedFit.Proofs.Request
import Mathlib.Data.Finset.Option

/-!
# Sessions

A session is a heap at work together with what its client knows of it: the pointers it has, and the bytes that it wrote
behind each of them (`Ledger`). The client may make any request that names no pointer but its own, and may write into the
bytes that a pointer of its own lets it use (`Session.Allows`). A session can be reached when it begins with the making of a
heap over a source that keeps the contract, and goes on with such actions in any order (`Session.Reachable`).

`Session.Sound` is the invariant of sessions: the heap is healthy, the pointers of the client are those to the blocks lent,
and what it wrote is there. Every action that is allowed keeps it, so every action that is allowed runs without a fault.
-/

namespace SegregatedFit

/-! ## What a client knows -/

/-- The pointers of a client, and for each of them the bytes that the client wrote behind it, by their distance from it. -/
structure Ledger where
  live : Finset Nat := ∅
  written : Nat → Nat → Option UInt8 := fun _ _ => none

namespace Ledger

/-- The ledger after a request was answered: the pointer consumed is gone, and behind the one answered nothing was
written. -/
def settle (l : Ledger) (r : Request) (answer : Option Nat) : Ledger where
  live := l.live.filter (fun p => some p ≠ r.consumed answer) ∪ answer.toFinset
  written p := if some p = answer then fun _ => none else l.written p

/-- The ledger after bytes were written behind a pointer. -/
def write (l : Ledger) (pointer index : Nat) (vs : List UInt8) : Ledger where
  live := l.live
  written p i := if p = pointer ∧ index ≤ i then (vs[i - index]?).or (l.written p i) else l.written p i

theorem mem_settle {l : Ledger} {r : Request} {answer : Option Nat} {p : Nat} :
    p ∈ (l.settle r answer).live ↔ (p ∈ l.live ∧ some p ≠ r.consumed answer) ∨ answer = some p := by
  simp [settle]

end Ledger

/-- What a client does: it asks the heap for something, or writes bytes behind a pointer. -/
inductive Action where
  | request (r : Request)
  | write (pointer index : Nat) (vs : List UInt8)

/-- A heap at work, what its client knows, and the answers given to the client so far. -/
structure Session (σ : Type) where
  state : HeapState σ
  ledger : Ledger := {}
  answers : List (Option Nat) := []

/-- A fresh reservation on a machine whose memory holds what `background` says. -/
def Reserve.site (base capacity : Nat) (background : Nat → UInt64) : Site Reserve where
  source := { base, capacity }
  memory := { background }
  programBreak := { top := 0 }

variable {σ : Type} [Backing σ]

namespace Session

/-- What a client may do: ask for something that names no pointers but its own, and write where one of its own pointers lets
it write. -/
def Allows (S : Session σ) : Action → Prop
  | .request r => ∀ p ∈ r.pointer, p ∈ S.ledger.live
  | .write pointer index vs =>
    pointer ∈ S.ledger.live ∧ ∃ n, Heap.usableSize pointer S.state = .ok n S.state ∧ index + vs.length ≤ n

/-- The session after an action. -/
def perform (S : Session σ) : Action → Except Fault (Session σ)
  | .request r =>
    match Heap.serve r S.state with
    | .ok answer s => .ok { state := s, ledger := S.ledger.settle r answer, answers := S.answers ++ [answer] }
    | .error f _ => .error f
  | .write pointer index vs => .ok
    { S with
      state := { S.state with memory := S.state.memory.setBytes (pointer + index) vs }
      ledger := S.ledger.write pointer index vs }

/-- The sessions over a source that keeps the contract. -/
inductive Reachable (C : Contract σ) : Session σ → Prop where
  | created {tuning : Tuning} {site site' : Site σ} {heap : Heap σ} (keeps : C.Keeps site.source site.programBreak)
      (made : Heap.create tuning site = .ok heap site') : Reachable C { state := heap.at site' }
  | performed {S S' : Session σ} {a : Action} (before : Reachable C S) (allowed : S.Allows a)
      (done : S.perform a = .ok S') : Reachable C S'

/-- The invariant of sessions: the heap is healthy, the client has the pointers to the blocks lent, and the bytes that it
wrote are where it wrote them. -/
structure Sound (C : Contract σ) (S : Session σ) (L : Layout) : Prop where
  healthy : S.state.Healthy C L
  live_iff : ∀ p, p ∈ S.ledger.live ↔ ∃ x ∈ L.lent, S.state.pointerTo x.offset = p
  written : ∀ x ∈ L.lent, ∀ i v, S.ledger.written (S.state.pointerTo x.offset) i = some v →
    i + 8 < x.size ∧ S.state.memory.byte (S.state.pointerTo x.offset + i) = v

variable {C : Contract σ} {S S' : Session σ} {L : Layout} {r : Request} {a : Action}

/-- A request that was performed was served, and its answer settled what the client has. -/
theorem perform_eq_ok (done : S.perform (.request r) = .ok S') : ∃ answer, Heap.serve r S.state = .ok answer S'.state ∧
    S'.ledger = S.ledger.settle r answer ∧ S'.answers = S.answers ++ [answer] := by
  cases run : Heap.serve r S.state with
  | error f s =>
    simp only [perform, run] at done
    cases done
  | ok answer s =>
    simp only [perform, run] at done
    cases done
    exact ⟨answer, rfl, rfl, rfl⟩

/-- A request that was served is performed. -/
theorem perform_of_serve {answer : Option Nat} {s' : HeapState σ} (run : Heap.serve r S.state = .ok answer s') :
    S.perform (.request r) =
      .ok { state := s', ledger := S.ledger.settle r answer, answers := S.answers ++ [answer] } := by
  simp only [perform, run]

/-! ## Every action keeps the invariant -/

theorem Sound.permits (h : S.Sound C L) (allowed : S.Allows (.request r)) : L.Permits S.state.span.base r := by
  intro p hp
  exact (h.live_iff p).mp (allowed p hp)

/-- The bytes behind a pointer that the client keeps are the same after a request. -/
theorem Sound.byte_eq (h : S.Sound C L) {o : Outcome} {s' : HeapState σ} (served : S.state.Served C L o s') {x : Block}
    (old : x ∈ L.lent) (kept : x ∈ o.layout.lent) {i : Nat} (inside : i + 8 < x.size) :
    s'.memory.byte (S.state.pointerTo x.offset + i) = S.state.memory.byte (S.state.pointerTo x.offset + i) :=
  h.healthy.describes.byte_eq served.payloads
    (List.mem_inter_iff.mpr ⟨(Layout.mem_lent.mp old).1, (Layout.mem_lent.mp kept).1⟩) old inside

/-- A pointer that was answered points to a block lent, and the client wrote nothing behind it yet; what it wrote behind the
pointers that it keeps is still there. -/
theorem Sound.settled (h : S.Sound C L) {o : Outcome} {s' : HeapState σ} (served : S.state.Served C L o s')
    (settles : o.Settles L S.state.span.base r) :
    Sound C ⟨s', S.ledger.settle r (o.answer.map S.state.pointerTo), S.answers ++ [o.answer.map S.state.pointerTo]⟩
      o.layout := by
  have new := settles.offset_ne h.healthy.describes
  obtain ⟨wanted, -, -, lent⟩ := settles
  have consumed : r.consumed (o.answer.map S.state.pointerTo) = r.consumed o.answer := by
    cases r with
    | resize pointer size => cases size <;> simp [Request.consumed]
    | _ => rfl
  refine ⟨served.healthy, ?_, ?_⟩
  · intro p
    rw [Ledger.mem_settle, served.pointerTo_eq, consumed]
    constructor
    · rintro (⟨live, kept⟩ | answer)
      · obtain ⟨x, hx, rfl⟩ := (h.live_iff p).mp live
        exact ⟨x, (lent x).mpr (.inl ⟨hx, kept⟩), rfl⟩
      · obtain ⟨q, given, rfl⟩ := Option.map_eq_some_iff.mp answer
        exact ⟨⟨q, wanted, true⟩, (lent _).mpr (.inr ⟨q, given, rfl⟩), rfl⟩
    · rintro ⟨x, hx, rfl⟩
      rcases (lent x).mp hx with ⟨hx, kept⟩ | ⟨q, answer, rfl⟩
      · exact .inl ⟨(h.live_iff _).mpr ⟨x, hx, rfl⟩, kept⟩
      · exact .inr (Option.map_eq_some_iff.mpr ⟨q, answer, rfl⟩)
  · intro x hx i v wrote
    simp only [served.pointerTo_eq, Ledger.settle] at wrote ⊢
    rcases (lent x).mp hx with ⟨old, -⟩ | ⟨q, answer, rfl⟩
    · have other : some (S.state.pointerTo x.offset) ≠ o.answer.map S.state.pointerTo := by
        intro e
        obtain ⟨q, given, same⟩ := Option.map_eq_some_iff.mp e.symm
        simp only [HeapState.pointerTo, payloadOf] at same
        exact new q given x old (by omega)
      rw [if_neg other] at wrote
      obtain ⟨inside, byte⟩ := h.written x old i v wrote
      refine ⟨inside, Eq.trans ?_ byte⟩
      exact h.byte_eq served old hx (by omega)
    · have here : some (S.state.pointerTo q) = o.answer.map S.state.pointerTo := by
        rw [show o.answer = some q from answer]
        rfl
      rw [if_pos here] at wrote
      cases wrote

/-- A client that may write behind a pointer has the block of the pointer, and writes into its payload only. -/
theorem Sound.allows_write (h : S.Sound C L) {pointer index : Nat} {vs : List UInt8}
    (allowed : S.Allows (.write pointer index vs)) :
    ∃ x ∈ L.lent, S.state.pointerTo x.offset = pointer ∧ index + vs.length + 8 ≤ x.size := by
  obtain ⟨live, n, usable, fits⟩ := allowed
  obtain ⟨x, hx, rfl⟩ := (h.live_iff pointer).mp live
  have bounds := h.healthy.describes.laid.bounds (Layout.mem_lent.mp hx).1
  rw [h.healthy.usableSize_run hx] at usable
  cases usable
  exact ⟨x, hx, rfl, by omega⟩

/-- What is written behind a pointer disturbs neither the heap nor what was written behind other pointers. -/
theorem Sound.wrote (h : S.Sound C L) {pointer index : Nat} {vs : List UInt8}
    (allowed : S.Allows (.write pointer index vs)) :
    Sound C
      { S with
        state := { S.state with memory := S.state.memory.setBytes (pointer + index) vs }
        ledger := S.ledger.write pointer index vs } L := by
  obtain ⟨x, hx, rfl, fits⟩ := h.allows_write allowed
  obtain ⟨describes, others⟩ := h.healthy.describes.setBytes hx (S.state.pointerTo x.offset + index) vs
    (Nat.le_add_right _ _) (by simp only [HeapState.pointerTo, payloadOf, headerSize]; omega)
  refine ⟨⟨describes, h.healthy.keeps, h.healthy.range⟩, h.live_iff, ?_⟩
  intro y hy i v wrote
  change (S.ledger.write _ _ _).written (S.state.pointerTo y.offset) i = some v at wrote
  change _ ∧ (S.state.memory.setBytes _ _).byte (S.state.pointerTo y.offset + i) = v
  have old := h.written y hy i v
  by_cases here : y = x
  · subst here
    rw [Memory.byte_setBytes]
    by_cases ahead : index ≤ i
    · have place : S.state.pointerTo y.offset + i - (S.state.pointerTo y.offset + index) = i - index := by omega
      rw [if_pos (by omega), place]
      simp only [Ledger.write, ahead, and_self, if_true] at wrote
      cases covered : vs[i - index]? with
      | some u =>
        obtain ⟨inside, -⟩ := List.getElem?_eq_some_iff.mp covered
        rw [covered, Option.some_or] at wrote
        exact ⟨by omega, Option.some.inj wrote⟩
      | none =>
        rw [covered, Option.none_or] at wrote
        exact old wrote
    · rw [if_neg (by omega)]
      simp only [Ledger.write, ahead, and_false, if_false] at wrote
      exact old wrote
  · have other : S.state.pointerTo y.offset ≠ S.state.pointerTo x.offset := by
      intro e
      exact here ((h.healthy.describes.payload_inj hy hx).mp e)
    simp only [Ledger.write, other, false_and, if_false] at wrote
    obtain ⟨inside, byte⟩ := old wrote
    exact ⟨inside, (h.healthy.describes.byte_eq others
      (List.mem_filter.mpr ⟨(Layout.mem_lent.mp hy).1, by simpa using here⟩) hy inside).trans byte⟩

/-! ## Runs -/

/-- A request that is allowed runs without a fault and does what it does to the layout, for some answers of the source. -/
theorem Sound.request_run (h : S.Sound C L) (allowed : S.Allows (.request r)) :
    ∃ grant o s', o = L.serve S.state.span.base S.state.tuning.probeBudget grant r ∧
      S.perform (.request r) = .ok ⟨s', S.ledger.settle r (o.answer.map S.state.pointerTo),
        S.answers ++ [o.answer.map S.state.pointerTo]⟩ ∧
      S.state.Served C L o s' ∧ o.Settles L S.state.span.base r := by
  obtain ⟨grant, s', run, served, settles⟩ := h.healthy.serve_run (h.permits allowed)
  exact ⟨grant, _, s', rfl, perform_of_serve run, served, settles⟩

/-- What a request that was performed made of the layout and of what the client knows. -/
theorem Sound.request_eq_ok (h : S.Sound C L) (allowed : S.Allows (.request r)) (done : S.perform (.request r) = .ok S') :
    ∃ o, Heap.serve r S.state = .ok (o.answer.map S.state.pointerTo) S'.state ∧ S.state.Served C L o S'.state ∧
      o.Settles L S.state.span.base r ∧ S'.Sound C o.layout ∧
      S'.ledger = S.ledger.settle r (o.answer.map S.state.pointerTo) ∧
      S'.answers = S.answers ++ [o.answer.map S.state.pointerTo] := by
  obtain ⟨-, o, s', -, run, served, settles⟩ := h.request_run allowed
  cases run.symm.trans done
  obtain ⟨answer, serve, -, answers⟩ := perform_eq_ok done
  obtain rfl := List.singleton_inj.mp (List.append_cancel_left answers)
  exact ⟨o, serve, served, settles, h.settled served settles, rfl, rfl⟩

/-- An action that is allowed runs without a fault and keeps the invariant. -/
theorem Sound.perform_run (h : S.Sound C L) (allowed : S.Allows a) : ∃ S' L', S.perform a = .ok S' ∧ S'.Sound C L' := by
  cases a with
  | request r =>
    obtain ⟨-, o, s', -, run, served, settles⟩ := h.request_run allowed
    exact ⟨_, o.layout, run, h.settled served settles⟩
  | write pointer index vs => exact ⟨_, L, rfl, h.wrote allowed⟩

/-- A client of a heap that was just made has nothing and has written nothing. -/
theorem Sound.created {s : HeapState σ} (healthy : s.Healthy C Layout.empty) : Sound C { state := s } Layout.empty :=
  ⟨healthy, fun p => by simp [Layout.lent, Layout.empty], fun x hx => by cases hx⟩

/-- Sessions that can be reached keep the invariant. -/
theorem Reachable.sound (h : Reachable C S) : ∃ L, S.Sound C L := by
  induction h with
  | created keeps made =>
    obtain ⟨-, -, -, -, -, healthy⟩ := Heap.create_run keeps made
    exact ⟨Layout.empty, .created healthy⟩
  | performed _ allowed done ih =>
    obtain ⟨L, sound⟩ := ih
    obtain ⟨S', L', run, sound'⟩ := sound.perform_run allowed
    cases run.symm.trans done
    exact ⟨L', sound'⟩

/-- A run over a reservation that does not begin at a multiple of sixteen: two allocations, a write, a move, and a request
that the reservation has no room for. -/
theorem Reachable.of_reserve : ∃ S : Session Reserve, S.Reachable Reserve.contract ∧
    S.answers = [some 4144, some 4176, some 4208, none] ∧ S.ledger.live = {4176, 4208} ∧
    S.ledger.written 4176 4 = some 2 := by
  have made : Heap.create { probeBudget := 2, selfCheck := false } (Reserve.site 4104 200 UInt64.ofNat) = .ok _ _ := rfl
  have created : Session.Reachable Reserve.contract _ := .created ⟨by decide, by decide⟩ made
  have first := created.performed (a := .request (.allocate 20)) (by intro _ h; cases h) rfl
  have second := first.performed (a := .request (.allocate 20)) (by intro _ h; cases h) rfl
  have wrote := second.performed (a := .write 4176 3 [1, 2, 3]) ⟨by decide, _, rfl, by decide⟩ rfl
  have moved := wrote.performed (a := .request (.resize (some 4144) 5)) (by rintro _ ⟨⟩; decide) rfl
  have refused := moved.performed (a := .request (.allocate 5000)) (by intro _ h; cases h) rfl
  exact ⟨_, refused, rfl, by decide, rfl⟩

/-- After any run the heap is lawful, and whatever the client may do next runs without a fault. -/
theorem Reachable.lawful_and_total (h : Reachable C S) :
    S.state.store.Lawful S.state.span (Backing.lowest S.state.source) (Backing.highest S.state.source) ∧
      ∀ a, S.Allows a → ∃ S', S.perform a = .ok S' := by
  obtain ⟨L, sound⟩ := h.sound
  refine ⟨sound.healthy.lawful, ?_⟩
  intro a allowed
  obtain ⟨S', -, run, -⟩ := sound.perform_run allowed
  exact ⟨S', run⟩

theorem Reachable.lawful_reserve : ∃ S : Session Reserve, S.Reachable Reserve.contract ∧
    S.answers = [some 4144, some 4176, some 4208, none] ∧
    S.state.store.Lawful S.state.span (Backing.lowest S.state.source) (Backing.highest S.state.source) := by
  obtain ⟨S, reachable, answers, -⟩ := Reachable.of_reserve
  exact ⟨S, reachable, answers, reachable.lawful_and_total.1⟩

end Session

end SegregatedFit
