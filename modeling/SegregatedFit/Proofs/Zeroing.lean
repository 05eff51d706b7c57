import SegregatedFit.Proofs.Session
import SegregatedFit.Proofs.Shown

/-!
# An allocation set to zero

To ask for zeros is to allocate and then to clear the bytes asked for. The bytes cleared are part of the payload of the new
block, whichever way that block was found, so clearing them reaches no tag, no link, no footer and no other payload
(`Memory.Cleared`), and the heap is the one that the allocation left (`HeapState.Healthy.allocateZeroed_clears`).
-/

namespace SegregatedFit

/-- The `n` bytes from an address on are zero in the second memory; otherwise it is the first. -/
structure Memory.Cleared (m : Memory) (a n : Nat) (m' : Memory) : Prop where
  zero : ∀ b, a ≤ b → b < a + n → m'.byte b = 0
  bytes : ∀ b, b < a ∨ a + n ≤ b → m'.byte b = m.byte b
  words : ∀ w, w + 8 ≤ a ∨ a + n ≤ w → m'.word w = m.word w

theorem Memory.cleared_zeroBytes (m : Memory) (a n : Nat) : m.Cleared a n (m.zeroBytes a n) where
  zero b low high := by
    have inside : b - a < n := by omega
    rw [zeroBytes, byte_setBytes, if_pos low, List.getElem?_replicate, if_pos inside]
    rfl
  bytes b outside := by
    rw [zeroBytes, byte_setBytes]
    split
    · next low =>
      have beyond : ¬ b - a < n := by omega
      rw [List.getElem?_replicate, if_neg beyond]
      rfl
    · rfl
  words w outside := by
    refine word_setBytes fun i hi => ?_
    rw [List.length_replicate] at hi
    -- A byte is part of the word at the multiple of eight below it.
    simp only [wordAddress]
    omega

namespace HeapState

variable {σ : Type} [Backing σ] {C : Contract σ} {L : Layout} {s : HeapState σ}

/-- A request for zeros is refused before anything happens when the bytes cannot be counted. Any other one does what an
allocation of as many bytes does, and then clears the bytes of the new block that were asked for and nothing else, so the heap
passes its audit. -/
theorem Healthy.allocateZeroed_clears (h : s.Healthy C L) (count size : Nat) :
    (0x1_0000_0000_0000_0000 ≤ count * size →
      Heap.allocateZeroed count size s = .ok none { s with toSite := s.toSite.tell (.zeroedOverflow count size) }) ∧
    (count * size < 0x1_0000_0000_0000_0000 → ∃ o s₁ m,
      Heap.allocate (count * size) s = .ok (o.answer.map s.pointerTo) s₁ ∧
      Heap.allocateZeroed count size s = .ok (o.answer.map s.pointerTo) { s₁ with memory := m } ∧
      s.Becomes C L s₁ o ∧ s.Becomes C L { s₁ with memory := m } o ∧
      HeapState.audit { s₁ with memory := m } = .ok () ∧
      (o.answer = none → m = s₁.memory) ∧
      ∀ p ∈ o.answer, s₁.memory.Cleared (s.pointerTo p) (count * size) m ∧
        ∃ u, Heap.usableSize (s.pointerTo p) s₁ = .ok u s₁ ∧ count * size ≤ u) := by
  refine ⟨Heap.allocateZeroed_overflow, fun small => ?_⟩
  obtain ⟨grant, s₁, run, served⟩ := h.allocate_run (count * size)
  obtain ⟨wanted, room, hands⟩ := h.describes.allocate_hands s.tuning.probeBudget (count * size) grant
  generalize L.allocate s.tuning.probeBudget grant (count * size) = o at run served hands
  cases answer : o.answer with
  | none =>
    rw [answer] at run
    refine ⟨o, s₁, s₁.memory, answer ▸ run, answer ▸ Heap.allocateZeroed_refused small run, served.becomes h,
      served.becomes h, served.healthy.audit_run, fun _ => rfl, ?_⟩
    rw [answer]
    rintro _ ⟨⟩
  | some p =>
    rw [answer] at run
    have cleared := served.zero hands answer room
    have usable := served.healthy.usableSize_run ((hands.lent_iff answer).mpr (.inr rfl))
    rw [served.pointerTo_eq] at usable
    refine ⟨o, s₁, s₁.memory.zeroBytes (s.pointerTo p) (count * size), answer ▸ run,
      answer ▸ Heap.allocateZeroed_granted small run, served.becomes h, cleared.becomes h, cleared.healthy.audit_run, ?_, ?_⟩
    · rw [answer]
      rintro ⟨⟩
    · rw [answer]
      rintro _ ⟨⟩
      exact ⟨Memory.cleared_zeroBytes _ _ _, _, usable, Nat.le_sub_of_add_le room⟩

/-- In a block that was taken back with what a client wrote still in it, forty bytes are handed out and cleared. -/
theorem Healthy.allocateZeroed_clears_reserve : ∃ (s s₁ : HeapState Reserve) (L : Layout) (m : Memory),
    s.Healthy Reserve.contract L ∧ s.memory.byte 4196 = 7 ∧ Heap.allocate 40 s = .ok (some 4176) s₁ ∧
    Heap.allocateZeroed 5 8 s = .ok (some 4176) { s₁ with memory := m } ∧ s₁.memory.Cleared 4176 40 m ∧
    m.byte 4196 = 0 := by
  obtain ⟨S, T, reachable, byte, allocated⟩ : ∃ S T : Session Reserve, S.Reachable Reserve.contract ∧
      S.state.memory.byte 4196 = 7 ∧ Heap.allocate 40 S.state = .ok (some 4176) T.state := by
    have made : Heap.create { selfCheck := false } (Reserve.site 4104 400 UInt64.ofNat) = .ok _ _ := rfl
    have created : Session.Reachable Reserve.contract _ := .created ⟨by decide, by decide⟩ made
    have first := created.performed (a := .request (.allocate 20)) (by intro _ h; cases h) rfl
    have second := first.performed (a := .request (.allocate 100)) (by intro _ h; cases h) rfl
    have third := second.performed (a := .request (.allocate 20)) (by intro _ h; cases h) rfl
    have wrote := third.performed (a := .write 4176 20 [7]) ⟨by decide, _, rfl, by decide⟩ rfl
    have fourth := wrote.performed (a := .request (.release (some 4176))) (by rintro _ ⟨⟩; decide) rfl
    exact ⟨_, { state := _ }, fourth, rfl, rfl⟩
  obtain ⟨L, sound⟩ := reachable.sound
  obtain ⟨-, clears⟩ := sound.healthy.allocateZeroed_clears 5 8
  obtain ⟨o, s₁, m, run, zeroed, -, -, -, -, cleared⟩ := clears (by decide)
  obtain ⟨answered, rfl⟩ := EStateM.Result.ok.inj (allocated.symm.trans run)
  obtain ⟨p, answer, pointer⟩ := Option.map_eq_some_iff.mp answered.symm
  obtain ⟨clear, -⟩ := cleared p answer
  rw [← answered] at zeroed
  rw [pointer] at clear
  exact ⟨S.state, T.state, L, m, sound.healthy, byte, allocated, zeroed, clear, clear.zero 4196 (by decide) (by decide)⟩

end HeapState

end SegregatedFit
