import SegregatedFit.Memory.Bytes
import SegregatedFit.Proofs.Gap

/-!
# Bytes in payloads

The words of a payload belong to no tag, no link and no footer, so a client may write what it likes into a block that is lent
to it: the heap stays as it was, and so do the payloads of the other blocks (`Layout.Describes.setBytes`). Payloads begin at
multiples of sixteen, so a byte of a payload is part of a word of the same payload (`Layout.Describes.byte_eq`).
-/

namespace SegregatedFit

/-- Writing bytes changes the words they are part of only. -/
theorem Memory.word_setBytes {m : Memory} {a w : Nat} {vs : List UInt8} (h : ∀ i < vs.length, w ≠ wordAddress (a + i)) :
    (m.setBytes a vs).word w = m.word w := by
  induction vs generalizing m a with
  | nil => rfl
  | cons v vs ih =>
    rw [setBytes, ih fun i hi => ?_, word_setByte_of_ne _ _ (by simpa using h 0 (Nat.succ_pos _))]
    rw [Nat.add_assoc, Nat.add_comm 1]
    exact h (i + 1) (Nat.succ_lt_succ hi)

/-- Writing into the payload of a block that is lent keeps the heap and the payloads of the other blocks. -/
theorem Layout.Describes.setBytes {L : Layout} {s : Store} {span : Span} (h : L.Describes s span) {b : Block}
    (hb : b ∈ L.lent) (a : Nat) (vs : List UInt8) (low : payloadOf (span.base + b.offset) ≤ a)
    (high : a + vs.length ≤ span.base + b.offset + b.size) :
    L.Describes { s with memory := s.memory.setBytes a vs } span ∧
      SamePayloads span.base (L.blocks.filter fun c => c ≠ b) s.memory (s.memory.setBytes a vs) := by
  obtain ⟨hb, allocated⟩ := Layout.mem_lent.mp hb
  have bounds := h.laid.bounds hb
  have baseAligned := span.base_aligned
  have epilogueAligned := span.epilogueOffset_aligned
  simp only [payloadOf, headerSize] at low
  have same : ∀ w, (w < span.base + b.offset + 8 ∨ span.base + b.offset + b.size ≤ w) →
      (s.memory.setBytes a vs).word w = s.memory.word w := by
    intro w outside
    refine Memory.word_setBytes ?_
    intro i hi
    simp only [Memory.wordAddress]
    omega
  have apart : ∀ c ∈ L.blocks, c ≠ b → c.offset + c.size ≤ b.offset ∨ b.offset + b.size ≤ c.offset := by
    intro c hc ne
    exact h.laid.tiled.apart hc hb fun e => ne (h.laid.tiled.eq_of_offset hc hb e)
  refine ⟨⟨h.laid.congr (same _ ?_) (same _ ?_) (fun c hc => same _ ?_) fun c hc free => same _ ?_, h.coalesced,
    h.threaded.congr ?_, h.files⟩, fun c hc _ w low high => same w ?_⟩
  · simp only [Span.prologue, prologueOffset]
    omega
  · simp only [Span.epilogue]
    omega
  · have := h.laid.bounds hc
    by_cases here : c = b
    · rw [here]
      omega
    · have := apart c hc here
      omega
  · have := h.laid.bounds hc
    have := apart c hc (Block.ne_of_allocated allocated free).symm
    omega
  · intro c o ho
    obtain ⟨x, hx, free, rfl, -⟩ := (h.files c o).mp ho
    have := h.laid.bounds hx
    have := apart x hx (Block.ne_of_allocated allocated free).symm
    exact ⟨same _ (by omega), same _ (by omega)⟩
  · obtain ⟨hc, ne⟩ := List.mem_filter.mp hc
    have := h.laid.bounds hc
    have := apart c hc (by simpa using ne)
    omega

/-- Payloads that are the same hold the same bytes. -/
theorem Layout.Describes.byte_eq {L : Layout} {s : Store} {span : Span} (h : L.Describes s span) {bs : List Block}
    {m : Memory} (same : SamePayloads span.base bs s.memory m) {b : Block} (hb : b ∈ bs) (lent : b ∈ L.lent) {i : Nat}
    (inside : i + 8 < b.size) :
    m.byte (payloadOf (span.base + b.offset) + i) = s.memory.byte (payloadOf (span.base + b.offset) + i) := by
  obtain ⟨mem, allocated⟩ := Layout.mem_lent.mp lent
  have bounds := h.laid.bounds mem
  have aligned := span.base_aligned
  simp only [payloadOf, headerSize]
  have word := same b hb allocated (Memory.wordAddress (span.base + b.offset + 8 + i))
    (by simp only [Memory.wordAddress]; omega) (by simp only [Memory.wordAddress]; omega)
  rw [Memory.byte, word, Memory.byte]

end SegregatedFit
