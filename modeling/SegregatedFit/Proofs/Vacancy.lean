import SegregatedFit.Proofs.Written

/-!
# Tags left behind in free blocks

When a block is merged into a free neighbour, its tag stays where it was, as a word inside of the larger block. What may be
written over it afterwards is the tag or the footer of a free block, a link, or the flag for the block before; in all of these
the bit that says "allocated" is clear, for sizes and links are even. So a word whose bit is clear (`Memory.Vacant`) keeps it
clear through releases, and through allocations of blocks that begin elsewhere.
-/

namespace SegregatedFit

/-- The word at an address, read as a tag, does not say that its block is allocated. -/
def Memory.Vacant (m : Memory) (a : Nat) : Prop := (m.tag a).allocated = false

/-- The flag of a tag is read back from its word, whatever the size is. -/
theorem Tag.allocated_decode_encode (t : Tag) : (decode t.encode).allocated = t.allocated := by
  obtain ⟨size, allocated, predecessor⟩ := t
  simp only [decode, encode, UInt64.toNat_ofNat']
  cases allocated <;> cases predecessor <;> simp <;> omega

namespace Memory

theorem vacant_setTag {m : Memory} {a : Nat} {t : Tag} (free : t.allocated = false) : (m.setTag a t).Vacant a := by
  rw [Vacant, tag, setTag, word_setWord_self, Tag.allocated_decode_encode]
  exact free

namespace Vacant

variable {marks data : Nat → Prop} {m m' : Memory} {a : Nat}

theorem congr (h : m.Vacant a) (same : m'.word a = m.word a) : m'.Vacant a := by
  rw [Vacant, tag_eq same]
  exact h

/-- The bit stays clear when no block is marked at the word and no byte of it is written. -/
theorem of_writes (h : m.Vacant a) (writes : m.Writes marks data m') (unmarked : ¬ marks a)
    (clear : ∀ i, data i → a ≠ wordAddress i) : m'.Vacant a := by
  induction writes with
  | refl => exact h
  | setTag _ b t marked ih =>
    by_cases here : a = b
    · subst here
      refine vacant_setTag (Bool.eq_false_of_not_eq_true fun allocated => ?_)
      rcases marked allocated with mark | before
      · exact unmarked mark
      · cases ih.symm.trans before
    · exact ih.congr (word_setWord_of_ne _ _ here)
  | setLink _ b l aligned ih =>
    by_cases here : a = b + l.position
    · subst here
      rw [Vacant, tag, Memory.setLink, word_setWord_self]
      simp only [Tag.decode, UInt64.toNat_ofNat']
      rw [beq_eq_false_iff_ne]
      omega
    · exact ih.congr (word_setLink_of_ne here)
  | setBytes _ start vs inside ih =>
    exact ih.congr (word_setBytes fun i hi => clear _ (inside _ (by omega) (by omega)))

/-- The word was written as the tag of a free block. -/
theorem of_tagged (h : m.Tagged marks data False a) (unmarked : ¬ marks a) (clear : ∀ i, data i → a ≠ wordAddress i) :
    m.Vacant a := by
  obtain ⟨before, t, free, writes⟩ := h
  exact (vacant_setTag (Bool.eq_false_of_not_eq_true free)).of_writes writes unmarked clear

/-- Bytes that are written elsewhere leave the word alone. -/
theorem setBytes (h : m.Vacant a) {start : Nat} {vs : List UInt8} (aligned : a % 8 = 0)
    (apart : a + 8 ≤ start ∨ start + vs.length ≤ a) : (m.setBytes start vs).Vacant a := by
  refine h.congr (word_setBytes ?_)
  intro i hi
  simp only [wordAddress]
  omega

end Vacant

end Memory

namespace Heap

variable {σ : Type} [Backing σ] {s t : HeapState σ} {a : Nat} {r : Request} {answer : Option Nat}

/-- The answer of a request for some bytes is a payload address, and the word at `a` neither stands right before it nor
belongs to the bytes asked for. -/
def Misses (a : Nat) (answer : Option Nat) (room : Nat) : Prop :=
  ∀ q ∈ answer, q % 8 = 0 ∧ (a + headerSize < q ∨ q + room ≤ a)

/-- A request sets the bits of the block that it hands out and of the epilogue, and writes into the bytes that it was asked
for. The bit of any other word stays clear, and so does that of the block that it takes back. -/
theorem serve_vacant (done : serve r s = .ok answer t) (aligned : a % 8 = 0) (inside : a ≠ t.span.epilogue)
    (misses : Misses a answer r.room) (ha : r.consumed answer = some (a + headerSize) ∨ s.memory.Vacant a) :
    t.memory.Vacant a := by
  have effects : s.Effects (· ≠ a) (fun i => a ≠ Memory.wordAddress i) t (r.consumed answer) answer := by
    refine serve_effects ?_ (Ne.symm inside) (fun q hq => (misses q hq).1) done ?_
    · rintro b answered rfl
      have := misses _ answered
      simp only [payloadOf, headerSize] at this
      omega
    · intro q hq i low high
      have := misses q hq
      simp only [Memory.wordAddress, headerSize] at this ⊢
      omega
  rcases ha with taken | vacant
  · exact .of_tagged (effects.taken a taken) (by simp) fun _ => id
  · exact vacant.of_writes effects.writes (by simp) fun _ => id

end Heap

end SegregatedFit
