import SegregatedFit.Proofs.Linked

/-!
# Blocks in the memory

`Segment` says that a stretch of memory holds the blocks of a list: every tag holds the size and the state of its block
and the state of the block before, and every free block repeats its size in its footer. The epilogue counts as an allocated
block of size zero behind the last block (`Span.sentinel`), so that every block has a block after it.

Tags stand at 8 modulo 16 and footers at 0 modulo 16, so they never meet. Writing one block (`Memory.put`) or one flag
keeps every segment that the words written do not belong to.
-/

namespace SegregatedFit

/-- The epilogue as a block. -/
def Span.sentinel (span : Span) : Block := { offset := span.epilogueOffset, size := 0, allocated := true }

/-- The state of the last block of a row, which comes after a block of the state given. -/
def lastState : Bool → List Block → Bool
  | state, [] => state
  | _, b :: bs => lastState b.allocated bs

/-- The memory holds the blocks of a row that comes after a block of the state given. -/
def Segment (m : Memory) (base : Nat) : Bool → List Block → Prop
  | _, [] => True
  | state, b :: bs =>
    m.tag (base + b.offset) = { size := b.size, allocated := b.allocated, predecessorAllocated := state } ∧
      (b.allocated = false → (m.tag (base + (b.offset + b.size - 8))).size = b.size) ∧ Segment m base b.allocated bs

@[simp] theorem lastState_nil (state : Bool) : lastState state [] = state := rfl

@[simp] theorem lastState_cons (state : Bool) (b : Block) (bs : List Block) :
    lastState state (b :: bs) = lastState b.allocated bs := rfl

@[simp] theorem lastState_append (state : Bool) (xs ys : List Block) :
    lastState state (xs ++ ys) = lastState (lastState state xs) ys := by
  induction xs generalizing state with
  | nil => rfl
  | cons x xs ih => exact ih x.allocated

/-- The memory with a block written into it: its tag, and its footer when it is free. -/
def Memory.put (m : Memory) (base : Nat) (b : Block) (state : Bool) : Memory :=
  let m := m.setTag (base + b.offset) { size := b.size, allocated := b.allocated, predecessorAllocated := state }
  if b.allocated then m
  else m.setTag (base + (b.offset + b.size - 8)) { size := b.size, allocated := false, predecessorAllocated := false }

/-- A block that can be written: its numbers fit in words, and when it is free there is room for its footer. -/
structure Block.Writable (b : Block) : Prop where
  aligned : b.size % 16 = 0
  small : b.size < 0x1_0000_0000_0000_0000
  large : b.allocated = false → 32 ≤ b.size

/-- An allocated block has no footer to make room for. -/
theorem Block.Writable.of_allocated {b : Block} (allocated : b.allocated = true) (aligned : b.size % 16 = 0)
    (small : b.size < 0x1_0000_0000_0000_0000) : b.Writable := by
  refine ⟨aligned, small, ?_⟩
  intro free
  rw [allocated] at free
  cases free

namespace Memory

variable {m : Memory} {base a : Nat} {b : Block} {state : Bool}

theorem word_put_of_ne (tag : a ≠ base + b.offset) (footer : b.allocated = false → a ≠ base + (b.offset + b.size - 8)) :
    (m.put base b state).word a = m.word a := by
  unfold put
  cases allocated : b.allocated with
  | true => simp only [if_true, setTag, word_setWord_of_ne _ _ tag]
  | false => simp [setTag, word_setWord_of_ne _ _ tag, word_setWord_of_ne _ _ (footer allocated)]

theorem tag_put (h : b.Writable) : (m.put base b state).tag (base + b.offset) =
    { size := b.size, allocated := b.allocated, predecessorAllocated := state } := by
  have self : ∀ t : Tag, t.size = b.size → (m.setTag (base + b.offset) t).tag (base + b.offset) = t := fun t size =>
    tag_setTag_self _ _ (size ▸ h.small) (size ▸ h.aligned)
  unfold put
  cases allocated : b.allocated with
  | true => exact self _ rfl
  | false =>
    have := h.large allocated
    simp only [Bool.false_eq_true, if_false]
    rw [tag_setTag_of_ne _ _ (by omega), self _ rfl]

theorem footer_put (h : b.Writable) (free : b.allocated = false) :
    ((m.put base b state).tag (base + (b.offset + b.size - 8))).size = b.size := by
  simp only [put, free, Bool.false_eq_true, if_false]
  rw [tag_setTag_self _ _ h.small h.aligned]

theorem tag_setPredecessorAllocated_self (m : Memory) (a : Nat) (flag : Bool) :
    (m.setPredecessorAllocated a flag).tag a = (m.tag a).withPredecessorAllocated flag := by
  have small : (m.tag a).size < 0x1_0000_0000_0000_0000 := by
    have := (m.word a).toNat_lt
    simp only [tag, Tag.decode]
    omega
  exact tag_setTag_self _ _ small (tag_aligned m a)

theorem word_setPredecessorAllocated_of_ne (m : Memory) {a c : Nat} (flag : Bool) (h : c ≠ a) :
    (m.setPredecessorAllocated a flag).word c = m.word c := word_setWord_of_ne _ _ h

end Memory

namespace Segment

variable {m m' : Memory} {base : Nat} {state : Bool} {xs ys bs : List Block} {b : Block}

theorem append_iff :
    Segment m base state (xs ++ ys) ↔ Segment m base state xs ∧ Segment m base (lastState state xs) ys := by
  induction xs generalizing state with
  | nil => simp [Segment]
  | cons x xs ih => simp only [List.cons_append, Segment, ih, lastState_cons, and_assoc]

theorem cons_iff : Segment m base state (b :: bs) ↔
    m.tag (base + b.offset) = { size := b.size, allocated := b.allocated, predecessorAllocated := state } ∧
      (b.allocated = false → (m.tag (base + (b.offset + b.size - 8))).size = b.size) ∧
      Segment m base b.allocated bs := Iff.rfl

/-- Behind the last block stands the epilogue alone. -/
theorem sentinel_iff {span : Span} :
    Segment m span.base state [span.sentinel] ↔ m.tag span.epilogue = ⟨0, true, state⟩ := by
  rw [cons_iff]
  constructor
  · rintro ⟨tag, -⟩
    exact tag
  · intro tag
    refine ⟨tag, ?_, trivial⟩
    intro free
    cases free

/-- Tags and footers that are the same hold the same blocks. -/
theorem congr (h : Segment m base state bs) (tags : ∀ b ∈ bs, m'.word (base + b.offset) = m.word (base + b.offset))
    (footers : ∀ b ∈ bs, b.allocated = false →
      m'.word (base + (b.offset + b.size - 8)) = m.word (base + (b.offset + b.size - 8))) :
    Segment m' base state bs := by
  induction bs generalizing state with
  | nil => trivial
  | cons b bs ih =>
    obtain ⟨tag, footer, rest⟩ := cons_iff.mp h
    refine ⟨?_, ?_, ih rest (fun c hc => tags c (.tail _ hc)) (fun c hc => footers c (.tail _ hc))⟩
    · rw [Memory.tag_eq (tags b List.mem_cons_self), tag]
    · intro free
      rw [Memory.tag_eq (footers b List.mem_cons_self free), footer free]

/-- The tag of a block of a row holds its size and its state. -/
theorem tag_mem (h : Segment m base state bs) (hb : b ∈ bs) :
    (m.tag (base + b.offset)).size = b.size ∧ (m.tag (base + b.offset)).allocated = b.allocated := by
  induction bs generalizing state with
  | nil => cases hb
  | cons c bs ih =>
    obtain ⟨tag, -, rest⟩ := cons_iff.mp h
    rcases List.mem_cons.mp hb with rfl | hb
    · simp [tag]
    · exact ih rest hb

/-- The same row stands in two memories with the same tags. -/
theorem tag_eq (h : Segment m base state bs) (h' : Segment m' base state bs) (hb : b ∈ bs) :
    m'.tag (base + b.offset) = m.tag (base + b.offset) := by
  induction bs generalizing state with
  | nil => cases hb
  | cons c bs ih =>
    obtain ⟨tag, -, rest⟩ := cons_iff.mp h
    obtain ⟨tag', -, rest'⟩ := cons_iff.mp h'
    rcases List.mem_cons.mp hb with rfl | hb
    · rw [tag, tag']
    · exact ih rest rest' hb

/-- The footer of a free block of a row holds its size. -/
theorem footer_mem (h : Segment m base state bs) (hb : b ∈ bs) (free : b.allocated = false) :
    (m.tag (base + (b.offset + b.size - 8))).size = b.size := by
  induction bs generalizing state with
  | nil => cases hb
  | cons c bs ih =>
    obtain ⟨-, footer, rest⟩ := cons_iff.mp h
    rcases List.mem_cons.mp hb with rfl | hb
    · exact footer free
    · exact ih rest hb

/-- A row whose first block gets another flag. -/
theorem flag (h : Segment m base state (b :: bs)) (new : Bool) (large : b.allocated = false → 32 ≤ b.size)
    (apart : ∀ c ∈ bs, b.offset + 8 ≤ c.offset ∧ (c.allocated = false → 32 ≤ c.size)) :
    Segment (m.setPredecessorAllocated (base + b.offset) new) base new (b :: bs) := by
  obtain ⟨tag, footer, rest⟩ := cons_iff.mp h
  refine ⟨?_, ?_, rest.congr ?_ ?_⟩
  · rw [Memory.tag_setPredecessorAllocated_self, tag]
    rfl
  · intro free
    have := large free
    rw [Memory.tag_eq (Memory.word_setPredecessorAllocated_of_ne _ _ (by omega)), footer free]
  · intro c hc
    have := apart c hc
    exact Memory.word_setPredecessorAllocated_of_ne _ _ (by omega)
  · intro c hc free
    have := apart c hc
    have := this.2 free
    exact Memory.word_setPredecessorAllocated_of_ne _ _ (by omega)

/-- Two rows that begin at the same place are the same as far as their tags are. -/
theorem begins {m m' : Memory} {base start finish : Nat} {state state' : Bool} {before after cs : List Block}
    (tiled : Tiled start (before ++ after) finish) (segment : Segment m base state before) (tiled' : Tiled start cs finish)
    (segment' : Segment m' base state' cs) (same : ∀ b ∈ before, m'.tag (base + b.offset) = m.tag (base + b.offset)) :
    ∃ cs', cs = before ++ cs' := by
  induction before generalizing start state state' cs with
  | nil => exact ⟨cs, rfl⟩
  | cons b before ih =>
    obtain ⟨at_, large, -, rest⟩ := Tiled.cons_iff.mp tiled
    obtain ⟨tag, -, segment⟩ := cons_iff.mp segment
    cases cs with
    | nil =>
      obtain rfl : start = finish := tiled'
      have := Tiled.start_le rest
      omega
    | cons c cs =>
      obtain ⟨at_', -, -, rest'⟩ := Tiled.cons_iff.mp tiled'
      obtain ⟨tag', -, segment'⟩ := cons_iff.mp segment'
      have here := same b List.mem_cons_self
      rw [tag, at_, ← at_', tag'] at here
      obtain rfl : c = b := by
        obtain ⟨offset, size, allocated⟩ := b
        obtain ⟨offset', size', allocated'⟩ := c
        simp only [Tag.mk.injEq] at here at_ at_'
        rw [at_, at_', here.1, here.2.1]
      obtain ⟨cs', rfl⟩ := ih rest segment rest' segment' fun d hd => same d (.tail _ hd)
      exact ⟨cs', rfl⟩

end Segment

end SegregatedFit
