import SegregatedFit.Proofs.Carving
import SegregatedFit.Proofs.Growth
import SegregatedFit.Proofs.Payload

/-!
# Stores that mirror each other

An operation on the blocks of a heap reads and writes words of the span of the heap only, and finds each of them by its offset.
So when two stores hold the same words behind two addresses (`Mirrored`), the same operation on both leaves them mirrored, and
leaves alone what stands outside of the words mirrored (`InStep`). Nothing but the place of the two spans may differ; what a
free block or a block that is no more holds is mirrored like everything else.

That the offsets are those of words of the span is known from the layout that one of the stores holds; the other store has the
same offsets.
-/

namespace SegregatedFit

/-- The heads are the same in two stores, and so are the first `n` bytes behind two addresses, word by word. -/
structure Mirrored (n base base' : Nat) (s s' : Store) : Prop where
  heads : s'.heads = s.heads
  words : ∀ o, o % 8 = 0 → o + 8 ≤ n → s'.memory.word (base' + o) = s.memory.word (base + o)

/-- Two stores became two that are mirrored, and nothing changed in either outside of the bytes mirrored. -/
structure InStep (n base base' : Nat) (s s' t t' : Store) : Prop where
  mirrored : Mirrored n base base' t t'
  outside : ∀ a, a < base ∨ base + n ≤ a → t.memory.word a = s.memory.word a
  outside' : ∀ a, a < base' ∨ base' + n ≤ a → t'.memory.word a = s'.memory.word a

variable {n base base' o : Nat} {s s' t t' u u' : Store}

/-- A further change is in step when it is for stores that are mirrored. -/
theorem InStep.andThen (h : InStep n base base' s s' t t') (next : Mirrored n base base' t t' → InStep n base base' t t' u u') :
    InStep n base base' s s' u u' where
  mirrored := (next h.mirrored).mirrored
  outside a far := ((next h.mirrored).outside a far).trans (h.outside a far)
  outside' a far := ((next h.mirrored).outside' a far).trans (h.outside' a far)

namespace Memory

variable {b k : Nat}

theorem wordAddress_add (aligned : b % 8 = 0) : wordAddress (b + k) = b + k / 8 * 8 := by
  unfold wordAddress
  omega

theorem bitPosition_add (aligned : b % 8 = 0) : bitPosition (b + k) = bitPosition k := by
  have low : (b + k) % 8 = k % 8 := by omega
  rw [bitPosition, low, bitPosition]

end Memory

namespace Mirrored

theorem refl (n base : Nat) (s : Store) : Mirrored n base base s s := ⟨rfl, fun _ _ _ => rfl⟩

/-- Nothing happens. -/
theorem inStep (h : Mirrored n base base' s s') : InStep n base base' s s' s s' := ⟨h, fun _ _ => rfl, fun _ _ => rfl⟩

theorem tag (h : Mirrored n base base' s s') (aligned : o % 8 = 0) (inside : o + 8 ≤ n) :
    s'.memory.tag (base' + o) = s.memory.tag (base + o) := by
  rw [Memory.tag, h.words o aligned inside, Memory.tag]

theorem link (h : Mirrored n base base' s s') (aligned : o % 8 = 0) (inside : o + 24 ≤ n) (l : Link) :
    s'.memory.link (base' + o) l = s.memory.link (base + o) l := by
  unfold Memory.link
  cases l with
  | previous =>
    simp only [Link.position, Nat.add_assoc]
    rw [h.words (o + 8) (by omega) (by omega)]
  | next =>
    simp only [Link.position, Nat.add_assoc]
    rw [h.words (o + 16) (by omega) (by omega)]

/-! ## Writing words -/

theorem setHeads (h : Mirrored n base base' s s') (heads : Heads) :
    InStep n base base' s s' { s with heads } { s' with heads } :=
  ⟨⟨rfl, h.words⟩, fun _ _ => rfl, fun _ _ => rfl⟩

theorem setWord (h : Mirrored n base base' s s') (inside : o + 8 ≤ n) (w : UInt64) :
    InStep n base base' s s' { s with memory := s.memory.setWord (base + o) w }
      { s' with memory := s'.memory.setWord (base' + o) w } := by
  refine ⟨⟨h.heads, ?_⟩, ?_, ?_⟩
  · intro p aligned fits
    by_cases here : p = o
    · subst here
      simp only [Memory.word_setWord_self]
    · simp only
      rw [Memory.word_setWord_of_ne _ _ (by omega), Memory.word_setWord_of_ne _ _ (by omega), h.words p aligned fits]
  · intro a far
    exact Memory.word_setWord_of_ne _ _ (by omega)
  · intro a far
    exact Memory.word_setWord_of_ne _ _ (by omega)

theorem setTag (h : Mirrored n base base' s s') (inside : o + 8 ≤ n) (g : Tag) :
    InStep n base base' s s' { s with memory := s.memory.setTag (base + o) g }
      { s' with memory := s'.memory.setTag (base' + o) g } := h.setWord inside g.encode

theorem setLink (h : Mirrored n base base' s s') (inside : o + 24 ≤ n) (l : Link) (v : Nat) :
    InStep n base base' s s' { s with memory := s.memory.setLink (base + o) l v }
      { s' with memory := s'.memory.setLink (base' + o) l v } := by
  unfold Memory.setLink
  simp only [Nat.add_assoc]
  refine h.setWord ?_ _
  cases l <;> simp only [Link.position] <;> omega

/-- A link of a block is written, or nothing when there is no block. -/
theorem relink (h : Mirrored n base base' s s') (inside : o ≠ 0 → o + 24 ≤ n) (l : Link) (v : Nat) :
    InStep n base base' s s' { s with memory := s.memory.relink base o l v }
      { s' with memory := s'.memory.relink base' o l v } := by
  unfold Memory.relink
  split
  · exact h.inStep
  · next real => exact h.setLink (inside real) l v

/-- A block is told what stands before it. -/
theorem flag (h : Mirrored n base base' s s') (aligned : o % 8 = 0) (inside : o + 8 ≤ n) (new : Bool) :
    InStep n base base' s s' { s with memory := s.memory.setPredecessorAllocated (base + o) new }
      { s' with memory := s'.memory.setPredecessorAllocated (base' + o) new } := by
  unfold Memory.setPredecessorAllocated
  rw [h.tag aligned inside]
  exact h.setTag inside _

/-- A block is written that stands in the span. -/
theorem put (h : Mirrored n base base' s s') {b : Block} (room : 8 ≤ b.size) (inside : b.offset + b.size ≤ n) (state : Bool) :
    InStep n base base' s s' { s with memory := s.memory.put base b state }
      { s' with memory := s'.memory.put base' b state } := by
  obtain ⟨offset, size, allocated⟩ := b
  simp only at room inside
  have first := h.setTag (o := offset) (by omega) ⟨size, allocated, state⟩
  cases allocated with
  | true => exact first
  | false => exact first.andThen fun m => m.setTag (o := offset + size - 8) (by omega) ⟨size, false, false⟩

/-! ## Joining and leaving lists -/

variable {span : Span} {ls : Lists} {c : Fin classCount}

/-- A block leaves its list. -/
theorem unlink (h : Mirrored n span.base base' s s') (listed : Listed s span ls) (fits : span.epilogueOffset ≤ n)
    (ho : o ∈ ls c) : InStep n span.base base' s s' (s.unlink span.base o) (s'.unlink base' o) := by
  have within : ∀ p, p ∈ ls c → p % 8 = 0 ∧ p + 24 ≤ n := by
    intro p hp
    have := listed.place c p hp
    omega
  obtain ⟨aligned, inside⟩ := within o ho
  have back := fun real => (within _ (listed.previous_mem ho real)).2
  have ahead := fun real => (within _ (listed.next_mem ho real)).2
  unfold Store.unlink
  simp only [h.link aligned inside, h.tag aligned (by omega : o + 8 ≤ n), h.heads]
  exact (h.relink back .next (s.memory.link (span.base + o) .next)).andThen fun m =>
    (m.relink ahead .previous (s.memory.link (span.base + o) .previous)).andThen fun m => m.setHeads _

/-- A block joins the list of its class. -/
theorem linkIn (h : Mirrored n span.base base' s s') (listed : Listed s span ls) (fits : span.epilogueOffset ≤ n)
    (aligned : o % 8 = 0) (inside : o + 24 ≤ n) :
    InStep n span.base base' s s' (s.linkIn span.base o) (s'.linkIn base' o) := by
  have front : ∀ c, s.heads.get c ≠ 0 → s.heads.get c + 24 ≤ n := by
    intro c real
    have := listed.place c _ (listed.front_mem c real)
    omega
  unfold Store.linkIn
  simp only [h.tag aligned (by omega : o + 8 ≤ n), h.heads]
  generalize classOf (s.memory.tag (span.base + o)).size = c
  exact (h.setLink inside .previous 0).andThen fun m => (m.setLink inside .next (s.heads.get c)).andThen fun m =>
    (m.relink (front c) .previous o).andThen fun m => m.setHeads _

/-! ## Taking a block back -/

section Blocks

variable {f : Focus} (h : Mirrored n span.base base' s s') (d : f.Describes s span) (fits : span.length ≤ n)

include h d fits

theorem markedFree : InStep n span.base base' s s' { s with memory := f.markedFree s.memory span.base }
    { s' with memory := f.markedFree s'.memory base' } := by
  have bounds := d.laid.bounds (b := f.block) (by simp [Focus.blocks])
  simp only [Span.length, headerSize] at fits
  have room : 8 ≤ f.block.size := by omega
  have inside : f.block.offset + f.block.size ≤ n := by omega
  exact (h.put (b := (f.mark false).block) room inside _).andThen fun m => m.flag (by omega) (by omega) false

theorem joinedBefore : InStep n span.base base' s s' (f.joinedBefore s span.base) (f.joinedBefore s' base') := by
  obtain ⟨before, x, after, ls⟩ := f
  rcases List.eq_nil_or_concat before with rfl | ⟨before, y, rfl⟩
  · exact h.inStep
  · rw [List.concat_eq_append] at d ⊢
    unfold Focus.joinedBefore
    simp only [List.getLast?_append, List.getLast?_singleton, Option.some_or, List.dropLast_concat]
    cases state : y.allocated with
    | true => exact h.inStep
    | false =>
      have whole := d.laid.tiled
      simp only [Focus.blocks, List.append_assoc, List.singleton_append] at whole
      obtain ⟨_, -, row⟩ := Tiled.append_iff.mp whole
      obtain ⟨rfl, -, -, row⟩ := Tiled.cons_iff.mp row
      obtain ⟨-, largeX, -, row⟩ := Tiled.cons_iff.mp row
      have ends := row.start_le
      simp only [Span.length, headerSize] at fits
      exact (h.unlink d.listed (by omega) (d.files.mem (x := y) (by simp) state)).andThen fun m =>
        m.put (by simp only; omega) (by simp only; omega) _

theorem joinedAfter : InStep n span.base base' s s' (f.joinedAfter s span.base) (f.joinedAfter s' base') := by
  obtain ⟨before, x, after, ls⟩ := f
  cases after with
  | nil => exact h.inStep
  | cons y after =>
    unfold Focus.joinedAfter
    simp only
    cases state : y.allocated with
    | true => exact h.inStep
    | false =>
      obtain ⟨_, -, row⟩ := Tiled.append_iff.mp d.laid.tiled
      obtain ⟨rfl, largeX, alignedX, row⟩ := Tiled.cons_iff.mp row
      obtain ⟨-, -, alignedY, row⟩ := Tiled.cons_iff.mp row
      have aligned := (d.laid.bounds (b := x) (by simp [Focus.blocks])).2.2.2.2
      have ends := row.start_le
      simp only [Span.length, headerSize] at fits largeX alignedX ends
      exact (h.unlink d.listed (by omega) (d.files.mem (x := y) (by simp) state)).andThen fun m =>
        (m.put (by simp only; omega) (by simp only; omega) _).andThen fun m => m.flag (by omega) (by omega) false

/-- A free block is joined with its free neighbours and filed. -/
theorem settled (free : f.block.allocated = false) :
    InStep n span.base base' s s' (f.settled s span.base) (f.settled s' base') := by
  obtain ⟨-, before, isFree, -⟩ := Focus.mergePreceding_run d free
  obtain ⟨-, whole, -⟩ := Focus.mergeFollowing_run before isFree
  have bounds := whole.laid.bounds (b := f.joinBefore.joinAfter.block) (by simp [Focus.blocks])
  rw [Focus.joinAfter_offset] at bounds
  refine (h.joinedBefore d fits).andThen fun m => (m.joinedAfter before fits).andThen fun m => m.linkIn whole.listed ?_ ?_ ?_
  all_goals
    simp only [Span.length, headerSize] at fits
    omega

theorem released : InStep n span.base base' s s' (f.released s span.base) (f.released s' base') :=
  (h.markedFree d fits).andThen fun m => m.settled d.markedFree.1 fits rfl

end Blocks

/-! ## Handing out a block -/

section Carving

variable {L : Layout} {before after : List Block} {x : Block} {wanted : Nat}

theorem halved {f : Focus} (h : Mirrored n base base' s s') (large : 8 ≤ wanted) (enough : wanted + 8 ≤ f.block.size)
    (inside : f.block.offset + f.block.size ≤ n) :
    InStep n base base' s s' { s with memory := f.halved wanted s.memory base }
      { s' with memory := f.halved wanted s'.memory base' } :=
  (h.put (b := f.front wanted) large (by simp only [Focus.front]; omega) _).andThen fun m =>
    m.put (b := f.rest wanted) (by simp only [Focus.rest]; omega) (by simp only [Focus.rest]; omega) true

theorem markedUsed {f : Focus} (h : Mirrored n base base' s s') (room : 8 ≤ f.block.size)
    (aligned : (f.block.offset + f.block.size) % 8 = 0) (inside : f.block.offset + f.block.size + 8 ≤ n) :
    InStep n base base' s s' { s with memory := f.markedUsed s.memory base }
      { s' with memory := f.markedUsed s'.memory base' } :=
  (h.put (b := (f.mark true).block) room (Nat.le_of_add_right_le inside) _).andThen fun m => m.flag aligned inside true

theorem carved (h : Mirrored n span.base base' s s') (d : L.Describes s span) (fits : span.length ≤ n)
    (split : L.blocks = before ++ x :: after) (free : x.allocated = false) (aligned : wanted % 16 = 0)
    (large : 32 ≤ wanted) :
    InStep n span.base base' s s' (Focus.carved ⟨before, x, after, L.lists.drop x⟩ wanted s span.base)
      (Focus.carved ⟨before, x, after, L.lists.drop x⟩ wanted s' base') := by
  have mem : x ∈ L.blocks := by simp [split]
  have arranged := d.arranged
  have bounds := d.laid.bounds mem
  rw [split] at arranged
  simp only [Span.length, headerSize] at fits
  obtain ⟨-, out, -⟩ := arranged.remove free fun y hy => arranged.laid.tiled.offset_ne hy
  have hand : (⟨before, x, after, L.lists.drop x⟩ : Focus).Describes (s.unlink span.base x.offset) span := out
  refine (h.unlink d.arranged.listed (by omega) (d.files.mem mem free)).andThen fun m => ?_
  unfold Focus.carved
  by_cases long : minBlockSize ≤ x.size - wanted
  · simp only [long, if_true]
    simp only [minBlockSize] at long
    obtain ⟨done, -⟩ := hand.split free aligned large (by simp only; omega)
    refine (m.halved (by omega) (by simp only; omega) (by simp only; omega)).andThen fun m => m.linkIn done.listed ?_ ?_ ?_
    · omega
    all_goals
      simp only [Focus.rest]
      omega
  · simp only [long, if_false]
    exact m.markedUsed (by simp only; omega) (by simp only; omega) (by simp only; omega)

end Carving

/-! ## Bytes -/

section Bytes

variable {k : Nat} (h : Mirrored n base base' s s') (aligned : base % 8 = 0) (aligned' : base' % 8 = 0)

include h aligned aligned'

theorem byte (inside : k / 8 * 8 + 8 ≤ n) : s'.memory.byte (base' + k) = s.memory.byte (base + k) := by
  rw [Memory.byte, Memory.byte, Memory.wordAddress_add aligned, Memory.bitPosition_add aligned,
    Memory.wordAddress_add aligned', Memory.bitPosition_add aligned', h.words _ (by omega) inside]

theorem setByte (inside : k / 8 * 8 + 8 ≤ n) (v : UInt8) :
    InStep n base base' s s' { s with memory := s.memory.setByte (base + k) v }
      { s' with memory := s'.memory.setByte (base' + k) v } := by
  unfold Memory.setByte
  rw [Memory.wordAddress_add aligned, Memory.bitPosition_add aligned, Memory.wordAddress_add aligned',
    Memory.bitPosition_add aligned', h.words _ (by omega) inside]
  exact h.setWord inside _

variable (finish : Nat) (whole : finish % 8 = 0) (inside : finish ≤ n)

include whole inside

/-- Bytes that end no later than a word of those mirrored does. -/
theorem bytes {length : Nat} (fits : k + length ≤ finish) :
    s'.memory.bytes (base' + k) length = s.memory.bytes (base + k) length := by
  unfold Memory.bytes
  induction length generalizing k with
  | zero => rfl
  | succ length ih =>
    rw [List.range'_succ, List.range'_succ, List.map_cons, List.map_cons, h.byte aligned aligned' (by omega)]
    exact congrArg _ (ih (k := k + 1) (by omega))

theorem setBytes {vs : List UInt8} (fits : k + vs.length ≤ finish) :
    InStep n base base' s s' { s with memory := s.memory.setBytes (base + k) vs }
      { s' with memory := s'.memory.setBytes (base' + k) vs } := by
  induction vs generalizing s s' k with
  | nil => exact h.inStep
  | cons v vs ih =>
    rw [List.length_cons] at fits
    exact (h.setByte aligned aligned' (by omega) v).andThen fun m => ih (k := k + 1) m (by omega)

end Bytes

end Mirrored

end SegregatedFit
