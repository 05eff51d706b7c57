import SegregatedFit.Proofs.Arrangement

/-!
# Gaps

A gap is a stretch of a heap that is being rewritten: what stands in it does not matter, the blocks before it and behind it
are in order, and the lists speak for blocks outside of it. A gap is opened around neighbouring blocks that no list holds
(`Arranged.open`), is filled from its start (`Gap.put`), and is closed when nothing is left of it and the block behind it
knows the state of the block before it (`Gap.close`).
-/

namespace SegregatedFit

/-- The offsets from `start` to `finish` are being rewritten, between the blocks before and after them. The block after the
gap says that the block before it has the state given, and the lists hold exactly the free blocks among those `filed`. -/
structure Gap (s : Store) (span : Span) (before : List Block) (start : Nat) (state : Bool) (finish : Nat)
    (after filed : List Block) (ls : Lists) : Prop where
  prologue : s.memory.tag span.prologue = { size := prologueSize, allocated := true, predecessorAllocated := true }
  left : Tiled 24 before start
  right : Tiled finish after span.epilogueOffset
  start_le : start ≤ finish
  low : Segment s.memory span.base true before
  high : Segment s.memory span.base state (after ++ [span.sentinel])
  threaded : Threaded s span.base ls
  files : Files ls filed
  sub : filed ⊆ before ++ after

/-- Links that stay as they are keep the lists. -/
theorem Threaded.congr {s : Store} {base : Nat} {ls : Lists} {m : Memory} (h : Threaded s base ls)
    (same : ∀ c, ∀ o ∈ ls c, m.word (base + o + 8) = s.memory.word (base + o + 8) ∧
      m.word (base + o + 16) = s.memory.word (base + o + 16)) :
    Threaded { s with memory := m } base ls where
  front := h.front
  linked c := (h.linked c).congr fun o ho l => by
    obtain ⟨previous, next⟩ := same c o ho
    cases l with
    | previous => exact Memory.link_eq previous
    | next => exact Memory.link_eq next
  nodup := h.nodup

/-- Some neighbouring blocks that no list holds are given up. -/
theorem Arranged.open {s : Store} {span : Span} {before after filed : List Block} {ls : Lists} {start finish : Nat}
    (inside : List Block) (h : Arranged s span (before ++ (inside ++ after)) filed ls) (sub : filed ⊆ before ++ after)
    (left : Tiled 24 before start) (middle : Tiled start inside finish) :
    Gap s span before start (lastState (lastState true before) inside) finish after filed ls := by
  obtain ⟨_, left', rest⟩ := Tiled.append_iff.mp h.laid.tiled
  obtain rfl := left.finish_unique left'
  obtain ⟨_, middle', right⟩ := Tiled.append_iff.mp rest
  obtain rfl := middle.finish_unique middle'
  have segment := h.laid.segment
  rw [List.append_assoc, List.append_assoc, Segment.append_iff, Segment.append_iff] at segment
  exact ⟨h.laid.prologue, left, right, middle.start_le, segment.1, segment.2.2, h.threaded, h.files, sub⟩

namespace Gap

variable {s : Store} {span : Span} {before after filed : List Block} {start finish : Nat} {state : Bool} {ls : Lists}
  {b : Block}

/-- A block before the gap. -/
theorem bounds_before (h : Gap s span before start state finish after filed ls) (hb : b ∈ before) :
    24 ≤ b.offset ∧ b.offset + b.size ≤ start ∧ 32 ≤ b.size ∧ b.size % 16 = 0 ∧ b.offset % 16 = 8 := by
  have := h.left.bounds hb
  omega

/-- A block behind the gap. -/
theorem bounds_after (h : Gap s span before start state finish after filed ls) (hb : b ∈ after) :
    finish ≤ b.offset ∧ b.offset + b.size ≤ span.epilogueOffset ∧ 32 ≤ b.size ∧ b.size % 16 = 0 ∧ b.offset % 16 = 8 := by
  have := h.right.bounds hb
  have := h.right.aligned
  have := span.epilogueOffset_aligned
  omega

/-- A block behind the gap, or the epilogue. -/
theorem bounds_high (h : Gap s span before start state finish after filed ls) (hb : b ∈ after ++ [span.sentinel]) :
    finish ≤ b.offset ∧ b.offset ≤ span.epilogueOffset ∧ b.offset % 16 = 8 ∧ b.size % 16 = 0 ∧
      (b.allocated = false → 32 ≤ b.size) := by
  rcases List.mem_append.mp hb with hb | hb
  · have := h.bounds_after hb
    omega
  · obtain rfl := List.mem_singleton.mp hb
    refine ⟨h.right.start_le, Nat.le_refl _, span.epilogueOffset_aligned, rfl, ?_⟩
    intro free
    cases free

/-- Writing one block at the start of the gap. -/
theorem put (h : Gap s span before start state finish after filed ls) (at_ : b.offset = start) (writable : b.Writable)
    (large : 32 ≤ b.size) (fits : start + b.size ≤ finish) :
    Gap { s with memory := s.memory.put span.base b (lastState true before) } span (before ++ [b]) (start + b.size) state
        finish after filed ls ∧
      SamePayloads span.base (before ++ after) s.memory (s.memory.put span.base b (lastState true before)) := by
  subst at_
  have first := h.left.start_le
  have aligned := writable.aligned
  have start_aligned := h.left.aligned
  have outside : ∀ a, (a < span.base + b.offset ∨ span.base + b.offset + b.size ≤ a) →
      (s.memory.put span.base b (lastState true before)).word a = s.memory.word a := by
    intro a far
    exact Memory.word_put_of_ne (by omega) (fun _ => by omega)
  refine ⟨⟨?_, ?_, h.right, fits, ?_, ?_, ?_, h.files, ?_⟩, ?_⟩
  · rw [Memory.tag_eq (outside _ (by simp only [Span.prologue, prologueOffset]; omega)), h.prologue]
  · exact Tiled.append_iff.mpr ⟨_, h.left, rfl, large, writable.aligned, rfl⟩
  · refine Segment.append_iff.mpr ⟨h.low.congr ?_ ?_, Memory.tag_put writable, Memory.footer_put writable, trivial⟩
    · intro c hc
      have := h.bounds_before hc
      exact outside _ (by omega)
    · intro c hc free
      have := h.bounds_before hc
      exact outside _ (by omega)
  · refine h.high.congr ?_ ?_
    · intro c hc
      have := h.bounds_high hc
      exact outside _ (by omega)
    · intro c hc free
      have := h.bounds_high hc
      have := this.2.2.2.2 free
      exact outside _ (by omega)
  · refine h.threaded.congr ?_
    intro c o ho
    obtain ⟨y, hy, -, rfl, -⟩ := (h.files c o).mp ho
    rcases List.mem_append.mp (h.sub hy) with hy | hy
    · have := h.bounds_before hy
      exact ⟨outside _ (by omega), outside _ (by omega)⟩
    · have := h.bounds_after hy
      exact ⟨outside _ (by omega), outside _ (by omega)⟩
  · intro y hy
    have := h.sub hy
    simp only [List.mem_append, List.mem_singleton] at this ⊢
    tauto
  · intro y hy allocated a low high
    rcases List.mem_append.mp hy with hy | hy
    · have := h.bounds_before hy
      exact outside _ (by omega)
    · have := h.bounds_after hy
      exact outside _ (by omega)

/-- The block behind the gap, or the epilogue, stands where the gap ends. -/
theorem exists_next (h : Gap s span before start state finish after filed ls) :
    ∃ z zs, after ++ [span.sentinel] = z :: zs ∧ z.offset = finish ∧ ∀ y ∈ zs, z.offset + 32 ≤ y.offset := by
  cases after with
  | nil =>
    refine ⟨_, [], rfl, h.right.symm, ?_⟩
    intro y hy
    cases hy
  | cons z after =>
    obtain ⟨at_, large, -, rest⟩ := h.right
    simp only [minBlockSize] at large
    have := rest.start_le
    refine ⟨z, after ++ [span.sentinel], rfl, at_, ?_⟩
    intro y hy
    rcases List.mem_append.mp hy with hy | hy
    · have := rest.bounds hy
      omega
    · obtain rfl := List.mem_singleton.mp hy
      simp only [Span.sentinel]
      omega

/-- Telling the block behind the gap what stands before it. -/
theorem flag (h : Gap s span before start state finish after filed ls) (new : Bool) :
    Gap { s with memory := s.memory.setPredecessorAllocated (span.base + finish) new } span before start new finish after
        filed ls ∧
      SamePayloads span.base (before ++ after) s.memory
        (s.memory.setPredecessorAllocated (span.base + finish) new) := by
  obtain ⟨z, zs, split, at_, far⟩ := h.exists_next
  have inside : span.epilogueOffset % 16 = 8 := span.epilogueOffset_aligned
  have bottom := h.left.start_le
  have order := h.start_le
  have aligned : finish % 16 = 8 := by
    have := h.right.aligned
    omega
  have outside : ∀ a, a ≠ span.base + finish →
      (s.memory.setPredecessorAllocated (span.base + finish) new).word a = s.memory.word a :=
    fun a ne => Memory.word_setPredecessorAllocated_of_ne _ _ ne
  have off : ∀ y ∈ before ++ after, ∀ a, span.base + y.offset + 8 ≤ a → a < span.base + y.offset + y.size →
      a ≠ span.base + finish := by
    intro y hy a low high
    rcases List.mem_append.mp hy with hy | hy
    · have := h.bounds_before hy
      omega
    · have := h.bounds_after hy
      omega
  refine ⟨⟨?_, h.left, h.right, h.start_le, ?_, ?_, ?_, h.files, h.sub⟩,
    fun y hy _ a low high => outside a (off y hy a low high)⟩
  · rw [Memory.tag_eq (outside _ (by simp only [Span.prologue, prologueOffset]; omega)), h.prologue]
  · refine h.low.congr ?_ ?_
    · intro c hc
      have := h.bounds_before hc
      exact outside _ (by omega)
    · intro c hc free
      have := h.bounds_before hc
      exact outside _ (by omega)
  · have high := h.high
    have bounds := fun {y} (hy : y ∈ zs) => h.bounds_high (b := y) (split ▸ List.mem_cons_of_mem _ hy)
    have here := h.bounds_high (b := z) (split ▸ List.mem_cons_self)
    simp only [split] at high ⊢
    rw [← at_]
    exact high.flag new here.2.2.2.2 fun y hy => ⟨by have := far y hy; omega, (bounds hy).2.2.2.2⟩
  · refine h.threaded.congr ?_
    intro c o ho
    obtain ⟨y, hy, -, rfl, -⟩ := (h.files c o).mp ho
    have large : 32 ≤ y.size := by
      rcases List.mem_append.mp (h.sub hy) with hy | hy
      · exact (h.bounds_before hy).2.2.1
      · exact (h.bounds_after hy).2.2.1
    exact ⟨outside _ (off y (h.sub hy) _ (by omega) (by omega)), outside _ (off y (h.sub hy) _ (by omega) (by omega))⟩

/-- Nothing is left of the gap. -/
theorem close (h : Gap s span before start state finish after filed ls) (full : start = finish)
    (knows : lastState true before = state) : Arranged s span (before ++ after) filed ls := by
  subst full knows
  refine ⟨⟨h.prologue, Tiled.append_iff.mpr ⟨_, h.left, h.right⟩, ?_⟩, h.threaded, h.files, h.sub⟩
  rw [List.append_assoc]
  exact Segment.append_iff.mpr ⟨h.low, h.high⟩

end Gap

end SegregatedFit
