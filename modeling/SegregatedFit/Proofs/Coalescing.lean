import SegregatedFit.Coalescing
import SegregatedFit.Proofs.Gap

/-!
# Taking a block back is joining it with its free neighbours

A block that is released is marked free, joined with a free block before it and a free block after it, and filed. Each step
runs without a fault and does to the memory what the function on layouts of the same name does to the layout.
-/

namespace SegregatedFit

/-! ## Running the steps -/

namespace StoreM

variable {s : Store} {b : Block} {base : Nat} {state : Bool}

/-- A tag and a footer written one after the other make a free block. -/
theorem writeFooter_run (state : Bool) (h : b.Writable) (free : b.allocated = false)
    (fits : base + b.offset + b.size < 0x1_0000_0000_0000_0000) :
    writeFooter (base + b.offset) { s with memory := s.memory.setTag (base + b.offset) ⟨b.size, false, state⟩ } =
      .ok () { s with memory := s.memory.put base b state } := by
  have large := h.large free
  have tag : (s.memory.setTag (base + b.offset) ⟨b.size, false, state⟩).tag (base + b.offset) = ⟨b.size, false, state⟩ :=
    Memory.tag_setTag_self _ _ h.small h.aligned
  rw [writeFooter_apply (by simp only [tag]; exact large)]
  simp only [tag, Memory.footerAddress, Memory.put, free, Bool.false_eq_true, if_false, headerSize]
  rw [stepUp_of_lt (by omega), show base + b.offset + (b.size - 8) = base + (b.offset + b.size - 8) by omega]

/-- A free block is rewritten with more bytes. -/
theorem enlarge_run {extra : Nat} (size : (s.memory.tag (base + b.offset)).size + extra = b.size)
    (state' : (s.memory.tag (base + b.offset)).predecessorAllocated = state)
    (isFree : (s.memory.tag (base + b.offset)).allocated = false) (h : b.Writable) (free : b.allocated = false)
    (fits : base + b.offset + b.size < 0x1_0000_0000_0000_0000) :
    enlarge (base + b.offset) extra s = .ok () { s with memory := s.memory.put base b state } := by
  unfold enlarge
  simp only [Operation.bind_apply, tag_apply, addChecked, size, if_pos h.small, Operation.lift_ok, Operation.pure_apply,
    Tag.withSize, Tag.make, alignment, if_pos h.aligned, isFree, state']
  exact writeFooter_run state h free fits

/-- The block right behind a block that ends in the address space. -/
theorem following_run (size : (s.memory.tag (base + b.offset)).size = b.size)
    (fits : base + b.offset + b.size < 0x1_0000_0000_0000_0000) :
    following (base + b.offset) s = .ok (base + (b.offset + b.size)) s := by
  rw [following_apply, Memory.following, size, stepUp_of_lt fits, Nat.add_assoc]

end StoreM

namespace Laid

variable {m : Memory} {span : Span} {bs : List Block} {b : Block}

/-- The numbers of a block fit in words, and so does its end. -/
theorem writable (h : Laid m span bs) (hb : b ∈ bs) :
    b.Writable ∧ span.base + b.offset + b.size < 0x1_0000_0000_0000_0000 := by
  have := h.bounds hb
  have := span.finish_lt
  exact ⟨⟨by omega, by omega, fun _ => by omega⟩, by omega⟩

/-- The block behind a block stands where it ends and knows its state. -/
theorem next {before after : List Block} (h : Laid m span (before ++ b :: after)) :
    ∃ z zs, after ++ [span.sentinel] = z :: zs ∧ z.offset = b.offset + b.size ∧
      m.tag (span.base + (b.offset + b.size)) =
        { size := z.size, allocated := z.allocated, predecessorAllocated := b.allocated } := by
  obtain ⟨_, -, middle⟩ := Tiled.append_iff.mp h.tiled
  obtain ⟨rfl, -, -, right⟩ := Tiled.cons_iff.mp middle
  obtain ⟨-, high⟩ := h.around
  cases after with
  | nil =>
    have at_ : b.offset + b.size = span.epilogueOffset := right
    exact ⟨_, _, rfl, at_.symm, by rw [at_]; exact high.1⟩
  | cons z after =>
    obtain ⟨at_, -⟩ := Tiled.cons_iff.mp right
    obtain ⟨tag, -⟩ := Segment.cons_iff.mp high
    exact ⟨z, _, rfl, at_, by rw [← at_, tag]⟩

/-- A free block is found from the block behind it. -/
theorem preceding {before after : List Block} (h : Laid m span (before ++ b :: after)) (free : b.allocated = false) :
    m.preceding (span.base + (b.offset + b.size)) = .ok (span.base + b.offset) := by
  have bounds := h.bounds (b := b) (by simp)
  obtain ⟨-, fits⟩ := h.writable (b := b) (by simp)
  obtain ⟨z, zs, -, -, tag⟩ := h.next
  have segment := h.segment
  rw [List.append_assoc, List.cons_append, Segment.append_iff] at segment
  obtain ⟨-, -, footer, -⟩ := segment
  unfold Memory.preceding
  rw [tag, free, headerSize, show span.base + (b.offset + b.size) - 8 = span.base + (b.offset + b.size - 8) by omega,
    footer free, stepDown_of_le (by omega) (by omega)]
  simp only [Bool.false_eq_true, if_false, Except.ok.injEq]
  omega

end Laid

/-! ## Marking a block free -/

namespace Focus

variable {s : Store} {span : Span} {f : Focus}

/-- The memory after the block in hand was marked free. -/
def markedFree (f : Focus) (m : Memory) (base : Nat) : Memory :=
  (m.put base (f.mark false).block (lastState true f.before)).setPredecessorAllocated
    (base + (f.block.offset + f.block.size)) false

theorem Describes.markedFree (h : f.Describes s span) :
    (f.mark false).Describes { s with memory := f.markedFree s.memory span.base } span ∧
      SamePayloads span.base (f.before ++ f.after) s.memory (f.markedFree s.memory span.base) := by
  have inside : f.block ∈ f.blocks := by simp [blocks]
  obtain ⟨_, left, middle⟩ := Tiled.append_iff.mp h.laid.tiled
  obtain ⟨rfl, large, aligned, right⟩ := Tiled.cons_iff.mp middle
  obtain ⟨⟨-, small, -⟩, -⟩ := h.laid.writable inside
  have gap := Arranged.open [f.block] h (List.Subset.refl _) left ⟨rfl, large, aligned, rfl⟩
  obtain ⟨written, same⟩ := gap.put (b := (f.mark false).block) rfl ⟨aligned, small, fun _ => large⟩ large (Nat.le_refl _)
  obtain ⟨flagged, same'⟩ := written.flag false
  have done := flagged.close rfl (by simp [mark])
  rw [List.append_assoc] at done
  refine ⟨done, same.trans (same'.mono ?_)⟩
  intro y hy _
  simp only [List.mem_append] at hy ⊢
  tauto

end Focus

/-! ## Joining two neighbours -/

namespace Arranged

variable {s : Store} {span : Span} {before after filed bs : List Block} {ls : Lists} {x y : Block}

/-- Two neighbours that no list holds become one free block. -/
theorem join (h : Arranged s span (before ++ y :: x :: after) (before ++ after) ls) (freeY : y.allocated = false)
    (freeX : x.allocated = false) :
    let t := { s with memory := s.memory.put span.base { y with size := y.size + x.size } (lastState true before) }
    StoreM.enlarge (span.base + y.offset) x.size s = .ok () t ∧
      Arranged t span (before ++ { y with size := y.size + x.size } :: after) (before ++ after) ls ∧
      SamePayloads span.base (before ++ after) s.memory t.memory := by
  obtain ⟨tag, -⟩ := h.laid.around
  obtain ⟨-, small⟩ := h.laid.writable (b := x) (by simp)
  obtain ⟨_, left, middle⟩ := Tiled.append_iff.mp h.laid.tiled
  obtain ⟨rfl, largeY, alignedY, rest⟩ := Tiled.cons_iff.mp middle
  obtain ⟨at_, largeX, alignedX, right⟩ := Tiled.cons_iff.mp rest
  have writable : ({ y with size := y.size + x.size } : Block).Writable :=
    ⟨by simp only; omega, by simp only; omega, fun _ => by simp only; omega⟩
  have run : StoreM.enlarge (span.base + y.offset) x.size s = .ok () _ :=
    StoreM.enlarge_run (b := { y with size := y.size + x.size }) (by simp [tag]) (by rw [tag]) (by simp [tag, freeY])
      writable freeY (by simp only; omega)
  have gap := Arranged.open [y, x] h (List.Subset.refl _) left ⟨rfl, largeY, alignedY, at_, largeX, alignedX, rfl⟩
  obtain ⟨written, same⟩ := gap.put (b := { y with size := y.size + x.size }) rfl writable (by simp only; omega)
    (by simp only; omega)
  have done := written.close (by simp only; omega) (by simp [freeX, freeY])
  rw [List.append_assoc] at done
  exact ⟨run, done, same⟩

/-- Telling a block what it knows already. -/
theorem flag (h : Arranged s span (before ++ after) filed ls) (sub : filed ⊆ before ++ after) {middle : Nat}
    (left : Tiled 24 before middle) :
    Arranged { s with memory := s.memory.setPredecessorAllocated (span.base + middle) (lastState true before) } span
        (before ++ after) filed ls ∧
      SamePayloads span.base (before ++ after) s.memory
        (s.memory.setPredecessorAllocated (span.base + middle) (lastState true before)) := by
  have gap := Arranged.open [] h sub left rfl
  obtain ⟨flagged, same⟩ := gap.flag (lastState true before)
  exact ⟨flagged.close rfl rfl, same⟩

end Arranged

namespace Focus

variable {s : Store} {span : Span} {f : Focus}

/-! ## Joining with the block before -/

/-- The store after the block in hand was joined with the block before it, if that one is free. -/
def joinedBefore (f : Focus) (s : Store) (base : Nat) : Store :=
  match f.before.getLast? with
  | none => s
  | some y =>
    if y.allocated then s
    else
      let t := s.unlink base y.offset
      { t with memory := t.memory.put base { y with size := y.size + f.block.size } (lastState true f.before.dropLast) }

/-- Every free block before the block in hand that touches it is joined with it. -/
theorem mergePreceding_run (h : f.Describes s span) (free : f.block.allocated = false) :
    StoreM.mergePreceding span (span.base + f.block.offset) s =
        .ok (span.base + f.joinBefore.block.offset) (f.joinedBefore s span.base) ∧
      f.joinBefore.Describes (f.joinedBefore s span.base) span ∧ f.joinBefore.block.allocated = false ∧
      SamePayloads span.base (f.before ++ f.after) s.memory (f.joinedBefore s span.base).memory := by
  obtain ⟨before, x, after, ls⟩ := f
  obtain ⟨tag, -⟩ := h.laid.around
  simp only at free tag ⊢
  have skip : lastState true before = true → StoreM.mergePreceding span (span.base + x.offset) s =
      .ok (span.base + x.offset) s := by
    intro last
    simp only [StoreM.mergePreceding, Operation.bind_apply, StoreM.tag_apply, tag, last, if_true]
    rfl
  rcases List.eq_nil_or_concat before with rfl | ⟨before, y, rfl⟩
  · exact ⟨skip rfl, h, free, .refl _ _ _⟩
  · rw [List.concat_eq_append] at *
    cases state : y.allocated with
    | true =>
      have same : joinBefore ⟨before ++ [y], x, after, ls⟩ = ⟨before ++ [y], x, after, ls⟩ := by simp [joinBefore, state]
      have kept : joinedBefore ⟨before ++ [y], x, after, ls⟩ s span.base = s := by simp [joinedBefore, state]
      rw [same, kept]
      exact ⟨skip (by simp [state]), h, free, .refl _ _ _⟩
    | false =>
      have joined : joinBefore ⟨before ++ [y], x, after, ls⟩ =
          ⟨before, { y with size := y.size + x.size }, after, ls.drop y⟩ := by simp [joinBefore, state]
      have stored : joinedBefore ⟨before ++ [y], x, after, ls⟩ s span.base =
          ⟨(s.unlink span.base y.offset).memory.put span.base { y with size := y.size + x.size } (lastState true before),
            (s.unlink span.base y.offset).heads⟩ := by simp [joinedBefore, state]
      rw [joined, stored]
      have arranged : Arranged s span (before ++ y :: x :: after) (before ++ y :: after) ls := by
        simpa [Focus.Describes, blocks] using h
      obtain ⟨z, zs, split, at_, -⟩ := arranged.laid.next
      obtain ⟨rfl, -⟩ := List.cons.inj split
      have found := arranged.laid.preceding state
      have apart : ∀ z ∈ before ++ after, z.offset ≠ y.offset := fun z hz =>
        arranged.laid.tiled.offset_ne (by simp only [List.mem_append, List.mem_cons] at hz ⊢; tauto)
      obtain ⟨left, out, same⟩ := arranged.remove state apart
      obtain ⟨run, done, same'⟩ := out.join state free
      have size : ((s.unlink span.base y.offset).memory.tag (span.base + (y.offset + y.size))).size = x.size := by
        rw [← at_]
        exact (out.laid.tag (by simp)).1
      refine ⟨?_, done, state, (same.mono ?_).trans (same'.mono ?_)⟩
      · rw [at_] at tag ⊢
        have last : lastState true (before ++ [y]) = false := by simp [state]
        simp only [StoreM.mergePreceding, Operation.bind_apply, StoreM.tag_apply, tag, last, Bool.false_eq_true, if_false,
          StoreM.preceding, Operation.get_apply, found, Operation.lift_ok, Operation.pure_apply, left, size, run]
      · intro z hz _
        simp only [List.mem_append, List.mem_cons] at hz ⊢
        tauto
      · intro z hz allocated
        have ne : z ≠ y := Block.ne_of_allocated allocated state
        simp only [List.mem_append, List.mem_singleton] at hz ⊢
        tauto

/-! ## Joining with the block behind -/

/-- The store after the block in hand was joined with the block after it, if that one is free. -/
def joinedAfter (f : Focus) (s : Store) (base : Nat) : Store :=
  match f.after with
  | [] => s
  | z :: _ =>
    if z.allocated then s
    else
      let t := s.unlink base z.offset
      let whole := { f.block with size := f.block.size + z.size }
      { t with
        memory := (t.memory.put base whole (lastState true f.before)).setPredecessorAllocated
          (base + (whole.offset + whole.size)) false }

/-- Every free block behind the block in hand that touches it is joined with it. -/
theorem mergeFollowing_run (h : f.Describes s span) (free : f.block.allocated = false) :
    StoreM.mergeFollowing span (span.base + f.block.offset) s = .ok () (f.joinedAfter s span.base) ∧
      f.joinAfter.Describes (f.joinedAfter s span.base) span ∧ f.joinAfter.block.allocated = false ∧
      SamePayloads span.base (f.before ++ f.after) s.memory (f.joinedAfter s span.base).memory := by
  obtain ⟨before, x, after, ls⟩ := f
  have sizeX := (h.laid.tag (b := x) (by simp [blocks])).1
  obtain ⟨-, fits⟩ := h.laid.writable (b := x) (by simp [blocks])
  obtain ⟨z, zs, split, at_, tag⟩ := h.laid.next
  simp only at free split at_ tag ⊢
  have following := StoreM.following_run sizeX fits
  have skip : z.allocated = true → StoreM.mergeFollowing span (span.base + x.offset) s = .ok () s := by
    intro allocated
    simp only [StoreM.mergeFollowing, Operation.bind_apply, following, StoreM.tag_apply, tag, allocated, if_true]
    rfl
  cases after with
  | nil =>
    obtain ⟨rfl, -⟩ := List.cons.inj split
    exact ⟨skip rfl, h, free, .refl _ _ _⟩
  | cons y after =>
    obtain ⟨rfl, -⟩ := List.cons.inj split
    cases state : y.allocated with
    | true =>
      have same : joinAfter ⟨before, x, y :: after, ls⟩ = ⟨before, x, y :: after, ls⟩ := by simp [joinAfter, state]
      have kept : joinedAfter ⟨before, x, y :: after, ls⟩ s span.base = s := by simp [joinedAfter, state]
      rw [same, kept]
      exact ⟨skip state, h, free, .refl _ _ _⟩
    | false =>
      have joined : joinAfter ⟨before, x, y :: after, ls⟩ =
          ⟨before, { x with size := x.size + y.size }, after, ls.drop y⟩ := by simp [joinAfter, state]
      rw [joined]
      have arranged : Arranged s span (before ++ x :: y :: after) (before ++ y :: after) ls := h
      have apart : ∀ z ∈ before ++ after, z.offset ≠ y.offset := by
        have tiled := arranged.laid.tiled
        rw [List.append_cons] at tiled
        exact fun z hz => tiled.offset_ne (by simp only [List.mem_append, List.mem_cons] at hz ⊢; tauto)
      obtain ⟨left, out, same⟩ := arranged.remove state apart
      obtain ⟨run, done, same'⟩ := out.join free state
      obtain ⟨sizeY, stateY⟩ := out.laid.tag (b := y) (by simp)
      obtain ⟨-, fitsY⟩ := out.laid.writable (b := y) (by simp)
      obtain ⟨middle, tiledLeft, tiledRight⟩ := Tiled.append_iff.mp done.laid.tiled
      obtain ⟨rfl, large, aligned, -⟩ := Tiled.cons_iff.mp tiledRight
      rw [List.append_cons] at done
      obtain ⟨flagged, same''⟩ := done.flag (fun z hz => by simp only [List.mem_append] at hz ⊢; tauto)
        (Tiled.append_iff.mpr ⟨_, tiledLeft, rfl, large, aligned, rfl⟩)
      rw [← List.append_cons] at flagged
      have last : lastState true (before ++ [{ x with size := x.size + y.size }]) = false := by simp [free]
      rw [last] at flagged same''
      have stored : joinedAfter ⟨before, x, y :: after, ls⟩ s span.base =
          ⟨((s.unlink span.base y.offset).memory.put span.base { x with size := x.size + y.size }
            (lastState true before)).setPredecessorAllocated (span.base + (x.offset + (x.size + y.size))) false,
            (s.unlink span.base y.offset).heads⟩ := by simp [joinedAfter, state]
      rw [stored]
      refine ⟨?_, flagged, free, ((same.mono ?_).trans (same'.mono ?_)).trans (same''.mono ?_)⟩
      · have followingY := StoreM.following_run sizeY fitsY
        simp only [StoreM.mergeFollowing, Operation.bind_apply, following, StoreM.tag_apply, tag, state,
          Bool.false_eq_true, if_false]
        rw [← at_, left]
        simp only [followingY, sizeY, run]
        rw [StoreM.setPredecessorAllocated_apply, at_, Nat.add_assoc]
      · intro z hz _
        simp only [List.mem_append, List.mem_cons] at hz ⊢
        tauto
      all_goals
        intro z hz allocated
        have ne : z ≠ y := Block.ne_of_allocated allocated state
        simp only [List.mem_append, List.mem_cons] at hz ⊢
        tauto

/-! ## What is left next to the block in hand -/

theorem joinAfter_offset (f : Focus) : f.joinAfter.block.offset = f.block.offset := by
  unfold joinAfter
  split
  · rfl
  · split <;> rfl

theorem joinAfter_before (f : Focus) : f.joinAfter.before = f.before := by
  unfold joinAfter
  split
  · rfl
  · split <;> rfl

theorem joinBefore_after (f : Focus) : f.joinBefore.after = f.after := by
  unfold joinBefore
  split
  · rfl
  · split <;> rfl

theorem joinBefore_free (free : f.block.allocated = false) : f.joinBefore.block.allocated = false := by
  unfold joinBefore
  split
  · exact free
  · split
    · exact free
    · next state => simpa using state

theorem joinAfter_free (free : f.block.allocated = false) : f.joinAfter.block.allocated = false := by
  unfold joinAfter
  split
  · exact free
  · split <;> exact free

/-- The block before the joined block is allocated. -/
theorem joinBefore_coalesced (h : Coalesced f.before) : Coalesced f.joinBefore.before ∧
    ∀ y ∈ f.joinBefore.before.getLast?, y.allocated = true := by
  obtain ⟨before, x, after, ls⟩ := f
  rcases List.eq_nil_or_concat before with rfl | ⟨before, y, rfl⟩
  · simpa [joinBefore] using h
  · rw [List.concat_eq_append] at h ⊢
    obtain ⟨left, -, touch⟩ := coalesced_append.mp h
    cases state : y.allocated with
    | true => simpa [joinBefore, state] using h
    | false =>
      simp only [joinBefore, List.getLast?_append, List.getLast?_singleton, Option.some_or, state, Bool.false_eq_true,
        if_false, List.dropLast_concat]
      refine ⟨left, fun z hz => (touch z hz y (by simp)).resolve_right ?_⟩
      simp [state]

/-- The block behind the joined block is allocated. -/
theorem joinAfter_coalesced (h : Coalesced f.after) : Coalesced f.joinAfter.after ∧
    ∀ z ∈ f.joinAfter.after.head?, z.allocated = true := by
  obtain ⟨before, x, after, ls⟩ := f
  cases after with
  | nil => simpa [joinAfter] using h
  | cons y after =>
    obtain ⟨touch, right⟩ := coalesced_cons.mp h
    cases state : y.allocated with
    | true => simpa [joinAfter, state] using h
    | false =>
      simp only [joinAfter, state, Bool.false_eq_true, if_false]
      refine ⟨right, fun z hz => (touch z hz).resolve_left ?_⟩
      simp [state]

/-- Joining drops and adds no allocated block. -/
theorem mem_joinBefore {y : Block} (allocated : y.allocated = true) :
    y ∈ f.joinBefore.before ++ f.joinBefore.after ↔ y ∈ f.before ++ f.after := by
  obtain ⟨before, x, after, ls⟩ := f
  rcases List.eq_nil_or_concat before with rfl | ⟨before, z, rfl⟩
  · exact Iff.rfl
  · rw [List.concat_eq_append]
    cases state : z.allocated with
    | true => simp [joinBefore, state]
    | false =>
      have ne : y ≠ z := Block.ne_of_allocated allocated state
      simp [joinBefore, state, ne]

theorem mem_joinAfter {y : Block} (allocated : y.allocated = true) :
    y ∈ f.joinAfter.before ++ f.joinAfter.after ↔ y ∈ f.before ++ f.after := by
  obtain ⟨before, x, after, ls⟩ := f
  cases after with
  | nil => exact Iff.rfl
  | cons z after =>
    cases state : z.allocated with
    | true => simp [joinAfter, state]
    | false =>
      have ne : y ≠ z := Block.ne_of_allocated allocated state
      simp [joinAfter, state, ne]

/-- The store after the free block in hand was joined with the free blocks on either side. -/
def joined (f : Focus) (s : Store) (base : Nat) : Store := f.joinBefore.joinedAfter (f.joinedBefore s base) base

/-- The store after the free block in hand was joined with its free neighbours and filed. -/
def settled (f : Focus) (s : Store) (base : Nat) : Store := (f.joined s base).linkIn base f.joinBefore.block.offset

/-- A free block in hand is joined with its free neighbours and filed. -/
theorem settle_run (h : f.Describes s span) (free : f.block.allocated = false) (before : Coalesced f.before)
    (after : Coalesced f.after) :
    StoreM.mergePreceding span (span.base + f.block.offset) s =
        .ok (span.base + f.joinBefore.block.offset) (f.joinedBefore s span.base) ∧
      StoreM.mergeFollowing span (span.base + f.joinBefore.block.offset) (f.joinedBefore s span.base) =
        .ok () (f.joined s span.base) ∧
      FreeList.insert span (span.base + f.joinBefore.block.offset) (f.joined s span.base) = .ok () (f.settled s span.base) ∧
      f.joinBefore.joinAfter.file.Describes (f.settled s span.base) span ∧
      SamePayloads span.base (f.before ++ f.after) s.memory (f.settled s span.base).memory := by
  obtain ⟨run₁, joined₁, free₁, same₁⟩ := mergePreceding_run h free
  obtain ⟨run₂, joined₂, free₂, same₂⟩ := mergeFollowing_run joined₁ free₁
  obtain ⟨run₃, filed, same₃⟩ := joined₂.insert (x := f.joinBefore.joinAfter.block) (by simp [blocks]) free₂
    fun y hy => joined₂.laid.tiled.offset_ne hy
  rw [joinAfter_offset] at run₃ filed same₃
  obtain ⟨left, lastAllocated⟩ := joinBefore_coalesced before
  obtain ⟨right, headAllocated⟩ := f.joinBefore.joinAfter_coalesced (f.joinBefore_after.symm ▸ after)
  rw [← joinAfter_before] at left lastAllocated
  have coalesced : Coalesced f.joinBefore.joinAfter.blocks :=
    coalesced_append.mpr ⟨left, coalesced_cons.mpr ⟨fun z hz => .inr (headAllocated z hz), right⟩,
      fun y hy _ _ => .inl (lastAllocated y hy)⟩
  refine ⟨run₁, run₂, run₃, ⟨filed.laid, coalesced, filed.threaded, filed.files⟩,
    (same₁.trans (same₂.mono fun y hy allocated => (mem_joinBefore allocated).mpr hy)).trans (same₃.mono ?_)⟩
  intro y hy allocated
  have mem := (mem_joinAfter allocated).mpr ((mem_joinBefore allocated).mpr hy)
  simp only [blocks, List.mem_append, List.mem_cons] at mem ⊢
  tauto

end Focus

/-! ## Taking a block back -/

variable {s : Store} {span : Span} {L : Layout} {before after : List Block} {x : Block}

/-- An allocated block is taken in hand; it stays in no list. -/
theorem Layout.Describes.hand (h : L.Describes s span) (split : L.blocks = before ++ x :: after)
    (live : x.allocated = true) : (⟨before, x, after, L.lists⟩ : Focus).Describes s span := by
  have arranged := h.arranged
  rw [split] at arranged
  refine ⟨arranged.laid, arranged.threaded, (Files.skip_iff live).mp arranged.files, ?_⟩
  intro y hy
  simp only [Focus.blocks, List.mem_append, List.mem_cons] at hy ⊢
  tauto

/-- The store after the allocated block in hand was taken back. -/
def Focus.released (f : Focus) (s : Store) (base : Nat) : Store :=
  (f.mark false).settled { s with memory := f.markedFree s.memory base } base

/-- Taking back an allocated block runs without a fault, does to the memory what it does to the layout, and leaves the
payloads of all other allocated blocks alone. -/
theorem Layout.Describes.release_run (h : L.Describes s span) (split : L.blocks = before ++ x :: after)
    (live : x.allocated = true) :
    StoreM.release span (span.base + x.offset) s =
        .ok (span.base + (Focus.mark ⟨before, x, after, L.lists⟩ false).joinBefore.block.offset)
          (Focus.released ⟨before, x, after, L.lists⟩ s span.base) ∧
      (L.release x.offset).Describes (Focus.released ⟨before, x, after, L.lists⟩ s span.base) span ∧
      SamePayloads span.base (before ++ after) s.memory (Focus.released ⟨before, x, after, L.lists⟩ s span.base).memory := by
  obtain ⟨coalescedBefore, coalescedRest, -⟩ := coalesced_append.mp (split ▸ h.coalesced)
  obtain ⟨-, coalescedAfter⟩ := coalesced_cons.mp coalescedRest
  have hand := h.hand split live
  have released : L.release x.offset =
      (⟨before, { x with allocated := false }, after, L.lists⟩ : Focus).joinBefore.joinAfter.file := by
    simp [Layout.release, Layout.take_eq h.laid.tiled split, live, Focus.mark]
  obtain ⟨tag, -⟩ := hand.laid.around
  obtain ⟨writable, fits⟩ := hand.laid.writable (b := x) (by simp [Focus.blocks])
  have large : 32 ≤ x.size := (hand.laid.bounds (b := x) (by simp [Focus.blocks])).2.2.1
  obtain ⟨marked, same⟩ := Focus.Describes.markedFree hand
  obtain ⟨run₁, run₂, run₃, done, same'⟩ := Focus.settle_run marked rfl coalescedBefore coalescedAfter
  have footer : StoreM.writeFooter (span.base + x.offset)
      { s with memory := s.memory.setTag (span.base + x.offset) ⟨x.size, false, lastState true before⟩ } =
        .ok () { s with memory := s.memory.put span.base ⟨x.offset, x.size, false⟩ (lastState true before) } :=
    StoreM.writeFooter_run (b := ⟨x.offset, x.size, false⟩) _ ⟨writable.aligned, writable.small, fun _ => large⟩ rfl fits
  have following : StoreM.following (span.base + x.offset)
      { s with memory := s.memory.put span.base ⟨x.offset, x.size, false⟩ (lastState true before) } = .ok _ _ :=
    StoreM.following_run (b := x) (congrArg Tag.size (Memory.tag_put (b := ⟨x.offset, x.size, false⟩)
      ⟨writable.aligned, writable.small, fun _ => large⟩)) fits
  refine ⟨?_, released ▸ done, same.trans same'⟩
  simp only [StoreM.release, Operation.bind_apply, StoreM.tag_apply, tag, live, Bool.true_eq_false, if_false,
    StoreM.setTag_apply, Tag.withAllocated, footer, following, StoreM.setPredecessorAllocated_apply]
  simp only [Focus.mark, Focus.markedFree] at run₁ run₂ run₃
  simp only [run₁, run₂, run₃]
  rfl

/-- A block that is taken back is no longer lent, and the other blocks lent stay so. -/
theorem Layout.Describes.mem_lent_release (h : L.Describes s span) (hx : x ∈ L.lent) {y : Block} :
    y ∈ (L.release x.offset).lent ↔ y ∈ L.lent ∧ y ≠ x := by
  obtain ⟨mem, live⟩ := Layout.mem_lent.mp hx
  obtain ⟨before, after, split⟩ := List.append_of_mem mem
  have tiled := h.laid.tiled
  rw [split] at tiled
  have released : (L.release x.offset).blocks =
      (Focus.mark ⟨before, x, after, L.lists⟩ false).joinBefore.joinAfter.blocks := by
    simp [Layout.release, Layout.take_eq h.laid.tiled split, live, Focus.file, Focus.blocks]
  rw [Layout.mem_lent, Layout.mem_lent, and_right_comm, released, split]
  refine and_congr_left ?_
  intro allocated
  have free : (Focus.mark ⟨before, x, after, L.lists⟩ false).joinBefore.joinAfter.block.allocated = false :=
    Focus.joinAfter_free (Focus.joinBefore_free rfl)
  have around := (Focus.mem_joinAfter allocated).trans
    (Focus.mem_joinBefore (f := Focus.mark ⟨before, x, after, L.lists⟩ false) allocated)
  have ne : y ≠ (Focus.mark ⟨before, x, after, L.lists⟩ false).joinBefore.joinAfter.block :=
    Block.ne_of_allocated allocated free
  have apart : y ∈ before ++ after → y ≠ x := fun hy e => tiled.offset_ne hy (by rw [e])
  simp only [Focus.mark, List.mem_append] at around apart
  simp only [Focus.blocks, Focus.mark, List.mem_append, List.mem_cons] at ne ⊢
  tauto

end SegregatedFit
