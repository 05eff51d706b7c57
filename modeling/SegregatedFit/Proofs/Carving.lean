import SegregatedFit.Carving
import SegregatedFit.Proofs.Coalescing

/-!
# Handing out a block is cutting it

A free block that is handed out leaves its list. When the rest can stand as a free block it is cut off and filed
(`Focus.Describes.split`); otherwise the whole block goes, and the block behind it is told so (`Focus.Describes.markedUsed`).
Either way the memory changes as `Layout.carve` changes the layout.
-/

namespace SegregatedFit

/-- An allocated block is written by its tag alone. -/
theorem Memory.put_allocated {m : Memory} {base : Nat} {b : Block} (allocated : b.allocated = true) (state : Bool) :
    m.put base b state =
      m.setTag (base + b.offset) { size := b.size, allocated := true, predecessorAllocated := state } := by
  simp only [put, allocated, if_true]

/-! ## Two ways to hand out the block in hand -/

namespace Focus

variable {s : Store} {span : Span} {f : Focus} {wanted : Nat}

/-- The first `wanted` bytes of the block in hand, handed out. -/
def front (f : Focus) (wanted : Nat) : Block := { offset := f.block.offset, size := wanted, allocated := true }

/-- The bytes of the block in hand behind the first `wanted` ones, left free. -/
def rest (f : Focus) (wanted : Nat) : Block :=
  { offset := f.block.offset + wanted, size := f.block.size - wanted, allocated := false }

/-- The rest of the block in hand is in hand after its front was put down. -/
def split (f : Focus) (wanted : Nat) : Focus :=
  { before := f.before ++ [f.front wanted], block := f.rest wanted, after := f.after, lists := f.lists }

theorem cut_of_le (h : 32 ≤ f.block.size - wanted) : f.cut wanted = (f.split wanted).file := if_pos h

theorem cut_of_lt (h : f.block.size - wanted < 32) : f.cut wanted = (f.mark true).putDown :=
  if_neg (Nat.not_le.mpr h)

/-- The memory after the block in hand was cut in two. -/
def halved (f : Focus) (wanted : Nat) (m : Memory) (base : Nat) : Memory :=
  (m.put base (f.front wanted) (lastState true f.before)).put base (f.rest wanted) true

/-- The memory after the whole block in hand was handed out. -/
def markedUsed (f : Focus) (m : Memory) (base : Nat) : Memory :=
  (m.put base (f.mark true).block (lastState true f.before)).setPredecessorAllocated
    (base + (f.block.offset + f.block.size)) true

/-- The block in hand in the gap that it leaves when it is given up. -/
theorem Describes.gap (h : f.Describes s span) :
    Gap s span f.before f.block.offset f.block.allocated (f.block.offset + f.block.size) f.after (f.before ++ f.after)
      f.lists := by
  obtain ⟨_, left, middle⟩ := Tiled.append_iff.mp h.laid.tiled
  obtain ⟨rfl, large, aligned, -⟩ := Tiled.cons_iff.mp middle
  exact Arranged.open [f.block] h (List.Subset.refl _) left ⟨rfl, large, aligned, rfl⟩

/-- Two blocks are written in place of a free one, the first handed out and the second in hand. -/
theorem Describes.split (h : f.Describes s span) (free : f.block.allocated = false) (aligned : wanted % 16 = 0)
    (large : 32 ≤ wanted) (enough : wanted + 32 ≤ f.block.size) :
    (f.split wanted).Describes { s with memory := f.halved wanted s.memory span.base } span ∧
      SamePayloads span.base (f.before ++ f.after) s.memory (f.halved wanted s.memory span.base) := by
  obtain ⟨⟨sizeAligned, small, -⟩, -⟩ := h.laid.writable (b := f.block) (by simp [blocks])
  have gap := h.gap
  rw [free] at gap
  have cut : (f.front wanted).Writable := .of_allocated rfl aligned (by simp only [front]; omega)
  obtain ⟨first, same⟩ := gap.put (b := f.front wanted) rfl cut large (by simp only [front]; omega)
  obtain ⟨second, same'⟩ := first.put (b := f.rest wanted) rfl
    ⟨by simp only [rest]; omega, by simp only [rest]; omega, fun _ => by simp only [rest]; omega⟩
    (by simp only [rest]; omega) (by simp only [front, rest]; omega)
  have known : lastState true (f.before ++ [f.front wanted]) = true := by simp [front]
  rw [known] at second same'
  have done := second.close (by simp only [front, rest]; omega) (by simp [rest])
  rw [List.append_assoc] at done
  refine ⟨⟨done.laid, done.threaded, ?_, ?_⟩, same.trans (same'.mono ?_)⟩
  · simp only [Focus.split, List.append_assoc, List.singleton_append]
    exact (Files.skip_iff rfl).mpr done.files
  · intro y hy
    simp only [Focus.split, blocks, List.mem_append, List.mem_cons] at hy ⊢
    tauto
  · intro y hy _
    simp only [List.mem_append] at hy ⊢
    tauto

/-- The block in hand is handed out where it stands. -/
theorem Describes.markedUsed (h : f.Describes s span) :
    (f.mark true).Describes { s with memory := f.markedUsed s.memory span.base } span ∧
      SamePayloads span.base (f.before ++ f.after) s.memory (f.markedUsed s.memory span.base) := by
  have bounds := h.laid.bounds (b := f.block) (by simp [blocks])
  obtain ⟨⟨aligned, small, -⟩, -⟩ := h.laid.writable (b := f.block) (by simp [blocks])
  obtain ⟨written, same⟩ := h.gap.put (b := (f.mark true).block) rfl (.of_allocated rfl aligned small) bounds.2.2.1
    (Nat.le_refl _)
  obtain ⟨flagged, same'⟩ := written.flag true
  have done := flagged.close rfl (by simp [mark])
  rw [List.append_assoc] at done
  refine ⟨done, same.trans (same'.mono ?_)⟩
  intro y hy _
  simp only [List.mem_append] at hy ⊢
  tauto

/-- The steps that cut the block in hand in two and file the rest. -/
theorem Describes.split_run (h : f.Describes s span) (free : f.block.allocated = false) (aligned : wanted % 16 = 0)
    (large : 32 ≤ wanted) (enough : wanted + 32 ≤ f.block.size) :
    let t := Store.linkIn { s with memory := f.halved wanted s.memory span.base } span.base (f.rest wanted).offset
    (do
        StoreM.setTag (span.base + f.block.offset) ⟨wanted, true, lastState true f.before⟩
        let rest ← StoreM.following (span.base + f.block.offset)
        StoreM.setTag rest ⟨f.block.size - wanted, false, true⟩
        StoreM.writeFooter rest
        FreeList.insert span rest : StoreM Unit) s = .ok () t ∧
      Arranged t span (f.split wanted).blocks (f.split wanted).blocks (f.split wanted).file.lists ∧
      SamePayloads span.base (f.before ++ f.after) s.memory t.memory := by
  obtain ⟨⟨sizeAligned, small, -⟩, fits⟩ := h.laid.writable (b := f.block) (by simp [blocks])
  obtain ⟨done, same⟩ := h.split free aligned large enough
  obtain ⟨run, filed, same'⟩ := done.insert (x := f.rest wanted) (by simp [Focus.split, blocks]) rfl
    fun y hy => done.laid.tiled.offset_ne hy
  have cut : (f.front wanted).Writable := .of_allocated rfl aligned (by simp only [front]; omega)
  have left : (f.rest wanted).Writable :=
    ⟨by simp only [rest]; omega, by simp only [rest]; omega, fun _ => by simp only [rest]; omega⟩
  have following := StoreM.following_run (b := f.front wanted)
    (s := ⟨s.memory.put span.base (f.front wanted) (lastState true f.before), s.heads⟩)
    (congrArg Tag.size (Memory.tag_put cut)) (by simp only [front]; omega)
  have footer : StoreM.writeFooter (span.base + (f.rest wanted).offset) _ = .ok () _ :=
    StoreM.writeFooter_run (s := ⟨s.memory.put span.base (f.front wanted) (lastState true f.before), s.heads⟩) true left
      rfl (by simp only [rest]; omega)
  refine ⟨?_, filed, same.trans (same'.mono ?_)⟩
  · rw [Memory.put_allocated rfl] at following footer
    simp only [halved, Memory.put_allocated (b := f.front wanted) rfl] at run
    simp only [front, rest] at following footer run
    simp only [Operation.bind_apply, StoreM.setTag_apply, following, footer, run]
    rfl
  · intro y hy _
    simp only [Focus.split, blocks, List.mem_append, List.mem_cons] at hy ⊢
    tauto

/-- The steps that hand out the block in hand as it is. -/
theorem Describes.markedUsed_run (h : f.Describes s span) :
    let t := { s with memory := f.markedUsed s.memory span.base }
    (do
        StoreM.setTag (span.base + f.block.offset) ⟨f.block.size, true, lastState true f.before⟩
        StoreM.setPredecessorAllocated (← StoreM.following (span.base + f.block.offset)) true : StoreM Unit) s =
          .ok () t ∧
      Arranged t span (f.mark true).blocks (f.mark true).blocks f.lists ∧
      SamePayloads span.base (f.before ++ f.after) s.memory t.memory := by
  obtain ⟨⟨aligned, small, -⟩, fits⟩ := h.laid.writable (b := f.block) (by simp [blocks])
  obtain ⟨done, same⟩ := h.markedUsed
  have writable : (f.mark true).block.Writable := .of_allocated rfl aligned small
  have following := StoreM.following_run (b := f.block)
    (s := ⟨s.memory.put span.base (f.mark true).block (lastState true f.before), s.heads⟩)
    (congrArg Tag.size (Memory.tag_put writable)) fits
  refine ⟨?_, ⟨done.laid, done.threaded, (Files.skip_iff rfl).mpr done.files, List.Subset.refl _⟩, same⟩
  rw [Memory.put_allocated rfl] at following
  simp only [mark] at following
  simp only [Operation.bind_apply, StoreM.setTag_apply, following, StoreM.setPredecessorAllocated_apply]
  rfl

end Focus

/-! ## Handing out a block -/

variable {s : Store} {span : Span} {L : Layout} {before after : List Block} {x : Block} {wanted : Nat}

/-- A free block touches no other, so what takes its place may begin and end with anything. -/
theorem coalesced_replace {before after : List Block} (inside : List Block) (h : Coalesced (before ++ x :: after))
    (free : x.allocated = false) (within : Coalesced inside) :
    Coalesced (before ++ (inside ++ after)) := by
  obtain ⟨left, right, touch⟩ := coalesced_append.mp h
  obtain ⟨headAllocated, right⟩ := coalesced_cons.mp right
  have head : ∀ y ∈ after.head?, y.allocated = true := fun y hy => (headAllocated y hy).resolve_left (by simp [free])
  have last : ∀ y ∈ before.getLast?, y.allocated = true := fun y hy => (touch y hy x rfl).resolve_right (by simp [free])
  exact coalesced_append.mpr ⟨left, coalesced_append.mpr ⟨within, right, fun _ _ y hy => .inr (head y hy)⟩,
    fun y hy _ _ => .inl (last y hy)⟩

/-- The store after `wanted` bytes of the free block in hand were handed out. -/
def Focus.carved (f : Focus) (wanted : Nat) (s : Store) (base : Nat) : Store :=
  let t := s.unlink base f.block.offset
  if minBlockSize ≤ f.block.size - wanted then
    Store.linkIn { t with memory := f.halved wanted t.memory base } base (f.rest wanted).offset
  else { t with memory := f.markedUsed t.memory base }

/-- Handing out a free block that is large enough runs without a fault, does to the memory what it does to the layout, and
leaves the payloads of the allocated blocks alone. -/
theorem Layout.Describes.carve_run (h : L.Describes s span) (split : L.blocks = before ++ x :: after)
    (free : x.allocated = false) (aligned : wanted % 16 = 0) (large : 32 ≤ wanted) (enough : wanted ≤ x.size) :
    let t := Focus.carved ⟨before, x, after, L.lists.drop x⟩ wanted s span.base
    StoreM.carve span (span.base + x.offset) wanted s = .ok () t ∧ (L.carve x.offset wanted).Describes t span ∧
      SamePayloads span.base L.blocks s.memory t.memory := by
  have arranged := h.arranged
  have coalesced := h.coalesced
  rw [split] at arranged coalesced
  obtain ⟨left, out, same⟩ := arranged.remove free fun y hy => arranged.laid.tiled.offset_ne hy
  have hand : (⟨before, x, after, L.lists.drop x⟩ : Focus).Describes (s.unlink span.base x.offset) span := out
  have carved : L.carve x.offset wanted = (⟨before, x, after, L.lists.drop x⟩ : Focus).cut wanted := by
    simp [Layout.carve, Layout.take_eq h.laid.tiled split, free]
  obtain ⟨tag, -⟩ := arranged.laid.around
  obtain ⟨tag', -⟩ := out.laid.around
  have others : ∀ {m}, SamePayloads span.base (before ++ after) (s.unlink span.base x.offset).memory m →
      SamePayloads span.base L.blocks s.memory m := by
    intro m same'
    rw [split]
    refine same.trans (same'.mono ?_)
    intro y hy allocated
    have ne : y ≠ x := Block.ne_of_allocated allocated free
    simp only [List.mem_append, List.mem_cons] at hy ⊢
    tauto
  intro t
  rw [carved]
  rcases Nat.lt_or_ge (x.size - wanted) 32 with short | long
  · obtain ⟨run, done, same'⟩ := hand.markedUsed_run
    have small : ¬ minBlockSize ≤ x.size - wanted := Nat.not_le.mpr short
    rw [Focus.cut_of_lt short, show t = _ from if_neg small]
    refine ⟨?_, ⟨done.laid, ?_, done.threaded, done.files⟩, others same'⟩
    · rw [← run]
      simp only [StoreM.carve, Operation.bind_apply, StoreM.tag_apply, tag, free, Bool.false_eq_true, if_false,
        Nat.not_lt.mpr enough, left, tag', subChecked, if_pos enough, Operation.lift_ok, Operation.pure_apply, small]
      rfl
    · exact coalesced_replace [{ x with allocated := true }] coalesced free (.singleton _)
  · obtain ⟨run, done, same'⟩ := hand.split_run free aligned large (by simp only; omega)
    have big : minBlockSize ≤ x.size - wanted := long
    have sizeAligned := (h.laid.bounds (b := x) (by simp [split])).2.2.2.1
    have restAligned : (x.size - wanted) % 16 = 0 := by omega
    rw [Focus.cut_of_le long, show t = _ from if_pos big]
    refine ⟨?_, ⟨done.laid, ?_, done.threaded, done.files⟩, others same'⟩
    · rw [← run]
      simp only [StoreM.carve, Operation.bind_apply, StoreM.tag_apply, tag, free, Bool.false_eq_true, if_false,
        Nat.not_lt.mpr enough, left, tag', subChecked, if_pos enough, Operation.lift_ok, Operation.pure_apply, big, if_true,
        Tag.make_of_aligned aligned, Tag.make_of_aligned restAligned]
    · have rearranged := coalesced_replace [Focus.front ⟨before, x, after, L.lists.drop x⟩ wanted,
        Focus.rest ⟨before, x, after, L.lists.drop x⟩ wanted] coalesced free
        (coalesced_cons.mpr ⟨fun _ _ => .inl rfl, .singleton _⟩)
      simpa [Focus.file, Focus.split, Focus.blocks] using rearranged

/-- When nothing is left over, or enough for a free block, exactly the bytes wanted are lent, and the blocks lent before stay
so. -/
theorem Layout.Describes.mem_lent_carve (h : L.Describes s span) (hx : x ∈ L.blocks) (free : x.allocated = false)
    (fits : x.size = wanted ∨ wanted + 32 ≤ x.size) {y : Block} :
    y ∈ (L.carve x.offset wanted).lent ↔ y ∈ L.lent ∨ y = ⟨x.offset, wanted, true⟩ := by
  obtain ⟨before, after, split⟩ := List.append_of_mem hx
  have carved : L.carve x.offset wanted = (⟨before, x, after, L.lists.drop x⟩ : Focus).cut wanted := by
    simp [Layout.carve, Layout.take_eq h.laid.tiled split, free]
  have ne : y.allocated = true → y ≠ x := fun allocated => Block.ne_of_allocated allocated free
  have ne' : ∀ o n, y.allocated = true → y ≠ ⟨o, n, false⟩ := fun _ _ allocated => Block.ne_of_allocated allocated rfl
  have lent : y = ⟨x.offset, wanted, true⟩ → y.allocated = true := fun e => by rw [e]
  rw [Layout.mem_lent, Layout.mem_lent, carved, split]
  rcases fits with rfl | enough
  · rw [Focus.cut_of_lt (by simp only; omega)]
    simp only [Focus.putDown, Focus.mark, Focus.blocks, List.mem_append, List.mem_cons]
    tauto
  · rw [Focus.cut_of_le (by simp only; omega)]
    have := ne' (x.offset + wanted) (x.size - wanted)
    simp only [Focus.file, Focus.split, Focus.front, Focus.rest, Focus.blocks, List.mem_append, List.mem_cons,
      List.not_mem_nil, or_false]
    tauto

end SegregatedFit
