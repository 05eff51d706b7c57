import SegregatedFit.FreeList.Search
import Mathlib.Data.List.Chain
import Mathlib.Logic.Function.Basic

/-!
# Layouts

What a heap is apart from its memory: its blocks in the order of their addresses, and the members of its fourteen free
lists from front to back. The operations of a heap are stated here on layouts, where they are functions on lists; that the
operations on the memory do the same is shown in the modules that follow. Blocks are named by their offsets in the span.

`Focus` is a layout in the middle of an operation: one block is in hand, and no free list holds it. Handing out a block
takes a free block in hand and cuts it (`Focus.cut`); taking a block back joins the block in hand with its free neighbours
and files the result (`Focus.joinBefore`, `Focus.joinAfter`, `Focus.file`).
-/

namespace SegregatedFit

/-- A block of a heap: where it stands, how long it is, and whether a client has it. -/
structure Block where
  offset : Nat
  size : Nat
  allocated : Bool
  deriving DecidableEq, Repr

theorem Block.ne_of_allocated {x y : Block} (allocated : x.allocated = true) (free : y.allocated = false) : x ≠ y := by
  rintro rfl
  rw [allocated] at free
  cases free

/-- The members of every free list, as offsets, from front to back. -/
abbrev Lists := Fin classCount → List Nat

/-- The lists with a block put at the front of the list of its class. -/
def Lists.push (ls : Lists) (b : Block) : Lists :=
  Function.update ls (classOf b.size) (b.offset :: ls (classOf b.size))

/-- The lists with a block taken out of the list of its class. -/
def Lists.drop (ls : Lists) (b : Block) : Lists :=
  Function.update ls (classOf b.size) ((ls (classOf b.size)).erase b.offset)

/-- The blocks of a heap in the order of their addresses, and the members of its free lists. -/
structure Layout where
  blocks : List Block
  lists : Lists

/-- A layout with one block in hand, between the blocks before and after it. No free list holds the block in hand. -/
structure Focus where
  before : List Block
  block : Block
  after : List Block
  lists : Lists

/-- The first block at an offset, between the blocks before and after it. -/
def locate : List Block → Nat → Option (List Block × Block × List Block)
  | [], _ => none
  | b :: bs, offset =>
    if b.offset = offset then some ([], b, bs)
    else (locate bs offset).map fun (before, x, after) => (b :: before, x, after)

namespace Layout

/-- The blocks that clients have. -/
def lent (L : Layout) : List Block := L.blocks.filter Block.allocated

/-- The size of the block at an offset, zero when there is none. -/
def sizeAt (L : Layout) (offset : Nat) : Nat :=
  match locate L.blocks offset with
  | none => 0
  | some (_, x, _) => x.size

/-- The layout with the block at an offset in hand, out of its list if it is free. -/
def take (L : Layout) (offset : Nat) : Option Focus :=
  (locate L.blocks offset).map fun (before, x, after) =>
    { before, block := x, after, lists := if x.allocated then L.lists else L.lists.drop x }

end Layout

namespace Focus

/-- All blocks, the one in hand among them. -/
def blocks (f : Focus) : List Block := f.before ++ f.block :: f.after

/-- The block in hand is put down where it stands, and no list gets it. -/
def putDown (f : Focus) : Layout := { blocks := f.blocks, lists := f.lists }

/-- The block in hand is put down where it stands and joins the list of its class. -/
def file (f : Focus) : Layout := { blocks := f.blocks, lists := f.lists.push f.block }

/-- The block in hand with the state given. -/
def mark (f : Focus) (allocated : Bool) : Focus := { f with block := { f.block with allocated } }

/-- Hands out `wanted` bytes of the block in hand. The rest is filed as a free block when it can stand as one, and goes
with the bytes handed out otherwise. -/
def cut (f : Focus) (wanted : Nat) : Layout :=
  if minBlockSize ≤ f.block.size - wanted then
    file
      { before := f.before ++ [{ offset := f.block.offset, size := wanted, allocated := true }]
        block := { offset := f.block.offset + wanted, size := f.block.size - wanted, allocated := false }
        after := f.after
        lists := f.lists }
  else (f.mark true).putDown

/-- The block in hand joined with the block before it, if that one is free. -/
def joinBefore (f : Focus) : Focus :=
  match f.before.getLast? with
  | none => f
  | some y =>
    if y.allocated then f
    else { before := f.before.dropLast, block := { y with size := y.size + f.block.size }, after := f.after,
           lists := f.lists.drop y }

/-- The block in hand joined with the block after it, if that one is free. -/
def joinAfter (f : Focus) : Focus :=
  match f.after with
  | [] => f
  | z :: after =>
    if z.allocated then f
    else { before := f.before, block := { f.block with size := f.block.size + z.size }, after, lists := f.lists.drop z }

end Focus

namespace Layout

/-- The layout after `wanted` bytes of the free block at an offset were handed out. -/
def carve (L : Layout) (offset wanted : Nat) : Layout :=
  match L.take offset with
  | none => L
  | some f => f.cut wanted

/-- The layout after the allocated block at an offset was taken back. -/
def release (L : Layout) (offset : Nat) : Layout :=
  match L.take offset with
  | none => L
  | some f => (f.mark false).joinBefore.joinAfter.file

end Layout

/-- The blocks of a list stand one right behind the other from `start` to `finish`, each of at least the smallest size and
of a size that is a multiple of the alignment. -/
def Tiled : Nat → List Block → Nat → Prop
  | start, [], finish => start = finish
  | start, b :: bs, finish =>
    b.offset = start ∧ minBlockSize ≤ b.size ∧ b.size % alignment = 0 ∧ Tiled (start + b.size) bs finish

/-- No two neighbours are both free. -/
def Coalesced (bs : List Block) : Prop := bs.IsChain fun x y => x.allocated = true ∨ y.allocated = true

/-- The lists hold exactly the free blocks among `bs`, each in the list of its class. -/
def Files (ls : Lists) (bs : List Block) : Prop :=
  ∀ c o, o ∈ ls c ↔ ∃ b ∈ bs, b.allocated = false ∧ b.offset = o ∧ classOf b.size = c

/-! ## Tilings -/

namespace Tiled

variable {start finish : Nat} {bs xs ys : List Block} {b c x y : Block}

theorem append_iff : Tiled start (xs ++ ys) finish ↔ ∃ middle, Tiled start xs middle ∧ Tiled middle ys finish := by
  induction xs generalizing start with
  | nil => simp [Tiled]
  | cons x xs ih => simp only [List.cons_append, Tiled, ih]; grind

theorem cons_iff : Tiled start (b :: bs) finish ↔
    b.offset = start ∧ 32 ≤ b.size ∧ b.size % 16 = 0 ∧ Tiled (start + b.size) bs finish := Iff.rfl

theorem start_le (h : Tiled start bs finish) : start ≤ finish := by
  induction bs generalizing start with
  | nil => exact Nat.le_of_eq h
  | cons b bs ih =>
    obtain ⟨-, -, -, rest⟩ := h
    have := ih rest
    omega

/-- Every block of a tiling lies between its ends, and its offset and size are as the tiling says. -/
theorem bounds (h : Tiled start bs finish) (hb : b ∈ bs) :
    start ≤ b.offset ∧ b.offset + b.size ≤ finish ∧ 32 ≤ b.size ∧ b.size % 16 = 0 ∧ b.offset % 16 = start % 16 := by
  induction bs generalizing start with
  | nil => cases hb
  | cons c bs ih =>
    obtain ⟨rfl, large, aligned, rest⟩ := cons_iff.mp h
    have := rest.start_le
    rcases List.mem_cons.mp hb with rfl | hb
    · omega
    · have := ih rest hb
      omega

/-- A tiling has one end. -/
theorem finish_unique {finish' : Nat} (h : Tiled start bs finish) (h' : Tiled start bs finish') : finish = finish' := by
  induction bs generalizing start with
  | nil => exact h.symm.trans h'
  | cons b bs ih => exact ih h.2.2.2 h'.2.2.2

/-- The ends of a tiling are equally aligned. -/
theorem aligned (h : Tiled start bs finish) : finish % 16 = start % 16 := by
  induction bs generalizing start with
  | nil => rw [h]
  | cons b bs ih =>
    obtain ⟨-, -, aligned, rest⟩ := cons_iff.mp h
    have := ih rest
    omega

/-- The blocks of a tiling come in the order of their offsets. -/
theorem pairwise (h : Tiled start bs finish) : bs.Pairwise fun x y => x.offset + x.size ≤ y.offset := by
  induction bs generalizing start with
  | nil => exact .nil
  | cons b bs ih =>
    obtain ⟨rfl, -, -, rest⟩ := h
    exact .cons (fun c hc => (rest.bounds hc).1) (ih rest)

/-- Two blocks of a tiling do not overlap. -/
theorem apart (h : Tiled start bs finish) (hb : b ∈ bs) (hc : c ∈ bs) (ne : b.offset ≠ c.offset) :
    b.offset + b.size ≤ c.offset ∨ c.offset + c.size ≤ b.offset := by
  induction bs generalizing start with
  | nil => cases hb
  | cons x xs ih =>
    obtain ⟨rfl, -, -, rest⟩ := h
    rw [List.mem_cons] at hb hc
    rcases hb with rfl | hb <;> rcases hc with rfl | hc
    · exact absurd rfl ne
    · exact .inl (rest.bounds hc).1
    · exact .inr (rest.bounds hb).1
    · exact ih rest hb hc

/-- A block of a tiling is known by its offset. -/
theorem eq_of_offset (h : Tiled start bs finish) (hb : b ∈ bs) (hc : c ∈ bs) (same : b.offset = c.offset) : b = c := by
  induction bs generalizing start with
  | nil => cases hb
  | cons x xs ih =>
    obtain ⟨rfl, large, -, rest⟩ := h
    simp only [minBlockSize] at large
    rw [List.mem_cons] at hb hc
    rcases hb with rfl | hb <;> rcases hc with rfl | hc
    · rfl
    · have := (rest.bounds hc).1
      omega
    · have := (rest.bounds hb).1
      omega
    · exact ih rest hb hc

/-- The blocks around a block of a tiling stand elsewhere. -/
theorem offset_ne (h : Tiled start (xs ++ x :: ys) finish) (hy : y ∈ xs ++ ys) : y.offset ≠ x.offset := by
  obtain ⟨middle, left, right⟩ := append_iff.mp h
  obtain ⟨rfl, large, -, rest⟩ := right
  simp only [minBlockSize] at large
  rcases List.mem_append.mp hy with hy | hy
  · have := left.bounds hy
    omega
  · have := rest.bounds hy
    omega

theorem nodup_offsets (h : Tiled start bs finish) : (bs.map Block.offset).Nodup := by
  rw [List.Nodup, List.pairwise_map]
  refine h.pairwise.imp_of_mem ?_
  intro x y hx _ le
  have := (h.bounds hx).2.2.1
  omega

/-- A tiling has no more blocks than fit between its ends. -/
theorem length_le (h : Tiled start bs finish) : start + 32 * bs.length ≤ finish := by
  induction bs generalizing start with
  | nil => exact Nat.le_of_eq h
  | cons b bs ih =>
    obtain ⟨-, large, -, rest⟩ := h
    simp only [minBlockSize] at large
    have := ih rest
    simp only [List.length_cons]
    omega

end Tiled

/-! ## Finding a block -/

/-- The block of a tiling at an offset is found. -/
theorem Tiled.locate {start finish : Nat} {before after : List Block} {x : Block}
    (h : Tiled start (before ++ x :: after) finish) : locate (before ++ x :: after) x.offset = some (before, x, after) := by
  induction before generalizing start with
  | nil => simp [SegregatedFit.locate]
  | cons b before ih =>
    have ne : b.offset ≠ x.offset := h.offset_ne (List.mem_append_left _ List.mem_cons_self)
    obtain ⟨-, -, -, rest⟩ := h
    simp [SegregatedFit.locate, ne, ih rest]

namespace Layout

variable {L : Layout} {start finish : Nat} {before after : List Block} {x : Block}

theorem mem_lent : x ∈ L.lent ↔ x ∈ L.blocks ∧ x.allocated = true := List.mem_filter

theorem take_eq (tiled : Tiled start L.blocks finish) (split : L.blocks = before ++ x :: after) :
    L.take x.offset =
      some { before, block := x, after, lists := if x.allocated then L.lists else L.lists.drop x } := by
  rw [split] at tiled
  simp [take, split, tiled.locate]

theorem sizeAt_eq (tiled : Tiled start L.blocks finish) (hx : x ∈ L.blocks) : L.sizeAt x.offset = x.size := by
  obtain ⟨before, after, split⟩ := List.append_of_mem hx
  rw [split] at tiled
  simp [sizeAt, split, tiled.locate]

end Layout

/-! ## Coalesced rows -/

theorem coalesced_append {xs ys : List Block} : Coalesced (xs ++ ys) ↔
    Coalesced xs ∧ Coalesced ys ∧ ∀ x ∈ xs.getLast?, ∀ y ∈ ys.head?, x.allocated = true ∨ y.allocated = true :=
  List.isChain_append

theorem coalesced_cons {x : Block} {ys : List Block} : Coalesced (x :: ys) ↔
    (∀ y ∈ ys.head?, x.allocated = true ∨ y.allocated = true) ∧ Coalesced ys := List.isChain_cons

/-! ## Lists and the blocks they hold -/

namespace Files

variable {ls : Lists} {before after bs : List Block} {x : Block}

/-- The lists hold each free block under its class. -/
theorem mem (h : Files ls bs) (hx : x ∈ bs) (free : x.allocated = false) : x.offset ∈ ls (classOf x.size) :=
  (h _ _).mpr ⟨x, hx, free, rfl, rfl⟩

/-- An allocated block does not matter. -/
theorem skip_iff (allocated : x.allocated = true) : Files ls (before ++ x :: after) ↔ Files ls (before ++ after) := by
  refine forall_congr' fun c => forall_congr' fun o => iff_congr Iff.rfl ?_
  constructor
  · rintro ⟨y, hy, free, rest⟩
    have ne : y ≠ x := (Block.ne_of_allocated allocated free).symm
    exact ⟨y, by simpa [ne] using hy, free, rest⟩
  · rintro ⟨y, hy, rest⟩
    refine ⟨y, ?_, rest⟩
    simp only [List.mem_append, List.mem_cons] at hy ⊢
    tauto

/-- Lists that a block leaves hold the blocks around it. -/
theorem drop (h : Files ls (before ++ x :: after)) (nodup : (ls (classOf x.size)).Nodup)
    (apart : ∀ y ∈ before ++ after, y.offset ≠ x.offset) : Files (ls.drop x) (before ++ after) := by
  intro c o
  have around : ∀ y, y ∈ before ++ x :: after ↔ y = x ∨ y ∈ before ++ after := by
    intro y
    simp only [List.mem_append, List.mem_cons]
    tauto
  by_cases same : c = classOf x.size
  · subst same
    simp only [Lists.drop, Function.update_self, nodup.mem_erase_iff, h _ _]
    constructor
    · rintro ⟨ne, y, hy, isFree, rfl, cls⟩
      rcases (around y).mp hy with rfl | hy
      · exact absurd rfl ne
      · exact ⟨y, hy, isFree, rfl, cls⟩
    · rintro ⟨y, hy, isFree, rfl, cls⟩
      exact ⟨apart y hy, y, (around y).mpr (.inr hy), isFree, rfl, cls⟩
  · simp only [Lists.drop, Function.update_of_ne same, h _ _]
    constructor
    · rintro ⟨y, hy, isFree, rfl, cls⟩
      rcases (around y).mp hy with rfl | hy
      · exact absurd cls.symm same
      · exact ⟨y, hy, isFree, rfl, cls⟩
    · rintro ⟨y, hy, isFree, rfl, cls⟩
      exact ⟨y, (around y).mpr (.inr hy), isFree, rfl, cls⟩

/-- Lists that a free block joins hold it and the blocks around it. -/
theorem push (h : Files ls (before ++ after)) (free : x.allocated = false) :
    Files (ls.push x) (before ++ x :: after) := by
  intro c o
  have around : ∀ y, y ∈ before ++ x :: after ↔ y = x ∨ y ∈ before ++ after := by
    intro y
    simp only [List.mem_append, List.mem_cons]
    tauto
  by_cases same : c = classOf x.size
  · subst same
    simp only [Lists.push, Function.update_self, List.mem_cons, h _ _]
    constructor
    · rintro (rfl | ⟨y, hy, isFree, rfl, cls⟩)
      · exact ⟨x, (around x).mpr (.inl rfl), free, rfl, rfl⟩
      · exact ⟨y, (around y).mpr (.inr hy), isFree, rfl, cls⟩
    · rintro ⟨y, hy, isFree, rfl, cls⟩
      rcases (around y).mp hy with rfl | hy
      · exact .inl rfl
      · exact .inr ⟨y, hy, isFree, rfl, cls⟩
  · simp only [Lists.push, Function.update_of_ne same, h _ _]
    constructor
    · rintro ⟨y, hy, isFree, rfl, cls⟩
      exact ⟨y, (around y).mpr (.inr hy), isFree, rfl, cls⟩
    · rintro ⟨y, hy, isFree, rfl, cls⟩
      rcases (around y).mp hy with rfl | hy
      · exact absurd cls.symm same
      · exact ⟨y, hy, isFree, rfl, cls⟩

end Files

end SegregatedFit
