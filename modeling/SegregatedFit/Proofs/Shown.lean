import SegregatedFit.Proofs.Request
import SegregatedFit.Proofs.Views
import Mathlib.Data.List.Nodup

/-!
# What an operation changes of what is shown

An operation that makes a layout of a layout shows the blocks and the members of the free lists of the first before it and
those of the second after it, and whatever a client wrote into a block that is lent before and after is still there
(`HeapState.Becomes`). A healthy heap that was served has become what the outcome says (`HeapState.Served.becomes`).

Blocks leave their lists one at a time. What is left of the lists is said at once by `Lists.without`, which keeps the order
of all other members.
-/

namespace SegregatedFit

/-! ## Lists without some of their members -/

/-- The lists without some of their members; the others keep their order. -/
def Lists.without (ls : Lists) (os : List Nat) : Lists := fun c => (ls c).filter (· ∉ os)

namespace Lists

variable {ls : Lists} {b : Block} {bs : List Block} {os ps : List Nat} {c : Fin classCount} {o : Nat}

theorem mem_without : o ∈ ls.without os c ↔ o ∈ ls c ∧ o ∉ os := by simp [without]

@[simp] theorem without_nil : ls.without [] = ls := by
  funext c
  simp [without]

theorem without_without : (ls.without os).without ps = ls.without (os ++ ps) := by
  funext c
  simp [without, List.filter_filter, Bool.and_comm]

/-- A block that is in the list of its own class only leaves all lists when it leaves that one. -/
theorem drop_eq_without (nodup : (ls (classOf b.size)).Nodup) (own : ∀ c, b.offset ∈ ls c → c = classOf b.size) :
    ls.drop b = ls.without [b.offset] := by
  funext c
  by_cases same : c = classOf b.size
  · subst same
    rw [drop, Function.update_self, nodup.erase_eq_filter]
    exact List.filter_congr fun o _ => by simp [bne, Bool.beq_eq_decide_eq]
  · rw [drop, Function.update_of_ne same, without, List.filter_eq_self.mpr]
    intro o ho
    have ne : o ≠ b.offset := fun e => same (own c (e ▸ ho))
    simpa using ne

/-- Blocks that leave their lists one after the other. -/
theorem foldl_drop_eq_without (nodup : ∀ c, (ls c).Nodup) (own : ∀ b ∈ bs, ∀ c, b.offset ∈ ls c → c = classOf b.size) :
    bs.foldl drop ls = ls.without (bs.map Block.offset) := by
  induction bs generalizing ls with
  | nil => exact without_nil.symm
  | cons b bs ih =>
    rw [List.foldl_cons, drop_eq_without (nodup _) (own b List.mem_cons_self), ih, without_without]
    · rfl
    · exact fun c => (nodup c).filter _
    · exact fun d hd c hc => own d (.tail _ hd) c (mem_without.mp hc).1

end Lists

/-- A block is in no list but that of its class. -/
theorem Layout.Describes.own_class {L : Layout} {s : Store} {span : Span} (h : L.Describes s span) {b : Block}
    (hb : b ∈ L.blocks) {c : Fin classCount} (member : b.offset ∈ L.lists c) : c = classOf b.size := by
  obtain ⟨d, hd, -, same, cls⟩ := (h.files c b.offset).mp member
  rw [← cls, h.laid.tiled.eq_of_offset hd hb same]

/-! ## What is shown -/

variable {σ : Type}

namespace HeapState

/-- What a client sees of a heap are the blocks and the members of the free lists of a layout. -/
structure Shows (s : HeapState σ) (L : Layout) : Prop where
  blocks : s.store.blocks s.span = .ok (L.entries s.span.base)
  freeList : ∀ c : Fin classCount, s.store.freeList s.span c = .ok (L.freeEntries s.span.base c)

variable [Backing σ]

/-- What becomes of a heap that shows a layout when an operation makes an outcome of it. -/
structure Becomes (C : Contract σ) (s : HeapState σ) (L : Layout) (s' : HeapState σ) (o : Outcome) : Prop where
  before : s.Shows L
  after : s'.Shows o.layout
  healthy : s'.Healthy C o.layout
  /-- The source was asked for what the outcome says, and answered so. -/
  asked : Asked s.source s.programBreak o.asked s'.source s'.programBreak
  base : s'.span.base = s.span.base
  length : s'.span.length = s.span.length + givenBytes o.asked
  /-- The bytes of a block that is lent before and after are as they were. -/
  kept : ∀ y ∈ L.lent, y ∈ o.layout.lent → ∀ i, i + headerSize < y.size →
    s'.memory.byte (s.pointerTo y.offset + i) = s.memory.byte (s.pointerTo y.offset + i)

variable {C : Contract σ} {L : Layout} {s s' : HeapState σ} {o : Outcome}

theorem Healthy.shows (h : s.Healthy C L) : s.Shows L := ⟨h.describes.blocks_run, h.describes.freeList_run⟩

theorem Served.becomes (h : s.Healthy C L) (served : s.Served C L o s') : s.Becomes C L s' o where
  before := h.shows
  after := served.healthy.shows
  healthy := served.healthy
  asked := served.asked
  base := served.base
  length := by
    have finish := served.finish_eq h
    have base := served.base
    simp only [Span.finish] at finish
    omega
  kept y old new i inside := by
    have both : y ∈ L.blocks ∩ o.layout.blocks :=
      List.mem_inter_iff.mpr ⟨(Layout.mem_lent.mp old).1, (Layout.mem_lent.mp new).1⟩
    exact h.describes.byte_eq served.payloads both old inside

end HeapState

end SegregatedFit
