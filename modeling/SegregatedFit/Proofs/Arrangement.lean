import SegregatedFit.Proofs.Segment

/-!
# Heaps in the memory

`Arranged` says that a store holds a heap with given blocks and given free lists. In the middle of an operation a free block
may be in no list, so the blocks that the lists speak for (`filed`) are named apart from all blocks; between operations they
are the same, and no two free blocks touch (`Layout.Describes`).

An operation opens a gap in the row of blocks, writes blocks into it, and closes it again (`Gap`). Whatever is written goes
into the gap, into the links of free blocks, or into the tag of the block behind the gap, so the payloads of the blocks that
clients have stay as they are (`SamePayloads`).
-/

namespace SegregatedFit

/-- The memory holds the prologue, the blocks of a row that tiles the span, and the epilogue. -/
structure Laid (m : Memory) (span : Span) (bs : List Block) : Prop where
  prologue : m.tag span.prologue = { size := prologueSize, allocated := true, predecessorAllocated := true }
  tiled : Tiled 24 bs span.epilogueOffset
  segment : Segment m span.base true (bs ++ [span.sentinel])

/-- A store holds the blocks `bs`, and its lists hold exactly the free ones among those `filed`. -/
structure Arranged (s : Store) (span : Span) (bs filed : List Block) (ls : Lists) : Prop where
  laid : Laid s.memory span bs
  threaded : Threaded s span.base ls
  files : Files ls filed
  sub : filed ⊆ bs

/-- A store holds the blocks and the lists of a layout: the blocks tile the span between prologue and epilogue, every tag and
every footer says what it should, no two free blocks touch, and the lists hold exactly the free blocks, each in the list of
its class, once, and correctly linked both ways. -/
structure Layout.Describes (L : Layout) (s : Store) (span : Span) : Prop where
  laid : Laid s.memory span L.blocks
  coalesced : Coalesced L.blocks
  threaded : Threaded s span.base L.lists
  files : Files L.lists L.blocks

/-- The payloads of the allocated blocks of a row are the same in two memories. -/
def SamePayloads (base : Nat) (bs : List Block) (m m' : Memory) : Prop :=
  ∀ b ∈ bs, b.allocated = true → ∀ a, base + b.offset + 8 ≤ a → a < base + b.offset + b.size → m'.word a = m.word a

namespace SamePayloads

variable {base : Nat} {bs cs : List Block} {m m' m'' : Memory}

theorem refl (base : Nat) (bs : List Block) (m : Memory) : SamePayloads base bs m m := fun _ _ _ _ _ _ => rfl

theorem trans (h : SamePayloads base bs m m') (h' : SamePayloads base bs m' m'') : SamePayloads base bs m m'' :=
  fun b hb allocated a low high => (h' b hb allocated a low high).trans (h b hb allocated a low high)

theorem mono (h : SamePayloads base bs m m') (sub : ∀ b ∈ cs, b.allocated = true → b ∈ bs) :
    SamePayloads base cs m m' := fun b hb allocated => h b (sub b hb allocated) allocated

end SamePayloads

namespace Laid

variable {m m' : Memory} {span : Span} {bs : List Block} {b : Block}

/-- A block lies between the prologue and the epilogue. -/
theorem bounds (h : Laid m span bs) (hb : b ∈ bs) :
    24 ≤ b.offset ∧ b.offset + b.size ≤ span.epilogueOffset ∧ 32 ≤ b.size ∧ b.size % 16 = 0 ∧ b.offset % 16 = 8 := by
  have := h.tiled.bounds hb
  omega

theorem tag (h : Laid m span bs) (hb : b ∈ bs) :
    (m.tag (span.base + b.offset)).size = b.size ∧ (m.tag (span.base + b.offset)).allocated = b.allocated :=
  h.segment.tag_mem (List.mem_append_left _ hb)

theorem footer (h : Laid m span bs) (hb : b ∈ bs) (free : b.allocated = false) :
    (m.tag (span.base + (b.offset + b.size - 8))).size = b.size :=
  h.segment.footer_mem (List.mem_append_left _ hb) free

/-- The tag of a block and what the block after it says of it. -/
theorem around {before after : List Block} (h : Laid m span (before ++ b :: after)) :
    m.tag (span.base + b.offset) =
        { size := b.size, allocated := b.allocated, predecessorAllocated := lastState true before } ∧
      Segment m span.base b.allocated (after ++ [span.sentinel]) := by
  have segment := h.segment
  rw [List.append_assoc, List.cons_append, Segment.append_iff] at segment
  exact ⟨segment.2.1, segment.2.2.2⟩

/-- The same tags hold the same blocks. -/
theorem eq_of_tags {cs : List Block} (h : Laid m span bs) (h' : Laid m' span cs)
    (same : ∀ b ∈ bs, m'.tag (span.base + b.offset) = m.tag (span.base + b.offset)) : cs = bs := by
  have tiled := h.tiled
  obtain ⟨segment, -⟩ := Segment.append_iff.mp h.segment
  obtain ⟨segment', -⟩ := Segment.append_iff.mp h'.segment
  rw [← bs.append_nil] at tiled
  obtain ⟨more, rfl⟩ := Segment.begins tiled segment h'.tiled segment' same
  obtain ⟨middle, here, rest⟩ := Tiled.append_iff.mp h'.tiled
  obtain rfl := here.finish_unique h.tiled
  cases more with
  | nil => rw [List.append_nil]
  | cons y more =>
    obtain ⟨-, large, -, rest⟩ := Tiled.cons_iff.mp rest
    have := rest.start_le
    omega

/-- Tags and footers that are the same hold the same blocks. -/
theorem congr (h : Laid m span bs) (prologue : m'.word span.prologue = m.word span.prologue)
    (epilogue : m'.word span.epilogue = m.word span.epilogue)
    (tags : ∀ b ∈ bs, m'.word (span.base + b.offset) = m.word (span.base + b.offset))
    (footers : ∀ b ∈ bs, b.allocated = false →
      m'.word (span.base + (b.offset + b.size - 8)) = m.word (span.base + (b.offset + b.size - 8))) :
    Laid m' span bs := by
  refine ⟨?_, h.tiled, h.segment.congr ?_ ?_⟩
  · rw [Memory.tag_eq prologue, h.prologue]
  · intro b hb
    rcases List.mem_append.mp hb with hb | hb
    · exact tags b hb
    · obtain rfl := List.mem_singleton.mp hb
      exact epilogue
  · intro b hb free
    rcases List.mem_append.mp hb with hb | hb
    · exact footers b hb free
    · obtain rfl := List.mem_singleton.mp hb
      cases free

/-- Changes of links of free blocks keep all tags, all footers and all payloads. -/
theorem of_links (h : Laid m span bs) (os : Nat → Prop) (free : ∀ o, os o → ∃ b ∈ bs, b.allocated = false ∧ b.offset = o)
    (same : ∀ a, (∀ o, os o → a ≠ span.base + o + 8 ∧ a ≠ span.base + o + 16) → m'.word a = m.word a) :
    Laid m' span bs ∧ SamePayloads span.base bs m m' := by
  have epilogue := span.epilogueOffset_aligned
  -- The links of a free block lie between its tag and its footer, and other blocks lie elsewhere.
  have apart : ∀ o, os o → ∀ c ∈ bs, 32 ≤ c.size ∧
      (o = c.offset ∧ c.allocated = false ∨ o + 32 ≤ c.offset ∨ c.offset + c.size ≤ o) := by
    intro o ho c hc
    obtain ⟨b, hb, isFree, rfl⟩ := free o ho
    have bounds := h.bounds hb
    have bounds' := h.bounds hc
    refine ⟨by omega, ?_⟩
    by_cases here : b.offset = c.offset
    · exact .inl ⟨here, h.tiled.eq_of_offset hb hc here ▸ isFree⟩
    · have := h.tiled.apart hb hc here
      omega
  have within : ∀ o, os o → 24 ≤ o ∧ o + 32 ≤ span.epilogueOffset := by
    intro o ho
    obtain ⟨b, hb, -, rfl⟩ := free o ho
    have bounds := h.bounds hb
    omega
  refine ⟨h.congr (same _ ?_) (same _ ?_) (fun c hc => same _ ?_) fun c hc isFree => same _ ?_,
    fun c hc allocated a low high => same _ ?_⟩
  · intro o ho
    have := within o ho
    simp only [Span.prologue, prologueOffset]
    omega
  · intro o ho
    have := within o ho
    simp only [Span.epilogue]
    omega
  · intro o ho
    have := apart o ho c hc
    omega
  · intro o ho
    have := apart o ho c hc
    omega
  · intro o ho
    have := apart o ho c hc
    simp only [allocated, Bool.true_eq_false, and_false, false_or] at this
    omega

end Laid

theorem Layout.Describes.arranged {L : Layout} {s : Store} {span : Span} (h : L.Describes s span) :
    Arranged s span L.blocks L.blocks L.lists := ⟨h.laid, h.threaded, h.files, List.Subset.refl _⟩

/-- A store holds a layout with a block in hand. -/
def Focus.Describes (f : Focus) (s : Store) (span : Span) : Prop :=
  Arranged s span f.blocks (f.before ++ f.after) f.lists

/-! ## Joining and leaving lists -/

namespace Arranged

variable {s : Store} {span : Span} {bs filed before after : List Block} {ls : Lists} {x : Block} {c : Fin classCount}
  {o : Nat}

/-- A member of a list is a free block. -/
theorem block_of_mem (h : Arranged s span bs filed ls) (ho : o ∈ ls c) :
    ∃ b ∈ bs, b ∈ filed ∧ b.allocated = false ∧ b.offset = o ∧ classOf b.size = c := by
  obtain ⟨b, hb, free, rfl, cls⟩ := (h.files c o).mp ho
  exact ⟨b, h.sub hb, hb, free, rfl, cls⟩

theorem listed (h : Arranged s span bs filed ls) : Listed s span ls where
  toThreaded := h.threaded
  place c o ho := by
    obtain ⟨b, hb, -, -, rfl, -⟩ := h.block_of_mem ho
    have := h.laid.bounds hb
    omega
  free c o ho := by
    obtain ⟨b, hb, -, free, rfl, -⟩ := h.block_of_mem ho
    rw [(h.laid.tag hb).2, free]
  sizeClass c o ho := by
    obtain ⟨b, hb, -, -, rfl, cls⟩ := h.block_of_mem ho
    rw [(h.laid.tag hb).1, cls]
  spaced c d o ho p hp := by
    obtain ⟨b, hb, -, -, rfl, -⟩ := h.block_of_mem ho
    obtain ⟨b', hb', -, -, rfl, -⟩ := h.block_of_mem hp
    have := h.laid.bounds hb
    have := h.laid.bounds hb'
    by_cases same : b.offset = b'.offset
    · exact .inl same
    · have := h.laid.tiled.apart hb hb' same
      omega

/-- A free block leaves its list. -/
theorem remove (h : Arranged s span bs (before ++ x :: after) ls) (free : x.allocated = false)
    (apart : ∀ y ∈ before ++ after, y.offset ≠ x.offset) :
    FreeList.remove span (span.base + x.offset) s = .ok () (s.unlink span.base x.offset) ∧
      Arranged (s.unlink span.base x.offset) span bs (before ++ after) (ls.drop x) ∧
      SamePayloads span.base bs s.memory (s.unlink span.base x.offset).memory := by
  have mem : x ∈ before ++ x :: after := by simp
  have hx := h.files.mem mem free
  have back := h.listed.previous_mem hx
  have ahead := h.listed.next_mem hx
  have members : ∀ o, (∃ c, o ∈ ls c) → ∃ b ∈ bs, b.allocated = false ∧ b.offset = o := by
    rintro o ⟨c, ho⟩
    obtain ⟨b, hb, -, isFree, at_, -⟩ := h.block_of_mem ho
    exact ⟨b, hb, isFree, at_⟩
  obtain ⟨laid, payloads⟩ := h.laid.of_links _ members
    (fun a far => Store.word_unlink (fun real => (far _ ⟨_, back real⟩).2) fun real => (far _ ⟨_, ahead real⟩).1)
  refine ⟨h.listed.remove_apply hx, ⟨laid, h.listed.threaded_unlink hx, h.files.drop (h.threaded.nodup _) apart, ?_⟩,
    payloads⟩
  intro y hy
  apply h.sub
  rcases List.mem_append.mp hy with hy | hy
  · exact List.mem_append_left _ hy
  · exact List.mem_append_right _ (.tail _ hy)

/-- A free block that no list holds joins the list of its class. -/
theorem insert (h : Arranged s span bs (before ++ after) ls) (hx : x ∈ bs) (free : x.allocated = false)
    (apart : ∀ y ∈ before ++ after, y.offset ≠ x.offset) :
    FreeList.insert span (span.base + x.offset) s = .ok () (s.linkIn span.base x.offset) ∧
      Arranged (s.linkIn span.base x.offset) span bs (before ++ x :: after) (ls.push x) ∧
      SamePayloads span.base bs s.memory (s.linkIn span.base x.offset).memory := by
  obtain ⟨size, state⟩ := h.laid.tag hx
  have bounds := h.laid.bounds hx
  have far : ∀ c, ∀ p ∈ ls c, x.offset + 32 ≤ p ∨ p + 32 ≤ x.offset := by
    intro c p hp
    obtain ⟨b, hb, filed, -, rfl, -⟩ := h.block_of_mem hp
    have := h.laid.bounds hb
    have := h.laid.tiled.apart hx hb (Ne.symm (apart b filed))
    omega
  have place : x.offset % 16 = 8 ∧ x.offset + 32 ≤ span.epilogueOffset := by omega
  have front := h.listed.front_mem (classOf (s.memory.tag (span.base + x.offset)).size)
  have members : ∀ o, (o = x.offset ∨ ∃ c, o ∈ ls c) → ∃ b ∈ bs, b.allocated = false ∧ b.offset = o := by
    rintro o (rfl | ⟨c, ho⟩)
    · exact ⟨x, hx, free, rfl⟩
    · obtain ⟨b, hb, -, isFree, at_, -⟩ := h.block_of_mem ho
      exact ⟨b, hb, isFree, at_⟩
  obtain ⟨laid, payloads⟩ := h.laid.of_links _ members
    (fun a far => Store.word_linkIn (far _ (.inl rfl)) fun real => (far _ (.inr ⟨_, front real⟩)).1)
  refine ⟨h.listed.insert_apply (state.trans free) place far,
    ⟨laid, h.listed.threaded_linkIn size place far, h.files.push free, ?_⟩, payloads⟩
  intro y hy
  rcases List.mem_append.mp hy with hy | hy
  · exact h.sub (List.mem_append_left _ hy)
  · rcases List.mem_cons.mp hy with rfl | hy
    · exact hx
    · exact h.sub (List.mem_append_right _ hy)

end Arranged

end SegregatedFit
