import SegregatedFit.Proofs.Session
import SegregatedFit.Proofs.Views

/-!
# One damaged word

A lawful heap says most things twice: the state of a block stands in its own tag, in the flag of the block behind it and in
the free lists, the size of a free block in its tag and its footer, and the neighbourhood of two members of a list in a link of
each. So two lawful heaps that differ in one word of this kind do not exist (`Damages`): what the other words say fixes the
word. A row of blocks is fixed by its tags (`Laid.eq_of_tags`), a list by its `next` links (`Linked.eq_of_next`), and a list of
given members by their `previous` links (`Linked.eq_of_previous`).
-/

namespace SegregatedFit

/-! ## What fixes a list -/

namespace Linked

variable {m m' : Memory} {base back back' ahead ahead' o : Nat} {os ps : List Nat}

/-- The links of a list are fixed. -/
theorem link_eq (h : Linked m base back os ahead) (h' : Linked m' base back os ahead) (ho : o ∈ os) (l : Link) :
    m'.link (base + o) l = m.link (base + o) l := by
  induction os generalizing back with
  | nil => cases ho
  | cons p os ih =>
    obtain ⟨previous, next, rest⟩ := cons_iff.mp h
    obtain ⟨previous', next', rest'⟩ := cons_iff.mp h'
    rcases List.mem_cons.mp ho with rfl | ho
    · cases l with
      | previous => exact previous'.trans previous.symm
      | next => exact next'.trans next.symm
    · exact ih rest rest' ho

/-- Lists that begin alike and have the same `next` links are the same. -/
theorem eq_of_next (h : Linked m base back os 0) (h' : Linked m' base back' ps 0) (front : os.headD 0 = ps.headD 0)
    (real : ∀ o ∈ os, o ≠ 0) (real' : ∀ p ∈ ps, p ≠ 0)
    (same : ∀ o ∈ os, m'.link (base + o) .next = m.link (base + o) .next) : os = ps := by
  induction os generalizing back back' ps with
  | nil =>
    cases ps with
    | nil => rfl
    | cons p ps => exact absurd front.symm (real' p List.mem_cons_self)
  | cons o os ih =>
    cases ps with
    | nil => exact absurd front (real o List.mem_cons_self)
    | cons p ps =>
      obtain rfl : o = p := front
      obtain ⟨-, next, rest⟩ := cons_iff.mp h
      obtain ⟨-, next', rest'⟩ := cons_iff.mp h'
      have front' : os.headD 0 = ps.headD 0 := by
        rw [← next, ← next', same o List.mem_cons_self]
      rw [ih rest rest' front' (fun q hq => real q (.tail _ hq)) (fun q hq => real' q (.tail _ hq))
        fun q hq => same q (.tail _ hq)]

/-- A member that is not the first points back at a member. -/
theorem previous_mem (h : Linked m base back (o :: os) ahead) {p : Nat} (hp : p ∈ os) :
    m.link (base + p) .previous ∈ o :: os := by
  induction os generalizing back o with
  | nil => cases hp
  | cons q os ih =>
    obtain ⟨-, -, rest⟩ := cons_iff.mp h
    rcases List.mem_cons.mp hp with rfl | hp
    · rw [(cons_iff.mp rest).1]
      exact List.mem_cons_self
    · exact .tail _ (ih rest hp)

/-- Lists with the same members and the same `previous` links are the same. -/
theorem eq_of_previous (h : Linked m base back os ahead) (h' : Linked m' base back ps ahead') (members : ∀ o, o ∈ os ↔ o ∈ ps)
    (nodup : os.Nodup) (nodup' : ps.Nodup) (new : back ∉ os)
    (same : ∀ o ∈ os, m'.link (base + o) .previous = m.link (base + o) .previous) : os = ps := by
  induction os generalizing back ps with
  | nil => exact (List.eq_nil_iff_forall_not_mem.mpr fun p hp => List.not_mem_nil ((members p).mpr hp)).symm
  | cons o os ih =>
    cases ps with
    | nil => exact absurd ((members o).mp List.mem_cons_self) List.not_mem_nil
    | cons p ps =>
      obtain ⟨previous, -, rest⟩ := cons_iff.mp h
      -- Only the first member points back at `back`, which is no member.
      have first : o = p := by
        rcases List.mem_cons.mp ((members o).mp List.mem_cons_self) with first | later
        · exact first
        · have inside := h'.previous_mem later
          rw [same o List.mem_cons_self, previous] at inside
          exact absurd ((members back).mpr inside) new
      subst first
      obtain ⟨-, -, rest'⟩ := cons_iff.mp h'
      obtain ⟨new', nodup⟩ := List.nodup_cons.mp nodup
      obtain ⟨new'', nodup'⟩ := List.nodup_cons.mp nodup'
      refine congrArg _ (ih rest rest' (fun q => ?_) nodup nodup' new' fun q hq => same q (.tail _ hq))
      have both := members q
      simp only [List.mem_cons] at both
      constructor
      · intro hq
        exact (both.mp (.inr hq)).resolve_left fun e => new' (e ▸ hq)
      · intro hq
        exact (both.mpr (.inr hq)).resolve_left fun e => new'' (e ▸ hq)

end Linked

/-! ## Two heaps that differ in one word -/

namespace Layout.Describes

variable {L M : Layout} {s : Store} {m : Memory} {span : Span} {a : Nat} {b : Block}

/-- The free blocks are those in the lists. -/
theorem free_iff (h : L.Describes s span) (hb : b ∈ L.blocks) : b.allocated = false ↔ ∃ c, b.offset ∈ L.lists c := by
  constructor
  · intro free
    exact ⟨_, h.files.mem hb free⟩
  · rintro ⟨c, ho⟩
    obtain ⟨x, hx, free, same, -⟩ := (h.files c _).mp ho
    exact h.laid.tiled.eq_of_offset hx hb same ▸ free

/-- A block and a free block are the same or do not overlap. -/
theorem apart_of_mem (h : L.Describes s span) (hb : b ∈ L.blocks) {c : Fin classCount} {o : Nat} (ho : o ∈ L.lists c) :
    o = b.offset ∨ o + 32 ≤ b.offset ∨ b.offset + b.size ≤ o := by
  obtain ⟨x, hx, -, rfl, -⟩ := (h.files c o).mp ho
  by_cases same : x.offset = b.offset
  · exact .inl same
  · have := h.laid.tiled.apart hx hb same
    have := (h.laid.bounds hx).2.2.1
    omega

variable (h : L.Describes s span) (h' : M.Describes ⟨m, s.heads⟩ span) (others : ∀ x ≠ a, m.word x = s.memory.word x)

include h h' others

/-- Where the word that differs is the tag of no block, the blocks are the same. -/
theorem blocks_eq_of_tags (tags : ∀ x ∈ L.blocks, span.base + x.offset ≠ a) : M.blocks = L.blocks :=
  h.laid.eq_of_tags h'.laid fun x hx => Memory.tag_eq (others _ (tags x hx))

/-- Where the word that differs is no `next` link of a free block, the lists are the same. -/
theorem lists_eq_of_next (links : ∀ c, ∀ o ∈ L.lists c, span.base + o + 16 ≠ a) : M.lists = L.lists := by
  funext c
  refine (Linked.eq_of_next (h.threaded.linked c) (h'.threaded.linked c) ?_ ?_ ?_ ?_).symm
  · rw [← h.threaded.front c, ← h'.threaded.front c]
  · intro o ho
    exact h.arranged.listed.pos ho
  · intro o ho
    exact h'.arranged.listed.pos ho
  · intro o ho
    exact Memory.link_eq (others _ (links c o ho))

/-- Where the word that differs is neither a tag nor a `previous` link of a free block, the lists are the same. -/
theorem lists_eq_of_previous (tags : ∀ x ∈ L.blocks, span.base + x.offset ≠ a)
    (links : ∀ c, ∀ o ∈ L.lists c, span.base + o + 8 ≠ a) : M.lists = L.lists := by
  have blocks := h.blocks_eq_of_tags h' others tags
  funext c
  refine (Linked.eq_of_previous (h.threaded.linked c) (h'.threaded.linked c) ?_ (h.threaded.nodup c) (h'.threaded.nodup c)
    ?_ ?_).symm
  · intro o
    rw [h.files c o, h'.files c o, blocks]
  · intro zero
    exact h.arranged.listed.pos zero rfl
  · intro o ho
    exact Memory.link_eq (others _ (links c o ho))

/-- Where the word that differs is the tag of a block, the blocks before it are the same, and a block stands in its place. -/
theorem blocks_begin {before after : List Block} (split : L.blocks = before ++ b :: after) (place : a = span.base + b.offset) :
    ∃ c after', M.blocks = before ++ c :: after' ∧ c.offset = b.offset := by
  have tiled := h.laid.tiled
  have laid := h.laid
  have tiled' := h'.laid.tiled
  rw [split] at tiled laid
  obtain ⟨segment, -⟩ := Segment.append_iff.mp laid.segment
  obtain ⟨segment', -⟩ := Segment.append_iff.mp h'.laid.segment
  obtain ⟨rest, begins⟩ := Segment.begins tiled (Segment.append_iff.mp segment).1 tiled' segment' fun x hx =>
    Memory.tag_eq (others _ fun same =>
      tiled.offset_ne (List.mem_append_left _ hx) (Nat.add_left_cancel (same.trans place)))
  rw [begins] at tiled'
  obtain ⟨middle, here, there⟩ := Tiled.append_iff.mp tiled'
  obtain ⟨middle', here', there'⟩ := Tiled.append_iff.mp tiled
  obtain rfl := here.finish_unique here'
  obtain ⟨at_, large, -, more⟩ := Tiled.cons_iff.mp there'
  cases rest with
  | nil =>
    -- The span does not end where `b` begins.
    have := more.start_le
    obtain rfl : middle = span.epilogueOffset := there
    omega
  | cons c after' => exact ⟨c, after', begins, (Tiled.cons_iff.mp there).1.trans at_.symm⟩

/-- The flags in the tag of a block are fixed: the one for the block before by that block, and its own by the lists. -/
theorem flags_eq (hb : b ∈ L.blocks) (place : a = span.base + b.offset) :
    (m.tag a).allocated = (s.memory.tag a).allocated ∧
      (m.tag a).predecessorAllocated = (s.memory.tag a).predecessorAllocated := by
  have bounds := h.laid.bounds hb
  obtain ⟨before, after, split⟩ := List.append_of_mem hb
  obtain ⟨c, after', split', at_⟩ := h.blocks_begin h' others split place
  have hc : c ∈ M.blocks := by simp [split']
  have lists := h.lists_eq_of_next h' others fun d o ho => by
    have := h.apart_of_mem hb ho
    omega
  have states : c.allocated = b.allocated := by
    have free := h.free_iff hb
    have free' := h'.free_iff hc
    rw [lists, at_, ← free] at free'
    revert free'
    cases b.allocated <;> cases c.allocated <;> decide
  have laid := h.laid
  have laid' := h'.laid
  rw [split] at laid
  rw [split'] at laid'
  have tag' := laid'.around.1
  rw [at_] at tag'
  rw [place, tag', laid.around.1]
  exact ⟨states, rfl⟩

/-- The tag of the epilogue is fixed. -/
theorem epilogue_eq (place : a = span.epilogue) : m.tag a = s.memory.tag a := by
  subst place
  have blocks := h.blocks_eq_of_tags h' others fun x hx => by
    have := h.laid.bounds hx
    simp only [Span.epilogue]
    omega
  rw [h.laid.epilogue, ← blocks]
  exact h'.laid.epilogue

/-- The size in the footer of a free block is fixed. -/
theorem footer_eq (hb : b ∈ L.blocks) (free : b.allocated = false) (place : a = span.base + (b.offset + b.size - 8)) :
    (m.tag a).size = (s.memory.tag a).size := by
  subst place
  have bounds := h.laid.bounds hb
  -- Footers stand at a multiple of sixteen, tags do not.
  have blocks := h.blocks_eq_of_tags h' others fun x hx => by
    have := h.laid.bounds hx
    omega
  rw [h.laid.footer hb free]
  exact h'.laid.footer (blocks ▸ hb) free

/-- The links of a free block are fixed. -/
theorem link_eq_of_free (hb : b ∈ L.blocks) (free : b.allocated = false) {l : Link}
    (place : a = span.base + b.offset + l.position) : m.word a = s.memory.word a := by
  subst place
  have bounds := h.laid.bounds hb
  obtain ⟨c, ho⟩ := (h.free_iff hb).mp free
  have lists : M.lists = L.lists := by
    cases l with
    | previous =>
      refine h.lists_eq_of_next h' others fun d o ho => ?_
      have := h.arranged.listed.place d o ho
      simp only [Link.position]
      omega
    | next =>
      refine h.lists_eq_of_previous h' others (fun x hx => ?_) fun d o ho => ?_
      · have bounds' := h.laid.bounds hx
        have := h.apart_of_mem hx ho
        simp only [Link.position]
        omega
      · have := h.arranged.listed.place d o ho
        simp only [Link.position]
        omega
  have linked' := h'.threaded.linked c
  rw [lists] at linked'
  exact UInt64.toNat_inj.mp ((h.threaded.linked c).link_eq linked' ho l)

end Layout.Describes

/-! ## Damage -/

/-- The word `w` at the address `a` damages a heap that shows the blocks `es`: it changes something that a tag, a footer or a
link says. Bits 2 and 3 of tags and footers say nothing, and neither do the flags of footers. -/
inductive Damages (m : Memory) (span : Span) (es : List BlockEntry) : Nat → UInt64 → Prop where
  /-- The flags in the tag of a block are changed, and its size perhaps too. -/
  | flags {e : BlockEntry} {w : UInt64} (he : e ∈ es)
      (changed : w.toNat % 4 ≠ (m.word (span.base + e.offset)).toNat % 4) : Damages m span es (span.base + e.offset) w
  /-- The size or a flag in the tag of the prologue is changed. -/
  | prologue {w : UInt64} (changed : Tag.decode w ≠ m.tag span.prologue) : Damages m span es span.prologue w
  /-- The size or a flag in the tag of the epilogue is changed. -/
  | epilogue {w : UInt64} (changed : Tag.decode w ≠ m.tag span.epilogue) : Damages m span es span.epilogue w
  /-- The size in the footer of a free block is changed. -/
  | footer {e : BlockEntry} {w : UInt64} (he : e ∈ es) (free : e.allocated = false)
      (changed : (Tag.decode w).size ≠ (m.tag (Memory.footerAddress (span.base + e.offset) e.size)).size) :
      Damages m span es (Memory.footerAddress (span.base + e.offset) e.size) w
  /-- A link of a free block is changed. -/
  | link {e : BlockEntry} {w : UInt64} (l : Link) (he : e ∈ es) (free : e.allocated = false)
      (changed : w ≠ m.word (span.base + e.offset + l.position)) : Damages m span es (span.base + e.offset + l.position) w

/-- An entry shows a block of the row. -/
theorem mem_entriesOf {base : Nat} {state : Bool} {bs : List Block} {e : BlockEntry} (he : e ∈ entriesOf base state bs) :
    ∃ b ∈ bs, e.offset = b.offset ∧ e.size = b.size ∧ e.allocated = b.allocated := by
  induction bs generalizing state with
  | nil => cases he
  | cons b bs ih =>
    rcases List.mem_cons.mp he with rfl | he
    · exact ⟨b, List.mem_cons_self, rfl, rfl, rfl⟩
    · obtain ⟨c, hc, shown⟩ := ih he
      exact ⟨c, .tail _ hc, shown⟩

/-- Words whose flags are the same have the same two low bits. -/
theorem Tag.low_bits_eq {v w : UInt64} (allocated : (decode w).allocated = (decode v).allocated)
    (predecessor : (decode w).predecessorAllocated = (decode v).predecessorAllocated) : w.toNat % 4 = v.toNat % 4 := by
  simp only [decode] at allocated predecessor
  rw [Bool.eq_iff_iff] at allocated predecessor
  simp only [beq_iff_eq] at allocated predecessor
  omega

/-- No heap passes its audit any more when one word is damaged, whatever the word is changed to. -/
theorem audit_ne_ok_of_damage {s : Store} {span : Span} {low high : Nat} {es : List BlockEntry} {a : Nat} {w : UInt64}
    {m : Memory} (passed : audit s span low high = .ok ()) (shown : s.blocks span = .ok es)
    (damage : Damages s.memory span es a w) (here : m.word a = w) (others : ∀ x ≠ a, m.word x = s.memory.word x) :
    audit { s with memory := m } span low high ≠ .ok () := by
  intro passed'
  obtain ⟨L, h, -⟩ := audit_sound passed
  obtain ⟨M, h', -⟩ := audit_sound passed'
  have tag : m.tag a = Tag.decode w := by rw [Memory.tag, here]
  rw [h.blocks_run] at shown
  obtain rfl := Except.ok.inj shown
  cases damage with
  | flags he changed =>
    obtain ⟨b, hb, place, -, -⟩ := mem_entriesOf he
    obtain ⟨allocated, predecessor⟩ := h.flags_eq h' others hb (by rw [place])
    rw [tag] at allocated predecessor
    exact changed (Tag.low_bits_eq allocated predecessor)
  | prologue changed => exact changed (tag.symm.trans (h'.laid.prologue.trans h.laid.prologue.symm))
  | epilogue changed => exact changed (tag.symm.trans (h.epilogue_eq h' others rfl))
  | @footer e _ he free changed =>
    obtain ⟨b, hb, place, size, state⟩ := mem_entriesOf he
    have bounds := h.laid.bounds hb
    have fits := span.finish_lt
    have at_ : Memory.footerAddress (span.base + e.offset) e.size = span.base + (b.offset + b.size - 8) := by
      rw [Memory.footerAddress, place, size, headerSize, stepUp_of_lt (by omega)]
      omega
    have same := h.footer_eq h' others hb (state ▸ free) at_
    rw [tag] at same
    exact changed same
  | link l he free changed =>
    obtain ⟨b, hb, place, -, state⟩ := mem_entriesOf he
    have same := h.link_eq_of_free h' others hb (state ▸ free) (by rw [place])
    exact changed (here.symm.trans same)

/-- A heap of two blocks, the first of which was taken back: its `next` link is led to the block that is still lent. -/
theorem audit_redirected : ∃ S : Session Reserve, S.answers = [some 4144, some 4176, none] ∧ S.state.audit = .ok () ∧
    audit { S.state.store with memory := S.state.memory.setWord 4152 56 } S.state.span (Backing.lowest S.state.source)
      (Backing.highest S.state.source) ≠ .ok () := by
  obtain ⟨S, reachable, answers, first, next, base, ends⟩ : ∃ S : Session Reserve, S.Reachable Reserve.contract ∧
      S.answers = [some 4144, some 4176, none] ∧ S.state.memory.word 4136 = 34 ∧ S.state.memory.word 4152 = 0 ∧
      S.state.span.base = 4112 ∧ S.state.span.epilogueOffset = 88 := by
    have made : Heap.create { probeBudget := 2, selfCheck := false } (Reserve.site 4104 200 UInt64.ofNat) = .ok _ _ := rfl
    have created : Session.Reachable Reserve.contract _ := .created ⟨by decide, by decide⟩ made
    have first := created.performed (a := .request (.allocate 20)) (by intro _ h; cases h) rfl
    have second := first.performed (a := .request (.allocate 20)) (by intro _ h; cases h) rfl
    have released := second.performed (a := .request (.release (some 4144))) (by rintro _ ⟨⟩; decide) rfl
    exact ⟨_, released, rfl, rfl, rfl, rfl, rfl⟩
  obtain ⟨L, sound⟩ := reachable.sound
  have describes := sound.healthy.describes
  have shown := describes.blocks_run
  have passed := sound.healthy.audit_run
  obtain ⟨b, bs, split⟩ : ∃ b bs, L.blocks = b :: bs := by
    refine List.exists_cons_of_ne_nil fun none => ?_
    have tiled := describes.laid.tiled
    rw [none, ends] at tiled
    cases tiled
  have mem : b ∈ L.blocks := by simp [split]
  have place : b.offset = 24 := by
    have tiled := describes.laid.tiled
    rw [split] at tiled
    exact (Tiled.cons_iff.mp tiled).1
  have free : b.allocated = false := by
    have tag := (describes.laid.tag mem).2
    rw [place, base, Memory.tag, show S.state.store.memory.word (4112 + 24) = 34 from first] at tag
    exact tag.symm
  have he : b.entry S.state.span.base true ∈ L.entries S.state.span.base := by
    rw [Layout.entries, split]
    exact List.mem_cons_self
  have at_ : S.state.span.base + (b.entry S.state.span.base true).offset + Link.next.position = 4152 := by
    rw [base, Block.entry, place]
    rfl
  have damage : Damages S.state.memory S.state.span (L.entries S.state.span.base) _ 56 := .link .next he free (by
    rw [at_, next]
    decide)
  rw [at_] at damage
  refine ⟨S, answers, passed, audit_ne_ok_of_damage passed shown damage ?_ ?_⟩
  · exact Memory.word_setWord_self _ _ _
  · intro x other
    exact Memory.word_setWord_of_ne _ _ other

end SegregatedFit
