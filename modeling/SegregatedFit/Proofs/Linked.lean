import SegregatedFit.Proofs.Layout

/-!
# Free lists as sequences

The links in the memory and the heads represent fourteen sequences of blocks. `Linked` says what the links of the members
of one sequence are, `Threaded` that memory and heads represent fourteen of them, and `Listed` that the members are free
blocks of the right class that do not overlap. Joining at the front and leaving from anywhere are functions on the
sequences (`Lists.push`, `Lists.drop`), and the only words they change are links of the block and its neighbours in the
list.
-/

namespace SegregatedFit

/-- Consecutive members of a list point at each other; the first points back at `back` and the last ahead at `ahead`. -/
def Linked (m : Memory) (base : Nat) : Nat → List Nat → Nat → Prop
  | _, [], _ => True
  | back, o :: os, ahead =>
    m.link (base + o) .previous = back ∧ m.link (base + o) .next = os.headD ahead ∧ Linked m base o os ahead

theorem headD_eq_iff {os : List Nat} {o : Nat} (real : o ≠ 0) : os.headD 0 = o ↔ os.head? = some o := by
  rw [List.headD_eq_head?_getD, Option.getD_eq_iff]
  exact or_iff_left fun e => real e.2.symm

theorem getLastD_eq_iff {os : List Nat} {o : Nat} (real : o ≠ 0) : os.getLastD 0 = o ↔ os.getLast? = some o := by
  rw [List.getLastD_eq_getLast?, Option.getD_eq_iff]
  exact or_iff_left fun e => real e.2.symm

namespace Linked

variable {m m' : Memory} {base back back' ahead ahead' o : Nat} {xs ys before after : List Nat}

theorem append_iff : Linked m base back (xs ++ ys) ahead ↔
    Linked m base back xs (ys.headD ahead) ∧ Linked m base (xs.getLastD back) ys ahead := by
  induction xs generalizing back with
  | nil => simp [Linked]
  | cons x xs ih =>
    have next : (xs ++ ys).headD ahead = xs.headD (ys.headD ahead) := by cases xs <;> rfl
    simp only [List.cons_append, Linked, next, ih, List.getLastD_cons, and_assoc]

theorem cons_iff : Linked m base back (o :: xs) ahead ↔
    m.link (base + o) .previous = back ∧ m.link (base + o) .next = xs.headD ahead ∧ Linked m base o xs ahead := Iff.rfl

/-- Links that are the same link the same list. -/
theorem congr (h : Linked m base back xs ahead) (same : ∀ o ∈ xs, ∀ l, m'.link (base + o) l = m.link (base + o) l) :
    Linked m' base back xs ahead := by
  induction xs generalizing back with
  | nil => trivial
  | cons x xs ih =>
    obtain ⟨previous, next, rest⟩ := cons_iff.mp h
    have here := same x List.mem_cons_self
    exact ⟨(here _).trans previous, (here _).trans next, ih rest fun o ho => same o (List.mem_cons_of_mem _ ho)⟩

/-- A list whose last member gets another `next` link. -/
theorem setAhead (h : Linked m base back xs ahead) (nodup : xs.Nodup)
    (previous : ∀ o ∈ xs, m'.link (base + o) .previous = m.link (base + o) .previous)
    (next : ∀ o ∈ xs, m'.link (base + o) .next = if xs.getLast? = some o then ahead' else m.link (base + o) .next) :
    Linked m' base back xs ahead' := by
  induction xs generalizing back with
  | nil => trivial
  | cons x xs ih =>
    obtain ⟨hp, hn, rest⟩ := cons_iff.mp h
    obtain ⟨new, nodup⟩ := List.nodup_cons.mp nodup
    have last : ∀ y ∈ xs, ((x :: xs).getLast? = some y ↔ xs.getLast? = some y) := by
      intro y hy
      cases xs with
      | nil => cases hy
      | cons z zs => rw [List.getLast?_cons_cons]
    refine ⟨(previous x List.mem_cons_self).trans hp, ?_, ih rest nodup (fun o ho => previous o (.tail _ ho)) ?_⟩
    · rw [next x List.mem_cons_self]
      cases xs with
      | nil => simp
      | cons z zs =>
        have : (x :: z :: zs).getLast? ≠ some x := by
          rw [List.getLast?_cons_cons]
          exact fun e => new (List.mem_of_getLast? e)
        rw [if_neg this, hn]
        rfl
    · intro o ho
      rw [next o (.tail _ ho)]
      simp only [last o ho]

/-- A list whose first member gets another `previous` link. -/
theorem setBack (h : Linked m base back xs ahead) (nodup : xs.Nodup)
    (next : ∀ o ∈ xs, m'.link (base + o) .next = m.link (base + o) .next)
    (previous : ∀ o ∈ xs,
      m'.link (base + o) .previous = if xs.head? = some o then back' else m.link (base + o) .previous) :
    Linked m' base back' xs ahead := by
  cases xs with
  | nil => trivial
  | cons x xs =>
    obtain ⟨hp, hn, rest⟩ := cons_iff.mp h
    obtain ⟨new, -⟩ := List.nodup_cons.mp nodup
    refine ⟨?_, (next x List.mem_cons_self).trans hn, rest.congr ?_⟩
    · rw [previous x List.mem_cons_self]
      simp
    · intro o ho l
      have ne : x ≠ o := fun e => new (e ▸ ho)
      cases l with
      | next => exact next o (.tail _ ho)
      | previous =>
        rw [previous o (.tail _ ho)]
        simp [ne]

/-- A list that one of its members left: the members around it point at each other. -/
theorem leave (h : Linked m base 0 (before ++ o :: after) 0) (nodup : (before ++ o :: after).Nodup)
    (real : ∀ q ∈ before ++ o :: after, q ≠ 0)
    (next : ∀ q ∈ before ++ o :: after,
      m'.link (base + q) .next = if before.getLastD 0 = q then after.headD 0 else m.link (base + q) .next)
    (previous : ∀ q ∈ before ++ o :: after,
      m'.link (base + q) .previous = if after.headD 0 = q then before.getLastD 0 else m.link (base + q) .previous) :
    Linked m' base 0 (before ++ after) 0 := by
  obtain ⟨linkedBefore, -, -, linkedAfter⟩ := append_iff.mp h
  obtain ⟨nodupBefore, nodupRest, disjoint⟩ := List.nodup_append.mp nodup
  obtain ⟨-, nodupAfter⟩ := List.nodup_cons.mp nodupRest
  have inBefore : ∀ q ∈ before, q ∈ before ++ o :: after := fun q hq => List.mem_append_left _ hq
  have inAfter : ∀ q ∈ after, q ∈ before ++ o :: after := fun q hq => List.mem_append_right _ (.tail _ hq)
  refine append_iff.mpr ⟨linkedBefore.setAhead nodupBefore ?_ ?_, linkedAfter.setBack nodupAfter ?_ ?_⟩
  · intro q hq
    have ne : after.headD 0 ≠ q := by
      rw [Ne, headD_eq_iff (real q (inBefore q hq))]
      exact fun e => disjoint q hq q (.tail _ (List.mem_of_head? e)) rfl
    rw [previous q (inBefore q hq), if_neg ne]
  · intro q hq
    simp only [next q (inBefore q hq), getLastD_eq_iff (real q (inBefore q hq))]
  · intro q hq
    have ne : before.getLastD 0 ≠ q := by
      rw [Ne, getLastD_eq_iff (real q (inAfter q hq))]
      exact fun e => disjoint q (List.mem_of_getLast? e) q (.tail _ hq) rfl
    rw [next q (inAfter q hq), if_neg ne]
  · intro q hq
    simp only [previous q (inAfter q hq), headD_eq_iff (real q (inAfter q hq))]

end Linked

/-- Memory and heads represent the lists: every head is the first member or zero, and the links lead from member to member
and back. -/
structure Threaded (s : Store) (base : Nat) (ls : Lists) : Prop where
  front : ∀ c, s.heads.get c = (ls c).headD 0
  linked : ∀ c, Linked s.memory base 0 (ls c) 0
  nodup : ∀ c, (ls c).Nodup

/-- Memory and heads represent the lists, and the members are free blocks of the class of their list, which stand in the
span and are at least as far from each other as the smallest block is long. -/
structure Listed (s : Store) (span : Span) (ls : Lists) : Prop extends Threaded s span.base ls where
  place : ∀ c, ∀ o ∈ ls c, o % 16 = 8 ∧ o + 32 ≤ span.epilogueOffset
  free : ∀ c, ∀ o ∈ ls c, (s.memory.tag (span.base + o)).allocated = false
  sizeClass : ∀ c, ∀ o ∈ ls c, classOf (s.memory.tag (span.base + o)).size = c
  spaced : ∀ c d, ∀ o ∈ ls c, ∀ p ∈ ls d, o = p ∨ o + 32 ≤ p ∨ p + 32 ≤ o

/-- Words that are the same make the same links. -/
theorem Memory.link_eq {m m' : Memory} {a : Nat} {l : Link} (h : m'.word (a + l.position) = m.word (a + l.position)) :
    m'.link a l = m.link a l := by
  rw [Memory.link, h, Memory.link]

theorem Memory.tag_eq {m m' : Memory} {a : Nat} (h : m'.word a = m.word a) : m'.tag a = m.tag a := by
  rw [Memory.tag, h, Memory.tag]

theorem Memory.word_setLink_of_ne {m : Memory} {a b v : Nat} {l : Link} (h : a ≠ b + l.position) :
    (m.setLink b l v).word a = m.word a := word_setWord_of_ne _ _ h

/-- A link of one of two blocks that do not overlap, read after a link of the other was written. -/
theorem Memory.link_setLink {m : Memory} {base q r v : Nat} {k l : Link} (apart : q = r ∨ q + 32 ≤ r ∨ r + 32 ≤ q)
    (small : v < 0x1_0000_0000_0000_0000) :
    (m.setLink (base + q) l v).link (base + r) k = if q = r ∧ l = k then v else m.link (base + r) k := by
  by_cases same : q = r ∧ l = k
  · obtain ⟨rfl, rfl⟩ := same
    simp [link_setLink_self _ _ _ small]
  · rw [if_neg same, link_setLink_of_ne]
    cases k <;> cases l <;> simp only [Link.position] <;> simp at same <;> omega

/-- Writes a link of the block at an offset, and nothing when the offset is zero. -/
def Memory.relink (m : Memory) (base q : Nat) (l : Link) (v : Nat) : Memory :=
  if q = 0 then m else m.setLink (base + q) l v

theorem Memory.link_relink {m : Memory} {base q r v : Nat} {k l : Link} (apart : q ≠ 0 → q = r ∨ q + 32 ≤ r ∨ r + 32 ≤ q)
    (real : r ≠ 0) (small : v < 0x1_0000_0000_0000_0000) :
    (m.relink base q l v).link (base + r) k = if q = r ∧ l = k then v else m.link (base + r) k := by
  unfold relink
  by_cases null : q = 0
  · subst null
    simp [Ne.symm real]
  · rw [if_neg null, link_setLink (apart null) small]

/-- Only a link of the block changes. -/
theorem Memory.word_relink_of_ne {m : Memory} {base q v a : Nat} {l : Link} (h : q ≠ 0 → a ≠ base + q + l.position) :
    (m.relink base q l v).word a = m.word a := by
  unfold relink
  split
  · rfl
  · exact word_setLink_of_ne (h (by assumption))

theorem Memory.tag_relink {m : Memory} {base q r v : Nat} {l : Link} (apart : q ≠ 0 → q = r ∨ q + 32 ≤ r ∨ r + 32 ≤ q) :
    (m.relink base q l v).tag (base + r) = m.tag (base + r) := by
  refine tag_eq (word_relink_of_ne ?_)
  intro null
  have := apart null
  cases l <;> simp only [Link.position] <;> omega

/-! ## Running the operations on lists -/

/-- What leaving a list makes of a store: the neighbours point at each other, and the head moves on if it stood here. -/
def Store.unlink (s : Store) (base o : Nat) : Store :=
  let back := s.memory.link (base + o) .previous
  let ahead := s.memory.link (base + o) .next
  let sizeClass := classOf (s.memory.tag (base + o)).size
  { memory := (s.memory.relink base back .next ahead).relink base ahead .previous back
    heads := if s.heads.get sizeClass = o then s.heads.set sizeClass ahead else s.heads }

/-- What joining a list makes of a store: the block points ahead at the old front, which points back at it. -/
def Store.linkIn (s : Store) (base o : Nat) : Store :=
  let sizeClass := classOf (s.memory.tag (base + o)).size
  let front := s.heads.get sizeClass
  { memory := ((s.memory.setLink (base + o) .previous 0).setLink (base + o) .next front).relink base front .previous o
    heads := s.heads.set sizeClass o }

namespace Store

/-- A block that leaves its list changes one link of each of its neighbours. -/
theorem word_unlink {s : Store} {base o a : Nat}
    (back : s.memory.link (base + o) .previous ≠ 0 → a ≠ base + s.memory.link (base + o) .previous + 16)
    (ahead : s.memory.link (base + o) .next ≠ 0 → a ≠ base + s.memory.link (base + o) .next + 8) :
    (s.unlink base o).memory.word a = s.memory.word a := by
  simp only [unlink]
  rw [Memory.word_relink_of_ne (l := .previous) ahead, Memory.word_relink_of_ne (l := .next) back]

/-- A block that joins a list changes its own links and one link of the old front. -/
theorem word_linkIn {s : Store} {base o a : Nat} (own : a ≠ base + o + 8 ∧ a ≠ base + o + 16)
    (front : s.heads.get (classOf (s.memory.tag (base + o)).size) ≠ 0 →
      a ≠ base + s.heads.get (classOf (s.memory.tag (base + o)).size) + 8) :
    (s.linkIn base o).memory.word a = s.memory.word a := by
  simp only [linkIn]
  rw [Memory.word_relink_of_ne (l := .previous) front, Memory.word_setLink_of_ne (l := .next) own.2,
    Memory.word_setLink_of_ne (l := .previous) own.1]

end Store

namespace Span

theorem blockAt_eq {span : Span} {o : Nat} (low : 8 ≤ o) (high : o ≤ span.epilogueOffset) (aligned : o % 8 = 0) :
    span.blockAt o = .ok (span.base + o) := blockAt_eq_ok_iff.mpr ⟨⟨low, high, aligned⟩, rfl⟩

theorem offsetOf_eq {span : Span} {o : Nat} (h : o ≤ span.epilogueOffset) : span.offsetOf (span.base + o) = .ok o := by
  refine offsetOf_eq_ok_iff.mpr ⟨contains_iff.mpr ?_, by omega⟩
  simp only [finish, length, headerSize]
  omega

end Span

/-- Writing a link of another free block, or nothing when there is none. -/
theorem relink_run {s : Store} {span : Span} {q : Nat} (l : Link) (v : Nat)
    (free : q ≠ 0 → (s.memory.tag (span.base + q)).allocated = false) (place : q ≠ 0 → q % 16 = 8 ∧ q ≤ span.epilogueOffset)
    (rest : Unit → StoreM Unit) :
    (if q ≠ 0 then (do
        let a ← liftM (span.blockAt q)
        let r ← StoreM.setLink a l v
        rest r) else rest ()) s
      = rest () { s with memory := s.memory.relink span.base q l v } := by
  by_cases null : q = 0
  · subst null
    rfl
  · obtain ⟨aligned, high⟩ := place null
    rw [if_pos null, Span.blockAt_eq (by omega) high (by omega), Operation.lift_ok, Operation.bind_apply,
      Operation.pure_apply]
    simp only [Operation.bind_apply, StoreM.setLink_apply l v (free null), Memory.relink, if_neg null]

namespace Listed

variable {s : Store} {span : Span} {ls : Lists} {c d : Fin classCount} {o p : Nat}

theorem pos (h : Listed s span ls) (ho : o ∈ ls c) : o ≠ 0 := by
  have := (h.place c o ho).1
  omega

/-- A member is in the list of one class only. -/
theorem class_unique (h : Listed s span ls) (hc : o ∈ ls c) (hd : o ∈ ls d) : c = d :=
  (h.sizeClass c o hc).symm.trans (h.sizeClass d o hd)

/-- What stands around a member: the links lead to the members before and after it, or are zero. -/
theorem around (h : Listed s span ls) (ho : o ∈ ls c) : ∃ before after, ls c = before ++ o :: after ∧
    s.memory.link (span.base + o) .previous = before.getLastD 0 ∧
    s.memory.link (span.base + o) .next = after.headD 0 := by
  obtain ⟨before, after, split⟩ := List.append_of_mem ho
  have linked := h.linked c
  rw [split] at linked
  obtain ⟨-, previous, next, -⟩ := Linked.append_iff.mp linked
  exact ⟨before, after, split, previous, next⟩

theorem previous_mem (h : Listed s span ls) (ho : o ∈ ls c) :
    s.memory.link (span.base + o) .previous ≠ 0 → s.memory.link (span.base + o) .previous ∈ ls c := by
  obtain ⟨before, after, split, previous, -⟩ := h.around ho
  rw [previous, split]
  intro real
  exact List.mem_append_left _ (List.mem_of_getLast? ((getLastD_eq_iff real).mp rfl))

theorem next_mem (h : Listed s span ls) (ho : o ∈ ls c) :
    s.memory.link (span.base + o) .next ≠ 0 → s.memory.link (span.base + o) .next ∈ ls c := by
  obtain ⟨before, after, split, -, next⟩ := h.around ho
  rw [next, split]
  intro real
  exact List.mem_append_right _ (.tail _ (List.mem_of_head? ((headD_eq_iff real).mp rfl)))

theorem front_mem (h : Listed s span ls) (c : Fin classCount) : s.heads.get c ≠ 0 → s.heads.get c ∈ ls c := by
  rw [h.front c]
  intro real
  exact List.mem_of_head? ((headD_eq_iff real).mp rfl)

theorem small (h : Listed s span ls) (ho : o ∈ ls c) : o < 0x1_0000_0000_0000_0000 := by
  have := (h.place c o ho).2
  have := span.finish_lt
  omega

/-- A member leaves its list. -/
theorem remove_apply (h : Listed s span ls) (ho : o ∈ ls c) :
    FreeList.remove span (span.base + o) s = .ok () (s.unlink span.base o) := by
  have apart := h.spaced c c
  have placeOf : ∀ q, q ∈ ls c → q % 16 = 8 ∧ q ≤ span.epilogueOffset := by
    intro q hq
    have := h.place c q hq
    omega
  have back := h.previous_mem ho
  have ahead := h.next_mem ho
  obtain ⟨-, high⟩ := h.place c o ho
  unfold FreeList.remove
  simp only [Operation.bind_apply, StoreM.tag_apply, h.free c o ho, StoreM.link_apply, Bool.false_eq_true, if_false]
  rw [relink_run .next _ (fun real => h.free c _ (back real)) (fun real => placeOf _ (back real))]
  rw [relink_run .previous _ ?_ (fun real => placeOf _ (ahead real))]
  · simp only [Operation.bind_apply, StoreM.head_apply, Span.offsetOf_eq (show o ≤ span.epilogueOffset by omega),
      Operation.lift_ok, Operation.pure_apply]
    by_cases here : s.heads.get (classOf (s.memory.tag (span.base + o)).size) = o
    · rw [if_pos here, StoreM.setHead_apply]
      simp only [Store.unlink, if_pos here]
    · rw [if_neg here, Operation.pure_apply]
      simp only [Store.unlink, if_neg here]
  · intro real
    rw [Memory.tag_relink fun real' => apart _ (back real') _ (ahead real)]
    exact h.free c _ (ahead real)

/-- A free block joins the list of its class. -/
theorem insert_apply (h : Listed s span ls) (free : (s.memory.tag (span.base + o)).allocated = false)
    (place : o % 16 = 8 ∧ o + 32 ≤ span.epilogueOffset) (apart : ∀ c, ∀ p ∈ ls c, o + 32 ≤ p ∨ p + 32 ≤ o) :
    FreeList.insert span (span.base + o) s = .ok () (s.linkIn span.base o) := by
  obtain ⟨aligned, high⟩ := place
  have front := h.front_mem (classOf (s.memory.tag (span.base + o)).size)
  unfold FreeList.insert
  simp only [Operation.bind_apply, StoreM.tag_apply, free, Span.offsetOf_eq (show o ≤ span.epilogueOffset by omega),
    Operation.lift_ok, Operation.pure_apply, StoreM.head_apply, Bool.false_eq_true, if_false]
  rw [StoreM.setLink_apply .previous 0 free]
  simp only
  rw [StoreM.setLink_apply .next _ (by simpa using free)]
  simp only
  rw [relink_run .previous _ ?_ ?_]
  · rfl
  · intro real
    have far := apart _ _ (front real)
    rw [Memory.tag_setLink_of_ne _ _ (by simp only [Link.position]; omega),
      Memory.tag_setLink_of_ne _ _ (by simp only [Link.position]; omega)]
    exact h.free _ _ (front real)
  · intro real
    have := h.place _ _ (front real)
    omega

/-- The members of the lists that a member leaves are the other members. -/
theorem mem_drop (h : Listed s span ls) {b : Block} (hb : b.offset ∈ ls (classOf b.size)) :
    p ∈ ls.drop b d ↔ p ∈ ls d ∧ p ≠ b.offset := by
  by_cases same : d = classOf b.size
  · subst same
    rw [Lists.drop, Function.update_self, (h.nodup _).mem_erase_iff, and_comm]
  · rw [Lists.drop, Function.update_of_ne same]
    exact ⟨fun hp => ⟨hp, fun e => same (h.class_unique (e ▸ hp) hb)⟩, And.left⟩

/-- The links of the other members after a member left its list. -/
theorem link_unlink (h : Listed s span ls) (ho : o ∈ ls c) (hp : p ∈ ls d) :
    (s.unlink span.base o).memory.link (span.base + p) .next =
        (if s.memory.link (span.base + o) .previous = p then s.memory.link (span.base + o) .next
          else s.memory.link (span.base + p) .next) ∧
      (s.unlink span.base o).memory.link (span.base + p) .previous =
        (if s.memory.link (span.base + o) .next = p then s.memory.link (span.base + o) .previous
          else s.memory.link (span.base + p) .previous) := by
  have back := h.previous_mem ho
  have ahead := h.next_mem ho
  have real := h.pos hp
  have small : ∀ q, (q ≠ 0 → q ∈ ls c) → q < 0x1_0000_0000_0000_0000 := by
    intro q hq
    by_cases null : q = 0
    · omega
    · exact h.small (hq null)
  have apart : ∀ q, (q ≠ 0 → q ∈ ls c) → q ≠ 0 → q = p ∨ q + 32 ≤ p ∨ p + 32 ≤ q :=
    fun q hq real' => h.spaced c d q (hq real') p hp
  simp only [Store.unlink]
  rw [Memory.link_relink (apart _ ahead) real (small _ back), Memory.link_relink (apart _ back) real (small _ ahead),
    Memory.link_relink (apart _ ahead) real (small _ back), Memory.link_relink (apart _ back) real (small _ ahead)]
  simp

/-- The other lists keep their links. -/
theorem link_unlink_of_ne (h : Listed s span ls) (ho : o ∈ ls c) (hp : p ∈ ls d) (ne : d ≠ c) (l : Link) :
    (s.unlink span.base o).memory.link (span.base + p) l = s.memory.link (span.base + p) l := by
  have notBack : s.memory.link (span.base + o) .previous ≠ p := by
    intro e
    exact ne (h.class_unique hp (e ▸ h.previous_mem ho (by rw [e]; exact h.pos hp)))
  have notAhead : s.memory.link (span.base + o) .next ≠ p := by
    intro e
    exact ne (h.class_unique hp (e ▸ h.next_mem ho (by rw [e]; exact h.pos hp)))
  cases l with
  | next => rw [(h.link_unlink ho hp).1, if_neg notBack]
  | previous => rw [(h.link_unlink ho hp).2, if_neg notAhead]

theorem tag_unlink (h : Listed s span ls) (ho : o ∈ ls c) (hp : p ∈ ls d) :
    (s.unlink span.base o).memory.tag (span.base + p) = s.memory.tag (span.base + p) := by
  have back := h.previous_mem ho
  have ahead := h.next_mem ho
  simp only [Store.unlink]
  rw [Memory.tag_relink fun real => h.spaced c d _ (ahead real) p hp,
    Memory.tag_relink fun real => h.spaced c d _ (back real) p hp]

/-- The links of a list that one of its members left. -/
theorem threaded_unlink (h : Listed s span ls) {b : Block} (hb : b.offset ∈ ls (classOf b.size)) :
    Threaded (s.unlink span.base b.offset) span.base (ls.drop b) := by
  obtain ⟨before, after, split, previous, next⟩ := h.around hb
  have nodup := h.nodup (classOf b.size)
  rw [split] at nodup
  have newBefore : b.offset ∉ before := fun mem => (List.nodup_append.mp nodup).2.2 _ mem _ List.mem_cons_self rfl
  have left : ls.drop b (classOf b.size) = before ++ after := by
    rw [Lists.drop, Function.update_self, split, List.erase_append_right _ newBefore, List.erase_cons_head]
  have other : ∀ d, d ≠ classOf b.size → ls.drop b d = ls d := fun d ne => Function.update_of_ne ne _ _
  refine ⟨?_, ?_, ?_⟩
  · intro d
    have front := h.front d
    simp only [Store.unlink, h.sizeClass _ _ hb, next]
    by_cases same : d = classOf b.size
    · subst same
      rw [left, front, split]
      cases before with
      | nil => simp [Heads.get_set]
      | cons q before =>
        have : q ≠ b.offset := fun e => newBefore (by simp [e])
        simpa [this, split] using front
    · rw [other d same, ← front]
      split
      · rw [Heads.get_set, if_neg same]
      · rfl
  · intro d
    have linked := h.linked d
    by_cases same : d = classOf b.size
    · subst same
      have links := fun q (hq : q ∈ ls (classOf b.size)) => h.link_unlink hb hq
      rw [previous, next] at links
      rw [split] at linked links
      rw [left]
      exact linked.leave nodup (fun q hq => h.pos (split ▸ hq)) (fun q hq => (links q hq).1) fun q hq => (links q hq).2
    · rw [other d same]
      exact linked.congr fun q hq l => h.link_unlink_of_ne hb hq same l
  · intro d
    by_cases same : d = classOf b.size
    · subst same
      rw [left]
      exact nodup.sublist (List.Sublist.append_left (List.sublist_cons_self _ _) _)
    · rw [other d same]
      exact h.nodup d

section Joining

variable {b : Block} (h : Listed s span ls) (size : (s.memory.tag (span.base + b.offset)).size = b.size)
  (place : b.offset % 16 = 8 ∧ b.offset + 32 ≤ span.epilogueOffset)
  (apart : ∀ c, ∀ p ∈ ls c, b.offset + 32 ≤ p ∨ p + 32 ≤ b.offset)

/-- The members of the lists that a block joins are the block and the members before. -/
theorem mem_push {b : Block} {ls : Lists} {d : Fin classCount} {p : Nat} :
    p ∈ ls.push b d ↔ p ∈ ls d ∨ p = b.offset ∧ d = classOf b.size := by
  by_cases same : d = classOf b.size
  · subst same
    simp [Lists.push, or_comm]
  · simp [Lists.push, same]

include h place apart

theorem tag_linkIn (hp : p ∈ ls d ∨ p = b.offset) :
    (s.linkIn span.base b.offset).memory.tag (span.base + p) = s.memory.tag (span.base + p) := by
  have front := h.front_mem (classOf (s.memory.tag (span.base + b.offset)).size)
  have far : b.offset = p ∨ b.offset + 32 ≤ p ∨ p + 32 ≤ b.offset := by
    rcases hp with hp | hp
    · exact .inr (apart d p hp)
    · exact .inl hp.symm
  simp only [Store.linkIn]
  rw [Memory.tag_relink, Memory.tag_setLink_of_ne _ _ (by simp only [Link.position]; omega),
    Memory.tag_setLink_of_ne _ _ (by simp only [Link.position]; omega)]
  intro real
  rcases hp with hp | rfl
  · exact h.spaced _ _ _ (front real) p hp
  · have := apart _ _ (front real)
    omega

/-- The links of the members, and of the block that joined, after it joined. -/
theorem link_linkIn (hp : p ∈ ls d ∨ p = b.offset) :
    (s.linkIn span.base b.offset).memory.link (span.base + p) .next =
        (if p = b.offset then s.heads.get (classOf (s.memory.tag (span.base + b.offset)).size)
          else s.memory.link (span.base + p) .next) ∧
      (s.linkIn span.base b.offset).memory.link (span.base + p) .previous =
        (if s.heads.get (classOf (s.memory.tag (span.base + b.offset)).size) = p then b.offset
          else if p = b.offset then 0 else s.memory.link (span.base + p) .previous) := by
  have front := h.front_mem (classOf (s.memory.tag (span.base + b.offset)).size)
  simp only [Store.linkIn]
  generalize s.heads.get (classOf (s.memory.tag (span.base + b.offset)).size) = q at front ⊢
  have := span.finish_lt
  have far : b.offset = p ∨ b.offset + 32 ≤ p ∨ p + 32 ≤ b.offset := by
    rcases hp with hp | hp
    · exact .inr (apart d p hp)
    · exact .inl hp.symm
  have farFront : q ≠ 0 → q = p ∨ q + 32 ≤ p ∨ p + 32 ≤ q := by
    intro real
    rcases hp with hp | rfl
    · exact h.spaced _ _ _ (front real) p hp
    · have := apart _ _ (front real)
      omega
  have real : p ≠ 0 := by
    rcases hp with hp | rfl
    · exact h.pos hp
    · omega
  have small : q < 0x1_0000_0000_0000_0000 := by
    by_cases null : q = 0
    · omega
    · exact h.small (front null)
  have aligned : b.offset < 0x1_0000_0000_0000_0000 := by omega
  constructor
  · rw [Memory.link_relink farFront real aligned, Memory.link_setLink far small, Memory.link_setLink far (by omega)]
    simp [eq_comm]
  · rw [Memory.link_relink farFront real aligned, Memory.link_setLink far small, Memory.link_setLink far (by omega)]
    simp [eq_comm]

include size

/-- The links of a list that a block joined. -/
theorem threaded_linkIn : Threaded (s.linkIn span.base b.offset) span.base (ls.push b) := by
  have links := fun {p : Nat} {d} (hp : p ∈ ls d ∨ p = b.offset) => h.link_linkIn place apart hp
  have new : ∀ d, b.offset ∉ ls d := by
    intro d mem
    have := apart d _ mem
    omega
  rw [size] at links
  refine ⟨?_, ?_, ?_⟩
  · intro d
    simp only [Store.linkIn, size, Heads.get_set]
    by_cases same : d = classOf b.size
    · subst same
      simp [Lists.push]
    · rw [if_neg same, Lists.push, Function.update_of_ne same, h.front d]
  · intro d
    have linked := h.linked d
    by_cases same : d = classOf b.size
    · subst same
      rw [Lists.push, Function.update_self, Linked.cons_iff]
      have front := h.front (classOf b.size)
      obtain ⟨own, back⟩ := links (d := classOf b.size) (p := b.offset) (.inr rfl)
      refine ⟨?_, ?_, ?_⟩
      · have ne : s.heads.get (classOf b.size) ≠ b.offset := by
          intro e
          exact new _ (e ▸ h.front_mem (classOf b.size) (by rw [e]; omega))
        rw [back, if_neg ne, if_pos rfl]
      · rw [own, if_pos rfl, front]
      · refine linked.setBack (h.nodup _) ?_ ?_
        · intro q hq
          have ne : q ≠ b.offset := fun e => new _ (e ▸ hq)
          rw [(links (.inl hq)).1, if_neg ne]
        · intro q hq
          have ne : q ≠ b.offset := fun e => new _ (e ▸ hq)
          simp only [(links (.inl hq)).2, if_neg ne, front, headD_eq_iff (h.pos hq)]
    · rw [Lists.push, Function.update_of_ne same]
      refine linked.congr ?_
      intro q hq l
      have ne : q ≠ b.offset := fun e => new _ (e ▸ hq)
      have notFront : s.heads.get (classOf b.size) ≠ q := fun e =>
        same (h.class_unique hq (e ▸ h.front_mem (classOf b.size) (by rw [e]; exact h.pos hq)))
      cases l with
      | next => rw [(links (.inl hq)).1, if_neg ne]
      | previous => rw [(links (.inl hq)).2, if_neg notFront, if_neg ne]
  · intro d
    by_cases same : d = classOf b.size
    · subst same
      rw [Lists.push, Function.update_self]
      exact List.nodup_cons.mpr ⟨new _, h.nodup _⟩
    · rw [Lists.push, Function.update_of_ne same]
      exact h.nodup d

end Joining

end Listed

end SegregatedFit
