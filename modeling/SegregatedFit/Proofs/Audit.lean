import SegregatedFit.Proofs.Walk
import SegregatedFit.Proofs.Coalescing
import Mathlib.Data.List.Nodup
import Mathlib.Data.List.Perm.Subperm

/-!
# The audit is exact

The audit passes exactly the heaps that are lawful (`audit_eq_ok_iff`): those whose memory holds a layout that lies within
the bounds of the source and ends with them (`Store.Lawful`). Nothing is assumed of the memory or the heads.

The walk from block to block passes exactly the rows of blocks it should. The walk through the lists never tests that a
member is one of the blocks met before; that follows at the end, because no more members are accepted than there are free
blocks, and every free block is among them.
-/

namespace SegregatedFit

/-- The store holds a layout whose headers lie within the bounds `low` and `high` of the source, and the span ends where the
source's range does. -/
def Store.Lawful (s : Store) (span : Span) (low high : Nat) : Prop :=
  ∃ L : Layout, L.Describes s span ∧
    (∀ b ∈ L.blocks, low ≤ span.base + b.offset ∧ span.base + b.offset + headerSize ≤ high + 1) ∧
    span.finish = high + 1

namespace Audit

variable {m : Memory} {span : Span} {low high start : Nat} {state : Bool} {bs : List Block}

/-! ## Walking the blocks -/

/-- A row of blocks from `start` to the epilogue that the walk passes: it is in the memory behind a block of the state given,
no two free blocks touch, it lies within the bounds of the source, and it ends where the range of the source does. -/
structure Passable (m : Memory) (span : Span) (low high start : Nat) (state : Bool) (bs : List Block) : Prop where
  tiled : Tiled start bs span.epilogueOffset
  segment : Segment m span.base state (bs ++ [span.sentinel])
  coalesced : Coalesced bs
  first : ∀ b ∈ bs.head?, state = true ∨ b.allocated = true
  within : ∀ b ∈ bs, low ≤ span.base + b.offset ∧ span.base + b.offset + headerSize ≤ high + 1
  ends : span.finish = high + 1

/-- Such a row is one that the walk passes up to an epilogue that passes too. -/
theorem passable_iff : Passable m span low high start state bs ↔
    Passed m span low high start state bs span.epilogueOffset ∧
      inspectEpilogue m span high (lastState state bs) = .ok () := by
  have fits := span.finish_lt
  rw [inspectEpilogue_eq_ok_iff]
  constructor
  · rintro ⟨tiled, segment, coalesced, first, within, ends⟩
    obtain ⟨segment, last⟩ := Segment.append_iff.mp segment
    exact ⟨⟨tiled, segment, coalesced, first, within, le_rfl⟩, ends ▸ fits, ends, Segment.sentinel_iff.mp last⟩
  · rintro ⟨⟨tiled, segment, coalesced, first, within, -⟩, -, ends, last⟩
    exact ⟨tiled, Segment.append_iff.mpr ⟨segment, Segment.sentinel_iff.mpr last⟩, coalesced, first, within, ends⟩

/-- The walk comes to an end exactly when it meets such a row, and answers its free blocks. -/
theorem walk_eq_ok_iff {free : List Nat} (aligned : start % 16 = 8) (le : start ≤ span.epilogueOffset) :
    walk m span low high (span.base + start) state = .ok free ↔
      ∃ bs, Passable m span low high start state bs ∧ free = freeAddresses span.base bs := by
  constructor
  · intro met
    obtain ⟨bs, finish, r, passed, halts, run⟩ := @walk_halts m span low high start state aligned le
    rw [run] at met
    cases r with
    | error e => cases met
    | ok u =>
      cases met
      by_cases atEnd : finish = span.epilogueOffset
      · subst atEnd
        rw [Halts, if_pos rfl] at halts
        exact ⟨bs, passable_iff.mpr ⟨passed, halts⟩, rfl⟩
      · rw [Halts, if_neg atEnd] at halts
        obtain ⟨_, ⟨⟩, -⟩ := halts
  · rintro ⟨bs, row, rfl⟩
    obtain ⟨passed, last⟩ := passable_iff.mp row
    have halts : Halts m span low high span.epilogueOffset (lastState state bs) (.ok ()) := by rwa [Halts, if_pos rfl]
    rw [passed.walk_eq aligned (inspectEpilogue_eq_ok_iff.mp last).1, halts.walk_eq]
    exact congrArg Except.ok (List.append_nil _)

/-! ## Walking the lists -/

theorem bind_eq_ok_iff {α β : Type} {x : Except Finding α} {f : α → Except Finding β} {b : β} :
    (x >>= f) = .ok b ↔ ∃ a, x = .ok a ∧ f a = .ok b := by
  cases x <;> simp [bind, Except.bind]

variable {c : Fin classCount} {freeCount back cursor : Nat} {listed r : List Nat}

/-- The walk through one list comes to an end exactly when it accepts members up to an end of the list, and answers them. -/
theorem walkList_eq_ok_iff (count : listed.length ≤ freeCount) : walkList m span freeCount c listed back cursor = .ok r ↔
    ∃ os, cursor = os.headD 0 ∧ Accepted m span freeCount c listed back os 0 ∧
      r = (addresses span.base os).reverse ++ listed := by
  constructor
  · intro met
    obtain ⟨os, ahead, found, front, accepted, halts, run⟩ := @walkList_halts m span c freeCount back cursor _ count
    rw [run] at met
    cases found with
    | error e => cases met
    | ok u =>
      cases met
      by_cases atEnd : ahead = 0
      · subst atEnd
        exact ⟨os, front, accepted, rfl⟩
      · rw [ListHalts, if_neg atEnd] at halts
        obtain ⟨_, ⟨⟩, -⟩ := halts
  · rintro ⟨os, rfl, accepted, rfl⟩
    rw [accepted.walkList_eq, walkList_eq, if_pos rfl]

/-- The list of a class is complete: it goes from its head through the members `os` to an end. -/
structure Complete (s : Store) (span : Span) (c : Fin classCount) (os : List Nat) : Prop where
  front : s.heads.get c = os.headD 0
  linked : Linked s.memory span.base 0 os 0
  nodup : os.Nodup
  members : ∀ o ∈ os, Acceptable s.memory span c o

variable {s : Store} {ls : Lists}

/-- Complete lists are walked to their ends. -/
theorem walkLists_of_complete {cs : List (Fin classCount)} (nodup : cs.Nodup) (complete : ∀ c ∈ cs, Complete s span c (ls c))
    (fresh : ∀ c ∈ cs, ∀ o ∈ ls c, span.base + o ∉ listed)
    (count : (cs.flatMap fun c => addresses span.base (ls c)).length + listed.length ≤ freeCount) :
    cs.foldlM (fun listed c => walkList s.memory span freeCount c listed 0 (s.heads.get c)) listed =
      .ok ((cs.flatMap fun c => addresses span.base (ls c)).reverse ++ listed) := by
  induction cs generalizing listed with
  | nil => rfl
  | cons c cs ih =>
    obtain ⟨other, nodup⟩ := List.nodup_cons.mp nodup
    obtain ⟨front, linked, distinct, members⟩ := complete c List.mem_cons_self
    rw [List.flatMap_cons, List.length_append] at count
    have length : (addresses span.base (ls c)).length = (ls c).length := List.length_map _
    have here : walkList s.memory span freeCount c listed 0 (s.heads.get c) = .ok _ := (walkList_eq_ok_iff (by omega)).mpr
      ⟨ls c, front, ⟨linked, members, distinct, fresh c List.mem_cons_self, by omega⟩, rfl⟩
    rw [List.foldlM_cons, here, List.flatMap_cons, List.reverse_append, List.append_assoc]
    refine ih nodup (fun d hd => complete d (.tail _ hd)) ?_ ?_
    · intro d hd o ho mem
      rcases List.mem_append.mp mem with mem | mem
      · obtain ⟨p, hp, same⟩ := List.mem_map.mp (List.mem_reverse.mp mem)
        obtain rfl := Nat.add_left_cancel same
        -- A member of two lists would have the size class of both.
        have left := (members p hp).sizeClass
        have right := ((complete d (.tail _ hd)).members p ho).sizeClass
        exact other (left.symm.trans right ▸ hd)
      · exact fresh d (.tail _ hd) o ho mem
    · rw [List.length_append, List.length_reverse]
      omega

/-- The walk through some of the lists meets complete lists when it comes to an end. -/
theorem complete_of_walkLists {cs : List (Fin classCount)} (nodup : cs.Nodup)
    (met : cs.foldlM (fun listed c => walkList s.memory span freeCount c listed 0 (s.heads.get c)) listed = .ok r)
    (count : listed.length ≤ freeCount) :
    ∃ ls : Lists, (∀ c ∈ cs, Complete s span c (ls c)) ∧
      r = (cs.flatMap fun c => addresses span.base (ls c)).reverse ++ listed ∧ r.length ≤ freeCount := by
  induction cs generalizing listed with
  | nil =>
    cases met
    exact ⟨fun _ => [], by simp, rfl, count⟩
  | cons c cs ih =>
    obtain ⟨new, nodup⟩ := List.nodup_cons.mp nodup
    rw [List.foldlM_cons] at met
    obtain ⟨listed', here, met⟩ := bind_eq_ok_iff.mp met
    obtain ⟨os, front, ⟨linked, members, distinct, -, count⟩, rfl⟩ := (walkList_eq_ok_iff count).mp here
    obtain ⟨ls, others, rfl, count⟩ := ih nodup met (by
      rwa [List.length_append, List.length_reverse, addresses, List.length_map])
    have same : ∀ d ∈ cs, Function.update ls c os d = ls d := fun d hd =>
      Function.update_of_ne (fun e : d = c => new (e ▸ hd)) _ _
    have flat : cs.flatMap (fun d => addresses span.base (Function.update ls c os d)) =
        cs.flatMap fun d => addresses span.base (ls d) := List.flatMap_congr fun d hd => by rw [same d hd]
    refine ⟨Function.update ls c os, ?_, ?_, count⟩
    · rintro d hd
      rcases List.mem_cons.mp hd with rfl | hd
      · rw [Function.update_self]
        exact ⟨front, linked, distinct, members⟩
      · rw [same d hd]
        exact others d hd
    · rw [List.flatMap_cons, Function.update_self, flat, List.reverse_append, List.append_assoc]

end Audit

/-! ## The whole audit -/

open Audit

variable {s : Store} {span : Span} {low high : Nat} {L : Layout}

/-- What passes the audit, whatever the order is: the prologue, the walk from block to block, and the walk through the lists,
which meets every free block. -/
theorem auditIn_eq_ok_iff_walks {order : Order} : auditIn order s span low high = .ok () ↔
    s.memory.tag span.prologue = { size := prologueSize, allocated := true, predecessorAllocated := true } ∧
      ∃ free, walk s.memory span low high (span.prologue + prologueSize) true = .ok free ∧
        ∃ listed, walkLists s span free.length = .ok listed ∧ ∀ a ∈ free, a ∈ listed := by
  unfold auditIn
  by_cases prologue :
      s.memory.tag span.prologue = { size := prologueSize, allocated := true, predecessorAllocated := true }
  · simp only [prologue, ne_eq, not_true_eq_false, if_false, true_and, bind_eq_ok_iff]
    refine exists_congr fun free => and_congr_right fun _ => exists_congr fun listed => and_congr_right ?_
    intro _
    cases found : (order.run free).find? (fun a => decide (a ∉ listed)) with
    | none => simpa [pure, Except.pure] using found
    | some a =>
      have missing := List.find?_some found
      have mem := Order.mem_run.mp (List.mem_of_find?_eq_some found)
      simp only [decide_eq_true_eq] at missing
      constructor
      · intro passed
        cases passed
      · intro all
        exact absurd (all a mem) missing
  · simp only [prologue, ne_eq, not_false_eq_true, if_true, false_and, bind_eq_ok_iff, iff_false]
    rintro ⟨_, stopped, -⟩
    cases stopped

/-- The free blocks of a tiling stand at different addresses. -/
theorem Tiled.nodup_freeAddresses {start finish base : Nat} {bs : List Block} (h : Tiled start bs finish) :
    (freeAddresses base bs).Nodup := by
  have nodup := h.nodup_offsets
  rw [List.Nodup, List.pairwise_map] at nodup
  rw [freeAddresses, List.Nodup, List.pairwise_map]
  exact (nodup.filter _).imp fun ne => by omega

theorem mem_freeAddresses {base a : Nat} {bs : List Block} :
    a ∈ freeAddresses base bs ↔ ∃ b ∈ bs, b.allocated = false ∧ base + b.offset = a := by
  simp [freeAddresses, and_assoc]

theorem mem_flatMap_addresses {base a : Nat} {ls : Lists} :
    a ∈ (List.finRange classCount).flatMap (fun c => addresses base (ls c)) ↔ ∃ c, ∃ o ∈ ls c, base + o = a := by
  simp [addresses]

/-- A lawful heap passes the audit. -/
theorem Layout.Describes.audit_run (h : L.Describes s span)
    (within : ∀ b ∈ L.blocks, low ≤ span.base + b.offset ∧ span.base + b.offset + headerSize ≤ high + 1)
    (ends : span.finish = high + 1) : audit s span low high = .ok () := by
  have row : Passable s.memory span low high 24 true L.blocks :=
    ⟨h.laid.tiled, h.laid.segment, h.coalesced, fun _ _ => .inl rfl, within, ends⟩
  have complete : ∀ c, Complete s span c (L.lists c) := by
    refine fun c => ⟨h.threaded.front c, h.threaded.linked c, h.threaded.nodup c, fun o ho => ?_⟩
    have place := h.arranged.listed.place c o ho
    exact ⟨by omega, h.arranged.listed.free c o ho, h.arranged.listed.sizeClass c o ho⟩
  have nodup : ((List.finRange classCount).flatMap fun c => addresses span.base (L.lists c)).Nodup := by
    refine List.nodup_flatMap.mpr ⟨fun c _ => (h.threaded.nodup c).map fun _ _ => Nat.add_left_cancel,
      (List.nodup_finRange _).imp ?_⟩
    intro c d ne a hc hd
    obtain ⟨o, ho, rfl⟩ := List.mem_map.mp hc
    obtain ⟨p, hp, same⟩ := List.mem_map.mp hd
    obtain rfl := Nat.add_left_cancel same
    exact ne (h.arranged.listed.class_unique ho hp)
  have listed_iff : ∀ a, a ∈ (List.finRange classCount).flatMap (fun c => addresses span.base (L.lists c)) ↔
      a ∈ freeAddresses span.base L.blocks := by
    intro a
    rw [mem_flatMap_addresses, mem_freeAddresses]
    constructor
    · rintro ⟨c, o, ho, rfl⟩
      obtain ⟨b, hb, free, rfl, -⟩ := (h.files c o).mp ho
      exact ⟨b, hb, free, rfl⟩
    · rintro ⟨b, hb, free, rfl⟩
      exact ⟨_, b.offset, h.files.mem hb free, rfl⟩
  have count := (List.subperm_of_subset nodup fun a => (listed_iff a).mp).length_le
  have met : walkLists s span (freeAddresses span.base L.blocks).length = .ok _ :=
    walkLists_of_complete (List.nodup_finRange _) (fun c _ => complete c) (fun _ _ _ _ => List.not_mem_nil) count
  have walked := (walk_eq_ok_iff rfl span.first_le).mpr ⟨L.blocks, row, rfl⟩
  refine auditIn_eq_ok_iff_walks.mpr ⟨h.laid.prologue, _, walked, _, met, ?_⟩
  intro a ha
  simpa using (listed_iff a).mpr ha

/-- What passes the audit is lawful. -/
theorem audit_sound (h : audit s span low high = .ok ()) : s.Lawful span low high := by
  obtain ⟨prologue, free, walked, listed, met, all⟩ := auditIn_eq_ok_iff_walks.mp h
  obtain ⟨bs, row, rfl⟩ := (walk_eq_ok_iff rfl span.first_le).mp walked
  obtain ⟨ls, lists, rfl, count⟩ := complete_of_walkLists (List.nodup_finRange _) met (Nat.zero_le _)
  have known := fun c => lists c (List.mem_finRange c)
  -- Every free block is listed and there are not more members than free blocks, so the members are the free blocks.
  have perm := (List.subperm_of_subset row.tiled.nodup_freeAddresses all).perm_of_length_le count
  have member_iff : ∀ a, a ∈ freeAddresses span.base bs ↔ ∃ c, ∃ o ∈ ls c, span.base + o = a := by
    intro a
    rw [perm.mem_iff, List.append_nil, List.mem_reverse, mem_flatMap_addresses]
  refine ⟨⟨bs, ls⟩, ⟨⟨prologue, row.tiled, row.segment⟩, row.coalesced, ⟨fun c => (known c).front, fun c => (known c).linked,
    fun c => (known c).nodup⟩, fun c o => ⟨?_, ?_⟩⟩, row.within, row.ends⟩
  · intro ho
    obtain ⟨b, hb, free, same⟩ := mem_freeAddresses.mp ((member_iff _).mpr ⟨c, o, ho, rfl⟩)
    obtain rfl := Nat.add_left_cancel same
    have tag := (row.segment.tag_mem (List.mem_append_left _ hb)).1
    exact ⟨b, hb, free, rfl, tag ▸ ((known c).members _ ho).sizeClass⟩
  · rintro ⟨b, hb, free, rfl, rfl⟩
    obtain ⟨c, o, ho, same⟩ := (member_iff _).mp (mem_freeAddresses.mpr ⟨b, hb, free, rfl⟩)
    obtain rfl := Nat.add_left_cancel same
    have tag := (row.segment.tag_mem (List.mem_append_left _ hb)).1
    obtain rfl := (tag ▸ ((known c).members _ ho).sizeClass : classOf b.size = c)
    exact ho

/-- The audit passes exactly the lawful heaps, whatever the memory, the heads and the bounds are. -/
theorem audit_eq_ok_iff (s : Store) (span : Span) (low high : Nat) :
    audit s span low high = .ok () ↔ s.Lawful span low high := by
  constructor
  · exact audit_sound
  · rintro ⟨L, describes, within, ends⟩
    exact describes.audit_run within ends

end SegregatedFit
