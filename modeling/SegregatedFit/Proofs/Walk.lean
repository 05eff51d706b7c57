import SegregatedFit.Audit
import SegregatedFit.Proofs.Segment

/-!
# How far the walks of the audit go

A walk goes on as long as its inspections pass. The walk from block to block passes a row of blocks (`Audit.Passed`) and halts
behind it, at the epilogue or at a block that fails (`Audit.walk_halts`). The walk through one list accepts some members
(`Audit.Accepted`) and halts behind them, at the end of the list or at a link that fails (`Audit.walkList_halts`). What a walk
ends with is then known from the place where it halts (`Audit.Passed.walk_eq`, `Audit.Accepted.walkList_eq`), be it a finding
or not. Nothing is assumed of the memory.
-/

namespace SegregatedFit

namespace Audit

variable {m : Memory} {span : Span} {low high a start finish : Nat} {state : Bool} {t : Tag} {b : Block} {bs : List Block}

/-! ## One inspection -/

theorem guard_eq_ok_iff {α : Type} {c : Prop} [Decidable c] {f : Finding} {x : Except Finding α} {r : α} :
    (if c then .error f else x) = .ok r ↔ ¬ c ∧ x = .ok r := by
  by_cases h : c <;> simp [h]

/-- What is checked of a block. -/
theorem inspectBlock_eq_ok_iff : inspectBlock m span low high a state = .ok t ↔
    t = m.tag a ∧ low ≤ a ∧ high + 1 < 0x1_0000_0000_0000_0000 ∧ a + 8 ≤ high + 1 ∧ (a + 8) % 16 = 0 ∧ 32 ≤ t.size ∧
      t.size % 16 = 0 ∧ a + t.size < 0x1_0000_0000_0000_0000 ∧ a + t.size ≤ span.epilogue ∧ t.predecessorAllocated = state ∧
      (t.allocated = true ∨ state = true ∧ (m.tag (Memory.footerAddress a t.size)).size = t.size) := by
  unfold inspectBlock
  extract_lets tag footer
  simp only [guard_eq_ok_iff]
  simp only [headerSize, minBlockSize, alignment, payloadOf]
  grind

/-- What is checked of the epilogue. -/
theorem inspectEpilogue_eq_ok_iff : inspectEpilogue m span high state = .ok () ↔
    high + 1 < 0x1_0000_0000_0000_0000 ∧ span.finish = high + 1 ∧ m.tag span.epilogue = ⟨0, true, state⟩ := by
  unfold inspectEpilogue
  simp only [guard_eq_ok_iff]
  generalize m.tag span.epilogue = t
  obtain ⟨size, allocated, flag⟩ := t
  grind

/-- What is checked of a member of a list. -/
theorem inspectMember_eq_ok_iff {freeCount back : Nat} {c : Fin classCount} {listed : List Nat} :
    inspectMember m span freeCount c listed back a = .ok () ↔
      span.contains a = true ∧ (m.tag a).allocated = false ∧ classOf (m.tag a).size = c ∧ m.link a .previous = back ∧
        a ∉ listed ∧ listed.length < freeCount := by
  unfold inspectMember
  simp only [guard_eq_ok_iff]
  grind

/-! ## The walk from block to block -/

/-- The walk without its reason to end. -/
theorem walk_eq (m : Memory) (span : Span) (low high a : Nat) (state : Bool) :
    walk m span low high a state =
      if a = span.epilogue then (inspectEpilogue m span high state).map fun _ => []
      else (inspectBlock m span low high a state).bind fun t =>
        (walk m span low high (a + t.size) t.allocated).map fun free => if t.allocated then free else a :: free := by
  rw [walk]
  split
  · rfl
  · split <;> simp [*, Except.bind]

/-- The addresses of the free blocks of a row. -/
def freeAddresses (base : Nat) (bs : List Block) : List Nat :=
  (bs.filter fun b => !b.allocated).map fun b => base + b.offset

/-- A row of blocks from `start` to `finish` that the walk passes behind a block of the state given: it is in the memory, no
two free blocks touch, and it lies within the bounds of the source and before the epilogue. -/
structure Passed (m : Memory) (span : Span) (low high start : Nat) (state : Bool) (bs : List Block) (finish : Nat) :
    Prop where
  tiled : Tiled start bs finish
  segment : Segment m span.base state bs
  coalesced : Coalesced bs
  first : ∀ b ∈ bs.head?, state = true ∨ b.allocated = true
  within : ∀ b ∈ bs, low ≤ span.base + b.offset ∧ span.base + b.offset + headerSize ≤ high + 1
  below : finish ≤ span.epilogueOffset

/-- No blocks are passed by going nowhere. -/
theorem Passed.nil (below : start ≤ span.epilogueOffset) : Passed m span low high start state [] start where
  tiled := rfl
  segment := trivial
  coalesced := .nil
  first := by simp
  within := by simp
  below := below

theorem Passed.cons_iff : Passed m span low high start state (b :: bs) finish ↔
    Passed m span low high start state [b] (start + b.size) ∧
      Passed m span low high (start + b.size) b.allocated bs finish := by
  constructor
  · rintro ⟨⟨rfl, large, aligned, rest⟩, ⟨tag, footer, segment⟩, coalesced, first, within, below⟩
    obtain ⟨touch, coalesced⟩ := coalesced_cons.mp coalesced
    exact ⟨⟨⟨rfl, large, aligned, rfl⟩, ⟨tag, footer, trivial⟩, .singleton _, first,
      fun c hc => within c (List.mem_singleton.mp hc ▸ List.mem_cons_self), rest.start_le.trans below⟩,
      ⟨rest, segment, coalesced, touch, fun c hc => within c (.tail _ hc), below⟩⟩
  · rintro ⟨⟨⟨rfl, large, aligned, -⟩, ⟨tag, footer, -⟩, -, first, within, -⟩, passed⟩
    obtain ⟨rest, segment, coalesced, touch, within', below⟩ := passed
    refine ⟨⟨rfl, large, aligned, rest⟩, ⟨tag, footer, segment⟩, coalesced_cons.mpr ⟨touch, coalesced⟩, first, ?_, below⟩
    intro c hc
    rcases List.mem_cons.mp hc with rfl | hc
    · exact within _ List.mem_cons_self
    · exact within' c hc

/-- A block that passes its inspection is a row that the walk passes. -/
theorem inspectBlock_eq_ok_iff_passed (aligned : start % 16 = 8) :
    inspectBlock m span low high (span.base + start) state = .ok t ↔ high + 1 < 0x1_0000_0000_0000_0000 ∧
      t.predecessorAllocated = state ∧
      Passed m span low high start state [⟨start, t.size, t.allocated⟩] (start + t.size) := by
  have baseAligned := span.base_aligned
  have spanFits := span.finish_lt
  rw [inspectBlock_eq_ok_iff]
  constructor
  · rintro ⟨rfl, low_le, fits, high_le, -, large, sizeAligned, -, below, rfl, touch⟩
    set t := m.tag (span.base + start)
    simp only [Span.epilogue] at below
    refine ⟨fits, rfl, ⟨rfl, large, sizeAligned, rfl⟩, ⟨rfl, ?_, trivial⟩, .singleton _, ?_, ?_, ?_⟩
    · intro isFree
      have footer := (touch.resolve_left (by simp only at isFree; simp [isFree])).2
      rw [Memory.footerAddress, headerSize, stepUp_of_lt (by omega)] at footer
      rw [show span.base + (start + t.size - 8) = span.base + start + (t.size - 8) by omega]
      exact footer
    · rintro b hb
      obtain rfl := Option.some.inj hb
      exact touch.symm.imp_left And.left
    · intro b hb
      obtain rfl := List.mem_singleton.mp hb
      exact ⟨low_le, high_le⟩
    · omega
  · rintro ⟨fits, rfl, ⟨-, large, sizeAligned, -⟩, ⟨tag, footer, -⟩, -, first, within, below⟩
    obtain ⟨low_le, high_le⟩ := within _ List.mem_cons_self
    simp only [headerSize, minBlockSize, alignment] at large sizeAligned tag footer low_le high_le below
    refine ⟨tag.symm, low_le, fits, high_le, by omega, large, sizeAligned, by omega, ?_, rfl, ?_⟩
    · simp only [Span.epilogue]
      omega
    · cases isFree : t.allocated with
      | true => exact .inl rfl
      | false =>
        refine .inr ⟨(first _ rfl).resolve_right (by simp [isFree]), ?_⟩
        rw [Memory.footerAddress, headerSize, stepUp_of_lt (by omega),
          show span.base + start + (t.size - 8) = span.base + (start + t.size - 8) by omega]
        exact footer isFree

/-- The walk goes on behind a row that it passes. -/
theorem Passed.walk_eq (h : Passed m span low high start state bs finish) (aligned : start % 16 = 8)
    (fits : high + 1 < 0x1_0000_0000_0000_0000) :
    walk m span low high (span.base + start) state =
      (walk m span low high (span.base + finish) (lastState state bs)).map (freeAddresses span.base bs ++ ·) := by
  induction bs generalizing start state with
  | nil =>
    obtain rfl : start = finish := h.tiled
    simp only [lastState_nil, freeAddresses, List.filter_nil, List.map_nil, List.nil_append]
    cases walk m span low high (span.base + start) state <;> rfl
  | cons b bs ih =>
    obtain ⟨here, rest⟩ := Passed.cons_iff.mp h
    obtain ⟨rfl, large, sizeAligned, -⟩ := Tiled.cons_iff.mp here.tiled
    have pass := (inspectBlock_eq_ok_iff_passed (t := ⟨b.size, b.allocated, state⟩) aligned).mpr ⟨fits, rfl, here⟩
    have inside : span.base + b.offset ≠ span.epilogue := by
      have := here.below
      simp only [Span.epilogue]
      omega
    rw [Audit.walk_eq, if_neg inside, pass]
    simp only [Except.bind, Nat.add_assoc, ih rest (by omega), lastState_cons]
    cases walk m span low high (span.base + finish) (lastState b.allocated bs) <;>
      cases isFree : b.allocated <;> simp [freeAddresses, isFree, Except.map]

/-- What the walk finds at the place that it has come to: at the epilogue, whether it passes; elsewhere, why it stops. -/
def Halts (m : Memory) (span : Span) (low high offset : Nat) (state : Bool) (r : Except Finding Unit) : Prop :=
  if offset = span.epilogueOffset then inspectEpilogue m span high state = r
  else ∃ e, r = .error e ∧ inspectBlock m span low high (span.base + offset) state = .error e

/-- The walk passes some blocks until it halts. -/
theorem walk_halts (aligned : start % 16 = 8) (le : start ≤ span.epilogueOffset) :
    ∃ bs finish r, Passed m span low high start state bs finish ∧ Halts m span low high finish (lastState state bs) r ∧
      walk m span low high (span.base + start) state = r.map fun _ => freeAddresses span.base bs := by
  generalize at_ : span.base + start = a
  fun_induction walk m span low high a state generalizing start with
  | case1 =>
    obtain rfl : start = span.epilogueOffset := by
      simp only [Span.epilogue] at at_
      omega
    refine ⟨[], _, inspectEpilogue m span high _, .nil le, ?_, rfl⟩
    rw [Halts, if_pos rfl, lastState_nil]
  | case2 a state inside e stops =>
    subst at_
    refine ⟨[], start, .error e, .nil le, ?_, rfl⟩
    rw [Halts, if_neg fun same => inside (by rw [same]; rfl)]
    exact ⟨e, rfl, stops⟩
  | case3 a state inside t pass ih =>
    subst at_
    obtain ⟨fits, -, here⟩ := (inspectBlock_eq_ok_iff_passed aligned).mp pass
    obtain ⟨-, large, sizeAligned, -⟩ := Tiled.cons_iff.mp here.tiled
    simp only at large sizeAligned
    obtain ⟨bs, finish, r, passed, halts, run⟩ := ih (by omega) here.below (Nat.add_assoc _ _ _).symm
    refine ⟨⟨start, t.size, t.allocated⟩ :: bs, finish, r, Passed.cons_iff.mpr ⟨here, passed⟩, halts, ?_⟩
    rw [run]
    cases r with
    | error e => rfl
    | ok u => cases t.allocated <;> simp [freeAddresses, Except.map]

theorem Halts.walk_eq {r : Except Finding Unit} (h : Halts m span low high start state r) :
    walk m span low high (span.base + start) state = r.map fun _ => [] := by
  rw [Audit.walk_eq]
  by_cases atEnd : start = span.epilogueOffset
  · rw [Halts, if_pos atEnd] at h
    rw [if_pos (by rw [atEnd]; rfl), h]
  · rw [Halts, if_neg atEnd] at h
    obtain ⟨e, rfl, stops⟩ := h
    have inside : span.base + start ≠ span.epilogue := fun same => atEnd (Nat.add_left_cancel same)
    rw [if_neg inside, stops]
    rfl

/-! ## The walk through one list -/

/-- The addresses of the blocks at the offsets given. -/
def addresses (base : Nat) (os : List Nat) : List Nat := os.map (base + ·)

/-- A block that can be a member of the list of a class. -/
structure Acceptable (m : Memory) (span : Span) (c : Fin classCount) (o : Nat) : Prop where
  place : 8 ≤ o ∧ o ≤ span.epilogueOffset ∧ o % 8 = 0
  free : (m.tag (span.base + o)).allocated = false
  sizeClass : classOf (m.tag (span.base + o)).size = c

variable {c : Fin classCount} {freeCount back cursor ahead o : Nat} {listed os : List Nat}

/-- The walk through one list without its reason to end. -/
theorem walkList_eq (m : Memory) (span : Span) (freeCount : Nat) (c : Fin classCount) (listed : List Nat)
    (back cursor : Nat) :
    walkList m span freeCount c listed back cursor =
      if cursor = 0 then .ok listed
      else match span.blockAt cursor with
        | .error f => .error (.fault f)
        | .ok a => (inspectMember m span freeCount c listed back a).bind fun _ =>
            walkList m span freeCount c (a :: listed) cursor (m.link a .next) := by
  rw [walkList]
  split
  · rfl
  · split
    · simp [*]
    · split <;> simp [*, Except.bind]

/-- Members that the walk through the list of a class accepts after the members `listed`: the first points back at `back`, and
the last ahead at `ahead`. -/
structure Accepted (m : Memory) (span : Span) (freeCount : Nat) (c : Fin classCount) (listed : List Nat) (back : Nat)
    (os : List Nat) (ahead : Nat) : Prop where
  linked : Linked m span.base back os ahead
  members : ∀ o ∈ os, Acceptable m span c o
  nodup : os.Nodup
  fresh : ∀ o ∈ os, span.base + o ∉ listed
  count : os.length + listed.length ≤ freeCount

theorem Accepted.nil (count : listed.length ≤ freeCount) : Accepted m span freeCount c listed back [] ahead where
  linked := trivial
  members := by simp
  nodup := .nil
  fresh := by simp
  count := by simpa

theorem Accepted.cons_iff : Accepted m span freeCount c listed back (o :: os) ahead ↔
    (span.blockAt o = .ok (span.base + o) ∧ inspectMember m span freeCount c listed back (span.base + o) = .ok () ∧
      m.link (span.base + o) .next = os.headD ahead) ∧
    Accepted m span freeCount c ((span.base + o) :: listed) o os ahead := by
  rw [Span.blockAt_eq_ok_iff, inspectMember_eq_ok_iff]
  constructor
  · rintro ⟨⟨previous, next, linked⟩, members, nodup, fresh, count⟩
    obtain ⟨new, nodup⟩ := List.nodup_cons.mp nodup
    obtain ⟨place, free, sizeClass⟩ := members o List.mem_cons_self
    have inside : span.contains (span.base + o) = true := by
      simp only [Span.contains_iff, Span.finish, Span.length, headerSize]
      omega
    rw [List.length_cons] at count
    refine ⟨⟨⟨place, rfl⟩, ⟨inside, free, sizeClass, previous, fresh o List.mem_cons_self, by omega⟩, next⟩,
      linked, fun p hp => members p (.tail _ hp), nodup, ?_, by rw [List.length_cons]; omega⟩
    intro p hp mem
    rcases List.mem_cons.mp mem with same | mem
    · obtain rfl := Nat.add_left_cancel same
      exact new hp
    · exact fresh p (.tail _ hp) mem
  · rintro ⟨⟨⟨place, -⟩, ⟨-, free, sizeClass, previous, fresh, -⟩, next⟩, linked, members, nodup, fresh', count⟩
    rw [List.length_cons] at count
    refine ⟨⟨previous, next, linked⟩, ?_, List.nodup_cons.mpr ⟨fun mem => fresh' o mem List.mem_cons_self, nodup⟩, ?_,
      by rw [List.length_cons]; omega⟩
    · intro p hp
      rcases List.mem_cons.mp hp with rfl | hp
      · exact ⟨place, free, sizeClass⟩
      · exact members p hp
    · intro p hp
      rcases List.mem_cons.mp hp with rfl | hp
      · exact fresh
      · exact fun mem => fresh' p hp (.tail _ mem)

theorem reverse_addresses_cons (base o : Nat) (os listed : List Nat) :
    (addresses base (o :: os)).reverse ++ listed = (addresses base os).reverse ++ (base + o) :: listed := by
  simp [addresses]

/-- The walk goes on behind the members that it accepts. -/
theorem Accepted.walkList_eq (h : Accepted m span freeCount c listed back os ahead) :
    walkList m span freeCount c listed back (os.headD ahead) =
      walkList m span freeCount c ((addresses span.base os).reverse ++ listed) (os.getLastD back) ahead := by
  induction os generalizing listed back with
  | nil => rfl
  | cons o os ih =>
    obtain ⟨⟨found, pass, next⟩, rest⟩ := Accepted.cons_iff.mp h
    have real : o ≠ 0 := by
      have := (Span.blockAt_eq_ok_iff.mp found).1
      omega
    rw [List.headD_cons, Audit.walkList_eq, if_neg real, found]
    simp only [pass, Except.bind, next, ih rest, List.getLastD_cons, reverse_addresses_cons]

/-- What the walk finds at the offset that it has come to: at the end of the list, that it passes; elsewhere, why it stops. -/
def ListHalts (m : Memory) (span : Span) (freeCount : Nat) (c : Fin classCount) (listed : List Nat) (back offset : Nat)
    (r : Except Finding Unit) : Prop :=
  if offset = 0 then r = .ok ()
  else ∃ e, r = .error e ∧
    ((∃ f, span.blockAt offset = .error f ∧ e = .fault f) ∨
      ∃ a, span.blockAt offset = .ok a ∧ inspectMember m span freeCount c listed back a = .error e)

/-- The walk accepts some members until it halts. -/
theorem walkList_halts (count : listed.length ≤ freeCount) :
    ∃ os ahead r, cursor = os.headD ahead ∧ Accepted m span freeCount c listed back os ahead ∧
      ListHalts m span freeCount c ((addresses span.base os).reverse ++ listed) (os.getLastD back) ahead r ∧
      walkList m span freeCount c listed back cursor = r.map fun _ => (addresses span.base os).reverse ++ listed := by
  fun_induction walkList m span freeCount c listed back cursor with
  | case1 listed back =>
    refine ⟨[], 0, .ok (), rfl, .nil count, ?_, rfl⟩
    rw [ListHalts, if_pos rfl]
  | case2 listed back cursor real f stray =>
    refine ⟨[], cursor, .error (.fault f), rfl, .nil count, ?_, rfl⟩
    rw [ListHalts, if_neg real]
    exact ⟨_, rfl, .inl ⟨f, stray, rfl⟩⟩
  | case3 listed back cursor real a found e stops =>
    refine ⟨[], cursor, .error e, rfl, .nil count, ?_, rfl⟩
    rw [ListHalts, if_neg real]
    exact ⟨_, rfl, .inr ⟨a, found, stops⟩⟩
  | case4 listed back cursor real a found _ pass ih =>
    obtain ⟨os, ahead, r, next, accepted, halts, run⟩ := ih (length_lt_of_inspectMember pass)
    obtain ⟨-, rfl⟩ := Span.blockAt_eq_ok_iff.mp found
    refine ⟨cursor :: os, ahead, r, rfl, Accepted.cons_iff.mpr ⟨⟨found, pass, next⟩, accepted⟩, ?_, ?_⟩
    · rwa [reverse_addresses_cons, List.getLastD_cons]
    · rwa [reverse_addresses_cons]

theorem ListHalts.walkList_eq {r : Except Finding Unit} (h : ListHalts m span freeCount c listed back cursor r) :
    walkList m span freeCount c listed back cursor = r.map fun _ => listed := by
  rw [Audit.walkList_eq]
  by_cases atEnd : cursor = 0
  · rw [ListHalts, if_pos atEnd] at h
    rw [if_pos atEnd, h]
    rfl
  · rw [ListHalts, if_neg atEnd] at h
    rw [if_neg atEnd]
    obtain ⟨e, rfl, ⟨f, stray, rfl⟩ | ⟨a, found, stops⟩⟩ := h
    · rw [stray]
      rfl
    · rw [found]
      simp only [stops]
      rfl

end Audit

end SegregatedFit
