import SegregatedFit.Proofs.Inversion

/-!
# What an operation writes

An operation on a heap writes one word after the other, and each of them is a tag or a link; for a client it writes bytes of a
payload as well. `Memory.Writes` says where: a tag comes to say that its block is allocated only at `marks`, and bytes are
written only at `data`. Two kinds of words are certainly written, as a tag that may then be written over (`Memory.Tagged`): the
tags of the blocks that are handed out and taken back, and that of the epilogue when it moves.

Each operation has one lemma for what it writes, up to `Heap.serve_effects` for the requests. Nothing is assumed of the heap:
what was written is read off from the operation having come to its end. What it means for the word at one address is said in
`Vacancy` and `Tidiness`.
-/

namespace SegregatedFit

/-- One memory came from another by writing tags, links at multiples of eight, and bytes. -/
inductive Memory.Writes (marks data : Nat → Prop) (m : Memory) : Memory → Prop where
  | refl : Writes marks data m m
  | setTag {m' : Memory} (before : Writes marks data m m') (b : Nat) (t : Tag)
      (marked : t.allocated = true → marks b ∨ (m'.tag b).allocated = true) : Writes marks data m (m'.setTag b t)
  | setLink {m' : Memory} (before : Writes marks data m m') (b : Nat) (l : Link) {v : Nat} (aligned : v % 8 = 0) :
      Writes marks data m (m'.setLink b l v)
  | setBytes {m' : Memory} (before : Writes marks data m m') (a : Nat) (vs : List UInt8)
      (inside : ∀ i, a ≤ i → i < a + vs.length → data i) : Writes marks data m (m'.setBytes a vs)

/-- The word at an address was written as a tag, of an allocated block only when `used`, and what was written since is as
`Memory.Writes` says. -/
def Memory.Tagged (marks data : Nat → Prop) (used : Prop) (a : Nat) (m' : Memory) : Prop :=
  ∃ (m : Memory) (t : Tag), (t.allocated = true → used) ∧ (m.setTag a t).Writes marks data m'

namespace Memory

variable {marks data : Nat → Prop} {used : Prop} {m m' m'' : Memory} {a base q v : Nat} {l : Link}

namespace Writes

theorem trans (h : m.Writes marks data m') (h' : m'.Writes marks data m'') : m.Writes marks data m'' := by
  induction h' with
  | refl => exact h
  | setTag _ b t marked ih => exact ih.setTag b t marked
  | setLink _ b l aligned ih => exact ih.setLink b l aligned
  | setBytes _ a vs inside ih => exact ih.setBytes a vs inside

theorem relink (h : m.Writes marks data m') (aligned : v % 8 = 0) : m.Writes marks data (m'.relink base q l v) := by
  unfold Memory.relink
  split
  · exact h
  · exact h.setLink _ l aligned

/-- The flag for the block before is set in a tag that keeps its state. -/
theorem setPredecessorAllocated (h : m.Writes marks data m') (b : Nat) (flag : Bool) :
    m.Writes marks data (m'.setPredecessorAllocated b flag) := h.setTag b _ .inr

end Writes

theorem Tagged.trans (h : m.Tagged marks data used a) (writes : m.Writes marks data m') : m'.Tagged marks data used a := by
  obtain ⟨first, t, allowed, before⟩ := h
  exact ⟨first, t, allowed, before.trans writes⟩

theorem tagged_setTag {t : Tag} (allowed : t.allocated = true → used) : (m.setTag a t).Tagged marks data used a :=
  ⟨m, t, allowed, .refl⟩

end Memory

/-! ## Operations on blocks and lists -/

namespace FreeList

variable {marks data : Nat → Prop} {span : Span} {b : Nat} {s t : Store} {u : Unit}

/-- Leaving a list writes links of blocks that stand at multiples of eight. -/
theorem remove_writes (done : remove span b s = .ok u t) : s.memory.Writes marks data t.memory := by
  obtain ⟨_, _, ⟨⟩, done⟩ := Operation.bind_eq_ok done
  dsimp only at done
  split at done
  · cases done
  obtain ⟨_, _, ⟨⟩, done⟩ := Operation.bind_eq_ok done
  obtain ⟨_, _, ⟨⟩, done⟩ := Operation.bind_eq_ok done
  obtain ⟨back, done⟩ := StoreM.relink_eq_ok done
  obtain ⟨ahead, done⟩ := StoreM.relink_eq_ok done
  obtain ⟨_, _, ⟨⟩, done⟩ := Operation.bind_eq_ok done
  obtain ⟨_, _, located, done⟩ := Operation.bind_eq_ok done
  obtain ⟨-, rfl⟩ := Operation.lift_eq_ok located
  split at done
  all_goals
    cases done
    exact (Memory.Writes.refl.relink ahead).relink back

/-- A block at a multiple of eight joins a list: links are written, and they are offsets of such blocks. -/
theorem insert_writes (done : insert span b s = .ok u t) (aligned : b % 8 = 0) :
    s.memory.Writes marks data t.memory := by
  have base := span.base_aligned
  obtain ⟨_, _, ⟨⟩, done⟩ := Operation.bind_eq_ok done
  dsimp only at done
  split at done
  · cases done
  obtain ⟨offset, _, located, done⟩ := Operation.bind_eq_ok done
  obtain ⟨place, rfl⟩ := Operation.lift_eq_ok located
  obtain ⟨inside, rfl⟩ := Span.offsetOf_eq_ok_iff.mp place
  obtain ⟨low, -⟩ := Span.contains_iff.mp inside
  obtain ⟨_, _, ⟨⟩, done⟩ := Operation.bind_eq_ok done
  obtain ⟨_, _, wrote, done⟩ := Operation.bind_eq_ok done
  obtain rfl := StoreM.setLink_eq_ok wrote
  obtain ⟨_, _, wrote', done⟩ := Operation.bind_eq_ok done
  obtain rfl := StoreM.setLink_eq_ok wrote'
  obtain ⟨front, done⟩ := StoreM.relink_eq_ok done
  cases done
  have own : s.memory.Writes marks data (s.memory.setLink b .previous 0) := .setLink .refl b .previous rfl
  exact (own.setLink b .next front).relink (by omega)

end FreeList

namespace StoreM

variable {marks data : Nat → Prop} {span : Span} {b extra wanted : Nat} {s t : Store} {u : Unit} {r : Nat}

theorem writeFooter_writes (done : writeFooter b s = .ok u t) : s.memory.Writes marks data t.memory := by
  obtain rfl := writeFooter_eq_ok done
  exact .setTag .refl _ _ nofun

/-- A block that is enlarged keeps its state. -/
theorem enlarge_writes (done : enlarge b extra s = .ok u t) : s.memory.Writes marks data t.memory := by
  obtain ⟨_, _, ⟨⟩, done⟩ := Operation.bind_eq_ok done
  obtain ⟨_, _, sum, done⟩ := Operation.bind_eq_ok done
  obtain ⟨-, rfl⟩ := Operation.lift_eq_ok sum
  obtain ⟨_, _, resized, done⟩ := Operation.bind_eq_ok done
  obtain ⟨made, rfl⟩ := Operation.lift_eq_ok resized
  obtain ⟨_, _, ⟨⟩, done⟩ := Operation.bind_eq_ok done
  obtain rfl := Tag.make_eq_ok made
  refine Memory.Writes.trans (.setTag .refl b _ ?_) (writeFooter_writes done)
  exact .inr

/-- Blocks are as far from each other as their sizes say, so neighbours are both at multiples of eight. -/
theorem aligned_following {m : Memory} (aligned : b % 8 = 0) : m.following b % 8 = 0 := by
  have sizes := m.tag_aligned b
  simp only [Memory.following, stepUp]
  omega

theorem aligned_preceding {m : Memory} (aligned : b % 8 = 0) (found : m.preceding b = .ok r) : r % 8 = 0 := by
  have sizes := m.tag_aligned (b - headerSize)
  unfold Memory.preceding at found
  split at found <;> cases found
  simp only [stepDown]
  omega

theorem mergePreceding_writes (done : mergePreceding span b s = .ok r t) (aligned : b % 8 = 0) :
    s.memory.Writes marks data t.memory ∧ r % 8 = 0 := by
  obtain ⟨_, _, ⟨⟩, done⟩ := Operation.bind_eq_ok done
  split at done
  · cases done
    exact ⟨.refl, aligned⟩
  obtain ⟨before, _, found, done⟩ := Operation.bind_eq_ok done
  obtain ⟨_, _, ⟨⟩, found⟩ := Operation.bind_eq_ok found
  obtain ⟨place, rfl⟩ := Operation.lift_eq_ok found
  obtain ⟨_, _, left, done⟩ := Operation.bind_eq_ok done
  obtain ⟨_, _, ⟨⟩, done⟩ := Operation.bind_eq_ok done
  obtain ⟨_, _, enlarged, done⟩ := Operation.bind_eq_ok done
  cases done
  exact ⟨(FreeList.remove_writes left).trans (enlarge_writes enlarged), aligned_preceding aligned place⟩

theorem mergeFollowing_writes (done : mergeFollowing span b s = .ok u t) : s.memory.Writes marks data t.memory := by
  obtain ⟨_, _, ⟨⟩, done⟩ := Operation.bind_eq_ok done
  obtain ⟨_, _, ⟨⟩, done⟩ := Operation.bind_eq_ok done
  split at done
  · cases done
    exact .refl
  obtain ⟨_, _, left, done⟩ := Operation.bind_eq_ok done
  obtain ⟨_, _, ⟨⟩, done⟩ := Operation.bind_eq_ok done
  obtain ⟨_, _, ⟨⟩, done⟩ := Operation.bind_eq_ok done
  obtain ⟨_, _, enlarged, done⟩ := Operation.bind_eq_ok done
  cases done
  exact ((FreeList.remove_writes left).trans (enlarge_writes enlarged)).setPredecessorAllocated _ false

/-- Taking back a block at a multiple of eight writes its tag as that of a free block, and then marks no block. -/
theorem release_writes (done : release span b s = .ok r t) (aligned : b % 8 = 0) :
    (s.memory.setTag b ((s.memory.tag b).withAllocated false)).Writes marks data t.memory := by
  obtain ⟨_, _, ⟨⟩, done⟩ := Operation.bind_eq_ok done
  dsimp only at done
  split at done
  · cases done
  obtain ⟨_, _, ⟨⟩, done⟩ := Operation.bind_eq_ok done
  obtain ⟨_, _, footer, done⟩ := Operation.bind_eq_ok done
  obtain ⟨_, _, ⟨⟩, done⟩ := Operation.bind_eq_ok done
  obtain ⟨_, _, ⟨⟩, done⟩ := Operation.bind_eq_ok done
  obtain ⟨merged, _, before, done⟩ := Operation.bind_eq_ok done
  obtain ⟨joined, place⟩ := mergePreceding_writes before aligned
  obtain ⟨_, _, after, done⟩ := Operation.bind_eq_ok done
  obtain ⟨_, _, filed, done⟩ := Operation.bind_eq_ok done
  cases done
  exact ((((writeFooter_writes footer).setPredecessorAllocated _ false).trans joined).trans
    (mergeFollowing_writes after)).trans (FreeList.insert_writes filed place)

/-- Handing out a free block at a multiple of eight writes its tag and marks no other block. -/
theorem carve_writes (done : carve span b wanted s = .ok u t) (aligned : b % 8 = 0) (mark : marks b) :
    s.memory.Writes marks data t.memory ∧ t.memory.Tagged marks data True b := by
  obtain ⟨_, _, ⟨⟩, done⟩ := Operation.bind_eq_ok done
  dsimp only at done
  split at done
  · cases done
  split at done
  · cases done
  obtain ⟨_, _, left, done⟩ := Operation.bind_eq_ok done
  have unlinked : s.memory.Writes marks data _ := FreeList.remove_writes left
  obtain ⟨_, _, ⟨⟩, done⟩ := Operation.bind_eq_ok done
  obtain ⟨_, _, difference, done⟩ := Operation.bind_eq_ok done
  obtain ⟨-, rfl⟩ := Operation.lift_eq_ok difference
  split at done
  · obtain ⟨_, _, making, done⟩ := Operation.bind_eq_ok done
    obtain ⟨-, rfl⟩ := Operation.lift_eq_ok making
    obtain ⟨_, _, ⟨⟩, done⟩ := Operation.bind_eq_ok done
    obtain ⟨_, _, ⟨⟩, done⟩ := Operation.bind_eq_ok done
    obtain ⟨_, _, making, done⟩ := Operation.bind_eq_ok done
    obtain ⟨made, rfl⟩ := Operation.lift_eq_ok making
    obtain rfl := Tag.make_eq_ok made
    obtain ⟨_, _, ⟨⟩, done⟩ := Operation.bind_eq_ok done
    obtain ⟨_, _, footer, done⟩ := Operation.bind_eq_ok done
    have filed : Memory.Writes marks data _ t.memory :=
      (writeFooter_writes footer).trans (FreeList.insert_writes done (aligned_following aligned))
    -- The rest is free.
    have later := Memory.Writes.trans (.setTag .refl _ _ fun taken => by cases taken) filed
    exact ⟨(unlinked.setTag b _ fun _ => .inl mark).trans later, (Memory.tagged_setTag fun _ => trivial).trans later⟩
  · obtain ⟨_, _, ⟨⟩, done⟩ := Operation.bind_eq_ok done
    obtain ⟨_, _, ⟨⟩, done⟩ := Operation.bind_eq_ok done
    cases done
    exact ⟨(unlinked.setTag b _ fun _ => .inl mark).setPredecessorAllocated _ true,
      (Memory.tagged_setTag fun _ => trivial).trans (Memory.Writes.refl.setPredecessorAllocated _ true)⟩

end StoreM

/-! ## Requests -/

variable {σ : Type} {marks data : Nat → Prop} {s t u : HeapState σ} {a b p wanted size : Nat} {r : Request}
  {answer answer' taken taken' : Option Nat} {v : Unit}

theorem HeapState.Untouched.writes (h : s.Untouched t) : s.memory.Writes marks data t.memory := by
  have same : t.memory = s.memory := congrArg Store.memory h.store
  rw [same]
  exact .refl

/-- What an operation that takes a pointer back and answers one has written: the tags of their blocks, and that of the epilogue
when it has moved, among other words. -/
structure HeapState.Effects (marks data : Nat → Prop) (s t : HeapState σ) (taken answer : Option Nat) : Prop where
  writes : s.memory.Writes marks data t.memory
  taken : ∀ b, taken = some (payloadOf b) → t.memory.Tagged marks data False b
  answer : ∀ b, answer = some (payloadOf b) → t.memory.Tagged marks data True b
  epilogue : t.span = s.span ∨ t.memory.Tagged marks data True t.span.epilogue

namespace HeapState

/-- No block changes hands, and the epilogue stays where it is. -/
theorem effects_of_writes (writes : s.memory.Writes marks data t.memory) (span : t.span = s.span) :
    s.Effects marks data t none none := ⟨writes, nofun, nofun, .inl span⟩

theorem Untouched.effects (h : s.Untouched t) : s.Effects marks data t none none := effects_of_writes h.writes h.span

/-- Bytes are written. -/
theorem setBytes_effects (s : HeapState σ) {vs : List UInt8} (inside : ∀ i, a ≤ i → i < a + vs.length → data i) :
    s.Effects marks data { s with memory := s.memory.setBytes a vs } none none :=
  effects_of_writes (.setBytes .refl _ _ inside) rfl

/-- A block is made, and the epilogue stands behind it. -/
theorem effects_of_grown {m : Memory} {tag : Tag} (before : s.memory.Writes marks data m) (mark : marks b)
    (last : marks t.span.epilogue) (memory : t.memory = (m.setTag b tag).setTag t.span.epilogue ⟨0, true, true⟩) :
    s.Effects marks data t none (some (payloadOf b)) := by
  refine ⟨?_, nofun, ?_, .inr ?_⟩
  · rw [memory]
    exact (before.setTag b _ fun _ => .inl mark).setTag _ _ fun _ => .inl last
  · rintro _ ⟨⟩
    rw [memory]
    exact (Memory.tagged_setTag fun _ => trivial).trans (.setTag .refl _ _ fun _ => .inl last)
  · rw [memory]
    exact Memory.tagged_setTag fun _ => trivial

/-- What two operations, one after the other, have written. Of two pointers taken back or answered the first one is meant. -/
theorem Effects.trans (h : s.Effects marks data t taken answer) (h' : t.Effects marks data u taken' answer') :
    s.Effects marks data u (taken.or taken') (answer.or answer') := by
  refine ⟨h.writes.trans h'.writes, fun b some => ?_, fun b some => ?_, ?_⟩
  · rcases Option.or_eq_some_iff.mp some with first | ⟨-, second⟩
    · exact (h.taken b first).trans h'.writes
    · exact h'.taken b second
  · rcases Option.or_eq_some_iff.mp some with first | ⟨-, second⟩
    · exact (h.answer b first).trans h'.writes
    · exact h'.answer b second
  · rcases h'.epilogue with same | moved
    · rw [same]
      exact h.epilogue.imp_right fun moved => moved.trans h'.writes
    · exact .inr moved

end HeapState

namespace Heap

open HeapM

theorem releasePointer_effects [Backing σ] (done : releasePointer p s = .ok v t) :
    s.Effects marks data t (some p) none := by
  obtain ⟨whole, span, merged, released⟩ := releasePointer_eq_ok done
  have later : Memory.Writes marks data _ t.memory := StoreM.release_writes (t := t.store) released whole
  refine ⟨Memory.Writes.trans (.setTag .refl _ _ fun free => by cases free) later, ?_, nofun, .inl span⟩
  rintro b ⟨⟩
  rw [payloadOf, Nat.add_sub_cancel] at later
  exact (Memory.tagged_setTag fun free => by cases free).trans later

variable [Backing σ] (marked : ∀ b, answer = some (payloadOf b) → marks b) (last : marks t.span.epilogue)
  (aligned : ∀ q ∈ answer, q % 8 = 0)

include marked last aligned

/-- A block is obtained from a list or by growth. -/
theorem obtain_effects (done : obtain wanted s = .ok (some b) t) (answered : answer = some (payloadOf b)) :
    s.Effects marks data t none answer := by
  have mark := marked b answered
  have place := aligned _ answered
  subst answered
  simp only [payloadOf, headerSize] at place
  rcases obtain_eq_ok done with ⟨-, carved, same⟩ | ⟨-, enlarged | ⟨w, tried, appended⟩⟩
  · have written : s.memory.Writes marks data t.memory ∧ t.memory.Tagged marks data True b :=
      StoreM.carve_writes (t := t.store) carved (by omega) mark
    refine ⟨written.1, by simp, ?_, .inl same⟩
    rintro _ ⟨⟩
    exact written.2
  · obtain ⟨-, -, -, w, left, store⟩ := extendTrailing_eq_ok enlarged
    exact HeapState.effects_of_grown (FreeList.remove_writes left) mark last (congrArg Store.memory store)
  · obtain ⟨rfl, -, store⟩ := append_eq_ok appended
    exact HeapState.effects_of_grown tried.writes mark last (congrArg Store.memory store)

theorem allocate_effects (done : allocate size s = .ok answer t) : s.Effects marks data t none answer := by
  cases answer with
  | none => exact (allocate_cautious _ _ _ done).effects
  | some q =>
    obtain ⟨wanted, b, w, -, rfl, obtained, after⟩ := allocate_eq_ok done
    rw [after.span] at last
    simpa using (obtain_effects marked last aligned obtained rfl).trans after.effects

theorem allocateZeroed_effects {count : Nat} (done : allocateZeroed count size s = .ok answer t)
    (inside : ∀ q ∈ answer, ∀ i, q ≤ i → i < q + count * size → data i) : s.Effects marks data t none answer := by
  cases answer with
  | none => exact (allocateZeroed_cautious _ _ _ _ done).effects
  | some q =>
    obtain ⟨w, allocated, rfl⟩ := allocateZeroed_eq_ok done
    have granted : s.Effects marks data w none (some q) := allocate_effects marked last aligned allocated
    simpa using granted.trans (w.setBytes_effects (by simpa using inside q rfl))

theorem resize_effects (done : resize (some p) (size + 1) s = .ok answer t)
    (inside : ∀ q ∈ answer, ∀ i, q ≤ i → i < q + (size + 1) → data i) :
    s.Effects marks data t (if answer.isSome then some p else none) answer := by
  cases answer with
  | none => exact (resize_cautious _ _ (.inr (Nat.succ_ne_zero size)) _ _ done).effects
  | some q =>
    obtain ⟨usable, w, x, y, looked, allocated, released, after⟩ := resize_eq_ok done
    have untouched := usableSize_inert p _ _ _ looked
    obtain ⟨-, span, -⟩ := releasePointer_eq_ok released
    rw [after.span, span] at last
    have granted : w.Effects marks data x none (some q) := allocate_effects marked last aligned allocated
    have fits : ∀ i, q ≤ i → i < q + (x.memory.bytes p (min usable (size + 1))).length → data i := by
      intro i low high
      simp only [Memory.bytes, List.length_map, List.length_range'] at high
      exact inside q rfl i low (by omega)
    have copied := granted.trans (x.setBytes_effects fits)
    simpa using ((untouched.effects.trans copied).trans (releasePointer_effects released)).trans after.effects

/-- A request writes into the bytes that it asks for, and marks no block but the one that is answered and the epilogue. -/
theorem serve_effects (done : serve r s = .ok answer t) (inside : ∀ q ∈ answer, ∀ i, q ≤ i → i < q + r.room → data i) :
    s.Effects marks data t (r.consumed answer) answer := by
  cases r with
  | allocate size => exact allocate_effects marked last aligned done
  | allocateZeroed count size => exact allocateZeroed_effects marked last aligned done inside
  | release pointer =>
    obtain ⟨_, _, released, done⟩ := Operation.bind_eq_ok done
    cases done
    cases pointer with
    | none =>
      cases released
      exact HeapState.effects_of_writes .refl rfl
    | some p => exact releasePointer_effects released
  | resize pointer size =>
    cases pointer with
    | none =>
      have granted : s.Effects marks data t none answer := allocate_effects marked last aligned done
      cases size <;> simpa [Request.consumed] using granted
    | some p =>
      cases size with
      | zero =>
        obtain ⟨_, _, released, done⟩ := Operation.bind_eq_ok done
        cases done
        exact releasePointer_effects released
      | succ size => exact resize_effects marked last aligned done inside

end Heap

end SegregatedFit
