import SegregatedFit.Proofs.SelfCheck

/-!
# Operations read backwards

What an operation on a heap wrote, read off from its having come to an end with an answer: nothing is assumed of the heap. The
audits and the requests to the source write nothing, so a store after the operation is the store before it with the writes
named here.
-/

namespace SegregatedFit

variable {σ : Type}

theorem Span.grow_eq_ok {span span' : Span} {delta : Nat} (h : span.grow delta = .ok span') :
    span'.base = span.base ∧ span'.epilogueOffset = span.epilogueOffset + delta := by
  unfold grow at h
  split at h
  · split at h
    · cases h
      exact ⟨rfl, rfl⟩
    · cases h
  · cases h

theorem Tag.make_eq_ok {size : Nat} {allocated predecessor : Bool} {t : Tag} (h : make size allocated predecessor = .ok t) :
    t = ⟨size, allocated, predecessor⟩ := by
  unfold make at h
  split at h <;> cases h
  rfl

namespace StoreM

variable {α : Type} {b q : Nat} {l : Link} {s t : Store} {u : Unit} {r : α}

theorem setLink_eq_ok {offset : Nat} (done : setLink b l offset s = .ok u t) :
    t = { s with memory := s.memory.setLink b l offset } := by
  obtain ⟨tag, _, ⟨⟩, done⟩ := Operation.bind_eq_ok done
  split at done
  · cases done
  · cases done
    rfl

theorem writeFooter_eq_ok (done : writeFooter b s = .ok u t) :
    t = { s with
      memory := s.memory.setTag (Memory.footerAddress b (s.memory.tag b).size)
        { size := (s.memory.tag b).size, allocated := false, predecessorAllocated := false } } := by
  obtain ⟨tag, _, ⟨⟩, done⟩ := Operation.bind_eq_ok done
  dsimp only at done
  split at done
  · cases done
  · cases done
    rfl

/-- A link that was written belongs to a block at a multiple of eight, and nothing was written when there is none. -/
theorem relink_eq_ok {span : Span} {v : Nat} {rest : Unit → StoreM α}
    (done : (if q ≠ 0 then (do
        let a ← liftM (span.blockAt q)
        let r ← setLink a l v
        rest r) else rest ()) s = .ok r t) :
    q % 8 = 0 ∧ rest () { s with memory := s.memory.relink span.base q l v } = .ok r t := by
  by_cases null : q = 0
  · subst null
    exact ⟨rfl, done⟩
  · rw [if_pos null] at done
    obtain ⟨a, _, located, done⟩ := Operation.bind_eq_ok done
    obtain ⟨place, rfl⟩ := Operation.lift_eq_ok located
    obtain ⟨⟨-, -, aligned⟩, rfl⟩ := Span.blockAt_eq_ok_iff.mp place
    obtain ⟨_, _, wrote, done⟩ := Operation.bind_eq_ok done
    obtain rfl := setLink_eq_ok wrote
    refine ⟨aligned, ?_⟩
    rw [Memory.relink, if_neg null]
    exact done

end StoreM

namespace Heap

open HeapM

variable {s t : HeapState σ} {b delta wanted size p q : Nat} {u : Unit}

theorem moveEpilogue_eq_ok (done : moveEpilogue delta s = .ok u t) :
    s.span.grow delta = .ok t.span ∧ t.store = ⟨s.memory.setTag t.span.epilogue ⟨0, true, true⟩, s.heads⟩ := by
  obtain ⟨_, _, ⟨⟩, done⟩ := Operation.bind_eq_ok done
  obtain ⟨span, _, growing, done⟩ := Operation.bind_eq_ok done
  obtain ⟨grown, rfl⟩ := Operation.lift_eq_ok growing
  obtain ⟨_, _, ⟨⟩, done⟩ := Operation.bind_eq_ok done
  obtain ⟨_, wrote, rfl⟩ := onStore_eq_ok done
  cases wrote
  exact ⟨grown, rfl⟩

variable [Backing σ]

/-- A block that was appended stands where the epilogue stood. -/
theorem append_eq_ok (done : append wanted s = .ok (some b) t) : b = s.span.epilogue ∧ s.span.grow wanted = .ok t.span ∧
    t.store = ⟨(s.memory.setTag s.span.epilogue
      ⟨wanted, true, (s.memory.tag s.span.epilogue).predecessorAllocated⟩).setTag t.span.epilogue ⟨0, true, true⟩,
      s.heads⟩ := by
  obtain ⟨granted, v, asked, done⟩ := Operation.bind_eq_ok done
  have inert := requestGrowth_inert _ _ _ _ asked
  split at done
  · obtain ⟨_, _, ⟨⟩, done⟩ := Operation.bind_eq_ok done
    obtain ⟨_, _, made, done⟩ := Operation.bind_eq_ok done
    obtain ⟨_, _, moved, done⟩ := Operation.bind_eq_ok done
    cases done
    obtain ⟨_, wrote, rfl⟩ := onStore_eq_ok made
    obtain ⟨_, _, ⟨⟩, wrote⟩ := Operation.bind_eq_ok wrote
    obtain ⟨_, _, making, wrote⟩ := Operation.bind_eq_ok wrote
    obtain ⟨made, rfl⟩ := Operation.lift_eq_ok making
    obtain rfl := Tag.make_eq_ok made
    cases wrote
    obtain ⟨grown, store⟩ := moveEpilogue_eq_ok moved
    have memory : v.store.memory = s.store.memory := by rw [inert.store]
    have heads : v.store.heads = s.store.heads := by rw [inert.store]
    simp only [HeapState.store, inert.span] at memory heads grown store ⊢
    rw [store, memory, heads]
    exact ⟨trivial, grown, rfl⟩
  · cases done

/-- A block that was enlarged was the last one and free; it has left its list. -/
theorem extendTrailing_eq_ok (done : extendTrailing wanted s = .ok (some b) t) :
    (s.memory.tag s.span.epilogue).predecessorAllocated = false ∧ s.memory.preceding s.span.epilogue = .ok b ∧
      s.span.grow (wanted - (s.memory.tag b).size) = .ok t.span ∧
      ∃ v, FreeList.remove s.span b s.store = .ok () v ∧
        t.store = ⟨(v.memory.setTag b ⟨wanted, true, (s.memory.tag b).predecessorAllocated⟩).setTag t.span.epilogue
          ⟨0, true, true⟩, v.heads⟩ := by
  obtain ⟨_, _, read, done⟩ := Operation.bind_eq_ok done
  cases read
  split at done
  · cases done
  next behind =>
  obtain ⟨last, _, read, done⟩ := Operation.bind_eq_ok done
  obtain ⟨_, looked, rfl⟩ := onStore_eq_ok read
  obtain ⟨_, _, ⟨⟩, looked⟩ := Operation.bind_eq_ok looked
  obtain ⟨found, rfl⟩ := Operation.lift_eq_ok looked
  obtain ⟨_, _, read, done⟩ := Operation.bind_eq_ok done
  cases read
  split at done
  · cases done
  obtain ⟨granted, v, asked, done⟩ := Operation.bind_eq_ok done
  have inert := requestGrowth_inert _ _ _ _ asked
  split at done
  · obtain ⟨_, _, made, done⟩ := Operation.bind_eq_ok done
    obtain ⟨_, _, moved, done⟩ := Operation.bind_eq_ok done
    cases done
    obtain ⟨_, wrote, rfl⟩ := onStore_eq_ok made
    obtain ⟨_, left, removed, wrote⟩ := Operation.bind_eq_ok wrote
    obtain ⟨_, _, making, wrote⟩ := Operation.bind_eq_ok wrote
    obtain ⟨made, rfl⟩ := Operation.lift_eq_ok making
    obtain rfl := Tag.make_eq_ok made
    cases wrote
    obtain ⟨grown, store⟩ := moveEpilogue_eq_ok moved
    rw [inert.span, inert.store] at removed
    simp only [inert.span] at grown
    exact ⟨Bool.eq_false_of_not_eq_true behind, found, grown, left, removed, store⟩
  · cases done

/-- A block that was obtained was found and carved, or the heap grew by it. -/
theorem obtain_eq_ok (done : obtain wanted s = .ok (some b) t) :
    (FreeList.bestFit s.store s.span wanted s.tuning.probeBudget = .ok (some b) ∧
        StoreM.carve s.span b wanted s.store = .ok () t.store ∧ t.span = s.span) ∨
      FreeList.bestFit s.store s.span wanted s.tuning.probeBudget = .ok none ∧
        (extendTrailing wanted s = .ok (some b) t ∨ ∃ v, s.Untouched v ∧ append wanted v = .ok (some b) t) := by
  obtain ⟨_, _, ⟨⟩, done⟩ := Operation.bind_eq_ok done
  obtain ⟨found, _, searching, done⟩ := Operation.bind_eq_ok done
  obtain ⟨search, rfl⟩ := Operation.lift_eq_ok searching
  cases found with
  | some block =>
    obtain ⟨_, _, carved, done⟩ := Operation.bind_eq_ok done
    cases done
    obtain ⟨_, run, rfl⟩ := onStore_eq_ok carved
    exact .inl ⟨search, run, rfl⟩
  | none =>
    obtain ⟨first, v, tried, done⟩ := Operation.bind_eq_ok done
    cases first with
    | some block =>
      cases done
      exact .inr ⟨search, .inl tried⟩
    | none => exact .inr ⟨search, .inr ⟨v, extendTrailing_cautious _ _ _ tried, done⟩⟩

/-- An allocation that has something to answer has obtained a block and writes no more. -/
theorem allocate_eq_ok (done : allocate size s = .ok (some q) t) : ∃ wanted b v, blockSizeFor size = some wanted ∧
    q = payloadOf b ∧ obtain wanted s = .ok (some b) v ∧ v.Untouched t := by
  cases fits : blockSizeFor size with
  | none =>
    simp only [allocate, fits] at done
    cases done
  | some wanted =>
    simp only [allocate, fits] at done
    obtain ⟨found, _, obtained, done⟩ := Operation.bind_eq_ok done
    cases found with
    | none => cases done
    | some block =>
      obtain ⟨tag, _, read, done⟩ := Operation.bind_eq_ok done
      obtain ⟨_, _, ⟨⟩, done⟩ := Operation.bind_eq_ok done
      obtain ⟨_, _, checked, done⟩ := Operation.bind_eq_ok done
      cases done
      obtain ⟨rfl, -⟩ := selfCheck_eq_ok checked
      have kept := Inert.tag (fun _ => block) _ _ _ read
      exact ⟨wanted, block, _, rfl, rfl, obtained, kept.store, kept.span, kept.tuning⟩

/-- An allocation that was set to zero was made and then written to. -/
theorem allocateZeroed_eq_ok {count : Nat} (done : allocateZeroed count size s = .ok (some q) t) :
    ∃ v, allocate (count * size) s = .ok (some q) v ∧
      t = { v with memory := v.memory.setBytes q (List.replicate (count * size) 0) } := by
  unfold allocateZeroed at done
  split at done
  · cases done
  obtain ⟨found, v, allocated, done⟩ := Operation.bind_eq_ok done
  cases found with
  | none => cases done
  | some p =>
    cases done
    exact ⟨v, allocated, rfl⟩

/-- An allocation that was moved got a new block, the bytes were copied into it, and the old block was taken back. -/
theorem resize_eq_ok (done : resize (some p) (size + 1) s = .ok (some q) t) :
    ∃ usable w v u, usableSize p s = .ok usable w ∧ allocate (size + 1) w = .ok (some q) v ∧
      releasePointer p { v with memory := v.memory.setBytes q (v.memory.bytes p (min usable (size + 1))) } = .ok () u ∧
      u.Untouched t := by
  obtain ⟨usable, w, looked, done⟩ := Operation.bind_eq_ok done
  obtain ⟨found, v, allocated, done⟩ := Operation.bind_eq_ok done
  cases found with
  | none => cases done
  | some moved =>
    obtain ⟨_, _, ⟨⟩, done⟩ := Operation.bind_eq_ok done
    obtain ⟨_, u, released, done⟩ := Operation.bind_eq_ok done
    obtain ⟨_, _, ⟨⟩, done⟩ := Operation.bind_eq_ok done
    cases done
    exact ⟨usable, w, v, u, looked, allocated, released, rfl, rfl, rfl⟩

/-- A release that comes to an end has taken back the block of its pointer and has not moved the span. -/
theorem releasePointer_eq_ok (done : releasePointer p s = .ok u t) : (p - headerSize) % 8 = 0 ∧ t.span = s.span ∧
    ∃ merged, StoreM.release s.span (p - headerSize) s.store = .ok merged t.store := by
  obtain ⟨_, _, ⟨⟩, done⟩ := Operation.bind_eq_ok done
  split at done
  · cases done
  obtain ⟨block, _, located, done⟩ := Operation.bind_eq_ok done
  obtain ⟨place, rfl⟩ := Operation.lift_eq_ok located
  obtain ⟨whole, rfl⟩ := blockOf_eq_ok_iff.mp place
  obtain ⟨merged, _, released, done⟩ := Operation.bind_eq_ok done
  obtain ⟨tag, _, read, done⟩ := Operation.bind_eq_ok done
  obtain ⟨_, _, ⟨⟩, checked⟩ := Operation.bind_eq_ok done
  obtain ⟨rfl, -⟩ := selfCheck_eq_ok checked
  have kept := Inert.tag (fun _ => merged) _ _ _ read
  obtain ⟨_, run, rfl⟩ := onStore_eq_ok released
  exact ⟨whole, kept.span, merged, run.trans (congrArg _ kept.store.symm)⟩

end Heap

end SegregatedFit
