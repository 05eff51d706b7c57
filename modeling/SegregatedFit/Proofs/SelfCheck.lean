import SegregatedFit.Proofs.Refusal
import SegregatedFit.Proofs.Session

/-!
# The audit after every request

Nothing here assumes that a heap is healthy: the memory, the heads and the source may be in any state.

The audit after a request looks and changes nothing, so what a heap does with it switched on it does in the same way with it
switched off (`HeapM.Transparent`). Not every request ends with it, though (`Request.audits`): a request that is answered with
nothing leaves early, and a block is set to zero after the audit of the allocation. What each kind of end leaves behind is
said by `Heap.Left`.
-/

namespace SegregatedFit

variable {σ α β : Type}

/-- The same heap with the audit after every request switched on or off. -/
def HeapState.withSelfCheck (s : HeapState σ) (flag : Bool) : HeapState σ :=
  { s with tuning := { s.tuning with selfCheck := flag } }

/-- Switching the audit to what it is changes nothing. -/
theorem HeapState.withSelfCheck_eq {s : HeapState σ} {flag : Bool} (same : s.tuning.selfCheck = flag) :
    s.withSelfCheck flag = s := by
  subst same
  rfl

/-- The operation keeps the tuning, and what it does with the audit after requests switched on it does in the same way with
the audit switched off. -/
def HeapM.Transparent (x : HeapM σ α) : Prop :=
  ∀ s a s', x s = .ok a s' → s'.tuning = s.tuning ∧ x (s.withSelfCheck false) = .ok a (s'.withSelfCheck false)

/-! ## Transparent steps -/

namespace HeapM.Transparent

variable {x : HeapM σ α}

theorem pure (a : α) : Transparent (pure a : HeapM σ α) := by
  rintro s _ _ ⟨⟩
  exact ⟨rfl, rfl⟩

theorem throw (f : Fault) : Transparent (throw f : HeapM σ α) := by
  rintro s _ _ ⟨⟩

theorem bind {f : α → HeapM σ β} (hx : Transparent x) (hf : ∀ a, Transparent (f a)) : Transparent (x >>= f) := by
  intro s b s' run
  obtain ⟨a, t, first, rest⟩ := Operation.bind_eq_ok run
  obtain ⟨same, first'⟩ := hx _ _ _ first
  obtain ⟨same', rest'⟩ := hf a _ _ _ rest
  refine ⟨same'.trans same, ?_⟩
  rw [Operation.bind_apply, first']
  exact rest'

theorem lift (x : Except Fault α) : Transparent (liftM x : HeapM σ α) := by
  cases x with
  | ok a => exact pure a
  | error f => exact throw f

/-- An operation that reads its state may go on in any transparent way that does not depend on the switch. -/
theorem get {f : HeapState σ → HeapM σ α} (blind : ∀ s, f (s.withSelfCheck false) = f s)
    (hf : ∀ s, Transparent (f s)) : Transparent (MonadStateOf.get >>= f) := by
  intro s a s' run
  obtain ⟨same, run'⟩ := hf s _ _ _ run
  refine ⟨same, ?_⟩
  rw [Operation.bind_apply]
  exact (congrFun (blind s) _).trans run'

/-- A change that neither sees nor moves the switch is transparent. -/
theorem modify {f : HeapState σ → HeapState σ} (tuning : ∀ s, (f s).tuning = s.tuning)
    (blind : ∀ s, f (s.withSelfCheck false) = (f s).withSelfCheck false) : Transparent (modify f) := by
  rintro s _ _ ⟨⟩
  refine ⟨tuning s, ?_⟩
  rw [Operation.modify_apply, blind]

theorem tell (r : Record) : Transparent (tell r : HeapM σ Unit) := modify (fun _ => rfl) fun _ => rfl

theorem modifyMemory (f : Memory → Memory) : Transparent (modifyMemory f : HeapM σ Unit) :=
  modify (fun _ => rfl) fun _ => rfl

theorem onStore (f : Span → StoreM α) : Transparent (onStore f : HeapM σ α) := by
  intro s a s' run
  obtain ⟨t, done, rfl⟩ := onStore_eq_ok run
  exact ⟨rfl, onStore_run (s := s.withSelfCheck false) done⟩

theorem extend [Backing σ] (n : Nat) : Transparent (extend n : HeapM σ (Option Nat)) := by
  rintro s _ _ ⟨⟩
  exact ⟨rfl, rfl⟩

end HeapM.Transparent

namespace Heap

open HeapM

variable [Backing σ] {s s' : HeapState σ}

/-- The audit after a request changes nothing when it comes to an end, and has passed then. -/
theorem selfCheck_eq_ok (done : selfCheck s = .ok () s') : s' = s ∧ (s.tuning.selfCheck = true → s.audit = .ok ()) := by
  simp only [selfCheck, Operation.bind_apply, Operation.get_apply] at done
  split at done
  · cases outcome : s.audit with
    | ok u =>
      rw [outcome] at done
      cases done
      exact ⟨rfl, fun _ => rfl⟩
    | error finding => cases finding <;> rw [outcome] at done <;> cases done
  · next off =>
    cases done
    exact ⟨rfl, fun on => absurd on off⟩

theorem selfCheck_transparent : Transparent (selfCheck : HeapM σ Unit) := by
  intro s _ s' done
  obtain ⟨rfl, -⟩ := selfCheck_eq_ok done
  exact ⟨rfl, rfl⟩

/-! ## Requests are transparent -/

theorem requestGrowth_transparent (delta : Nat) : Transparent (requestGrowth delta : HeapM σ Bool) := by
  refine .bind (.extend delta) fun start => ?_
  cases start with
  | none => exact .bind (.tell _) fun _ => .pure false
  | some start =>
    refine .get (fun _ => rfl) fun s => ?_
    dsimp only
    split
    · exact .bind (.tell _) fun _ => .pure false
    · exact .bind (.lift _) fun _ => .bind (.tell _) fun _ => .pure true

omit [Backing σ] in
theorem moveEpilogue_transparent (delta : Nat) : Transparent (moveEpilogue delta : HeapM σ Unit) :=
  .get (fun _ => rfl) fun _ => .bind (.lift _) fun _ => .bind (.modify (fun _ => rfl) fun _ => rfl) fun _ => .onStore _

theorem extendTrailing_transparent (wanted : Nat) : Transparent (extendTrailing wanted : HeapM σ (Option Nat)) := by
  refine .bind (.onStore _) fun epilogue => ?_
  split
  · exact .pure none
  refine .bind (.onStore _) fun last => .bind (.onStore _) fun tag => ?_
  split
  · exact .pure none
  refine .bind (requestGrowth_transparent _) fun granted => ?_
  split
  · exact .bind (.onStore _) fun _ => .bind (moveEpilogue_transparent _) fun _ => .pure (some last)
  · exact .pure none

theorem append_transparent (wanted : Nat) : Transparent (append wanted : HeapM σ (Option Nat)) := by
  refine .bind (requestGrowth_transparent _) fun granted => ?_
  split
  · exact .get (fun _ => rfl) fun s => .bind (.onStore _) fun _ => .bind (moveEpilogue_transparent _) fun _ => .pure _
  · exact .pure none

theorem grow_transparent (wanted : Nat) : Transparent (grow wanted : HeapM σ (Option Nat)) := by
  refine .bind (extendTrailing_transparent wanted) fun found => ?_
  cases found with
  | none => exact append_transparent wanted
  | some block => exact .pure (some block)

theorem obtain_transparent (wanted : Nat) : Transparent (obtain wanted : HeapM σ (Option Nat)) := by
  refine .get (fun _ => rfl) fun s => .bind (.lift _) fun found => ?_
  cases found with
  | none => exact grow_transparent wanted
  | some block => exact .bind (.onStore _) fun _ => .pure (some block)

theorem allocate_transparent (size : Nat) : Transparent (allocate size : HeapM σ (Option Nat)) := by
  unfold allocate
  split
  · exact .bind (.tell _) fun _ => .pure none
  refine .bind (obtain_transparent _) fun found => ?_
  cases found with
  | none => exact .bind (.tell _) fun _ => .pure none
  | some block =>
    exact .bind (.onStore _) fun _ => .bind (.tell _) fun _ => .bind selfCheck_transparent fun _ => .pure _

theorem releasePointer_transparent (pointer : Nat) : Transparent (releasePointer pointer : HeapM σ Unit) := by
  refine .get (fun _ => rfl) fun s => ?_
  split
  · exact .throw _
  · exact .bind (.lift _) fun _ => .bind (.onStore _) fun _ => .bind (.onStore _) fun _ => .bind (.tell _) fun _ =>
      selfCheck_transparent

omit [Backing σ] in
theorem usableSize_transparent (pointer : Nat) : Transparent (usableSize pointer : HeapM σ Nat) :=
  .bind (.lift _) fun _ => .get (fun _ => rfl) fun _ => .lift _

theorem resize_transparent (pointer : Option Nat) (size : Nat) :
    Transparent (resize pointer size : HeapM σ (Option Nat)) := by
  cases pointer with
  | none => simpa only [resize] using allocate_transparent size
  | some pointer =>
    cases size with
    | zero => exact .bind (releasePointer_transparent pointer) fun _ => .pure none
    | succ size =>
      refine .bind (usableSize_transparent pointer) fun _ => .bind (allocate_transparent _) fun answer => ?_
      cases answer with
      | none => exact .pure none
      | some moved =>
        exact .bind (.modifyMemory _) fun _ => .bind (releasePointer_transparent pointer) fun _ => .bind (.tell _) fun _ =>
          .pure (some moved)

theorem allocateZeroed_transparent (count size : Nat) :
    Transparent (allocateZeroed count size : HeapM σ (Option Nat)) := by
  unfold allocateZeroed
  split
  · exact .bind (.tell _) fun _ => .pure none
  refine .bind (allocate_transparent _) fun answer => ?_
  cases answer with
  | none => exact .pure none
  | some pointer => exact .bind (.modifyMemory _) fun _ => .pure (some pointer)

/-- A request is served in the same way with the audit switched off. -/
theorem serve_transparent (r : Request) : Transparent (serve r : HeapM σ (Option Nat)) := by
  cases r with
  | allocate size => exact allocate_transparent size
  | allocateZeroed count size => exact allocateZeroed_transparent count size
  | release pointer =>
    cases pointer with
    | none => exact .bind (.pure ()) fun _ => .pure none
    | some pointer => exact .bind (releasePointer_transparent pointer) fun _ => .pure none
  | resize pointer size => exact resize_transparent pointer size

/-- A heap is made in the same way with the audit switched on or off. -/
theorem create_withSelfCheck {tuning : Tuning} {site site' : Site σ} {heap : Heap σ}
    (made : create tuning site = .ok heap site') (flag : Bool) :
    create { tuning with selfCheck := flag } site =
      .ok { heap with tuning := { heap.tuning with selfCheck := flag } } site' := by
  by_cases zero : tuning.probeBudget = 0
  · have invalid : tuning.validate = .error _ := if_pos zero
    simp only [create, invalid] at made
    cases made
  have valid : tuning.validate = .ok tuning := if_neg zero
  have valid' : Tuning.validate { tuning with selfCheck := flag } = .ok { tuning with selfCheck := flag } := if_neg zero
  simp only [create, valid] at made
  obtain ⟨span, t, formatted, made⟩ := Operation.bind_eq_ok made
  cases made
  simp only [create, valid', Operation.bind_apply, formatted]
  rfl

end Heap

/-! ## What a request leaves behind -/

/-- Whether a request that was answered so has ended with the audit. -/
def Request.audits : Request → Option Nat → Bool
  | .allocate _, answer => answer.isSome
  | .allocateZeroed _ _, _ => false
  | .release pointer, _ => pointer.isSome
  | .resize (some _) 0, _ => true
  | .resize _ _, answer => answer.isSome

namespace Heap

variable [Backing σ] {s s' : HeapState σ} {r : Request} {answer : Option Nat}

/-- What a request leaves behind that was asked of `s` with the audit switched on: a heap that passes, where the request ends
with the audit; the heap as it was, where there is nothing to answer; and a heap that passed before the bytes answered were
set to zero. -/
structure Left (r : Request) (answer : Option Nat) (s s' : HeapState σ) : Prop where
  audited : r.audits answer = true → s'.audit = .ok ()
  untouched : r.audits answer = false → answer = none → s.Untouched s'
  zeroed : ∀ count size pointer, r = .allocateZeroed count size → answer = some pointer →
    ∃ m, { s' with memory := m }.audit = .ok () ∧ s'.memory = m.zeroBytes pointer (count * size)

theorem releasePointer_audits {pointer : Nat} (on : s.tuning.selfCheck = true)
    (done : releasePointer pointer s = .ok () s') : s'.audit = .ok () := by
  obtain ⟨same, -⟩ := releasePointer_transparent pointer s _ _ done
  obtain ⟨_, _, ⟨⟩, done⟩ := Operation.bind_eq_ok done
  by_cases outside : s.span.contains pointer = false
  · rw [if_pos outside] at done
    cases done
  rw [if_neg outside] at done
  obtain ⟨_, _, -, done⟩ := Operation.bind_eq_ok done
  obtain ⟨_, _, -, done⟩ := Operation.bind_eq_ok done
  obtain ⟨_, _, -, done⟩ := Operation.bind_eq_ok done
  obtain ⟨_, _, -, done⟩ := Operation.bind_eq_ok done
  obtain ⟨rfl, passed⟩ := selfCheck_eq_ok done
  exact passed (same ▸ on)

theorem allocate_audits {size p : Nat} (on : s.tuning.selfCheck = true)
    (done : allocate size s = .ok (some p) s') : s'.audit = .ok () := by
  obtain ⟨same, -⟩ := allocate_transparent size s _ _ done
  cases fits : blockSizeFor size with
  | none =>
    simp only [allocate, fits] at done
    cases done
  | some wanted =>
    simp only [allocate, fits] at done
    obtain ⟨found, _, -, done⟩ := Operation.bind_eq_ok done
    cases found with
    | none => cases done
    | some block =>
      obtain ⟨_, _, -, done⟩ := Operation.bind_eq_ok done
      obtain ⟨_, _, -, done⟩ := Operation.bind_eq_ok done
      obtain ⟨_, _, checked, ⟨⟩⟩ := Operation.bind_eq_ok done
      obtain ⟨rfl, passed⟩ := selfCheck_eq_ok checked
      exact passed (same ▸ on)

theorem resize_audits {pointer size p : Nat} (on : s.tuning.selfCheck = true)
    (done : resize (some pointer) (size + 1) s = .ok (some p) s') : s'.audit = .ok () := by
  obtain ⟨_, _, looked, done⟩ := Operation.bind_eq_ok done
  obtain ⟨found, _, allocated, done⟩ := Operation.bind_eq_ok done
  have same := (usableSize_inert pointer _ _ _ looked).tuning
  have same' := (allocate_transparent _ _ _ _ allocated).1
  cases found with
  | none => cases done
  | some moved =>
    obtain ⟨_, _, ⟨⟩, done⟩ := Operation.bind_eq_ok done
    obtain ⟨_, _, back, ⟨⟩⟩ := Operation.bind_eq_ok done
    have passed := releasePointer_audits (by exact (congrArg Tuning.selfCheck (same'.trans same)).trans on) back
    exact passed

theorem allocateZeroed_audits {count size p : Nat} (on : s.tuning.selfCheck = true)
    (done : allocateZeroed count size s = .ok (some p) s') :
    ∃ m, { s' with memory := m }.audit = .ok () ∧ s'.memory = m.zeroBytes p (count * size) := by
  unfold allocateZeroed at done
  split at done
  · cases done
  obtain ⟨found, t, allocated, done⟩ := Operation.bind_eq_ok done
  cases found with
  | none => cases done
  | some pointer =>
    cases done
    exact ⟨t.memory, allocate_audits on allocated, rfl⟩

/-- Every request that comes to an end leaves one of these behind, whatever state the heap was in. -/
theorem left_of_serve (on : s.tuning.selfCheck = true) (done : serve r s = .ok answer s') : Left r answer s s' := by
  cases r with
  | allocate size =>
    refine ⟨fun given => ?_, fun _ refused => allocate_cautious size s s' (refused ▸ done), by simp⟩
    obtain ⟨p, rfl⟩ := Option.isSome_iff_exists.mp given
    exact allocate_audits on done
  | allocateZeroed count size =>
    refine ⟨by simp [Request.audits], fun _ refused => allocateZeroed_cautious count size s s' (refused ▸ done), ?_⟩
    rintro _ _ p ⟨⟩ rfl
    exact allocateZeroed_audits on done
  | release pointer =>
    cases pointer with
    | none =>
      cases done
      exact ⟨by simp [Request.audits], fun _ _ => .refl s, by simp⟩
    | some pointer =>
      obtain ⟨_, _, back, ⟨⟩⟩ := Operation.bind_eq_ok done
      exact ⟨fun _ => releasePointer_audits on back, by simp [Request.audits], by simp⟩
  | resize pointer size =>
    cases pointer with
    | none =>
      simp only [serve, resize] at done
      refine ⟨fun given => ?_, fun _ refused => allocate_cautious size s s' (refused ▸ done), by simp⟩
      obtain ⟨p, rfl⟩ := Option.isSome_iff_exists.mp (by simpa [Request.audits] using given)
      exact allocate_audits on done
    | some pointer =>
      cases size with
      | zero =>
        obtain ⟨_, _, back, ⟨⟩⟩ := Operation.bind_eq_ok done
        exact ⟨fun _ => releasePointer_audits on back, by simp [Request.audits], by simp⟩
      | succ size =>
        refine ⟨fun given => ?_, fun _ refused => ?_, by simp⟩
        · obtain ⟨p, rfl⟩ := Option.isSome_iff_exists.mp given
          exact resize_audits on done
        · exact resize_cautious (some pointer) (size + 1) (.inr (Nat.succ_ne_zero size)) s s' (refused ▸ done)

/-- An allocation on a heap just made ends with the audit. -/
theorem left_reserve : ∃ s s' : HeapState Reserve, s.tuning.selfCheck = true ∧
    serve (.allocate 20) s = .ok (some 4144) s' ∧ s'.audit = .ok () := by
  have made : create {} (Reserve.site 4104 200 UInt64.ofNat) = .ok _ _ := rfl
  obtain ⟨-, -, -, -, -, healthy⟩ := create_run (C := Reserve.contract) ⟨by decide, by decide⟩ made
  obtain ⟨grant, s', run, -⟩ := healthy.serve_run (r := .allocate 20) (by intro _ h; cases h)
  -- Without the audit the request can be evaluated, and it is answered in the same way.
  obtain ⟨-, unchecked⟩ := serve_transparent _ _ _ _ run
  obtain ⟨answer, -⟩ := EStateM.Result.ok.inj (unchecked.symm.trans (b := .ok (some 4144) _) rfl)
  rw [answer] at run
  exact ⟨_, s', rfl, run, (left_of_serve rfl run).audited rfl⟩

/-- Not every request ends with the audit: one that is too large is refused on a heap whose prologue was written over. -/
theorem unaudited_refusal : ¬ ∀ (s s' : HeapState Reserve) (r : Request) (answer : Option Nat),
    s.tuning.selfCheck = true → r ≠ .release none → serve r s = .ok answer s' → s'.audit = .ok () := by
  intro always
  obtain ⟨heap, site, s', -, on, refused, broken⟩ : ∃ (heap : Heap Reserve) (site : Site Reserve) (s' : HeapState Reserve),
      create {} (Reserve.site 4104 200 UInt64.ofNat) = .ok heap site ∧ heap.tuning.selfCheck = true ∧
      serve (.allocate 0xffff_ffff_ffff_ffff) { heap.at site with memory := site.memory.setWord heap.span.prologue 0 } =
        .ok none s' ∧ s'.audit = .error (.violation (.damagedPrologue 4120)) := ⟨_, _, _, rfl, rfl, rfl, rfl⟩
  have passed := always _ _ _ _ on (by decide) refused
  rw [broken] at passed
  cases passed

end Heap

end SegregatedFit
