import SegregatedFit.Proofs.Inversion
import SegregatedFit.Proofs.Mirrored

/-!
# Two heaps that are asked for the same

Two heaps are paired when they hold the same layout and their spans hold the same words (`HeapState.Paired`). A request that
both answer alike, as offsets, changes both in step (`HeapState.Paired.serve`). What the sources did and how often they
were asked does not matter: the answer tells which block was handed out and so what was written.

What an operation wrote is read off from its coming to an end; where it wrote is known from the layout. A heap that is paired
with itself shows what a request leaves alone (`HeapState.Healthy.serve_outside`).
-/

namespace SegregatedFit

/-- The request whose pointers are given as distances from an address. -/
def Request.at (base : Nat) : Request → Request
  | .allocate size => .allocate size
  | .allocateZeroed count size => .allocateZeroed count size
  | .release pointer => .release (pointer.map (base + ·))
  | .resize pointer size => .resize (pointer.map (base + ·)) size

/-- Pointers that do not lie below an address are at some distance from it. -/
theorem Request.exists_at {base : Nat} {r : Request} (above : ∀ p ∈ r.pointer, base ≤ p) : ∃ q : Request, q.at base = r := by
  have shift : ∀ pointer : Option Nat, (∀ p ∈ pointer, base ≤ p) → (pointer.map (· - base)).map (base + ·) = pointer := by
    rintro (_ | p) above
    · rfl
    · simp only [Option.map_some, Nat.add_sub_cancel' (above p rfl)]
  cases r with
  | allocate size => exact ⟨.allocate size, rfl⟩
  | allocateZeroed count size => exact ⟨.allocateZeroed count size, rfl⟩
  | release pointer => exact ⟨.release (pointer.map (· - base)), congrArg Request.release (shift pointer above)⟩
  | resize pointer size =>
    exact ⟨.resize (pointer.map (· - base)) size, congrArg (Request.resize · size) (shift pointer above)⟩

@[simp] theorem Request.pointer_at (base : Nat) (r : Request) : (r.at base).pointer = r.pointer.map (base + ·) := by
  cases r <;> rfl

variable {σ τ : Type}

/-! ## What an answer tells -/

namespace Layout.Describes

variable {L : Layout} {s : Store} {span : Span} {wanted budget size : Nat} {grant grant' : Nat → Bool}

/-- The answer to a request for growth tells how the heap grew. -/
theorem grow_layout_eq (h : L.Describes s span) (same : (L.grow grant wanted).answer = (L.grow grant' wanted).answer) :
    (L.grow grant wanted).layout = (L.grow grant' wanted).layout := by
  have appended : ∀ given given', (L.appendIf given wanted).answer = (L.appendIf given' wanted).answer →
      (L.appendIf given wanted).layout = (L.appendIf given' wanted).layout := by
    rintro (_ | _) (_ | _) same <;> first | rfl | cases same
  cases short : L.shortLast wanted with
  | none =>
    simp only [Layout.grow, short] at same ⊢
    exact appended _ _ same
  | some y =>
    obtain ⟨last, -⟩ := Option.filter_eq_some_iff.mp short
    have bounds := h.laid.bounds (List.mem_of_getLast? last)
    have finish := h.finish_eq
    -- A block that was enlarged stands before the end of the heap, and one that was appended stands there.
    have elsewhere : ∀ given, (L.appendIf given wanted).answer ≠ some y.offset := by
      rintro (_ | _) here
      · cases here
      · have := Option.some.inj here
        omega
    simp only [Layout.grow, short] at same ⊢
    cases first : grant 0 <;> cases first' : grant' 0 <;>
      simp only [first, first', if_true, Bool.false_eq_true, if_false] at same ⊢
    · exact appended _ _ same
    · exact absurd same (elsewhere _)
    · exact absurd same.symm (elsewhere _)

/-- The answer of an allocation tells what became of the layout. -/
theorem allocate_layout_eq (h : L.Describes s span)
    (same : (L.allocate budget grant size).answer = (L.allocate budget grant' size).answer) :
    (L.allocate budget grant size).layout = (L.allocate budget grant' size).layout := by
  cases fits : blockSizeFor size with
  | none => simp only [Layout.allocate, fits]
  | some wanted =>
    simp only [Layout.allocate, fits] at same ⊢
    cases found : L.bestFit wanted budget with
    | some o => simp only [obtain, found]
    | none =>
      simp only [obtain, found] at same ⊢
      exact h.grow_layout_eq same

end Layout.Describes

/-! ## Growth in step -/

namespace HeapState

/-- Two heaps at work hold the same layout, and their spans hold the same words. -/
structure Paired (n : Nat) (s : HeapState σ) (s' : HeapState τ) (L : Layout) : Prop where
  left : L.Describes s.store s.span
  right : L.Describes s'.store s'.span
  budget : s'.tuning.probeBudget = s.tuning.probeBudget
  mirrored : Mirrored n s.span.base s'.span.base s.store s'.store

/-- Two heaps at work changed in step. -/
def InStep (n : Nat) (s : HeapState σ) (s' : HeapState τ) (t : HeapState σ) (t' : HeapState τ) : Prop :=
  SegregatedFit.InStep n s.span.base s'.span.base s.store s'.store t.store t'.store

variable {n p wanted size : Nat} {s t : HeapState σ} {s' t' : HeapState τ} {L : Layout}

theorem Paired.ends (h : Paired n s s' L) : s'.span.epilogueOffset = s.span.epilogueOffset :=
  h.right.finish_eq.symm.trans h.left.finish_eq

/-- Nothing was written. -/
theorem Paired.untouched (h : Paired n s s' L) (left : s.Untouched t) (right : s'.Untouched t') : s.InStep n s' t t' := by
  have same := h.mirrored.inStep
  rw [InStep, left.store, right.store]
  exact same

theorem Untouched.paired (h : Paired n s s' L) (left : s.Untouched t) (right : s'.Untouched t') : Paired n t t' L := by
  refine ⟨?_, ?_, ?_, ?_⟩
  · rw [left.store, left.span]
    exact h.left
  · rw [right.store, right.span]
    exact h.right
  · rw [left.tuning, right.tuning]
    exact h.budget
  · rw [left.store, left.span, right.store, right.span]
    exact h.mirrored

/-- Nothing was written before the heaps changed in step. -/
theorem InStep.of_untouched {u : HeapState σ} {u' : HeapState τ} (h : t.InStep n t' u u') (left : s.Untouched t)
    (right : s'.Untouched t') : s.InStep n s' u u' := by
  unfold InStep at h ⊢
  rwa [← left.span, ← right.span, ← left.store, ← right.store]

/-- Nothing was written after the heaps changed in step. -/
theorem InStep.untouched {u : HeapState σ} {u' : HeapState τ} (h : s.InStep n s' t t') (left : t.Untouched u)
    (right : t'.Untouched u') : s.InStep n s' u u' := by
  unfold InStep at h ⊢
  rwa [left.store, right.store]

theorem InStep.trans {u : HeapState σ} {u' : HeapState τ} (h : s.InStep n s' t t') (h' : t.InStep n t' u u')
    (base : t.span.base = s.span.base) (base' : t'.span.base = s'.span.base) : s.InStep n s' u u' := by
  unfold InStep at h h' ⊢
  rw [base, base'] at h'
  exact h.andThen fun _ => h'

variable [Backing σ] [Backing τ]

theorem Paired.append (h : Paired n s s' L) {b b' : Nat} (done : Heap.append wanted s = .ok (some b) t)
    (done' : Heap.append wanted s' = .ok (some b') t') (fits : t.span.length ≤ n) : s.InStep n s' t t' := by
  obtain ⟨-, grown, store⟩ := Heap.append_eq_ok done
  obtain ⟨-, grown', store'⟩ := Heap.append_eq_ok done'
  obtain ⟨base, ends⟩ := Span.grow_eq_ok grown
  obtain ⟨base', ends'⟩ := Span.grow_eq_ok grown'
  have aligned := s.span.epilogueOffset_aligned
  simp only [Span.length, headerSize] at fits
  have tag := h.mirrored.tag (o := s.span.epilogueOffset) (by omega) (by omega)
  rw [InStep, store, store']
  unfold Span.epilogue
  rw [base, base', ends', h.ends, ends]
  simp only [HeapState.store] at tag
  rw [tag]
  exact (h.mirrored.setTag (by omega) _).andThen fun m => m.setTag (by omega) _

omit [Backing τ] in
/-- The block that was enlarged is the last one of the layout. -/
theorem extendTrailing_enlarged (d : L.Describes s.store s.span) {b : Nat}
    (done : Heap.extendTrailing wanted s = .ok (some b) t) :
    ∃ y, L.blocks.getLast? = some y ∧ y.allocated = false ∧ b = s.span.base + y.offset ∧
      s.span.grow (wanted - y.size) = .ok t.span ∧
      t.store = ⟨((s.store.unlink s.span.base y.offset).memory.setTag (s.span.base + y.offset)
        ⟨wanted, true, lastState true L.blocks.dropLast⟩).setTag t.span.epilogue ⟨0, true, true⟩,
        (s.store.unlink s.span.base y.offset).heads⟩ := by
  obtain ⟨behind, found, grown, v, left, store⟩ := Heap.extendTrailing_eq_ok done
  have epilogue : s.memory.tag s.span.epilogue = ⟨0, true, lastState true L.blocks⟩ := d.laid.epilogue
  rw [epilogue] at behind
  rcases List.eq_nil_or_concat L.blocks with empty | ⟨before, y, split⟩
  · rw [empty] at behind
    cases behind
  rw [List.concat_eq_append] at split
  have arranged := d.arranged
  rw [split] at behind arranged
  have free : y.allocated = false := by simpa using behind
  obtain ⟨_, _, middle⟩ := Tiled.append_iff.mp arranged.laid.tiled
  obtain ⟨rfl, -, -, ends⟩ := Tiled.cons_iff.mp middle
  have ends : y.offset + y.size = s.span.epilogueOffset := ends
  have read := arranged.laid.preceding free
  rw [ends] at read
  obtain rfl := Except.ok.inj (found.symm.trans read)
  obtain ⟨tag, -⟩ := arranged.laid.around
  obtain ⟨run, -⟩ := arranged.remove free fun z hz => arranged.laid.tiled.offset_ne hz
  cases run.symm.trans left
  have tag : s.memory.tag (s.span.base + y.offset) = ⟨y.size, y.allocated, lastState true before⟩ := tag
  rw [tag] at grown store
  refine ⟨y, by simp [split], free, rfl, grown, ?_⟩
  rw [split, List.dropLast_concat]
  exact store

theorem Paired.extendTrailing (h : Paired n s s' L) {b b' : Nat} (done : Heap.extendTrailing wanted s = .ok (some b) t)
    (done' : Heap.extendTrailing wanted s' = .ok (some b') t') (fits : t.span.length ≤ n) : s.InStep n s' t t' := by
  obtain ⟨y, last, free, -, grown, store⟩ := extendTrailing_enlarged h.left done
  obtain ⟨y', last', -, -, grown', store'⟩ := extendTrailing_enlarged h.right done'
  obtain rfl := Option.some.inj (last.symm.trans last')
  obtain ⟨base, ends⟩ := Span.grow_eq_ok grown
  obtain ⟨base', ends'⟩ := Span.grow_eq_ok grown'
  have mem := List.mem_of_getLast? last
  have bounds := h.left.laid.bounds mem
  simp only [Span.length, headerSize] at fits
  rw [InStep, store, store']
  unfold Span.epilogue
  rw [base, base', ends', h.ends, ends]
  exact (h.mirrored.unlink h.left.arranged.listed (by omega) (h.left.files.mem mem free)).andThen fun m =>
    (m.setTag (by omega) _).andThen fun m => m.setTag (by omega) _

/-! ## Allocations in step -/

/-- Blocks that were obtained at the same offset were obtained in the same way. -/
theorem Paired.obtain (h : Paired n s s' L) (aligned : wanted % 16 = 0) (large : 32 ≤ wanted)
    (done : Heap.obtain wanted s = .ok (some (s.span.base + p)) t)
    (done' : Heap.obtain wanted s' = .ok (some (s'.span.base + p)) t') (fits : t.span.length ≤ n) : s.InStep n s' t t' := by
  have search := h.left.bestFit_run wanted s.tuning.probeBudget
  have search' := h.right.bestFit_run wanted s.tuning.probeBudget
  have done := Heap.obtain_eq_ok done
  have done' := Heap.obtain_eq_ok done'
  rw [h.budget] at done'
  rw [search] at done
  rw [search'] at done'
  cases found : L.bestFit wanted s.tuning.probeBudget with
  | some o =>
    rw [found] at done done'
    obtain ⟨x, hx, free, rfl, enough⟩ := h.left.bestFit_fits found
    obtain ⟨before, after, split⟩ := List.append_of_mem hx
    obtain ⟨same, carved, span⟩ := done.resolve_right fun grown => nomatch grown.1
    obtain ⟨same', carved', -⟩ := done'.resolve_right fun grown => nomatch grown.1
    obtain ⟨run, -⟩ := h.left.carve_run split free aligned large (by omega)
    obtain ⟨run', -⟩ := h.right.carve_run split free aligned large (by omega)
    obtain rfl : x.offset = p := by
      have same : some (s.span.base + x.offset) = some (s.span.base + p) := Except.ok.inj same
      have := Option.some.inj same
      omega
    have store := (EStateM.Result.ok.inj (run.symm.trans carved)).2
    have store' := (EStateM.Result.ok.inj (run'.symm.trans carved')).2
    rw [InStep, ← store, ← store']
    exact h.mirrored.carved h.left (span ▸ fits) split free aligned large
  | none =>
    rw [found] at done done'
    obtain ⟨-, grown⟩ := done.resolve_left fun carved => nomatch carved.1
    obtain ⟨-, grown'⟩ := done'.resolve_left fun carved => nomatch carved.1
    have ends := h.ends
    rcases grown with enlarged | ⟨v, tried, appended⟩ <;> rcases grown' with enlarged' | ⟨v', tried', appended'⟩
    · exact h.extendTrailing enlarged enlarged' fits
    · obtain ⟨y, last, -, place, -⟩ := extendTrailing_enlarged h.left enlarged
      obtain ⟨place', -⟩ := Heap.append_eq_ok appended'
      have bounds := h.left.laid.bounds (List.mem_of_getLast? last)
      rw [tried'.span] at place'
      simp only [Span.epilogue] at place'
      omega
    · obtain ⟨y, last, -, place, -⟩ := extendTrailing_enlarged h.right enlarged'
      obtain ⟨place', -⟩ := Heap.append_eq_ok appended
      have bounds := h.left.laid.bounds (List.mem_of_getLast? last)
      rw [tried.span] at place'
      simp only [Span.epilogue] at place'
      omega
    · exact ((tried.paired h tried').append appended appended' fits).of_untouched tried tried'

/-- Allocations with the same answer write the same. -/
theorem Paired.allocate (h : Paired n s s' L) {answer : Option Nat}
    (done : Heap.allocate size s = .ok (answer.map s.pointerTo) t)
    (done' : Heap.allocate size s' = .ok (answer.map s'.pointerTo) t') (fits : t.span.length ≤ n) : s.InStep n s' t t' := by
  cases answer with
  | none => exact h.untouched (Heap.allocate_cautious _ _ _ done) (Heap.allocate_cautious _ _ _ done')
  | some p =>
    obtain ⟨wanted, b, v, room, place, obtained, after⟩ := Heap.allocate_eq_ok done
    obtain ⟨wanted', b', v', room', place', obtained', after'⟩ := Heap.allocate_eq_ok done'
    cases room.symm.trans room'
    obtain ⟨aligned, large, -⟩ := blockSizeFor_bounds room
    obtain rfl : s.span.base + p = b := Nat.add_right_cancel place
    obtain rfl : s'.span.base + p = b' := Nat.add_right_cancel place'
    exact (h.obtain aligned large obtained obtained' (after.span ▸ fits)).untouched after after'

omit [Backing σ] in
theorem pointerTo_injective (s : HeapState σ) : Function.Injective s.pointerTo := by
  intro o p same
  simp only [pointerTo, payloadOf] at same
  omega

/-- Allocations with the same answer keep two heaps paired, and hand out a block with room for what was asked for. -/
theorem Paired.allocated {C : Contract σ} {D : Contract τ} (h : Paired n s s' L) (left : s.Healthy C L)
    (right : s'.Healthy D L) {o : Option Nat} (done : Heap.allocate size s = .ok (o.map s.pointerTo) t)
    (done' : Heap.allocate size s' = .ok (o.map s'.pointerTo) t') (fits : t.span.length ≤ n) :
    s.InStep n s' t t' ∧ t.span.base = s.span.base ∧ t'.span.base = s'.span.base ∧ ∃ M, Paired n t t' M ∧
      ∀ p ∈ o, (∃ b ∈ M.lent, b.offset = p ∧ size + 8 ≤ b.size) ∧ ∀ y ∈ L.lent, y ∈ M.lent := by
  have step := h.allocate done done' fits
  obtain ⟨grant, v, run, served⟩ := left.allocate_run size
  obtain ⟨grant', v', run', served'⟩ := right.allocate_run size
  obtain ⟨given, rfl⟩ := EStateM.Result.ok.inj (run.symm.trans done)
  obtain ⟨given', rfl⟩ := EStateM.Result.ok.inj (run'.symm.trans done')
  obtain rfl := Option.map_injective s.pointerTo_injective given
  have given' := Option.map_injective s'.pointerTo_injective given'
  rw [h.budget] at given' served'
  have same := h.left.allocate_layout_eq given'
  obtain ⟨wanted, room, hands⟩ := h.left.allocate_hands s.tuning.probeBudget size grant
  refine ⟨step, served.base, served'.base, _, ⟨served.healthy.describes, same ▸ served'.healthy.describes, ?_, ?_⟩, ?_⟩
  · rw [served.tuning, served'.tuning, h.budget]
  · have mirrored := step.mirrored
    rwa [← served.base, ← served'.base] at mirrored
  · intro p hp
    exact ⟨⟨_, (hands.lent_iff hp).mpr (.inr rfl), rfl, room⟩, fun y hy => (hands.lent_iff hp).mpr (.inl hy)⟩

/-! ## Bytes and releases in step -/

section

variable {x : Block}

omit [Backing σ] [Backing τ] in
/-- The same bytes are written into the payload of a block that is lent. -/
theorem Paired.setBytes (h : Paired n s s' L) (hx : x ∈ L.lent) (fits : s.span.length ≤ n) (i : Nat) (vs : List UInt8)
    (room : i + vs.length + 8 ≤ x.size) :
    s.InStep n s' { s with memory := s.memory.setBytes (s.pointerTo x.offset + i) vs }
        { s' with memory := s'.memory.setBytes (s'.pointerTo x.offset + i) vs } ∧
      Paired n { s with memory := s.memory.setBytes (s.pointerTo x.offset + i) vs }
        { s' with memory := s'.memory.setBytes (s'.pointerTo x.offset + i) vs } L := by
  have bounds := h.left.laid.bounds (Layout.mem_lent.mp hx).1
  have aligned := s.span.base_aligned
  have aligned' := s'.span.base_aligned
  have place : ∀ base, payloadOf (base + x.offset) + i = base + (x.offset + 8 + i) := by
    intro base
    simp only [payloadOf, headerSize]
    omega
  simp only [Span.length, headerSize] at fits
  have step : s.InStep n s' { s with memory := s.memory.setBytes (s.pointerTo x.offset + i) vs }
      { s' with memory := s'.memory.setBytes (s'.pointerTo x.offset + i) vs } := by
    unfold pointerTo
    rw [place, place]
    exact h.mirrored.setBytes (by omega) (by omega) (x.offset + x.size) (by omega) (by omega) (by omega)
  refine ⟨step, ?_, ?_, h.budget, step.mirrored⟩
  · exact (h.left.setBytes hx _ vs (Nat.le_add_right _ _) (by simp only [payloadOf, headerSize]; omega)).1
  · exact (h.right.setBytes hx _ vs (Nat.le_add_right _ _) (by simp only [payloadOf, headerSize]; omega)).1

omit [Backing σ] [Backing τ] in
/-- The payloads of a block that is lent hold the same bytes. -/
theorem Paired.bytes (h : Paired n s s' L) (hx : x ∈ L.lent) (fits : s.span.length ≤ n) (length : Nat)
    (room : length + 8 ≤ x.size) :
    s'.memory.bytes (s'.pointerTo x.offset) length = s.memory.bytes (s.pointerTo x.offset) length := by
  have bounds := h.left.laid.bounds (Layout.mem_lent.mp hx).1
  have aligned := s.span.base_aligned
  have aligned' := s'.span.base_aligned
  simp only [Span.length, headerSize] at fits
  simp only [pointerTo, payloadOf, headerSize, Nat.add_assoc]
  exact h.mirrored.bytes (by omega) (by omega) (x.offset + x.size) (by omega) (by omega) (by omega)

/-- The same block is taken back. -/
theorem Paired.releasePointer (h : Paired n s s' L) (hx : x ∈ L.lent) {u u' : Unit}
    (done : Heap.releasePointer (s.pointerTo x.offset) s = .ok u t)
    (done' : Heap.releasePointer (s'.pointerTo x.offset) s' = .ok u' t') (fits : t.span.length ≤ n) :
    s.InStep n s' t t' := by
  obtain ⟨mem, live⟩ := Layout.mem_lent.mp hx
  obtain ⟨before, after, split⟩ := List.append_of_mem mem
  obtain ⟨-, span, merged, released⟩ := Heap.releasePointer_eq_ok done
  obtain ⟨-, -, merged', released'⟩ := Heap.releasePointer_eq_ok done'
  obtain ⟨run, -⟩ := h.left.release_run split live
  obtain ⟨run', -⟩ := h.right.release_run split live
  have store := (EStateM.Result.ok.inj (run.symm.trans released)).2
  have store' := (EStateM.Result.ok.inj (run'.symm.trans released')).2
  rw [InStep, ← store, ← store']
  exact h.mirrored.released (h.left.hand split live) (span ▸ fits)

end

/-! ## Requests in step -/

section

variable {C : Contract σ} {D : Contract τ} (h : Paired n s s' L) (left : s.Healthy C L) (right : s'.Healthy D L)
  {answer : Option Nat}

include h left right

/-- Allocations that are set to zero write the same when they have the same answer. -/
theorem Paired.allocateZeroed {count : Nat} (done : Heap.allocateZeroed count size s = .ok (answer.map s.pointerTo) t)
    (done' : Heap.allocateZeroed count size s' = .ok (answer.map s'.pointerTo) t') (fits : t.span.length ≤ n) :
    s.InStep n s' t t' := by
  cases answer with
  | none => exact h.untouched (Heap.allocateZeroed_cautious _ _ _ _ done) (Heap.allocateZeroed_cautious _ _ _ _ done')
  | some p =>
    obtain ⟨v, allocated, rfl⟩ := Heap.allocateZeroed_eq_ok done
    obtain ⟨v', allocated', rfl⟩ := Heap.allocateZeroed_eq_ok done'
    obtain ⟨step, base, base', M, paired, hands⟩ := h.allocated left right (o := some p) allocated allocated' fits
    obtain ⟨⟨b, hb, rfl, room⟩, -⟩ := hands p rfl
    have zeroed := (paired.setBytes hb fits 0 (List.replicate (count * size) 0) (by rw [List.length_replicate]; omega)).1
    simp only [pointerTo, base, base', Nat.add_zero] at zeroed
    exact step.trans zeroed base base'

/-- Allocations that are moved to the same place leave the same behind. -/
theorem Paired.resize {x : Block} (hx : x ∈ L.lent)
    (done : Heap.resize (some (s.pointerTo x.offset)) (size + 1) s = .ok (answer.map s.pointerTo) t)
    (done' : Heap.resize (some (s'.pointerTo x.offset)) (size + 1) s' = .ok (answer.map s'.pointerTo) t')
    (fits : t.span.length ≤ n) : s.InStep n s' t t' := by
  cases answer with
  | none =>
    have moves : ∀ p : Nat, some p = none ∨ size + 1 ≠ 0 := fun _ => .inr (Nat.succ_ne_zero size)
    exact h.untouched (Heap.resize_cautious _ _ (moves _) _ _ done) (Heap.resize_cautious _ _ (moves _) _ _ done')
  | some p =>
    obtain ⟨usable, w, v, u, looked, allocated, released, after⟩ := Heap.resize_eq_ok done
    obtain ⟨usable', w', v', u', looked', allocated', released', after'⟩ := Heap.resize_eq_ok done'
    obtain ⟨rfl, rfl⟩ := EStateM.Result.ok.inj ((left.usableSize_run hx).symm.trans looked)
    obtain ⟨rfl, rfl⟩ := EStateM.Result.ok.inj ((right.usableSize_run hx).symm.trans looked')
    have bounds := h.left.laid.bounds (Layout.mem_lent.mp hx).1
    obtain ⟨-, span, -⟩ := Heap.releasePointer_eq_ok released
    have fits : v.span.length ≤ n := by
      rw [after.span, span] at fits
      exact fits
    obtain ⟨step, base, base', M, paired, hands⟩ := h.allocated left right (o := some p) allocated allocated' fits
    obtain ⟨⟨b, hb, rfl, room⟩, kept⟩ := hands p rfl
    have pointers : v.pointerTo = s.pointerTo := funext fun _ => by rw [pointerTo, pointerTo, base]
    have pointers' : v'.pointerTo = s'.pointerTo := funext fun _ => by rw [pointerTo, pointerTo, base']
    rw [← pointers] at released
    rw [← pointers'] at released'
    have copies := paired.bytes (kept x hx) fits (min (x.size - 8) (size + 1)) (by omega)
    rw [copies] at released'
    obtain ⟨copied, paired⟩ := paired.setBytes hb fits 0
      (v.memory.bytes (v.pointerTo x.offset) (min (x.size - 8) (size + 1)))
      (by simp only [Memory.bytes, List.length_map, List.length_range']; omega)
    have back := paired.releasePointer (kept x hx) released released' (by rw [span]; exact fits)
    exact ((step.trans copied base base').trans back base base').untouched after after'

/-- Two paired heaps that serve the same request alike change in step. -/
theorem Paired.serve {r : Request} (permits : L.Permits s.span.base (r.at s.span.base))
    (done : Heap.serve (r.at s.span.base) s = .ok (answer.map s.pointerTo) t)
    (done' : Heap.serve (r.at s'.span.base) s' = .ok (answer.map s'.pointerTo) t') (fits : t.span.length ≤ n) :
    s.InStep n s' t t' := by
  have named : ∀ p, s.span.base + p ∈ (r.at s.span.base).pointer →
      ∃ x ∈ L.lent, s.span.base + p = s.pointerTo x.offset ∧ s'.span.base + p = s'.pointerTo x.offset := by
    intro p hp
    obtain ⟨x, hx, same⟩ := permits _ hp
    refine ⟨x, hx, same.symm, ?_⟩
    simp only [pointerTo, payloadOf] at same ⊢
    omega
  have releases : ∀ {p : Nat} {u u' : Unit}, s.span.base + p ∈ (r.at s.span.base).pointer →
      Heap.releasePointer (s.span.base + p) s = .ok u t → Heap.releasePointer (s'.span.base + p) s' = .ok u' t' →
      s.InStep n s' t t' := by
    intro p u u' hp released released'
    obtain ⟨x, hx, place, place'⟩ := named p hp
    rw [place] at released
    rw [place'] at released'
    exact h.releasePointer hx released released' fits
  cases r with
  | allocate size => exact h.allocate done done' fits
  | allocateZeroed count size => exact h.allocateZeroed left right done done' fits
  | release pointer =>
    cases pointer with
    | none =>
      obtain ⟨-, rfl⟩ := EStateM.Result.ok.inj done
      obtain ⟨-, rfl⟩ := EStateM.Result.ok.inj done'
      exact h.untouched (.refl s) (.refl s')
    | some p =>
      obtain ⟨_, _, released, last⟩ := Operation.bind_eq_ok done
      obtain ⟨_, _, released', last'⟩ := Operation.bind_eq_ok done'
      obtain ⟨-, rfl⟩ := EStateM.Result.ok.inj last
      obtain ⟨-, rfl⟩ := EStateM.Result.ok.inj last'
      exact releases rfl released released'
  | resize pointer size =>
    cases pointer with
    | none => exact h.allocate done done' fits
    | some p =>
      cases size with
      | zero =>
        obtain ⟨_, _, released, last⟩ := Operation.bind_eq_ok done
        obtain ⟨_, _, released', last'⟩ := Operation.bind_eq_ok done'
        obtain ⟨-, rfl⟩ := EStateM.Result.ok.inj last
        obtain ⟨-, rfl⟩ := EStateM.Result.ok.inj last'
        exact releases rfl released released'
      | succ size =>
        obtain ⟨x, hx, place, place'⟩ := named p rfl
        simp only [Heap.serve, Request.at, Option.map_some, place, place'] at done done'
        exact h.resize left right hx done done' fits

end

/-- A request reads and writes words of the span only: the heap, paired with itself, shows what it leaves alone. -/
theorem Healthy.serve_outside {C : Contract σ} (h : s.Healthy C L) {r : Request} (permits : L.Permits s.span.base r)
    {answer : Option Nat} (done : Heap.serve r s = .ok answer t) {a : Nat}
    (outside : a < s.span.base ∨ t.span.finish ≤ a) : t.memory.word a = s.memory.word a := by
  obtain ⟨_, t', run, served, -⟩ := h.serve_run permits
  obtain ⟨rfl, rfl⟩ := EStateM.Result.ok.inj (run.symm.trans done)
  have above : ∀ p ∈ r.pointer, s.span.base ≤ p := by
    intro p hp
    obtain ⟨x, -, rfl⟩ := permits p hp
    simp only [payloadOf]
    omega
  obtain ⟨r, rfl⟩ := Request.exists_at above
  have paired : Paired t'.span.length s s L := ⟨h.describes, h.describes, rfl, .refl _ _ _⟩
  have base := served.base
  simp only [Span.finish] at outside
  exact (paired.serve h h permits run run (Nat.le_refl _)).outside a (by omega)

end HeapState

end SegregatedFit
