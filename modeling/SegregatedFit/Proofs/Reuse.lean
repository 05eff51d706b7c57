import SegregatedFit.Proofs.Absorption
import SegregatedFit.Proofs.Census
import SegregatedFit.Proofs.Tidiness

/-!
# A block that is taken back and handed out again

A block between two allocated ones is taken back alone, and it is the first block that a search for its size looks at. Handed
out again it leaves the layout as it was before both operations (`Layout.Surrounds.carve_release`), and most of the memory
follows from that: the heads, the links of the members and the tags are known from the layout, a tag down to its last bit
because it is a word that the heap has written (`Memory.Plain.word_eq`). What is left are words that neither operation writes,
and the links and the footer that a free block has in its payload (`Block.Spare`). So a client that releases a pointer and asks
for as much again gets the pointer back from a heap that is as it was (`Session.Reachable.release_allocate`).
-/

namespace SegregatedFit

/-! ## The layout -/

/-- A block that joins the lists and leaves them at once leaves them as they were. -/
theorem Lists.drop_push (ls : Lists) (b : Block) : (ls.push b).drop b = ls := by
  unfold drop push
  rw [Function.update_self, List.erase_cons_head, Function.update_idem, Function.update_eq_self]

namespace Layout

variable {L : Layout} {s t : Store} {span : Span} {before after : List Block} {x : Block} {budget : Nat}

/-- A block between allocated ones is taken back alone. -/
theorem Surrounds.release_alone (around : L.Surrounds before [] x [] after) (h : L.Describes s span)
    (live : x.allocated = true) : L.release x.offset =
      ⟨before ++ { x with allocated := false } :: after, L.lists.push { x with allocated := false }⟩ := by
  rw [around.release_eq h live]
  simp [absorb, Block.joined]

/-- It is at the front of its list. -/
theorem Surrounds.front_release (around : L.Surrounds before [] x [] after) (h : L.Describes s span)
    (live : x.allocated = true) :
    (L.release x.offset).lists (classOf x.size) = x.offset :: L.lists (classOf x.size) := by
  rw [around.release_alone h live]
  exact Function.update_self ..

section

variable (around : L.Surrounds before [] x [] after) (h : L.Describes s span) (live : x.allocated = true)
  (released : (L.release x.offset).Describes t span)

include around h live released

/-- It is the first block that a search for a block of its size looks at, and it fits exactly. -/
theorem Surrounds.bestFit_release (positive : 0 < budget) :
    (L.release x.offset).bestFit x.size budget = some x.offset := by
  obtain ⟨more, rfl⟩ : ∃ more, budget = more + 1 := ⟨budget - 1, by omega⟩
  have classes : ∀ c : Fin classCount, classesFrom c = c :: (List.finRange classCount).drop (c + 1) := by decide
  have size : (L.release x.offset).sizeAt x.offset = x.size := by
    refine sizeAt_eq (x := { x with allocated := false }) released.laid.tiled ?_
    simp [around.release_alone h live]
  simp only [bestFit, classes, searchClasses, row, around.front_release h live, List.map_cons, size, scanRow, if_true]

/-- Handed out again as a whole it leaves the layout as it was. -/
theorem Surrounds.carve_release : (L.release x.offset).carve x.offset x.size = L := by
  obtain ⟨blocks, lists⟩ := L
  have row : blocks = before ++ x :: after := by simpa using around.split
  rw [around.release_alone h live] at released ⊢
  have taken := take_eq (x := { x with allocated := false }) released.laid.tiled rfl
  simp only [carve, taken, Bool.false_eq_true, if_false, Lists.drop_push]
  rw [Focus.cut_of_lt (by simp)]
  simp only [Focus.putDown, Focus.mark, Focus.blocks, row, ← live]

end

end Layout

/-! ## The memory -/

namespace Focus

variable {before after : List Block} {x : Block} {ls : Lists}

/-- The store in which the allocated block in hand was taken back and joined with nothing. -/
def vacated (f : Focus) (s : Store) (base : Nat) : Store :=
  Store.linkIn { s with memory := f.markedFree s.memory base } base f.block.offset

/-- The store in which the free block in hand was handed out as a whole. -/
def reissued (f : Focus) (s : Store) (base : Nat) : Store :=
  { s.unlink base f.block.offset with memory := f.markedUsed (s.unlink base f.block.offset).memory base }

/-- Between allocated blocks nothing is joined. -/
theorem released_alone (last : ∀ y ∈ before.getLast?, y.allocated = true) (head : ∀ z ∈ after.head?, z.allocated = true)
    (s : Store) (base : Nat) : released ⟨before, x, after, ls⟩ s base = vacated ⟨before, x, after, ls⟩ s base := by
  have first : (mark ⟨before, x, after, ls⟩ false).joinBefore = mark ⟨before, x, after, ls⟩ false := by
    cases neighbour : before.getLast? with
    | none => simp [joinBefore, mark, neighbour]
    | some y => simp [joinBefore, mark, neighbour, last y neighbour]
  have kept : ∀ t, (mark ⟨before, x, after, ls⟩ false).joinedBefore t base = t := by
    intro t
    cases neighbour : before.getLast? with
    | none => simp [joinedBefore, mark, neighbour]
    | some y => simp [joinedBefore, mark, neighbour, last y neighbour]
  have kept' : ∀ t, (mark ⟨before, x, after, ls⟩ false).joinedAfter t base = t := by
    intro t
    cases after with
    | nil => rfl
    | cons z after => simp [joinedAfter, mark, head z rfl]
  rw [released, settled, joined, first, kept, kept']
  rfl

end Focus

/-- The words in the payload of a block that hold its links and its footer while it is free. -/
def Block.Spare (x : Block) (base a : Nat) : Prop :=
  a = base + x.offset + 8 ∨ a = base + x.offset + 16 ∨ a = base + (x.offset + x.size - 8)

namespace Layout

variable {L : Layout} {s r t : Store} {span : Span} {before after : List Block} {x : Block} {a : Nat}

/-- The store in which a block was taken back alone and handed out again as a whole. -/
def reused (s : Store) (base : Nat) (before after : List Block) (x : Block) (ls : Lists) : Store :=
  Focus.reissued ⟨before, { x with allocated := false }, after, ls⟩ (Focus.vacated ⟨before, x, after, ls⟩ s base) base

section

variable (around : L.Surrounds before [] x [] after) (h : L.Describes s span) (live : x.allocated = true)

include around h live

/-- A block between allocated ones is taken back alone without a fault. -/
theorem Surrounds.release_run :
    StoreM.release span (span.base + x.offset) s =
        .ok (span.base + x.offset) (Focus.vacated ⟨before, x, after, L.lists⟩ s span.base) ∧
      (L.release x.offset).Describes (Focus.vacated ⟨before, x, after, L.lists⟩ s span.base) span := by
  have split : L.blocks = before ++ x :: after := by simpa using around.split
  have first : (Focus.mark ⟨before, x, after, L.lists⟩ false).joinBefore.block.offset = x.offset := by
    have joined : (⟨before ++ [], { x with allocated := false }, after, L.lists⟩ : Focus).joinBefore = _ :=
      Focus.joinBefore_eq (Nat.zero_le _) (by simp) rfl around.last
    rw [List.append_nil] at joined
    rw [Focus.mark, joined]
    rfl
  obtain ⟨run, described, -⟩ := h.release_run split live
  rw [first, Focus.released_alone around.last around.head] at run
  rw [Focus.released_alone around.last around.head] at described
  exact ⟨run, described⟩

/-- Handing it out again as a whole runs without a fault and gives the layout back. -/
theorem Surrounds.carve_run :
    StoreM.carve span (span.base + x.offset) x.size (Focus.vacated ⟨before, x, after, L.lists⟩ s span.base) =
        .ok () (reused s span.base before after x L.lists) ∧
      L.Describes (reused s span.base before after x L.lists) span := by
  have split : L.blocks = before ++ x :: after := by simpa using around.split
  have bounds := h.laid.bounds (b := x) (by simp [split])
  obtain ⟨-, freed⟩ := around.release_run h live
  have alone := around.release_alone h live
  have split' : (L.release x.offset).blocks = before ++ { x with allocated := false } :: after := by rw [alone]
  have lists : (L.release x.offset).lists.drop { x with allocated := false } = L.lists := by rw [alone, Lists.drop_push]
  obtain ⟨run, described, -⟩ := freed.carve_run split' rfl bounds.2.2.2.1 bounds.2.2.1 (Nat.le_refl _)
  have whole : ∀ t, Focus.carved ⟨before, { x with allocated := false }, after, L.lists⟩ x.size t span.base =
      Focus.reissued ⟨before, { x with allocated := false }, after, L.lists⟩ t span.base := by
    intro t
    rw [Focus.carved, if_neg (by simp)]
    rfl
  rw [lists, whole] at run described
  rw [around.carve_release h live freed] at described
  exact ⟨run, described⟩

/-- Taking a block back alone and handing it out again as a whole writes its tag, the tag behind it, the back link of the block
that was at the front of its list before, and what a free block has in its payload. -/
theorem Surrounds.word_reused (tag : a ≠ span.base + x.offset) (next : a ≠ span.base + (x.offset + x.size))
    (spare : ¬ x.Spare span.base a)
    (front : (L.lists (classOf x.size)).headD 0 ≠ 0 → a ≠ span.base + (L.lists (classOf x.size)).headD 0 + 8) :
    (reused s span.base before after x L.lists).memory.word a = s.memory.word a := by
  simp only [Block.Spare, not_or] at spare
  have split : L.blocks = before ++ x :: after := by simpa using around.split
  obtain ⟨-, freed⟩ := around.release_run h live
  -- The block is the only member of its list before the old front.
  have linked := freed.threaded.linked (classOf x.size)
  rw [around.front_release h live, Linked.cons_iff] at linked
  obtain ⟨previous, ahead, -⟩ := linked
  obtain ⟨marked, -⟩ := Focus.Describes.markedFree (h.hand split live)
  have size := (marked.laid.tag (b := { x with allocated := false }) (by simp [Focus.blocks, Focus.mark])).1
  simp only [reused, Focus.reissued, Focus.markedUsed, Focus.mark]
  rw [Memory.word_setPredecessorAllocated_of_ne _ _ next,
    Memory.word_put_of_ne (b := ⟨x.offset, x.size, true⟩) tag (fun free => by cases free),
    Store.word_unlink (fun real => absurd previous real) (fun real => by rw [ahead] at real ⊢; exact front real),
    Focus.vacated, Store.word_linkIn ⟨spare.1, spare.2.1⟩]
  · simp only [Focus.markedFree, Focus.mark]
    rw [Memory.word_setPredecessorAllocated_of_ne _ _ next,
      Memory.word_put_of_ne (b := ⟨x.offset, x.size, false⟩) tag (fun _ => spare.2.2)]
  · rw [size, h.threaded.front]
    exact front

/-- The heads are as they were, and of the words only those may differ that hold links and a footer while the block is free:
links of members and tags that were written are known from the layout, and nothing else was written. -/
theorem Surrounds.reused_same (own : s.memory.Plain (span.base + x.offset))
    (behind : s.memory.Plain (span.base + (x.offset + x.size))) :
    (reused s span.base before after x L.lists).heads = s.heads ∧ ∀ a, ¬ x.Spare span.base a →
      (reused s span.base before after x L.lists).memory.word a = s.memory.word a := by
  have split : L.blocks = before ++ x :: after := by simpa using around.split
  have bounds := h.laid.bounds (b := x) (by simp [split])
  have base := span.base_aligned
  have aligned : (span.base + x.offset) % 8 = 0 := by omega
  obtain ⟨released, -⟩ := around.release_run h live
  obtain ⟨carved, described⟩ := around.carve_run h live
  have laid : Laid s.memory span (before ++ x :: after) := split ▸ h.laid
  have laid' : Laid (reused s span.base before after x L.lists).memory span (before ++ x :: after) := split ▸ described.laid
  refine ⟨Heads.ext fun c => (described.threaded.front c).trans (h.threaded.front c).symm, fun a spare => ?_⟩
  by_cases tag : a = span.base + x.offset
  · subst tag
    have known := laid.around.1
    exact own.word_eq (StoreM.carve_plain carved aligned (.inl rfl)) (laid'.around.1.trans known.symm) (.inl (by rw [known]; exact live))
  by_cases next : a = span.base + (x.offset + x.size)
  · subst next
    obtain ⟨z, zs, row, -, known⟩ := laid.next
    obtain ⟨z', zs', row', -, known'⟩ := laid'.next
    obtain ⟨rfl, -⟩ := List.cons.inj (row.symm.trans row')
    have kept := StoreM.carve_plain carved aligned (.inr (StoreM.release_plain released aligned behind))
    exact behind.word_eq kept (known'.trans known.symm) (.inr (by rw [known]; exact live))
  by_cases front : (L.lists (classOf x.size)).headD 0 ≠ 0 ∧ a = span.base + (L.lists (classOf x.size)).headD 0 + 8
  · obtain ⟨real, rfl⟩ := front
    have member := List.mem_of_head? ((headD_eq_iff real).mp rfl)
    exact UInt64.toNat_inj.mp ((h.threaded.linked _).link_eq (described.threaded.linked _) member .previous)
  · exact around.word_reused h live tag next spare fun real here => front ⟨real, here⟩

end

end Layout

/-! ## The heap -/

namespace HeapState

variable {σ : Type}

/-- The heap with another store and some more records. -/
def stored (s : HeapState σ) (t : Store) (records : List Record) : HeapState σ :=
  { s with memory := t.memory, heads := t.heads, records := s.records ++ records }

variable [Backing σ] {C : Contract σ} {L M : Layout} {s : HeapState σ} {t : Store} {before after : List Block} {x : Block}
  {n wanted o : Nat}

/-- A heap whose store holds another layout in the same span is healthy with it. -/
theorem Healthy.stored (h : s.Healthy C L) (described : M.Describes t s.span) (records : List Record) :
    (s.stored t records).Healthy C M := ⟨described, h.keeps, h.range⟩

/-- A block between allocated ones is taken back alone, and nothing is asked of the source. -/
theorem Healthy.release_alone_run (h : s.Healthy C L) (around : L.Surrounds before [] x [] after)
    (live : x.allocated = true) : Heap.releasePointer (s.pointerTo x.offset) s =
      .ok () (s.stored (Focus.vacated ⟨before, x, after, L.lists⟩ s.store s.span.base)
        [.released (s.pointerTo x.offset) x.size]) := by
  have split : L.blocks = before ++ x :: after := by simpa using around.split
  obtain ⟨inside, block⟩ := blockOf_pointerTo h.describes (Layout.mem_lent.mpr ⟨by simp [split], live⟩)
  obtain ⟨run, freed⟩ := around.release_run h.describes live
  generalize Focus.vacated ⟨before, x, after, L.lists⟩ s.store s.span.base = t at run freed ⊢
  have released := HeapM.onStore_run (s := s) (x := fun span => StoreM.release span (s.span.base + x.offset)) run
  have read := HeapM.onStore_read (s := { s with memory := t.memory, heads := t.heads })
    (x := fun _ => StoreM.tag (s.span.base + x.offset)) (StoreM.tag_apply _ _)
  have size : (t.memory.tag (s.span.base + x.offset)).size = x.size := by
    refine (freed.laid.tag (b := { x with allocated := false }) ?_).1
    simp [around.release_alone h.describes live]
  have checked := (h.stored freed [.released (s.pointerTo x.offset) x.size]).selfCheck_run
  simp only [Heap.releasePointer, Operation.bind_apply, Operation.get_apply, inside, Bool.true_eq_false, if_false, block,
    Operation.lift_ok, Operation.pure_apply, released, read, HeapM.tell_apply, HeapState.store, size]
  exact checked

/-- A request whose search finds a block is answered with it, and nothing is asked of the source. -/
theorem Healthy.allocate_found_run (h : s.Healthy C L) (fits : blockSizeFor n = some wanted)
    (found : L.bestFit wanted s.tuning.probeBudget = some o)
    (run : StoreM.carve s.span (s.span.base + o) wanted s.store = .ok () t)
    (carved : (L.carve o wanted).Describes t s.span) :
    Heap.allocate n s = .ok (some (s.pointerTo o))
      (s.stored t [.allocated n (s.pointerTo o) (t.memory.tag (s.span.base + o)).size]) := by
  have search := h.describes.bestFit_run wanted s.tuning.probeBudget
  rw [found] at search
  have handed := HeapM.onStore_run (s := s) (x := fun span => StoreM.carve span (s.span.base + o) wanted) run
  have read := HeapM.onStore_read (s := { s with memory := t.memory, heads := t.heads })
    (x := fun _ => StoreM.tag (s.span.base + o)) (StoreM.tag_apply _ _)
  have checked := (h.stored carved [.allocated n (s.pointerTo o) (t.memory.tag (s.span.base + o)).size]).selfCheck_run
  have obtained : Heap.obtain wanted s =
      .ok (some (s.span.base + o)) { s with memory := t.memory, heads := t.heads } := by
    simp only [Heap.obtain, Operation.bind_apply, Operation.get_apply, search, Option.map_some, Operation.lift_ok,
      Operation.pure_apply, handed]
  have answered : ∀ u : HeapState σ, Heap.selfCheck u = .ok () u →
      (do Heap.selfCheck; return some (s.pointerTo o) : HeapM σ (Option Nat)) u = .ok (some (s.pointerTo o)) u := by
    intro u passed
    rw [Operation.bind_apply, passed]
    rfl
  simp only [Heap.allocate, fits, Operation.bind_apply, obtained, read, HeapM.tell_apply]
  exact answered _ checked

/-- A heap in which the block of `size` bytes of a pointer was taken back and handed out again for `n` bytes. Nothing but the
records, and the bytes that hold links and a footer while the block is free, differs from before. -/
structure Reused (s : HeapState σ) (pointer size n : Nat) (s' : HeapState σ) : Prop where
  /-- The source is as it was, also when it is one that records the requests made to it (`Recording`), and so are the span,
  the heads and the tuning. -/
  heap : s'.heap = s.heap
  programBreak : s'.programBreak = s.programBreak
  /-- A request of the heap for more bytes would have left a record. -/
  records : s'.records = s.records ++ [.released pointer size, .allocated n pointer size]
  bytes : ∀ a, ¬ (pointer ≤ a ∧ a < pointer + 16) → ¬ (pointer + size - 16 ≤ a ∧ a < pointer + size - 8) →
    s'.memory.byte a = s.memory.byte a

/-- A block between allocated ones is taken back and then found at once by a request for a block of its size. -/
theorem Healthy.reuse_run (h : s.Healthy C L) (around : L.Surrounds before [] x [] after) (live : x.allocated = true)
    (own : s.memory.Plain (s.span.base + x.offset)) (behind : s.memory.Plain (s.span.base + (x.offset + x.size)))
    (positive : 0 < s.tuning.probeBudget) (fits : blockSizeFor n = some x.size) :
    ∃ s' s'', Heap.releasePointer (s.pointerTo x.offset) s = .ok () s' ∧
      Heap.allocate n s' = .ok (some (s.pointerTo x.offset)) s'' ∧ s.Reused (s.pointerTo x.offset) x.size n s'' := by
  have split : L.blocks = before ++ x :: after := by simpa using around.split
  have bounds := h.describes.laid.bounds (b := x) (by simp [split])
  have base := s.span.base_aligned
  obtain ⟨-, freed⟩ := around.release_run h.describes live
  obtain ⟨run, described⟩ := around.carve_run h.describes live
  obtain ⟨heads, words⟩ := around.reused_same h.describes live own behind
  have back := h.release_alone_run around live
  generalize Focus.vacated ⟨before, x, after, L.lists⟩ s.store s.span.base = r at freed run back
  generalize Layout.reused s.store s.span.base before after x L.lists = t at run described heads words
  have size : (t.memory.tag (s.span.base + x.offset)).size = x.size := (described.laid.tag (by simp [split])).1
  have again := (h.stored freed [.released (s.pointerTo x.offset) x.size]).allocate_found_run fits
    (around.bestFit_release h.describes live freed positive) run
    ((around.carve_release h.describes live freed).symm ▸ described)
  refine ⟨_, _, back, again, ?_, rfl, ?_, ?_⟩
  · simp only [HeapState.stored, HeapState.heap, heads, HeapState.store]
  · simp only [HeapState.stored, pointerTo, size, List.append_assoc, List.singleton_append]
  · intro a links footer
    have same : t.memory.word (Memory.wordAddress a) = s.memory.word (Memory.wordAddress a) := by
      refine words _ ?_
      simp only [Block.Spare, Memory.wordAddress]
      simp only [pointerTo, payloadOf, headerSize] at links footer
      omega
    simp only [HeapState.stored, Memory.byte, same]

end HeapState

/-! ## The session -/

namespace Session

variable {σ : Type} [Backing σ] {C : Contract σ} {S : Session σ}

/-- A heap is made only when a search may look at a block, and its tuning stays as it is. -/
theorem Reachable.probeBudget_pos (h : Reachable C S) : 0 < S.state.tuning.probeBudget := by
  induction h with
  | @created tuning site site' heap keeps made =>
    obtain ⟨-, -, -, tuned⟩ := Heap.create_eq_ok made
    have valid : tuning.probeBudget ≠ 0 := by
      intro zero
      have invalid : tuning.validate = .error _ := if_pos zero
      simp only [Heap.create, invalid] at made
      cases made
    simp only [Heap.at, tuned]
    omega
  | @performed S S' a before allowed done ih =>
    obtain ⟨L, sound⟩ := before.sound
    cases a with
    | request r =>
      obtain ⟨o, -, served, -⟩ := sound.request_eq_ok allowed done
      rwa [served.tuning]
    | write pointer index vs =>
      cases done
      exact ih

/-- A client that releases a pointer whose neighbouring blocks are allocated, or are none, and then asks for a block of the same
size gets the pointer back, and the heap is as it was: no request goes to the source, the span and all heads are the same, and
so is every byte but those that hold links and a footer while the block is free, which are all in its payload. -/
theorem Reachable.release_allocate (h : Reachable C S) {es fs : List BlockEntry} {e : BlockEntry} {n : Nat}
    (row : S.state.store.blocks S.state.span = .ok (es ++ e :: fs)) (live : e.payload ∈ S.ledger.live)
    (before : ∀ y ∈ es.getLast?, y.allocated = true) (behind : ∀ z ∈ fs.head?, z.allocated = true)
    (fits : blockSizeFor n = some e.size) : ∃ S' S'', S.perform (.request (.release (some e.payload))) = .ok S' ∧
      S'.perform (.request (.allocate n)) = .ok S'' ∧ S''.answers = S.answers ++ [none, some e.payload] ∧
      S.state.Reused e.payload e.size n S''.state := by
  obtain ⟨L, sound⟩ := h.sound
  have healthy := sound.healthy
  have laid : Laid S.state.memory S.state.span L.blocks := healthy.describes.laid
  rw [healthy.describes.blocks_run] at row
  have entries : entriesOf S.state.span.base true L.blocks = es ++ e :: fs := Except.ok.inj row
  have blocks := map_block_entriesOf S.state.span.base true L.blocks
  rw [entries, List.map_append, List.map_cons] at blocks
  have shown : e ∈ entriesOf S.state.span.base true L.blocks := by simp [entries]
  have payload : e.payload = S.state.pointerTo e.block.offset := payload_of_mem_entriesOf shown
  have mem : e.block ∈ L.blocks := by simp [← blocks]
  have lent : e.block ∈ L.lent := by
    obtain ⟨x, hx, same⟩ := (sound.live_iff _).mp live
    rw [payload] at same
    simp only [HeapState.pointerTo, payloadOf] at same
    rwa [laid.tiled.eq_of_offset mem (Layout.mem_lent.mp hx).1 (by omega)]
  obtain ⟨-, allocated⟩ := Layout.mem_lent.mp lent
  have around : L.Surrounds (es.map BlockEntry.block) [] e.block [] (fs.map BlockEntry.block) := by
    refine ⟨by simp [← blocks], Nat.zero_le _, Nat.zero_le _, by simp, ?_, ?_⟩
    · rw [List.getLast?_map]
      intro y hy
      obtain ⟨d, hd, rfl⟩ := Option.map_eq_some_iff.mp hy
      exact before d hd
    · rw [List.head?_map]
      intro z hz
      obtain ⟨d, hd, rfl⟩ := Option.map_eq_some_iff.mp hz
      exact behind d hd
  have tidy := h.tidy
  have plain : ∀ y ∈ L.lent, S.state.memory.Plain (S.state.span.base + y.offset) := by
    intro y hy
    have tag := tidy.live _ ((sound.live_iff _).mpr ⟨y, hy, rfl⟩)
    rwa [HeapState.pointerTo, payloadOf, Nat.add_sub_cancel] at tag
  have next : S.state.memory.Plain (S.state.span.base + (e.block.offset + e.block.size)) := by
    obtain ⟨z, zs, last, place, -⟩ := (blocks ▸ laid).next
    rw [← place]
    cases fs with
    | nil =>
      obtain ⟨rfl, -⟩ := List.cons.inj last
      exact tidy.epilogue
    | cons d fs =>
      obtain ⟨rfl, -⟩ := List.cons.inj last
      exact plain _ (Layout.mem_lent.mpr ⟨by simp [← blocks], behind d rfl⟩)
  obtain ⟨s', s'', back, again, reused⟩ :=
    healthy.reuse_run around allocated (plain _ lent) next h.probeBudget_pos fits
  rw [← payload] at back again reused
  refine ⟨_, _, perform_of_serve (Heap.serve_release back), perform_of_serve (r := .allocate n) again, ?_, reused⟩
  simp only [List.append_assoc, List.singleton_append]

/-- The fourth of five blocks, of which the second is free and in the same list, under a search that looks at one block only. -/
theorem Reachable.release_allocate_reserve : ∃ S S' S'' : Session Reserve, S.Reachable Reserve.contract ∧
    S.answers = [some 4144, some 4176, some 4208, some 4240, some 4272, none] ∧ S.state.heads.get 0 = 56 ∧
    S.perform (.request (.release (some 4240))) = .ok S' ∧ S'.perform (.request (.allocate 20)) = .ok S'' ∧
    S''.answers = S.answers ++ [none, some 4240] ∧ S.state.Reused 4240 32 20 S''.state := by
  obtain ⟨S, reachable, answers, head, row, live⟩ : ∃ S : Session Reserve, S.Reachable Reserve.contract ∧
      S.answers = [some 4144, some 4176, some 4208, some 4240, some 4272, none] ∧ S.state.heads.get 0 = 56 ∧
      S.state.store.blocks S.state.span = .ok
        ([⟨24, 4144, 32, true, true⟩, ⟨56, 4176, 32, false, true⟩, ⟨88, 4208, 32, true, false⟩] ++
          ⟨120, 4240, 32, true, true⟩ :: [⟨152, 4272, 32, true, true⟩]) ∧ 4240 ∈ S.ledger.live := by
    have made : Heap.create { probeBudget := 1, selfCheck := false } (Reserve.site 4104 400 UInt64.ofNat) = .ok _ _ := rfl
    have created : Session.Reachable Reserve.contract _ := .created ⟨by decide, by decide⟩ made
    have one := created.performed (a := .request (.allocate 20)) (by intro _ h; cases h) rfl
    have two := one.performed (a := .request (.allocate 20)) (by intro _ h; cases h) rfl
    have three := two.performed (a := .request (.allocate 20)) (by intro _ h; cases h) rfl
    have four := three.performed (a := .request (.allocate 20)) (by intro _ h; cases h) rfl
    have five := four.performed (a := .request (.allocate 20)) (by intro _ h; cases h) rfl
    have six := five.performed (a := .request (.release (some 4176))) (by rintro _ ⟨⟩; decide) rfl
    exact ⟨_, six, rfl, rfl, by decide +kernel, by decide⟩
  obtain ⟨S', S'', released, allocated, returned, reused⟩ :=
    reachable.release_allocate row live (by simp) (by simp) (n := 20) (by decide)
  exact ⟨S, S', S'', reachable, answers, head, released, allocated, returned, reused⟩

end Session

end SegregatedFit
