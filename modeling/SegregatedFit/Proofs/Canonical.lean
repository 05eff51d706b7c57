import SegregatedFit.Proofs.Course

/-!
# The blocks do not depend on the history

No two free blocks touch, so the free blocks are the gaps between the blocks lent and nothing else: a stretch of memory can be
laid out in one way only around the blocks that clients have (`Tiled.eq_of_lent`). Two heaps of the same length whose clients
have blocks of the same sizes at the same offsets therefore show the same, however they came to be so
(`HeapState.Congruent`); only the order of the members of the free lists tells of the past.
-/

namespace SegregatedFit

/-! ## Layouts -/

namespace Tiled

variable {start finish : Nat} {bs cs : List Block} {b c : Block}

/-- Behind a free block comes a block that is lent, so another row with the same blocks lent cannot begin with a longer free
block. -/
theorem free_head_le (hb : Tiled start (b :: bs) finish) (hc : Tiled start (c :: cs) finish) (coalesced : Coalesced (b :: bs))
    (free : b.allocated = false) (free' : c.allocated = false)
    (kept : ∀ x ∈ b :: bs, x.allocated = true → x ∈ c :: cs) : c.size ≤ b.size := by
  obtain ⟨-, -, -, hb⟩ := cons_iff.mp hb
  obtain ⟨-, -, -, hc⟩ := cons_iff.mp hc
  have le := hc.start_le
  cases bs with
  | nil =>
    obtain rfl : start + b.size = finish := hb
    omega
  | cons d bs =>
    obtain ⟨at_, -⟩ := cons_iff.mp hb
    have lent := ((coalesced_cons.mp coalesced).1 d rfl).resolve_left (by simp [free])
    rcases List.mem_cons.mp (kept d (.tail _ List.mem_cons_self) lent) with rfl | mem
    · simp [free'] at lent
    · have := (hc.bounds mem).1
      omega

/-- Two rows of blocks between the same ends with the same blocks lent, in neither of which two free blocks touch, are the
same. -/
theorem eq_of_lent (hb : Tiled start bs finish) (hc : Tiled start cs finish) (coalesced : Coalesced bs)
    (coalesced' : Coalesced cs) (same : ∀ x : Block, x.allocated = true → (x ∈ bs ↔ x ∈ cs)) : bs = cs := by
  induction bs generalizing start cs with
  | nil =>
    obtain rfl : start = finish := hb
    cases cs with
    | nil => rfl
    | cons c cs =>
      obtain ⟨-, large, -, rest⟩ := cons_iff.mp hc
      have := rest.start_le
      omega
  | cons b bs ih =>
    cases cs with
    | nil =>
      obtain rfl : start = finish := hc
      obtain ⟨-, large, -, rest⟩ := cons_iff.mp hb
      have := rest.start_le
      omega
    | cons c cs =>
      obtain ⟨at_, large, -, rest⟩ := cons_iff.mp hb
      obtain ⟨at_', large', -, rest'⟩ := cons_iff.mp hc
      -- A block lent that begins one row begins the other too, and two free blocks that do so are equally long.
      have head : b = c := by
        cases lent : b.allocated with
        | true => exact hc.eq_of_offset ((same b lent).mp List.mem_cons_self) List.mem_cons_self (at_.trans at_'.symm)
        | false =>
          cases lent' : c.allocated with
          | true =>
            have := hb.eq_of_offset List.mem_cons_self ((same c lent').mpr List.mem_cons_self) (at_.trans at_'.symm)
            simp [this, lent'] at lent
          | false =>
            have le := hb.free_head_le hc coalesced lent lent' fun x hx allocated => (same x allocated).mp hx
            have le' := hc.free_head_le hb coalesced' lent' lent fun x hx allocated => (same x allocated).mpr hx
            obtain ⟨o, n, s⟩ := b
            obtain ⟨o', n', s'⟩ := c
            simp only at at_ at_' lent lent' le le'
            rw [at_, at_', lent, lent', Nat.le_antisymm le' le]
      subst head
      refine congrArg _ (ih rest rest' (coalesced_cons.mp coalesced).2 (coalesced_cons.mp coalesced').2 ?_)
      intro x allocated
      have apart : ∀ ds, Tiled (start + b.size) ds finish → x ∈ ds → x ≠ b := by
        rintro ds tiled hx rfl
        have := (tiled.bounds hx).1
        omega
      have both := same x allocated
      simp only [List.mem_cons] at both
      constructor
      · intro hx
        exact (both.mp (.inr hx)).resolve_left (apart bs rest hx)
      · intro hx
        exact (both.mpr (.inr hx)).resolve_left (apart cs rest' hx)

end Tiled

namespace Layout.Describes

variable {L M : Layout} {s t : Store} {span span' : Span}

/-- Layouts of the same length with the same blocks lent have the same blocks. -/
theorem blocks_eq (h : L.Describes s span) (h' : M.Describes t span') (length : span.length = span'.length)
    (same : ∀ x, x ∈ L.lent ↔ x ∈ M.lent) : L.blocks = M.blocks := by
  have ends : span.epilogueOffset = span'.epilogueOffset := Nat.add_right_cancel length
  refine h.laid.tiled.eq_of_lent (ends ▸ h'.laid.tiled) h.coalesced h'.coalesced ?_
  intro x allocated
  have := same x
  simpa [Layout.mem_lent, allocated] using this

/-- The free lists hold the free blocks, so they hold the same when the blocks are the same. -/
theorem lists_perm (h : L.Describes s span) (h' : M.Describes t span') (same : L.blocks = M.blocks) (c : Fin classCount) :
    (L.lists c).Perm (M.lists c) := by
  refine (List.perm_ext_iff_of_nodup (h.threaded.nodup c) (h'.threaded.nodup c)).mpr fun o => ?_
  rw [h.files c o, h'.files c o, same]

/-- A layout that lends nothing is empty or one free block. -/
theorem blocks_of_none_lent (h : L.Describes s span) (none : ∀ x, x ∉ L.lent) :
    L.blocks = if span.length = initialLength then [] else [⟨24, span.length - initialLength, false⟩] := by
  have free : ∀ x ∈ L.blocks, x.allocated = false := by
    intro x hx
    simpa [Layout.mem_lent, hx] using none x
  have tiled := h.laid.tiled
  have coalesced := h.coalesced
  have length : span.length = span.epilogueOffset + 8 := rfl
  have initial : initialLength = 32 := rfl
  match split : L.blocks with
  | [] =>
    rw [split] at tiled
    obtain ends : 24 = span.epilogueOffset := tiled
    rw [if_pos (by omega)]
  | [⟨offset, size, allocated⟩] =>
    rw [split] at tiled free
    obtain ⟨at_, large, -, ends⟩ := Tiled.cons_iff.mp tiled
    obtain ends : 24 + size = span.epilogueOffset := ends
    have isFree := free _ List.mem_cons_self
    have whole : span.length - initialLength = size := by omega
    simp only at at_ large isFree
    rw [if_neg (by omega), at_, isFree, whole]
  | b :: c :: bs =>
    rw [split] at coalesced free
    have touch := (coalesced_cons.mp coalesced).1 c rfl
    simp [free b List.mem_cons_self, free c (.tail _ List.mem_cons_self)] at touch

end Layout.Describes

/-! ## Views -/

/-- What an entry says of its block apart from where in the address space it is. -/
def BlockEntry.shape (e : BlockEntry) : Nat × Nat × Bool × Bool := (e.offset, e.size, e.allocated, e.predecessorAllocated)

theorem shape_entriesOf (base base' : Nat) (state : Bool) (bs : List Block) :
    (entriesOf base state bs).map BlockEntry.shape = (entriesOf base' state bs).map BlockEntry.shape := by
  induction bs generalizing state with
  | nil => rfl
  | cons b bs ih =>
    simp only [entriesOf, List.map_cons, ih]
    rfl

variable {σ τ : Type} [Backing σ] [Backing τ]

/-- Two heaps show the same, apart from where they are in the address space and in which order their free lists are: the same
blocks, the same totals, and for every class the same members of its list. -/
structure HeapState.Congruent (s : HeapState σ) (t : HeapState τ) : Prop where
  blocks : ∃ es es', s.store.blocks s.span = .ok es ∧ t.store.blocks t.span = .ok es' ∧
    es.map BlockEntry.shape = es'.map BlockEntry.shape
  totals : ∃ x, s.store.totals s.span = .ok x ∧ t.store.totals t.span = .ok x
  freeList : ∀ c < classCount, ∃ es es', s.store.freeList s.span c = .ok es ∧ t.store.freeList t.span c = .ok es' ∧
    (es.map BlockEntry.shape).Perm (es'.map BlockEntry.shape)

/-- Healthy heaps of the same length with the same blocks lent show the same. -/
theorem HeapState.Healthy.congruent {C : Contract σ} {D : Contract τ} {s : HeapState σ} {t : HeapState τ} {L M : Layout}
    (h : s.Healthy C L) (h' : t.Healthy D M) (length : s.span.length = t.span.length) (same : ∀ x, x ∈ L.lent ↔ x ∈ M.lent) :
    s.Congruent t := by
  have blocks := h.describes.blocks_eq h'.describes length same
  refine ⟨⟨_, _, h.describes.blocks_run, h'.describes.blocks_run, ?_⟩, ⟨L.totals, h.describes.totals_run, ?_⟩, ?_⟩
  · rw [Layout.entries, Layout.entries, blocks]
    exact shape_entriesOf _ _ _ _
  · rw [h'.describes.totals_run, Layout.totals, Layout.totals, Layout.finish, Layout.finish, blocks]
  · intro c hc
    refine ⟨_, _, h.describes.freeList_run ⟨c, hc⟩, h'.describes.freeList_run ⟨c, hc⟩, ?_⟩
    have sizes : ∀ o, L.sizeAt o = M.sizeAt o := fun o => by rw [Layout.sizeAt, Layout.sizeAt, blocks]
    simp only [Layout.freeEntries, List.map_map, Function.comp_def, BlockEntry.shape, Block.entry, sizes]
    exact (h.describes.lists_perm h'.describes blocks ⟨c, hc⟩).map _

/-! ## Sessions -/

namespace Session

/-- The client has a block of so many bytes at an offset. -/
def Lends (S : Session σ) (offset size : Nat) : Prop :=
  payloadOf (S.state.span.base + offset) ∈ S.ledger.live ∧
    ∃ n, Heap.usableSize (payloadOf (S.state.span.base + offset)) S.state = .ok n S.state ∧ size = n + headerSize

/-- The releases of some pointers, one after the other. -/
def releases (ps : List Nat) : List Action := ps.map fun p => .request (.release (some p))

variable {C : Contract σ} {D : Contract τ} {S S' : Session σ} {T : Session τ} {L M : Layout} {p : Nat} {ps : List Nat}

theorem Sound.lends_iff (h : S.Sound C L) {offset size : Nat} : S.Lends offset size ↔ ⟨offset, size, true⟩ ∈ L.lent := by
  constructor
  · rintro ⟨live, n, usable, rfl⟩
    obtain ⟨x, hx, same⟩ := (h.live_iff _).mp live
    obtain ⟨mem, allocated⟩ := Layout.mem_lent.mp hx
    have bounds := h.healthy.describes.laid.bounds mem
    have at_ : x.offset = offset := by
      simp only [HeapState.pointerTo, payloadOf] at same
      omega
    rw [← same, h.healthy.usableSize_run hx] at usable
    cases usable
    obtain ⟨o, size, s⟩ := x
    simp only at at_ allocated bounds
    subst at_ allocated
    have whole : size - 8 + 8 = size := by omega
    simpa only [headerSize, whole] using hx
  · intro hx
    have bounds := h.healthy.describes.laid.bounds (Layout.mem_lent.mp hx).1
    have usable := h.healthy.usableSize_run hx
    rw [HeapState.pointerTo] at usable
    refine ⟨(h.live_iff _).mpr ⟨_, hx, rfl⟩, _, usable, ?_⟩
    simp only [headerSize] at bounds ⊢
    omega

/-- Clients that have blocks of the same sizes at the same offsets have the same blocks of two layouts. -/
theorem Sound.lent_iff (h : S.Sound C L) (h' : T.Sound D M) (same : ∀ offset size, S.Lends offset size ↔ T.Lends offset size)
    (x : Block) : x ∈ L.lent ↔ x ∈ M.lent := by
  obtain ⟨offset, size, allocated⟩ := x
  cases allocated with
  | true => rw [← h.lends_iff, ← h'.lends_iff, same]
  | false => simp [Layout.mem_lent]

/-- A pointer that the client has is released: its block is no longer lent, and the heap is as long as it was. -/
theorem Sound.release_run (h : S.Sound C L) (live : p ∈ S.ledger.live) : ∃ T M,
    S.perform (.request (.release (some p))) = .ok T ∧ T.Sound C M ∧ T.state.span = S.state.span ∧
    (∀ q, q ∈ T.ledger.live ↔ q ∈ S.ledger.live ∧ q ≠ p) ∧
    ∀ x, x ∈ M.lent ↔ x ∈ L.lent ∧ S.state.pointerTo x.offset ≠ p := by
  have allowed : S.Allows (.request (.release (some p))) := by
    rintro _ ⟨⟩
    exact live
  obtain ⟨_, o, s', rfl, run, served, settles⟩ := h.request_run allowed
  have sound := h.settled served settles
  refine ⟨_, _, run, sound, HeapState.Served.span_eq h.healthy served rfl, ?_, ?_⟩
  · intro q
    rw [Ledger.mem_settle]
    simp [Request.consumed, Layout.serve]
  · intro x
    obtain ⟨_, -, -, lent⟩ := settles
    rw [lent x]
    simp [Request.consumed, Layout.serve, HeapState.pointerTo]

/-- Some pointers are released: their blocks are no longer lent, and the heap is as long as it was. -/
theorem Sound.releases_run (h : S.Sound C L) (nodup : ps.Nodup) (live : ∀ p ∈ ps, p ∈ S.ledger.live) : ∃ T M,
    S.run (releases ps) = .ok T ∧ T.Sound C M ∧ T.state.span = S.state.span ∧
    ∀ x, x ∈ M.lent ↔ x ∈ L.lent ∧ S.state.pointerTo x.offset ∉ ps := by
  induction ps generalizing S L with
  | nil => exact ⟨S, L, rfl, h, rfl, by simp⟩
  | cons p ps ih =>
    obtain ⟨new, nodup⟩ := List.nodup_cons.mp nodup
    obtain ⟨T, M, step, sound, span, live', lent⟩ := h.release_run (live p List.mem_cons_self)
    obtain ⟨U, N, run, sound', span', lent'⟩ := ih sound nodup fun q hq =>
      (live' q).mpr ⟨live q (.tail _ hq), fun e => new (e ▸ hq)⟩
    refine ⟨U, N, ?_, sound', span'.trans span, ?_⟩
    · rw [releases, List.map_cons, Session.run, step]
      exact run
    · intro x
      rw [lent' x, lent x, HeapState.pointerTo, HeapState.pointerTo, span]
      simp only [List.mem_cons, not_or, and_assoc]

/-- What the blocks of a heap depend on: the length of the heap and the blocks that its client has, and nothing else. So it
does not matter in which order pointers are released, one free block is left when all are, and an allocation that did not
grow the heap leaves no trace when it is released. -/
structure Canonical (S : Session σ) : Prop where
  congruent : ∀ {τ : Type} [Backing τ] {D : Contract τ} {T : Session τ}, T.Reachable D →
    S.state.span.length = T.state.span.length → (∀ offset size, S.Lends offset size ↔ T.Lends offset size) →
    S.state.Congruent T.state
  anyOrder : ∀ ps qs : List Nat, ps.Nodup → ps.Perm qs → (∀ p ∈ ps, p ∈ S.ledger.live) → ∃ T U es,
    S.run (releases ps) = .ok T ∧ S.run (releases qs) = .ok U ∧
    T.state.store.blocks T.state.span = .ok es ∧ U.state.store.blocks U.state.span = .ok es
  allReleased : ∀ ps : List Nat, ps.Nodup → (∀ p, p ∈ ps ↔ p ∈ S.ledger.live) → ∃ T es,
    S.run (releases ps) = .ok T ∧ T.state.span = S.state.span ∧ T.state.store.blocks T.state.span = .ok es ∧
    es.map BlockEntry.shape = if S.state.span.length = initialLength then []
      else [(24, S.state.span.length - initialLength, false, true)]
  undone : ∀ n T p, S.perform (.request (.allocate n)) = .ok T → T.answers = S.answers ++ [some p] →
    T.state.span.length = S.state.span.length → ∃ U es, T.perform (.request (.release (some p))) = .ok U ∧
      U.state.store.blocks U.state.span = .ok es ∧ S.state.store.blocks S.state.span = .ok es

/-- Pointers that the client has may be released in any order. -/
theorem Sound.anyOrder (h : S.Sound C L) {qs : List Nat} (nodup : ps.Nodup) (perm : ps.Perm qs)
    (live : ∀ p ∈ ps, p ∈ S.ledger.live) : ∃ T U es, S.run (releases ps) = .ok T ∧ S.run (releases qs) = .ok U ∧
      T.state.store.blocks T.state.span = .ok es ∧ U.state.store.blocks U.state.span = .ok es := by
  obtain ⟨T, M, run, sound, span, lent⟩ := h.releases_run nodup live
  obtain ⟨U, N, run', sound', span', lent'⟩ := h.releases_run (perm.nodup_iff.mp nodup) fun p hp => live p (perm.mem_iff.mpr hp)
  have blocks := sound.healthy.describes.blocks_eq sound'.healthy.describes (by rw [span, span']) fun x => by
    rw [lent x, lent' x, perm.mem_iff]
  refine ⟨T, U, _, run, run', sound.healthy.describes.blocks_run, ?_⟩
  rw [sound'.healthy.describes.blocks_run, Layout.entries, Layout.entries, blocks, span, span']

/-- When all pointers that the client has are released, there is at most one block. -/
theorem Sound.allReleased (h : S.Sound C L) (nodup : ps.Nodup) (all : ∀ p, p ∈ ps ↔ p ∈ S.ledger.live) : ∃ T es,
    S.run (releases ps) = .ok T ∧ T.state.span = S.state.span ∧ T.state.store.blocks T.state.span = .ok es ∧
    es.map BlockEntry.shape = if S.state.span.length = initialLength then []
      else [(24, S.state.span.length - initialLength, false, true)] := by
  obtain ⟨T, M, run, sound, span, lent⟩ := h.releases_run nodup fun p hp => (all p).mp hp
  have none : ∀ x, x ∉ M.lent := by
    intro x hx
    obtain ⟨hx, kept⟩ := (lent x).mp hx
    exact kept ((all _).mpr ((h.live_iff _).mpr ⟨x, hx, rfl⟩))
  refine ⟨T, _, run, span, sound.healthy.describes.blocks_run, ?_⟩
  rw [Layout.entries, sound.healthy.describes.blocks_of_none_lent none, span]
  split <;> rfl

/-- An allocation that did not grow the heap leaves no trace when it is released. -/
theorem Sound.undone (h : S.Sound C L) {n : Nat} (done : S.perform (.request (.allocate n)) = .ok S')
    (answered : S'.answers = S.answers ++ [some p]) (length : S'.state.span.length = S.state.span.length) : ∃ U es,
      S'.perform (.request (.release (some p))) = .ok U ∧
      U.state.store.blocks U.state.span = .ok es ∧ S.state.store.blocks S.state.span = .ok es := by
  obtain ⟨o, -, served, settles, sound, ledger, answers⟩ := h.request_eq_ok (by intro _ hp; cases hp) done
  rw [answers] at answered
  obtain ⟨q, answer, rfl⟩ := Option.map_eq_some_iff.mp (List.singleton_inj.mp (List.append_cancel_left answered))
  obtain ⟨U, M, back, sound', span, -, lent⟩ := sound.release_run (p := S.state.pointerTo q)
    (by rw [ledger, Ledger.mem_settle, answer]; exact .inr rfl)
  have new := settles.offset_ne h.healthy.describes
  obtain ⟨wanted, -, -, lent'⟩ := settles
  have same : ∀ x, x ∈ M.lent ↔ x ∈ L.lent := by
    intro x
    have elsewhere : ∀ y : Block, S'.state.pointerTo y.offset ≠ S.state.pointerTo q ↔ y.offset ≠ q := by
      intro y
      simp only [HeapState.pointerTo, payloadOf, served.base]
      omega
    rw [lent x, lent' x, elsewhere x]
    constructor
    · rintro ⟨⟨hx, -⟩ | ⟨q', given, rfl⟩, ne⟩
      · exact hx
      · cases answer.symm.trans given
        exact absurd rfl ne
    · intro hx
      exact ⟨.inl ⟨hx, by simp [Request.consumed]⟩, new q answer x hx⟩
  have blocks := sound'.healthy.describes.blocks_eq h.healthy.describes (by rw [span]; exact length) same
  refine ⟨U, _, back, sound'.healthy.describes.blocks_run, ?_⟩
  rw [h.healthy.describes.blocks_run, Layout.entries, Layout.entries, blocks, span]
  exact congrArg (fun base => Except.ok (entriesOf base true L.blocks)) served.base.symm

/-- The blocks of the heap of a session that can be reached do not depend on its history. -/
theorem Reachable.canonical (h : Reachable C S) : S.Canonical := by
  obtain ⟨L, sound⟩ := h.sound
  refine ⟨?_, ?_, ?_, ?_⟩
  · intro τ _ D T h' length same
    obtain ⟨M, sound'⟩ := h'.sound
    exact sound.healthy.congruent sound'.healthy length (sound.lent_iff sound' same)
  · intro ps qs nodup perm live
    exact sound.anyOrder nodup perm live
  · intro ps nodup all
    exact sound.allReleased nodup all
  · intro n T p done answered length
    exact sound.undone done answered length

theorem Reachable.canonical_reserve : ∃ S : Session Reserve, S.Reachable Reserve.contract ∧ S.Canonical ∧ ∃ T U es,
    S.run (releases [4176, 4208]) = .ok T ∧ S.run (releases [4208, 4176]) = .ok U ∧
    T.state.store.blocks T.state.span = .ok es ∧ U.state.store.blocks U.state.span = .ok es := by
  obtain ⟨S, reachable, -, live, -⟩ := Reachable.of_reserve
  have canonical := reachable.canonical
  exact ⟨S, reachable, canonical, canonical.anyOrder _ _ (by decide) (.swap _ _ _) (by rw [live]; decide)⟩

end Session

end SegregatedFit
