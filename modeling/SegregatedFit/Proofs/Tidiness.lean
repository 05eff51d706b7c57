import SegregatedFit.Proofs.Session
import SegregatedFit.Proofs.Written

/-!
# Tags that a heap has written

Bits 2 and 3 of a tag are clear, and a link is a multiple of eight, so a word that a heap has written is plain in one of these
two ways (`Memory.Plain`), and remains plain whatever the heap writes afterwards. The flags and the size in a plain tag of an
allocated block determine the whole word (`Memory.Plain.word_eq`), since a link that is read as a tag has both flags clear.

In a session the tags of the blocks that the client has are plain, and so is that of the epilogue (`Session.Reachable.tidy`).
-/

namespace SegregatedFit

/-- The word at an address has bits 2 and 3 clear, as a tag that was written, or is a multiple of eight, as a link. -/
def Memory.Plain (m : Memory) (a : Nat) : Prop := (m.word a).toNat % 16 < 4 ∨ (m.word a).toNat % 8 = 0

namespace Memory

variable {marks data : Nat → Prop} {used : Prop} {m m' : Memory} {a : Nat}

theorem plain_setTag (m : Memory) (a : Nat) (t : Tag) : (m.setTag a t).Plain a := by
  have := t.predecessorAllocated.toNat_le
  have := t.allocated.toNat_le
  left
  rw [setTag, word_setWord_self, Tag.encode, UInt64.toNat_ofNat']
  omega

namespace Plain

theorem congr (h : m.Plain a) (same : m'.word a = m.word a) : m'.Plain a := by
  rw [Plain, same]
  exact h

/-- A plain word stays plain when no byte of it is written. -/
theorem of_writes (h : m.Plain a) (writes : m.Writes marks data m') (clear : ∀ i, data i → a ≠ wordAddress i) :
    m'.Plain a := by
  induction writes with
  | refl => exact h
  | setTag _ b t _ ih =>
    by_cases here : a = b
    · subst here
      exact plain_setTag _ _ t
    · exact ih.congr (word_setWord_of_ne _ _ here)
  | setLink _ b l aligned ih =>
    by_cases here : a = b + l.position
    · subst here
      right
      rw [Memory.setLink, word_setWord_self, UInt64.toNat_ofNat']
      omega
    · exact ih.congr (word_setLink_of_ne here)
  | setBytes _ start vs inside ih =>
    exact ih.congr (word_setBytes fun i hi => clear _ (inside _ (by omega) (by omega)))

theorem of_tagged (h : m.Tagged marks data used a) (clear : ∀ i, data i → a ≠ wordAddress i) : m.Plain a := by
  obtain ⟨before, t, -, writes⟩ := h
  exact (plain_setTag before a t).of_writes writes clear

/-- A tag that says "allocated" of its block or of the block before was not written as a link, so its word is known when the
tag is. -/
theorem word_eq (h : m.Plain a) (h' : m'.Plain a) (same : m'.tag a = m.tag a)
    (set : (m.tag a).allocated = true ∨ (m.tag a).predecessorAllocated = true) : m'.word a = m.word a := by
  simp only [tag, Tag.decode, Tag.mk.injEq, beq_eq_beq, beq_iff_eq] at same set
  unfold Plain at h h'
  apply UInt64.toNat_inj.mp
  omega

end Plain

end Memory

namespace StoreM

variable {span : Span} {a b wanted r : Nat} {s t : Store} {u : Unit}

theorem release_plain (done : release span b s = .ok r t) (aligned : b % 8 = 0) (plain : s.memory.Plain a) :
    t.memory.Plain a := by
  have later : Memory.Writes (fun _ => True) (fun _ => False) _ t.memory := release_writes done aligned
  exact plain.of_writes (.trans (.setTag .refl _ _ fun _ => .inl trivial) later) nofun

/-- A block that is handed out has a tag that was written. -/
theorem carve_plain (done : carve span b wanted s = .ok u t) (aligned : b % 8 = 0) (ha : a = b ∨ s.memory.Plain a) :
    t.memory.Plain a := by
  have written : s.memory.Writes (fun _ => True) (fun _ => False) t.memory ∧ _ := carve_writes done aligned trivial
  rcases ha with rfl | plain
  · exact .of_tagged written.2 nofun
  · exact plain.of_writes written.1 nofun

end StoreM

/-- A request leaves plain words plain, and so are the tag of the block that it answers and that of the epilogue wherever it
stands then. -/
theorem Heap.serve_plain {σ : Type} [Backing σ] {s t : HeapState σ} {r : Request} {answer : Option Nat} {a : Nat}
    (done : serve r s = .ok answer t) (aligned : a % 8 = 0)
    (apart : ∀ q ∈ answer, q % 8 = 0 ∧ (a + headerSize ≤ q ∨ q + r.room ≤ a))
    (ha : s.memory.Plain a ∨ answer = some (payloadOf a) ∨ a = t.span.epilogue ∧ s.memory.Plain s.span.epilogue) :
    t.memory.Plain a := by
  have effects : s.Effects (fun _ => True) (fun i => a ≠ Memory.wordAddress i) t (r.consumed answer) answer := by
    refine serve_effects (fun _ _ => trivial) trivial (fun q hq => (apart q hq).1) done ?_
    intro q hq i low high
    have := apart q hq
    simp only [Memory.wordAddress, headerSize] at this ⊢
    omega
  rcases ha with plain | answered | ⟨rfl, plain⟩
  · exact plain.of_writes effects.writes fun _ => id
  · exact .of_tagged (effects.answer a answered) fun _ => id
  · rcases effects.epilogue with same | moved
    · rw [← same] at plain
      exact plain.of_writes effects.writes fun _ => id
    · exact .of_tagged moved fun _ => id

namespace Session

variable {σ : Type} [Backing σ] {C : Contract σ} {S S' : Session σ} {L : Layout} {r : Request}

/-- The tags of the blocks of the client and that of the epilogue are words that the heap has written. -/
structure Tidy (S : Session σ) : Prop where
  epilogue : S.state.memory.Plain S.state.span.epilogue
  live : ∀ p ∈ S.ledger.live, S.state.memory.Plain (p - headerSize)

theorem Tidy.requested (tidy : S.Tidy) (h : S.Sound C L) (allowed : S.Allows (.request r))
    (done : S.perform (.request r) = .ok S') : S'.Tidy := by
  obtain ⟨o, serve, served, settles, sound, ledger, -⟩ := h.request_eq_ok allowed done
  obtain ⟨wanted, room, -, lent⟩ := settles
  have base := S.state.span.base_aligned
  have laid := sound.healthy.describes.laid
  have handed : ∀ q ∈ o.answer, ⟨q, wanted, true⟩ ∈ o.layout.blocks := fun q answer =>
    (Layout.mem_lent.mp ((lent ⟨q, wanted, true⟩).mpr (.inr ⟨q, answer, rfl⟩))).1
  -- The bytes behind the answer belong to its block, so a word outside of this block is not among them.
  have apart : ∀ a, (∀ q ∈ o.answer, a ≤ S.state.span.base + q ∨ S.state.span.base + q + wanted ≤ a) →
      ∀ p ∈ o.answer.map S.state.pointerTo, p % 8 = 0 ∧ (a + headerSize ≤ p ∨ p + r.room ≤ a) := by
    intro a clear p hp
    obtain ⟨q, answer, rfl⟩ := Option.map_eq_some_iff.mp hp
    have bounds := laid.bounds (handed q answer)
    have := clear q answer
    simp only [HeapState.pointerTo, payloadOf, headerSize]
    dsimp only at bounds
    omega
  constructor
  · have place := S'.state.span.epilogueOffset_aligned
    refine Heap.serve_plain serve ?_ (apart _ fun q answer => .inr ?_) (.inr (.inr ⟨rfl, tidy.epilogue⟩))
    · simp only [Span.epilogue, served.base]
      omega
    · have bounds := laid.bounds (handed q answer)
      dsimp only at bounds
      simp only [Span.epilogue, served.base]
      omega
  · intro p hp
    obtain ⟨y, hy, rfl⟩ := (sound.live_iff p).mp hp
    have mem := (Layout.mem_lent.mp hy).1
    have bounds := laid.bounds mem
    have place : S'.state.pointerTo y.offset = payloadOf (S.state.span.base + y.offset) := by
      rw [HeapState.pointerTo, served.base]
    rw [place] at hp ⊢
    refine Heap.serve_plain serve ?_ (apart _ fun q answer => ?_) ?_
    · simp only [payloadOf, headerSize]
      omega
    · simp only [payloadOf, headerSize]
      by_cases same : y.offset = q
      · omega
      · have := laid.tiled.apart mem (handed q answer) same
        dsimp only at this
        omega
    · rw [ledger, Ledger.mem_settle] at hp
      exact hp.imp (fun old => tidy.live _ old.1) .inl

theorem Tidy.wrote (tidy : S.Tidy) (h : S.Sound C L) {pointer index : Nat} {vs : List UInt8}
    (allowed : S.Allows (.write pointer index vs)) (done : S.perform (.write pointer index vs) = .ok S') : S'.Tidy := by
  obtain ⟨x, hx, rfl, fits⟩ := h.allows_write allowed
  have base := S.state.span.base_aligned
  have mem := (Layout.mem_lent.mp hx).1
  have laid := h.healthy.describes.laid
  have bounds := laid.bounds mem
  cases done
  have kept : ∀ {a : Nat}, S.state.memory.Plain a → a % 8 = 0 → (a < S.state.pointerTo x.offset ∨
      S.state.pointerTo x.offset + index + vs.length ≤ a) →
      (S.state.memory.setBytes (S.state.pointerTo x.offset + index) vs).Plain a := by
    intro a plain aligned apart
    refine plain.congr (Memory.word_setBytes ?_)
    intro i hi
    simp only [HeapState.pointerTo, payloadOf, headerSize] at apart ⊢
    simp only [Memory.wordAddress]
    omega
  constructor
  · have place := S.state.span.epilogueOffset_aligned
    refine kept tidy.epilogue ?_ (.inr ?_)
    · simp only [Span.epilogue]
      omega
    · simp only [Span.epilogue, HeapState.pointerTo, payloadOf, headerSize]
      omega
  · intro p hp
    obtain ⟨y, hy, rfl⟩ := (h.live_iff p).mp hp
    have mem' := (Layout.mem_lent.mp hy).1
    have bounds' := laid.bounds mem'
    refine kept (tidy.live _ hp) ?_ ?_
    · simp only [HeapState.pointerTo, payloadOf, headerSize]
      omega
    · simp only [HeapState.pointerTo, payloadOf, headerSize]
      by_cases same : x.offset = y.offset
      · omega
      · have := laid.tiled.apart mem mem' same
        omega

/-- Whatever is asked of a heap and written by its client, the tags of its allocated blocks are plain. -/
theorem Reachable.tidy (h : Reachable C S) : S.Tidy := by
  induction h with
  | created keeps made =>
    obtain ⟨run, -⟩ := Heap.create_eq_ok made
    obtain ⟨_, -, -, -, memory, -⟩ := Heap.format_eq_ok run
    refine ⟨?_, fun p hp => by cases hp⟩
    simp only [Heap.at, memory, Memory.format]
    exact Memory.plain_setTag _ _ _
  | @performed S S' a before allowed done ih =>
    obtain ⟨L, sound⟩ := before.sound
    cases a with
    | request r => exact ih.requested sound allowed done
    | write pointer index vs => exact ih.wrote sound allowed done

end Session

end SegregatedFit
