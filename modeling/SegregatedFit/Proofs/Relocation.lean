import SegregatedFit.Proofs.Noninterference
import SegregatedFit.Proofs.Paired

/-!
# Where a heap lies does not matter

Two runs are displaced when they begin with heaps of the same tuning, each at an address of its own, and go on with the same
actions, whose pointers are given as distances from the bases of the heaps (`Session.Displaced`). The memories agree at first
on so many bytes from the two bases on, and the sources grant and refuse alike. As long as the heaps have not outgrown these
bytes, the two sessions coincide (`Session.Coincide`): the answers are at the same distances, the same growth was asked for,
the heads are the same, and the two spans hold the same bytes.

So nothing that a heap keeps depends on its base. The invariant is that both heaps hold one layout and that their spans
mirror each other, whatever stands in the parts that no layout speaks of.
-/

namespace SegregatedFit

/-- The action whose pointers are given as distances from an address. -/
def Action.at (base : Nat) : Action → Action
  | .request r => .request (r.at base)
  | .write pointer index vs => .write (base + pointer) index vs

/-! ## Memories that agree from two addresses on -/

namespace Memory

variable {m m' : Memory} {a b : Nat}

/-- A word is its eight bytes. -/
theorem word_eq_of_bytes (aligned : a % 8 = 0) (aligned' : b % 8 = 0)
    (same : ∀ i < 8, m'.byte (b + i) = m.byte (a + i)) : m'.word b = m.word a := by
  apply UInt64.eq_of_toBitVec_eq
  apply BitVec.eq_of_getLsbD_eq
  intro j hj
  have bits := congrArg (fun v : UInt8 => v.toBitVec.getLsbD (j % 8)) (same (j / 8) (by omega))
  have within : j / 8 / 8 * 8 = 0 := by omega
  have low : ∀ c, c % 8 = 0 → (c + j / 8) % 8 * 8 + j % 8 = j := by omega
  simp only [byte, getLsbD_shiftRight_bitPosition _ _ (Nat.mod_lt j (by decide : 8 > 0)), wordAddress_add aligned,
    wordAddress_add aligned', within, Nat.add_zero, low _ aligned, low _ aligned'] at bits
  exact bits

end Memory

variable {n : Nat}

/-- Two spans without blocks are written alike. -/
theorem Mirrored.format {span span' : Span} {m m' : Memory} {heads : Heads}
    (h : Mirrored n span.base span'.base ⟨m, heads⟩ ⟨m', heads⟩) (ends : span.epilogueOffset = 24)
    (ends' : span'.epilogueOffset = 24) (fits : span.length ≤ n) :
    Mirrored n span.base span'.base ⟨m.format span, heads⟩ ⟨m'.format span', heads⟩ := by
  simp only [Span.length, headerSize, ends] at fits
  unfold Memory.format Span.epilogue
  rw [ends, ends']
  exact ((h.setWord (o := 0) (by omega) 0).andThen fun m => (m.setTag (o := 8) (by omega) _).andThen fun m =>
    (m.setTag (o := 16) (by omega) _).andThen fun m => m.setTag (o := 24) (by omega) _).mirrored

/-- A request whose pointers are given as distances does the same to a layout wherever the heap begins. -/
theorem Layout.serve_at (L : Layout) (budget : Nat) (grant : Nat → Bool) (r : Request) (base base' : Nat) :
    L.serve base budget grant (r.at base) = L.serve base' budget grant (r.at base') := by
  have offset : ∀ p, base + p - headerSize - base = base' + p - headerSize - base' := by
    intro p
    omega
  cases r with
  | allocate size => rfl
  | allocateZeroed count size => rfl
  | release pointer =>
    cases pointer with
    | none => rfl
    | some p => simp only [Request.at, Option.map_some, serve, offset p]
  | resize pointer size =>
    cases pointer with
    | none => rfl
    | some p => cases size <;> simp only [Request.at, Option.map_some, serve, offset p]

variable {σ τ : Type} [Backing σ] [Backing τ]

namespace Session

/-- Two runs that begin with heaps of the same tuning over memories that agree on `n` bytes from the bases on, and go on with
the same actions, while both sources answer as the pattern says. -/
inductive Displaced (C : Contract σ) (D : Contract τ) (n : Nat) (pattern : Nat → Bool) :
    Session (Recording σ) → Session (Recording τ) → Prop where
  | created {tuning : Tuning} {x : Site σ} {y : Site τ} {x' : Site (Recording σ)} {y' : Site (Recording τ)}
      {h : Heap (Recording σ)} {k : Heap (Recording τ)} (keeps : C.Keeps x.source x.programBreak)
      (keeps' : D.Keeps y.source y.programBreak) (made : Heap.create tuning x.recorded = .ok h x')
      (made' : Heap.create tuning y.recorded = .ok k y')
      (agree : ∀ i < n, y.memory.byte (k.span.base + i) = x.memory.byte (h.span.base + i)) :
      Displaced C D n pattern { state := h.at x' } { state := k.at y' }
  | performed {S S' : Session (Recording σ)} {T T' : Session (Recording τ)} (a : Action)
      (before : Displaced C D n pattern S T) (allowed : S.Allows (a.at S.state.span.base))
      (done : S.perform (a.at S.state.span.base) = .ok S') (done' : T.perform (a.at T.state.span.base) = .ok T')
      (follows : Follows S'.state.source.calls pattern) (follows' : Follows T'.state.source.calls pattern) :
      Displaced C D n pattern S' T'

/-- The answers of a session, as distances from the base of its heap. -/
def AnswersAt (S : Session (Recording σ)) (distances : List (Option Nat)) : Prop :=
  S.answers = distances.map (Option.map (S.state.span.base + ·))

/-- Two sessions whose heaps differ in their bases only. The requests that made the heaps, which are the first two, may
differ in the padding. -/
structure Coincide (S : Session (Recording σ)) (T : Session (Recording τ)) : Prop where
  answers : ∃ distances, S.AnswersAt distances ∧ T.AnswersAt distances
  growth : T.state.source.calls.drop 2 = S.state.source.calls.drop 2
  heads : T.state.heads = S.state.heads
  length : T.state.span.length = S.state.span.length
  bytes : ∀ i < S.state.span.length, T.state.memory.byte (T.state.span.base + i) = S.state.memory.byte (S.state.span.base + i)
  total : ∀ a : Action, S.Allows (a.at S.state.span.base) →
    ∃ S' T', S.perform (a.at S.state.span.base) = .ok S' ∧ T.perform (a.at T.state.span.base) = .ok T'

/-- The invariant of displaced runs: both heaps hold the same layout and their spans hold the same words. -/
structure Parallel (C : Contract σ) (D : Contract τ) (n : Nat) (S : Session (Recording σ)) (T : Session (Recording τ))
    (L : Layout) : Prop where
  left : S.Sound (Recording.contract C) L
  right : T.Sound (Recording.contract D) L
  tuning : T.state.tuning = S.state.tuning
  answers : ∃ distances, S.AnswersAt distances ∧ T.AnswersAt distances
  calls : ∃ made made' asked, made.length = 2 ∧ made'.length = 2 ∧ S.state.source.calls = made ++ asked ∧
    T.state.source.calls = made' ++ asked
  mirrored : Mirrored n S.state.span.base T.state.span.base S.state.store T.state.store

variable {C : Contract σ} {D : Contract τ} {n : Nat} {pattern : Nat → Bool} {S S' : Session (Recording σ)}
  {T T' : Session (Recording τ)} {L : Layout} {a : Action} {r : Request}

omit [Backing σ] in
/-- A block that is answered stands at its offset, and its payload right behind. -/
theorem AnswersAt.answered {distances : List (Option Nat)} (h : S.AnswersAt distances) {answer : Option Nat}
    (base : S'.state.span.base = S.state.span.base) (answers : S'.answers = S.answers ++ [answer.map S.state.pointerTo]) :
    S'.AnswersAt (distances ++ [answer.map payloadOf]) := by
  unfold AnswersAt at h ⊢
  rw [answers, base, h, List.map_append, List.map_singleton, Option.map_map]
  rfl

theorem Parallel.paired (h : Parallel C D n S T L) : HeapState.Paired n S.state T.state L :=
  ⟨h.left.healthy.describes, h.right.healthy.describes, by rw [h.tuning], h.mirrored⟩

/-! ## What parallel runs have in common -/

/-- What a client may do in one run it may do in the other one. -/
theorem Parallel.allows (h : Parallel C D n S T L) (allowed : S.Allows (a.at S.state.span.base)) :
    T.Allows (a.at T.state.span.base) := by
  have live : ∀ p, S.state.span.base + p ∈ S.ledger.live → ∃ x ∈ L.lent, S.state.span.base + p = S.state.pointerTo x.offset ∧
      T.state.span.base + p = T.state.pointerTo x.offset := by
    intro p hp
    obtain ⟨x, hx, same⟩ := (h.left.live_iff _).mp hp
    refine ⟨x, hx, same.symm, ?_⟩
    simp only [HeapState.pointerTo, payloadOf] at same ⊢
    omega
  cases a with
  | request r =>
    intro p hp
    rw [Request.pointer_at] at hp
    obtain ⟨q, hq, rfl⟩ := Option.mem_map.mp hp
    obtain ⟨x, hx, -, place⟩ := live q (allowed _ (by rw [Request.pointer_at]; exact Option.mem_map_of_mem _ hq))
    exact (h.right.live_iff _).mpr ⟨x, hx, place.symm⟩
  | write pointer index vs =>
    obtain ⟨mem, m, usable, fits⟩ := allowed
    obtain ⟨x, hx, place, place'⟩ := live pointer mem
    rw [place, h.left.healthy.usableSize_run hx] at usable
    cases usable
    refine ⟨(h.right.live_iff _).mpr ⟨x, hx, place'.symm⟩, _, ?_, fits⟩
    rw [place']
    exact h.right.healthy.usableSize_run hx

/-- Heaps that run in parallel coincide as far as their bytes were known at first. -/
theorem Parallel.coincides (h : Parallel C D n S T L) (fits : S.state.span.length ≤ n) : S.Coincide T where
  answers := h.answers
  growth := by
    obtain ⟨made, made', asked, two, two', calls, calls'⟩ := h.calls
    rw [calls, calls', ← two, List.drop_left, two, ← two', List.drop_left]
  heads := h.mirrored.heads
  length := by rw [Span.length, Span.length, h.paired.ends]
  bytes i hi := by
    have aligned := S.state.span.base_aligned
    have aligned' := T.state.span.base_aligned
    have whole := S.state.span.epilogueOffset_aligned
    simp only [Span.length, headerSize] at hi fits
    exact h.mirrored.byte (by omega) (by omega) (by omega)
  total a allowed := by
    obtain ⟨S', -, run, -⟩ := h.left.perform_run allowed
    obtain ⟨T', -, run', -⟩ := h.right.perform_run (h.allows allowed)
    exact ⟨S', T', run, run'⟩

/-! ## The heaps stay parallel -/

/-- Two heaps that were just made are parallel. -/
theorem Parallel.created {tuning : Tuning} {x : Site σ} {y : Site τ} {x' : Site (Recording σ)} {y' : Site (Recording τ)}
    {h : Heap (Recording σ)} {k : Heap (Recording τ)} (keeps : C.Keeps x.source x.programBreak)
    (keeps' : D.Keeps y.source y.programBreak) (made : Heap.create tuning x.recorded = .ok h x')
    (made' : Heap.create tuning y.recorded = .ok k y')
    (agree : ∀ i < n, y.memory.byte (k.span.base + i) = x.memory.byte (h.span.base + i)) (fits : h.span.length ≤ n) :
    Parallel C D n { state := h.at x' } { state := k.at y' } Layout.empty := by
  obtain ⟨first, -, -, tuned, asked, healthy⟩ := Heap.create_run (C.keeps_recorded keeps) made
  obtain ⟨first', -, -, tuned', asked', healthy'⟩ := Heap.create_run (D.keeps_recorded keeps') made'
  refine ⟨.created healthy, .created healthy', tuned'.trans tuned.symm, ⟨[], rfl, rfl⟩,
    ⟨_, _, [], rfl, rfl, (Recording.calls_eq asked).trans (List.append_nil _).symm,
      (Recording.calls_eq asked').trans (List.append_nil _).symm⟩, ?_⟩
  obtain ⟨run, -, heads, -⟩ := Heap.create_eq_ok made
  obtain ⟨run', -, heads', -⟩ := Heap.create_eq_ok made'
  obtain ⟨-, -, -, ends, memory, -⟩ := Heap.format_eq_ok run
  obtain ⟨-, -, -, ends', memory', -⟩ := Heap.format_eq_ok run'
  have aligned := h.span.base_aligned
  have aligned' := k.span.base_aligned
  have before : Mirrored n h.span.base k.span.base ⟨x.memory, .empty⟩ ⟨y.memory, .empty⟩ := by
    refine ⟨rfl, fun o whole inside => Memory.word_eq_of_bytes (by omega) (by omega) ?_⟩
    intro i hi
    rw [Nat.add_assoc, Nat.add_assoc]
    exact agree (o + i) (by omega)
  have formatted := before.format ends ends' fits
  simp only [HeapState.store, Heap.at]
  rw [memory, memory', heads, heads']
  exact formatted

/-- A request keeps two sessions parallel, because the sources give the same answers. -/
theorem Parallel.requested (h : Parallel C D n S T L) (allowed : S.Allows (.request (r.at S.state.span.base)))
    (done : S.perform (.request (r.at S.state.span.base)) = .ok S')
    (done' : T.perform (.request (r.at T.state.span.base)) = .ok T') (follows : Follows S'.state.source.calls pattern)
    (follows' : Follows T'.state.source.calls pattern) (fits : S'.state.span.length ≤ n) :
    ∃ L', Parallel C D n S' T' L' := by
  have allowed' := h.allows (a := .request r) allowed
  obtain ⟨grant, o, s', outcome, run, served, settles⟩ := h.left.request_run allowed
  obtain ⟨grant', o', t', outcome', run', served', settles'⟩ := h.right.request_run allowed'
  cases run.symm.trans done
  cases run'.symm.trans done'
  obtain ⟨made, made', asked, two, two', before, before'⟩ := h.calls
  have calls : s'.source.calls = made ++ asked ++ o.asked := before ▸ Recording.calls_eq served.asked
  have calls' : t'.source.calls = made' ++ asked ++ o'.asked := before' ▸ Recording.calls_eq served'.asked
  rw [calls] at follows
  rw [calls'] at follows'
  -- Both outcomes are the outcome for the one pattern of answers that both sources follow.
  obtain rfl : o = o' := by
    have follows := follows.right
    have follows' := follows'.right
    rw [List.length_append, two] at follows
    rw [List.length_append, two'] at follows'
    rw [outcome] at follows ⊢
    rw [outcome', h.tuning, L.serve_at _ _ r T.state.span.base S.state.span.base] at follows' ⊢
    rw [Layout.serve_congr follows, Layout.serve_congr follows']
  obtain ⟨_, serve, -, answers⟩ := perform_eq_ok done
  obtain ⟨_, serve', -, answers'⟩ := perform_eq_ok done'
  obtain rfl := List.singleton_inj.mp (List.append_cancel_left answers)
  obtain rfl := List.singleton_inj.mp (List.append_cancel_left answers')
  have step := h.paired.serve h.left.healthy h.right.healthy (h.left.permits allowed) serve serve' fits
  refine ⟨o.layout, h.left.settled served settles, h.right.settled served' settles', ?_, ?_, ?_, ?_⟩
  · exact served'.tuning.trans (h.tuning.trans served.tuning.symm)
  · obtain ⟨distances, known, known'⟩ := h.answers
    exact ⟨distances ++ [o.answer.map payloadOf], known.answered served.base rfl, known'.answered served'.base rfl⟩
  · exact ⟨made, made', asked ++ o.asked, two, two', calls.trans (List.append_assoc ..), calls'.trans (List.append_assoc ..)⟩
  · have mirrored := step.mirrored
    rwa [← served.base, ← served'.base] at mirrored

/-- What a client writes keeps two sessions parallel. -/
theorem Parallel.wrote (h : Parallel C D n S T L) {pointer index : Nat} {vs : List UInt8}
    (allowed : S.Allows (.write (S.state.span.base + pointer) index vs))
    (done : S.perform (.write (S.state.span.base + pointer) index vs) = .ok S')
    (done' : T.perform (.write (T.state.span.base + pointer) index vs) = .ok T') (fits : S.state.span.length ≤ n) :
    Parallel C D n S' T' L := by
  have allowed' := h.allows (a := .write pointer index vs) allowed
  cases done
  cases done'
  obtain ⟨x, hx, place, room⟩ := h.left.allows_write allowed
  have place' : T.state.pointerTo x.offset = T.state.span.base + pointer := by
    simp only [HeapState.pointerTo, payloadOf] at place ⊢
    omega
  have wrote := (h.paired.setBytes hx fits index vs room).2.mirrored
  rw [place, place'] at wrote
  exact ⟨h.left.wrote allowed, h.right.wrote allowed', h.tuning, h.answers, h.calls, wrote⟩

/-- The span of a heap does not become shorter. -/
theorem Sound.length_le {C : Contract σ} {S S' : Session σ} (h : S.Sound C L) (allowed : S.Allows a)
    (done : S.perform a = .ok S') : S.state.span.length ≤ S'.state.span.length := by
  cases a with
  | request r =>
    obtain ⟨o, -, served, -⟩ := h.request_eq_ok allowed done
    have finish := HeapState.Served.finish_eq h.healthy served
    have base := served.base
    simp only [Span.finish] at finish
    omega
  | write pointer index vs =>
    cases done
    exact Nat.le_refl _

/-! ## Displaced runs -/

/-- The run on the left is a run of its own. -/
theorem Displaced.reachable (h : Displaced C D n pattern S T) : S.Reachable (Recording.contract C) := by
  induction h with
  | created keeps keeps' made made' agree => exact .created (C.keeps_recorded keeps) made
  | performed _ before allowed done done' follows follows' ih => exact ih.performed allowed done

/-- Displaced runs are parallel as long as the spans have not outgrown the bytes that were known at first. -/
theorem Displaced.parallel (h : Displaced C D n pattern S T) (fits : S.state.span.length ≤ n) :
    ∃ L, Parallel C D n S T L := by
  induction h with
  | created keeps keeps' made made' agree => exact ⟨Layout.empty, .created keeps keeps' made made' agree fits⟩
  | performed a before allowed done done' follows follows' ih =>
    obtain ⟨_, sound⟩ := before.reachable.sound
    have shorter := (sound.length_le allowed done).trans fits
    obtain ⟨L, parallel⟩ := ih shorter
    cases a with
    | request r => exact parallel.requested allowed done done' follows follows' fits
    | write pointer index vs => exact ⟨L, parallel.wrote allowed done done' shorter⟩

/-- Wherever two heaps lie, the same actions with the same answers of their sources give the same answers as distances, ask
for the same growth, and leave the same heads and the same bytes. -/
theorem Displaced.coincide (h : Displaced C D n pattern S T) (fits : S.state.span.length ≤ n) : S.Coincide T := by
  obtain ⟨L, parallel⟩ := h.parallel fits
  exact parallel.coincides fits

/-- Two runs over reservations that begin at different distances from a multiple of sixteen: two allocations, a write, a move,
and a request that neither reservation has room for. -/
theorem Displaced.coincide_reserve : ∃ S T : Session (Recording Reserve),
    Displaced Reserve.contract Reserve.contract 200 (fun j => decide (j < 5)) S T ∧ S.state.span.length ≤ 200 ∧
      S.answers = [some 4144, some 4176, some 4208, none] ∧ T.answers = [some 8240, some 8272, some 8304, none] ∧
      S.Coincide T := by
  have made : Heap.create { probeBudget := 2, selfCheck := false } (Reserve.site 4104 200 UInt64.ofNat).recorded =
      .ok _ _ := rfl
  have made' : Heap.create { probeBudget := 2, selfCheck := false }
      (Reserve.site 8201 200 fun a => UInt64.ofNat (a - 4096)).recorded = .ok _ _ := rfl
  have words : Mirrored 200 4112 8208 ⟨{ background := UInt64.ofNat }, .empty⟩
      ⟨{ background := fun a => UInt64.ofNat (a - 4096) }, .empty⟩ := by
    refine ⟨rfl, fun o _ _ => ?_⟩
    have same : 8208 + o - 4096 = 4112 + o := by omega
    simp [Memory.word, same]
  have agree : ∀ i < 200, Memory.byte { background := fun a => UInt64.ofNat (a - 4096) } (8208 + i) =
      Memory.byte { background := UInt64.ofNat } (4112 + i) := fun i hi => words.byte rfl rfl (by omega)
  have follows : ∀ {n calls later}, calls ++ later = [(0, true), (n, true), (32, true), (32, true), (32, true), (5008, false)] →
      Follows calls fun j => decide (j < 5) := by
    intro n calls later whole
    refine @Follows.left calls later _ ?_
    rw [whole]
    rintro (_ | _ | _ | _ | _ | _ | j) call at_ <;> cases at_ <;> rfl
  have created : Displaced Reserve.contract Reserve.contract 200 (fun j => decide (j < 5)) _ _ :=
    .created (x := Reserve.site 4104 200 UInt64.ofNat) (y := Reserve.site 8201 200 fun a => UInt64.ofNat (a - 4096))
      ⟨by decide, by decide⟩ ⟨by decide, by decide⟩ made made' agree
  have first : Displaced Reserve.contract Reserve.contract 200 _ _ _ :=
    .performed (.request (.allocate 20)) created (by intro _ h; cases h) rfl rfl (follows rfl) (follows rfl)
  have second : Displaced Reserve.contract Reserve.contract 200 _ _ _ :=
    .performed (.request (.allocate 20)) first (by intro _ h; cases h) rfl rfl (follows rfl) (follows rfl)
  have wrote : Displaced Reserve.contract Reserve.contract 200 _ _ _ :=
    .performed (.write 64 3 [1, 2, 3]) second ⟨by decide, _, rfl, by decide⟩ rfl rfl (follows rfl) (follows rfl)
  have moved : Displaced Reserve.contract Reserve.contract 200 _ _ _ :=
    .performed (.request (.resize (some 32) 5)) wrote (by rintro _ ⟨⟩; decide) rfl rfl (follows rfl) (follows rfl)
  have refused : Displaced Reserve.contract Reserve.contract 200 _ _ _ :=
    .performed (.request (.allocate 5000)) moved (by intro _ h; cases h) rfl rfl (follows rfl) (follows rfl)
  have fits : 128 ≤ 200 := by decide
  exact ⟨_, _, refused, fits, rfl, rfl, refused.coincide fits⟩

end Session

end SegregatedFit
