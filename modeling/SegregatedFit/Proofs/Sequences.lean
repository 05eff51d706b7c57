import SegregatedFit.Proofs.Views
import SegregatedFit.Memory.Bytes

/-!
# Free lists implement sequences

The memory and the heads stand for fourteen sequences of free blocks (`Strung`): every block is in the sequence of its class,
once, and no two of them overlap. `FreeList.insert` puts a block at the front of the sequence of its class and
`FreeList.remove` takes a block out of its sequence, wherever it is in it; nothing else is assumed of the memory, so this holds
of lists apart from any heap. It goes on to hold however often blocks join and leave (`Worked`), because neither writes a tag,
and what they write is links of the block and of the members right before and after it (`Nearby`).
-/

namespace SegregatedFit

/-- The block at an offset of the span is free and has the size given. -/
structure Memory.FreeAt (m : Memory) (span : Span) (o size : Nat) : Prop where
  aligned : o % 16 = 8
  large : minBlockSize ≤ size
  fits : o + size ≤ span.epilogueOffset
  free : (m.tag (span.base + o)).allocated = false
  stored : (m.tag (span.base + o)).size = size

/-- The memory and the heads stand for the sequences `ls` of free blocks: the members of each are of its class and linked both
ways, and no two blocks overlap. -/
structure Strung (s : Store) (span : Span) (ls : Lists) : Prop extends Threaded s span.base ls where
  holds : ∀ c, ∀ o ∈ ls c, ∃ size, s.memory.FreeAt span o size ∧ classOf size = c
  apart : ∀ c d, ∀ o ∈ ls c, ∀ p ∈ ls d, o = p ∨ o + (s.memory.tag (span.base + o)).size ≤ p ∨
    p + (s.memory.tag (span.base + p)).size ≤ o

/-- A block joins the list of its class, or leaves it. -/
inductive ListStep where
  | insert (b : Block)
  | remove (b : Block)

namespace ListStep

/-- The block that joins or leaves. -/
def block : ListStep → Block
  | insert b | remove b => b

/-- The step on memory and heads. -/
def run (span : Span) : ListStep → StoreM Unit
  | insert b => FreeList.insert span (span.base + b.offset)
  | remove b => FreeList.remove span (span.base + b.offset)

/-- The step on sequences. -/
def apply (ls : Lists) : ListStep → Lists
  | insert b => ls.push b
  | remove b => ls.drop b

/-- The sequence that the block is in, after it joined or before it leaves. -/
def sequence (ls : Lists) : ListStep → List Nat
  | insert b => ls.push b (classOf b.size)
  | remove b => ls (classOf b.size)

/-- A free block may join when it overlaps no member of any list, and a member may leave while its size is the one it joined
with. -/
def Legal (s : Store) (span : Span) (ls : Lists) : ListStep → Prop
  | insert b => s.memory.FreeAt span b.offset b.size ∧
      ∀ c, ∀ o ∈ ls c, b.offset + b.size ≤ o ∨ o + (s.memory.tag (span.base + o)).size ≤ b.offset
  | remove b => b.offset ∈ ls (classOf b.size) ∧ (s.memory.tag (span.base + b.offset)).size = b.size

end ListStep

/-- The word at `a` is a link of the block at an offset or of a member right before or after it in the sequence `os`. -/
def Nearby (base : Nat) (os : List Nat) (o a : Nat) : Prop :=
  ∃ q, (q = o ∨ [q, o] <:+: os ∨ [o, q] <:+: os) ∧ ∃ l : Link, a = base + q + l.position

/-- What some steps, each of which may be taken where it is, make of a store and its sequences. -/
inductive Worked (span : Span) (s₀ : Store) (ls₀ : Lists) : List ListStep → Store → Lists → Prop where
  | start : Worked span s₀ ls₀ [] s₀ ls₀
  | step {xs : List ListStep} {s t : Store} {ls : Lists} {x : ListStep} (earlier : Worked span s₀ ls₀ xs s ls)
      (legal : x.Legal s span ls) (run : x.run span s = .ok () t) : Worked span s₀ ls₀ (xs ++ [x]) t (x.apply ls)

variable {s t : Store} {span : Span} {ls : Lists} {c d : Fin classCount} {o p : Nat} {b : Block} {x : ListStep}

namespace Strung

theorem listed (h : Strung s span ls) : Listed s span ls where
  toThreaded := h.toThreaded
  place c o ho := by
    obtain ⟨size, ⟨aligned, large, fits, -, -⟩, -⟩ := h.holds c o ho
    simp only [minBlockSize] at large
    omega
  free c o ho := by
    obtain ⟨size, holds, -⟩ := h.holds c o ho
    exact holds.free
  sizeClass c o ho := by
    obtain ⟨size, holds, cls⟩ := h.holds c o ho
    rw [holds.stored, cls]
  spaced c d o ho p hp := by
    obtain ⟨size, holds, -⟩ := h.holds c o ho
    obtain ⟨size', holds', -⟩ := h.holds d p hp
    have large := holds.large
    have large' := holds'.large
    have apart := h.apart c d o ho p hp
    rw [holds.stored, holds'.stored] at apart
    simp only [minBlockSize] at large large'
    omega

/-- Tags that are the same keep the blocks of lists. -/
theorem of_tags (h : Strung s span ls) {ls' : Lists} (threaded : Threaded t span.base ls') (sub : ∀ c, ls' c ⊆ ls c)
    (tags : ∀ c, ∀ o ∈ ls c, t.memory.tag (span.base + o) = s.memory.tag (span.base + o)) : Strung t span ls' where
  toThreaded := threaded
  holds c o ho := by
    obtain ⟨size, ⟨aligned, large, fits, free, stored⟩, cls⟩ := h.holds c o (sub c ho)
    have tag := tags c o (sub c ho)
    exact ⟨size, ⟨aligned, large, fits, by rw [tag, free], by rw [tag, stored]⟩, cls⟩
  apart c d o ho p hp := by
    rw [tags c o (sub c ho), tags d p (sub d hp)]
    exact h.apart c d o (sub c ho) p (sub d hp)

/-- The head says whether a list has members. -/
theorem isEmpty_iff (h : Strung s span ls) (c : Fin classCount) : s.heads.isEmpty c = true ↔ ls c = [] := by
  rw [Heads.isEmpty, beq_iff_eq, h.front]
  cases members : ls c with
  | nil => simp
  | cons o os =>
    have real := h.listed.pos (members ▸ List.mem_cons_self : o ∈ ls c)
    simp [real]

/-! ## Joining and leaving -/

/-- A byte changes only where the word that holds it does. -/
theorem nearby_of_words {m m' : Memory} {base : Nat} {os : List Nat}
    (words : ∀ a, ¬ Nearby base os o a → m'.word a = m.word a) (a : Nat) (changed : m'.byte a ≠ m.byte a) :
    Nearby base os o (Memory.wordAddress a) := by
  by_contra far
  exact changed (by rw [Memory.byte, Memory.byte, words _ far])

/-- A block that overlaps no member joins the front of the sequence of its class. -/
theorem insert (h : Strung s span ls) (legal : (ListStep.insert b).Legal s span ls) :
    FreeList.insert span (span.base + b.offset) s = .ok () (s.linkIn span.base b.offset) ∧
      Strung (s.linkIn span.base b.offset) span (ls.push b) ∧
      ∀ a, ¬ Nearby span.base (ls.push b (classOf b.size)) b.offset a →
        (s.linkIn span.base b.offset).memory.word a = s.memory.word a := by
  obtain ⟨⟨aligned, large, fits, free, stored⟩, apart⟩ := legal
  simp only [minBlockSize] at large
  have place : b.offset % 16 = 8 ∧ b.offset + 32 ≤ span.epilogueOffset := by omega
  have far : ∀ c, ∀ p ∈ ls c, b.offset + 32 ≤ p ∨ p + 32 ≤ b.offset := by
    intro c p hp
    obtain ⟨size, holds, -⟩ := h.holds c p hp
    have large := holds.large
    have away := apart c p hp
    rw [holds.stored] at away
    simp only [minBlockSize] at large
    omega
  have tags : ∀ {d p}, p ∈ ls d ∨ p = b.offset → _ := fun {d p} hp => h.listed.tag_linkIn place far (d := d) (p := p) hp
  refine ⟨h.listed.insert_apply free place far, ⟨h.listed.threaded_linkIn stored place far, ?_, ?_⟩, ?_⟩
  · intro c o ho
    rcases Listed.mem_push.mp ho with ho | ⟨rfl, rfl⟩
    · obtain ⟨size, ⟨aligned, large, fits, free, stored⟩, cls⟩ := h.holds c o ho
      exact ⟨size, ⟨aligned, large, fits, by rw [tags (.inl ho), free], by rw [tags (.inl ho), stored]⟩, cls⟩
    · have tag := tags (d := classOf b.size) (.inr rfl)
      exact ⟨b.size, ⟨aligned, large, fits, by rw [tag, free], by rw [tag, stored]⟩, rfl⟩
  · intro c d o ho p hp
    have at_ : ∀ {e q}, q ∈ ls.push b e → (s.linkIn span.base b.offset).memory.tag (span.base + q) =
        s.memory.tag (span.base + q) := fun hq => tags (Or.imp_right And.left (Listed.mem_push.mp hq))
    rw [at_ ho, at_ hp]
    rcases Listed.mem_push.mp ho with ho | ⟨rfl, -⟩ <;> rcases Listed.mem_push.mp hp with hp | ⟨rfl, -⟩
    · exact h.apart c d o ho p hp
    · rw [stored]
      exact .inr (apart c o ho).symm
    · rw [stored]
      exact .inr (apart d p hp)
    · exact .inl rfl
  · intro a far
    refine Store.word_linkIn ⟨fun own => far ⟨_, .inl rfl, .previous, own⟩, fun own => far ⟨_, .inl rfl, .next, own⟩⟩ ?_
    rw [stored, h.front]
    intro real own
    refine far ⟨_, .inr (.inr ?_), .previous, own⟩
    cases members : ls (classOf b.size) with
    | nil => simp [members] at real
    | cons q os => exact ⟨[], os, by simp [Lists.push, members]⟩

/-- A member leaves its sequence, wherever it is in it. -/
theorem remove (h : Strung s span ls) (hb : b.offset ∈ ls (classOf b.size)) :
    FreeList.remove span (span.base + b.offset) s = .ok () (s.unlink span.base b.offset) ∧
      Strung (s.unlink span.base b.offset) span (ls.drop b) ∧
      ∀ a, ¬ Nearby span.base (ls (classOf b.size)) b.offset a →
        (s.unlink span.base b.offset).memory.word a = s.memory.word a := by
  refine ⟨h.listed.remove_apply hb, h.of_tags (h.listed.threaded_unlink hb) ?_ ?_, ?_⟩
  · exact fun c o ho => ((h.listed.mem_drop hb).mp ho).1
  · exact fun c o ho => h.listed.tag_unlink hb ho
  · intro a far
    obtain ⟨before, after, split, previous, next⟩ := h.listed.around hb
    refine Store.word_unlink (fun real own => far ⟨_, .inr (.inl ?_), .next, own⟩) fun real own =>
      far ⟨_, .inr (.inr ?_), .previous, own⟩
    · rw [previous] at real ⊢
      obtain ⟨front, last⟩ := List.getLast?_eq_some_iff.mp ((getLastD_eq_iff real).mp rfl)
      exact ⟨front, after, by rw [split, last]; simp⟩
    · rw [next] at real ⊢
      obtain ⟨rest, first⟩ := List.head?_eq_some_iff.mp ((headD_eq_iff real).mp rfl)
      exact ⟨before, rest, by rw [split, first]; simp⟩

/-- A step that may be taken does on memory and heads what it does on sequences, and changes only links nearby. -/
theorem step (h : Strung s span ls) (legal : x.Legal s span ls) : ∃ t, x.run span s = .ok () t ∧ Strung t span (x.apply ls) ∧
    ∀ a, t.memory.byte a ≠ s.memory.byte a → Nearby span.base (x.sequence ls) x.block.offset (Memory.wordAddress a) := by
  cases x with
  | insert b =>
    obtain ⟨run, strung, words⟩ := h.insert legal
    exact ⟨_, run, strung, nearby_of_words words⟩
  | remove b =>
    obtain ⟨run, strung, words⟩ := h.remove legal.1
    exact ⟨_, run, strung, nearby_of_words words⟩

/-- The invariant of a run of steps. -/
theorem of_worked {s₀ : Store} {ls₀ : Lists} {xs : List ListStep} (h : Strung s₀ span ls₀)
    (worked : Worked span s₀ ls₀ xs s ls) : Strung s span ls ∧ ls = xs.foldl ListStep.apply ls₀ := by
  induction worked with
  | start => exact ⟨h, rfl⟩
  | step _ legal run ih =>
    obtain ⟨strung, rfl⟩ := ih
    obtain ⟨t, run', strung, -⟩ := strung.step legal
    cases run.symm.trans run'
    exact ⟨strung, by rw [List.foldl_append]; rfl⟩

/-- The lists of a store implement fourteen sequences: after any run of steps, each of which a block may take that joins or
leaves, memory and heads stand for the sequences that the steps lead to, every walk along a list meets its sequence from front
to back, and the next step does the same again and changes nothing but links of its block and of the members next to it. -/
theorem implements {s₀ : Store} {ls₀ : Lists} {xs : List ListStep} (h : Strung s₀ span ls₀)
    (worked : Worked span s₀ ls₀ xs s ls) : Strung s span ls ∧ ls = xs.foldl ListStep.apply ls₀ ∧
      (∀ c, FreeList.members s span c = .ok ((ls c).map (span.base + ·)) ∧ (s.heads.isEmpty c = true ↔ ls c = [])) ∧
      ∀ x : ListStep, x.Legal s span ls → ∃ t, x.run span s = .ok () t ∧ Strung t span (x.apply ls) ∧
        ∀ a, t.memory.byte a ≠ s.memory.byte a →
          Nearby span.base (x.sequence ls) x.block.offset (Memory.wordAddress a) := by
  obtain ⟨strung, same⟩ := h.of_worked worked
  exact ⟨strung, same, fun c => ⟨strung.listed.members_run c, strung.isEmpty_iff c⟩, fun x legal => strung.step legal⟩

/-- Three blocks join one list, and the one in the middle leaves it. -/
theorem implements_middle : ∃ (s₀ s : Store) (span : Span) (ls : Lists), Strung s₀ span (fun _ => []) ∧
    Worked span s₀ (fun _ => []) [.insert ⟨24, 64, false⟩, .insert ⟨88, 64, false⟩, .insert ⟨152, 64, false⟩,
      .remove ⟨88, 64, false⟩] s ls ∧ FreeList.members s span 2 = .ok [4248, 4120] := by
  have began : Worked ⟨4096, 216, rfl, rfl, by decide, by decide⟩
      ⟨(((⟨fun _ => 0, {}⟩ : Memory).setWord 4120 66).setWord 4184 64).setWord 4248 64, .empty⟩ (fun _ => []) [] _ _ := .start
  have first := began.step (x := .insert ⟨24, 64, false⟩) ⟨⟨rfl, by decide, by decide, rfl, rfl⟩, by simp⟩ rfl
  have second := first.step (x := .insert ⟨88, 64, false⟩) ⟨⟨rfl, by decide, by decide, rfl, rfl⟩, by decide +kernel⟩ rfl
  have third := second.step (x := .insert ⟨152, 64, false⟩) ⟨⟨rfl, by decide, by decide, rfl, rfl⟩, by decide +kernel⟩ rfl
  have last := third.step (x := .remove ⟨88, 64, false⟩) ⟨by decide +kernel, rfl⟩ rfl
  have empty : ∀ (m : Memory) (span : Span), Strung ⟨m, .empty⟩ span fun _ => [] := fun _ _ =>
    ⟨⟨fun c => Heads.get_empty c, fun _ => trivial, fun _ => .nil⟩, by simp, by simp⟩
  obtain ⟨-, -, members, -⟩ := (empty _ _).implements last
  exact ⟨_, _, _, _, empty _ _, last, (members 2).1⟩

end Strung

end SegregatedFit
