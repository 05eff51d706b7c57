import SegregatedFit.Proofs.Walk

/-!
# How much an audit looks at

The audit follows sizes and links that may be damaged, and ends all the same. `Audit.Walks`, `Audit.ListWalks` and `Audits` are
its loops as relations that record every block and every member looked at. A relation has no reason to end of its own: that a
run exists at all is what `audit_ends` says, together with what the one run there is looks at. The walk from block to block goes
up by the size of the smallest block at least, and the walk through the lists by one member of which there are no more than free
blocks, but for the last that each looks at, which may fail.
-/

namespace SegregatedFit

namespace Audit

section Blocks

variable (m : Memory) (span : Span) (low high : Nat)

/-- A run of the walk from the block at an address to the epilogue, behind a block of the state given: the addresses it looks
at, and how it ends. -/
inductive Walks : (a : Nat) → (state : Bool) → (looked : List Nat) → Except Finding (List Nat) → Prop where
  | epilogue (state : Bool) : Walks span.epilogue state [] ((inspectEpilogue m span high state).map fun _ => [])
  | stops {a : Nat} {state : Bool} {e : Finding} (inside : a ≠ span.epilogue)
      (fails : inspectBlock m span low high a state = .error e) : Walks a state [a] (.error e)
  | passes {a : Nat} {state : Bool} {t : Tag} {looked : List Nat} {r : Except Finding (List Nat)} (inside : a ≠ span.epilogue)
      (passed : inspectBlock m span low high a state = .ok t) (rest : Walks (a + t.size) t.allocated looked r) :
      Walks a state (a :: looked) (r.map fun free => if t.allocated then free else a :: free)

end Blocks

section Members

variable (m : Memory) (span : Span) (freeCount : Nat) (c : Fin classCount)

/-- A run of the walk through the list of a class from an offset on: the offsets it looks at, and how it ends. -/
inductive ListWalks : (listed : List Nat) → (back cursor : Nat) → (looked : List Nat) → Except Finding (List Nat) → Prop where
  | ends {listed : List Nat} {back : Nat} : ListWalks listed back 0 [] (.ok listed)
  | strays {listed : List Nat} {back cursor : Nat} {f : Fault} (real : cursor ≠ 0) (stray : span.blockAt cursor = .error f) :
      ListWalks listed back cursor [cursor] (.error (.fault f))
  | stops {listed : List Nat} {back cursor a : Nat} {e : Finding} (real : cursor ≠ 0) (found : span.blockAt cursor = .ok a)
      (fails : inspectMember m span freeCount c listed back a = .error e) : ListWalks listed back cursor [cursor] (.error e)
  | accepts {listed looked : List Nat} {back cursor a : Nat} {r : Except Finding (List Nat)} (real : cursor ≠ 0)
      (found : span.blockAt cursor = .ok a) (passed : inspectMember m span freeCount c listed back a = .ok ())
      (rest : ListWalks (a :: listed) cursor (m.link a .next) looked r) : ListWalks listed back cursor (cursor :: looked) r

end Members

/-- A run of the walk through the lists of some classes. -/
inductive AllListsWalk (s : Store) (span : Span) (freeCount : Nat) :
    List (Fin classCount) → (listed looked : List Nat) → Except Finding (List Nat) → Prop where
  | ends {listed : List Nat} : AllListsWalk s span freeCount [] listed [] (.ok listed)
  | stops {c : Fin classCount} {cs : List (Fin classCount)} {listed looked : List Nat} {e : Finding}
      (here : ListWalks s.memory span freeCount c listed 0 (s.heads.get c) looked (.error e)) :
      AllListsWalk s span freeCount (c :: cs) listed looked (.error e)
  | goesOn {c : Fin classCount} {cs : List (Fin classCount)} {listed listed' looked looked' : List Nat}
      {r : Except Finding (List Nat)} (here : ListWalks s.memory span freeCount c listed 0 (s.heads.get c) looked (.ok listed'))
      (rest : AllListsWalk s span freeCount cs listed' looked' r) :
      AllListsWalk s span freeCount (c :: cs) listed (looked ++ looked') r

variable {m : Memory} {s : Store} {span : Span} {low high a freeCount back cursor : Nat} {state : Bool} {c : Fin classCount}
  {cs : List (Fin classCount)} {listed listed' looked looked' : List Nat} {r r' : Except Finding (List Nat)}

/-! ## The walk from block to block -/

/-- The walk has a run. -/
theorem walk_walks (m : Memory) (span : Span) (low high a : Nat) (state : Bool) :
    ∃ looked, Walks m span low high a state looked (walk m span low high a state) := by
  fun_induction walk m span low high a state with
  | case1 state => exact ⟨[], .epilogue state⟩
  | case2 a state inside e fails => exact ⟨[a], .stops inside fails⟩
  | case3 a state inside t passed ih =>
    obtain ⟨looked, rest⟩ := ih
    exact ⟨a :: looked, .passes inside passed rest⟩

namespace Walks

/-- The walk has one run only. -/
theorem unique (h : Walks m span low high a state looked r) (h' : Walks m span low high a state looked' r') :
    looked' = looked ∧ r' = r := by
  induction h generalizing looked' r' with
  | epilogue state =>
    cases h' with
    | epilogue => exact ⟨rfl, rfl⟩
    | stops inside _ => exact absurd rfl inside
    | passes inside _ _ => exact absurd rfl inside
  | stops inside fails =>
    cases h' with
    | epilogue => exact absurd rfl inside
    | stops _ fails' =>
      cases fails.symm.trans fails'
      exact ⟨rfl, rfl⟩
    | passes _ passed _ => cases fails.symm.trans passed
  | passes inside passed _ ih =>
    cases h' with
    | epilogue => exact absurd rfl inside
    | stops _ fails => cases passed.symm.trans fails
    | passes _ passed' rest' =>
      cases passed.symm.trans passed'
      obtain ⟨rfl, rfl⟩ := ih rest'
      exact ⟨rfl, rfl⟩

/-- The walk looks at increasing addresses between its start and the epilogue. -/
theorem increasing (h : Walks m span low high a state looked r) (le : a ≤ span.epilogue) :
    looked.Pairwise (· < ·) ∧ ∀ b ∈ looked, a ≤ b ∧ b < span.epilogue := by
  induction h with
  | epilogue => simp
  | stops inside _ => simpa using Nat.lt_of_le_of_ne le inside
  | @passes a _ t looked _ inside passed _ ih =>
    obtain ⟨large, below⟩ := size_of_inspectBlock passed
    obtain ⟨sorted, bounds⟩ := ih below
    refine ⟨List.pairwise_cons.mpr ⟨fun b hb => ?_, sorted⟩, ?_⟩
    · have := (bounds b hb).1
      omega
    · intro b hb
      rcases List.mem_cons.mp hb with rfl | hb
      · exact ⟨Nat.le_refl _, Nat.lt_of_le_of_ne le inside⟩
      · have := bounds b hb
        omega

/-- The walk looks at no more blocks than there is room for, and one more. -/
theorem length_le (h : Walks m span low high a state looked r) (le : a ≤ span.epilogue) :
    looked.length ≤ (span.epilogue - a) / 32 + 1 := by
  induction h with
  | epilogue => simp
  | stops => simp
  | passes inside passed _ ih =>
    obtain ⟨large, below⟩ := size_of_inspectBlock passed
    have := ih below
    rw [List.length_cons]
    omega

end Walks

/-! ## The walk through the lists -/

/-- The walk through one list has a run. -/
theorem walkList_walks (m : Memory) (span : Span) (freeCount : Nat) (c : Fin classCount) (listed : List Nat)
    (back cursor : Nat) :
    ∃ looked, ListWalks m span freeCount c listed back cursor looked (walkList m span freeCount c listed back cursor) := by
  fun_induction walkList m span freeCount c listed back cursor with
  | case1 => exact ⟨[], .ends⟩
  | case2 listed back cursor real f stray => exact ⟨[cursor], .strays real stray⟩
  | case3 listed back cursor real a found e fails => exact ⟨[cursor], .stops real found fails⟩
  | case4 listed back cursor real a found _ passed ih =>
    obtain ⟨looked, rest⟩ := ih
    exact ⟨cursor :: looked, .accepts real found passed rest⟩

/-- The walk through one list has one run only. -/
theorem ListWalks.unique (h : ListWalks m span freeCount c listed back cursor looked r)
    (h' : ListWalks m span freeCount c listed back cursor looked' r') : looked' = looked ∧ r' = r := by
  induction h generalizing looked' r' with
  | ends =>
    cases h' with
    | ends => exact ⟨rfl, rfl⟩
    | strays real _ => exact absurd rfl real
    | stops real _ _ => exact absurd rfl real
    | accepts real _ _ _ => exact absurd rfl real
  | strays real stray =>
    cases h' with
    | ends => exact absurd rfl real
    | strays _ stray' =>
      cases stray.symm.trans stray'
      exact ⟨rfl, rfl⟩
    | stops _ found _ => cases stray.symm.trans found
    | accepts _ found _ _ => cases stray.symm.trans found
  | stops real found fails =>
    cases h' with
    | ends => exact absurd rfl real
    | strays _ stray => cases found.symm.trans stray
    | stops _ found' fails' =>
      cases found.symm.trans found'
      cases fails.symm.trans fails'
      exact ⟨rfl, rfl⟩
    | accepts _ found' passed _ =>
      cases found.symm.trans found'
      cases fails.symm.trans passed
  | accepts real found passed _ ih =>
    cases h' with
    | ends => exact absurd rfl real
    | strays _ stray => cases found.symm.trans stray
    | stops _ found' fails =>
      cases found.symm.trans found'
      cases passed.symm.trans fails
    | accepts _ found' _ rest' =>
      cases found.symm.trans found'
      obtain ⟨rfl, rfl⟩ := ih rest'
      exact ⟨rfl, rfl⟩

/-- A walk through a list that comes to its end has accepted every member it looked at, and no more than there are free blocks;
one that does not may have looked at one more. -/
theorem ListWalks.count (h : ListWalks m span freeCount c listed back cursor looked r) (le : listed.length ≤ freeCount) :
    listed.length + looked.length ≤ freeCount + 1 ∧
      ∀ listed', r = .ok listed' → listed'.length = listed.length + looked.length ∧ listed'.length ≤ freeCount := by
  induction h with
  | ends =>
    refine ⟨by simp only [List.length_nil]; omega, ?_⟩
    rintro _ ⟨⟩
    exact ⟨rfl, le⟩
  | strays | stops =>
    refine ⟨by simp only [List.length_cons, List.length_nil]; omega, ?_⟩
    rintro _ ⟨⟩
  | accepts _ _ passed _ ih =>
    have := length_lt_of_inspectMember passed
    obtain ⟨count, complete⟩ := ih (by rwa [List.length_cons])
    simp only [List.length_cons] at count complete ⊢
    refine ⟨by omega, fun listed' ended => ?_⟩
    obtain ⟨length, most⟩ := complete listed' ended
    exact ⟨by omega, most⟩

/-- The walk through the lists has a run. -/
theorem foldlM_walks (s : Store) (span : Span) (freeCount : Nat) (cs : List (Fin classCount)) (listed : List Nat) :
    ∃ looked, AllListsWalk s span freeCount cs listed looked
      (cs.foldlM (fun listed c => walkList s.memory span freeCount c listed 0 (s.heads.get c)) listed) := by
  induction cs generalizing listed with
  | nil => exact ⟨[], .ends⟩
  | cons c cs ih =>
    obtain ⟨looked, here⟩ := walkList_walks s.memory span freeCount c listed 0 (s.heads.get c)
    rw [List.foldlM_cons]
    cases run : walkList s.memory span freeCount c listed 0 (s.heads.get c) with
    | error e => exact ⟨looked, .stops (run ▸ here)⟩
    | ok listed' =>
      obtain ⟨looked', rest⟩ := ih listed'
      exact ⟨looked ++ looked', .goesOn (run ▸ here) rest⟩

namespace AllListsWalk

/-- The walk through the lists has one run only. -/
theorem unique (h : AllListsWalk s span freeCount cs listed looked r)
    (h' : AllListsWalk s span freeCount cs listed looked' r') : looked' = looked ∧ r' = r := by
  induction h generalizing looked' r' with
  | ends =>
    cases h'
    exact ⟨rfl, rfl⟩
  | stops here =>
    cases h' with
    | stops here' =>
      obtain ⟨rfl, same⟩ := here.unique here'
      exact ⟨rfl, same⟩
    | goesOn here' _ => cases (here.unique here').2
  | goesOn here _ ih =>
    cases h' with
    | stops here' => cases (here.unique here').2
    | goesOn here' rest' =>
      obtain ⟨rfl, ⟨⟩⟩ := here.unique here'
      obtain ⟨rfl, rfl⟩ := ih rest'
      exact ⟨rfl, rfl⟩

/-- The walk looks at no more members than there are free blocks, and one more, over all lists together. -/
theorem count (h : AllListsWalk s span freeCount cs listed looked r) (le : listed.length ≤ freeCount) :
    listed.length + looked.length ≤ freeCount + 1 := by
  induction h with
  | ends =>
    rw [List.length_nil]
    omega
  | stops here => exact (here.count le).1
  | goesOn here _ ih =>
    obtain ⟨length, most⟩ := (here.count le).2 _ rfl
    have := ih most
    rw [List.length_append]
    omega

end AllListsWalk

end Audit

/-! ## The whole audit -/

open Audit

/-- A run of the audit: the addresses of the blocks and the offsets of the members it looks at, and how it ends. -/
inductive Audits (s : Store) (span : Span) (low high : Nat) : (blocks members : List Nat) → Except Finding Unit → Prop where
  | prologue (damaged : s.memory.tag span.prologue ≠ ⟨prologueSize, true, true⟩) :
      Audits s span low high [] [] (.error (.violation (.damagedPrologue span.prologue)))
  | blocks {blocks : List Nat} {e : Finding} (prologue : s.memory.tag span.prologue = ⟨prologueSize, true, true⟩)
      (walked : Walks s.memory span low high (span.prologue + prologueSize) true blocks (.error e)) :
      Audits s span low high blocks [] (.error e)
  | lists {blocks free members : List Nat} {r : Except Finding (List Nat)}
      (prologue : s.memory.tag span.prologue = ⟨prologueSize, true, true⟩)
      (walked : Walks s.memory span low high (span.prologue + prologueSize) true blocks (.ok free))
      (met : AllListsWalk s span free.length (List.finRange classCount) [] members r) :
      Audits s span low high blocks members (r.bind fun listed =>
        match free.find? (fun a => decide (a ∉ listed)) with
        | some a => .error (.violation (.unlisted a))
        | none => .ok ())

variable {s : Store} {span : Span} {low high : Nat} {blocks blocks' members members' : List Nat} {r r' : Except Finding Unit}

/-- The audit has a run. -/
theorem audit_audits (s : Store) (span : Span) (low high : Nat) :
    ∃ blocks members, Audits s span low high blocks members (audit s span low high) := by
  obtain ⟨blocks, walked⟩ := walk_walks s.memory span low high (span.prologue + prologueSize) true
  unfold audit auditIn
  by_cases prologue : s.memory.tag span.prologue = ⟨prologueSize, true, true⟩
  · simp only [prologue, ne_eq, not_true_eq_false, if_false]
    cases met : walk s.memory span low high (span.prologue + prologueSize) true with
    | error e => exact ⟨blocks, [], .blocks prologue (met ▸ walked)⟩
    | ok free =>
      obtain ⟨members, listed⟩ := foldlM_walks s span free.length (List.finRange classCount) []
      refine ⟨blocks, members, ?_⟩
      have run := Audits.lists prologue (met ▸ walked) listed
      exact run
  · simp only [prologue, ne_eq, not_false_eq_true, if_true]
    exact ⟨[], [], .prologue prologue⟩

namespace Audits

/-- The audit has one run only. -/
theorem unique (h : Audits s span low high blocks members r) (h' : Audits s span low high blocks' members' r') :
    blocks' = blocks ∧ members' = members ∧ r' = r := by
  cases h with
  | prologue damaged =>
    cases h' with
    | prologue => exact ⟨rfl, rfl, rfl⟩
    | blocks prologue _ => exact absurd prologue damaged
    | lists prologue _ _ => exact absurd prologue damaged
  | blocks prologue walked =>
    cases h' with
    | prologue damaged => exact absurd prologue damaged
    | blocks _ walked' =>
      obtain ⟨rfl, ⟨⟩⟩ := walked.unique walked'
      exact ⟨rfl, rfl, rfl⟩
    | lists _ walked' _ => cases (walked.unique walked').2
  | lists prologue walked met =>
    cases h' with
    | prologue damaged => exact absurd prologue damaged
    | blocks _ walked' => cases (walked.unique walked').2
    | lists _ walked' met' =>
      obtain ⟨rfl, ⟨⟩⟩ := walked.unique walked'
      obtain ⟨rfl, rfl⟩ := met.unique met'
      exact ⟨rfl, rfl, rfl⟩

/-- What a run looks at of the blocks. -/
theorem blocks_looked (h : Audits s span low high blocks members r) : blocks.Pairwise (· < ·) ∧
    (∀ a ∈ blocks, span.base + 24 ≤ a ∧ a < span.epilogue) ∧ blocks.length ≤ (span.epilogueOffset - 24) / 32 + 1 := by
  have le : span.base + 24 ≤ span.epilogue := Nat.add_le_add_left span.first_le _
  have room : span.epilogue - (span.base + 24) = span.epilogueOffset - 24 := Nat.add_sub_add_left _ _ _
  cases h with
  | prologue => simp
  | blocks _ walked | lists _ walked _ =>
    obtain ⟨sorted, bounds⟩ := walked.increasing le
    exact ⟨sorted, bounds, room ▸ walked.length_le le⟩

/-- What a run looks at of the members: there are any only when the walk from block to block has passed. -/
theorem members_looked (h : Audits s span low high blocks members r) (some : members ≠ []) : ∃ free,
    walk s.memory span low high (span.base + 24) true = .ok free ∧ members.length ≤ free.length + 1 := by
  cases h with
  | prologue | blocks => exact absurd rfl some
  | lists _ walked met =>
    obtain ⟨blocks', walked'⟩ := walk_walks s.memory span low high (span.base + 24) true
    obtain ⟨-, same⟩ := walked.unique walked'
    have count := met.count (Nat.zero_le _)
    rw [List.length_nil, Nat.zero_add] at count
    exact ⟨_, same, count⟩

end Audits

/-- The audit ends, whatever the memory and the heads are: it has one run. The walk from block to block looks at increasing
addresses before the epilogue and at no more blocks than there is room for, and one more. The walk through the lists looks at no
more members than the walk from block to block met free blocks, and one more, over all lists together. -/
theorem audit_ends (s : Store) (span : Span) (low high : Nat) : ∃ blocks members,
    (∀ bs ms r, Audits s span low high bs ms r ↔ bs = blocks ∧ ms = members ∧ r = audit s span low high) ∧
      blocks.Pairwise (· < ·) ∧ (∀ a ∈ blocks, span.base + 24 ≤ a ∧ a < span.epilogue) ∧
      blocks.length ≤ (span.epilogueOffset - 24) / 32 + 1 ∧
      (members ≠ [] → ∃ free, walk s.memory span low high (span.base + 24) true = .ok free ∧
        members.length ≤ free.length + 1) := by
  obtain ⟨blocks, members, run⟩ := audit_audits s span low high
  obtain ⟨sorted, bounds, length⟩ := run.blocks_looked
  refine ⟨blocks, members, fun bs ms r => ⟨run.unique, ?_⟩, sorted, bounds, length, run.members_looked⟩
  rintro ⟨rfl, rfl, rfl⟩
  exact run

end SegregatedFit
