import SegregatedFit.FreeList

/-!
# The audit of a heap

The audit walks a heap from the prologue to the epilogue, then every free list, and reports the first broken law that it
comes to. It changes nothing, and no walk goes on from a block or a member that failed its inspection. So the walk from
block to block ends at the epilogue (`Audit.size_of_inspectBlock`), and the walk through the lists ends because no more
members are accepted than there are free blocks (`Audit.length_lt_of_inspectMember`).

The inspection of a member is not the first to look at it: its link onwards is read as soon as its address is known, before
any test. At the epilogue, and one word below it, that link lies behind the span. No use is made of it there, since neither
place passes as a member when the walk from block to block has passed.

Free blocks that are in no list are looked for at the end, in a set that has no order of its own. The order of the search
is a parameter (`Audit.Order`, `auditIn`), and it decides which of several missing blocks is reported. `audit` is the audit
that searches in the order of the walk.
-/

namespace SegregatedFit

/-- What an audit that does not pass ends with: a broken law, or a fault of the audit itself. -/
inductive Finding where
  | violation (violation : Violation)
  | fault (fault : Fault)
  deriving DecidableEq, Repr

namespace Audit

/-- Inspects the block at `a`, where `low` and `high` are the first and last address the source says it gave, and
`predecessorAllocated` is the true state of the block before. Answers the tag of the block. -/
def inspectBlock (m : Memory) (span : Span) (low high a : Nat) (predecessorAllocated : Bool) : Except Finding Tag :=
  let t := m.tag a
  let footer := (m.tag (Memory.footerAddress a t.size)).size
  if a < low then .error (.violation (.outOfBounds a low high))
  else if 0x1_0000_0000_0000_0000 ≤ high + 1 then .error (.fault .addOverflow)
  else if high + 1 < a + headerSize ∨ span.epilogue < a then .error (.violation (.outOfBounds a low high))
  else if payloadOf a % alignment ≠ 0 then .error (.violation (.misaligned a))
  else if t.size < minBlockSize ∨ t.size % alignment ≠ 0 then .error (.violation (.badSize a t.size))
  else if 0x1_0000_0000_0000_0000 ≤ a + t.size then .error (.fault .addOverflow)
  else if span.epilogue < a + t.size then .error (.violation (.badSize a t.size))
  else if t.predecessorAllocated ≠ predecessorAllocated then
    .error (.violation (.stalePredecessorFlag a t.predecessorAllocated))
  else if t.allocated then .ok t
  else if predecessorAllocated = false then .error (.violation (.uncoalesced a))
  else if footer ≠ t.size then .error (.violation (.footerMismatch a t.size footer))
  else .ok t

/-- Inspects the epilogue: it is allocated, has size zero, ends where the source's range ends, and knows the true state
of the block before. -/
def inspectEpilogue (m : Memory) (span : Span) (high : Nat) (predecessorAllocated : Bool) : Except Finding Unit :=
  let t := m.tag span.epilogue
  if 0x1_0000_0000_0000_0000 ≤ high + 1 then .error (.fault .addOverflow)
  else if t.size ≠ 0 ∨ t.allocated = false ∨ span.finish ≠ high + 1 then
    .error (.violation (.damagedEpilogue span.epilogue (high + 1)))
  else if t.predecessorAllocated ≠ predecessorAllocated then
    .error (.violation (.stalePredecessorFlag span.epilogue t.predecessorAllocated))
  else .ok ()

/-- A block that passes has at least the smallest size and ends at or before the epilogue. -/
theorem size_of_inspectBlock {m : Memory} {span : Span} {low high a : Nat} {flag : Bool} {t : Tag}
    (h : inspectBlock m span low high a flag = .ok t) : 32 ≤ t.size ∧ a + t.size ≤ span.epilogue := by
  unfold inspectBlock at h
  extract_lets tag footer at h
  simp only [minBlockSize] at h
  by_cases small : tag.size < 32 ∨ tag.size % alignment ≠ 0
  · simp only [small, if_true] at h
    grind
  by_cases long : span.epilogue < a + tag.size
  · simp only [long, if_true] at h
    grind
  have : t = tag := by grind
  rw [this]
  omega

/-- Walks from the block at `a` to the epilogue. Answers the free blocks met, in the order of their addresses. -/
def walk (m : Memory) (span : Span) (low high a : Nat) (predecessorAllocated : Bool) : Except Finding (List Nat) :=
  if a = span.epilogue then (inspectEpilogue m span high predecessorAllocated).map fun _ => []
  else match _h : inspectBlock m span low high a predecessorAllocated with
    | .error finding => .error finding
    | .ok t => (walk m span low high (a + t.size) t.allocated).map fun free => if t.allocated then free else a :: free
termination_by span.epilogue - a
decreasing_by have := size_of_inspectBlock _h; omega

/-- Inspects the block at `a` as the next member of the list of a class: `listed` are the members accepted so far in
this list and the lists before it, and `back` is the offset of the member before, zero for the first. -/
def inspectMember (m : Memory) (span : Span) (freeCount : Nat) (c : Fin classCount) (listed : List Nat) (back a : Nat) :
    Except Finding Unit :=
  let t := m.tag a
  if span.contains a = false then .error (.violation (.outOfBounds a span.base (span.finish - 1)))
  else if t.allocated then .error (.violation (.allocatedInFreeList a c))
  else if classOf t.size ≠ c then .error (.violation (.wrongClass a t.size c))
  else if m.link a .previous ≠ back ∨ a ∈ listed ∨ freeCount ≤ listed.length then .error (.violation (.brokenLink a))
  else .ok ()

/-- A member that passes is not one too many. -/
theorem length_lt_of_inspectMember {m : Memory} {span : Span} {freeCount : Nat} {c : Fin classCount} {listed : List Nat}
    {back a : Nat} {u : Unit} (h : inspectMember m span freeCount c listed back a = .ok u) : listed.length < freeCount := by
  grind [inspectMember]

/-- Walks one list from an offset on. Answers the members accepted, the latest first. The link onwards of a member is read
before the member is inspected. -/
def walkList (m : Memory) (span : Span) (freeCount : Nat) (c : Fin classCount) (listed : List Nat) (back cursor : Nat) :
    Except Finding (List Nat) :=
  if cursor = 0 then .ok listed
  else match span.blockAt cursor with
    | .error f => .error (.fault f)
    | .ok a =>
      let next := m.link a .next
      match _h : inspectMember m span freeCount c listed back a with
      | .error finding => .error finding
      | .ok () => walkList m span freeCount c (a :: listed) cursor next
termination_by freeCount - listed.length
decreasing_by have := length_lt_of_inspectMember _h; simp only [List.length_cons]; omega

/-- Walks all lists. Answers their members. -/
def walkLists (s : Store) (span : Span) (freeCount : Nat) : Except Finding (List Nat) :=
  (List.finRange classCount).foldlM (fun listed c => walkList s.memory span freeCount c listed 0 (s.heads.get c)) []

/-- An order in which a set of blocks is searched: each block of the set has its turn once. -/
structure Order where
  run : List Nat → List Nat
  perm : ∀ free, (run free).Perm free

namespace Order

/-- The order in which the walk met the blocks. -/
def walk : Order := ⟨id, List.Perm.refl⟩

@[simp]
theorem mem_run {order : Order} {free : List Nat} {a : Nat} : a ∈ order.run free ↔ a ∈ free := (order.perm free).mem_iff

end Order

end Audit

/-- Audits a heap whose source says that its range is from `low` to `high`, and searches the free blocks in the order given
for one that is in no list. -/
def auditIn (order : Audit.Order) (s : Store) (span : Span) (low high : Nat) : Except Finding Unit := do
  if s.memory.tag span.prologue ≠ { size := prologueSize, allocated := true, predecessorAllocated := true } then
    throw (.violation (.damagedPrologue span.prologue))
  let free ← Audit.walk s.memory span low high (span.prologue + prologueSize) true
  let listed ← Audit.walkLists s span free.length
  match (order.run free).find? (fun a => decide (a ∉ listed)) with
  | some a => throw (.violation (.unlisted a))
  | none => return

/-- Audits a heap, and searches the free blocks in the order of the walk. -/
def audit (s : Store) (span : Span) (low high : Nat) : Except Finding Unit := auditIn .walk s span low high

end SegregatedFit
