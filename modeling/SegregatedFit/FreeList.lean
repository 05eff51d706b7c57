import SegregatedFit.Store

/-!
# Free lists

Every size class has a doubly linked list of free blocks. The links are offsets in the span, kept in the first two words
of the payloads of the free blocks themselves, and the last `next` and the first `previous` are zero. Blocks join at the
front.
-/

namespace SegregatedFit

namespace FreeList

/-- Puts a free block at the front of the list of its class. -/
def insert (span : Span) (b : Nat) : StoreM Unit := do
  let tag ← StoreM.tag b
  if tag.allocated then throw (.insertAllocated b)
  let sizeClass := classOf tag.size
  let offset ← span.offsetOf b
  let front ← StoreM.head sizeClass
  StoreM.setLink b .previous 0
  StoreM.setLink b .next front
  if front ≠ 0 then StoreM.setLink (← span.blockAt front) .previous offset
  StoreM.setHead sizeClass offset

/-- Takes a free block out of the list of its class. Its size must be the one it joined with, because the size says
which head may have to change. -/
def remove (span : Span) (b : Nat) : StoreM Unit := do
  let tag ← StoreM.tag b
  if tag.allocated then throw (.removeAllocated b)
  let sizeClass := classOf tag.size
  let previous ← StoreM.link b .previous
  let next ← StoreM.link b .next
  if previous ≠ 0 then StoreM.setLink (← span.blockAt previous) .next next
  if next ≠ 0 then StoreM.setLink (← span.blockAt next) .previous previous
  if (← StoreM.head sizeClass) = (← span.offsetOf b) then StoreM.setHead sizeClass next

/-- The blocks from an offset on along the `next` links, a fault when there are more than `limit` of them. -/
def follow (m : Memory) (span : Span) (limit cursor : Nat) : Except Fault (List Nat) :=
  if cursor = 0 then .ok []
  else match limit with
    | 0 => .error .endlessWalk
    | limit + 1 => do
      let b ← span.blockAt cursor
      return b :: (← follow m span limit (m.link b .next))

/-- The members of the list of a class from front to back. A span has room for fewer blocks than it has words, so a list
with more members than words meets some block twice and never ends. -/
def members (s : Store) (span : Span) (c : Fin classCount) : Except Fault (List Nat) :=
  follow s.memory span (span.length / 8) (s.heads.get c)

end FreeList

end SegregatedFit
