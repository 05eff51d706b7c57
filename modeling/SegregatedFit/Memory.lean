import Std.Data.TreeMap

/-!
# Memory

One address space that all heaps and their clients share. It is a map from addresses to 64-bit words: every header,
footer and link is one word at a multiple of eight, and `Memory.word_setWord` is all that a proof about them needs. The
bytes of a client are a second view of the same words (`SegregatedFit.Memory.Bytes`).

What a word held before anything was written to it is up to the machine, so a memory starts from a background that can
be any function of the address.
-/

namespace SegregatedFit

/-- The contents of an address space. -/
structure Memory where
  /-- What the words held at first. -/
  background : Nat → UInt64
  /-- The words written since, by address. -/
  written : Std.TreeMap Nat UInt64 := {}

namespace Memory

/-- The word at an address. -/
def word (m : Memory) (a : Nat) : UInt64 :=
  match m.written[a]? with
  | some w => w
  | none => m.background a

/-- The memory with another word at an address. -/
def setWord (m : Memory) (a : Nat) (w : UInt64) : Memory := { m with written := m.written.insert a w }

/-- A word that was written is read back, and no other word changes. -/
theorem word_setWord (m : Memory) (a b : Nat) (w : UInt64) : (m.setWord a w).word b = if b = a then w else m.word b := by
  unfold word setWord
  by_cases h : b = a
  · simp [h]
  · simp [Std.TreeMap.getElem?_insert, h, Ne.symm h]

@[simp] theorem word_setWord_self (m : Memory) (a : Nat) (w : UInt64) : (m.setWord a w).word a = w := by
  simp [word_setWord]

theorem word_setWord_of_ne (m : Memory) {a b : Nat} (w : UInt64) (h : b ≠ a) : (m.setWord a w).word b = m.word b := by
  simp [word_setWord, h]

end Memory

end SegregatedFit
