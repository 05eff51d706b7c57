import SegregatedFit.Memory.Block

/-!
# The span of a heap

A heap lies in one span of addresses that begins at a multiple of sixteen:

    base                                                          finish
     | unused | prologue | its footer | block … block | epilogue |
     0        8          16           24              finish - 8

The prologue and the epilogue are allocated blocks that are never handed out, so every block between them has a
neighbour on either side. Offsets are counted from the base. No block stands at offset zero, so zero is free to mean "no
block" in links.

The span is contained in the 64-bit address space by its type: no sum of the base and an offset in the heap overflows.
-/

namespace SegregatedFit

/-- The bytes from the prologue to its end. -/
@[simp] def prologueSize : Nat := 16

/-- The offset of the prologue. -/
@[simp] def prologueOffset : Nat := 8

/-- The bytes of a heap without blocks. -/
@[simp] def initialLength : Nat := 32

/-- Where a heap lies. -/
structure Span where
  /-- The first address. -/
  base : Nat
  /-- The offset of the epilogue. -/
  epilogueOffset : Nat
  base_aligned : base % 16 = 0
  epilogueOffset_aligned : epilogueOffset % 16 = 8
  first_le : 24 ≤ epilogueOffset
  finish_lt : base + epilogueOffset + 8 < 0x1_0000_0000_0000_0000
  deriving DecidableEq

namespace Span

/-- The span of a heap without blocks. -/
def initial (base : Nat) : Except Fault Span :=
  if aligned : base % 16 = 0 then
    if fits : base + 24 + 8 < 0x1_0000_0000_0000_0000 then
      .ok { base, epilogueOffset := 24, base_aligned := aligned, epilogueOffset_aligned := rfl, first_le := Nat.le_refl 24,
            finish_lt := fits }
    else .error .addOverflow
  else .error (.unalignedHeader base)

/-- The bytes of the span, the epilogue included. -/
def length (s : Span) : Nat := s.epilogueOffset + headerSize

/-- The address right after the last byte of the span. -/
def finish (s : Span) : Nat := s.base + s.length

/-- The address of the prologue. -/
def prologue (s : Span) : Nat := s.base + prologueOffset

/-- The address of the epilogue. -/
def epilogue (s : Span) : Nat := s.base + s.epilogueOffset

/-- Whether an address lies in the span. -/
def contains (s : Span) (a : Nat) : Bool := s.base ≤ a && a < s.finish

/-- The block at an offset, which may be any from the prologue's to the epilogue's. -/
def blockAt (s : Span) (offset : Nat) : Except Fault Nat :=
  if offset < prologueOffset ∨ s.epilogueOffset < offset then .error (.offsetOutside offset)
  else if (s.base + offset) % 8 ≠ 0 then .error (.unalignedHeader (s.base + offset))
  else .ok (s.base + offset)

/-- The offset of a block. -/
def offsetOf (s : Span) (b : Nat) : Except Fault Nat :=
  if s.contains b then .ok (b - s.base) else .error .addressOutside

/-- The span with `delta` bytes more at its end. -/
def grow (s : Span) (delta : Nat) : Except Fault Span :=
  if aligned : delta % 16 = 0 then
    if fits : s.base + (s.epilogueOffset + delta) + 8 < 0x1_0000_0000_0000_0000 then
      .ok { s with
        epilogueOffset := s.epilogueOffset + delta
        epilogueOffset_aligned := by have := s.epilogueOffset_aligned; omega
        first_le := by have := s.first_le; omega
        finish_lt := fits }
    else .error .addOverflow
  else .error (.unalignedSize delta)

/-! ## Offsets and addresses -/

theorem contains_iff {s : Span} {a : Nat} : s.contains a ↔ s.base ≤ a ∧ a < s.finish := by
  simp [contains]

theorem blockAt_eq_ok_iff {s : Span} {offset b : Nat} :
    s.blockAt offset = .ok b ↔ (8 ≤ offset ∧ offset ≤ s.epilogueOffset ∧ offset % 8 = 0) ∧ b = s.base + offset := by
  have := s.base_aligned
  unfold blockAt
  split
  · simp only [reduceCtorEq, false_iff]
    rintro ⟨h, -⟩
    simp only [prologueOffset] at *
    omega
  · split
    · simp only [reduceCtorEq, false_iff]
      rintro ⟨h, -⟩
      omega
    · simp only [prologueOffset, Except.ok.injEq] at *
      omega

theorem offsetOf_eq_ok_iff {s : Span} {b offset : Nat} :
    s.offsetOf b = .ok offset ↔ s.contains b ∧ offset = b - s.base := by
  unfold offsetOf
  by_cases h : s.contains b <;> simp [h, eq_comm]

end Span

end SegregatedFit
