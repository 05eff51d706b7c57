import SegregatedFit.Tag
import Mathlib.Data.Set.Function

/-!
# Tags and their words

A tag is made of a size and two flags, or read from a word, and may then be given another size or other flags any number of
times (`Tag.build`). A size that is not a multiple of sixteen is a fault, and nothing else is (`Tag.build_eq_error_iff`). What
comes out is a tag that a word can hold (`Tag.Storable`), since the size that is read from a word is a multiple of sixteen and
the flags do not touch it; and every such tag comes out of some chain (`Tag.built_iff`).

Such a tag is read back from its word, so different ones have different words. The other way around bits 2 and 3 of a word are
lost (`Tag.encode_decode`), and the words without them are the words of tags.
-/

namespace SegregatedFit

namespace Tag

/-- Where a tag comes from: it is made of a size and two flags, or read from a word. -/
inductive Origin where
  | make (size : UInt64) (allocated predecessorAllocated : Bool)
  | decode (w : UInt64)
  deriving DecidableEq, Repr

/-- A change of one part of a tag. -/
inductive Change where
  | size (n : UInt64)
  | allocated (flag : Bool)
  | predecessorAllocated (flag : Bool)
  deriving DecidableEq, Repr

namespace Origin

/-- The origin of the tag of an allocated block. -/
def allocated (size : UInt64) (predecessorAllocated : Bool) : Origin := make size true predecessorAllocated

/-- The origin of the tag of a free block. -/
def free (size : UInt64) (predecessorAllocated : Bool) : Origin := make size false predecessorAllocated

/-- The tag at an origin. -/
def tag : Origin → Except Fault Tag
  | make size allocated predecessorAllocated => Tag.make size.toNat allocated predecessorAllocated
  | decode w => .ok (Tag.decode w)

/-- The size that an origin names. -/
def size? : Origin → Option UInt64
  | make size _ _ => some size
  | decode _ => none

end Origin

/-- The tag with one part changed. -/
def change (t : Tag) : Change → Except Fault Tag
  | .size n => t.withSize n.toNat
  | .allocated flag => .ok (t.withAllocated flag)
  | .predecessorAllocated flag => .ok (t.withPredecessorAllocated flag)

/-- The size that a change names. -/
def Change.size? : Change → Option UInt64
  | size n => some n
  | allocated _ | predecessorAllocated _ => none

/-- The tag that a chain of changes makes of the tag at an origin. -/
def build (origin : Origin) (changes : List Change) : Except Fault Tag := do
  changes.foldlM change (← origin.tag)

/-- Some chain builds the tag. -/
def Built (t : Tag) : Prop := ∃ origin changes, build origin changes = .ok t

/-- A tag that a word can hold. -/
structure Storable (t : Tag) : Prop where
  aligned : t.size % alignment = 0
  small : t.size < 0x1_0000_0000_0000_0000

variable {t u : Tag} {f : Fault} {k : Tag → Except Fault Tag} {origin : Origin} {c : Change} {cs : List Change}
  {n w : UInt64} {sizes : List UInt64} {allocated predecessor : Bool}

/-! ## What a chain builds -/

theorem bind_eq_ok {x : Except Fault Tag} (h : (x >>= k) = .ok u) : ∃ t, x = .ok t ∧ k t = .ok u := by
  cases x with
  | error f => cases h
  | ok t => exact ⟨t, rfl, h⟩

theorem storable_decode (w : UInt64) : (decode w).Storable where
  aligned := Nat.mul_mod_left _ _
  small := Nat.lt_of_le_of_lt (Nat.div_mul_le_self _ _) w.toNat_lt

theorem storable_of_make (made : make n.toNat allocated predecessor = .ok t) : t.Storable := by
  unfold make at made
  split at made
  · next aligned =>
    cases made
    exact ⟨aligned, n.toNat_lt⟩
  · cases made

theorem Origin.storable (made : origin.tag = .ok t) : t.Storable := by
  cases origin with
  | make size allocated predecessor => exact storable_of_make made
  | decode w =>
    cases made
    exact storable_decode w

namespace Storable

theorem decode_encode (h : t.Storable) : decode t.encode = t := Tag.decode_encode t h.small h.aligned

/-- A change leaves a tag that a word can hold, or none. -/
theorem change (h : t.Storable) (changed : t.change c = .ok u) : u.Storable := by
  cases c with
  | size n => exact storable_of_make changed
  | allocated flag | predecessorAllocated flag =>
    cases changed
    exact ⟨h.aligned, h.small⟩

/-- So does a chain of changes. -/
theorem changes (h : t.Storable) (changed : cs.foldlM Tag.change t = .ok u) : u.Storable := by
  induction cs generalizing t with
  | nil =>
    cases changed
    exact h
  | cons c cs ih =>
    rw [List.foldlM_cons] at changed
    obtain ⟨v, first, rest⟩ := bind_eq_ok changed
    exact ih (h.change first) rest

end Storable

/-- The tags that can be built are those that a word can hold. -/
theorem built_iff : t.Built ↔ t.Storable := by
  constructor
  · rintro ⟨origin, changes, built⟩
    obtain ⟨v, first, rest⟩ := bind_eq_ok built
    exact (Origin.storable first).changes rest
  -- Read from its own word, the tag needs no change.
  · intro h
    exact ⟨.decode t.encode, [], congrArg Except.ok h.decode_encode⟩

/-! ## Where a chain stops -/

/-- The fault of the first of some sizes that is not a multiple of the alignment. -/
def misfit : List UInt64 → Option Fault
  | [] => none
  | n :: sizes => if n.toNat % alignment = 0 then misfit sizes else some (.unalignedSize n.toNat)

/-- When what comes after a tag was made stops at the first misfit of some sizes, the whole stops at the first misfit of them
and the size of the tag. -/
theorem make_bind_eq_error_iff (rest : ∀ t, k t = .error f ↔ misfit sizes = some f) :
    (make n.toNat allocated predecessor >>= k) = .error f ↔ misfit (n :: sizes) = some f := by
  rw [make, misfit]
  by_cases aligned : n.toNat % alignment = 0
  · rw [if_pos aligned, if_pos aligned]
    exact rest _
  · rw [if_neg aligned, if_neg aligned, Option.some.injEq]
    change Except.error (Fault.unalignedSize n.toNat) = Except.error f ↔ _
    rw [Except.error.injEq]

/-- Changes stop at the first size among them that does not fit, whatever tag they begin with. -/
theorem changes_eq_error_iff : cs.foldlM change t = .error f ↔ misfit (cs.filterMap Change.size?) = some f := by
  induction cs generalizing t with
  | nil => exact ⟨nofun, nofun⟩
  | cons c cs ih =>
    rw [List.foldlM_cons]
    cases c with
    | size n => exact make_bind_eq_error_iff fun _ => ih
    | allocated flag | predecessorAllocated flag => exact ih

/-- A chain is a fault exactly when one of the sizes that it names is not a multiple of sixteen, and the fault is that of the
first one. -/
theorem build_eq_error_iff :
    build origin cs = .error f ↔ misfit (origin.size?.toList ++ cs.filterMap Change.size?) = some f := by
  cases origin with
  | make size allocated predecessor => exact make_bind_eq_error_iff fun _ => changes_eq_error_iff
  | decode w => exact changes_eq_error_iff

example : build (.allocated 48 true) [.size 64, .size 72, .size 88] = .error (.unalignedSize 72) := rfl

/-! ## Words -/

/-- A word with bits 2 and 3 cleared is sixteen times what stands above the low four bits, and the lowest two. -/
theorem toNat_clear (w : UInt64) : (w &&& ~~~0b1100).toNat = w.toNat / 16 * 16 + w.toNat % 4 := by
  have mask : (~~~0b1100 : UInt64).toNat = (2 ^ 60 - 1) * 16 + (2 ^ 2 - 1) := by decide
  have small : w.toNat / 16 < 2 ^ 60 := by
    have := w.toNat_lt
    omega
  rw [UInt64.toNat_and, mask]
  -- Above the low four bits the mask keeps everything, and of these four it keeps two.
  have high : (w.toNat &&& (2 ^ 60 - 1) * 16 + (2 ^ 2 - 1)) / 2 ^ 4 = w.toNat / 16 := by
    rw [Nat.and_div_two_pow]
    change w.toNat / 16 &&& 2 ^ 60 - 1 = _
    rw [Nat.and_two_pow_sub_one_eq_mod, Nat.mod_eq_of_lt small]
  have low : (w.toNat &&& (2 ^ 60 - 1) * 16 + (2 ^ 2 - 1)) % 2 ^ 4 = w.toNat % 4 := by
    rw [Nat.and_mod_two_pow]
    change w.toNat % 16 &&& 2 ^ 2 - 1 = _
    rw [Nat.and_two_pow_sub_one_eq_mod]
    omega
  omega

/-- Writing back the tag read from a word clears bits 2 and 3 of the word. -/
theorem encode_decode (w : UInt64) : (decode w).encode = w &&& ~~~0b1100 := by
  apply UInt64.toNat_inj.mp
  rw [toNat_encode_decode, toNat_clear]

/-- Every tag that can be built has a size that is a multiple of the alignment and is read back from its word, so no two of
them share a word. A word that is read and written back loses bits 2 and 3, and is the same as before exactly when it is the
word of a tag that can be built. -/
theorem encode_lossless :
    (∀ t, Built t → t.size % alignment = 0 ∧ decode t.encode = t) ∧
    (∀ t u, Built t → Built u → t ≠ u → t.encode ≠ u.encode) ∧
    ∀ w, (decode w).encode = w &&& ~~~0b1100 ∧ ((decode w).encode = w ↔ w ∈ encode '' {t | Built t}) := by
  have back : Set.LeftInvOn decode encode {t | Built t} := fun t built => (built_iff.mp built).decode_encode
  refine ⟨fun t built => ⟨(built_iff.mp built).aligned, back built⟩, fun t u builtT builtU => ?_, fun w => ?_⟩
  · exact back.injOn.ne builtT builtU
  · refine ⟨encode_decode w, fun same => ⟨decode w, built_iff.mpr (storable_decode w), same⟩, ?_⟩
    rintro ⟨t, built, rfl⟩
    rw [back built]

/-- A free tag of which every part is changed, and a tag that is read from a word with bits 2 and 3 set. -/
theorem encode_lossless_chains :
    build (.free 32 false) [.allocated true, .predecessorAllocated true, .size 64] = .ok ⟨64, true, true⟩ ∧
    build (.decode 0x4f) [.allocated false, .predecessorAllocated false] = .ok ⟨64, false, false⟩ ∧
    (64 % alignment = 0 ∧ decode (encode ⟨64, true, true⟩) = ⟨64, true, true⟩) ∧ encode ⟨64, true, true⟩ = 0x43 ∧
    encode ⟨64, true, true⟩ ≠ encode ⟨64, false, false⟩ ∧ (decode 0x4f).encode = 0x43 ∧
    ¬ ∃ t, Built t ∧ t.encode = 0x4f := by
  have changed : build (.free 32 false) [.allocated true, .predecessorAllocated true, .size 64] = .ok ⟨64, true, true⟩ := rfl
  have read : build (.decode 0x4f) [.allocated false, .predecessorAllocated false] = .ok ⟨64, false, false⟩ := rfl
  obtain ⟨back, apart, words⟩ := encode_lossless
  refine ⟨changed, read, back _ ⟨_, _, changed⟩, by decide, ?_, (words 0x4f).1.trans (by decide), fun word => ?_⟩
  · exact apart _ _ ⟨_, _, changed⟩ ⟨_, _, read⟩ (by decide)
  · have same := (words 0x4f).2.mpr word
    revert same
    decide

end Tag

end SegregatedFit
