import SegregatedFit.Proofs.Arrangement

/-!
# Searching free lists is searching rows

Best fit only looks at offsets and sizes, so it is a function on the rows of offsets and sizes that the free lists make
(`Layout.bestFit`). The search in the memory gives the same answer (`Layout.Describes.bestFit_run`), and what it finds is a
free block of the size wanted, or one that is larger by at least the smallest block (`Layout.Describes.bestFit_fits`).
-/

namespace SegregatedFit

open FreeList

/-! ## Rows -/

/-- Searches a row of blocks, each given by its offset and its size, from front to back. -/
def scanRow (wanted : Nat) : (budget : Nat) → List (Nat × Nat) → (best : Option Candidate) → ScanResult
  | budget, [], best => .ended best budget
  | 0, _ :: _, best => .decided (best.map Candidate.block)
  | budget + 1, (offset, size) :: row, best =>
    if size = wanted then .decided (some offset)
    else scanRow wanted budget row (Candidate.improve best offset size wanted)

namespace Layout

/-- The members of the list of a class, with their sizes. -/
def row (L : Layout) (c : Fin classCount) : List (Nat × Nat) := (L.lists c).map fun o => (o, L.sizeAt o)

/-- Searches the rows of several classes one after the other. -/
def searchClasses (L : Layout) (wanted : Nat) : (budget : Nat) → List (Fin classCount) → Option Nat
  | _, [] => none
  | budget, c :: cs =>
    match scanRow wanted budget (L.row c) none with
    | .decided answer => answer
    | .ended (some best) _ => some best.block
    | .ended none budget => L.searchClasses wanted budget cs

/-- The offset of the free block to hand out for a block of `wanted` bytes, looking at no more than `budget` blocks. -/
def bestFit (L : Layout) (wanted budget : Nat) : Option Nat := L.searchClasses wanted budget (classesFrom (classOf wanted))

end Layout

/-! ## Offsets and addresses -/

namespace FreeList

/-- A candidate named by an offset, as one named by an address. -/
def Candidate.shift (base : Nat) (c : Candidate) : Candidate := { c with block := base + c.block }

/-- An answer in offsets, as one in addresses. -/
def ScanResult.shift (base : Nat) : ScanResult → ScanResult
  | .decided answer => .decided (answer.map (base + ·))
  | .ended best budget => .ended (best.map (Candidate.shift base)) budget

theorem Candidate.improve_shift (base : Nat) (best : Option Candidate) (offset size wanted : Nat) :
    Candidate.improve (best.map (Candidate.shift base)) (base + offset) size wanted =
      (Candidate.improve best offset size wanted).map (Candidate.shift base) := by
  unfold Candidate.improve
  split
  · rfl
  · cases best with
    | none => rfl
    | some c =>
      simp only [Option.map_some, Candidate.shift]
      split <;> rfl

end FreeList

/-- Searching one list in the memory is searching the row of its members. -/
theorem scan_run {m : Memory} {span : Span} {back : Nat} {os : List Nat} (size : Nat → Nat)
    (linked : Linked m span.base back os 0)
    (members : ∀ o ∈ os, (o % 16 = 8 ∧ o ≤ span.epilogueOffset) ∧ (m.tag (span.base + o)).size = size o)
    (wanted budget : Nat) (best : Option Candidate) :
    scan m span wanted budget (os.headD 0) (best.map (Candidate.shift span.base)) =
      .ok ((scanRow wanted budget (os.map fun o => (o, size o)) best).shift span.base) := by
  induction os generalizing back budget best with
  | nil =>
    simp only [List.headD_nil, scan, List.map_nil, scanRow, ScanResult.shift]
  | cons o os ih =>
    obtain ⟨-, next, rest⟩ := Linked.cons_iff.mp linked
    obtain ⟨⟨aligned, high⟩, here⟩ := members o List.mem_cons_self
    have found : span.blockAt o = .ok (span.base + o) := Span.blockAt_eq (by omega) high (by omega)
    obtain ⟨cursor, rfl⟩ : ∃ cursor, o = cursor + 1 := ⟨o - 1, by omega⟩
    cases budget with
    | zero =>
      simp only [List.headD_cons, scan, found, List.map_cons, scanRow, ScanResult.shift]
      cases best <;> rfl
    | succ budget =>
      simp only [List.headD_cons, scan, found, List.map_cons, scanRow, bind, Except.bind, here, next]
      by_cases exact : size (cursor + 1) = wanted
      · simp only [exact, if_true, ScanResult.shift, Option.map_some]
        rfl
      · rw [if_neg exact, if_neg exact, Candidate.improve_shift]
        exact ih rest (fun p hp => members p (.tail _ hp)) _ _

namespace Layout.Describes

variable {L : Layout} {s : Store} {span : Span}

/-- The members of the lists, with their sizes. -/
theorem members (h : L.Describes s span) {c : Fin classCount} {o : Nat} (ho : o ∈ L.lists c) :
    (o % 16 = 8 ∧ o ≤ span.epilogueOffset) ∧ (s.memory.tag (span.base + o)).size = L.sizeAt o := by
  obtain ⟨b, hb, -, rfl, -⟩ := (h.files c o).mp ho
  have := h.laid.bounds hb
  rw [sizeAt_eq h.laid.tiled hb]
  exact ⟨by omega, (h.laid.tag hb).1⟩

theorem searchClasses_run (h : L.Describes s span) (wanted budget : Nat) (cs : List (Fin classCount)) :
    FreeList.searchClasses s span wanted budget cs = .ok ((L.searchClasses wanted budget cs).map (span.base + ·)) := by
  induction cs generalizing budget with
  | nil => rfl
  | cons c cs ih =>
    have run := scan_run L.sizeAt (h.threaded.linked c) (fun o ho => h.members ho) wanted budget none
    rw [Option.map_none, ← h.threaded.front c] at run
    simp only [FreeList.searchClasses, run, Layout.searchClasses, Layout.row]
    cases scanRow wanted budget ((L.lists c).map fun o => (o, L.sizeAt o)) none with
    | decided answer => rfl
    | ended best budget =>
      cases best with
      | none => exact ih budget
      | some best => rfl

/-- The search in the memory answers what the search of the rows answers. -/
theorem bestFit_run (h : L.Describes s span) (wanted budget : Nat) :
    FreeList.bestFit s span wanted budget = .ok ((L.bestFit wanted budget).map (span.base + ·)) :=
  h.searchClasses_run wanted budget _

end Layout.Describes

/-! ## What is found -/

/-- A block of a row fits a request of `wanted` bytes: nothing is left over, or enough for a free block. -/
def Fits (wanted : Nat) (row : List (Nat × Nat)) (offset : Nat) : Prop :=
  ∃ size, (offset, size) ∈ row ∧ (size = wanted ∨ wanted + 32 ≤ size)

/-- The answer of a search, if there is one, is a block of the row that fits. -/
def ScanResult.Sound (wanted : Nat) (row : List (Nat × Nat)) : ScanResult → Prop
  | .decided answer => ∀ o ∈ answer, Fits wanted row o
  | .ended best _ => ∀ c ∈ best, Fits wanted row c.block

theorem scanRow_sound {seen : List (Nat × Nat)} (wanted budget : Nat) (row : List (Nat × Nat))
    (best : Option Candidate) (sub : row ⊆ seen) (sound : ∀ c ∈ best, Fits wanted seen c.block) :
    ScanResult.Sound wanted seen (scanRow wanted budget row best) := by
  induction row generalizing budget best with
  | nil =>
    unfold scanRow
    exact sound
  | cons x row ih =>
    obtain ⟨offset, size⟩ := x
    have mem : (offset, size) ∈ seen := sub List.mem_cons_self
    cases budget with
    | zero =>
      rintro o ho
      obtain ⟨c, hc, rfl⟩ := Option.map_eq_some_iff.mp ho
      exact sound c hc
    | succ budget =>
      unfold scanRow
      split
      · rintro o ho
        obtain rfl := Option.some.inj ho
        exact ⟨size, mem, .inl (by assumption)⟩
      · refine ih budget _ (fun y hy => sub (.tail _ hy)) ?_
        intro c hc
        unfold Candidate.improve at hc
        split at hc
        · exact sound c hc
        · have fits : Fits wanted seen offset := ⟨size, mem, .inr (by simp only [minBlockSize] at *; omega)⟩
          cases best with
          | none =>
            obtain rfl := Option.some.inj hc
            exact fits
          | some d =>
            simp only at hc
            split at hc
            · obtain rfl := Option.some.inj hc
              exact fits
            · exact sound c hc

namespace Layout

variable {L : Layout} {s : Store} {span : Span}

theorem searchClasses_fits {wanted budget o : Nat} {cs : List (Fin classCount)}
    (h : L.searchClasses wanted budget cs = some o) : ∃ c, Fits wanted (L.row c) o := by
  induction cs generalizing budget with
  | nil => cases h
  | cons c cs ih =>
    have sound := scanRow_sound wanted budget (L.row c) none (List.Subset.refl _) (by intro _ h; cases h)
    unfold searchClasses at h
    split at h
    · next answer found =>
      rw [found] at sound
      exact ⟨c, sound o h⟩
    · next best _ found =>
      rw [found] at sound
      obtain rfl := Option.some.inj h
      exact ⟨c, sound best rfl⟩
    · exact ih h

/-- What the search finds is a free block that leaves nothing over, or enough for a free block. -/
theorem Describes.bestFit_fits (h : L.Describes s span) {wanted budget o : Nat} (found : L.bestFit wanted budget = some o) :
    ∃ x ∈ L.blocks, x.allocated = false ∧ x.offset = o ∧ (x.size = wanted ∨ wanted + 32 ≤ x.size) := by
  obtain ⟨c, size, mem, fits⟩ := searchClasses_fits found
  obtain ⟨p, hp, same⟩ := List.mem_map.mp mem
  obtain ⟨rfl, rfl⟩ := Prod.mk.inj same
  obtain ⟨x, hx, free, rfl, -⟩ := (h.files c p).mp hp
  rw [sizeAt_eq h.laid.tiled hx] at fits
  exact ⟨x, hx, free, rfl, fits⟩

end Layout

end SegregatedFit
