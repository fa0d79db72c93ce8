import RiskOps.Lib.Membership
import RiskOps.Lib.Table

/-!
# RiskOps.Lib.CaseBook — cases in revisions, recomputed when their window is dirty

**A book keeps the last payload of each case, every revision, and which items a case holds.**
`revise` writes a new revision only when the payload changed; `Members` says that what a case
holds now is what its payload lists, and every revision keeps it.

**A window is dirty until its case has been recomputed.** `mark` and `clean` change one
window; their lemmas say what every other window looks up to.
-/

namespace RiskOps.Lib

/-! ### Cases -/

/-- The last revision of a case. -/
structure Case (κ π : Type) where
  key : κ
  revision : Nat
  updatedAt : ℚ
  payload : π

/-- Cases, their revisions and what they hold. -/
structure CaseBook (κ π ε : Type) where
  cases : Table (Case.key : Case κ π → κ)
  revisions : List (κ × Nat × π)
  membership : List (Member κ ε)

namespace CaseBook

variable {κ π ε : Type}

/-- The book without cases. -/
def empty : CaseBook κ π ε := ⟨.empty, [], []⟩

variable [DecidableEq κ]

/-- The last payload of a case. -/
def payload? (book : CaseBook κ π ε) (key : κ) : Option π := (book.cases.find? key).map Case.payload

/-- The number of the next revision. -/
def nextRevision (book : CaseBook κ π ε) (key : κ) : Nat :=
  ((book.cases.find? key).map Case.revision).getD 0 + 1

/-- What a case holds now. -/
def holds (book : CaseBook κ π ε) (key : κ) : List ε := Member.current book.membership key

variable [DecidableEq π] [DecidableEq ε]

/-- Writes a revision unless the payload is the last one; `selected` are the items the case
holds from now on, if it is to change what it holds. -/
def revise (book : CaseBook κ π ε) (key : κ) (payload : π) (selected : Option (List ε)) (now : ℚ) :
    CaseBook κ π ε :=
  if book.payload? key = some payload then book
  else
    { cases := book.cases.replace ⟨key, book.nextRevision key, now, payload⟩
      revisions := book.revisions ++ [(key, book.nextRevision key, payload)]
      membership := match selected with
        | none => book.membership
        | some items => Member.assign book.membership key items (book.nextRevision key) }

variable {book : CaseBook κ π ε} {key : κ} {payload : π} {items : List ε} {listed : π → List ε}

omit [DecidableEq π] [DecidableEq ε] in
/-- What a case holds is what its payload lists. -/
def Members (listed : π → List ε) (book : CaseBook κ π ε) : Prop :=
  ∀ key item, item ∈ book.holds key ↔
    ∃ payload, book.payload? key = some payload ∧ item ∈ listed payload

omit [DecidableEq π] [DecidableEq ε] in
theorem members_empty : Members listed (empty : CaseBook κ π ε) := by
  intro key item
  simp [holds, payload?, empty, Member.current]

omit [DecidableEq π] [DecidableEq ε] in
/-- Where the payload is the last one, the case already holds what it lists. -/
theorem Members.of_payload (h : Members listed book) (hsame : book.payload? key = some payload)
    (item : ε) : item ∈ book.holds key ↔ item ∈ listed payload := by
  rw [h key item, hsame]
  simp

omit [DecidableEq π] [DecidableEq ε] in
theorem Members.of_none (h : Members listed book) (hnone : book.payload? key = none) (item : ε) :
    item ∉ book.holds key := by
  rw [h key item, hnone]
  simp

theorem payload?_revise (book : CaseBook κ π ε) (key : κ) (payload : π) (selected : Option (List ε))
    (now : ℚ) (k : κ) :
    (book.revise key payload selected now).payload? k =
      if key = k then some payload else book.payload? k := by
  rw [revise.eq_def]
  split
  · rename_i hsame
    split
    · rename_i hk
      rw [← hk, hsame]
    · rfl
  · show ((book.cases.replace _).find? k).map _ = _
    rw [Table.find?_replace]
    by_cases hk : key = k
    · rw [if_pos hk, if_pos hk]
      rfl
    · rw [if_neg hk, if_neg hk]
      rfl

/-- **A revision with new items**: the case holds exactly these. -/
theorem Members.revise_some (h : Members listed book)
    (hlisted : ∀ item, item ∈ listed payload ↔ item ∈ items) (now : ℚ) :
    Members listed (book.revise key payload (some items) now) ∧
      ∀ k item, item ∈ (book.revise key payload (some items) now).holds k ↔
        if k = key then item ∈ items else item ∈ book.holds k := by
  have hholds : ∀ k item, item ∈ (book.revise key payload (some items) now).holds k ↔
      if k = key then item ∈ items else item ∈ book.holds k := by
    intro k item
    rw [revise]
    split
    · rename_i hsame
      split
      · rename_i hk
        rw [hk, h.of_payload hsame, hlisted]
      · exact Iff.rfl
    · split
      · rename_i hk
        rw [hk]
        exact Member.mem_current_assign
      · rename_i hk
        exact Member.mem_current_assign_of_ne hk
  refine ⟨?_, hholds⟩
  intro k item
  rw [hholds k item, payload?_revise]
  by_cases hk : key = k
  · rw [if_pos hk.symm, if_pos hk]
    simp [hlisted]
  · rw [if_neg (Ne.symm hk), if_neg hk]
    exact h k item

/-- **A revision that keeps the items.** -/
theorem Members.revise_none (h : Members listed book) {old : π} (hold : book.payload? key = some old)
    (hlisted : listed payload = listed old) (now : ℚ) :
    Members listed (book.revise key payload none now) ∧
      ∀ k, (book.revise key payload none now).holds k = book.holds k := by
  have hholds : ∀ k, (book.revise key payload none now).holds k = book.holds k := by
    intro k
    rw [revise]
    split
    · rfl
    · rfl
  refine ⟨?_, hholds⟩
  intro k item
  rw [hholds k, payload?_revise, h k item]
  by_cases hk : key = k
  · rw [if_pos hk, ← hk, hold]
    simp [hlisted]
  · rw [if_neg hk]

end CaseBook

/-! ### Windows -/

/-- A window with its coverage. -/
structure DirtyWindow (κ γ : Type) where
  key : κ
  dirty : Bool
  coverage : γ
  updatedAt : ℚ

namespace DirtyWindow

variable {κ γ : Type} [DecidableEq κ]

/-- The windows by key. -/
abbrev Windows (κ γ : Type) := Table (DirtyWindow.key : DirtyWindow κ γ → κ)

/-- Marks a window; a new one has the coverage `fresh`. -/
def mark (fresh : γ) (now : ℚ) (windows : Windows κ γ) (key : κ) : Windows κ γ :=
  match windows.find? key with
  | some row => windows.update
      (fun w => if w.key = row.key then { w with dirty := true, updatedAt := now } else w)
      (fun w => by split <;> rfl)
  | none => windows.replace ⟨key, true, fresh, now⟩

/-- The window is clean until it is marked again. -/
def clean (now : ℚ) (coverage : γ) (key : κ) (windows : Windows κ γ) : Windows κ γ :=
  windows.update
    (fun w => if w.key = key then { w with dirty := false, coverage := coverage, updatedAt := now }
      else w)
    (fun w => by split <;> rfl)

/-- The window is there and dirty. -/
def isDirty (windows : Windows κ γ) (key : κ) : Bool := (windows.find? key).any DirtyWindow.dirty

/-- `ORDER BY updated_at LIMIT 1` among the dirty windows. -/
def next? (windows : Windows κ γ) : Option κ :=
  ((windows.select DirtyWindow.dirty).insertionSort fun a b => a.updatedAt ≤ b.updatedAt).head?.map
    DirtyWindow.key

variable {fresh : γ} {now : ℚ}

theorem find?_mark (fresh : γ) (now : ℚ) (windows : Windows κ γ) (key k : κ) :
    (k = key → ∃ w, (mark fresh now windows key).find? k = some w ∧ w.dirty = true) ∧
      (k ≠ key → (mark fresh now windows key).find? k = windows.find? k) := by
  rw [mark]
  cases hfind : windows.find? key with
  | none =>
    dsimp only
    rw [Table.find?_replace]
    refine ⟨fun hk => ⟨_, if_pos hk.symm, rfl⟩, fun hk => if_neg (Ne.symm hk)⟩
  | some row =>
    have hrow : row.key = key := Table.find?_key hfind
    dsimp only
    rw [Table.find?_update]
    constructor
    · intro hk
      refine ⟨{ row with dirty := true, updatedAt := now }, ?_, rfl⟩
      rw [hk, hfind, Option.map_some, if_pos rfl]
    · intro hk
      cases hother : windows.find? k with
      | none => rfl
      | some w =>
        rw [Option.map_some, if_neg]
        rw [Table.find?_key hother, hrow]
        exact hk

/-- **Marking several windows.** -/
theorem find?_foldl_mark (fresh : γ) (now : ℚ) (keys : List κ) (windows : Windows κ γ) (k : κ) :
    (k ∈ keys → ∃ w, (keys.foldl (mark fresh now) windows).find? k = some w ∧ w.dirty = true) ∧
      (k ∉ keys → (keys.foldl (mark fresh now) windows).find? k = windows.find? k) := by
  induction keys generalizing windows with
  | nil => simp
  | cons key keys ih =>
    obtain ⟨hin, hout⟩ := ih (mark fresh now windows key)
    obtain ⟨hhead, hother⟩ := find?_mark fresh now windows key k
    rw [List.foldl_cons]
    constructor
    · intro hmem
      by_cases hlater : k ∈ keys
      · exact hin hlater
      · rw [hout hlater]
        exact hhead ((List.mem_cons.mp hmem).resolve_right hlater)
    · intro hnot
      rw [hout fun hmem => hnot (List.mem_cons_of_mem _ hmem)]
      exact hother fun hk => hnot (hk ▸ List.mem_cons_self)

theorem find?_clean (coverage : γ) (key k : κ) (windows : Windows κ γ) :
    (clean now coverage key windows).find? k = (windows.find? k).map fun w =>
      if w.key = key then { w with dirty := false, coverage := coverage, updatedAt := now } else w :=
  Table.find?_update _ _ _ _

/-- A window after `clean` was there before, and unless it was cleaned it is as it was. -/
theorem find?_of_clean {coverage : γ} {key k : κ} {windows : Windows κ γ} {w : DirtyWindow κ γ}
    (h : (clean now coverage key windows).find? k = some w) :
    ∃ w₀, windows.find? k = some w₀ ∧ (k ≠ key → w₀ = w) := by
  rw [find?_clean, Option.map_eq_some_iff] at h
  obtain ⟨w₀, hw₀, heq⟩ := h
  refine ⟨w₀, hw₀, fun hne => ?_⟩
  rw [if_neg (by rw [Table.find?_key hw₀]; exact hne)] at heq
  exact heq

theorem isDirty_of_next? {windows : Windows κ γ} {key : κ} (h : next? windows = some key) :
    isDirty windows key = true := by
  rw [next?, Option.map_eq_some_iff] at h
  obtain ⟨w, hw, rfl⟩ := h
  have hmem := List.mem_of_head? hw
  rw [List.mem_insertionSort, Table.mem_select] at hmem
  rw [isDirty, Table.find?_of_mem hmem.1]
  exact hmem.2

end DirtyWindow

end RiskOps.Lib
