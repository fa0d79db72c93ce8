import RiskOps.Lib.Lawful

/-!
# RiskOps.Lib.Membership — which items an owner holds, by revision

**An item joins an owner at a revision and may leave at a later one.** `assign` closes the
rows of items that are no longer held and opens rows for those that are new; rows are never
deleted, so every earlier revision can still be read. What an owner holds now is what was
assigned last (`mem_current_assign`), and no other owner is touched.
-/

namespace RiskOps.Lib

/-- One stay of an item: its first revision, and its last once it has left. -/
structure Member (ι ε : Type) where
  owner : ι
  item : ε
  fromRevision : Nat
  toRevision : Option Nat
  deriving DecidableEq

namespace Member

variable {ι ε : Type} [DecidableEq ι]

/-- The items an owner holds. -/
def current (rows : List (Member ι ε)) (owner : ι) : List ε :=
  (rows.filter fun m => m.owner = owner && m.toRevision.isNone).map Member.item

variable {rows : List (Member ι ε)} {owner : ι} {revision : Nat} {item : ε}

theorem mem_current : item ∈ current rows owner ↔
    ∃ m ∈ rows, m.owner = owner ∧ m.toRevision = none ∧ m.item = item := by
  simp only [current, List.mem_map, List.mem_filter, Bool.and_eq_true, decide_eq_true_eq,
    Option.isNone_iff_eq_none, and_assoc]

theorem current_append (a b : List (Member ι ε)) :
    item ∈ current (a ++ b) owner ↔ item ∈ current a owner ∨ item ∈ current b owner := by
  rw [current, List.filter_append, List.map_append, List.mem_append]
  rfl

theorem mem_current_opened {items : List ε} {other : ι} :
    item ∈ current (items.map fun i => (⟨owner, i, revision, none⟩ : Member ι ε)) other ↔
      other = owner ∧ item ∈ items := by
  rw [mem_current]
  constructor
  · intro ⟨m, hm, howner, _, hitem⟩
    obtain ⟨i, hi, rfl⟩ := List.mem_map.mp hm
    exact ⟨howner.symm, hitem ▸ hi⟩
  · intro ⟨howner, hi⟩
    exact ⟨_, List.mem_map.mpr ⟨item, hi, rfl⟩, howner.symm, rfl, rfl⟩

variable [DecidableEq ε] {selected : List ε}

/-- Close the open rows of the owner's items that are not selected. -/
def retire (rows : List (Member ι ε)) (owner : ι) (selected : List ε) (revision : Nat) :
    List (Member ι ε) :=
  rows.map fun m =>
    if m.owner = owner ∧ m.toRevision = none ∧ m.item ∉ selected then
      { m with toRevision := some (revision - 1) }
    else m

/-- The owner holds exactly the selected items from this revision on. -/
def assign (rows : List (Member ι ε)) (owner : ι) (selected : List ε) (revision : Nat) :
    List (Member ι ε) :=
  retire rows owner selected revision ++
    (selected.filter fun item => item ∉ current rows owner).map
      fun item => ⟨owner, item, revision, none⟩

theorem mem_current_retire : item ∈ current (retire rows owner selected revision) owner ↔
    item ∈ current rows owner ∧ item ∈ selected := by
  rw [mem_current, mem_current, retire]
  constructor
  · intro ⟨m', hm', howner, hopen, hitem⟩
    obtain ⟨m, hm, rfl⟩ := List.mem_map.mp hm'
    split at howner
    · rename_i hclosed
      rw [if_pos hclosed] at hopen
      exact absurd hopen (by simp)
    · rename_i hkept
      rw [if_neg hkept] at hopen hitem
      refine ⟨⟨m, hm, howner, hopen, hitem⟩, ?_⟩
      by_contra hout
      exact hkept ⟨howner, hopen, hitem ▸ hout⟩
  · intro ⟨⟨m, hm, howner, hopen, hitem⟩, hsel⟩
    refine ⟨m, List.mem_map.mpr ⟨m, hm, if_neg ?_⟩, howner, hopen, hitem⟩
    intro ⟨_, _, hout⟩
    exact hout (hitem ▸ hsel)

theorem mem_current_retire_of_ne {other : ι} (h : other ≠ owner) :
    item ∈ current (retire rows owner selected revision) other ↔ item ∈ current rows other := by
  rw [mem_current, mem_current, retire]
  have hkeep : ∀ m : Member ι ε, m.owner = other →
      ¬ (m.owner = owner ∧ m.toRevision = none ∧ m.item ∉ selected) := by
    intro m hm hbad
    exact h (hm ▸ hbad.1)
  constructor
  · intro ⟨m', hm', howner, hopen, hitem⟩
    obtain ⟨m, hm, rfl⟩ := List.mem_map.mp hm'
    split at howner
    · rename_i hclosed
      exact absurd hclosed (hkeep m howner)
    · rename_i hkept
      rw [if_neg hkept] at hopen hitem
      exact ⟨m, hm, howner, hopen, hitem⟩
  · intro ⟨m, hm, howner, hopen, hitem⟩
    exact ⟨m, List.mem_map.mpr ⟨m, hm, if_neg (hkeep m howner)⟩, howner, hopen, hitem⟩

/-- **The owner holds what was assigned.** -/
theorem mem_current_assign :
    item ∈ current (assign rows owner selected revision) owner ↔ item ∈ selected := by
  rw [assign, current_append, mem_current_retire, mem_current_opened, List.mem_filter,
    decide_eq_true_eq]
  constructor
  · intro h
    rcases h with ⟨-, h⟩ | ⟨-, h, -⟩
    · exact h
    · exact h
  · intro h
    by_cases hc : item ∈ current rows owner
    · exact Or.inl ⟨hc, h⟩
    · exact Or.inr ⟨rfl, h, hc⟩

/-- **Other owners keep what they hold.** -/
theorem mem_current_assign_of_ne {other : ι} (h : other ≠ owner) :
    item ∈ current (assign rows owner selected revision) other ↔ item ∈ current rows other := by
  rw [assign, current_append, mem_current_retire_of_ne h, mem_current_opened]
  constructor
  · intro hc
    rcases hc with hc | ⟨heq, -⟩
    · exact hc
    · exact absurd heq h
  · exact Or.inl

end Member

end RiskOps.Lib
