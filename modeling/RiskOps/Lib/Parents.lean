import RiskOps.Lib.Lawful

/-!
# RiskOps.Lib.Parents — following parents to a root

**A loop that replaces a node by its parent stops**, when every parent comes before its child in
some order and only finitely many nodes are parents: `climb` with that many steps ends in a root
(`parent_climb`), more steps do not change the result (`climb_stable`), and a node never reaches
itself (`not_reaches_self`). Parents that are added later lengthen the way but not its direction
(`climb_extend`).
-/

namespace RiskOps.Lib

variable {ι α : Type} {parent parent' : ι → Option ι}

/-- The loop, at most `fuel` times. -/
def climb (parent : ι → Option ι) : Nat → ι → ι
  | 0, i => i
  | fuel + 1, i =>
    match parent i with
    | some p => climb parent fuel p
    | none => i

theorem climb_root {i : ι} (h : parent i = none) (fuel : Nat) : climb parent fuel i = i := by
  cases fuel with
  | zero => rfl
  | succ fuel => rw [climb, h]

theorem climb_succ {i p : ι} (h : parent i = some p) (fuel : Nat) :
    climb parent (fuel + 1) i = climb parent fuel p := by
  rw [climb, h]

/-- Once a root is reached, more steps change nothing. -/
theorem climb_stable {i : ι} {fuel more : Nat} (h : parent (climb parent fuel i) = none)
    (hle : fuel ≤ more) : climb parent more i = climb parent fuel i := by
  induction fuel generalizing i more with
  | zero => exact climb_root h more
  | succ fuel ih =>
    obtain ⟨more, rfl⟩ : ∃ m, more = m + 1 := ⟨more - 1, by omega⟩
    cases hp : parent i with
    | none => rw [climb_root hp, climb_root hp]
    | some p =>
      rw [climb_succ hp] at h ⊢
      rw [climb_succ hp]
      exact ih h (by omega)

section Ordered

variable [LinearOrder α] {rank : ι → α} {nodes : Finset ι}

/-- Every parent is one of the nodes, and comes before its child. -/
structure Descends (parent : ι → Option ι) (rank : ι → α) (nodes : Finset ι) : Prop where
  mem : ∀ i p, parent i = some p → p ∈ nodes
  lt : ∀ i p, parent i = some p → rank p < rank i

/-- As many steps as there are nodes before `i` are enough. -/
theorem Descends.parent_climb_of_card (h : Descends parent rank nodes) {fuel : Nat} {i : ι}
    (hfuel : (nodes.filter fun j => rank j < rank i).card ≤ fuel) :
    parent (climb parent fuel i) = none := by
  induction fuel generalizing i with
  | zero =>
    cases hp : parent i with
    | none => exact hp
    | some p =>
      have hmem : p ∈ nodes.filter fun j => rank j < rank i :=
        Finset.mem_filter.mpr ⟨h.mem i p hp, h.lt i p hp⟩
      have := Finset.card_pos.mpr ⟨p, hmem⟩
      omega
  | succ fuel ih =>
    cases hp : parent i with
    | none => rwa [climb_root hp]
    | some p =>
      rw [climb_succ hp]
      refine ih ?_
      -- The parent itself is before `i` but not before itself.
      have hlt : (nodes.filter fun j => rank j < rank p).card <
          (nodes.filter fun j => rank j < rank i).card := by
        refine Finset.card_lt_card ⟨fun j hj => ?_, fun hsub => ?_⟩
        · rw [Finset.mem_filter] at hj ⊢
          exact ⟨hj.1, hj.2.trans (h.lt i p hp)⟩
        · have hmem : p ∈ nodes.filter fun j => rank j < rank i :=
            Finset.mem_filter.mpr ⟨h.mem i p hp, h.lt i p hp⟩
          exact lt_irrefl _ (Finset.mem_filter.mp (hsub hmem)).2
      omega

/-- **The loop reaches a root.** -/
theorem Descends.parent_climb (h : Descends parent rank nodes) {fuel : Nat}
    (hfuel : nodes.card ≤ fuel) (i : ι) : parent (climb parent fuel i) = none :=
  h.parent_climb_of_card ((Finset.card_le_card (Finset.filter_subset _ _)).trans hfuel)

/-- **No node reaches itself.** -/
theorem Descends.not_reaches_self (h : Descends parent rank nodes) (i : ι) :
    ¬ Relation.TransGen (fun j p => parent j = some p) i i := by
  have hlt : ∀ j k, Relation.TransGen (fun j p => parent j = some p) j k → rank k < rank j := by
    intro j k hjk
    induction hjk with
    | single hp => exact h.lt _ _ hp
    | tail _ hp ih => exact (h.lt _ _ hp).trans ih
  exact fun hii => lt_irrefl _ (hlt i i hii)

/-- A node and its parent have the same root. -/
theorem Descends.climb_parent (h : Descends parent rank nodes) {fuel : Nat}
    (hfuel : nodes.card ≤ fuel) {i p : ι} (hp : parent i = some p) :
    climb parent fuel p = climb parent fuel i := by
  have hroot := h.parent_climb hfuel p
  rw [← climb_succ hp fuel]
  refine climb_stable ?_ (Nat.le_succ fuel)
  exact h.parent_climb hfuel i

/-- The loop ends in the root that a node reaches. -/
theorem Descends.climb_of_reaches (h : Descends parent rank nodes) {fuel : Nat}
    (hfuel : nodes.card ≤ fuel) {i root : ι}
    (hreach : Relation.ReflTransGen (fun j p => parent j = some p) i root)
    (hroot : parent root = none) : climb parent fuel i = root := by
  induction hreach using Relation.ReflTransGen.head_induction_on with
  | refl => exact climb_root hroot fuel
  | head hp _ ih => rw [← h.climb_parent hfuel hp, ih]

/-- **Later parents**: the root of a former root is the root of the node. -/
theorem Descends.climb_extend (h : Descends parent' rank nodes) {fuel more : Nat}
    (hmore : nodes.card ≤ more) (hkept : ∀ i p, parent i = some p → parent' i = some p) (i : ι) :
    climb parent' more (climb parent fuel i) = climb parent' more i := by
  induction fuel generalizing i with
  | zero => rfl
  | succ fuel ih =>
    cases hp : parent i with
    | none => rw [climb_root hp]
    | some p => rw [climb_succ hp, ih, h.climb_parent hmore (hkept i p hp)]

end Ordered

end RiskOps.Lib
