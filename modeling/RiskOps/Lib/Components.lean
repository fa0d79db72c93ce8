import RiskOps.Lib.Lawful

/-!
# RiskOps.Lib.Components — connected components of labelled edges

**What a set of overlapping groups means, and a table that maintains it.** An edge is
a label and a set of keys. Keys that share an edge are linked, and linking is closed
under transitivity, so `Linked` is an equivalence on the keys that occur in an edge;
a label touches a key when one of its edges lies in the key's component.

`Refines` compares two families of edges by what they link and label; families that
refine each other have the same components. `Represents` says that an owner table and
a label table hold exactly the components, and `Represents.join` is the step rule: to
add an edge, give its keys and everything owned by their owners to one owner.
-/

namespace RiskOps.Lib.Components

variable {κ ρ ι : Type*}

/-- Two keys share an edge. -/
def Share (H : Set (ρ × Set κ)) (a b : κ) : Prop := ∃ e ∈ H, a ∈ e.2 ∧ b ∈ e.2

/-- Two keys are in one component. -/
def Linked (H : Set (ρ × Set κ)) : κ → κ → Prop := Relation.TransGen (Share H)

/-- An edge with the label lies in the component of the key. -/
def Touches (H : Set (ρ × Set κ)) (r : ρ) (a : κ) : Prop :=
  ∃ e, (r, e) ∈ H ∧ ∃ b ∈ e, Linked H b a

section Basic

variable {H H' K : Set (ρ × Set κ)} {a b c : κ} {r : ρ} {e : Set κ}

theorem Share.symm (h : Share H a b) : Share H b a := by
  obtain ⟨e, he, ha, hb⟩ := h
  exact ⟨e, he, hb, ha⟩

theorem linked_of_mem (he : (r, e) ∈ H) (ha : a ∈ e) (hb : b ∈ e) : Linked H a b :=
  .single ⟨(r, e), he, ha, hb⟩

theorem Linked.symm (h : Linked H a b) : Linked H b a := by
  induction h with
  | single h => exact .single h.symm
  | tail _ h ih => exact .trans (.single h.symm) ih

theorem Linked.trans (h : Linked H a b) (h' : Linked H b c) : Linked H a c :=
  Relation.TransGen.trans h h'

theorem touches_of_mem (he : (r, e) ∈ H) (ha : a ∈ e) : Touches H r a :=
  ⟨e, he, a, ha, linked_of_mem he ha ha⟩

theorem Touches.linked (h : Touches H r a) (hab : Linked H a b) : Touches H r b := by
  obtain ⟨e, he, c, hc, hca⟩ := h
  exact ⟨e, he, c, hc, hca.trans hab⟩

/-! ### Comparing families of edges -/

/-- Every edge of `H` lies in one component of `H'`, under a label that touches it. -/
def Refines (H H' : Set (ρ × Set κ)) : Prop :=
  ∀ r e, (r, e) ∈ H → ∀ a ∈ e, Touches H' r a ∧ ∀ b ∈ e, Linked H' a b

theorem Refines.linked (h : Refines H H') (hab : Linked H a b) : Linked H' a b := by
  induction hab with
  | single hs =>
    obtain ⟨⟨r, e⟩, he, ha, hb⟩ := hs
    exact (h r e he _ ha).2 _ hb
  | tail _ hs ih =>
    obtain ⟨⟨r, e⟩, he, ha, hb⟩ := hs
    exact ih.trans ((h r e he _ ha).2 _ hb)

theorem Refines.touches (h : Refines H H') (hr : Touches H r a) : Touches H' r a := by
  obtain ⟨e, he, b, hb, hba⟩ := hr
  exact (h r e he b hb).1.linked (h.linked hba)

/-- Edges contained in edges of the same label refine them. -/
theorem refines_of_covered (h : ∀ r e, (r, e) ∈ H → ∃ e', (r, e') ∈ H' ∧ e ⊆ e') :
    Refines H H' := by
  intro r e he a ha
  obtain ⟨e', he', hsub⟩ := h r e he
  exact ⟨touches_of_mem he' (hsub ha), fun b hb => linked_of_mem he' (hsub ha) (hsub hb)⟩

theorem refines_of_subset (h : H ⊆ H') : Refines H H' :=
  refines_of_covered fun _ e he => ⟨e, h he, subset_rfl⟩

theorem Refines.trans (h : Refines H H') (h' : Refines H' K) : Refines H K := fun r e he a ha =>
  ⟨h'.touches (h r e he a ha).1, fun b hb => h'.linked ((h r e he a ha).2 b hb)⟩

theorem Refines.union (h : Refines H K) (h' : Refines H' K) : Refines (H ∪ H') K := by
  rintro r e (he | he)
  · exact h r e he
  · exact h' r e he

theorem Refines.union_mono {H₁ H₂ K₁ K₂ : Set (ρ × Set κ)} (h : Refines H₁ K₁)
    (h' : Refines H₂ K₂) : Refines (H₁ ∪ H₂) (K₁ ∪ K₂) :=
  (h.trans (refines_of_subset Set.subset_union_left)).union
    (h'.trans (refines_of_subset Set.subset_union_right))

/-- Two families with the same components. -/
def Equivalent (H H' : Set (ρ × Set κ)) : Prop := Refines H H' ∧ Refines H' H

theorem Equivalent.trans (h : Equivalent H H') (h' : Equivalent H' K) : Equivalent H K :=
  ⟨h.1.trans h'.1, h'.2.trans h.2⟩

theorem Equivalent.linked (h : Equivalent H H') : Linked H a b ↔ Linked H' a b :=
  ⟨h.1.linked, h.2.linked⟩

theorem Equivalent.touches (h : Equivalent H H') : Touches H r a ↔ Touches H' r a :=
  ⟨h.1.touches, h.2.touches⟩

end Basic

/-! ### Tables that hold the components -/

/-- The owner table groups the keys by component and the label table holds, for each
owner, the labels that touch its keys. -/
structure Represents (owner : κ → Option ι) (labels : ι → ρ → Prop) (H : Set (ρ × Set κ)) :
    Prop where
  same : ∀ a b, (∃ i, owner a = some i ∧ owner b = some i) ↔ Linked H a b
  label : ∀ a i, owner a = some i → ∀ r, labels i r ↔ Touches H r a

section Represents

variable {owner owner' : κ → Option ι} {labels labels' : ι → ρ → Prop} {H H' : Set (ρ × Set κ)}

theorem represents_empty (labels : ι → ρ → Prop) :
    Represents (fun _ : κ => none) labels (∅ : Set (ρ × Set κ)) where
  same a b := by
    constructor
    · rintro ⟨i, hi, -⟩
      simp at hi
    · intro h
      obtain ⟨-, -, ⟨e, he, -⟩⟩ := Relation.TransGen.tail'_iff.mp h
      exact absurd he (Set.notMem_empty _)
  label a i h := by simp at h

theorem Represents.congr (h : Represents owner labels H) (he : Equivalent H H') :
    Represents owner labels H' where
  same a b := (h.same a b).trans he.linked
  label a i hi r := (h.label a i hi r).trans he.touches

theorem Represents.owned (h : Represents owner labels H) {a : κ} (ha : Linked H a a) :
    ∃ i, owner a = some i := by
  obtain ⟨i, hi, -⟩ := (h.same a a).mpr ha
  exact ⟨i, hi⟩

/-- The keys a new edge reaches: its own and those of the components it meets. -/
def Reach (H : Set (ρ × Set κ)) (e : Set κ) (a : κ) : Prop := a ∈ e ∨ ∃ b ∈ e, Linked H b a

theorem Reach.linked {e : Set κ} {a b : κ} (h : Reach H e a) (hab : Linked H a b) :
    Reach H e b := by
  rcases h with ha | ⟨c, hc, hca⟩
  · exact Or.inr ⟨a, ha, hab⟩
  · exact Or.inr ⟨c, hc, hca.trans hab⟩

/-- A new edge merges the components it meets and leaves the others alone. -/
theorem linked_insert {r : ρ} {e : Set κ} {a b : κ} :
    Linked (insert (r, e) H) a b ↔ Linked H a b ∨ (Reach H e a ∧ Reach H e b) := by
  have hmem : (r, e) ∈ insert (r, e) H := Set.mem_insert _ _
  have hmono : Refines H (insert (r, e) H) := refines_of_subset (Set.subset_insert _ _)
  constructor
  · intro h
    -- Along a chain, either only old edges are used or both ends are reached.
    have hshare : ∀ {c d}, Share (insert (r, e) H) c d →
        Linked H c d ∨ (Reach H e c ∧ Reach H e d) := by
      rintro c d ⟨e', he', hc, hd⟩
      rcases Set.mem_insert_iff.mp he' with rfl | he'
      · exact Or.inr ⟨Or.inl hc, Or.inl hd⟩
      · exact Or.inl (.single ⟨e', he', hc, hd⟩)
    induction h with
    | single hs => exact hshare hs
    | tail _ hs ih =>
      rcases ih, hshare hs with ⟨hab | ⟨ha, hb⟩, hbc | ⟨hb', hc⟩⟩
      · exact Or.inl (hab.trans hbc)
      · exact Or.inr ⟨hb'.linked hab.symm, hc⟩
      · exact Or.inr ⟨ha, hb.linked hbc⟩
      · exact Or.inr ⟨ha, hc⟩
  · have hedge : ∀ {c}, Reach H e c → ∃ d ∈ e, Linked (insert (r, e) H) d c := by
      rintro c (hc | ⟨d, hd, hdc⟩)
      · exact ⟨c, hc, linked_of_mem hmem hc hc⟩
      · exact ⟨d, hd, hmono.linked hdc⟩
    rintro (h | ⟨ha, hb⟩)
    · exact hmono.linked h
    · obtain ⟨c, hc, hca⟩ := hedge ha
      obtain ⟨d, hd, hdb⟩ := hedge hb
      exact hca.symm.trans ((linked_of_mem hmem hc hd).trans hdb)

variable {r : ρ} {e : Set κ} {i : ι}

/-- What a new edge reaches goes to one owner. -/
theorem owner_of_reach (hsame : ∀ a b, (∃ i, owner a = some i ∧ owner b = some i) ↔ Linked H a b)
    (hedge : ∀ a ∈ e, owner' a = some i)
    (hmet : ∀ a j, owner a = some j → (∃ b ∈ e, owner b = some j) → owner' a = some i) {a : κ}
    (ha : Reach H e a) : owner' a = some i := by
  rcases ha with ha | ⟨b, hb, hba⟩
  · exact hedge a ha
  · obtain ⟨j, hbj, haj⟩ := (hsame b a).mpr hba
    exact hmet a j haj ⟨b, hb, hbj⟩

/-- What it does not reach stays with its owner, which is not that one. -/
theorem owner_of_not_reach
    (hsame : ∀ a b, (∃ i, owner a = some i ∧ owner b = some i) ↔ Linked H a b)
    (hi : (∃ b ∈ e, owner b = some i) ∨ ∀ a, owner a ≠ some i)
    (hrest : ∀ a, a ∉ e → (∀ b ∈ e, ∀ j, owner a = some j → owner b ≠ some j) →
      owner' a = owner a) {a : κ} (ha : ¬ Reach H e a) : owner' a = owner a ∧ owner a ≠ some i := by
  have hsep : ∀ b ∈ e, ∀ j, owner a = some j → owner b ≠ some j := fun b hb j haj hbj =>
    ha (Or.inr ⟨b, hb, (hsame b a).mp ⟨j, hbj, haj⟩⟩)
  refine ⟨hrest a (fun hmem => ha (Or.inl hmem)) hsep, fun hai => ?_⟩
  rcases hi with ⟨b, hb, hbi⟩ | hfresh
  · exact hsep b hb i hai hbi
  · exact hfresh a hai

/-- **Adding an edge to an owner table.** Its keys, and all keys of the owners it meets, go to one
owner, which is one of those owners or a new one. -/
theorem same_join (hsame : ∀ a b, (∃ i, owner a = some i ∧ owner b = some i) ↔ Linked H a b)
    (hi : (∃ b ∈ e, owner b = some i) ∨ ∀ a, owner a ≠ some i)
    (hedge : ∀ a ∈ e, owner' a = some i)
    (hmet : ∀ a j, owner a = some j → (∃ b ∈ e, owner b = some j) → owner' a = some i)
    (hrest : ∀ a, a ∉ e → (∀ b ∈ e, ∀ j, owner a = some j → owner b ≠ some j) →
      owner' a = owner a) (a b : κ) :
    (∃ j, owner' a = some j ∧ owner' b = some j) ↔ Linked (insert (r, e) H) a b := by
  have hin : ∀ {a}, Reach H e a → owner' a = some i := owner_of_reach hsame hedge hmet
  have hout : ∀ {a}, ¬ Reach H e a → owner' a = owner a ∧ owner a ≠ some i :=
    owner_of_not_reach hsame hi hrest
  rw [linked_insert, ← hsame a b]
  by_cases ha : Reach H e a
  · by_cases hb : Reach H e b
    · exact ⟨fun _ => Or.inr ⟨ha, hb⟩, fun _ => ⟨i, hin ha, hin hb⟩⟩
    · obtain ⟨hob, hbi⟩ := hout hb
      constructor
      · rintro ⟨j, haj, hbj⟩
        rw [hin ha] at haj
        rw [hob, ← haj] at hbj
        exact absurd hbj hbi
      · rintro (⟨j, haj, hbj⟩ | ⟨-, hb'⟩)
        · exact absurd (ha.linked ((hsame a b).mp ⟨j, haj, hbj⟩)) hb
        · exact absurd hb' hb
  · obtain ⟨hoa, hai⟩ := hout ha
    by_cases hb : Reach H e b
    · constructor
      · rintro ⟨j, haj, hbj⟩
        rw [hin hb] at hbj
        rw [hoa, ← hbj] at haj
        exact absurd haj hai
      · rintro (⟨j, haj, hbj⟩ | ⟨ha', -⟩)
        · exact absurd (hb.linked ((hsame a b).mp ⟨j, haj, hbj⟩).symm) ha
        · exact absurd ha' ha
    · rw [hoa, (hout hb).1]
      exact ⟨Or.inl, fun hor => hor.elim id fun hr => absurd hr.1 ha⟩

/-- **Adding an edge.** Its keys, and all keys of the owners it meets, go to one owner
`i`, which is one of those owners or a new one; `i` takes the new label and the labels of
the owners it absorbs. -/
theorem Represents.join (h : Represents owner labels H) {r : ρ} {e : Set κ} {i : ι}
    (hne : e.Nonempty)
    (hi : (∃ b ∈ e, owner b = some i) ∨ ∀ a, owner a ≠ some i)
    (hedge : ∀ a ∈ e, owner' a = some i)
    (hmet : ∀ a j, owner a = some j → (∃ b ∈ e, owner b = some j) → owner' a = some i)
    (hrest : ∀ a, a ∉ e → (∀ b ∈ e, ∀ j, owner a = some j → owner b ≠ some j) →
      owner' a = owner a)
    (hlabel : ∀ r', labels' i r' ↔ r' = r ∨ ∃ b ∈ e, ∃ j, owner b = some j ∧ labels j r')
    (hlabels : ∀ j, j ≠ i → (∃ a, owner' a = some j) → ∀ r', labels' j r' ↔ labels j r') :
    Represents owner' labels' (insert (r, e) H) := by
  have hin : ∀ a, Reach H e a → owner' a = some i := fun _ => owner_of_reach h.same hedge hmet
  have hout : ∀ a, ¬ Reach H e a → owner' a = owner a ∧ owner a ≠ some i := fun _ =>
    owner_of_not_reach h.same hi hrest
  refine ⟨same_join h.same hi hedge hmet hrest, fun a j haj r' => ?_⟩
  have hmono : Refines H (insert (r, e) H) := refines_of_subset (Set.subset_insert _ _)
  by_cases ha : Reach H e a
  · obtain rfl : i = j := Option.some.inj ((hin a ha).symm.trans haj)
    rw [hlabel]
    constructor
    · rintro (rfl | ⟨b, hb, k, hbk, hk⟩)
      · obtain ⟨b, hb⟩ := hne
        exact ⟨e, Set.mem_insert _ _, b, hb, Iff.mpr linked_insert (Or.inr ⟨Or.inl hb, ha⟩)⟩
      · have htouch := hmono.touches ((h.label b k hbk r').mp hk)
        exact htouch.linked (Iff.mpr linked_insert (Or.inr ⟨Or.inl hb, ha⟩))
    · rintro ⟨e', he', b', hb', hlink⟩
      rcases Set.mem_insert_iff.mp he' with heq | he'
      · exact Or.inl (congrArg Prod.fst heq)
      · right
        have hself : Linked H b' b' := linked_of_mem he' hb' hb'
        obtain ⟨k, hk⟩ := h.owned hself
        have hlk : labels k r' := (h.label b' k hk r').mpr (touches_of_mem he' hb')
        have hreach : Reach H e b' := by
          rcases linked_insert.mp hlink with hl | ⟨hr, -⟩
          · exact ha.linked hl.symm
          · exact hr
        rcases hreach with hb | ⟨c, hc, hcb⟩
        · exact ⟨b', hb, k, hk, hlk⟩
        · obtain ⟨k', hck, hbk⟩ := (h.same c b').mpr hcb
          obtain rfl : k = k' := Option.some.inj (hk.symm.trans hbk)
          exact ⟨c, hc, k, hck, hlk⟩
  · obtain ⟨hoa, hai⟩ := hout a ha
    have hji : j ≠ i := fun hji => hai (by rw [← hoa, haj, hji])
    rw [hlabels j hji ⟨a, haj⟩, h.label a j (hoa ▸ haj) r']
    constructor
    · exact hmono.touches
    · rintro ⟨e', he', b', hb', hlink⟩
      have hold : Linked H b' a := (linked_insert.mp hlink).resolve_right fun hr => ha hr.2
      rcases Set.mem_insert_iff.mp he' with heq | he'
      · obtain ⟨-, rfl⟩ := Prod.mk.inj heq
        exact absurd (Or.inr ⟨b', hb', hold⟩) ha
      · exact ⟨e', he', b', hb', hold⟩

/-- The owners that own something. -/
def owners (owner : κ → Option ι) : Set ι := {i | ∃ a, owner a = some i}

/-- **Tables of one family agree.** Two tables that hold the same components differ only in
the names of the owners. -/
theorem Represents.rename {ι' : Type*} [Nonempty ι'] {owner' : κ → Option ι'}
    {labels' : ι' → ρ → Prop} (h : Represents owner labels H) (h' : Represents owner' labels' H) :
    ∃ f : ι → ι', Set.BijOn f (owners owner) (owners owner') ∧
      ∀ i ∈ owners owner, (∀ a, owner' a = some (f i) ↔ owner a = some i) ∧
        ∀ r, labels' (f i) r ↔ labels i r := by
  classical
  have hnext : ∀ i ∈ owners owner, ∃ i', ∃ a, owner a = some i ∧ owner' a = some i' := by
    rintro i ⟨a, ha⟩
    obtain ⟨i', hi'⟩ := h'.owned ((h.same a a).mp ⟨i, ha, ha⟩)
    exact ⟨i', a, ha, hi'⟩
  choose! f hf using hnext
  have hkeys : ∀ i ∈ owners owner, ∀ a, owner' a = some (f i) ↔ owner a = some i := by
    intro i hi a
    obtain ⟨b, hb, hb'⟩ := hf i hi
    constructor
    · intro ha'
      obtain ⟨j, haj, hbj⟩ := (h.same a b).mpr ((h'.same a b).mp ⟨f i, ha', hb'⟩)
      rw [haj, ← hbj, hb]
    · intro ha
      obtain ⟨j, haj, hbj⟩ := (h'.same a b).mpr ((h.same a b).mp ⟨i, ha, hb⟩)
      rw [haj, ← hbj, hb']
  refine ⟨f, ⟨fun i hi => ?_, fun i hi j hj hij => ?_, ?_⟩, fun i hi => ⟨hkeys i hi, fun r => ?_⟩⟩
  · obtain ⟨a, -, ha'⟩ := hf i hi
    exact ⟨a, ha'⟩
  · obtain ⟨a, ha, ha'⟩ := hf i hi
    have haj := (hkeys j hj a).mp (hij ▸ ha')
    exact Option.some.inj (ha.symm.trans haj)
  · rintro i' ⟨a, ha'⟩
    obtain ⟨i, hi⟩ := h.owned ((h'.same a a).mp ⟨i', ha', ha'⟩)
    refine ⟨i, ⟨a, hi⟩, ?_⟩
    exact Option.some.inj (((hkeys i ⟨a, hi⟩ a).mpr hi).symm.trans ha')
  · obtain ⟨a, ha, ha'⟩ := hf i hi
    rw [h.label a i ha, h'.label a (f i) ha']

end Represents

end RiskOps.Lib.Components
