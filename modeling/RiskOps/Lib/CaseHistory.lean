import RiskOps.Lib.CaseBook

/-!
# RiskOps.Lib.CaseHistory — every revision of a case can still be read

**Which items a case held at a revision** is read from the stays that contain it (`heldAt`). A
revision closes stays at the revision before it and opens new ones, so what was held at an earlier
revision does not change; and a stay that is open contains the last revision.

`History` says that each revision held what its payload lists, and that the content of every listed
item is still there. It is kept by a revision with new items, by one that keeps the items, and by a
content table that only grows.
-/

namespace RiskOps.Lib

namespace Member

variable {ι ε : Type} [DecidableEq ι]

/-- The stay contains the revision. -/
def covers (m : Member ι ε) (revision : Nat) : Bool :=
  m.fromRevision ≤ revision && m.toRevision.all (revision ≤ ·)

/-- The items an owner held at a revision. -/
def heldAt (rows : List (Member ι ε)) (owner : ι) (revision : Nat) : List ε :=
  (rows.filter fun m => m.owner = owner && m.covers revision).map Member.item

/-- The stays of an owner began after revision 0 and before `next`, and ended before the last
revision. -/
def Before (rows : List (Member ι ε)) (next : ι → Nat) : Prop :=
  ∀ m ∈ rows, 1 ≤ m.fromRevision ∧ m.fromRevision < next m.owner ∧
    ∀ t, m.toRevision = some t → t + 1 < next m.owner

variable {rows : List (Member ι ε)} {next : ι → Nat} {owner : ι}

/-- From the last revision on, exactly the open stays contain a revision. -/
theorem heldAt_eq_current (h : Before rows next) {owner : ι} {r : Nat} (hr : next owner ≤ r + 1) :
    heldAt rows owner r = current rows owner := by
  unfold heldAt current
  congr 1
  refine List.filter_congr fun m hm => ?_
  by_cases howner : m.owner = owner
  · obtain ⟨-, hfrom, hto⟩ := h m hm
    rw [howner] at hfrom hto
    cases ht : m.toRevision with
    | none =>
      have hle : m.fromRevision ≤ r := by omega
      simp [howner, covers, ht, hle]
    | some t =>
      have hlt := hto t ht
      have hnot : ¬r ≤ t := by omega
      simp [covers, ht, hnot]
  · simp [howner]

theorem current_eq_nil (h : Before rows next) (howner : next owner = 1) : current rows owner = [] := by
  unfold current
  rw [List.map_eq_nil_iff, List.filter_eq_nil_iff]
  intro m hm hmatch
  simp only [Bool.and_eq_true, decide_eq_true_eq] at hmatch
  obtain ⟨hpos, hlt, -⟩ := h m hm
  rw [hmatch.1, howner] at hlt
  omega

variable [DecidableEq ε] {selected : List ε}

/-- **Assigning items leaves the earlier revisions alone.** -/
theorem heldAt_assign {revision r : Nat} {other : ι} (h : other = owner → r < revision) :
    heldAt (assign rows owner selected revision) other r = heldAt rows other r := by
  unfold heldAt assign
  rw [List.filter_append, List.map_append]
  have hnew : ((selected.filter fun item => item ∉ current rows owner).map fun item =>
      (⟨owner, item, revision, none⟩ : Member ι ε)).filter
        (fun m => m.owner = other && m.covers r) = [] := by
    rw [List.filter_eq_nil_iff]
    intro m hm hmatch
    obtain ⟨item, -, rfl⟩ := List.mem_map.mp hm
    simp only [covers, Bool.and_eq_true, decide_eq_true_eq] at hmatch
    have := h hmatch.1.symm
    omega
  rw [hnew, List.map_nil, List.append_nil, retire, List.filter_map, List.map_map]
  have hcover : ∀ m : Member ι ε, ((fun m => decide (m.owner = other) && m.covers r) ∘ fun m =>
      if m.owner = owner ∧ m.toRevision = none ∧ m.item ∉ selected then
        { m with toRevision := some (revision - 1) } else m) m =
      (decide (m.owner = other) && m.covers r) := by
    intro m
    simp only [Function.comp_apply]
    split
    · rename_i hclosed
      by_cases hm : m.owner = other
      · have hlt := h (hm.symm.trans hclosed.1)
        have hle : r ≤ revision - 1 := by omega
        simp [covers, hclosed.2.1, hm, hle]
      · simp [hm]
    · rfl
  rw [List.filter_congr fun m _ => hcover m]
  refine List.map_congr_left fun m _ => ?_
  simp only [Function.comp_apply]
  split <;> rfl

/-- **Assigning items**: at the new revision the owner holds exactly these. -/
theorem heldAt_assign_self (h : Before rows next) (hselected : selected.Nodup)
    (hcurrent : (current rows owner).Nodup) :
    (heldAt (assign rows owner selected (next owner)) owner (next owner)).Perm selected := by
  have hheld : heldAt (assign rows owner selected (next owner)) owner (next owner) =
      (current rows owner).filter (· ∈ selected) ++
        selected.filter fun item => item ∉ current rows owner := by
    unfold heldAt assign
    rw [List.filter_append, List.map_append]
    congr 1
    · rw [retire, List.filter_map, List.map_map, current, List.filter_map, List.filter_filter]
      have hcover : ∀ m ∈ rows, ((fun m => decide (m.owner = owner) && m.covers (next owner)) ∘
          fun m => if m.owner = owner ∧ m.toRevision = none ∧ m.item ∉ selected then
            { m with toRevision := some (next owner - 1) } else m) m =
          (((fun x => decide (x ∈ selected)) ∘ Member.item) m &&
            (decide (m.owner = owner) && m.toRevision.isNone)) := by
        intro m hm
        obtain ⟨hpos, hfrom, hto⟩ := h m hm
        simp only [Function.comp_apply]
        by_cases howner : m.owner = owner
        · rw [howner] at hfrom hto
          cases ht : m.toRevision with
          | none =>
            by_cases hin : m.item ∈ selected
            · have hle : m.fromRevision ≤ next owner := by omega
              simp [howner, ht, hin, covers, hle]
            · have hnot : ¬next owner ≤ next owner - 1 := by omega
              simp [howner, hin, covers, hnot]
          | some t =>
            have hlt := hto t ht
            have hnot : ¬next owner ≤ t := by omega
            simp [howner, ht, covers, hnot]
        · simp [howner]
      rw [List.filter_congr hcover]
      refine List.map_congr_left fun m _ => ?_
      simp only [Function.comp_apply]
      split <;> rfl
    · rw [List.filter_eq_self.mpr, List.map_map]
      · exact List.map_id'' (fun _ => rfl) _
      · intro m hm
        obtain ⟨item, -, rfl⟩ := List.mem_map.mp hm
        simp [covers]
  rw [hheld]
  refine (List.perm_ext_iff_of_nodup ?_ hselected).mpr fun item => ?_
  · refine List.nodup_append.mpr ⟨hcurrent.filter _, hselected.filter _, ?_⟩
    intro a ha b hb hab
    rw [List.mem_filter] at ha hb
    exact absurd (hab ▸ ha.1) (by simpa using hb.2)
  · rw [List.mem_append, List.mem_filter, List.mem_filter]
    by_cases hin : item ∈ current rows owner <;> simp [hin]

theorem before_assign {next' : ι → Nat} (h : Before rows next) (hnext : 1 ≤ next owner)
    (howner : next' owner = next owner + 1) (hother : ∀ o, o ≠ owner → next' o = next o) :
    Before (assign rows owner selected (next owner)) next' := by
  have hmono : ∀ o, next o ≤ next' o := by
    intro o
    by_cases ho : o = owner
    · rw [ho, howner]; omega
    · rw [hother o ho]
  intro m hm
  rw [assign, List.mem_append] at hm
  rcases hm with hm | hm
  · obtain ⟨m₀, hm₀, rfl⟩ := List.mem_map.mp hm
    obtain ⟨hpos, hfrom, hto⟩ := h m₀ hm₀
    have hle := hmono m₀.owner
    split
    · rename_i hclosed
      refine ⟨hpos, Nat.lt_of_lt_of_le hfrom hle, fun t ht => ?_⟩
      obtain rfl := Option.some.inj ht
      simp only [hclosed.1, howner]
      omega
    · exact ⟨hpos, Nat.lt_of_lt_of_le hfrom hle, fun t ht => Nat.lt_of_lt_of_le (hto t ht) hle⟩
  · obtain ⟨item, -, rfl⟩ := List.mem_map.mp hm
    refine ⟨hnext, ?_, fun t ht => by simp at ht⟩
    simp only [howner]
    omega

omit [DecidableEq ι] [DecidableEq ε] in
theorem Before.mono {next' : ι → Nat} (h : Before rows next) (hle : ∀ o, next o ≤ next' o) :
    Before rows next' := by
  intro m hm
  obtain ⟨hpos, hfrom, hto⟩ := h m hm
  exact ⟨hpos, Nat.lt_of_lt_of_le hfrom (hle _), fun t ht => Nat.lt_of_lt_of_le (hto t ht) (hle _)⟩

end Member

namespace CaseBook

variable {κ π ε α : Type} [DecidableEq κ]

/-- Every revision held what its payload lists, and the content of what it lists is there. -/
structure History (idOf : α → ε) (listed : π → List α) (content : κ → ε → Option α)
    (book : CaseBook κ π ε) : Prop where
  before : Member.Before book.membership book.nextRevision
  numbered : ∀ x ∈ book.revisions, x.2.1 < book.nextRevision x.1
  keys : (book.revisions.map fun x => (x.1, x.2.1)).Nodup
  last : ∀ key payload, book.payload? key = some payload →
    ∃ last, book.nextRevision key = last + 1 ∧ (key, last, payload) ∈ book.revisions
  held : ∀ x ∈ book.revisions,
    (Member.heldAt book.membership x.1 x.2.1).Perm ((listed x.2.2).map idOf)
  nodup : ∀ x ∈ book.revisions, ((listed x.2.2).map idOf).Nodup
  kept : ∀ x ∈ book.revisions, ∀ a ∈ listed x.2.2, content x.1 (idOf a) = some a

variable {idOf : α → ε} {listed : π → List α} {content content' : κ → ε → Option α}
  {book : CaseBook κ π ε} {key : κ} {payload : π}

theorem history_empty : History idOf listed content (empty : CaseBook κ π ε) := by
  constructor <;> simp [empty, Member.Before, payload?]

theorem History.content_mono (h : History idOf listed content book)
    (hgrow : ∀ k id a, content k id = some a → content' k id = some a) :
    History idOf listed content' book :=
  ⟨h.before, h.numbered, h.keys, h.last, h.held, h.nodup,
    fun x hx a ha => hgrow _ _ _ (h.kept x hx a ha)⟩

theorem nextRevision_of_none (h : book.payload? key = none) : book.nextRevision key = 1 := by
  rw [payload?, Option.map_eq_none_iff] at h
  rw [nextRevision, h]
  rfl

/-- What a case holds is listed by its last payload, each item once. -/
theorem History.current_nodup (h : History idOf listed content book) (key : κ) :
    (Member.current book.membership key).Nodup := by
  cases hp : book.payload? key with
  | none =>
    rw [Member.current_eq_nil h.before (nextRevision_of_none hp)]
    exact List.nodup_nil
  | some payload =>
    obtain ⟨last, hlast, hmem⟩ := h.last key payload hp
    rw [← Member.heldAt_eq_current h.before (Nat.le_of_eq hlast)]
    exact (h.held _ hmem).nodup_iff.mpr (h.nodup _ hmem)

/-- The book with one more revision of a case. -/
def extend (book : CaseBook κ π ε) (key : κ) (payload : π) (now : ℚ)
    (membership : List (Member κ ε)) : CaseBook κ π ε where
  cases := book.cases.replace ⟨key, book.nextRevision key, now, payload⟩
  revisions := book.revisions ++ [(key, book.nextRevision key, payload)]
  membership := membership

theorem nextRevision_extend (book : CaseBook κ π ε) (key : κ) (payload : π) (now : ℚ)
    (membership : List (Member κ ε)) (k : κ) :
    (book.extend key payload now membership).nextRevision k =
      if key = k then book.nextRevision key + 1 else book.nextRevision k := by
  show ((book.cases.replace _).find? k |>.map _).getD 0 + 1 = _
  rw [Table.find?_replace]
  by_cases hk : key = k
  · rw [if_pos hk, if_pos hk]
    rfl
  · rw [if_neg hk, if_neg hk]
    rfl

theorem payload?_extend (book : CaseBook κ π ε) (key : κ) (payload : π) (now : ℚ)
    (membership : List (Member κ ε)) (k : κ) :
    (book.extend key payload now membership).payload? k =
      if key = k then some payload else book.payload? k := by
  show ((book.cases.replace _).find? k).map _ = _
  rw [Table.find?_replace]
  by_cases hk : key = k
  · rw [if_pos hk, if_pos hk]
    rfl
  · rw [if_neg hk, if_neg hk]
    rfl

/-- **One more revision.** Earlier revisions are read as before, and the new one holds what its
payload lists. -/
theorem History.extend (h : History idOf listed content book) {membership : List (Member κ ε)}
    (now : ℚ)
    (hbefore : Member.Before membership (book.extend key payload now membership).nextRevision)
    (hsame : ∀ k r, (k = key → r < book.nextRevision key) →
      Member.heldAt membership k r = Member.heldAt book.membership k r)
    (hheld : (Member.heldAt membership key (book.nextRevision key)).Perm
      ((listed payload).map idOf))
    (hnodup : ((listed payload).map idOf).Nodup)
    (hkept : ∀ a ∈ listed payload, content key (idOf a) = some a) :
    History idOf listed content (book.extend key payload now membership) where
  before := hbefore
  numbered := by
    intro x hx
    rw [nextRevision_extend]
    rcases List.mem_append.mp hx with hx | hx
    · have hlt := h.numbered x hx
      split
      · rename_i hk
        rw [hk]
        omega
      · exact hlt
    · rw [List.mem_singleton.mp hx, if_pos rfl]
      simp
  keys := by
    show ((book.revisions ++ [_]).map _).Nodup
    rw [List.map_append, List.nodup_append]
    refine ⟨h.keys, by simp, ?_⟩
    intro a ha b hb hab
    obtain ⟨x, hx, rfl⟩ := List.mem_map.mp ha
    simp only [List.map_cons, List.map_nil, List.mem_singleton] at hb
    have hlt := h.numbered x hx
    have hpair := Prod.ext_iff.mp (hab.trans hb)
    simp only at hpair
    rw [hpair.1, hpair.2] at hlt
    exact absurd hlt (Nat.lt_irrefl _)
  last := by
    intro k p hp
    rw [payload?_extend] at hp
    rw [nextRevision_extend]
    split at hp
    · rename_i hk
      obtain rfl := Option.some.inj hp
      rw [if_pos hk, ← hk]
      exact ⟨_, rfl, List.mem_append_right _ (List.mem_singleton_self _)⟩
    · rename_i hk
      rw [if_neg hk]
      obtain ⟨last, hlast, hmem⟩ := h.last k p hp
      exact ⟨last, hlast, List.mem_append_left _ hmem⟩
  held := by
    intro x hx
    rcases List.mem_append.mp hx with hx | hx
    · show (Member.heldAt membership x.1 x.2.1).Perm _
      rw [hsame x.1 x.2.1 fun hk => by rw [← hk]; exact h.numbered x hx]
      exact h.held x hx
    · rw [List.mem_singleton.mp hx]
      exact hheld
  nodup := by
    intro x hx
    rcases List.mem_append.mp hx with hx | hx
    · exact h.nodup x hx
    · rw [List.mem_singleton.mp hx]
      exact hnodup
  kept := by
    intro x hx
    rcases List.mem_append.mp hx with hx | hx
    · exact h.kept x hx
    · rw [List.mem_singleton.mp hx]
      exact hkept

/-- **A revision that is written stays as it is**: in a later book it has the same payload, and it
held the same items. -/
theorem History.later {book' : CaseBook κ π ε} (h : History idOf listed content book)
    (h' : History idOf listed content' book') (hsub : book.revisions <+: book'.revisions)
    {x : κ × Nat × π} (hx : x ∈ book.revisions) :
    (∀ payload, (x.1, x.2.1, payload) ∈ book'.revisions ↔ payload = x.2.2) ∧
      (Member.heldAt book'.membership x.1 x.2.1).Perm (Member.heldAt book.membership x.1 x.2.1) := by
  have hx' : x ∈ book'.revisions := hsub.subset hx
  refine ⟨fun payload => ⟨fun hp => ?_, fun hp => ?_⟩, ?_⟩
  · exact congrArg (fun y => y.2.2) (List.inj_on_of_nodup_map h'.keys hp hx' rfl)
  · rw [hp]
    exact hx'
  · exact (h'.held x hx').trans (h.held x hx).symm

variable [DecidableEq π] [DecidableEq ε]

/-- **A revision with new items.** -/
theorem History.revise_some (h : History idOf listed content book) {items : List ε}
    (hitems : items.Nodup) (hlisted : items.Perm ((listed payload).map idOf))
    (hkept : ∀ a ∈ listed payload, content key (idOf a) = some a) (now : ℚ) :
    History idOf listed content (book.revise key payload (some items) now) := by
  rw [revise.eq_def]
  split
  · exact h
  · have hpos : 1 ≤ book.nextRevision key := Nat.le_add_left 1 _
    refine h.extend now ?_ (fun k r hk => ?_) ?_
      (hlisted.nodup_iff.mp hitems) hkept
    · refine Member.before_assign h.before hpos ?_ fun o ho => ?_
      · rw [nextRevision_extend, if_pos rfl]
      · rw [nextRevision_extend, if_neg (Ne.symm ho)]
    · exact Member.heldAt_assign hk
    · exact (Member.heldAt_assign_self h.before hitems (h.current_nodup key)).trans hlisted

/-- **A revision that keeps the items.** -/
theorem History.revise_none (h : History idOf listed content book) {old : π}
    (hold : book.payload? key = some old) (hlisted : listed payload = listed old) (now : ℚ) :
    History idOf listed content (book.revise key payload none now) := by
  rw [revise.eq_def]
  split
  · exact h
  · obtain ⟨last, hlast, hmem⟩ := h.last key old hold
    refine h.extend now ?_ (fun _ _ _ => rfl) ?_ ?_ ?_
    · refine h.before.mono fun o => ?_
      rw [nextRevision_extend]
      split
      · rename_i hk
        rw [← hk]
        omega
      · exact Nat.le_refl _
    · rw [Member.heldAt_eq_current h.before (Nat.le_succ _),
        ← Member.heldAt_eq_current h.before (Nat.le_of_eq hlast), hlisted]
      exact h.held _ hmem
    · rw [hlisted]
      exact h.nodup _ hmem
    · rw [hlisted]
      exact h.kept _ hmem

omit [DecidableEq π] [DecidableEq ε] in
/-- **Reading a revision back**: the content of what it held, sorted as the payload lists it, is
what the payload lists. -/
theorem History.read_eq (h : History idOf listed content book) {x : κ × Nat × π}
    (hx : x ∈ book.revisions) {β : Type} [LinearOrder β] {order : α → β}
    (horder : ∀ a b, order a = order b → idOf a = idOf b)
    (hsorted : (listed x.2.2).Pairwise fun a b => order a ≤ order b) :
    ((Member.heldAt book.membership x.1 x.2.1).filterMap (content x.1)).insertionSort
      (fun a b => order a ≤ order b) = listed x.2.2 := by
  have hperm : ((Member.heldAt book.membership x.1 x.2.1).filterMap (content x.1)).Perm
      (listed x.2.2) := by
    refine ((h.held x hx).filterMap (content x.1)).trans (List.Perm.of_eq ?_)
    rw [List.filterMap_map]
    refine (List.filterMap_congr fun a ha => ?_).trans (List.filterMap_some)
    exact h.kept x hx a ha
  refine List.Perm.eq_of_pairwise ?_ (List.pairwise_insertionSort _ _) hsorted
    ((List.perm_insertionSort _ _).trans hperm)
  intro a b ha hb hab hba
  rw [List.mem_insertionSort, hperm.mem_iff] at ha
  exact List.inj_on_of_nodup_map (h.nodup x hx) ha hb (horder a b (le_antisymm hab hba))

end CaseBook

/-! ### Content that is never overwritten -/

namespace Table

variable {ρ κ : Type} {key : ρ → κ} [DecidableEq κ] {t : Table key} {rows : List ρ} {r : ρ}

/-- `INSERT OR IGNORE` of several rows. -/
def insertAll (t : Table key) (rows : List ρ) : Table key := rows.foldl insertOrIgnore t

theorem find?_insertAll_of_some {k : κ} (h : t.find? k = some r) :
    (t.insertAll rows).find? k = some r := by
  induction rows generalizing t with
  | nil => exact h
  | cons a rows ih =>
    refine ih ?_
    rw [find?_insertOrIgnore, h]
    split <;> rfl

theorem mem_insertAll (h : r ∈ t.insertAll rows) : r ∈ t ∨ r ∈ rows := by
  induction rows generalizing t with
  | nil => exact Or.inl h
  | cons a rows ih =>
    rcases ih h with hmem | hmem
    · have hfind := find?_of_mem hmem
      rw [find?_insertOrIgnore] at hfind
      split at hfind
      · cases ht : t.find? (key r) with
        | none =>
          rw [ht] at hfind
          exact Or.inr (by rw [← Option.some.inj hfind]; exact List.mem_cons_self)
        | some r' =>
          rw [ht] at hfind
          exact Or.inl (by rw [← Option.some.inj hfind]; exact mem_of_find? ht)
      · exact Or.inl (mem_of_find? hfind)
    · exact Or.inr (List.mem_cons_of_mem _ hmem)

theorem find?_insertAll_isSome (h : r ∈ rows) : ((t.insertAll rows).find? (key r)).isSome := by
  induction rows generalizing t with
  | nil => exact absurd h List.not_mem_nil
  | cons a rows ih =>
    rcases List.mem_cons.mp h with rfl | h
    · have hfirst : (t.insertOrIgnore r).find? (key r) = some ((t.find? (key r)).getD r) := by
        rw [find?_insertOrIgnore, if_pos rfl]
      have hlater : ((t.insertOrIgnore r).insertAll rows).find? (key r) = _ :=
        find?_insertAll_of_some hfirst
      exact Option.isSome_iff_exists.mpr ⟨_, hlater⟩
    · exact ih h

end Table

namespace CaseBook

variable {κ π ε α ρ : Type} [DecidableEq κ] [DecidableEq π] [DecidableEq ε] {idOf : α → ε}
  {listed : π → List α} {rowKey : ρ → κ} {rowItem : ρ → α} {book : CaseBook κ π ε} {key : κ}
  {payload : π}

/-- The content stored for an item of a case. -/
def contentOf (t : Table fun r : ρ => (rowKey r, idOf (rowItem r))) (k : κ) (id : ε) : Option α :=
  (t.find? (k, id)).map rowItem

omit [DecidableEq π] [DecidableEq ε] in
/-- What is held is stored. -/
theorem History.content_of_holds {content : κ → ε → Option α} (h : History idOf listed content book)
    {id : ε} (hid : id ∈ book.holds key) : ∃ a, content key id = some a := by
  cases hp : book.payload? key with
  | none =>
    rw [holds, Member.current_eq_nil h.before (nextRevision_of_none hp)] at hid
    exact absurd hid List.not_mem_nil
  | some payload =>
    obtain ⟨last, hlast, hmem⟩ := h.last key payload hp
    rw [holds, ← Member.heldAt_eq_current h.before (Nat.le_of_eq hlast),
      (h.held _ hmem).mem_iff] at hid
    obtain ⟨a, ha, rfl⟩ := List.mem_map.mp hid
    exact ⟨a, h.kept _ hmem a ha⟩

/-- **A revision with new items and their content.** The content is inserted unless it is there
already; where at most one content is possible for an item of a case (`Possible`), the content that
is there is the one the payload lists, also for an item that had left and comes back. -/
theorem History.store {t : Table fun r : ρ => (rowKey r, idOf (rowItem r))} {rows : List ρ}
    {Possible : κ → α → Prop} {items : List ε} (h : History idOf listed (contentOf t) book)
    (hunique : ∀ k a b, Possible k a → Possible k b → idOf a = idOf b → a = b)
    (hstored : ∀ r ∈ t, Possible (rowKey r) (rowItem r))
    (hrows : ∀ r ∈ rows, Possible (rowKey r) (rowItem r))
    (hlisted : ∀ a ∈ listed payload, Possible key a ∧
      (idOf a ∈ book.holds key ∨ ∃ r ∈ rows, rowKey r = key ∧ rowItem r = a))
    (hitems : items.Nodup) (hperm : items.Perm ((listed payload).map idOf)) (now : ℚ) :
    History idOf listed (contentOf (t.insertAll rows)) (book.revise key payload (some items) now) ∧
      ∀ r ∈ t.insertAll rows, Possible (rowKey r) (rowItem r) := by
  have hpossible : ∀ r ∈ t.insertAll rows, Possible (rowKey r) (rowItem r) := by
    intro r hr
    rcases Table.mem_insertAll hr with hr | hr
    · exact hstored r hr
    · exact hrows r hr
  have hgrow : ∀ k id a, contentOf t k id = some a → contentOf (t.insertAll rows) k id = some a := by
    intro k id a ha
    obtain ⟨r, hr, rfl⟩ := Option.map_eq_some_iff.mp ha
    rw [contentOf, Table.find?_insertAll_of_some hr]
    rfl
  refine ⟨(h.content_mono hgrow).revise_some hitems hperm (fun a ha => ?_) now, hpossible⟩
  obtain ⟨hgood, hwhere⟩ := hlisted a ha
  -- Something is stored under the item, and only this content is possible.
  obtain ⟨r, hr⟩ : ∃ r, (t.insertAll rows).find? (key, idOf a) = some r := by
    rcases hwhere with hheld | ⟨r, hr, hkey, hitem⟩
    · obtain ⟨b, hb⟩ := h.content_of_holds hheld
      obtain ⟨r, hr, -⟩ := Option.map_eq_some_iff.mp hb
      exact ⟨r, Table.find?_insertAll_of_some hr⟩
    · rw [← hkey, ← hitem]
      exact Option.isSome_iff_exists.mp (Table.find?_insertAll_isSome hr)
  have hrkey := Prod.ext_iff.mp (Table.find?_key hr)
  simp only at hrkey
  have hrgood := hpossible r (Table.mem_of_find? hr)
  rw [hrkey.1] at hrgood
  rw [contentOf, hr, Option.map_some, hunique key _ a hrgood hgood hrkey.2]

omit [DecidableEq κ] [DecidableEq π] [DecidableEq ε] in
/-- Looking items up and reading their names again. -/
theorem map_filterMap_lookup {lookup : ε → Option α} {items : List ε}
    (h : ∀ id ∈ items, ∃ a, lookup id = some a ∧ idOf a = id) :
    (items.filterMap lookup).map idOf = items := by
  induction items with
  | nil => rfl
  | cons id items ih =>
    obtain ⟨a, ha, hid⟩ := h id List.mem_cons_self
    rw [List.filterMap_cons_some ha, List.map_cons, hid,
      ih fun other hother => h other (List.mem_cons_of_mem _ hother)]

/-- **A revision whose items are looked up.** Items that are new to the case (`fresh`) get their
content stored. -/
theorem History.storeLookup {t : Table fun r : ρ => (rowKey r, idOf (rowItem r))}
    {Possible : κ → α → Prop} {items fresh : List ε} {lookup : ε → Option α} (row : α → ρ)
    (h : History idOf listed (contentOf t) book)
    (hunique : ∀ k a b, Possible k a → Possible k b → idOf a = idOf b → a = b)
    (hstored : ∀ r ∈ t, Possible (rowKey r) (rowItem r))
    (hrow : ∀ a, rowKey (row a) = key ∧ rowItem (row a) = a) (hitems : items.Nodup)
    (hlookup : ∀ id ∈ items, ∃ a, lookup id = some a ∧ idOf a = id ∧ Possible key a)
    (hlisted : (listed payload).Perm (items.filterMap lookup))
    (hfresh : ∀ id, id ∈ fresh ↔ id ∈ items ∧ id ∉ book.holds key) (now : ℚ) :
    History idOf listed
        (contentOf ((fresh.filterMap lookup).foldl (fun t a => t.insertOrIgnore (row a)) t))
        (book.revise key payload (some items) now) ∧
      ∀ r ∈ (fresh.filterMap lookup).foldl (fun t a => t.insertOrIgnore (row a)) t,
        Possible (rowKey r) (rowItem r) := by
  have hrows : (fresh.filterMap lookup).foldl (fun t a => t.insertOrIgnore (row a)) t =
      t.insertAll ((fresh.filterMap lookup).map row) := by
    rw [Table.insertAll, List.foldl_map]
  have hnames : (items.filterMap lookup).map idOf = items :=
    map_filterMap_lookup fun id hid =>
      let ⟨a, ha, hname, _⟩ := hlookup id hid
      ⟨a, ha, hname⟩
  have hpossible : ∀ a, ∀ id ∈ items, lookup id = some a → idOf a = id ∧ Possible key a := by
    intro a id hid ha
    obtain ⟨b, hb, hname, hgood⟩ := hlookup id hid
    rw [Option.some.inj (ha.symm.trans hb)]
    exact ⟨hname, hgood⟩
  rw [hrows]
  refine h.store hunique hstored (fun r hr => ?_) (fun a ha => ?_) hitems ?_ now
  · obtain ⟨a, ha, rfl⟩ := List.mem_map.mp hr
    obtain ⟨id, hid, hfound⟩ := List.mem_filterMap.mp ha
    rw [(hrow a).1, (hrow a).2]
    exact (hpossible a id ((hfresh id).mp hid).1 hfound).2
  · obtain ⟨id, hid, hfound⟩ := List.mem_filterMap.mp (hlisted.mem_iff.mp ha)
    obtain ⟨rfl, hgood⟩ := hpossible a id hid hfound
    refine ⟨hgood, ?_⟩
    by_cases hheld : idOf a ∈ book.holds key
    · exact Or.inl hheld
    · have hnew : idOf a ∈ fresh := (hfresh _).mpr ⟨hid, hheld⟩
      exact Or.inr ⟨row a, List.mem_map_of_mem (List.mem_filterMap.mpr ⟨_, hnew, hfound⟩), hrow a⟩
  · exact (List.Perm.of_eq hnames.symm).trans (hlisted.map idOf).symm

/-- A revision is added behind the others. -/
theorem revisions_revise (book : CaseBook κ π ε) (key : κ) (payload : π)
    (selected : Option (List ε)) (now : ℚ) :
    book.revisions <+: (book.revise key payload selected now).revisions ∧
      ∀ x ∈ (book.revise key payload selected now).revisions,
        x ∈ book.revisions ∨ x.2.2 = payload := by
  rw [revise.eq_def]
  split
  · exact ⟨List.prefix_rfl, fun x hx => Or.inl hx⟩
  · refine ⟨List.prefix_append _ _, fun x hx => ?_⟩
    rcases List.mem_append.mp hx with hx | hx
    · exact Or.inl hx
    · rw [List.mem_singleton.mp hx]
      exact Or.inr rfl

end CaseBook

end RiskOps.Lib
