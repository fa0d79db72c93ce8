import RiskOps.Lib.Lawful

/-!
# RiskOps.Lib.Keyset — paging with a keyset cursor

Rows are read in pages: the rows behind a cursor in the order of their keys, at most so many, and
the key of the last one is the next cursor. **Nothing is read twice and nothing is left out**: what
was read and what is still behind the cursor are the rows, and a page that is not full is the last.
-/

namespace RiskOps.Lib.Keyset

variable {ρ κ : Type} [LinearOrder κ] (key : ρ → κ)

/-- The row is behind the cursor. -/
def after (cursor : Option κ) (r : ρ) : Bool := cursor.all fun c => c < key r

/-- `… WHERE key > cursor ORDER BY key LIMIT limit`. -/
def page (rows : List ρ) (cursor : Option κ) (limit : Nat) : List ρ :=
  ((rows.filter (after key cursor)).insertionSort fun a b => key a ≤ key b).take limit

/-- The cursor after a page. -/
def advance (cursor : Option κ) (read : List ρ) : Option κ :=
  match read.getLast? with
  | some r => some (key r)
  | none => cursor

variable {key} {rows : List ρ} {cursor : Option κ}

/-- Distinct keys sort strictly. -/
theorem pairwise_sorted (h : (rows.map key).Nodup) :
    (rows.insertionSort fun a b => key a ≤ key b).Pairwise fun a b => key a < key b := by
  have hsorted : (rows.insertionSort fun a b => key a ≤ key b).Pairwise fun a b => key a ≤ key b :=
    List.pairwise_insertionSort _ _
  have hnodup : ((rows.insertionSort fun a b => key a ≤ key b).map key).Nodup :=
    ((List.perm_insertionSort _ rows).map key).nodup_iff.mpr h
  rw [List.Nodup, List.pairwise_map] at hnodup
  exact (hsorted.and hnodup).imp fun hab => lt_of_le_of_ne hab.1 hab.2

/-- What is behind the cursor is the page and what is behind its last row. -/
theorem perm_page (h : (rows.map key).Nodup) (limit : Nat) :
    (rows.filter (after key cursor)).Perm (page key rows cursor limit ++
      rows.filter (after key (advance key cursor (page key rows cursor limit)))) := by
  have hperm := List.perm_insertionSort (fun a b : ρ => key a ≤ key b) (rows.filter (after key cursor))
  have hstrict := pairwise_sorted (h.sublist ((List.filter_sublist (p := after key cursor)).map key))
  unfold page
  generalize hs : (rows.filter (after key cursor)).insertionSort (fun a b => key a ≤ key b) = s at *
  have hrest : (rows.filter (after key (advance key cursor (s.take limit)))).Perm (s.drop limit) := by
    cases hlast : (s.take limit).getLast? with
    | none =>
      rw [advance, hlast]
      rw [List.getLast?_eq_none_iff] at hlast
      have hdrop : s.drop limit = s := by
        have happend := List.take_append_drop limit s
        rwa [hlast, List.nil_append] at happend
      rw [hdrop]
      exact hperm.symm
    | some l =>
      rw [advance, hlast]
      -- behind the last row of the page is a part of what was behind the cursor
      obtain ⟨front, hfront⟩ := List.getLast?_eq_some_iff.mp hlast
      have hsplit : s = front ++ l :: s.drop limit := by
        have happend := List.take_append_drop limit s
        rw [hfront, List.append_assoc, List.singleton_append] at happend
        exact happend.symm
      have hlmem : l ∈ rows.filter (after key cursor) := by
        refine hperm.mem_iff.mp ?_
        rw [hsplit]
        exact List.mem_append_right _ List.mem_cons_self
      have hbehind : ∀ r, after key (some (key l)) r = true → after key cursor r = true := by
        intro r hr
        have hl := (List.mem_filter.mp hlmem).2
        cases cursor with
        | none => rfl
        | some c =>
          simp only [after, Option.all_some, decide_eq_true_eq] at hl hr ⊢
          exact lt_trans hl hr
      have hfilter : rows.filter (after key (some (key l))) =
          (rows.filter (after key cursor)).filter (after key (some (key l))) := by
        rw [List.filter_filter]
        refine List.filter_congr fun r _ => ?_
        cases hr : after key (some (key l)) r with
        | false => rfl
        | true => rw [hbehind r hr]; rfl
      rw [hfilter]
      refine (hperm.symm.filter _).trans (List.Perm.of_eq ?_)
      rw [hsplit, List.pairwise_append, List.pairwise_cons] at hstrict
      obtain ⟨-, ⟨hafter, -⟩, hbefore⟩ := hstrict
      have hnone : front.filter (after key (some (key l))) = [] := by
        rw [List.filter_eq_nil_iff]
        intro r hr
        simp only [after, Option.all_some, decide_eq_true_eq]
        exact not_lt_of_gt (hbefore r hr l List.mem_cons_self)
      have hall : (s.drop limit).filter (after key (some (key l))) = s.drop limit := by
        rw [List.filter_eq_self]
        intro r hr
        simp only [after, Option.all_some, decide_eq_true_eq]
        exact hafter r hr
      have hself : after key (some (key l)) l = false := by simp [after]
      rw [hsplit, List.filter_append, hnone, List.nil_append, List.filter_cons, hself,
        if_neg Bool.false_ne_true, ← hsplit, hall]
  refine hperm.symm.trans ?_
  nth_rewrite 1 [← List.take_append_drop limit s]
  exact (List.Perm.refl _).append hrest.symm

/-- A page that is not full is the last. -/
theorem filter_after_short {limit : Nat} (hlt : (page key rows cursor limit).length < limit)
    (h : (rows.map key).Nodup) :
    rows.filter (after key (advance key cursor (page key rows cursor limit))) = [] := by
  have hperm : (rows.filter (after key cursor)).Perm (page key rows cursor limit ++
    rows.filter (after key (advance key cursor (page key rows cursor limit)))) := perm_page h limit
  have hlen := hperm.length_eq
  have hshort : (rows.filter (after key cursor)).length = (page key rows cursor limit).length := by
    rw [page, List.length_take, List.length_insertionSort] at hlt ⊢
    omega
  rw [List.length_append] at hlen
  exact List.length_eq_zero_iff.mp (by omega)

/-! ### What has been read -/

/-- What was read and what is still to come are the rows. -/
def Read (key : ρ → κ) (rows : List ρ) (cursor : Option κ) (read : List ρ) : Prop :=
  (read ++ rows.filter (after key cursor)).Perm rows

theorem read_start : Read key rows none [] := by
  rw [Read, List.nil_append, show rows.filter (after key none) = rows from List.filter_eq_self.mpr
    fun _ _ => rfl]

/-- **One page.** -/
theorem Read.page {read : List ρ} (hread : Read key rows cursor read) (h : (rows.map key).Nodup)
    (limit : Nat) :
    Read key rows (advance key cursor (Keyset.page key rows cursor limit))
      (read ++ Keyset.page key rows cursor limit) := by
  rw [Read, List.append_assoc]
  exact ((List.Perm.refl read).append (perm_page h limit).symm).trans hread

/-- **The last page.** -/
theorem Read.last {read : List ρ} (hread : Read key rows cursor read) (h : (rows.map key).Nodup)
    {limit : Nat} (hlt : (Keyset.page key rows cursor limit).length < limit) :
    (read ++ Keyset.page key rows cursor limit).Perm rows := by
  have hpage := hread.page h limit
  rwa [Read, filter_after_short hlt h, List.append_nil] at hpage

end RiskOps.Lib.Keyset
