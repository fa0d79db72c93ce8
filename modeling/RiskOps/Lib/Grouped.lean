import RiskOps.Lib.Lawful

/-!
# RiskOps.Lib.Grouped — a dict of lists

A dict of lists, as `grouped.setdefault(key, []).append(item)` fills it: a key enters at its first
item, and its items keep their order. `groupBy` fills it from a list; what it holds under a key is
what the list holds under it.
-/

namespace RiskOps.Lib.Grouped

variable {κ α : Type} [DecidableEq κ]

/-- `grouped.setdefault(key, []).append(item)`. -/
def put : List (κ × List α) → κ → α → List (κ × List α)
  | [], key, item => [(key, [item])]
  | (k, items) :: grouped, key, item =>
    if k = key then (k, items ++ [item]) :: grouped else (k, items) :: put grouped key item

/-- The dict of the items of a list. -/
def groupBy (key : α → κ) (items : List α) : List (κ × List α) :=
  items.foldl (fun grouped item => put grouped (key item) item) []

theorem keys_put (grouped : List (κ × List α)) (k : κ) (a : α) :
    (put grouped k a).map Prod.fst =
      if k ∈ grouped.map Prod.fst then grouped.map Prod.fst else grouped.map Prod.fst ++ [k] := by
  induction grouped with
  | nil => rfl
  | cons g grouped ih =>
    obtain ⟨k', items⟩ := g
    rw [put]
    by_cases hk : k' = k
    · subst hk
      rw [if_pos rfl, if_pos (List.mem_map_of_mem List.mem_cons_self)]
      rfl
    · rw [if_neg hk, List.map_cons, ih, List.map_cons]
      by_cases hmem : k ∈ grouped.map Prod.fst
      · rw [if_pos hmem, if_pos (List.mem_cons_of_mem _ hmem)]
      · rw [if_neg hmem, if_neg fun h => (List.mem_cons.mp h).elim (Ne.symm hk) hmem]
        rfl

/-- What the dict holds under a key. -/
def held (grouped : List (κ × List α)) (k : κ) : List α := (grouped.lookup k).getD []

theorem held_put (grouped : List (κ × List α)) (k k' : κ) (a : α) :
    held (put grouped k a) k' = if k = k' then held grouped k' ++ [a] else held grouped k' := by
  induction grouped with
  | nil =>
    by_cases hk : k = k'
    · simp [put, held, hk]
    · simp [put, held, hk, List.lookup_cons, beq_false_of_ne (Ne.symm hk)]
  | cons g grouped ih =>
    obtain ⟨k₀, xs⟩ := g
    unfold held at ih ⊢
    rw [put]
    by_cases hk : k₀ = k
    · subst hk
      rw [if_pos rfl]
      by_cases hk' : k₀ = k'
      · subst hk'
        simp
      · simp [hk', List.lookup_cons, beq_false_of_ne (Ne.symm hk')]
    · rw [if_neg hk]
      by_cases hk' : k₀ = k'
      · subst hk'
        simp [Ne.symm hk]
      · rw [List.lookup_cons, List.lookup_cons, beq_false_of_ne (Ne.symm hk')]
        exact ih

theorem perm_put (grouped : List (κ × List α)) (k : κ) (a : α) :
    ((put grouped k a).flatMap Prod.snd).Perm (a :: grouped.flatMap Prod.snd) := by
  induction grouped with
  | nil => exact .refl _
  | cons g grouped ih =>
    obtain ⟨k', items⟩ := g
    rw [put]
    split
    · rw [List.flatMap_cons, List.flatMap_cons, List.append_assoc]
      exact List.perm_middle
    · rw [List.flatMap_cons, List.flatMap_cons]
      exact (ih.append_left items).trans List.perm_middle

/-- **What the dict of a list is**: its keys are those of the list, each once, it holds under each
the items that have it, in their order, and no item is lost. -/
theorem groupBy_spec (key : α → κ) (l : List α) :
    ((groupBy key l).map Prod.fst).Nodup ∧
      (∀ k, k ∈ (groupBy key l).map Prod.fst ↔ ∃ a ∈ l, key a = k) ∧
      (∀ k, held (groupBy key l) k = l.filter fun a => key a = k) ∧
      ((groupBy key l).flatMap Prod.snd).Perm l := by
  induction l using List.reverseRecOn with
  | nil => exact ⟨List.nodup_nil, by simp [groupBy], fun _ => rfl, .refl _⟩
  | append_singleton l a ih =>
    obtain ⟨hnodup, hkeys, hheld, hperm⟩ := ih
    have hput : groupBy key (l ++ [a]) = put (groupBy key l) (key a) a := by
      rw [groupBy, List.foldl_append]
      rfl
    rw [hput, keys_put]
    refine ⟨?_, fun k => ?_, fun k => ?_, ?_⟩
    · split
      · exact hnodup
      · rename_i hnew
        refine List.nodup_append.mpr ⟨hnodup, List.nodup_singleton _, ?_⟩
        rintro x hx y hy rfl
        exact hnew (List.mem_singleton.mp hy ▸ hx)
    · have hsplit : k ∈ (if key a ∈ (groupBy key l).map Prod.fst then (groupBy key l).map Prod.fst
          else (groupBy key l).map Prod.fst ++ [key a]) ↔
          k ∈ (groupBy key l).map Prod.fst ∨ k = key a := by
        split
        · rename_i hold
          exact ⟨Or.inl, fun h => h.elim id fun heq => heq ▸ hold⟩
        · rw [List.mem_append, List.mem_singleton]
      rw [hsplit, hkeys]
      simp only [List.mem_append, List.mem_singleton, or_and_right, exists_or, exists_eq_left]
      exact or_congr_right eq_comm
    · rw [held_put, hheld, List.filter_append, List.filter_singleton]
      by_cases hk : key a = k
      · simp [hk]
      · simp [hk]
    · exact (perm_put _ _ _).trans ((hperm.cons a).trans (List.perm_append_singleton a l).symm)

theorem lookup_of_mem {grouped : List (κ × List α)} (h : (grouped.map Prod.fst).Nodup) {k : κ}
    {xs : List α} (hmem : (k, xs) ∈ grouped) : grouped.lookup k = some xs := by
  induction grouped with
  | nil => cases hmem
  | cons g grouped ih =>
    obtain ⟨hnew, hnodup⟩ := List.nodup_cons.mp h
    rcases List.mem_cons.mp hmem with rfl | hmem
    · exact List.lookup_cons_self
    · have hne : k ≠ g.1 := by
        rintro rfl
        exact hnew (List.mem_map.mpr ⟨_, hmem, rfl⟩)
      rw [List.lookup_cons, beq_false_of_ne hne]
      exact ih hnodup hmem

theorem mem_groupBy {key : α → κ} {l xs : List α} {k : κ} :
    (k, xs) ∈ groupBy key l ↔ (∃ a ∈ l, key a = k) ∧ xs = l.filter fun a => key a = k := by
  obtain ⟨hnodup, hkeys, hheld, -⟩ := groupBy_spec key l
  have heq : ∀ ys, (k, ys) ∈ groupBy key l → ys = l.filter fun a => key a = k := by
    intro ys hys
    rw [← hheld, held, lookup_of_mem hnodup hys, Option.getD_some]
  constructor
  · intro h
    exact ⟨(hkeys k).mp (List.mem_map_of_mem h), heq xs h⟩
  · rintro ⟨hk, rfl⟩
    obtain ⟨⟨k', ys⟩, hys, rfl⟩ := List.mem_map.mp ((hkeys k).mpr hk)
    rw [← heq ys hys]
    exact hys

end RiskOps.Lib.Grouped
