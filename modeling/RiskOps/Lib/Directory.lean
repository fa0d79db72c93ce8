import RiskOps.Lib.Lawful

/-!
# RiskOps.Lib.Directory — directories, and work cut short

**A directory** is its entries in the order of their names, each name once. Entries are removed and
modified; removing several is one filter.

**Work in pieces.** A list of pieces, each a list of steps, may be cut after any number of steps:
then some pieces are done, at most one is begun, and the others are untouched
(`take_flatMap_cases`). What a stable sort does with part of a list is what it does with the whole
(`filter_insertionSort`).
-/

namespace RiskOps.Lib

/-- A directory: entries in the order of their names. -/
structure Dir (ν α : Type) [LT ν] where
  entries : List (ν × α)
  sorted : (entries.map Prod.fst).Pairwise (· < ·)

namespace Dir

variable {ν α : Type} [LinearOrder ν]

@[ext] theorem ext {d e : Dir ν α} (h : d.entries = e.entries) : d = e := by
  cases d
  cases e
  cases h
  rfl

theorem nodup (d : Dir ν α) : (d.entries.map Prod.fst).Nodup := d.sorted.imp fun h => ne_of_lt h

/-- Directories with the same entries are the same. -/
theorem ext_mem {d e : Dir ν α} (h : ∀ x, x ∈ d.entries ↔ x ∈ e.entries) : d = e := by
  have hperm : d.entries.Perm e.entries :=
    (List.perm_ext_iff_of_nodup d.nodup.of_map e.nodup.of_map).mpr h
  ext1
  refine hperm.eq_of_pairwise (fun x y _ _ hxy hyx => ?_) (List.pairwise_map.mp d.sorted)
    (List.pairwise_map.mp e.sorted)
  exact absurd hyx (lt_asymm hxy)

/-- The entry of a name. -/
def get (d : Dir ν α) (name : ν) : Option α := d.entries.lookup name

/-- The directory without the names. -/
def eraseAll (d : Dir ν α) (names : List ν) : Dir ν α where
  entries := d.entries.filter fun e => decide (e.1 ∉ names)
  sorted := d.sorted.sublist (List.filter_sublist.map Prod.fst)

/-- The directory without a name. -/
def erase (d : Dir ν α) (name : ν) : Dir ν α := d.eraseAll [name]

/-- The entry of a name replaced by what the function makes of it. -/
def modify (d : Dir ν α) (name : ν) (f : α → α) : Dir ν α where
  entries := d.entries.map fun e => (e.1, if e.1 = name then f e.2 else e.2)
  sorted := by
    rw [List.map_map]
    exact d.sorted

variable {d : Dir ν α} {name other : ν}

theorem mem_of_get {a : α} (h : d.get name = some a) : (name, a) ∈ d.entries := by
  obtain ⟨before, after, heq, -⟩ := List.lookup_eq_some_iff.mp h
  simp [heq]

theorem get_of_mem {a : α} (h : (name, a) ∈ d.entries) : d.get name = some a := by
  cases hget : d.get name with
  | none =>
    have := List.lookup_eq_none_iff.mp hget (name, a) h
    simp at this
  | some b =>
    have := List.inj_on_of_nodup_map d.nodup (mem_of_get hget) h rfl
    rw [(Prod.mk.inj this).2]

theorem get_eq_some_iff {a : α} : d.get name = some a ↔ (name, a) ∈ d.entries :=
  ⟨mem_of_get, get_of_mem⟩

theorem mem_eraseAll {names : List ν} {e : ν × α} :
    e ∈ (d.eraseAll names).entries ↔ e ∈ d.entries ∧ e.1 ∉ names := by
  simp [eraseAll]

theorem mem_modify {f : α → α} {e : ν × α} :
    e ∈ (d.modify name f).entries
      ↔ ∃ a, (e.1, a) ∈ d.entries ∧ e.2 = if e.1 = name then f a else a := by
  obtain ⟨n, b⟩ := e
  simp only [modify, List.mem_map, Prod.mk.injEq, Prod.exists]
  constructor
  · rintro ⟨m, a, hmem, rfl, hb⟩
    exact ⟨a, hmem, hb.symm⟩
  · rintro ⟨a, hmem, hb⟩
    exact ⟨n, a, hmem, rfl, hb.symm⟩

theorem get_eraseAll {names : List ν} (h : name ∉ names) :
    (d.eraseAll names).get name = d.get name := by
  ext a
  rw [get_eq_some_iff, get_eq_some_iff, mem_eraseAll]
  exact and_iff_left h

theorem get_eraseAll_of_mem {names : List ν} (h : name ∈ names) :
    (d.eraseAll names).get name = none := by
  rw [Option.eq_none_iff_forall_ne_some]
  intro a ha
  exact (Iff.mp mem_eraseAll (mem_of_get ha)).2 h

theorem get_modify {f : α → α} :
    (d.modify name f).get other = (d.get other).map fun a => if other = name then f a else a := by
  ext a
  rw [get_eq_some_iff, mem_modify, Option.map_eq_some_iff]
  exact exists_congr fun b => and_congr get_eq_some_iff.symm eq_comm

@[simp] theorem eraseAll_nil : d.eraseAll [] = d := by
  ext1
  simp [eraseAll]

theorem eraseAll_eraseAll {xs ys : List ν} :
    (d.eraseAll xs).eraseAll ys = d.eraseAll (xs ++ ys) := by
  ext1
  simp only [eraseAll, List.filter_filter, List.mem_append, not_or, Bool.decide_and, Bool.and_comm]

theorem modify_modify {f g : α → α} : (d.modify name f).modify name g = d.modify name (g ∘ f) := by
  ext1
  simp only [modify, List.map_map]
  refine List.map_congr_left fun e _ => ?_
  by_cases h : e.1 = name
  · simp [h]
  · simp [h]

@[simp] theorem modify_id : d.modify name id = d := by
  ext1
  simp [modify]

/-- Whatever was done to what is then removed. -/
theorem eraseAll_modify {names : List ν} {f : α → α} (h : name ∈ names) :
    (d.modify name f).eraseAll names = d.eraseAll names := by
  ext1
  simp only [eraseAll, modify, List.filter_map]
  have hid : ∀ e ∈ d.entries.filter ((fun e : ν × α => decide (e.1 ∉ names)) ∘
      fun e => (e.1, if e.1 = name then f e.2 else e.2)),
      (e.1, if e.1 = name then f e.2 else e.2) = e := by
    intro e he
    have hout : e.1 ∉ names := by simpa using (List.mem_filter.mp he).2
    rw [if_neg fun heq : e.1 = name => hout (heq ▸ h)]
  rw [List.map_congr_left hid, List.map_id']
  rfl

end Dir

/-! ### Work in pieces -/

section Pieces

variable {α β : Type}

/-- Work cut after some steps: done pieces, at most one begun piece, untouched pieces. -/
theorem take_flatMap_cases (f : α → List β) (xs : List α) (k : Nat) :
    (xs.flatMap f).take k = xs.flatMap f ∨
      ∃ done cut rest j, xs = done ++ cut :: rest ∧ j < (f cut).length ∧
        (xs.flatMap f).take k = done.flatMap f ++ (f cut).take j := by
  induction xs generalizing k with
  | nil => simp
  | cons x xs ih =>
    rcases Nat.lt_or_ge k (f x).length with hlt | hge
    · refine Or.inr ⟨[], x, xs, k, rfl, hlt, ?_⟩
      rw [List.flatMap_cons, List.take_append_of_le_length hlt.le]
      rfl
    · obtain ⟨m, rfl⟩ := Nat.exists_eq_add_of_le hge
      rw [List.flatMap_cons, List.take_length_add_append]
      rcases ih m with h | ⟨done, cut, rest, j, rfl, hj, h⟩
      · exact Or.inl (by rw [h])
      · refine Or.inr ⟨x :: done, cut, rest, j, rfl, hj, ?_⟩
        rw [h, List.flatMap_cons, List.append_assoc]

/-- A filter that leaves the first elements alone. -/
theorem drop_filter_of_take {p : α → Bool} {xs : List α} {n : Nat}
    (h : ∀ x ∈ xs.take n, p x = true) : (xs.filter p).drop n = (xs.drop n).filter p := by
  induction xs generalizing n with
  | nil => simp
  | cons x xs ih =>
    cases n with
    | zero => rfl
    | succ n =>
      rw [List.take_succ_cons, List.forall_mem_cons] at h
      rw [List.filter_cons_of_pos h.1, List.drop_succ_cons, List.drop_succ_cons, ih h.2]

/-- What comes before a sorted list comes before what a filter leaves of it. -/
theorem orderedInsert_filter_of_le {r : α → α → Prop} [DecidableRel r] [IsTrans α r] {p : α → Bool}
    {a b : α} {l : List α} (hl : (b :: l).Pairwise r) (hab : r a b) :
    ((b :: l).filter p).orderedInsert r a = a :: (b :: l).filter p := by
  cases hfilter : (b :: l).filter p with
  | nil => rfl
  | cons c cs =>
    have hc : c ∈ b :: l := List.mem_of_mem_filter (hfilter ▸ List.mem_cons_self)
    rw [List.orderedInsert, if_pos]
    rcases List.mem_cons.mp hc with rfl | hc
    · exact hab
    · exact Trans.trans hab (List.rel_of_pairwise_cons hl hc)

/-- An insertion among what a filter leaves. -/
theorem filter_orderedInsert {r : α → α → Prop} [DecidableRel r] [IsTrans α r] {p : α → Bool}
    {a : α} {l : List α} (hl : l.Pairwise r) :
    (l.orderedInsert r a).filter p
      = if p a then (l.filter p).orderedInsert r a else l.filter p := by
  induction l with
  | nil =>
    rw [List.orderedInsert, List.filter_cons]
    rfl
  | cons b l ih =>
    rw [List.orderedInsert]
    split
    · rename_i hab
      rw [orderedInsert_filter_of_le hl hab, List.filter_cons]
    · rename_i hab
      rw [List.filter_cons, ih hl.of_cons, List.filter_cons]
      by_cases hb : p b = true
      · by_cases ha : p a = true
        · simp [hb, ha, hab]
        · simp [hb, ha]
      · simp [hb]

/-- A stable sort keeps the order of what a filter leaves. -/
theorem filter_insertionSort {r : α → α → Prop} [DecidableRel r] [Std.Total r] [IsTrans α r]
    (p : α → Bool) (l : List α) : (l.insertionSort r).filter p = (l.filter p).insertionSort r := by
  induction l with
  | nil => rfl
  | cons a l ih =>
    rw [List.insertionSort_cons, filter_orderedInsert (List.pairwise_insertionSort r l), ih,
      List.filter_cons]
    split
    · rfl
    · rfl

end Pieces

end RiskOps.Lib
