import RiskOps.Lib.Lawful

/-!
# RiskOps.Lib.Table

**Keyed tables.** A table of a relational store is a list of rows in insertion
order together with the proof that its primary key is unique, so a table with
two rows under one key cannot be built. The operations are the ones a store
issues inside a transaction: point lookup, `INSERT` (which fails on a taken
key), `INSERT OR IGNORE`, `INSERT OR REPLACE`, a key-preserving `UPDATE` and a
`DELETE`.

Everything a caller needs is stated through `find?`: a table is determined, up
to row order, by what each key looks up to, and each operation has one lemma
saying what `find?` returns after it.
-/

namespace RiskOps.Lib

/-- Rows with pairwise distinct keys, oldest first. -/
structure Table {ρ κ : Type} (key : ρ → κ) where
  rows : List ρ
  nodup : (rows.map key).Nodup

namespace Table

variable {ρ κ : Type} {key : ρ → κ}

/-- The table without rows. -/
def empty : Table key := ⟨[], by simp⟩

instance : Inhabited (Table key) := ⟨empty⟩

instance : Membership ρ (Table key) := ⟨fun t r => r ∈ t.rows⟩

variable {t : Table key}

theorem mem_def {r : ρ} : r ∈ t ↔ r ∈ t.rows := Iff.rfl

@[simp] theorem not_mem_empty (r : ρ) : r ∉ (empty : Table key) := by
  simp [mem_def, empty]

/-- Two rows of a table with the same key are the same row. -/
theorem eq_of_key_eq {a b : ρ} (ha : a ∈ t) (hb : b ∈ t) (h : key a = key b) : a = b :=
  List.inj_on_of_nodup_map t.nodup ha hb h

/-- Two positions of a table with the same key are the same position. -/
theorem index_eq {i j : Nat} {a b : ρ} (hi : t.rows[i]? = some a) (hj : t.rows[j]? = some b)
    (h : key a = key b) : i = j := by
  have hlen : i < (t.rows.map key).length := by
    rw [List.length_map]
    exact (List.getElem?_eq_some_iff.mp hi).1
  refine (List.getElem?_inj hlen t.nodup).mp ?_
  rw [List.getElem?_map, List.getElem?_map, hi, hj, Option.map_some, Option.map_some, h]

/-! ### Whole-table operations -/

/-- `SELECT * … WHERE p`, in row order. -/
def select (t : Table key) (p : ρ → Bool) : List ρ := t.rows.filter p

@[simp] theorem mem_select {p : ρ → Bool} {r : ρ} : r ∈ t.select p ↔ r ∈ t ∧ p r = true := by
  simp [select, mem_def]

/-- `UPDATE …`: rewrite every row, keeping its key. -/
def update (t : Table key) (f : ρ → ρ) (hf : ∀ r, key (f r) = key r) : Table key :=
  ⟨t.rows.map f, by simpa [List.map_map, Function.comp_def, hf] using t.nodup⟩

theorem mem_update {f : ρ → ρ} {hf : ∀ r, key (f r) = key r} {r : ρ} :
    r ∈ t.update f hf ↔ ∃ r₀ ∈ t, f r₀ = r := by
  simp [mem_def, update]

theorem mem_update_of_mem {f : ρ → ρ} {hf : ∀ r, key (f r) = key r} {r : ρ} (h : r ∈ t) :
    f r ∈ t.update f hf :=
  Iff.mpr mem_update ⟨r, h, rfl⟩

/-- `DELETE FROM … WHERE p`. -/
def delete (t : Table key) (p : ρ → Bool) : Table key :=
  ⟨t.rows.filter (fun r => !p r), t.nodup.sublist (List.filter_sublist.map key)⟩

theorem mem_delete {p : ρ → Bool} {r : ρ} : r ∈ t.delete p ↔ r ∈ t ∧ p r = false := by
  simp [mem_def, delete]

/-! ### Lookup -/

variable [DecidableEq κ]

/-- `SELECT * … WHERE key = ?`. -/
def find? (t : Table key) (k : κ) : Option ρ := t.rows.find? (fun r => key r = k)

@[simp] theorem find?_empty (k : κ) : (empty : Table key).find? k = none := rfl

theorem find?_eq_some_iff {k : κ} {r : ρ} : t.find? k = some r ↔ r ∈ t ∧ key r = k := by
  constructor
  · intro h
    exact ⟨List.mem_of_find?_eq_some h, by simpa using List.find?_some h⟩
  · rintro ⟨hr, hk⟩
    cases hf : t.find? k with
    | none =>
      have := List.find?_eq_none.mp hf r hr
      simp [hk] at this
    | some r' =>
      have hmem : r' ∈ t := List.mem_of_find?_eq_some hf
      have hkey : key r' = k := by simpa using List.find?_some hf
      rw [eq_of_key_eq hmem hr (hkey.trans hk.symm)]

theorem find?_key {k : κ} {r : ρ} (h : t.find? k = some r) : key r = k :=
  (Iff.mp find?_eq_some_iff h).2

theorem mem_of_find? {k : κ} {r : ρ} (h : t.find? k = some r) : r ∈ t :=
  (Iff.mp find?_eq_some_iff h).1

theorem find?_of_mem {r : ρ} (h : r ∈ t) : t.find? (key r) = some r :=
  Iff.mpr find?_eq_some_iff ⟨h, rfl⟩

theorem find?_eq_none_iff {k : κ} : t.find? k = none ↔ ∀ r ∈ t, key r ≠ k := by
  simp [find?, mem_def]

/-! ### Inserting -/

/-- `INSERT INTO …`: fails when the key is taken. -/
def insert (t : Table key) (r : ρ) : Option (Table key) :=
  if h : key r ∈ t.rows.map key then none
  else some ⟨t.rows ++ [r], by
    rw [List.map_append, List.map_singleton]
    exact List.nodup_append.mpr
      ⟨t.nodup, List.nodup_singleton _, fun a ha b hb hab =>
        h (by rw [List.mem_singleton] at hb; rw [← hb, ← hab]; exact ha)⟩⟩

/-- `INSERT OR IGNORE INTO …`: keeps the row already stored under the key. -/
def insertOrIgnore (t : Table key) (r : ρ) : Table key := (t.insert r).getD t

theorem insert_eq_none_iff {r : ρ} : t.insert r = none ↔ (t.find? (key r)).isSome := by
  unfold insert
  split
  · rename_i h
    obtain ⟨r', hr', hk⟩ := List.mem_map.mp h
    have hf : t.find? (key r) = some r' := Iff.mpr find?_eq_some_iff ⟨hr', hk⟩
    simp [hf]
  · rename_i h
    have hf : t.find? (key r) = none :=
      Iff.mpr find?_eq_none_iff fun r' hr' hk => h (List.mem_map.mpr ⟨r', hr', hk⟩)
    simp [hf]

variable {t' : Table key}

theorem rows_of_insert {r : ρ} (h : t.insert r = some t') : t'.rows = t.rows ++ [r] := by
  unfold insert at h
  split at h
  · simp at h
  · rw [← Option.some.inj h]

theorem mem_of_insert {r a : ρ} (h : t.insert r = some t') : a ∈ t' ↔ a ∈ t ∨ a = r := by
  simp [mem_def, rows_of_insert h]

theorem find?_none_of_insert {r : ρ} (h : t.insert r = some t') : t.find? (key r) = none := by
  cases hf : t.find? (key r) with
  | none => rfl
  | some r' =>
    have : t.insert r = none := Iff.mpr insert_eq_none_iff (by simp [hf])
    simp [this] at h

/-- After an `INSERT` the new key looks up to the new row, and every other key
looks up as before. -/
theorem find?_insert {r : ρ} (h : t.insert r = some t') (k : κ) :
    t'.find? k = if key r = k then some r else t.find? k := by
  by_cases hk : key r = k
  · rw [if_pos hk]
    exact Iff.mpr find?_eq_some_iff ⟨(mem_of_insert h).mpr (Or.inr rfl), hk⟩
  · rw [if_neg hk]
    unfold find?
    rw [rows_of_insert h, List.find?_append]
    simp [hk]

theorem rows_insertOrIgnore {r : ρ} (h : t.find? (key r) = none) :
    (t.insertOrIgnore r).rows = t.rows ++ [r] := by
  unfold insertOrIgnore
  cases hi : t.insert r with
  | none =>
    have := Iff.mp insert_eq_none_iff hi
    simp [h] at this
  | some t' => rw [Option.getD_some, rows_of_insert hi]

theorem insertOrIgnore_ne_nil (t : Table key) (r : ρ) : (t.insertOrIgnore r).rows ≠ [] := by
  cases hf : t.find? (key r) with
  | none =>
    rw [rows_insertOrIgnore hf]
    exact List.append_ne_nil_of_right_ne_nil _ (List.cons_ne_nil _ _)
  | some r' =>
    have hi : t.insert r = none := Iff.mpr insert_eq_none_iff (by rw [hf]; rfl)
    rw [insertOrIgnore, hi]
    exact List.ne_nil_of_mem (mem_of_find? hf)

theorem find?_insertOrIgnore (t : Table key) (r : ρ) (k : κ) :
    (t.insertOrIgnore r).find? k =
      if key r = k then some ((t.find? k).getD r) else t.find? k := by
  unfold insertOrIgnore
  cases hi : t.insert r with
  | none =>
    obtain ⟨r', hr'⟩ := Option.isSome_iff_exists.mp (Iff.mp insert_eq_none_iff hi)
    by_cases hk : key r = k
    · subst hk; simp [hr']
    · simp [hk]
  | some t' =>
    rw [Option.getD_some, find?_insert hi k]
    by_cases hk : key r = k
    · subst hk; simp [find?_none_of_insert hi]
    · simp [hk]

/-! ### Updating and replacing -/

@[simp] theorem find?_update (t : Table key) (f : ρ → ρ) (hf : ∀ r, key (f r) = key r) (k : κ) :
    (t.update f hf).find? k = (t.find? k).map f := by
  simp [find?, update, List.find?_map, hf]

/-- `INSERT OR REPLACE INTO …`. -/
def replace (t : Table key) (r : ρ) : Table key :=
  (t.delete (fun r' => key r' = key r)).insertOrIgnore r

/-- A table that looks up as the image of another under `f` consists of the
images of its rows. -/
theorem mem_of_find?_map {f : ρ → ρ} (h : ∀ k, t'.find? k = (t.find? k).map f) {r' : ρ}
    (hr' : r' ∈ t') : ∃ r ∈ t, key r = key r' ∧ f r = r' := by
  have hf := find?_of_mem hr'
  rw [h, Option.map_eq_some_iff] at hf
  obtain ⟨r, hr, hfr⟩ := hf
  exact ⟨r, mem_of_find? hr, find?_key hr, hfr⟩

/-- `INSERT OR REPLACE` under a key that is not taken appends the row. -/
theorem rows_replace_of_fresh {r : ρ} (h : ∀ r' ∈ t, key r' ≠ key r) :
    (t.replace r).rows = t.rows ++ [r] := by
  have hdel : (t.delete (fun r' => key r' = key r)).rows = t.rows :=
    List.filter_eq_self.mpr fun r' hr' => by simpa using h r' hr'
  unfold replace insertOrIgnore
  cases hi : (t.delete (fun r' => key r' = key r)).insert r with
  | none =>
    obtain ⟨r', hr'⟩ := Option.isSome_iff_exists.mp (Iff.mp insert_eq_none_iff hi)
    have hmem := mem_delete.mp (mem_of_find? hr')
    exact absurd (find?_key hr') (h r' hmem.1)
  | some t' => rw [Option.getD_some, rows_of_insert hi, hdel]

/-- After a `DELETE` a key looks up as before, unless its row is deleted. -/
theorem find?_delete (t : Table key) (p : ρ → Bool) (k : κ) :
    (t.delete p).find? k = (t.find? k).filter fun r => !p r := by
  cases hf : t.find? k with
  | none => exact find?_eq_none_iff.mpr fun r hr => find?_eq_none_iff.mp hf r (mem_delete.mp hr).1
  | some r =>
    obtain ⟨hmem, hkey⟩ := find?_eq_some_iff.mp hf
    cases hp : p r with
    | false =>
      rw [Option.filter_some_pos (by rw [hp]; rfl)]
      exact find?_eq_some_iff.mpr ⟨mem_delete.mpr ⟨hmem, hp⟩, hkey⟩
    | true =>
      rw [Option.filter_some_neg (by rw [hp]; rfl)]
      refine find?_eq_none_iff.mpr fun r' hr' hkey' => ?_
      obtain ⟨hmem', hp'⟩ := mem_delete.mp hr'
      rw [eq_of_key_eq hmem' hmem (hkey'.trans hkey.symm), hp] at hp'
      cases hp'

/-- After deleting one key, it looks up to nothing and every other key as before. -/
theorem find?_delete_key (t : Table key) (k k' : κ) :
    (t.delete fun r => key r = k).find? k' = if k = k' then none else t.find? k' := by
  rw [find?_delete]
  cases hf : t.find? k' with
  | none => simp
  | some r =>
    have hkey := find?_key hf
    by_cases hk : k = k'
    · rw [if_pos hk, Option.filter_some_neg (by simp [hk, hkey])]
    · rw [if_neg hk, Option.filter_some_pos (by simpa [hkey] using Ne.symm hk)]

theorem find?_replace (t : Table key) (r : ρ) (k : κ) :
    (t.replace r).find? k = if key r = k then some r else t.find? k := by
  unfold replace
  rw [find?_insertOrIgnore, find?_delete_key]
  by_cases hk : key r = k
  · simp [hk]
  · simp [hk]

/-! ### Counting rows -/

/-- A table that keeps the keys of the rows of a kind has as many, and when it has no more, it has
no other. -/
theorem countP_le {p : ρ → Bool}
    (h : ∀ k, (∃ r, t.find? k = some r ∧ p r = true) → ∃ r, t'.find? k = some r ∧ p r = true) :
    t.rows.countP p ≤ t'.rows.countP p ∧ (t'.rows.countP p ≤ t.rows.countP p →
      ∀ k, (∃ r, t'.find? k = some r ∧ p r = true) → ∃ r, t.find? k = some r ∧ p r = true) := by
  have hmem : ∀ (t : Table key) (k : κ), k ∈ (t.rows.filter p).map key ↔
      ∃ r, t.find? k = some r ∧ p r = true := fun t k => by
    simp only [List.mem_map, List.mem_filter, find?_eq_some_iff, mem_def]
    exact exists_congr fun r => and_right_comm
  have hlen : ∀ t : Table key, t.rows.countP p = ((t.rows.filter p).map key).length := fun t => by
    rw [List.length_map, List.countP_eq_length_filter]
  have hsub : ((t.rows.filter p).map key).Subperm ((t'.rows.filter p).map key) :=
    (t.nodup.sublist (List.filter_sublist.map key)).subperm fun k hk =>
      (hmem t' k).mpr (h k ((hmem t k).mp hk))
  rw [hlen, hlen]
  refine ⟨hsub.length_le, fun hle k hk => ?_⟩
  exact (hmem t k).mp ((hsub.perm_of_length_le hle).mem_iff.mpr ((hmem t' k).mpr hk))

end Table

end RiskOps.Lib
