import RiskOps.Lib.Grouped

/-!
# RiskOps.Lib.UnionFind — disjoint sets of indices

A forest over indices in which no parent is above its child, so that chasing parents ends and the
root of a set is its least member. `find` halves the paths it takes, and `union` puts one root under
the other.

**What a client needs.** `root` is where the parents end; `find` returns it and changes no root.
`root_union` says what a union does to the roots. `Joins` is the state of a client: two indices have
one root exactly when they are connected; `Joins.union` adds a connection.
-/

namespace RiskOps.Lib

/-- The parent of each index, which is a root when it is its own. -/
structure Sets where
  parent : List Nat
  ordered : ∀ i, parent.getD i i ≤ i

namespace Sets

/-- The parent of an index. -/
def up (s : Sets) (i : Nat) : Nat := s.parent.getD i i

theorem up_le (s : Sets) (i : Nat) : s.up i ≤ i := s.ordered i

/-- `len(self.parent)`. -/
def size (s : Sets) : Nat := s.parent.length

/-- Every index alone. -/
def new (size : Nat) : Sets where
  parent := List.range size
  ordered := fun i => by
    rw [List.getD_eq_getElem?_getD]
    cases h : (List.range size)[i]? with
    | none => exact le_rfl
    | some j =>
      obtain ⟨_, rfl⟩ := List.getElem?_eq_some_iff.mp h
      simp

/-- `self.parent[i] = p`. -/
def point (s : Sets) (i p : Nat) (h : p ≤ i) : Sets where
  parent := s.parent.set i p
  ordered := fun j => by
    rw [List.getD_eq_getElem?_getD, List.getElem?_set]
    split
    · rename_i hij
      subst hij
      split
      · exact h
      · exact le_rfl
    · rw [← List.getD_eq_getElem?_getD]
      exact s.ordered j

/-- Where the parents of an index end. -/
def root (s : Sets) (i : Nat) : Nat :=
  if h : s.up i = i then i
  else
    have : s.up i < i := lt_of_le_of_ne (s.up_le i) h
    root s (s.up i)
termination_by i

/-- `self.find(item)`: the forest with halved paths, and the root. -/
def find (s : Sets) (item : Nat) : Sets × Nat :=
  if h : s.up item = item then (s, item)
  else
    have : s.up (s.up item) < item :=
      lt_of_le_of_lt (s.up_le _) (lt_of_le_of_ne (s.up_le item) h)
    find (s.point item (s.up (s.up item)) this.le) (s.up (s.up item))
termination_by item

/-- `self.union(left, right)`. -/
def union (s : Sets) (left right : Nat) : Sets :=
  let (s, left) := s.find left
  let (s, right) := s.find right
  if left ≠ right then s.point (max left right) (min left right) min_le_max else s

/-! ### Roots -/

variable {s : Sets} {i j : Nat}

theorem root_of_up (h : s.up i = i) : s.root i = i := by
  rw [root, dif_pos h]

@[simp] theorem root_up (s : Sets) (i : Nat) : s.root (s.up i) = s.root i := by
  by_cases h : s.up i = i
  · rw [h]
  · rw [root.eq_def s i, dif_neg h]

theorem root_le (s : Sets) (i : Nat) : s.root i ≤ i := by
  induction i using Nat.strongRecOn with
  | ind i ih =>
    by_cases h : s.up i = i
    · rw [root_of_up h]
    · rw [← root_up]
      exact (ih _ (lt_of_le_of_ne (s.up_le i) h)).trans (s.up_le i)

theorem up_root (s : Sets) (i : Nat) : s.up (s.root i) = s.root i := by
  induction i using Nat.strongRecOn with
  | ind i ih =>
    by_cases h : s.up i = i
    · rw [root_of_up h, h]
    · rw [← root_up]
      exact ih _ (lt_of_le_of_ne (s.up_le i) h)

@[simp] theorem root_root (s : Sets) (i : Nat) : s.root (s.root i) = s.root i :=
  root_of_up (s.up_root i)

theorem root_new (size i : Nat) : (new size).root i = i := by
  refine root_of_up ?_
  rw [up, new, List.getD_eq_getElem?_getD]
  cases h : (List.range size)[i]? with
  | none => rfl
  | some j =>
    obtain ⟨_, rfl⟩ := List.getElem?_eq_some_iff.mp h
    simp

@[simp] theorem size_new (n : Nat) : (new n).size = n := List.length_range

@[simp] theorem size_point (s : Sets) (i p : Nat) (h : p ≤ i) : (s.point i p h).size = s.size :=
  List.length_set

theorem up_point {p : Nat} (h : p ≤ i) (hi : i < s.size) (j : Nat) :
    (s.point i p h).up j = if i = j then p else s.up j := by
  rw [up, point, List.getD_eq_getElem?_getD, List.getElem?_set]
  split
  · rename_i hij
    subst hij
    rw [if_pos (show i < s.parent.length from hi)]
    rfl
  · rw [← List.getD_eq_getElem?_getD]
    rfl

theorem lt_size_of_up (h : s.up i ≠ i) : i < s.size := by
  by_contra hout
  refine h ?_
  rw [up, List.getD_eq_getElem?_getD, List.getElem?_eq_none (not_lt.mp hout)]
  rfl

/-- **Halving a path** changes no root. -/
theorem root_halve (h : s.up i ≠ i) (hle : s.up (s.up i) ≤ i) (j : Nat) :
    (s.point i (s.up (s.up i)) hle).root j = s.root j := by
  have hup := up_point hle (lt_size_of_up h)
  have hlt : s.up (s.up i) < i := lt_of_le_of_lt (s.up_le _) (lt_of_le_of_ne (s.up_le i) h)
  induction j using Nat.strongRecOn with
  | ind j ih =>
    by_cases hij : i = j
    · subst hij
      rw [← root_up, hup, if_pos rfl, ih _ hlt, root_up, root_up]
    · by_cases hj : s.up j = j
      · rw [root_of_up hj, root_of_up (by rw [hup, if_neg hij, hj])]
      · rw [← root_up, hup, if_neg hij, ih _ (lt_of_le_of_ne (s.up_le j) hj), root_up]

theorem find_spec (s : Sets) (i : Nat) :
    (s.find i).2 = s.root i ∧ (∀ j, (s.find i).1.root j = s.root j) ∧
      (s.find i).1.size = s.size := by
  induction i using Nat.strongRecOn generalizing s with
  | ind i ih =>
    rw [find]
    split
    · rename_i h
      exact ⟨(root_of_up h).symm, fun _ => rfl, rfl⟩
    · rename_i h
      have hlt : s.up (s.up i) < i := lt_of_le_of_lt (s.up_le _) (lt_of_le_of_ne (s.up_le i) h)
      obtain ⟨hroot, hroots, hsize⟩ := ih _ hlt (s.point i (s.up (s.up i)) hlt.le)
      refine ⟨?_, fun j => ?_, ?_⟩
      · rw [hroot, root_halve h, root_up, root_up]
      · rw [hroots, root_halve h]
      · rw [hsize, size_point]

/-- Putting one root under another moves its set there. -/
theorem root_link {a b : Nat} (hba : b ≤ a) (hne : b ≠ a) (ha : s.up a = a) (hb : s.up b = b)
    (hsize : a < s.size) (j : Nat) :
    (s.point a b hba).root j = if s.root j = a then b else s.root j := by
  have hup := up_point hba hsize
  have hb' : (s.point a b hba).root b = b := root_of_up (by rw [hup, if_neg hne.symm, hb])
  induction j using Nat.strongRecOn with
  | ind j ih =>
    by_cases haj : a = j
    · subst haj
      rw [← root_up, hup, if_pos rfl, hb', root_of_up ha, if_pos rfl]
    · by_cases hj : s.up j = j
      · rw [root_of_up hj, if_neg (Ne.symm haj), root_of_up (by rw [hup, if_neg haj, hj])]
      · rw [← root_up, hup, if_neg haj, ih _ (lt_of_le_of_ne (s.up_le j) hj), root_up]

@[simp] theorem size_union (s : Sets) (l r : Nat) : (s.union l r).size = s.size := by
  have hl := s.find_spec l
  have hr := (s.find l).1.find_spec r
  unfold union
  dsimp only
  split
  · rw [size_point, hr.2.2, hl.2.2]
  · rw [hr.2.2, hl.2.2]

/-- **A union** moves the set of the greater root to the smaller one. -/
theorem root_union {l r : Nat} (hl : l < s.size) (hr : r < s.size) (j : Nat) :
    (s.union l r).root j =
      if s.root j = max (s.root l) (s.root r) then min (s.root l) (s.root r) else s.root j := by
  obtain ⟨hroot, hroots, hsize⟩ := s.find_spec l
  obtain ⟨hroot', hroots', hsize'⟩ := (s.find l).1.find_spec r
  rw [hroots] at hroot'
  have hall : ∀ j, ((s.find l).1.find r).1.root j = s.root j := fun j => by rw [hroots', hroots]
  have hfixed : ∀ k, k < s.size → ((s.find l).1.find r).1.up (s.root k) = s.root k := fun k _ => by
    rw [← hall k]
    exact up_root _ k
  unfold union
  dsimp only
  rw [hroot, hroot']
  split
  · rename_i hne
    have hmax : ((s.find l).1.find r).1.up (max (s.root l) (s.root r)) =
        max (s.root l) (s.root r) := by
      rcases max_choice (s.root l) (s.root r) with h | h <;> rw [h]
      · exact hfixed l hl
      · exact hfixed r hr
    have hmin : ((s.find l).1.find r).1.up (min (s.root l) (s.root r)) =
        min (s.root l) (s.root r) := by
      rcases min_choice (s.root l) (s.root r) with h | h <;> rw [h]
      · exact hfixed l hl
      · exact hfixed r hr
    have hlt : max (s.root l) (s.root r) < ((s.find l).1.find r).1.size := by
      rw [hsize', hsize]
      exact max_lt ((s.root_le l).trans_lt hl) ((s.root_le r).trans_lt hr)
    have hneq : min (s.root l) (s.root r) ≠ max (s.root l) (s.root r) := by
      rcases lt_or_gt_of_ne hne with h | h
      · rw [min_eq_left h.le, max_eq_right h.le]
        exact h.ne
      · rw [min_eq_right h.le, max_eq_left h.le]
        exact h.ne
    rw [root_link min_le_max hneq hmax hmin hlt, hall]
  · rename_i heq
    rw [not_not.mp heq, max_self, min_self, hall]
    split
    · rename_i hj
      exact hj
    · rfl

/-! ### Connections -/

/-- Indices with one root are connected. -/
def Sound (s : Sets) (E : Nat → Nat → Prop) : Prop :=
  ∀ i j, s.root i = s.root j → Relation.EqvGen E i j

variable {l r : Nat} {E : Nat → Nat → Prop}

theorem sound_new (size : Nat) (E : Nat → Nat → Prop) : (new size).Sound E := by
  intro i j h
  rw [root_new, root_new] at h
  exact h ▸ .refl i

/-- **(step)** A union of two indices that are connected. -/
theorem Sound.union (h : s.Sound E) (hl : l < s.size) (hr : r < s.size)
    (hlr : Relation.EqvGen E l r) : (s.union l r).Sound E := by
  have hroot : ∀ k, Relation.EqvGen E k (s.root k) := fun k => h _ _ (root_root s k).symm
  have hroots : Relation.EqvGen E (max (s.root l) (s.root r)) (min (s.root l) (s.root r)) := by
    have hjoined := ((hroot l).symm _ _).trans _ _ _ (hlr.trans _ _ _ (hroot r))
    rcases le_total (s.root l) (s.root r) with hle | hle
    · rw [max_eq_right hle, min_eq_left hle]
      exact hjoined.symm _ _
    · rw [max_eq_left hle, min_eq_right hle]
      exact hjoined
  have hmoved : ∀ k, Relation.EqvGen E k ((s.union l r).root k) := by
    intro k
    rw [root_union hl hr]
    split
    · rename_i hk
      exact (hroot k).trans _ _ _ (hk ▸ hroots)
    · exact hroot k
  intro i j hij
  exact (hmoved i).trans _ _ _ (hij ▸ (hmoved j).symm _ _)

theorem union_same (hl : l < s.size) (hr : r < s.size) (h : s.root i = s.root j) :
    (s.union l r).root i = (s.union l r).root j := by
  rw [root_union hl hr, root_union hl hr, h]

theorem union_root (hl : l < s.size) (hr : r < s.size) :
    (s.union l r).root l = (s.union l r).root r := by
  rw [root_union hl hr, root_union hl hr]
  rcases le_total (s.root l) (s.root r) with hle | hle
  · rw [max_eq_right hle, min_eq_left hle, if_pos rfl]
    split
    · rfl
    · rfl
  · rw [max_eq_left hle, min_eq_right hle, if_pos rfl]
    split
    · rfl
    · rfl

/-- Joining all that is connected, and nothing else, makes the roots tell what is connected. -/
theorem Sound.root_eq_iff (h : s.Sound E) (hjoined : ∀ i j, E i j → s.root i = s.root j) :
    s.root i = s.root j ↔ Relation.EqvGen E i j := by
  refine ⟨h i j, fun hij => ?_⟩
  induction hij with
  | rel _ _ hE => exact hjoined _ _ hE
  | refl => rfl
  | symm _ _ _ ih => exact ih.symm
  | trans _ _ _ _ _ ih ih' => exact ih.trans ih'

section Positions

variable {α : Type*} {items : List α} {R : α → α → Prop}

/-- The items at two positions are related. -/
def At (items : List α) (R : α → α → Prop) (i j : Nat) : Prop :=
  ∃ a b, items[i]? = some a ∧ items[j]? = some b ∧ R a b

theorem items_of_eqvGen {i j : Nat} (h : Relation.EqvGen (At items R) i j) :
    i = j ∨ At items (Relation.EqvGen R) i j := by
  induction h with
  | rel _ _ hE =>
    obtain ⟨a, b, ha, hb, hab⟩ := hE
    exact .inr ⟨a, b, ha, hb, .rel _ _ hab⟩
  | refl => exact .inl rfl
  | symm _ _ _ ih =>
    rcases ih with rfl | ⟨a, b, ha, hb, hab⟩
    · exact .inl rfl
    · exact .inr ⟨b, a, hb, ha, hab.symm _ _⟩
  | trans _ _ _ _ _ ih ih' =>
    rcases ih with rfl | ⟨a, b, ha, hb, hab⟩
    · exact ih'
    · rcases ih' with rfl | ⟨b', c, hb', hc, hbc⟩
      · exact .inr ⟨a, b, ha, hb, hab⟩
      · have heq : b = b' := Option.some.inj (hb.symm.trans hb')
        exact .inr ⟨a, c, ha, hc, hab.trans _ _ _ (heq ▸ hbc)⟩

theorem position_eq (hnodup : items.Nodup) {a : α} {i j : Nat} (hi : items[i]? = some a)
    (hj : items[j]? = some a) : i = j :=
  (List.getElem?_inj (List.getElem?_eq_some_iff.mp hi).1 hnodup).mp (hi.trans hj.symm)

theorem positions_of_eqvGen (hnodup : items.Nodup) (hmem : ∀ a b, R a b → a ∈ items ∧ b ∈ items)
    {a b : α} (h : Relation.EqvGen R a b) :
    a = b ∨ ∃ i j, items[i]? = some a ∧ items[j]? = some b ∧ Relation.EqvGen (At items R) i j := by
  induction h with
  | rel a b hab =>
    obtain ⟨i, hi⟩ := List.getElem?_of_mem (hmem a b hab).1
    obtain ⟨j, hj⟩ := List.getElem?_of_mem (hmem a b hab).2
    exact .inr ⟨i, j, hi, hj, .rel _ _ ⟨a, b, hi, hj, hab⟩⟩
  | refl => exact .inl rfl
  | symm _ _ _ ih =>
    rcases ih with rfl | ⟨i, j, hi, hj, hij⟩
    · exact .inl rfl
    · exact .inr ⟨j, i, hj, hi, hij.symm _ _⟩
  | trans _ _ _ _ _ ih ih' =>
    rcases ih with rfl | ⟨i, j, hi, hj, hij⟩
    · exact ih'
    · rcases ih' with rfl | ⟨j', k, hj', hk, hjk⟩
      · exact .inr ⟨i, j, hi, hj, hij⟩
      · have heq := position_eq hnodup hj hj'
        exact .inr ⟨i, k, hi, hk, hij.trans _ _ _ (heq ▸ hjk)⟩

/-- **Connections between the positions of a list** are connections between its items. -/
theorem eqvGen_at_iff (hnodup : items.Nodup) (hmem : ∀ a b, R a b → a ∈ items ∧ b ∈ items)
    {a b : α} {i j : Nat} (hi : items[i]? = some a) (hj : items[j]? = some b) :
    Relation.EqvGen (At items R) i j ↔ Relation.EqvGen R a b := by
  constructor
  · intro h
    rcases items_of_eqvGen h with rfl | ⟨a', b', ha', hb', hab⟩
    · have heq : a = b := Option.some.inj (hi.symm.trans hj)
      exact heq ▸ .refl a
    · obtain rfl : a = a' := Option.some.inj (hi.symm.trans ha')
      obtain rfl : b = b' := Option.some.inj (hj.symm.trans hb')
      exact hab
  · intro h
    rcases positions_of_eqvGen hnodup hmem h with rfl | ⟨i', j', hi', hj', hij⟩
    · exact position_eq hnodup hi hj ▸ .refl i
    · obtain rfl := position_eq hnodup hi hi'
      obtain rfl := position_eq hnodup hj hj'
      exact hij

end Positions

/-! ### Components -/

/-- The loop of `self.components()` over the indices: the paths are halved on the way. -/
def collect : List Nat → Sets → List (Nat × List Nat) → List (Nat × List Nat)
  | [], _, grouped => grouped
  | item :: items, s, grouped =>
    collect items (s.find item).1 (Grouped.put grouped (s.find item).2 item)

/-- `self.components()`. -/
def components (s : Sets) : List (List Nat) :=
  ((collect (List.range s.size) s []).insertionSort fun a b => a.1 ≤ b.1).map Prod.snd

theorem collect_eq (items : List Nat) (s : Sets) (grouped : List (Nat × List Nat)) :
    collect items s grouped =
      items.foldl (fun grouped item => Grouped.put grouped (s.root item) item) grouped := by
  induction items generalizing s grouped with
  | nil => rfl
  | cons item items ih =>
    obtain ⟨hroot, hroots, -⟩ := s.find_spec item
    rw [collect, ih, List.foldl_cons, hroot]
    simp only [hroots]

theorem collect_range (s : Sets) :
    collect (List.range s.size) s [] = Grouped.groupBy s.root (List.range s.size) :=
  collect_eq _ s []

theorem mem_components {c : List Nat} : c ∈ s.components ↔
    ∃ i < s.size, c = (List.range s.size).filter fun j => s.root j = s.root i := by
  rw [components, collect_range, List.mem_map]
  constructor
  · rintro ⟨⟨k, items⟩, hmem, rfl⟩
    obtain ⟨⟨i, hi, rfl⟩, heq⟩ :=
      Grouped.mem_groupBy.mp ((List.perm_insertionSort _ _).mem_iff.mp hmem)
    exact ⟨i, List.mem_range.mp hi, heq⟩
  · rintro ⟨i, hi, rfl⟩
    refine ⟨(s.root i, _), (List.perm_insertionSort _ _).mem_iff.mpr ?_, rfl⟩
    exact Grouped.mem_groupBy.mpr ⟨⟨i, List.mem_range.mpr hi, rfl⟩, rfl⟩

/-- **The components are a partition of the indices.** -/
theorem flatten_components (s : Sets) : s.components.flatten.Perm (List.range s.size) := by
  obtain ⟨-, -, -, hperm⟩ := Grouped.groupBy_spec s.root (List.range s.size)
  refine List.Perm.trans ?_ hperm
  rw [components, collect_range, ← List.flatMap_def]
  exact (List.perm_insertionSort _ _).flatMap_right _

/-- **Two indices are in one component** when they have one root. -/
theorem same_component_iff (hi : i < s.size) (hj : j < s.size) :
    (∃ c ∈ s.components, i ∈ c ∧ j ∈ c) ↔ s.root i = s.root j := by
  constructor
  · rintro ⟨c, hc, hic, hjc⟩
    obtain ⟨k, -, rfl⟩ := Iff.mp mem_components hc
    have hik := of_decide_eq_true (List.mem_filter.mp hic).2
    have hjk := of_decide_eq_true (List.mem_filter.mp hjc).2
    exact hik.trans hjk.symm
  · intro h
    refine ⟨_, Iff.mpr mem_components ⟨j, hj, rfl⟩, ?_, ?_⟩
    · exact List.mem_filter.mpr ⟨List.mem_range.mpr hi, decide_eq_true h⟩
    · exact List.mem_filter.mpr ⟨List.mem_range.mpr hj, decide_eq_true rfl⟩

/-! ### Classes of items -/

/-- The items at some positions. -/
def pick {α : Type*} (items : List α) (members : List Nat) : List α :=
  members.filterMap fun i => items[i]?

/-- The items of each component. -/
def classes {α : Type*} (s : Sets) (items : List α) : List (List α) :=
  s.components.map (pick items)

section Classes

variable {α : Type*} {items : List α} {R : α → α → Prop}

theorem mem_pick {members : List Nat} {a : α} :
    a ∈ pick items members ↔ ∃ i ∈ members, items[i]? = some a :=
  List.mem_filterMap

theorem pick_range (items : List α) : pick items (List.range items.length) = items := by
  induction items using List.reverseRecOn with
  | nil => rfl
  | append_singleton items a ih =>
    have hfirst : (List.range items.length).filterMap (fun i => (items ++ [a])[i]?) = items :=
      (List.filterMap_congr fun i hi =>
        List.getElem?_append_left (List.mem_range.mp hi)).trans ih
    rw [pick, List.length_append, List.length_singleton, List.range_succ, List.filterMap_append,
      hfirst]
    simp

/-- **No item is lost or duplicated.** -/
theorem flatten_classes (hsize : s.size = items.length) : (s.classes items).flatten.Perm items := by
  have hperm := (flatten_components s).filterMap fun i => items[i]?
  rw [hsize, List.filterMap_flatten] at hperm
  exact hperm.trans (.of_eq (pick_range items))

theorem ne_nil_of_mem_classes (hsize : s.size = items.length) {c : List α}
    (hc : c ∈ s.classes items) : c ≠ [] := by
  obtain ⟨members, hmembers, rfl⟩ := List.mem_map.mp hc
  obtain ⟨i, hi, rfl⟩ := Iff.mp mem_components hmembers
  have hlt : i < items.length := hsize ▸ hi
  refine List.ne_nil_of_mem (Iff.mpr mem_pick ⟨i, ?_, List.getElem?_eq_getElem hlt⟩)
  exact List.mem_filter.mpr ⟨List.mem_range.mpr hi, decide_eq_true rfl⟩

/-- **Two items are in one class** when they are connected. -/
theorem same_class_iff (hnodup : items.Nodup) (hsize : s.size = items.length)
    (hmem : ∀ a b, R a b → a ∈ items ∧ b ∈ items) (hsound : s.Sound (At items R))
    (hjoined : ∀ i j, At items R i j → s.root i = s.root j) {a b : α} (ha : a ∈ items)
    (hb : b ∈ items) :
    (∃ c ∈ s.classes items, a ∈ c ∧ b ∈ c) ↔ Relation.EqvGen R a b := by
  obtain ⟨i, hi⟩ := List.getElem?_of_mem ha
  obtain ⟨j, hj⟩ := List.getElem?_of_mem hb
  have hi' : i < s.size := hsize ▸ (List.getElem?_eq_some_iff.mp hi).1
  have hj' : j < s.size := hsize ▸ (List.getElem?_eq_some_iff.mp hj).1
  rw [← eqvGen_at_iff hnodup hmem hi hj, ← hsound.root_eq_iff hjoined,
    ← same_component_iff hi' hj']
  constructor
  · rintro ⟨c, hc, hac, hbc⟩
    obtain ⟨members, hmembers, rfl⟩ := List.mem_map.mp hc
    obtain ⟨i', hmem', hi''⟩ := Iff.mp mem_pick hac
    obtain ⟨j', hmem'', hj''⟩ := Iff.mp mem_pick hbc
    obtain rfl := position_eq hnodup hi hi''
    obtain rfl := position_eq hnodup hj hj''
    exact ⟨members, hmembers, hmem', hmem''⟩
  · rintro ⟨members, hmembers, hic, hjc⟩
    exact ⟨pick items members, List.mem_map_of_mem hmembers, Iff.mpr mem_pick ⟨i, hic, hi⟩,
      Iff.mpr mem_pick ⟨j, hjc, hj⟩⟩

end Classes

/-! ### Indices that share a tag -/

variable {τ : Type} [DecidableEq τ]

/-- `seen = owner.setdefault(tag, index)`, and a union when another index has seen the tag. -/
def claim (index : Nat) (st : List (τ × Nat) × Sets) (tag : τ) : List (τ × Nat) × Sets :=
  match st.1.lookup tag with
  | some seen => if seen ≠ index then (st.1, st.2.union seen index) else st
  | none => (st.1 ++ [(tag, index)], st.2)

/-- The loop over the tags of each index: `rows` holds them in the order of the indices. -/
def claimAll (rows : List (List τ)) : Sets :=
  (rows.zipIdx.foldl (fun st row => row.1.foldl (claim row.2) st) ([], new rows.length)).2

/-- Two indices have a tag in common. -/
def Share (rows : List (List τ)) (i j : Nat) : Prop :=
  ∃ row ∈ rows[i]?, ∃ row' ∈ rows[j]?, ∃ tag ∈ row, tag ∈ row'

/-- The state of the loop: each tag that was seen has an owner, with which every index that has seen
the tag is joined. -/
structure Claimed (rows : List (List τ)) (done : Nat → τ → Prop) (st : List (τ × Nat) × Sets) :
    Prop where
  size : st.2.size = rows.length
  owner : ∀ tag i, st.1.lookup tag = some i → i < rows.length ∧ ∃ row ∈ rows[i]?, tag ∈ row
  joined : ∀ i tag, done i tag → ∃ o, st.1.lookup tag = some o ∧ st.2.root i = st.2.root o
  sound : st.2.Sound (Share rows)

omit [DecidableEq τ] in
theorem claimed_new [DecidableEq τ] (rows : List (List τ)) :
    Claimed rows (fun _ _ => False) ([], new rows.length) where
  size := size_new _
  owner := fun _ _ h => nomatch h
  joined := fun _ _ h => h.elim
  sound := sound_new _ _

/-- **(step)** -/
theorem Claimed.claim {rows : List (List τ)} {done : Nat → τ → Prop} {st : List (τ × Nat) × Sets}
    (h : Claimed rows done st) {index : Nat} {row : List τ} {tag : τ}
    (hrow : rows[index]? = some row) (htag : tag ∈ row) :
    Claimed rows (fun i t => done i t ∨ i = index ∧ t = tag) (claim index st tag) := by
  have hindex : index < rows.length := (List.getElem?_eq_some_iff.mp hrow).1
  unfold Sets.claim
  split
  · rename_i seen hseen
    obtain ⟨hlt, row', hrow', htag'⟩ := h.owner tag seen hseen
    split
    · -- another index has seen it first
      have hl : seen < st.2.size := h.size ▸ hlt
      have hr : index < st.2.size := h.size ▸ hindex
      have hshare : Share rows seen index := ⟨row', hrow', row, hrow, tag, htag', htag⟩
      refine ⟨(size_union _ _ _).trans h.size, h.owner, ?_, h.sound.union hl hr (.rel _ _ hshare)⟩
      rintro i t (hdone | ⟨rfl, rfl⟩)
      · obtain ⟨o, ho, hroot⟩ := h.joined i t hdone
        exact ⟨o, ho, union_same hl hr hroot⟩
      · exact ⟨seen, hseen, (union_root hl hr).symm⟩
    · rename_i heq
      refine ⟨h.size, h.owner, ?_, h.sound⟩
      rintro i t (hdone | ⟨rfl, rfl⟩)
      · exact h.joined i t hdone
      · exact ⟨seen, hseen, by rw [not_not.mp heq]⟩
  · rename_i hnew
    have hlookup : ∀ t, (st.1 ++ [(tag, index)]).lookup t =
        (st.1.lookup t).or (if t = tag then some index else none) := by
      intro t
      rw [List.lookup_append]
      by_cases ht : t = tag
      · simp [ht]
      · simp [ht, List.lookup_cons, beq_false_of_ne ht]
    refine ⟨h.size, ?_, ?_, h.sound⟩
    · intro t i hi
      rw [hlookup] at hi
      cases hold : st.1.lookup t with
      | some o =>
        rw [hold] at hi
        exact h.owner t i (hold.trans hi)
      | none =>
        rw [hold, Option.none_or] at hi
        split at hi
        · rename_i ht
          obtain rfl := Option.some.inj hi
          exact ⟨hindex, row, hrow, ht ▸ htag⟩
        · cases hi
    · rintro i t (hdone | ⟨rfl, rfl⟩)
      · obtain ⟨o, ho, hroot⟩ := h.joined i t hdone
        exact ⟨o, by rw [hlookup, ho]; rfl, hroot⟩
      · exact ⟨i, by rw [hlookup, hnew, if_pos rfl]; rfl, rfl⟩

/-- **(run)** The tags of one index. -/
theorem Claimed.foldl {rows : List (List τ)} {index : Nat} {row : List τ}
    (hrow : rows[index]? = some row) {tags : List τ} (htags : ∀ tag ∈ tags, tag ∈ row)
    {done : Nat → τ → Prop} {st : List (τ × Nat) × Sets} (h : Claimed rows done st) :
    Claimed rows (fun i t => done i t ∨ i = index ∧ t ∈ tags)
      (tags.foldl (Sets.claim index) st) := by
  induction tags generalizing done st with
  | nil => simpa using h
  | cons tag tags ih =>
    obtain ⟨htag, htags⟩ := List.forall_mem_cons.mp htags
    have hnext := ih htags (h.claim hrow htag)
    refine ⟨hnext.size, hnext.owner, fun i t hdone => hnext.joined i t ?_, hnext.sound⟩
    rcases hdone with hdone | ⟨rfl, ht⟩
    · exact .inl (.inl hdone)
    · rcases List.mem_cons.mp ht with rfl | ht
      · exact .inl (.inr ⟨rfl, rfl⟩)
      · exact .inr ⟨rfl, ht⟩

/-- **(run)** The tags of all indices. -/
theorem claimed_claimAll (rows : List (List τ)) : ∃ owner,
    Claimed rows (fun i t => ∃ row ∈ rows[i]?, t ∈ row) (owner, claimAll rows) := by
  suffices hprefix : ∀ (later : List (List τ × Nat)) (done : Nat → τ → Prop) st,
      (∀ p ∈ later, rows[p.2]? = some p.1) → Claimed rows done st →
      Claimed rows (fun i t => done i t ∨ ∃ p ∈ later, p.2 = i ∧ t ∈ p.1)
        (later.foldl (fun st row => row.1.foldl (Sets.claim row.2) st) st) by
    have hall := hprefix rows.zipIdx _ _ (fun p hp => ?_) (claimed_new rows)
    · refine ⟨_, hall.size, hall.owner, fun i t ⟨row, hrow, ht⟩ => hall.joined i t (.inr ?_),
        hall.sound⟩
      exact ⟨(row, i), List.mem_zipIdx_iff_getElem?.mpr hrow, rfl, ht⟩
    · exact List.mem_zipIdx_iff_getElem?.mp hp
  intro later
  induction later with
  | nil => intro done st _ h; simpa using h
  | cons p later ih =>
    intro done st hlater h
    obtain ⟨hp, hlater⟩ := List.forall_mem_cons.mp hlater
    have hnext := ih _ _ hlater (h.foldl hp fun _ ht => ht)
    refine ⟨hnext.size, hnext.owner, fun i t hdone => hnext.joined i t ?_, hnext.sound⟩
    rcases hdone with hdone | ⟨q, hq, rfl, ht⟩
    · exact .inl (.inl hdone)
    · rcases List.mem_cons.mp hq with rfl | hq
      · exact .inl (.inr ⟨rfl, ht⟩)
      · exact .inr ⟨q, hq, rfl, ht⟩

/-- **Indices that share a tag are joined, and no others.** -/
theorem claimAll_spec (rows : List (List τ)) : (claimAll rows).size = rows.length ∧
    (claimAll rows).Sound (Share rows) ∧
    ∀ i j, Share rows i j → (claimAll rows).root i = (claimAll rows).root j := by
  obtain ⟨owner, h⟩ := claimed_claimAll rows
  refine ⟨h.size, h.sound, ?_⟩
  rintro i j ⟨row, hrow, row', hrow', tag, htag, htag'⟩
  obtain ⟨o, ho, hroot⟩ := h.joined i tag ⟨row, hrow, htag⟩
  obtain ⟨o', ho', hroot'⟩ := h.joined j tag ⟨row', hrow', htag'⟩
  obtain rfl : o = o' := Option.some.inj (ho.symm.trans ho')
  exact hroot.trans hroot'.symm

end Sets

end RiskOps.Lib
