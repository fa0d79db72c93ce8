import RiskOps.Lib.PyJson

/-!
# RiskOps.Lib.PyDict — decoded objects as dicts

A dict is the list of its members in the order of their keys, so that two dicts `==` holds of are
one value and values can be compared (`Value.beq`). `put` and `erase` are `d[key] = value` and
`del d[key]`; what `put` writes, `erase` takes away again (`erase_put`).
-/

namespace RiskOps.Lib.PyJson

/-! ### Comparing values -/

mutual

def Value.beq : Value → Value → Bool
  | .null, .null => true
  | .bool a, .bool b => a = b
  | .int a, .int b => a = b
  | .float a, .float b => a = b
  | .str a, .str b => a = b
  | .arr vs, .arr ws => beqItems vs ws
  | .obj ms, .obj ns => beqMembers ms ns
  | _, _ => false

def beqItems : List Value → List Value → Bool
  | [], [] => true
  | v :: vs, w :: ws => v.beq w && beqItems vs ws
  | _, _ => false

def beqMembers : List (Str × Value) → List (Str × Value) → Bool
  | [], [] => true
  | (k, v) :: ms, (l, w) :: ns => k = l && v.beq w && beqMembers ms ns
  | _, _ => false

end

mutual

theorem Value.beq_iff : ∀ v w : Value, v.beq w = true ↔ v = w
  | .null, w => by cases w <;> simp [Value.beq]
  | .bool _, w => by cases w <;> simp [Value.beq]
  | .int _, w => by cases w <;> simp [Value.beq]
  | .float _, w => by cases w <;> simp [Value.beq]
  | .str _, w => by cases w <;> simp [Value.beq]
  | .arr vs, w => by
    cases w with
    | arr ws => simp [Value.beq, beqItems_iff vs ws]
    | _ => simp [Value.beq]
  | .obj ms, w => by
    cases w with
    | obj ns => simp [Value.beq, beqMembers_iff ms ns]
    | _ => simp [Value.beq]

theorem beqItems_iff : ∀ vs ws : List Value, beqItems vs ws = true ↔ vs = ws
  | [], ws => by cases ws <;> simp [beqItems]
  | v :: vs, ws => by
    cases ws with
    | nil => simp [beqItems]
    | cons w ws => simp [beqItems, Value.beq_iff v w, beqItems_iff vs ws]

theorem beqMembers_iff : ∀ ms ns : List (Str × Value), beqMembers ms ns = true ↔ ms = ns
  | [], ns => by cases ns <;> simp [beqMembers]
  | (k, v) :: ms, ns => by
    cases ns with
    | nil => simp [beqMembers]
    | cons n ns =>
      simp [beqMembers, Value.beq_iff v n.2, beqMembers_iff ms ns, Prod.ext_iff]

end

instance : DecidableEq Value := fun v w => decidable_of_iff (v.beq w = true) (Value.beq_iff v w)

/-! ### Members -/

/-- The members of an object. -/
abbrev Dict := List (Str × Value)

/-- A string literal as a value. -/
def text (s : String) : Value := .str (Str.ofString s)

/-- A dict literal; its keys are written in their order. -/
def dict (ms : List (String × Value)) : Value := .obj (ms.map fun m => (Str.ofString m.1, m.2))

namespace Dict

/-- `d.get(key)`. -/
def get (d : Dict) (key : String) : Option Value := d.lookup (Str.ofString key)

def has (d : Dict) (key : String) : Bool := (get d key).isSome

/-- `keys <= d.keys()`. -/
def hasAll (d : Dict) (keys : List String) : Bool := keys.all (has d)

/-- `not set(d) - keys`. -/
def onlyKeys (d : Dict) (keys : List String) : Bool :=
  d.all fun m => (keys.map Str.ofString).contains m.1

/-- `del d[key]`, where the key need not be there. -/
def erase (key : String) (d : Dict) : Dict := d.filter fun m => m.1 ≠ Str.ofString key

/-- A member in its place. -/
def insert (key : Str) (v : Value) : Dict → Dict
  | [] => [(key, v)]
  | (k, w) :: ms => if key < k then (key, v) :: (k, w) :: ms else (k, w) :: insert key v ms

/-- `d[key] = value`. -/
def put (key : String) (v : Value) (d : Dict) : Dict := insert (Str.ofString key) v (erase key d)

theorem erase_insert (key : String) (v : Value) (d : Dict) :
    erase key (insert (Str.ofString key) v d) = erase key d := by
  induction d with
  | nil => simp [insert, erase]
  | cons m ms ih =>
    obtain ⟨k, w⟩ := m
    unfold insert
    split
    · simp [erase]
    · simp only [erase, List.filter_cons] at ih ⊢
      rw [ih]

theorem erase_erase (key : String) (d : Dict) : erase key (erase key d) = erase key d := by
  simp [erase]

theorem erase_put (key : String) (v : Value) (d : Dict) : erase key (put key v d) = erase key d := by
  rw [put, erase_insert, erase_erase]

theorem get_erase_ne {key other : String} (h : Str.ofString other ≠ Str.ofString key) (d : Dict) :
    get (erase key d) other = get d other := by
  unfold get erase
  induction d with
  | nil => rfl
  | cons m ms ih =>
    obtain ⟨k, w⟩ := m
    rw [List.filter_cons]
    split
    · rw [List.lookup_cons, List.lookup_cons, ih]
    · rename_i hk
      have hk : k = Str.ofString key := by simpa using hk
      have hfalse : (Str.ofString other == k) = false := by rw [hk]; simpa using h
      rw [List.lookup_cons, hfalse, ih]

theorem erase_of_get {key : String} {d : Dict} (h : get d key = none) : erase key d = d := by
  unfold erase
  refine List.filter_eq_self.mpr fun m hm => ?_
  rw [decide_eq_true_eq]
  intro heq
  have hne := List.lookup_eq_none_iff.mp h m hm
  rw [heq] at hne
  simp at hne

/-- Members are told apart by their values. -/
theorem put_inj {key : String} {v w : Value} {d e : Dict} (h : put key v d = put key w e) :
    v = w ∧ erase key d = erase key e := by
  have hget : ∀ (v : Value) (d : Dict), get (put key v d) key = some v := by
    intro v d
    rw [put]
    have hfresh : ∀ m ∈ erase key d, (Str.ofString key == m.1) = false := by
      intro m hm
      have hne := (List.mem_filter.mp hm).2
      rw [decide_eq_true_eq] at hne
      exact beq_false_of_ne (Ne.symm hne)
    generalize erase key d = d at hfresh
    unfold get
    induction d with
    | nil => simp [insert]
    | cons m ms ih =>
      obtain ⟨k, w⟩ := m
      unfold insert
      split
      · simp
      · rw [List.lookup_cons, hfresh _ (List.mem_cons_self ..)]
        exact ih fun m hm => hfresh m (List.mem_cons_of_mem _ hm)
  refine ⟨Option.some.inj ?_, ?_⟩
  · rw [← hget v d, h, hget]
  · rw [← erase_put key v d, h, erase_put]

end Dict

end RiskOps.Lib.PyJson
