import RiskOps.Telemetry.DetectionMatches
import RiskOps.Telemetry.Store

/-!
# RiskOps.Telemetry.StoreSpec — what the store's operations do to incidents

**One view of the database.** For incidents only a few things matter: the stored rows with
their receipts, which incident holds which row, which rules an incident carries and what an
incident was merged into. `Db.view` reads them off, and each operation has one lemma that says what it
does to the view; counters, triage and details never show in it.

`Applied` sums up `_apply_match`: the incidents that hold part of the evidence become the
oldest of them, and that one takes the evidence and the rule.
-/

namespace RiskOps.Telemetry.Store

open RiskOps.Lib RiskOps.Lib.Components

/-! ### The view -/

/-- What the incidents of a database look like. -/
@[ext] structure View where
  rows : List Row
  held : Key → Option (Row × Id)
  label : Id → RuleId → Bool
  incident : Id → Option (ℚ × Option Id)
  receipts : Table Receipt.key
  batches : Table Batch.key

/-- The view of a database. -/
def Db.view (db : Db) : View where
  rows := db.events.rows.map StoredEvent.row
  held k := (db.evidence.find? k).map fun e => (e.row, e.incidentId)
  label i r := (db.rules.find? (i, r)).isSome
  incident i := (db.incidents.find? i).map fun x => (x.createdAt, x.mergedInto)
  receipts := db.receipts
  batches := db.batches

namespace View

/-- The incident that holds a key. -/
def owner (v : View) (k : Key) : Option Id := (v.held k).map Prod.snd

/-- The incident holds part of the evidence of a match. -/
def Meets (v : View) (m : RuleMatch) (i : Id) : Prop := ∃ row ∈ m.evidence, v.owner row.key = some i

/-- `(created_at, incident_id)`. -/
def age (v : View) (i : Id) : ℚ ×ₗ List Char := toLex (((v.incident i).map Prod.fst).getD 0, i)

/-- `_merge_incident`. -/
def merge (target : Id) (v : View) (other : Id) : View :=
  { v with
    held := fun k => (v.held k).map fun p => if p.2 = other then (p.1, target) else p
    label := fun i r => v.label i r || (decide (i = target) && v.label other r)
    incident := fun i =>
      if i = other then (v.incident i).map fun p => (p.1, some target) else v.incident i }

/-- One row of evidence. -/
def attachRow (id : Id) (v : View) (row : Row) : View :=
  { v with held := fun k => if row.key = k then some ((v.held k).getD (row, id)) else v.held k }

/-- `_record_rule`. -/
def record (v : View) (id : Id) (ruleId : RuleId) : View :=
  { v with label := fun i r => v.label i r || decide ((i, r) = (id, ruleId)) }

end View

variable {i : Id}

theorem canonicalIncident_of_open {db : Db} {c : ℚ} (h : db.view.incident i = some (c, none)) :
    canonicalIncident db i = i := by
  have hnone : (db.incidents.find? i).bind Incident.mergedInto = none := by
    obtain ⟨x, hx, heq⟩ := Option.map_eq_some_iff.mp h
    rw [hx]
    exact congrArg Prod.snd heq
  unfold canonicalIncident
  cases db.incidents.rows.length with
  | zero => rfl
  | succ n => rw [followMerges, hnone]

/-! ### Operations on the view -/

section Operations

variable (db : Db)

@[simp] theorem view_touchIncident (i : Id) (now : ℚ) : (touchIncident db i now).view = db.view := by
  refine View.ext rfl rfl rfl (funext fun j => ?_) rfl rfl
  simp only [Db.view, touchIncident, Table.find?_update, Option.map_map]
  congr 1
  funext x
  simp only [Function.comp_apply]
  split <;> rfl

@[simp] theorem view_setTriage (i : Id) (state : TriageState) (now : ℚ) (actor : String)
    (cause : TriageCause) (note : Option (List Char)) (reference : Option Reference) :
    (setTriage db i state now actor cause note reference).view = db.view := by
  rw [setTriage]
  split
  · rfl
  · rw [view_touchIncident]
    rfl

@[simp] theorem view_reopen (i : Id) (newest : Option Row) (now : ℚ) :
    (reopen db i newest now).view = db.view := by
  unfold reopen
  split
  · split
    · exact view_setTriage _ _ _ _ _ _ _ _
    · rfl
  · rfl

@[simp] theorem view_recordRule (i : Id) (m : RuleMatch) :
    (recordRule db i m).view = db.view.record i m.ruleId := by
  refine View.ext rfl rfl (funext fun j => funext fun r => ?_) rfl rfl rfl
  simp only [Db.view, recordRule, View.record, Table.find?_replace, IncidentRule.key]
  by_cases h : (i, m.ruleId) = (j, r)
  · simp [h]
  · simp [h, Ne.symm h]

theorem find?_foldl_rules (target : Id) (rs : List IncidentRule) (t : Table IncidentRule.key)
    (i : Id) (r : RuleId) :
    ((rs.foldl (fun rules x => rules.insertOrIgnore { x with incidentId := target }) t).find?
        (i, r)).isSome
      = ((t.find? (i, r)).isSome || (decide (i = target) && rs.any fun x => x.ruleId = r)) := by
  induction rs generalizing t with
  | nil => simp
  | cons x rs ih =>
    rw [List.foldl_cons, ih, Table.find?_insertOrIgnore, List.any_cons]
    by_cases hi : i = target
    · subst hi
      by_cases hr : x.ruleId = r
      · simp [IncidentRule.key, hr]
      · simp [IncidentRule.key, hr]
    · have hne : ¬ (IncidentRule.key { x with incidentId := target } = (i, r)) := by
        intro h
        exact hi (congrArg Prod.fst h).symm
      simp [hne, hi]

theorem any_select_rules (t : Table IncidentRule.key) (other : Id) (r : RuleId) :
    (t.select fun x => x.incidentId = other).any (fun x => x.ruleId = r)
      = (t.find? (other, r)).isSome := by
  rw [Bool.eq_iff_iff, List.any_eq_true, Option.isSome_iff_exists]
  constructor
  · rintro ⟨x, hx, hr⟩
    obtain ⟨hmem, hi⟩ := Table.mem_select.mp hx
    refine ⟨x, Table.find?_eq_some_iff.mpr ⟨hmem, ?_⟩⟩
    simp only [decide_eq_true_eq] at hi hr
    rw [IncidentRule.key, hi, hr]
  · rintro ⟨x, hx⟩
    obtain ⟨hmem, hkey⟩ := Table.find?_eq_some_iff.mp hx
    obtain ⟨hi, hr⟩ := Prod.mk.inj hkey
    exact ⟨x, Table.mem_select.mpr ⟨hmem, decide_eq_true hi⟩, decide_eq_true hr⟩

theorem view_reparent (target other : Id) (now : ℚ) :
    (reparent db target other now).view = db.view.merge target other := by
  refine View.ext ?_ (funext fun k => ?_) (funext fun i => funext fun r => ?_) (funext fun i => ?_)
    rfl rfl
  · simp only [Db.view, reparent, View.merge, Table.update, List.map_map]
    refine List.map_congr_left fun e _ => ?_
    simp only [Function.comp_apply]
    split <;> rfl
  · simp only [Db.view, reparent, View.merge, Table.find?_update, Option.map_map]
    congr 1
    funext e
    simp only [Function.comp_apply]
    split <;> rfl
  · simp only [Db.view, reparent, View.merge, find?_foldl_rules, any_select_rules]
  · simp only [Db.view, reparent, View.merge, Table.find?_update, Option.map_map]
    cases hf : db.incidents.find? i with
    | none => simp
    | some x =>
      obtain rfl : x.incidentId = i := Table.find?_key hf
      by_cases h : x.incidentId = other
      · simp [h]
      · simp [h]

theorem view_mergeIncident {target other : Id} (h : target ≠ other) (now : ℚ) :
    (mergeIncident now target db other).view = db.view.merge target other := by
  rw [mergeIncident, if_neg h]
  dsimp only
  split
  · rw [view_setTriage, view_reparent]
  · exact view_reparent db target other now

theorem view_attachRow (id : Id) (st : Attach) (row : Row) :
    (attachRow id st row).db.view = st.db.view.attachRow id row := by
  refine View.ext ?_ (funext fun k => ?_) rfl rfl rfl rfl
  · simp only [Db.view, attachRow, View.attachRow, Table.update, List.map_map]
    refine List.map_congr_left fun e _ => ?_
    simp only [Function.comp_apply]
    split <;> rfl
  · have hkey : Evidence.key ⟨row, hostnameOf st.db row, id⟩ = row.key := rfl
    simp only [Db.view, attachRow, View.attachRow, Table.find?_insertOrIgnore]
    by_cases h : row.key = k
    · rw [if_pos (hkey.trans h), if_pos h]
      cases st.db.evidence.find? k <;> rfl
    · rw [if_neg (fun heq => h (hkey.symm.trans heq)), if_neg h]

theorem view_attachRows (id : Id) (rows : List Row) (st : Attach) :
    (rows.foldl (attachRow id) st).db.view = rows.foldl (View.attachRow id) st.db.view := by
  induction rows generalizing st with
  | nil => rfl
  | cons row rows ih => rw [List.foldl_cons, ih, view_attachRow, List.foldl_cons]

theorem view_attach (id : Id) (m : RuleMatch) (now : ℚ) :
    (attach db id m now).view = (m.evidence.foldl (View.attachRow id) db.view).record id m.ruleId := by
  rw [attach, view_reopen, view_touchIncident, view_recordRule, view_attachRows]

theorem view_mergeAll (id : Id) (others : List Id) (h : id ∉ others) (now : ℚ) :
    (others.foldl (mergeIncident now id) db).view = others.foldl (View.merge id) db.view := by
  induction others generalizing db with
  | nil => rfl
  | cons o others ih =>
    rw [List.mem_cons, not_or] at h
    rw [List.foldl_cons, ih _ h.2, view_mergeIncident db h.1, List.foldl_cons]

theorem view_insertIncident {db : Db} {x : Incident} {t : Table Incident.incidentId}
    (h : db.incidents.insert x = some t) :
    ({ db with incidents := t } : Db).view =
      { db.view with
        incident := fun i => if x.incidentId = i then some (x.createdAt, x.mergedInto)
          else db.view.incident i } := by
  refine View.ext rfl rfl rfl (funext fun i => ?_) rfl rfl
  simp only [Db.view, Table.find?_insert h]
  split <;> rfl

end Operations

/-! ### Merging and attaching, as a whole -/

variable {others : List Id}

namespace View

section Whole

variable {v : View} {id : Id}

theorem held_mergeAll (h : id ∉ others) (k : Key) :
    (others.foldl (View.merge id) v).held k =
      (v.held k).map fun p => if p.2 ∈ others then (p.1, id) else p := by
  induction others generalizing v with
  | nil => simp
  | cons o others ih =>
    rw [List.mem_cons, not_or] at h
    rw [List.foldl_cons, ih h.2]
    simp only [View.merge, Option.map_map]
    congr 1
    funext p
    by_cases hp : p.2 = o
    · simp [hp, h.2]
    · simp [hp]

theorem label_mergeAll (h : id ∉ others) (i : Id) (r : RuleId) :
    (others.foldl (View.merge id) v).label i r = true ↔
      v.label i r = true ∨ (i = id ∧ ∃ o ∈ others, v.label o r = true) := by
  induction others generalizing v with
  | nil => simp
  | cons o others ih =>
    rw [List.mem_cons, not_or] at h
    rw [List.foldl_cons, ih h.2]
    have hother : ∀ x ∈ others, (v.merge id o).label x r = v.label x r := fun x hx => by
      have hne : x ≠ id := fun heq => h.2 (heq ▸ hx)
      simp [View.merge, hne]
    have hlabel : (v.merge id o).label i r = true ↔
        v.label i r = true ∨ (i = id ∧ v.label o r = true) := by
      simp [View.merge]
    rw [hlabel]
    constructor
    · rintro ((hi | ⟨rfl, ho⟩) | ⟨rfl, x, hx, hlab⟩)
      · exact Or.inl hi
      · exact Or.inr ⟨rfl, o, List.mem_cons_self, ho⟩
      · exact Or.inr ⟨rfl, x, List.mem_cons_of_mem _ hx, hother x hx ▸ hlab⟩
    · rintro (hi | ⟨rfl, x, hx, hlab⟩)
      · exact Or.inl (Or.inl hi)
      · rcases List.mem_cons.mp hx with rfl | hx
        · exact Or.inl (Or.inr ⟨rfl, hlab⟩)
        · exact Or.inr ⟨rfl, x, hx, (hother x hx).symm ▸ hlab⟩

theorem incident_mergeAll (others : List Id) (i : Id) :
    (others.foldl (View.merge id) v).incident i =
      if i ∈ others then (v.incident i).map fun p => (p.1, some id) else v.incident i := by
  induction others generalizing v with
  | nil => simp
  | cons o others ih =>
    rw [List.foldl_cons, ih]
    by_cases ho : i = o
    · subst ho
      by_cases hm : i ∈ others
      · simp [View.merge, hm, Function.comp_def]
      · simp [View.merge, hm]
    · simp [View.merge, ho]

theorem frame_mergeAll (v : View) (id : Id) (others : List Id) :
    (others.foldl (View.merge id) v).rows = v.rows ∧
      (others.foldl (View.merge id) v).receipts = v.receipts ∧
      (others.foldl (View.merge id) v).batches = v.batches := by
  induction others generalizing v with
  | nil => exact ⟨rfl, rfl, rfl⟩
  | cons o others ih => exact ih _

/-- A row that was held stays as it is; a new one goes to the incident. -/
theorem held_attachRows (rows : List Row) (k : Key) :
    (rows.foldl (View.attachRow id) v).held k =
      (v.held k).or ((rows.find? fun row => row.key = k).map fun row => (row, id)) := by
  induction rows generalizing v with
  | nil => simp
  | cons row rows ih =>
    rw [List.foldl_cons, ih, List.find?_cons]
    by_cases hk : row.key = k
    · cases hv : v.held k <;> simp [View.attachRow, hk, hv]
    · simp [View.attachRow, hk]

theorem frame_attachRows (v : View) (id : Id) (rows : List Row) :
    (rows.foldl (View.attachRow id) v).rows = v.rows ∧
      (rows.foldl (View.attachRow id) v).label = v.label ∧
      (rows.foldl (View.attachRow id) v).incident = v.incident ∧
      (rows.foldl (View.attachRow id) v).receipts = v.receipts ∧
      (rows.foldl (View.attachRow id) v).batches = v.batches := by
  induction rows generalizing v with
  | nil => exact ⟨rfl, rfl, rfl, rfl, rfl⟩
  | cons row rows ih => exact ih _

end Whole

end View

/-! ### `_apply_match` -/

/-- Evidence belongs to incidents that are not merged. -/
def View.OwnersOpen (v : View) : Prop :=
  ∀ k i, v.owner k = some i → ∃ c, v.incident i = some (c, none)

/-- An incident is merged into an older one. -/
def View.MergedOlder (v : View) : Prop :=
  ∀ i c t, v.incident i = some (c, some t) → v.incident t ≠ none ∧ v.age t < v.age i

/-- What holds of the incidents between two calls. -/
structure View.WellFormed (v : View) : Prop where
  owner_open : ∀ k i, v.owner k = some i → ∃ c, v.incident i = some (c, none)
  open_owner : ∀ i c, v.incident i = some (c, none) → ∃ k, v.owner k = some i
  label_known : ∀ i r, v.label i r = true → v.incident i ≠ none
  held_row : ∀ k row i, v.held k = some (row, i) → row ∈ v.rows ∧ row.key = k
  merged_older : ∀ i c t, v.incident i = some (c, some t) → v.incident t ≠ none ∧ v.age t < v.age i

/-- The effect of a match that ended in incident `i`. -/
structure Applied (v v' : View) (m : RuleMatch) (i : Id) : Prop where
  nonempty : m.evidence ≠ []
  chosen : v.Meets m i ∨ (v.incident i = none ∧ ∀ j, ¬ v.Meets m j)
  older : ∀ j, v.Meets m j → j ≠ i → v.age i < v.age j
  rows : v'.rows = v.rows
  receipts : v'.receipts = v.receipts
  batches : v'.batches = v.batches
  taken : ∀ k, (k ∈ m.evidence.map Row.key ∨ ∃ j, v.owner k = some j ∧ v.Meets m j) →
    v'.owner k = some i
  kept : ∀ k, k ∉ m.evidence.map Row.key → (∀ j, v.owner k = some j → ¬ v.Meets m j) →
    v'.held k = v.held k
  held : ∀ k row j, v'.held k = some (row, j) →
    (∃ j', v.held k = some (row, j')) ∨ (row ∈ m.evidence ∧ row.key = k)
  label : ∀ j r, v'.label j r = true ↔ v.label j r = true ∨
    (j = i ∧ (r = m.ruleId ∨ ∃ j', v.Meets m j' ∧ v.label j' r = true))
  survivor : ∃ c, v'.incident i = some (c, none) ∧
    (v.incident i = some (c, none) ∨ v.incident i = none)
  absorbed : ∀ j, v.Meets m j → j ≠ i → v'.incident j = (v.incident j).map fun p => (p.1, some i)
  others : ∀ j, ¬ v.Meets m j → j ≠ i → v'.incident j = v.incident j

section Apply

variable {db : Db} {m : RuleMatch}

theorem mem_linkedIncidents (hopen : db.view.OwnersOpen) {evidence : List Row} :
    i ∈ linkedIncidents db evidence ↔ ∃ row ∈ evidence, db.view.owner row.key = some i := by
  have hcanon : ∀ k e, db.evidence.find? k = some e → canonicalIncident db e.incidentId = e.incidentId ∧
      db.view.owner k = some e.incidentId := by
    intro k e he
    have howner : db.view.owner k = some e.incidentId := by
      simp [View.owner, Db.view, he]
    obtain ⟨c, hc⟩ := hopen k _ howner
    exact ⟨canonicalIncident_of_open hc, howner⟩
  simp only [linkedIncidents, List.mem_dedup, List.mem_filterMap, Option.map_eq_some_iff]
  constructor
  · rintro ⟨row, hrow, e, he, rfl⟩
    obtain ⟨hc, howner⟩ := hcanon row.key e he
    exact ⟨row, hrow, howner.trans (congrArg some hc.symm)⟩
  · rintro ⟨row, hrow, howner⟩
    obtain ⟨p, hp, rfl⟩ := Option.map_eq_some_iff.mp howner
    obtain ⟨e, he, rfl⟩ := Option.map_eq_some_iff.mp hp
    exact ⟨row, hrow, e, he, (hcanon row.key e he).1⟩

theorem view_age (i : Id) : db.view.age i = age db i := by
  simp only [View.age, age, Db.view, Option.map_map]
  rfl

theorem oldest_spec {linked : List Id} (h : oldest db linked = some i) :
    i ∈ linked ∧ ∀ j ∈ linked, j ≠ i → db.view.age i < db.view.age j := by
  have hsorted : (linked.insertionSort fun a b => age db a ≤ age db b).Pairwise
      fun a b => age db a ≤ age db b := List.pairwise_insertionSort _ _
  obtain ⟨l, hl⟩ := List.head?_eq_some_iff.mp h
  rw [hl, List.pairwise_cons] at hsorted
  refine ⟨(List.mem_insertionSort _).mp (hl ▸ List.mem_cons_self), fun j hj hne => ?_⟩
  have hmem : j ∈ i :: l := hl ▸ (List.mem_insertionSort _).mpr hj
  have hle := hsorted.1 j ((List.mem_cons.mp hmem).resolve_left hne)
  rw [view_age, view_age]
  refine lt_of_le_of_ne hle fun heq => hne ?_
  exact (congrArg (fun o => (ofLex o).2) heq).symm

theorem oldest_eq_none {linked : List Id} (h : oldest db linked = none) : linked = [] := by
  have hnil := List.head?_eq_none_iff.mp h
  exact List.length_eq_zero_iff.mp (by
    rw [← List.length_insertionSort (fun a b => age db a ≤ age db b), hnil]
    rfl)

/-- The view after the merges, the evidence and the rule of a match. -/
def View.apply (v : View) (id : Id) (others : List Id) (m : RuleMatch) : View :=
  (m.evidence.foldl (View.attachRow id) (others.foldl (View.merge id) v)).record id m.ruleId

theorem View.held_apply {v : View} {id : Id} (h : id ∉ others) (k : Key) :
    (v.apply id others m).held k =
      ((v.held k).map fun p => if p.2 ∈ others then (p.1, id) else p).or
        ((m.evidence.find? fun row => row.key = k).map fun row => (row, id)) := by
  show (m.evidence.foldl (View.attachRow id) (others.foldl (View.merge id) v)).held k = _
  rw [View.held_attachRows, View.held_mergeAll h]

theorem find?_evidence {evidence : List Row} {k : Key} (h : k ∈ evidence.map Row.key) :
    ∃ row, (evidence.find? fun row => row.key = k) = some row := by
  obtain ⟨row, hrow, hkey⟩ := List.mem_map.mp h
  exact Option.isSome_iff_exists.mp (List.find?_isSome.mpr ⟨row, hrow, decide_eq_true hkey⟩)

/-- `v₁` is the database after the survivor was made sure of. -/
theorem applied_of {v v₁ : View} {id : Id} {c : ℚ} (hne : m.evidence ≠ [])
    (hothers : ∀ j, j ∈ others ↔ v.Meets m j ∧ j ≠ id)
    (hchosen : v.Meets m id ∨ (v.incident id = none ∧ ∀ j, ¬ v.Meets m j))
    (holder : ∀ j, v.Meets m j → j ≠ id → v.age id < v.age j) (hrows : v₁.rows = v.rows)
    (hreceipts : v₁.receipts = v.receipts) (hbatches : v₁.batches = v.batches)
    (hheld : v₁.held = v.held) (hlabel : v₁.label = v.label) (hid : v₁.incident id = some (c, none))
    (hid' : v.incident id = some (c, none) ∨ v.incident id = none)
    (hincident : ∀ j, j ≠ id → v₁.incident j = v.incident j) :
    Applied v (v₁.apply id others m) m id := by
  have hnot : id ∉ others := fun h => ((hothers id).mp h).2 rfl
  obtain ⟨hframeRows, hframeLabel, hframeIncident, hframeReceipts, hframeBatches⟩ :=
    View.frame_attachRows (others.foldl (View.merge id) v₁) id m.evidence
  obtain ⟨hmergeRows, hmergeReceipts, hmergeBatches⟩ := View.frame_mergeAll v₁ id others
  have hinc : ∀ j, (v₁.apply id others m).incident j =
      if j ∈ others then (v₁.incident j).map fun p => (p.1, some id) else v₁.incident j := by
    intro j
    rw [← View.incident_mergeAll others j, ← hframeIncident]
    rfl
  -- A key held by an incident the match meets ends in the survivor.
  have hmoved : ∀ k row j, v.held k = some (row, j) → v.Meets m j →
      (v₁.apply id others m).owner k = some id := by
    intro k row j hk hj
    rw [View.owner, View.held_apply hnot, hheld, hk]
    by_cases hji : j = id
    · simp [hji, hnot]
    · have hmem : j ∈ others := (hothers j).mpr ⟨hj, hji⟩
      simp [hmem]
  refine ⟨hne, hchosen, holder, (hframeRows.trans hmergeRows).trans hrows,
    (hframeReceipts.trans hmergeReceipts).trans hreceipts,
    (hframeBatches.trans hmergeBatches).trans hbatches, ?_, ?_, ?_, ?_, ⟨c, ?_, hid'⟩, ?_, ?_⟩
  · intro k hk
    cases hv : v.held k with
    | some p =>
      obtain ⟨row, j⟩ := p
      have howner : v.owner k = some j := by simp [View.owner, hv]
      refine hmoved k row j hv ?_
      rcases hk with hk | ⟨j', hj', hmeets⟩
      · obtain ⟨row', hrow', rfl⟩ := List.mem_map.mp hk
        exact ⟨row', hrow', howner⟩
      · obtain rfl : j = j' := Option.some.inj (howner.symm.trans hj')
        exact hmeets
    | none =>
      have hkeys : k ∈ m.evidence.map Row.key := hk.resolve_right fun ⟨j, hj, _⟩ => by
        simp [View.owner, hv] at hj
      obtain ⟨row, hrow⟩ := find?_evidence hkeys
      rw [View.owner, View.held_apply hnot, hheld, hv, hrow]
      rfl
  · intro k hk hfree
    have hnone : (m.evidence.find? fun row => row.key = k) = none := by
      rw [List.find?_eq_none]
      intro row hrow hkey
      exact hk (List.mem_map.mpr ⟨row, hrow, of_decide_eq_true hkey⟩)
    rw [View.held_apply hnot, hheld, hnone]
    cases hv : v.held k with
    | none => rfl
    | some p =>
      have hout : p.2 ∉ others := fun hmem =>
        hfree p.2 (by simp [View.owner, hv]) ((hothers _).mp hmem).1
      simp [hout]
  · intro k row j hk
    rw [View.held_apply hnot, hheld] at hk
    cases hv : v.held k with
    | some p =>
      left
      refine ⟨p.2, ?_⟩
      rw [hv, Option.map_some, Option.some_or, Option.some.injEq] at hk
      have hrow : p.1 = row := by
        split at hk
        · exact congrArg Prod.fst hk
        · exact congrArg Prod.fst hk
      rw [← hrow]
    | none =>
      right
      rw [hv, Option.map_none, Option.none_or, Option.map_eq_some_iff] at hk
      obtain ⟨row', hfind, heq⟩ := hk
      obtain rfl : row' = row := congrArg Prod.fst heq
      exact ⟨List.mem_of_find?_eq_some hfind, by simpa using List.find?_some hfind⟩
  · intro j r
    have hstep : (v₁.apply id others m).label j r = true ↔
        (others.foldl (View.merge id) v₁).label j r = true ∨ (j = id ∧ r = m.ruleId) := by
      rw [← hframeLabel]
      simp [View.apply, View.record]
    rw [hstep, View.label_mergeAll hnot, hlabel]
    constructor
    · rintro ((h | ⟨rfl, o, ho, h⟩) | ⟨rfl, rfl⟩)
      · exact Or.inl h
      · exact Or.inr ⟨rfl, Or.inr ⟨o, ((hothers o).mp ho).1, h⟩⟩
      · exact Or.inr ⟨rfl, Or.inl rfl⟩
    · rintro (h | ⟨rfl, rfl | ⟨j', hj', h⟩⟩)
      · exact Or.inl (Or.inl h)
      · exact Or.inr ⟨rfl, rfl⟩
      · by_cases hji : j' = j
        · exact Or.inl (Or.inl (hji ▸ h))
        · exact Or.inl (Or.inr ⟨rfl, j', (hothers j').mpr ⟨hj', hji⟩, h⟩)
  · rw [hinc, if_neg hnot, hid]
  · intro j hj hji
    rw [hinc, if_pos ((hothers j).mpr ⟨hj, hji⟩), hincident j hji]
  · intro j hj hji
    rw [hinc, if_neg fun h => hj ((hothers j).mp h).1, hincident j hji]

/-- **A match, applied.** -/
theorem applyMatch_applied {uuid : Nat → List Char} {now : ℚ} {db' : Db}
    (hopen : db.view.OwnersOpen) (h : applyMatch uuid now db m = .ok (db', i)) :
    Applied db.view db'.view m i := by
  unfold applyMatch at h
  split at h
  · cases h
  rename_i first hfirst
  have hne : m.evidence ≠ [] := by
    intro hnil
    simp [hnil, orderRows] at hfirst
  dsimp only at h
  split at h
  · rename_i id hold
    obtain ⟨hdb, rfl⟩ := Prod.mk.inj (Except.ok.inj h)
    obtain ⟨hmem, holder⟩ := oldest_spec hold
    have hmeets := (mem_linkedIncidents hopen).mp hmem
    obtain ⟨row, hrow, howner⟩ := hmeets
    obtain ⟨c, hc⟩ := hopen _ _ howner
    have hothers : ∀ j, j ∈ (linkedIncidents db m.evidence).filter (· ≠ id) ↔
        db.view.Meets m j ∧ j ≠ id := by
      intro j
      rw [List.mem_filter, mem_linkedIncidents hopen, decide_eq_true_eq]
      rfl
    have hview : db'.view = db.view.apply id ((linkedIncidents db m.evidence).filter (· ≠ id)) m := by
      rw [← hdb, view_attach, view_mergeAll _ _ _ fun h => ((hothers id).mp h).2 rfl]
      rfl
    rw [hview]
    exact applied_of hne hothers (Or.inl ⟨row, hrow, howner⟩)
      (fun j hj => holder j ((mem_linkedIncidents hopen).mpr hj)) rfl rfl rfl rfl rfl hc (Or.inl hc)
      fun _ _ => rfl
  · rename_i hnone
    split at h
    · cases h
    rename_i incidents hinsert
    obtain ⟨hdb, rfl⟩ := Prod.mk.inj (Except.ok.inj h)
    have hnil := oldest_eq_none hnone
    have hfree : ∀ j, ¬ db.view.Meets m j := fun j hj => by
      have hmem := (mem_linkedIncidents hopen).mpr hj
      rw [hnil] at hmem
      exact absurd hmem List.not_mem_nil
    have hfresh : db.view.incident (incidentId uuid db) = none :=
      congrArg (Option.map _) (Table.find?_none_of_insert hinsert)
    have hview : db'.view =
        ({ db with incidents := incidents } : Db).view.apply (incidentId uuid db) [] m := by
      rw [← hdb, view_attach]
      rfl
    rw [hview]
    have hins := view_insertIncident hinsert
    refine applied_of (c := now) hne (fun j => ?_) (Or.inr ⟨hfresh, hfree⟩)
      (fun j hj => absurd hj (hfree j)) rfl rfl rfl rfl rfl ?_ (Or.inr hfresh) fun j hj => ?_
    · simp [hfree j]
    · rw [hins]
      exact if_pos rfl
    · rw [hins]
      exact if_neg fun heq => hj heq.symm

end Apply

/-! ### What a match preserves -/

section Applied

variable {v v' : View} {m : RuleMatch} {i : Id}

variable {j : Id}

theorem View.held_of_owner {k : Key} (h : v.owner k = some j) :
    ∃ row, v.held k = some (row, j) := by
  obtain ⟨p, hp, rfl⟩ := Option.map_eq_some_iff.mp h
  exact ⟨p.1, hp⟩

/-- Who holds a key after a match: the survivor, or whoever held it before and was not met. -/
theorem Applied.owner_cases (h : Applied v v' m i) (k : Key) :
    v'.owner k = some i ∨ (v'.held k = v.held k ∧ ∀ j, v.owner k = some j → ¬ v.Meets m j) := by
  by_cases hk : k ∈ m.evidence.map Row.key
  · exact Or.inl (h.taken k (Or.inl hk))
  · by_cases hm : ∃ j, v.owner k = some j ∧ v.Meets m j
    · exact Or.inl (h.taken k (Or.inr hm))
    · have hfree : ∀ j, v.owner k = some j → ¬ v.Meets m j := fun j hj hmeets => hm ⟨j, hj, hmeets⟩
      exact Or.inr ⟨h.kept k hk hfree, hfree⟩

theorem Applied.age_eq (h : Applied v v' m i) (hj : v.incident j ≠ none) : v'.age j = v.age j := by
  obtain ⟨c, hc, hc'⟩ := h.survivor
  by_cases hji : j = i
  · subst hji
    have hold : v.incident j = some (c, none) := hc'.resolve_right hj
    simp [View.age, hc, hold]
  · by_cases hm : v.Meets m j
    · simp only [View.age, h.absorbed j hm hji, Option.map_map]
      rfl
    · simp only [View.age, h.others j hm hji]

theorem Applied.known (h : Applied v v' m i) (hj : v.incident j ≠ none) : v'.incident j ≠ none := by
  obtain ⟨c, hc, -⟩ := h.survivor
  by_cases hji : j = i
  · rw [hji, hc]
    exact Option.some_ne_none _
  · by_cases hm : v.Meets m j
    · rw [h.absorbed j hm hji]
      exact fun hnone => hj (Option.map_eq_none_iff.mp hnone)
    · rwa [h.others j hm hji]

theorem Applied.ownersOpen (h : Applied v v' m i) (hopen : v.OwnersOpen) : v'.OwnersOpen := by
  obtain ⟨c, hc, -⟩ := h.survivor
  intro k j hj
  rcases h.owner_cases k with hi | ⟨hsame, hfree⟩
  · obtain rfl : i = j := Option.some.inj (hi.symm.trans hj)
    exact ⟨c, hc⟩
  · have hold : v.owner k = some j := by rwa [View.owner, ← hsame]
    obtain ⟨c', hc'⟩ := hopen k j hold
    by_cases hji : j = i
    · exact ⟨c, hji ▸ hc⟩
    · exact ⟨c', by rw [h.others j (hfree j hold) hji, hc']⟩

theorem Applied.mergedOlder (h : Applied v v' m i) (hopen : v.OwnersOpen) (holder : v.MergedOlder) :
    v'.MergedOlder := by
  obtain ⟨c, hc, -⟩ := h.survivor
  intro j c' t hj
  have hji : j ≠ i := by
    rintro rfl
    rw [hc] at hj
    simp at hj
  by_cases hm : v.Meets m j
  · -- The absorbed incidents are younger than the survivor.
    rw [h.absorbed j hm hji] at hj
    obtain ⟨p, hp, heq⟩ := Option.map_eq_some_iff.mp hj
    obtain ⟨-, rfl⟩ : p.1 = c' ∧ i = t := by simpa using heq
    have hmi : v.Meets m i := h.chosen.resolve_right fun hnone => hnone.2 j hm
    obtain ⟨row, hrow, howner⟩ := hmi
    obtain ⟨c₀, hc₀⟩ := hopen _ _ howner
    refine ⟨by rw [hc]; exact Option.some_ne_none _, ?_⟩
    rw [h.age_eq (by rw [hc₀]; exact Option.some_ne_none _),
      h.age_eq (by rw [hp]; exact Option.some_ne_none _)]
    exact h.older j hm hji
  · rw [h.others j hm hji] at hj
    obtain ⟨ht, hage⟩ := holder j c' t hj
    refine ⟨h.known ht, ?_⟩
    rw [h.age_eq ht, h.age_eq (by rw [hj]; exact Option.some_ne_none _)]
    exact hage

theorem Applied.openOwned (h : Applied v v' m i)
    (howned : ∀ j c, v.incident j = some (c, none) → ∃ k, v.owner k = some j) (j : Id) (c : ℚ)
    (hj : v'.incident j = some (c, none)) : ∃ k, v'.owner k = some j := by
  by_cases hji : j = i
  · obtain ⟨row, hrow⟩ := List.exists_mem_of_ne_nil _ h.nonempty
    exact ⟨row.key, hji ▸ h.taken _ (Or.inl (List.mem_map_of_mem hrow))⟩
  · have hm : ¬ v.Meets m j := by
      intro hm
      rw [h.absorbed j hm hji] at hj
      obtain ⟨p, -, hp⟩ := Option.map_eq_some_iff.mp hj
      exact absurd (congrArg Prod.snd hp) (by simp)
    rw [h.others j hm hji] at hj
    obtain ⟨k, hk⟩ := howned j c hj
    refine ⟨k, ?_⟩
    have hkey : k ∉ m.evidence.map Row.key := fun hmem => by
      obtain ⟨row, hrow, rfl⟩ := List.mem_map.mp hmem
      exact hm ⟨row, hrow, hk⟩
    have hkept := h.kept k hkey fun j' hj' => by
      obtain rfl : j = j' := Option.some.inj (hk.symm.trans hj')
      exact hm
    rw [View.owner, hkept]
    exact hk

theorem Applied.wellFormed (h : Applied v v' m i) (hwf : v.WellFormed)
    (hrows : ∀ row ∈ m.evidence, row ∈ v.rows) : v'.WellFormed := by
  refine ⟨h.ownersOpen hwf.owner_open, h.openOwned hwf.open_owner, fun j r hl => ?_,
    fun k row j hk => ?_, h.mergedOlder hwf.owner_open hwf.merged_older⟩
  · rcases (h.label j r).mp hl with hold | ⟨rfl, -⟩
    · exact h.known (hwf.label_known j r hold)
    · obtain ⟨c, hc, -⟩ := h.survivor
      rw [hc]
      exact Option.some_ne_none _
  · rw [h.rows]
    rcases h.held k row j hk with ⟨j', hold⟩ | ⟨hmem, hkey⟩
    · exact hwf.held_row k row j' hold
    · exact ⟨hrows row hmem, hkey⟩

/-- The components an owner table stands for. -/
def View.Holds (v : View) (H : Set (RuleId × Set Key)) : Prop :=
  Represents v.owner (fun i r => v.label i r = true) H

/-- The edge of a match. -/
def matchEdge (m : RuleMatch) : RuleId × Set Key := (m.ruleId, {k | ∃ row ∈ m.evidence, row.key = k})

/-- **A match is an edge.** Applying it joins the components its evidence meets. -/
theorem Applied.holds (h : Applied v v' m i) (hwf : v.WellFormed) {H : Set (RuleId × Set Key)}
    (hH : v.Holds H) : v'.Holds (insert (matchEdge m) H) := by
  have hkeys : ∀ k, (∃ row ∈ m.evidence, row.key = k) ↔ k ∈ m.evidence.map Row.key := fun k => by
    rw [List.mem_map]
  have hmeets : ∀ j, v.Meets m j ↔ ∃ b ∈ (matchEdge m).2, v.owner b = some j := by
    intro j
    constructor
    · rintro ⟨row, hrow, howner⟩
      exact ⟨row.key, ⟨row, hrow, rfl⟩, howner⟩
    · rintro ⟨_, ⟨row, hrow, rfl⟩, howner⟩
      exact ⟨row, hrow, howner⟩
  refine Represents.join hH (i := i) ?_ ?_ ?_ ?_ ?_ ?_ ?_
  · obtain ⟨row, hrow⟩ := List.exists_mem_of_ne_nil _ h.nonempty
    exact ⟨row.key, row, hrow, rfl⟩
  · rcases h.chosen with hm | ⟨hnone, -⟩
    · exact Or.inl ((hmeets i).mp hm)
    · refine Or.inr fun a ha => ?_
      obtain ⟨c, hc⟩ := hwf.owner_open a i ha
      rw [hnone] at hc
      exact absurd hc (by simp)
  · intro a ha
    exact h.taken a (Or.inl ((hkeys a).mp ha))
  · intro a j ha hb
    exact h.taken a (Or.inr ⟨j, ha, (hmeets j).mpr hb⟩)
  · intro a ha hfree
    have hkept := h.kept a (fun hmem => ha ((hkeys a).mpr hmem)) fun j hj hm => by
      obtain ⟨b, hb, hbj⟩ := (hmeets j).mp hm
      exact hfree b hb j hj hbj
    rw [View.owner, View.owner, hkept]
  · intro r
    rw [h.label i r]
    constructor
    · rintro (hl | ⟨-, rfl | ⟨j, hm, hl⟩⟩)
      · rcases h.chosen with hm | ⟨hnone, -⟩
        · obtain ⟨b, hb, hbi⟩ := (hmeets i).mp hm
          exact Or.inr ⟨b, hb, i, hbi, hl⟩
        · exact absurd hnone (hwf.label_known i r hl)
      · exact Or.inl rfl
      · obtain ⟨b, hb, hbj⟩ := (hmeets j).mp hm
        exact Or.inr ⟨b, hb, j, hbj, hl⟩
    · rintro (rfl | ⟨b, hb, j, hbj, hl⟩)
      · exact Or.inr ⟨rfl, Or.inl rfl⟩
      · exact Or.inr ⟨rfl, Or.inr ⟨j, (hmeets j).mpr ⟨b, hb, hbj⟩, hl⟩⟩
  · intro j hj _ r
    rw [h.label j r]
    exact or_iff_left fun hor => hj hor.1

end Applied

end RiskOps.Telemetry.Store
