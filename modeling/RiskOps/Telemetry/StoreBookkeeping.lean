import RiskOps.Lib.Parents
import RiskOps.Telemetry.StoreConfluence
import RiskOps.Telemetry.StoreOperations

/-!
# RiskOps.Telemetry.StoreBookkeeping — incidents stay consistent with their evidence

**Merges, counters and links of the live SSH store after any sequence of calls.** A match changes
the evidence of one open incident, the one it ends in; every other open incident keeps its evidence
and its counters (`Frame`). The counters of the incidents a call has touched are computed again
before it returns, so between calls they all describe the evidence (`Kept`).
-/

namespace RiskOps.Telemetry.Store

open RiskOps.Lib

/-! ### What describes an incident -/

/-- The columns `_refresh_incident` computes. -/
def Incident.stats (i : Incident) : Nat × ℚ × ℚ := (i.failureCount, i.firstTs, i.lastTs)

/-- Nothing that describes incident `j` changed. -/
structure Frame (db db' : Db) (j : Id) : Prop where
  evidence : evidenceOf db' j = evidenceOf db j
  incident : (db'.incidents.find? j).map Incident.stats = (db.incidents.find? j).map Incident.stats
  details : db'.details.find? j = db.details.find? j
  sources : ∀ s, db'.incidentSources.find? (j, s) = db.incidentSources.find? (j, s)

theorem Frame.refl (db : Db) (j : Id) : Frame db db j := ⟨rfl, rfl, rfl, fun _ => rfl⟩

variable {db' : Db} {j : Id}

theorem Frame.trans {db db'' : Db} (h : Frame db db' j) (h' : Frame db' db'' j) : Frame db db'' j :=
  ⟨h'.evidence.trans h.evidence, h'.incident.trans h.incident, h'.details.trans h.details,
    fun s => (h'.sources s).trans (h.sources s)⟩

theorem frame_touchIncident (db : Db) (i : Id) (now : ℚ) (j : Id) :
    Frame db (touchIncident db i now) j := by
  refine ⟨rfl, ?_, rfl, fun _ => rfl⟩
  simp only [touchIncident, Table.find?_update, Option.map_map]
  congr 1
  funext x
  simp only [Function.comp_apply]
  split <;> rfl

theorem frame_setTriage (db : Db) (i : Id) (state : TriageState) (now : ℚ) (actor : String)
    (cause : TriageCause) (note : Option (List Char)) (reference : Option Reference) (j : Id) :
    Frame db (setTriage db i state now actor cause note reference) j := by
  rw [setTriage]
  split
  · exact Frame.refl db j
  · have hlog : Frame db { db with
        triage := db.triage.replace ⟨i, state, now, actor⟩
        triageLog := db.triageLog ++ [⟨i, now, actor, triageState db i, state, cause, note,
          reference⟩] } j := ⟨rfl, rfl, rfl, fun _ => rfl⟩
    exact hlog.trans (frame_touchIncident _ i now j)

theorem frame_recordRule (db : Db) (i : Id) (m : RuleMatch) (j : Id) :
    Frame db (recordRule db i m) j := ⟨rfl, rfl, rfl, fun _ => rfl⟩

theorem frame_reopen (db : Db) (i : Id) (newest : Option Row) (now : ℚ) (j : Id) :
    Frame db (reopen db i newest now) j := by
  unfold reopen
  split
  · split
    · exact frame_setTriage db i _ now _ _ _ _ j
    · exact Frame.refl db j
  · exact Frame.refl db j

theorem frame_reparent {target other : Id} (db : Db) (now : ℚ) (htarget : j ≠ target)
    (hother : j ≠ other) : Frame db (reparent db target other now) j := by
  refine ⟨?_, ?_, rfl, fun _ => rfl⟩
  · simp only [evidenceOf, Table.select, reparent, Table.update, List.filter_map]
    have hsame : ∀ e : Evidence, ((fun e : Evidence => decide (e.incidentId = j)) ∘ fun e =>
        if e.incidentId = other then { e with incidentId := target } else e) e =
        decide (e.incidentId = j) := by
      intro e
      simp only [Function.comp_apply]
      split
      · rename_i he
        simp [he, Ne.symm htarget, Ne.symm hother]
      · rfl
    rw [List.filter_congr fun e _ => hsame e]
    refine (List.map_congr_left fun e he => ?_).trans (List.map_id _)
    have hj : e.incidentId = j := of_decide_eq_true (List.mem_filter.mp he).2
    rw [if_neg (hj ▸ hother), id]
  · simp only [reparent, Table.find?_update, Option.map_map]
    congr 1
    funext x
    simp only [Function.comp_apply]
    split <;> rfl

theorem frame_mergeIncident {target other : Id} (db : Db) (now : ℚ) (htarget : j ≠ target)
    (hother : j ≠ other) : Frame db (mergeIncident now target db other) j := by
  rw [mergeIncident]
  split
  · exact Frame.refl db j
  · dsimp only
    split
    · exact (frame_reparent db now htarget hother).trans (frame_setTriage _ target _ now _ _ _ _ j)
    · exact frame_reparent db now htarget hother

variable {id : Id}

theorem frame_mergeAll (db : Db) (others : List Id) (now : ℚ) (hid : j ≠ id) (hothers : j ∉ others) :
    Frame db (others.foldl (mergeIncident now id) db) j := by
  induction others generalizing db with
  | nil => exact Frame.refl db j
  | cons other others ih =>
    obtain ⟨hother, hothers⟩ := not_or.mp (mt List.mem_cons.mpr hothers)
    exact (frame_mergeIncident db now hid hother).trans (ih _ hothers)

theorem frame_attachRow (st : Attach) (row : Row) (hid : j ≠ id) :
    Frame st.db (attachRow id st row).db j := by
  refine ⟨?_, rfl, rfl, fun _ => rfl⟩
  simp only [evidenceOf, Table.select, attachRow]
  cases hfind : st.db.evidence.find? row.key with
  | none =>
    have hnew : (st.db.evidence.insertOrIgnore ⟨row, hostnameOf st.db row, id⟩).rows =
        st.db.evidence.rows ++ [⟨row, hostnameOf st.db row, id⟩] := Table.rows_insertOrIgnore hfind
    rw [hnew, List.filter_append]
    simp [Ne.symm hid]
  | some ev =>
    have hnone : st.db.evidence.insert ⟨row, hostnameOf st.db row, id⟩ = none :=
      Table.insert_eq_none_iff.mpr (by rw [show Evidence.key _ = row.key from rfl, hfind]; rfl)
    rw [Table.insertOrIgnore, hnone]
    rfl

theorem frame_attachRows (st : Attach) (rows : List Row) (hid : j ≠ id) :
    Frame st.db (rows.foldl (attachRow id) st).db j := by
  induction rows generalizing st with
  | nil => exact Frame.refl st.db j
  | cons row rows ih => exact (frame_attachRow st row hid).trans (ih _)

/-- Attaching to one incident leaves the others alone. -/
theorem frame_attach (db : Db) (m : RuleMatch) (now : ℚ) (hid : j ≠ id) :
    Frame db (attach db id m now) j := by
  rw [attach]
  refine (frame_attachRows ⟨db, none⟩ m.evidence hid).trans ?_
  exact ((frame_recordRule _ id m j).trans (frame_touchIncident _ id now j)).trans
    (frame_reopen _ id _ now j)

variable {m : RuleMatch}

/-- **A match leaves alone every incident that it neither ends in nor meets.** -/
theorem frame_applyMatch {uuid : Nat → List Char} {now : ℚ} {db : Db}
    (h : applyMatch uuid now db m = .ok (db', id)) (hid : j ≠ id)
    (hlinked : j ∉ linkedIncidents db m.evidence) : Frame db db' j := by
  unfold applyMatch at h
  split at h
  · cases h
  · dsimp only at h
    split at h
    · rename_i target _
      obtain ⟨rfl, rfl⟩ := Prod.mk.inj (Except.ok.inj h)
      exact (frame_mergeAll db _ now hid fun hmem => hlinked (List.mem_filter.mp hmem).1).trans
        (frame_attach _ m now hid)
    · split at h
      · cases h
      · rename_i incidents hinsert
        obtain ⟨rfl, rfl⟩ := Prod.mk.inj (Except.ok.inj h)
        have hnew : Frame db { db with incidents := incidents } j := by
          refine ⟨rfl, ?_, rfl, fun _ => rfl⟩
          show (incidents.find? j).map _ = _
          rw [Table.find?_insert hinsert, if_neg fun heq => hid heq.symm]
        exact hnew.trans (frame_attach _ m now hid)

/-! ### Refreshing an incident -/

/-- The counters of an incident are the aggregates of its evidence. -/
structure Aggregates (db : Db) (i : Id) (x : Incident) (d : Details) : Prop where
  failureCount : x.failureCount =
    ((evidenceOf db i).map Evidence.row).countP fun row => failureType row.eventType
  firstTs : (((evidenceOf db i).map Evidence.row).map Row.eventTs).min? = some x.firstTs
  lastTs : (((evidenceOf db i).map Evidence.row).map Row.eventTs).max? = some x.lastTs
  successCount : d.successCount =
    ((evidenceOf db i).map Evidence.row).countP fun row => successType row.eventType
  evidenceCount : d.evidenceCount = (evidenceOf db i).length
  usernameCount : d.usernameCount = (usernamesOf ((evidenceOf db i).map Evidence.row)).length
  sources : ∀ s, (db.incidentSources.find? (i, s)).map IncidentSource.hostname =
    if s ∈ (evidenceOf db i).map fun e => e.row.sourceId then some (sourceHostname (evidenceOf db i) s)
    else none

/-- An incident with evidence is described by its evidence. -/
def Aggregated (db : Db) (i : Id) : Prop :=
  evidenceOf db i ≠ [] → ∃ x d, db.incidents.find? i = some x ∧ db.details.find? i = some d ∧
    Aggregates db i x d

variable {i : Id}

theorem Aggregated.frame {db : Db} (h : Aggregated db i) (hframe : Frame db db' i) :
    Aggregated db' i := by
  intro hne
  rw [hframe.evidence] at hne
  obtain ⟨x, d, hx, hd, hagg⟩ := h hne
  have hstats := hframe.incident
  rw [hx, Option.map_some, Option.map_eq_some_iff] at hstats
  obtain ⟨x', hx', hsame⟩ := hstats
  simp only [Incident.stats, Prod.mk.injEq] at hsame
  refine ⟨x', d, hx', hframe.details.trans hd, ?_⟩
  constructor
  · rw [hframe.evidence, hsame.1]
    exact hagg.failureCount
  · rw [hframe.evidence, hsame.2.1]
    exact hagg.firstTs
  · rw [hframe.evidence, hsame.2.2]
    exact hagg.lastTs
  · rw [hframe.evidence]
    exact hagg.successCount
  · rw [hframe.evidence]
    exact hagg.evidenceCount
  · rw [hframe.evidence]
    exact hagg.usernameCount
  · intro s
    rw [hframe.evidence, hframe.sources s]
    exact hagg.sources s

/-- Inserting the sources of an incident. -/
theorem find?_foldl_sources (id : Id) (host : List Char → List Char) (sources : List (List Char))
    (t : Table IncidentSource.key) (j : Id) (s : List Char) :
    (sources.foldl (fun t sourceId => t.insertOrIgnore ⟨id, sourceId, host sourceId⟩) t).find? (j, s)
      = (t.find? (j, s)).or (if j = id ∧ s ∈ sources then some ⟨id, s, host s⟩ else none) := by
  induction sources generalizing t with
  | nil => simp
  | cons source sources ih =>
    rw [List.foldl_cons, ih, Table.find?_insertOrIgnore]
    by_cases hkey : IncidentSource.key ⟨id, source, host source⟩ = (j, s)
    · rw [if_pos hkey]
      obtain ⟨rfl, rfl⟩ := Prod.mk.inj hkey
      cases ht : t.find? (id, source) <;> simp
    · rw [if_neg hkey]
      have hne : j = id → s ≠ source := by
        rintro rfl rfl
        exact hkey rfl
      by_cases hj : j = id
      · simp [hj, hne hj]
      · simp [hj]

theorem find?_insertSources (db : Db) (i j : Id) (evidence : List Evidence) (s : List Char) :
    (insertSources db i evidence).incidentSources.find? (j, s) =
      if j = i then
        if s ∈ evidence.map fun e => e.row.sourceId then some ⟨i, s, sourceHostname evidence s⟩
        else none
      else db.incidentSources.find? (j, s) := by
  have hdelete : (db.incidentSources.delete fun x => x.incidentId = i).find? (j, s) =
      if j = i then none else db.incidentSources.find? (j, s) := by
    rw [Table.find?_delete]
    cases hfind : db.incidentSources.find? (j, s) with
    | none => simp
    | some x =>
      have hkey : x.key = (j, s) := Table.find?_key hfind
      have hx : x.incidentId = j := congrArg Prod.fst hkey
      by_cases hj : j = i
      · rw [if_pos hj, Option.filter_some_neg (by simp [hx, hj])]
      · rw [if_neg hj, Option.filter_some_pos (by simp [hx, hj])]
  rw [insertSources]
  dsimp only
  rw [find?_foldl_sources, hdelete]
  by_cases hj : j = i
  · simp [hj, List.mem_dedup]
  · simp [hj]

theorem refreshScore_frame (db : Db) (i : Id) : ∃ rules, refreshScore db i = { db with rules := rules } := by
  rw [refreshScore]
  split
  · exact ⟨_, rfl⟩
  · exact ⟨db.rules, rfl⟩

/-- **Refreshing an incident leaves the others alone**, and no table of records or merges. -/
theorem refreshIncident_frame (db : Db) (i : Id) :
    (∀ j, j ≠ i → Frame db (refreshIncident db i) j) ∧
      (refreshIncident db i).evidence = db.evidence ∧ (refreshIncident db i).events = db.events ∧
      (refreshIncident db i).receipts = db.receipts ∧
      (refreshIncident db i).view.incident = db.view.incident := by
  unfold refreshIncident
  dsimp only
  split
  · rename_i first last _ _
    obtain ⟨rules, hrules⟩ := refreshScore_frame (countIncident (insertSources { db with
      details := db.details.replace (detailsOf i ((evidenceOf db i).map Evidence.row)) } i
        (evidenceOf db i)) i ((evidenceOf db i).map Evidence.row) first last) i
    rw [hrules]
    refine ⟨fun j hj => ⟨rfl, ?_, ?_, fun s => ?_⟩, rfl, rfl, rfl, ?_⟩
    · simp only [countIncident, insertSources, Table.find?_update, Option.map_map]
      cases hfind : db.incidents.find? j with
      | none => rfl
      | some x =>
        have hx : x.incidentId = j := Table.find?_key hfind
        simp [hx, hj]
    · show (db.details.replace _).find? j = _
      rw [Table.find?_replace, if_neg]
      exact fun heq => hj heq.symm
    · exact (find?_insertSources _ i j _ s).trans (if_neg hj)
    · show (countIncident (insertSources _ i _) i _ first last).view.incident = _
      rw [view_countIncident]
      rfl
  · split
    · rename_i x hx
      have hid : x.incidentId = i := Table.find?_key hx
      refine ⟨fun j hj => ⟨rfl, rfl, rfl, fun s => ?_⟩, rfl, rfl, rfl, rfl⟩
      show (db.incidentSources.insertOrIgnore _).find? (j, s) = _
      rw [Table.find?_insertOrIgnore, if_neg]
      exact fun heq => hj (congrArg Prod.fst heq).symm
    · exact ⟨fun j _ => Frame.refl db j, rfl, rfl, rfl, rfl⟩

/-- **A refreshed incident is described by its evidence.** -/
theorem aggregated_refreshIncident {db : Db} (h : (db.incidents.find? i).isSome) :
    Aggregated (refreshIncident db i) i := by
  obtain ⟨x, hx⟩ := Option.isSome_iff_exists.mp h
  have hid : x.incidentId = i := Table.find?_key hx
  obtain ⟨-, hevidence, -⟩ := refreshIncident_frame db i
  intro hne
  have hsame : evidenceOf (refreshIncident db i) i = evidenceOf db i := by
    rw [evidenceOf, evidenceOf, hevidence]
  rw [hsame] at hne
  obtain ⟨times, htimes⟩ : ∃ times, times = ((evidenceOf db i).map Evidence.row).map Row.eventTs :=
    ⟨_, rfl⟩
  have hnil : times ≠ [] := by
    rw [htimes]
    simpa using hne
  obtain ⟨first, hfirst⟩ := Option.isSome_iff_exists.mp (List.isSome_min?_of_ne_nil hnil)
  obtain ⟨last, hlast⟩ := Option.isSome_iff_exists.mp (List.isSome_max?_of_ne_nil hnil)
  rw [htimes] at hfirst hlast
  have hrefresh : refreshIncident db i = refreshScore (countIncident (insertSources { db with
      details := db.details.replace (detailsOf i ((evidenceOf db i).map Evidence.row)) } i
        (evidenceOf db i)) i ((evidenceOf db i).map Evidence.row) first last) i := by
    rw [refreshIncident, hfirst, hlast]
  obtain ⟨rules, hrules⟩ := refreshScore_frame (countIncident (insertSources { db with
      details := db.details.replace (detailsOf i ((evidenceOf db i).map Evidence.row)) } i
        (evidenceOf db i)) i ((evidenceOf db i).map Evidence.row) first last) i
  rw [hrules] at hrefresh
  refine ⟨{ x with
      failureCount := ((evidenceOf db i).map Evidence.row).countP fun row => failureType row.eventType
      firstTs := first
      lastTs := last }, detailsOf i ((evidenceOf db i).map Evidence.row), ?_, ?_, ?_⟩
  · rw [hrefresh]
    simp only [countIncident, insertSources, Table.find?_update, hx, Option.map_some, if_pos hid]
  · rw [hrefresh]
    exact (Table.find?_replace _ _ _).trans (if_pos rfl)
  · refine ⟨?_, ?_, ?_, ?_, ?_, ?_, fun s => ?_⟩
    · rw [hsame]
    · rw [hsame]
      exact hfirst
    · rw [hsame]
      exact hlast
    · rw [hsame]
      rfl
    · rw [hsame]
      exact List.length_map _
    · rw [hsame]
      rfl
    · rw [hsame, hrefresh]
      show ((insertSources _ i (evidenceOf db i)).incidentSources.find? (i, s)).map _ = _
      rw [find?_insertSources, if_pos rfl]
      split <;> rfl

/-! ### Links from raw rows to incidents -/

/-- A raw row carries the incident of its evidence, and none when it is no evidence. -/
def Linked (db : Db) : Prop :=
  ∀ k e, db.events.find? k = some e → e.incidentId = (db.evidence.find? k).map Evidence.incidentId

theorem Linked.congr {db : Db} (h : Linked db) (hevents : db'.events = db.events)
    (hevidence : db'.evidence = db.evidence) : Linked db' := by
  intro k e he
  rw [hevidence]
  exact h k e (hevents ▸ he)

theorem setTriage_tables (db : Db) (i : Id) (state : TriageState) (now : ℚ) (actor : String)
    (cause : TriageCause) (note : Option (List Char)) (reference : Option Reference) :
    (setTriage db i state now actor cause note reference).events = db.events ∧
      (setTriage db i state now actor cause note reference).evidence = db.evidence := by
  rw [setTriage]
  split
  · exact ⟨rfl, rfl⟩
  · exact ⟨rfl, rfl⟩

theorem reopen_tables (db : Db) (i : Id) (newest : Option Row) (now : ℚ) :
    (reopen db i newest now).events = db.events ∧ (reopen db i newest now).evidence = db.evidence := by
  unfold reopen
  split
  · split
    · exact setTriage_tables _ _ _ _ _ _ _ _
    · exact ⟨rfl, rfl⟩
  · exact ⟨rfl, rfl⟩

theorem Linked.mergeIncident {db : Db} (h : Linked db) (now : ℚ) (target other : Id) :
    Linked (mergeIncident now target db other) := by
  have hreparent : Linked (reparent db target other now) := by
    intro k e' he'
    simp only [reparent, Table.find?_update, Option.map_eq_some_iff] at he'
    obtain ⟨e, he, rfl⟩ := he'
    have hold := h k e he
    have hkey : e.key = k := Table.find?_key he
    simp only [reparent, Table.find?_update, Option.map_map, hkey]
    cases hev : db.evidence.find? k with
    | none =>
      rw [hev] at hold
      rw [if_neg (by simp)]
      exact hold
    | some ev =>
      rw [hev, Option.map_some] at hold
      by_cases hinc : ev.incidentId = other
      · rw [if_pos ⟨by rw [hold, hinc], by simp [hinc]⟩]
        simp [hinc]
      · rw [if_neg (by simp [hinc])]
        simp [hinc, hold]
  rw [Store.mergeIncident]
  split
  · exact h
  · dsimp only
    split
    · obtain ⟨hevents, hevidence⟩ := setTriage_tables (reparent db target other now) target
        (triageState (reparent db target other now) other) now "system" .merge none
        (some (.incident other))
      exact hreparent.congr hevents hevidence
    · exact hreparent

theorem Linked.mergeAll {db : Db} (h : Linked db) (now : ℚ) (id : Id) (others : List Id) :
    Linked (others.foldl (Store.mergeIncident now id) db) := by
  induction others generalizing db with
  | nil => exact h
  | cons other others ih => exact ih (h.mergeIncident now id other)

/-- Rows that are evidence already are evidence of `id`. -/
def Taken (db : Db) (id : Id) (rows : List Row) : Prop :=
  ∀ row ∈ rows, ∀ ev, db.evidence.find? row.key = some ev → ev.incidentId = id

variable {st : Attach}

theorem Linked.attachRow (h : Linked st.db) {row : Row} (htaken : Taken st.db id [row]) :
    Linked (attachRow id st row).db := by
  intro k e' he'
  simp only [Store.attachRow, Table.find?_update, Option.map_eq_some_iff] at he'
  obtain ⟨e, he, rfl⟩ := he'
  have hkey : e.key = k := Table.find?_key he
  simp only [Store.attachRow, Table.find?_insertOrIgnore, hkey]
  have hrow : Evidence.key ⟨row, hostnameOf st.db row, id⟩ = row.key := rfl
  rw [hrow]
  by_cases hk : row.key = k
  · rw [if_pos hk.symm, if_pos hk]
    cases hev : st.db.evidence.find? k with
    | none => rfl
    | some ev =>
      have := htaken row (List.mem_singleton_self row) ev (hk ▸ hev)
      simp [this]
  · rw [if_neg (Ne.symm hk), if_neg hk]
    exact h k e he

theorem Taken.attachRow {row : Row} {rows : List Row} (h : Taken st.db id (row :: rows)) :
    Taken (attachRow id st row).db id rows := by
  intro row' hrow' ev hev
  simp only [Store.attachRow, Table.find?_insertOrIgnore] at hev
  split at hev
  · cases hold : st.db.evidence.find? row'.key with
    | none =>
      rw [hold] at hev
      rw [← Option.some.inj hev]
      rfl
    | some old =>
      rw [hold] at hev
      rw [← Option.some.inj hev]
      exact h row' (List.mem_cons_of_mem _ hrow') old hold
  · exact h row' (List.mem_cons_of_mem _ hrow') ev hev

theorem Linked.attachRows (h : Linked st.db) {rows : List Row} (htaken : Taken st.db id rows) :
    Linked (rows.foldl (Store.attachRow id) st).db := by
  induction rows generalizing st with
  | nil => exact h
  | cons row rows ih =>
    refine ih (h.attachRow fun row' hrow' => ?_) htaken.attachRow
    rw [List.mem_singleton.mp hrow']
    exact htaken row List.mem_cons_self

theorem Linked.attach {db : Db} (h : Linked db) (now : ℚ) (htaken : Taken db id m.evidence) :
    Linked (attach db id m now) := by
  rw [Store.attach]
  obtain ⟨hevents, hevidence⟩ := reopen_tables (touchIncident (recordRule
    (m.evidence.foldl (Store.attachRow id) ⟨db, none⟩).db id m) id now) id
    (m.evidence.foldl (Store.attachRow id) ⟨db, none⟩).newest now
  have hstart : Linked (Attach.mk db none).db := h
  exact (hstart.attachRows htaken).congr hevents hevidence

/-! ### What holds between two statements -/

/-- Merges lead to older incidents, evidence belongs to open incidents, rows are linked to them and
have their receipts; every open incident is described by its evidence, unless it is still to be
refreshed. -/
structure Kept (db : Db) (dirty : Id → Prop) : Prop where
  ownersOpen : db.view.OwnersOpen
  mergedOlder : db.view.MergedOlder
  linked : Linked db
  eventReceipts : ∀ k, (db.events.find? k).isSome → (db.receipts.find? k).isSome
  evidenceReceipts : ∀ k, (db.evidence.find? k).isSome → (db.receipts.find? k).isSome
  aggregated : ∀ i c, db.view.incident i = some (c, none) → dirty i ∨ Aggregated db i

theorem kept_init : Kept Db.init fun _ => False := by
  refine ⟨?_, ?_, ?_, ?_, ?_, ?_⟩
  · intro k i h
    simp [View.owner, Db.view, Db.init] at h
  · intro i c t h
    simp [Db.view, Db.init] at h
  · intro k e h
    simp [Db.init] at h
  · intro k h
    simp [Db.init] at h
  · intro k h
    simp [Db.init] at h
  · intro i c h
    simp [Db.view, Db.init] at h

variable {db db' : Db} {dirty dirty' : Id → Prop}

theorem Kept.mono (h : Kept db dirty)
    (hsub : ∀ i c, db.view.incident i = some (c, none) → dirty i → dirty' i) : Kept db dirty' :=
  ⟨h.ownersOpen, h.mergedOlder, h.linked, h.eventReceipts, h.evidenceReceipts,
    fun i c hi => (h.aggregated i c hi).imp_left (hsub i c hi)⟩

/-- Only these tables matter. -/
theorem Kept.congr (h : Kept db dirty) (hincident : db'.view.incident = db.view.incident)
    (hevidence : db'.evidence = db.evidence) (hevents : db'.events = db.events)
    (hreceipts : db'.receipts = db.receipts) (hframe : ∀ j, Frame db db' j) : Kept db' dirty := by
  have howner : db'.view.owner = db.view.owner := by
    funext k
    simp only [View.owner, Db.view, hevidence]
  have hage : db'.view.age = db.view.age := by
    funext i
    rw [View.age, View.age, hincident]
  refine ⟨?_, ?_, h.linked.congr hevents hevidence, ?_, ?_, ?_⟩
  · intro k i hi
    rw [hincident]
    exact h.ownersOpen k i (howner ▸ hi)
  · intro i c t hi
    rw [hincident] at hi ⊢
    rw [hage]
    exact h.mergedOlder i c t hi
  · rw [hevents, hreceipts]
    exact h.eventReceipts
  · rw [hevidence, hreceipts]
    exact h.evidenceReceipts
  · intro i c hi
    rw [hincident] at hi
    exact (h.aggregated i c hi).imp_right fun hagg => hagg.frame (hframe i)

theorem Kept.setTriage (h : Kept db dirty) (i : Id) (state : TriageState) (now : ℚ) (actor : String)
    (cause : TriageCause) (note : Option (List Char)) (reference : Option Reference) :
    Kept (setTriage db i state now actor cause note reference) dirty := by
  obtain ⟨hevents, hevidence⟩ := setTriage_tables db i state now actor cause note reference
  have hview := view_setTriage db i state now actor cause note reference
  exact h.congr (congrArg View.incident hview) hevidence hevents (congrArg View.receipts hview)
    fun j => frame_setTriage db i state now actor cause note reference j

theorem mergeAll_taken (hopen : db.view.OwnersOpen) {rows : List Row} (now : ℚ) :
    Taken (((linkedIncidents db rows).filter (· ≠ id)).foldl (mergeIncident now id) db) id rows := by
  intro row hrow ev hev
  obtain ⟨others, hothers⟩ : ∃ others, others = (linkedIncidents db rows).filter (· ≠ id) := ⟨_, rfl⟩
  rw [← hothers] at hev
  have hnot : id ∉ others := by
    rw [hothers, List.mem_filter]
    simp
  have hheld : (others.foldl (mergeIncident now id) db).view.held row.key =
      some (ev.row, ev.incidentId) := by
    simp [Db.view, hev]
  rw [view_mergeAll db id others hnot now, View.held_mergeAll hnot] at hheld
  obtain ⟨p, hp, hpeq⟩ := Option.map_eq_some_iff.mp hheld
  have howner : db.view.owner row.key = some p.2 := by
    rw [View.owner, hp]
    rfl
  by_cases hid : p.2 = id
  · rw [if_neg (hid ▸ hnot)] at hpeq
    rw [← hid]
    exact (congrArg Prod.snd hpeq).symm
  · have hmem : p.2 ∈ others := by
      rw [hothers, List.mem_filter, mem_linkedIncidents hopen]
      exact ⟨⟨row, hrow, howner⟩, by simpa using hid⟩
    rw [if_pos hmem] at hpeq
    exact (congrArg Prod.snd hpeq).symm

theorem Linked.applyMatch {uuid : Nat → List Char} {now : ℚ} (h : Linked db)
    (hopen : db.view.OwnersOpen) (hok : applyMatch uuid now db m = .ok (db', i)) : Linked db' := by
  unfold Store.applyMatch at hok
  split at hok
  · cases hok
  · dsimp only at hok
    split at hok
    · obtain ⟨rfl, rfl⟩ := Prod.mk.inj (Except.ok.inj hok)
      exact (h.mergeAll now _ _).attach now (mergeAll_taken hopen now)
    · rename_i hnone
      split at hok
      · cases hok
      · rename_i incidents hinsert
        obtain ⟨rfl, rfl⟩ := Prod.mk.inj (Except.ok.inj hok)
        have hstart : Linked { db with incidents := incidents } := h.congr rfl rfl
        refine hstart.attach now fun row hrow ev hev => ?_
        -- No row of the match is evidence: it links no incident.
        have hnil := oldest_eq_none hnone
        have hev' : db.evidence.find? row.key = some ev := hev
        have howner : db.view.owner row.key = some ev.incidentId := by
          simp [View.owner, Db.view, hev']
        have hmem := (mem_linkedIncidents hopen).mpr ⟨row, hrow, howner⟩
        rw [hnil] at hmem
        exact absurd hmem List.not_mem_nil

theorem events_isSome_iff {k : Key} :
    (db.events.find? k).isSome ↔ ∃ row ∈ db.view.rows, row.key = k := by
  rw [Option.isSome_iff_exists]
  simp only [Table.find?_eq_some_iff, Db.view, List.mem_map]
  constructor
  · rintro ⟨e, he, rfl⟩
    exact ⟨e.row, ⟨e, he, rfl⟩, rfl⟩
  · rintro ⟨_, ⟨e, he, rfl⟩, rfl⟩
    exact ⟨e, he, rfl⟩

theorem evidence_isSome_iff {k : Key} :
    (db.evidence.find? k).isSome ↔ ∃ row j, db.view.held k = some (row, j) := by
  cases hfind : db.evidence.find? k with
  | none => simp [Db.view, hfind]
  | some ev => simp [Db.view, hfind]

section Matches

variable {uuid : Nat → List Char} {now : ℚ}

/-- **One match**: only the incident it ends in is to be refreshed. -/
theorem Kept.applyMatch (h : Kept db dirty) (hrows : ∀ row ∈ m.evidence, row ∈ db.view.rows)
    (hok : applyMatch uuid now db m = .ok (db', i)) :
    Kept db' (fun j => dirty j ∨ j = i) ∧ db'.view.rows = db.view.rows := by
  have happlied := applyMatch_applied h.ownersOpen hok
  have hreceipts : db'.receipts = db.receipts := happlied.receipts
  refine ⟨⟨happlied.ownersOpen h.ownersOpen, happlied.mergedOlder h.ownersOpen h.mergedOlder,
    h.linked.applyMatch h.ownersOpen hok, fun k hk => ?_, fun k hk => ?_, fun j c hj => ?_⟩,
    happlied.rows⟩
  · rw [events_isSome_iff, happlied.rows, ← events_isSome_iff] at hk
    rw [hreceipts]
    exact h.eventReceipts k hk
  · rw [hreceipts]
    obtain ⟨row, j, hheld⟩ := Iff.mp evidence_isSome_iff hk
    rcases happlied.held k row j hheld with ⟨j', hold⟩ | ⟨hmem, rfl⟩
    · exact h.evidenceReceipts k (Iff.mpr evidence_isSome_iff ⟨row, j', hold⟩)
    · exact h.eventReceipts _ (Iff.mpr events_isSome_iff ⟨row, hrows row hmem, rfl⟩)
  · by_cases hji : j = i
    · exact Or.inl (Or.inr hji)
    · have hfree : ¬ db.view.Meets m j := by
        intro hmeets
        rw [happlied.absorbed j hmeets hji] at hj
        obtain ⟨p, -, hp⟩ := Option.map_eq_some_iff.mp hj
        simp at hp
      rw [happlied.others j hfree hji] at hj
      refine (h.aggregated j c hj).imp Or.inl fun hagg => hagg.frame (frame_applyMatch hok hji ?_)
      exact fun hmem => hfree ((mem_linkedIncidents h.ownersOpen).mp hmem)

theorem Kept.applyMatches {ms : List RuleMatch} {changed changed' : List Id}
    (h : Kept db (· ∈ changed)) (hrows : ∀ m ∈ ms, ∀ row ∈ m.evidence, row ∈ db.view.rows)
    (hok : applyMatches uuid now (db, changed) ms = .ok (db', changed')) :
    Kept db' (· ∈ changed') ∧ db'.view.rows = db.view.rows := by
  induction ms generalizing db changed with
  | nil =>
    obtain ⟨rfl, rfl⟩ := Prod.mk.inj (Except.ok.inj hok)
    exact ⟨h, rfl⟩
  | cons m ms ih =>
    rw [Store.applyMatches, bind_eq_ok] at hok
    obtain ⟨⟨db₁, i⟩, happly, hrest⟩ := hok
    obtain ⟨hkept, hsame⟩ := h.applyMatch (hrows m List.mem_cons_self) happly
    have hkept' : Kept db₁ (· ∈ i :: changed) :=
      hkept.mono fun j _ _ hj => List.mem_cons.mpr hj.symm
    obtain ⟨hend, hrows'⟩ := ih hkept' (fun m' hm' row hrow => by
      rw [hsame]
      exact hrows m' (List.mem_cons_of_mem _ hm') row hrow) hrest
    exact ⟨hend, hrows'.trans hsame⟩

theorem Kept.runQueries {qs : List Query} {changed changed' : List Id}
    (h : Kept db (· ∈ changed))
    (hok : runQueries uuid now (db, changed) qs = .ok (db', changed')) :
    Kept db' (· ∈ changed') := by
  induction qs generalizing db changed with
  | nil =>
    obtain ⟨rfl, rfl⟩ := Prod.mk.inj (Except.ok.inj hok)
    exact h
  | cons q qs ih =>
    rw [Store.runQueries, bind_eq_ok] at hok
    obtain ⟨⟨db₁, changed₁⟩, hmatches, hrest⟩ := hok
    dsimp only at hmatches
    refine ih (h.applyMatches (fun m hm row hrow => ?_) hmatches).1 hrest
    have hmem := (detectMatches_evidence hm).2 row hrow
    rw [candidates_eq] at hmem
    exact (mem_candidateRows.mp hmem).1

/-- **Refreshing**: the incidents that were to be refreshed are described by their evidence. -/
theorem Kept.refreshAll {ids : List Id} (h : Kept db (· ∈ ids)) :
    Kept (ids.foldl refreshIncident db) fun _ => False := by
  induction ids generalizing db with
  | nil => exact h.mono fun i _ _ hi => absurd hi List.not_mem_nil
  | cons i ids ih =>
    obtain ⟨hframe, hevidence, hevents, hreceipts, hincident⟩ := refreshIncident_frame db i
    refine ih ?_
    have howner : (refreshIncident db i).view.owner = db.view.owner := by
      funext k
      simp only [View.owner, Db.view, hevidence]
    have hage : (refreshIncident db i).view.age = db.view.age := by
      funext j
      rw [View.age, View.age, hincident]
    refine ⟨fun k j hj => ?_, fun j c t hj => ?_, h.linked.congr hevents hevidence, ?_, ?_,
      fun j c hj => ?_⟩
    · rw [hincident]
      exact h.ownersOpen k j (howner ▸ hj)
    · rw [hincident] at hj ⊢
      rw [hage]
      exact h.mergedOlder j c t hj
    · rw [hevents, hreceipts]
      exact h.eventReceipts
    · rw [hevidence, hreceipts]
      exact h.evidenceReceipts
    · rw [hincident] at hj
      by_cases hji : j = i
      · have hsome : (db.incidents.find? i).isSome := by
          obtain ⟨x, hx, -⟩ := Option.map_eq_some_iff.mp hj
          rw [← hji, hx]
          rfl
        rw [hji]
        exact Or.inr (aggregated_refreshIncident hsome)
      · rcases h.aggregated j c hj with hmem | hagg
        · exact Or.inl ((List.mem_cons.mp hmem).resolve_left hji)
        · exact Or.inr (hagg.frame (hframe j hji))

/-- Open incidents are their own canonical incident. -/
theorem Kept.canonical {changed : List Id} (h : Kept db (· ∈ changed)) :
    Kept db (· ∈ (changed.map (canonicalIncident db)).dedup) := by
  refine h.mono fun i c hi hmem => ?_
  rw [List.mem_dedup, List.mem_map]
  exact ⟨i, hmem, canonicalIncident_of_open hi⟩

end Matches

/-! ### Calls -/

variable {c : Call}

theorem Kept.ingestRecord {st st' : Intake} {r : Normalized} (h : Kept st.db dirty)
    (hok : ingestRecord c st r = .ok st') : Kept st'.db dirty := by
  unfold Store.ingestRecord at hok
  split at hok
  · split at hok
    · obtain rfl := Except.ok.inj hok
      exact h
    · cases hok
  · rename_i hnone
    dsimp only at hok
    split at hok
    · rename_i receipts events hreceipts hevents
      obtain rfl := Except.ok.inj hok
      have hfree : st.db.evidence.find? (c.sourceId, r.raw.eventId) = none := by
        cases hev : st.db.evidence.find? (c.sourceId, r.raw.eventId) with
        | none => rfl
        | some ev =>
          have hsome := h.evidenceReceipts (c.sourceId, r.raw.eventId) (by rw [hev]; rfl)
          rw [hnone] at hsome
          cases hsome
      refine ⟨h.ownersOpen, h.mergedOlder, fun k e he => ?_, fun k hk => ?_, fun k hk => ?_,
        fun i c hi => (h.aggregated i c hi).imp_right fun hagg =>
          hagg.frame ⟨rfl, rfl, rfl, fun _ => rfl⟩⟩
      · rw [Table.find?_insert hevents] at he
        split at he
        · rename_i hkey
          obtain rfl := Option.some.inj he
          have hk : (c.sourceId, r.raw.eventId) = k := hkey
          show none = (st.db.evidence.find? k).map _
          rw [← hk, hfree]
          rfl
        · exact h.linked k e he
      · show (receipts.find? k).isSome
        rw [Table.find?_insert hreceipts]
        split
        · rfl
        · rename_i hkey
          refine h.eventReceipts k ?_
          rw [Table.find?_insert hevents, if_neg] at hk
          · exact hk
          · exact hkey
      · show (receipts.find? k).isSome
        rw [Table.find?_insert hreceipts]
        split
        · rfl
        · exact h.evidenceReceipts k hk
    · cases hok

theorem Kept.ingestRecords {st st' : Intake} {rs : List Normalized} (h : Kept st.db dirty)
    (hok : ingestRecords c st rs = .ok st') : Kept st'.db dirty := by
  induction rs generalizing st with
  | nil =>
    obtain rfl := Except.ok.inj hok
    exact h
  | cons r rs ih =>
    rw [Store.ingestRecords, bind_eq_ok] at hok
    obtain ⟨st₁, hfirst, hrest⟩ := hok
    exact ih (h.ingestRecord hfirst) hrest

variable {response : Response}

/-- The incidents of a call are computed and refreshed at its end. -/
theorem Kept.ingest {lib : Library} (h : Kept db fun _ => False)
    (hok : ingest lib db c = .ok (db', response)) : Kept db' fun _ => False := by
  rw [Store.ingest, bind_eq_ok] at hok
  obtain ⟨k, -, hok⟩ := hok
  split at hok
  · split at hok
    · obtain ⟨rfl, -⟩ := Prod.mk.inj (Except.ok.inj hok)
      exact h.congr rfl rfl rfl rfl fun j => ⟨rfl, rfl, rfl, fun _ => rfl⟩
    · cases hok
  · rw [commitBatch, bind_eq_ok] at hok
    obtain ⟨st, hloop, hok⟩ := hok
    obtain ⟨⟨db₁, changed⟩, hdetect, hok⟩ := bind_eq_ok.mp hok
    have hstart : Kept (touchSource db c k.error) fun _ => False :=
      h.congr rfl rfl rfl rfl fun j => ⟨rfl, rfl, rfl, fun _ => rfl⟩
    have hst : Kept st.db fun _ => False := hstart.ingestRecords hloop
    rw [detectAdvanced, bind_eq_ok] at hdetect
    obtain ⟨⟨db₂, changed₂⟩, hqueries, heq⟩ := hdetect
    obtain ⟨rfl, rfl⟩ := Prod.mk.inj (Except.ok.inj heq)
    have hkept : Kept db₂ (· ∈ changed₂) :=
      (hst.mono fun _ _ _ hfalse => absurd hfalse id).runQueries hqueries
    have hrefreshed := hkept.canonical.canonical.refreshAll
    dsimp only at hok
    split at hok
    · obtain ⟨rfl, -⟩ := Prod.mk.inj (Except.ok.inj hok)
      exact hrefreshed.congr rfl rfl rfl rfl fun j => ⟨rfl, rfl, rfl, fun _ => rfl⟩
    · cases hok

theorem Kept.rebuildPeer {uuid : Nat → List Char} {now : ℚ} {peer : List Char}
    (h : Kept db fun _ => False) (hok : rebuildPeer uuid now db peer = .ok db') :
    Kept db' fun _ => False := by
  rw [Store.rebuildPeer, bind_eq_ok] at hok
  obtain ⟨⟨db₁, changed⟩, hmatches, heq⟩ := hok
  rw [← Except.ok.inj heq]
  have hstart : Kept db (· ∈ ([] : List Id)) := h.mono fun _ _ _ hfalse => absurd hfalse id
  refine (hstart.applyMatches (fun m hm row hrow => ?_) hmatches).1.canonical.refreshAll
  have hmem := mem_orderRows.mp ((detectMatches_evidence hm).2 row hrow)
  rw [peerRows_eq] at hmem
  exact (List.mem_filter.mp hmem).1

/-- A rebuild keeps the books. -/
theorem Kept.rebuildPeers {uuid : Nat → List Char} {now : ℚ} {ps : List (List Char)}
    (h : Kept db fun _ => False) (hok : rebuildPeers uuid now db ps = .ok db') :
    Kept db' fun _ => False := by
  induction ps generalizing db with
  | nil =>
    obtain rfl := Except.ok.inj hok
    exact h
  | cons peer ps ih =>
    rw [Store.rebuildPeers, bind_eq_ok] at hok
    obtain ⟨db₁, hpeer, hrest⟩ := hok
    exact ih (h.rebuildPeer hpeer) hrest

/-- What every change of an operator preserves, `set_triage` preserves. -/
theorem triageAll_preserves {P : Db → Prop} {r : TriageRequest} {state : TriageState}
    {note : Option (List Char)} {ids : List (List Char)} {results : List TriageResult}
    (hset : ∀ db i, (db.incidents.find? i).isSome → P db →
      P (setTriage db i state r.now r.actor .manual note none)) (h : P db)
    (hok : triageAll r state note db ids = .ok (db', results)) : P db' := by
  induction ids generalizing db results with
  | nil =>
    obtain ⟨rfl, -⟩ := Prod.mk.inj (Except.ok.inj hok)
    exact h
  | cons id ids ih =>
    rw [triageAll, bind_eq_ok] at hok
    obtain ⟨⟨db₁, result⟩, hone, hok⟩ := hok
    obtain ⟨⟨db₂, results₂⟩, hrest, heq⟩ := bind_eq_ok.mp hok
    obtain ⟨rfl, -⟩ := Prod.mk.inj (Except.ok.inj heq)
    refine ih ?_ hrest
    rw [triageOne, bind_eq_ok] at hone
    obtain ⟨requested, -, hone⟩ := hone
    dsimp only at hone
    split at hone
    · obtain ⟨rfl, -⟩ := Prod.mk.inj (Except.ok.inj hone)
      exact h
    · rename_i hknown
      split at hone
      · obtain ⟨rfl, -⟩ := Prod.mk.inj (Except.ok.inj hone)
        exact h
      · split at hone
        · obtain ⟨rfl, -⟩ := Prod.mk.inj (Except.ok.inj hone)
          exact h
        · obtain ⟨rfl, -⟩ := Prod.mk.inj (Except.ok.inj hone)
          exact hset _ _ (by simpa [Option.isSome_iff_ne_none] using hknown) h

theorem setTriageLive_preserves {P : Db → Prop} {r : TriageRequest} {results : List TriageResult}
    (hset : ∀ db i state note, (db.incidents.find? i).isSome → P db →
      P (setTriage db i state r.now r.actor .manual note none))
    (h : P db) (hok : setTriageLive r db = .ok (db', results)) : P db' := by
  rw [setTriageLive] at hok
  split at hok
  · cases hok
  · split at hok
    · cases hok
    · obtain ⟨_, -, hok⟩ := bind_eq_ok.mp hok
      obtain ⟨note, -, hok⟩ := bind_eq_ok.mp hok
      exact triageAll_preserves (fun d i hi hd => hset d i _ note hi hd) h hok

theorem resolveBlocked_preserves {P : Db → Prop} {r : BlockReport} {ids : List Id}
    (hset : ∀ d i note reference, (db.incidents.find? i).isSome → P d →
      P (setTriage d i .resolved r.now r.actor .block note (some (.request reference))))
    (h : P db) (hok : resolveBlocked r db = .ok (db', ids)) : P db' := by
  rw [resolveBlocked] at hok
  split at hok
  · cases hok
  · obtain ⟨covered, -, hok⟩ := bind_eq_ok.mp hok
    split at hok
    · obtain ⟨rfl, -⟩ := Prod.mk.inj (Except.ok.inj hok)
      exact h
    · obtain ⟨_, -, hok⟩ := bind_eq_ok.mp hok
      obtain ⟨reference, -, hok⟩ := bind_eq_ok.mp hok
      obtain ⟨note, -, hok⟩ := bind_eq_ok.mp hok
      obtain ⟨rfl, -⟩ := Prod.mk.inj (Except.ok.inj hok)
      refine List.foldlRecOn (motive := P) _ _ h fun d hd i hi => hset d i note reference ?_ hd
      obtain ⟨x, hx, rfl⟩ := List.mem_map.mp ((List.mem_insertionSort _).mp hi)
      rw [Table.find?_of_mem (Table.mem_select.mp hx).1]
      rfl

/-- Deleting raw rows changes no incident. -/
theorem Kept.delete (h : Kept db dirty) (p : StoredEvent → Bool) :
    Kept { db with events := db.events.delete p } dirty := by
  have hold : ∀ k e, (db.events.delete p).find? k = some e → db.events.find? k = some e := by
    intro k e he
    rw [Table.find?_delete] at he
    exact (Option.filter_eq_some_iff.mp he).1
  refine ⟨h.ownersOpen, h.mergedOlder, fun k e he => h.linked k e (hold k e he), fun k hk => ?_,
    h.evidenceReceipts, fun i c hi => (h.aggregated i c hi).imp_right fun hagg =>
      hagg.frame ⟨rfl, rfl, rfl, fun _ => rfl⟩⟩
  obtain ⟨e, he⟩ := Option.isSome_iff_exists.mp hk
  exact h.eventReceipts k (by rw [hold k e he]; rfl)

variable {env : Env} {s : Live}

theorem ingestLive_ok {d : Delivery} {s' : Live} (h : ingestLive env d s = (.ok response, s')) :
    ∃ db, ingest env.lib s.db d.call = .ok (db, response) ∧
      (s' = { s with db := db } ∨ s' = cleanupEvents env d.call.now (some ingestCleanupLimit)
        { s with db := db }) := by
  rw [ingestLive, connection] at h
  split at h
  · rename_i a s₁ hbody
    obtain ⟨ha, rfl⟩ := Prod.mk.inj h
    obtain rfl := Except.ok.inj ha
    rw [ingestBody] at hbody
    split at hbody
    · cases (Prod.mk.inj hbody).1
    · rename_i db₁ response₁ hok
      split at hbody
      · obtain ⟨hr, rfl⟩ := Prod.mk.inj hbody
        obtain rfl := Except.ok.inj hr
        exact ⟨db₁, hok, Or.inl rfl⟩
      · split at hbody
        · cases (Prod.mk.inj hbody).1
        · obtain ⟨hr, rfl⟩ := Prod.mk.inj hbody
          obtain rfl := Except.ok.inj hr
          refine ⟨db₁, hok, ?_⟩
          rw [dailyCleanup]
          split
          · exact Or.inl rfl
          · exact Or.inr rfl
  · cases (Prod.mk.inj h).1

theorem Kept.ingestLive {d : Delivery} {s' : Live} (h : Kept s.db fun _ => False)
    (hok : ingestLive env d s = (.ok response, s')) : Kept s'.db fun _ => False := by
  obtain ⟨db₁, hingest, rfl | rfl⟩ := ingestLive_ok hok
  · exact h.ingest hingest
  · exact (h.ingest hingest).delete _

/-- **One call.** -/
theorem Kept.next (h : Kept s.db fun _ => False) (op : Op) :
    Kept (nextLive env s op).db fun _ => False := by
  rw [nextLive]
  split
  · rename_i s' hok
    cases op with
    | ingest d =>
      rw [applyOp] at hok
      split at hok
      · rename_i response s₁ hlive
        obtain rfl := Except.ok.inj hok
        exact h.ingestLive hlive
      · cases hok
    | rebuild uuid now =>
      obtain ⟨⟨db₁, rebuilt⟩, hrebuild, rfl⟩ := map_eq_ok.mp hok
      rw [rebuildDetections, bind_eq_ok] at hrebuild
      obtain ⟨db₂, hpeers, heq⟩ := hrebuild
      obtain ⟨rfl, -⟩ := Prod.mk.inj (Except.ok.inj heq)
      exact h.rebuildPeers hpeers
    | setTriage r =>
      obtain ⟨⟨db₁, results⟩, hset, rfl⟩ := map_eq_ok.mp hok
      exact setTriageLive_preserves (P := fun db => Kept db fun _ => False)
        (fun d i state note _ hd => hd.setTriage i state _ _ _ note _) h hset
    | resolveBlocked r =>
      obtain ⟨⟨db₁, ids⟩, hresolve, rfl⟩ := map_eq_ok.mp hok
      exact resolveBlocked_preserves (P := fun db => Kept db fun _ => False)
        (fun d i note reference _ hd => hd.setTriage i _ _ _ _ note _) h hresolve
    | cleanup now =>
      obtain rfl := Except.ok.inj hok
      exact h.delete _
  · exact h

/-- **Every reachable store keeps its books.** -/
theorem kept_run (env : Env) (ops : List Op) : Kept (liveAfter env ops).db fun _ => False :=
  run_preserves (P := fun s : Live => Kept s.db fun _ => False) (fun _ op h => h.next op) kept_init

/-! ### Merges lead to an open incident -/

/-- What an incident was merged into. -/
def mergedInto (db : Db) (i : Id) : Option Id := (db.incidents.find? i).bind Incident.mergedInto

/-- The walk of the source climbs the merges. -/
theorem followMerges_eq_climb (db : Db) (fuel : Nat) (i : Id) :
    followMerges db.incidents fuel i = climb (mergedInto db) fuel i := by
  induction fuel generalizing i with
  | zero => rfl
  | succ fuel ih =>
    cases ht : mergedInto db i with
    | none =>
      have ht' : (db.incidents.find? i).bind Incident.mergedInto = none := ht
      rw [climb_root ht, followMerges, ht']
    | some t =>
      have ht' : (db.incidents.find? i).bind Incident.mergedInto = some t := ht
      rw [climb_succ ht, followMerges, ht']
      exact ih t

theorem mergedInto_eq_some {t : Id} (h : mergedInto db i = some t) :
    ∃ c, db.view.incident i = some (c, some t) := by
  obtain ⟨x, hx, ht⟩ := Option.bind_eq_some_iff.mp h
  exact ⟨x.createdAt, by simp [Db.view, hx, ht]⟩

/-- Merges go to older incidents of the table. -/
theorem descends_mergedInto (h : db.view.MergedOlder) :
    Descends (mergedInto db) db.view.age (db.incidents.rows.map Incident.incidentId).toFinset := by
  constructor
  · intro i t ht
    obtain ⟨c, hc⟩ := mergedInto_eq_some ht
    obtain ⟨x, hx⟩ := Option.ne_none_iff_exists'.mp (h i c t hc).1
    obtain ⟨y, hy, -⟩ := Option.map_eq_some_iff.mp hx
    rw [List.mem_toFinset]
    exact List.mem_map.mpr ⟨y, Table.mem_of_find? hy, Table.find?_key hy⟩
  · intro i t ht
    obtain ⟨c, hc⟩ := mergedInto_eq_some ht
    exact (h i c t hc).2

theorem card_incidents_le (db : Db) :
    (db.incidents.rows.map Incident.incidentId).toFinset.card ≤ db.incidents.rows.length := by
  refine (List.toFinset_card_le _).trans ?_
  rw [List.length_map]

theorem mergedInto_canonicalIncident (h : db.view.MergedOlder) (i : Id) :
    mergedInto db (canonicalIncident db i) = none := by
  rw [canonicalIncident, followMerges_eq_climb]
  exact (descends_mergedInto h).parent_climb (card_incidents_le db) i

theorem canonicalIncident_known (h : db.view.MergedOlder) (hi : (db.incidents.find? i).isSome)
    (fuel : Nat) : (db.incidents.find? (climb (mergedInto db) fuel i)).isSome := by
  induction fuel generalizing i with
  | zero => exact hi
  | succ fuel ih =>
    cases ht : mergedInto db i with
    | none =>
      rw [climb_root ht]
      exact hi
    | some t =>
      rw [climb_succ ht]
      refine ih ?_
      obtain ⟨c, hc⟩ := mergedInto_eq_some ht
      obtain ⟨x, hx⟩ := Option.ne_none_iff_exists'.mp (h i c t hc).1
      obtain ⟨y, hy, -⟩ := Option.map_eq_some_iff.mp hx
      rw [hy]
      rfl

/-- **Incident bookkeeping stays consistent with evidence.** After every sequence of calls of
`ingest`, `rebuild_detections`, `set_triage`, `resolve_blocked_incidents` and `cleanup`: no incident
reaches itself by merges, and from every incident the loop of `_canonical_incident` ends in an
incident that is not merged, however often it may run; evidence belongs to incidents that are not
merged; a raw row carries the incident of its evidence and none when it has none; and the counters,
times and sources of an incident that is not merged and has evidence are the aggregates of its
evidence. -/
theorem bookkeeping_consistent (env : Env) (ops : List Op) :
    let db := (liveAfter env ops).db
    (∀ i, ¬ Relation.TransGen (fun j t => mergedInto db j = some t) i i) ∧
    (∀ x ∈ db.incidents, ∃ y, db.incidents.find? (canonicalIncident db x.incidentId) = some y ∧
      y.mergedInto = none ∧
      ∀ fuel, db.incidents.rows.length ≤ fuel →
        followMerges db.incidents fuel x.incidentId = canonicalIncident db x.incidentId) ∧
    (∀ e ∈ db.evidence, ∃ x ∈ db.incidents, x.incidentId = e.incidentId ∧ x.mergedInto = none) ∧
    (∀ e ∈ db.events, e.incidentId = (db.evidence.find? e.key).map Evidence.incidentId) ∧
    ∀ x ∈ db.incidents, x.mergedInto = none → evidenceOf db x.incidentId ≠ [] →
      ∃ d ∈ db.details, d.incidentId = x.incidentId ∧ Aggregates db x.incidentId x d := by
  intro db
  have h : Kept db fun _ => False := kept_run env ops
  have hdescends := descends_mergedInto h.mergedOlder
  refine ⟨hdescends.not_reaches_self, fun x hx => ?_, fun e he => ?_, fun e he => ?_,
    fun x hx hopen hne => ?_⟩
  · have hfind : db.incidents.find? x.incidentId = some x := Table.find?_of_mem hx
    have hknown := canonicalIncident_known h.mergedOlder (i := x.incidentId) (by rw [hfind]; rfl)
      db.incidents.rows.length
    rw [← followMerges_eq_climb] at hknown
    obtain ⟨y, hy⟩ := Option.isSome_iff_exists.mp hknown
    have hroot := mergedInto_canonicalIncident h.mergedOlder x.incidentId
    refine ⟨y, hy, ?_, fun fuel hfuel => ?_⟩
    · have hy' : db.incidents.find? (canonicalIncident db x.incidentId) = some y := hy
      rw [mergedInto, hy'] at hroot
      exact hroot
    · rw [canonicalIncident, followMerges_eq_climb, followMerges_eq_climb]
      exact climb_stable (hdescends.parent_climb (card_incidents_le db) _) hfuel
  · have howner : db.view.owner e.key = some e.incidentId := by
      simp [View.owner, Db.view, Table.find?_of_mem he]
    obtain ⟨c, hc⟩ := h.ownersOpen e.key e.incidentId howner
    obtain ⟨x, hx, hpair⟩ := Option.map_eq_some_iff.mp hc
    exact ⟨x, Table.mem_of_find? hx, Table.find?_key hx, congrArg Prod.snd hpair⟩
  · exact h.linked e.key e (Table.find?_of_mem he)
  · have hfind : db.incidents.find? x.incidentId = some x := Table.find?_of_mem hx
    have hview : db.view.incident x.incidentId = some (x.createdAt, none) := by
      simp [Db.view, hfind, hopen]
    obtain ⟨x', d, hx', hd, hagg⟩ := ((h.aggregated _ _ hview).resolve_left id) hne
    obtain rfl : x = x' := Option.some.inj (hfind.symm.trans hx')
    exact ⟨d, Table.mem_of_find? hd, Table.find?_key hd, hagg⟩

end RiskOps.Telemetry.Store
