import RiskOps.Telemetry.StoreBookkeeping

/-!
# RiskOps.Telemetry.StoreTriage — a handled label and what happens under it

**The triage state of incidents over runs of the live SSH store.** `_set_triage` is the only writer,
so the log of an incident is a chain of its states. Merges take the least handled state of the
incidents they join, and activity after a resolution reopens it.

A call applies several matches, and an incident that took a row in one of them can be merged in the
next. `Watch` follows a call from its first database: the state of an open incident is pending, or
comes from the incidents it absorbed, and a row that was added lies in a pending incident or came
through one whose label covered it.
-/

namespace RiskOps.Telemetry.Store

open RiskOps.Lib

/-! ### The log -/

/-- The entries lead from one state to another, each starting where the one before it ended. -/
def TriageChain : TriageState → List TriageEntry → TriageState → Prop
  | first, [], last => first = last
  | first, e :: es, last => e.fromState = first ∧ TriageChain e.toState es last

theorem TriageChain.snoc {first last : TriageState} {es : List TriageEntry}
    (h : TriageChain first es last) {e : TriageEntry} (he : e.fromState = last) :
    TriageChain first (es ++ [e]) e.toState := by
  induction es generalizing first with
  | nil => exact ⟨he.trans h.symm, rfl⟩
  | cons e' es ih => exact ⟨h.1, ih h.2⟩

/-- The log of an incident. -/
def triageLogOf (db : Db) (i : Id) : List TriageEntry := db.triageLog.filter fun e => e.incidentId = i

/-- The log of every incident leads to its state, and only incidents have one. -/
structure Logged (db : Db) : Prop where
  chain : ∀ i, TriageChain .pending (triageLogOf db i) (triageState db i)
  known : ∀ i, (db.triage.find? i).isSome → (db.incidents.find? i).isSome

theorem logged_init : Logged Db.init := by
  refine ⟨fun i => rfl, fun i h => ?_⟩
  simp [Db.init] at h

section SetTriage

variable (db : Db) (i : Id) (state : TriageState) (now : ℚ) (actor : String) (cause : TriageCause)
  (note : Option (List Char)) (reference : Option Reference)

theorem find?_setTriage (j : Id) :
    (setTriage db i state now actor cause note reference).triage.find? j =
      if triageState db i ≠ state ∧ j = i then some ⟨i, state, now, actor⟩ else db.triage.find? j := by
  rw [setTriage]
  by_cases hsame : triageState db i = state
  · simp [hsame]
  · simp only [hsame, if_false, touchIncident, Table.find?_replace, ne_eq, not_false_eq_true,
      true_and]
    by_cases hj : j = i
    · simp [hj]
    · simp [hj, Ne.symm hj]

theorem triageState_setTriage (j : Id) :
    triageState (setTriage db i state now actor cause note reference) j =
      if j = i then state else triageState db j := by
  rw [triageState, find?_setTriage]
  by_cases hj : j = i
  · by_cases hsame : triageState db i = state
    · rw [if_neg fun h => h.1 hsame, if_pos hj, hj]
      exact hsame
    · simp [hj, hsame]
  · simp [hj, triageState]

theorem isSome_incident_setTriage (j : Id) :
    ((setTriage db i state now actor cause note reference).incidents.find? j).isSome =
      (db.incidents.find? j).isSome := by
  rw [setTriage]
  split
  · rfl
  · simp [touchIncident]

theorem triageLogOf_setTriage (j : Id) :
    triageLogOf (setTriage db i state now actor cause note reference) j =
      triageLogOf db j ++ if triageState db i ≠ state ∧ j = i then
        [⟨i, now, actor, triageState db i, state, cause, note, reference⟩] else [] := by
  rw [triageLogOf, setTriage]
  by_cases hsame : triageState db i = state
  · simp [hsame, triageLogOf]
  · by_cases hj : j = i
    · simp [hsame, hj, touchIncident, triageLogOf, List.filter_append]
    · simp [hsame, hj, Ne.symm hj, touchIncident, triageLogOf, List.filter_append]

end SetTriage

variable {i : Id}

theorem Logged.setTriage {db : Db} (h : Logged db) (hi : (db.incidents.find? i).isSome)
    (state : TriageState) (now : ℚ) (actor : String) (cause : TriageCause)
    (note : Option (List Char)) (reference : Option Reference) :
    Logged (setTriage db i state now actor cause note reference) := by
  constructor
  · intro j
    rw [triageLogOf_setTriage, triageState_setTriage]
    by_cases hj : j = i
    · subst hj
      by_cases hsame : triageState db j = state
      · simpa [hsame] using h.chain j
      · simpa [hsame] using (h.chain j).snoc rfl
    · simpa [hj] using h.chain j
  · intro j hj
    rw [isSome_incident_setTriage]
    rw [find?_setTriage] at hj
    split at hj
    · rename_i hcond
      rw [hcond.2]
      exact hi
    · exact h.known j hj

/-! ### Merges -/

theorem triageState_reparent (db : Db) (target other : Id) (now : ℚ) (j : Id) :
    triageState (reparent db target other now) j = triageState db j := rfl

/-- **A merge** changes the state of the survivor when the other is handled less. -/
theorem triageState_mergeIncident {target other : Id} (hne : target ≠ other) (db : Db) (now : ℚ)
    (j : Id) :
    triageState (mergeIncident now target db other) j =
      if j = target ∧ (triageState db other).rank < (triageState db target).rank then
        triageState db other
      else triageState db j := by
  rw [mergeIncident, if_neg hne]
  simp only [triageState_reparent]
  by_cases hlt : (triageState db other).rank < (triageState db target).rank
  · simp only [hlt, if_true, and_true, triageState_setTriage, triageState_reparent]
  · simp only [hlt, if_false, and_false, triageState_reparent]

theorem rank_mergeIncident {target other : Id} (hne : target ≠ other) (db : Db) (now : ℚ) :
    (triageState (mergeIncident now target db other) target).rank =
      min (triageState db target).rank (triageState db other).rank := by
  rw [triageState_mergeIncident hne]
  split
  · rename_i hlt
    exact (min_eq_right hlt.2.le).symm
  · rename_i hle
    exact (min_eq_left (not_lt.mp fun hlt => hle ⟨rfl, hlt⟩)).symm

/-- **The survivor of some merges is handled as little as the least handled of them.** -/
theorem isLeast_mergeAll {target : Id} {others : List Id} (hnot : target ∉ others) (db : Db)
    (now : ℚ) :
    IsLeast {n | ∃ i ∈ target :: others, (triageState db i).rank = n}
      (triageState (others.foldl (mergeIncident now target) db) target).rank := by
  induction others generalizing db with
  | nil => exact ⟨⟨target, List.mem_cons_self, rfl⟩, by rintro n ⟨i, hi, rfl⟩; simp_all⟩
  | cons other others ih =>
    obtain ⟨hne, hnot⟩ := not_or.mp (mt List.mem_cons.mpr hnot)
    have hfirst := rank_mergeIncident hne db now
    have hothers : ∀ i ∈ others, triageState (mergeIncident now target db other) i =
        triageState db i := by
      intro i hi
      rw [triageState_mergeIncident hne, if_neg]
      rintro ⟨rfl, -⟩
      exact hnot hi
    obtain ⟨⟨i, hi, hrank⟩, hle⟩ := ih hnot (mergeIncident now target db other)
    rw [List.foldl_cons]
    constructor
    · rw [← hrank]
      rcases List.mem_cons.mp hi with rfl | hi
      · rw [hfirst]
        rcases min_choice (triageState db i).rank (triageState db other).rank with h | h
        · exact ⟨i, List.mem_cons_self, h.symm⟩
        · exact ⟨other, by simp, h.symm⟩
      · rw [hothers i hi]
        exact ⟨i, by simp [hi], rfl⟩
    · rintro n ⟨j, hj, rfl⟩
      rcases List.mem_cons.mp hj with rfl | hj
      · refine (hle ⟨j, List.mem_cons_self, rfl⟩).trans ?_
        rw [hfirst]
        exact min_le_left _ _
      · rcases List.mem_cons.mp hj with rfl | hj
        · refine (hle ⟨target, List.mem_cons_self, rfl⟩).trans ?_
          rw [hfirst]
          exact min_le_right _ _
        · refine (hle ⟨j, List.mem_cons_of_mem _ hj, rfl⟩).trans ?_
          rw [hothers j hj]

/-! ### What a call does to labels and evidence -/

theorem mergedInto_eq_view (db : Db) (i : Id) :
    mergedInto db i = (db.view.incident i).bind Prod.snd := by
  cases hfind : db.incidents.find? i with
  | none => simp [mergedInto, Db.view, hfind]
  | some x => simp [mergedInto, Db.view, hfind]

theorem mergedInto_of_open {db : Db} {c : ℚ} (h : db.view.incident i = some (c, none)) :
    mergedInto db i = none := by
  rw [mergedInto_eq_view, h]
  rfl

theorem isSome_incident_iff (db : Db) (i : Id) :
    (db.incidents.find? i).isSome ↔ db.view.incident i ≠ none := by
  cases hfind : db.incidents.find? i with
  | none => simp [Db.view, hfind]
  | some x => simp [Db.view, hfind]

/-- Labels, evidence and merges stay; incidents may be added. -/
structure Quiet (db db' : Db) : Prop where
  merged : mergedInto db' = mergedInto db
  known : ∀ i, (db.incidents.find? i).isSome → (db'.incidents.find? i).isSome
  evidence : db'.evidence = db.evidence
  triage : db'.triage = db.triage
  log : db'.triageLog = db.triageLog

theorem Quiet.refl (db : Db) : Quiet db db := ⟨rfl, fun _ h => h, rfl, rfl, rfl⟩

variable {db' : Db}

theorem Quiet.trans {db db'' : Db} (h : Quiet db db') (h' : Quiet db' db'') : Quiet db db'' :=
  ⟨h'.merged.trans h.merged, fun i hi => h'.known i (h.known i hi), h'.evidence.trans h.evidence,
    h'.triage.trans h.triage, h'.log.trans h.log⟩

/-- The steps of a call that matter here. -/
inductive Changes : Db → Db → Prop where
  | quiet {db db' : Db} (h : Quiet db db') : Changes db db'
  | merge {db : Db} {target other : Id} (now : ℚ) (hne : target ≠ other)
      (htarget : ∃ c, db.view.incident target = some (c, none))
      (hother : ∃ c, db.view.incident other = some (c, none)) :
      Changes db (mergeIncident now target db other)
  | attach {db : Db} {i : Id} (m : RuleMatch) (now : ℚ)
      (hi : ∃ c, db.view.incident i = some (c, none)) : Changes db (attach db i m now)

theorem quiet_refreshIncident (db : Db) (i : Id) : Quiet db (refreshIncident db i) := by
  obtain ⟨-, hevidence, -, -, hincident⟩ := refreshIncident_frame db i
  have hlabels : (refreshIncident db i).triage = db.triage ∧
      (refreshIncident db i).triageLog = db.triageLog := by
    unfold refreshIncident
    dsimp only
    split
    · rename_i first last _ _
      obtain ⟨rules, hrules⟩ := refreshScore_frame (countIncident (insertSources { db with
        details := db.details.replace (detailsOf i ((evidenceOf db i).map Evidence.row)) } i
          (evidenceOf db i)) i ((evidenceOf db i).map Evidence.row) first last) i
      rw [hrules]
      exact ⟨rfl, rfl⟩
    · split
      · exact ⟨rfl, rfl⟩
      · exact ⟨rfl, rfl⟩
  refine ⟨funext fun j => ?_, fun j hj => ?_, hevidence, hlabels.1, hlabels.2⟩
  · rw [mergedInto_eq_view, mergedInto_eq_view, hincident]
  · rw [isSome_incident_iff] at hj ⊢
    rwa [hincident]

theorem quiet_refreshAll (db : Db) (ids : List Id) : Quiet db (ids.foldl refreshIncident db) := by
  induction ids generalizing db with
  | nil => exact Quiet.refl db
  | cons i ids ih => exact (quiet_refreshIncident db i).trans (ih _)

theorem quiet_insertIncident {db : Db} {x : Incident} {t : Table Incident.incidentId}
    (h : db.incidents.insert x = some t) (hx : x.mergedInto = none) :
    Quiet db { db with incidents := t } := by
  have hfresh := Table.find?_none_of_insert h
  refine ⟨funext fun i => ?_, fun i hi => ?_, rfl, rfl, rfl⟩
  · show (t.find? i).bind Incident.mergedInto = (db.incidents.find? i).bind Incident.mergedInto
    rw [Table.find?_insert h]
    split
    · rename_i heq
      rw [← heq, hfresh]
      exact hx
    · rfl
  · show (t.find? i).isSome
    rw [Table.find?_insert h]
    split
    · rfl
    · exact hi

/-- The merges of a match, one after the other. -/
theorem changes_mergeAll {db : Db} {target : Id} {others : List Id} (now : ℚ)
    (htarget : ∃ c, db.view.incident target = some (c, none))
    (hothers : ∀ o ∈ others, ∃ c, db.view.incident o = some (c, none))
    (hnot : target ∉ others) (hnodup : others.Nodup) :
    Relation.ReflTransGen Changes db (others.foldl (mergeIncident now target) db) := by
  induction others generalizing db with
  | nil => exact .refl
  | cons other others ih =>
    obtain ⟨hne, hnot⟩ := not_or.mp (mt List.mem_cons.mpr hnot)
    obtain ⟨hfresh, hnodup⟩ := List.nodup_cons.mp hnodup
    have hkept : ∀ i, i ≠ other →
        (mergeIncident now target db other).view.incident i = db.view.incident i := by
      intro i hi
      rw [view_mergeIncident db hne]
      exact if_neg hi
    refine Relation.ReflTransGen.head (.merge now hne htarget (hothers other List.mem_cons_self)) ?_
    refine ih ?_ (fun o ho => ?_) hnot hnodup
    · rw [hkept target hne]
      exact htarget
    · rw [hkept o fun heq => hfresh (heq ▸ ho)]
      exact hothers o (List.mem_cons_of_mem _ ho)

section Matches

variable {uuid : Nat → List Char} {now : ℚ} {db db' : Db}

theorem changes_applyMatch {m : RuleMatch} (hopen : db.view.OwnersOpen)
    (hok : applyMatch uuid now db m = .ok (db', i)) : Relation.ReflTransGen Changes db db' := by
  unfold applyMatch at hok
  split at hok
  · cases hok
  · dsimp only at hok
    split at hok
    · rename_i target htarget
      obtain ⟨rfl, rfl⟩ := Prod.mk.inj (Except.ok.inj hok)
      have hlinked : ∀ o ∈ linkedIncidents db m.evidence, ∃ c, db.view.incident o = some (c, none) := by
        intro o ho
        obtain ⟨row, -, howner⟩ := (mem_linkedIncidents hopen).mp ho
        exact hopen row.key o howner
      have hnot : target ∉ (linkedIncidents db m.evidence).filter (· ≠ target) := by
        rw [List.mem_filter]
        simp
      have htarget' := hlinked target (oldest_spec htarget).1
      refine (changes_mergeAll now htarget' (fun o ho => hlinked o (List.mem_filter.mp ho).1) hnot
        ((List.nodup_dedup _).filter _)).tail (.attach m now ?_)
      rw [view_mergeAll db target _ hnot, View.incident_mergeAll, if_neg hnot]
      exact htarget'
    · split at hok
      · cases hok
      · rename_i incidents hinsert
        obtain ⟨rfl, rfl⟩ := Prod.mk.inj (Except.ok.inj hok)
        refine (Relation.ReflTransGen.single (.quiet (quiet_insertIncident hinsert rfl))).tail
          (.attach m now ?_)
        rw [view_insertIncident hinsert]
        exact ⟨_, if_pos rfl⟩

theorem changes_applyMatches {ms : List RuleMatch} {changed changed' : List Id}
    (hopen : db.view.OwnersOpen)
    (hok : applyMatches uuid now (db, changed) ms = .ok (db', changed')) :
    Relation.ReflTransGen Changes db db' ∧ db'.view.OwnersOpen := by
  induction ms generalizing db changed with
  | nil =>
    obtain ⟨rfl, -⟩ := Prod.mk.inj (Except.ok.inj hok)
    exact ⟨.refl, hopen⟩
  | cons m ms ih =>
    rw [applyMatches, bind_eq_ok] at hok
    obtain ⟨⟨db₁, i⟩, happly, hrest⟩ := hok
    obtain ⟨hchanges, hopen'⟩ := ih ((applyMatch_applied hopen happly).ownersOpen hopen) hrest
    exact ⟨(changes_applyMatch hopen happly).trans hchanges, hopen'⟩

theorem changes_runQueries {qs : List Query} {changed changed' : List Id}
    (hopen : db.view.OwnersOpen)
    (hok : runQueries uuid now (db, changed) qs = .ok (db', changed')) :
    Relation.ReflTransGen Changes db db' := by
  induction qs generalizing db changed with
  | nil =>
    obtain ⟨rfl, -⟩ := Prod.mk.inj (Except.ok.inj hok)
    exact .refl
  | cons q qs ih =>
    rw [runQueries, bind_eq_ok] at hok
    obtain ⟨⟨db₁, changed₁⟩, hmatches, hrest⟩ := hok
    obtain ⟨hchanges, hopen'⟩ := changes_applyMatches hopen hmatches
    exact hchanges.trans (ih hopen' hrest)

end Matches

variable {c : Call}

theorem quiet_ingestRecord {st st' : Intake} {r : Normalized} (hok : ingestRecord c st r = .ok st') :
    Quiet st.db st'.db := by
  unfold ingestRecord at hok
  split at hok
  · split at hok
    · obtain rfl := Except.ok.inj hok
      exact Quiet.refl st.db
    · cases hok
  · dsimp only at hok
    split at hok
    · obtain rfl := Except.ok.inj hok
      exact ⟨rfl, fun _ h => h, rfl, rfl, rfl⟩
    · cases hok

theorem quiet_ingestRecords {st st' : Intake} {rs : List Normalized}
    (hok : ingestRecords c st rs = .ok st') : Quiet st.db st'.db := by
  induction rs generalizing st with
  | nil =>
    obtain rfl := Except.ok.inj hok
    exact Quiet.refl st.db
  | cons r rs ih =>
    rw [ingestRecords, bind_eq_ok] at hok
    obtain ⟨st₁, hfirst, hrest⟩ := hok
    exact (quiet_ingestRecord hfirst).trans (ih hrest)

/-- A delivery is a sequence of such changes. -/
theorem changes_ingest {lib : Library} {db : Db} {response : Response} (h : Kept db fun _ => False)
    (hok : ingest lib db c = .ok (db', response)) : Relation.ReflTransGen Changes db db' := by
  rw [ingest, bind_eq_ok] at hok
  obtain ⟨k, -, hok⟩ := hok
  split at hok
  · split at hok
    · obtain ⟨rfl, -⟩ := Prod.mk.inj (Except.ok.inj hok)
      exact .single (.quiet ⟨rfl, fun _ h => h, rfl, rfl, rfl⟩)
    · cases hok
  · rw [commitBatch, bind_eq_ok] at hok
    obtain ⟨st, hloop, hok⟩ := hok
    obtain ⟨⟨db₁, changed⟩, hdetect, hok⟩ := bind_eq_ok.mp hok
    rw [detectAdvanced, bind_eq_ok] at hdetect
    obtain ⟨⟨db₂, changed₂⟩, hqueries, heq⟩ := hdetect
    obtain ⟨rfl, rfl⟩ := Prod.mk.inj (Except.ok.inj heq)
    have hstart : Kept (touchSource db c k.error) fun _ => False :=
      h.congr rfl rfl rfl rfl fun j => ⟨rfl, rfl, rfl, fun _ => rfl⟩
    have hst : Kept st.db fun _ => False := hstart.ingestRecords hloop
    have hbefore : Quiet db st.db :=
      (⟨rfl, fun _ h => h, rfl, rfl, rfl⟩ : Quiet db (touchSource db c k.error)).trans
        (quiet_ingestRecords hloop)
    have hmatches := changes_runQueries hst.ownersOpen hqueries
    dsimp only at hok
    split at hok
    · obtain ⟨rfl, -⟩ := Prod.mk.inj (Except.ok.inj hok)
      refine ((Relation.ReflTransGen.single (.quiet hbefore)).trans hmatches).tail (.quiet ?_)
      refine (quiet_refreshAll db₂ _).trans ⟨rfl, fun _ h => h, rfl, rfl, rfl⟩
    · cases hok

theorem changes_ingestLive {env : Env} {d : Delivery} {s s' : Live} {response : Response}
    (h : Kept s.db fun _ => False) (hok : ingestLive env d s = (.ok response, s')) :
    Relation.ReflTransGen Changes s.db s'.db := by
  obtain ⟨db, hingest, rfl | rfl⟩ := ingestLive_ok hok
  · exact changes_ingest h hingest
  · have hcleanup : Quiet db (cleanupEvents env d.call.now (some ingestCleanupLimit)
        { s with db := db }).db := ⟨rfl, fun _ hi => hi, rfl, rfl, rfl⟩
    exact (changes_ingest h hingest).tail (.quiet hcleanup)

theorem changes_rebuildPeers {uuid : Nat → List Char} {now : ℚ} {ps : List (List Char)} {db : Db}
    (h : Kept db fun _ => False) (hok : rebuildPeers uuid now db ps = .ok db') :
    Relation.ReflTransGen Changes db db' := by
  induction ps generalizing db with
  | nil =>
    obtain rfl := Except.ok.inj hok
    exact .refl
  | cons peer ps ih =>
    rw [rebuildPeers, bind_eq_ok] at hok
    obtain ⟨db₁, hpeer, hrest⟩ := hok
    refine Relation.ReflTransGen.trans ?_ (ih (h.rebuildPeer hpeer) hrest)
    rw [rebuildPeer, bind_eq_ok] at hpeer
    obtain ⟨⟨db₂, changed⟩, hmatches, heq⟩ := hpeer
    rw [← Except.ok.inj heq]
    exact (changes_applyMatches h.ownersOpen hmatches).1.tail (.quiet (quiet_refreshAll db₂ _))

/-! ### The log through a call -/

theorem Logged.quiet {db : Db} (h : Logged db) (hquiet : Quiet db db') : Logged db' := by
  refine ⟨fun i => ?_, fun i hi => hquiet.known i (h.known i (hquiet.triage ▸ hi))⟩
  rw [triageLogOf, hquiet.log, triageState, hquiet.triage]
  exact h.chain i

theorem isSome_incident_reparent (db : Db) (target other : Id) (now : ℚ) (j : Id) :
    ((reparent db target other now).incidents.find? j).isSome = (db.incidents.find? j).isSome := by
  simp [reparent]

theorem Logged.mergeIncident {db : Db} (h : Logged db) {target : Id}
    (htarget : (db.incidents.find? target).isSome) (now : ℚ) (other : Id) :
    Logged (mergeIncident now target db other) := by
  have hreparent : Logged (reparent db target other now) := by
    refine ⟨h.chain, fun j hj => ?_⟩
    rw [isSome_incident_reparent]
    exact h.known j hj
  rw [Store.mergeIncident]
  split
  · exact h
  · dsimp only
    split
    · refine hreparent.setTriage ?_ _ now _ _ _ _
      rw [isSome_incident_reparent]
      exact htarget
    · exact hreparent

/-- The rows of a match leave labels and incidents alone. -/
theorem quiet_attachRows (i : Id) (rows : List Row) (st : Attach) :
    (rows.foldl (attachRow i) st).db.incidents = st.db.incidents ∧
      (rows.foldl (attachRow i) st).db.triage = st.db.triage ∧
      (rows.foldl (attachRow i) st).db.triageLog = st.db.triageLog := by
  induction rows generalizing st with
  | nil => exact ⟨rfl, rfl, rfl⟩
  | cons row rows ih => exact ih _

theorem Logged.attach {db : Db} (h : Logged db) (hi : (db.incidents.find? i).isSome) (m : RuleMatch)
    (now : ℚ) : Logged (attach db i m now) := by
  obtain ⟨hincidents, htriage, hlog⟩ := quiet_attachRows i m.evidence ⟨db, none⟩
  have hknown : ∀ j, ((touchIncident (recordRule (m.evidence.foldl (attachRow i) ⟨db, none⟩).db i m)
      i now).incidents.find? j).isSome = (db.incidents.find? j).isSome := by
    intro j
    simp [touchIncident, recordRule, hincidents]
  have hstart : Logged (touchIncident (recordRule (m.evidence.foldl (attachRow i) ⟨db, none⟩).db i m)
      i now) := by
    refine ⟨fun j => ?_, fun j hj => ?_⟩
    · rw [triageLogOf, triageState, touchIncident, recordRule, htriage, hlog]
      exact h.chain j
    · rw [hknown]
      refine h.known j ?_
      rwa [touchIncident, recordRule, htriage] at hj
  rw [Store.attach]
  unfold reopen
  split
  · split
    · exact hstart.setTriage (by rw [hknown]; exact hi) _ _ _ _ _ _
    · exact hstart
  · exact hstart

/-- Any number of changes keeps the logs. -/
theorem Logged.changes {db : Db} (h : Logged db) (hchanges : Relation.ReflTransGen Changes db db') :
    Logged db' := by
  induction hchanges with
  | refl => exact h
  | tail _ hstep ih =>
    cases hstep with
    | quiet hquiet => exact ih.quiet hquiet
    | merge now hne htarget hother =>
      obtain ⟨c, hc⟩ := htarget
      exact ih.mergeIncident ((isSome_incident_iff _ _).mpr (by rw [hc]; simp)) now _
    | attach m now hi =>
      obtain ⟨c, hc⟩ := hi
      exact ih.attach ((isSome_incident_iff _ _).mpr (by rw [hc]; simp)) m now

/-! ### Following a call -/

/-- Incident `o` was open before the call and is part of `j` now. -/
def Becomes (db₀ db : Db) (o j : Id) : Prop :=
  mergedInto db₀ o = none ∧ Relation.ReflTransGen (fun a b => mergedInto db a = some b) o j

/-- The label of an incident covered activity of that time: it was acknowledged, or resolved no
earlier. -/
def Covers (db₀ : Db) (o : Id) (ts : ℚ) : Prop :=
  triageState db₀ o = .acknowledged ∨
    ∃ x, db₀.triage.find? o = some x ∧ x.state = .resolved ∧ ts ≤ x.stateTs

/-- What holds during a call that began in `db₀`. -/
structure Watch (db₀ db : Db) : Prop where
  merged : ∀ i t, mergedInto db₀ i = some t → mergedInto db i = some t
  state : ∀ j, mergedInto db j = none → triageState db j = .pending ∨
    (triageState db j = .acknowledged ∧
      ∃ o, Becomes db₀ db o j ∧ triageState db₀ o = .acknowledged) ∨
    (triageState db j = .resolved ∧ db.triage.find? j = db₀.triage.find? j)
  least : ∀ o j, Becomes db₀ db o j → mergedInto db j = none →
    (triageState db j).rank ≤ (triageState db₀ o).rank
  fresh : ∀ k ev, db₀.evidence.find? k = none → db.evidence.find? k = some ev →
    triageState db ev.incidentId = .pending ∨
      ∃ o, Becomes db₀ db o ev.incidentId ∧ Covers db₀ o ev.row.eventTs

variable {db₀ : Db} {o j : Id}

theorem Becomes.mono {db : Db} (h : Becomes db₀ db o j)
    (hkept : ∀ i t, mergedInto db i = some t → mergedInto db' i = some t) : Becomes db₀ db' o j :=
  ⟨h.1, Relation.ReflTransGen.mono hkept _ _ h.2⟩

theorem TriageState.rank_le (s : TriageState) : s.rank ≤ 2 := by
  cases s <;> decide

theorem TriageState.eq_pending {s : TriageState} (h : s.rank ≤ 0) : s = .pending := by
  cases s with
  | pending => rfl
  | acknowledged => simp [TriageState.rank] at h
  | resolved => simp [TriageState.rank] at h

theorem watch_refl (db : Db) : Watch db db := by
  refine ⟨fun _ _ h => h, fun j hj => ?_, fun o j hoj _ => ?_, fun k ev hnone hsome => ?_⟩
  · cases hs : triageState db j with
    | pending => exact Or.inl rfl
    | acknowledged => exact Or.inr (Or.inl ⟨rfl, j, ⟨hj, .refl⟩, hs⟩)
    | resolved => exact Or.inr (Or.inr ⟨rfl, rfl⟩)
  · obtain ⟨ho, hreach⟩ := hoj
    rcases Relation.ReflTransGen.cases_head hreach with rfl | ⟨p, hp, -⟩
    · exact le_rfl
    · rw [ho] at hp
      cases hp
  · rw [hnone] at hsome
    cases hsome

theorem Watch.quiet {db : Db} (h : Watch db₀ db) (hquiet : Quiet db db') : Watch db₀ db' := by
  have hstate : triageState db' = triageState db := by
    funext j
    rw [triageState, hquiet.triage, triageState]
  have hbecomes : ∀ o j, Becomes db₀ db' o j ↔ Becomes db₀ db o j := by
    intro o j
    rw [Becomes, Becomes, hquiet.merged]
  refine ⟨?_, ?_, ?_, ?_⟩
  · rw [hquiet.merged]
    exact h.merged
  · simp only [hbecomes, hquiet.merged, hstate, hquiet.triage]
    exact h.state
  · simp only [hbecomes, hquiet.merged, hstate]
    exact h.least
  · simp only [hbecomes, hquiet.evidence, hstate]
    exact h.fresh

section Merge

variable {db : Db} {target other : Id}

theorem mergedInto_mergeIncident (hne : target ≠ other)
    (hother : ∃ c, db.view.incident other = some (c, none)) (now : ℚ) (i : Id) :
    mergedInto (mergeIncident now target db other) i =
      if i = other then some target else mergedInto db i := by
  obtain ⟨c, hc⟩ := hother
  rw [mergedInto_eq_view, view_mergeIncident db hne, mergedInto_eq_view]
  by_cases hi : i = other
  · simp [View.merge, hi, hc]
  · simp [View.merge, hi]

theorem evidence_mergeIncident (hne : target ≠ other) (now : ℚ) (k : Key) :
    (mergeIncident now target db other).evidence.find? k =
      (db.evidence.find? k).map fun e => if e.incidentId = other then { e with incidentId := target }
        else e := by
  have hreparent : (reparent db target other now).evidence.find? k =
      (db.evidence.find? k).map fun e => if e.incidentId = other then { e with incidentId := target }
        else e := by
    rw [reparent, Table.find?_update]
  rw [mergeIncident, if_neg hne]
  dsimp only
  split
  · rw [(setTriage_tables _ _ _ _ _ _ _ _).2]
    exact hreparent
  · exact hreparent

theorem triage_mergeIncident (hne : target ≠ other) (now : ℚ)
    (h : ¬ (j = target ∧ (triageState db other).rank < (triageState db target).rank)) :
    (mergeIncident now target db other).triage.find? j = db.triage.find? j := by
  rw [mergeIncident, if_neg hne]
  dsimp only
  split
  · rename_i hlt
    rw [find?_setTriage, if_neg]
    · rfl
    · rintro ⟨-, rfl⟩
      exact h ⟨rfl, hlt⟩
  · rfl

theorem rank_mergeIncident_le (hne : target ≠ other) (now : ℚ) (j : Id) :
    (triageState (mergeIncident now target db other) j).rank ≤ (triageState db j).rank := by
  rw [triageState_mergeIncident hne]
  split
  · rename_i hlt
    rw [hlt.1]
    exact hlt.2.le
  · exact le_rfl

/-- Who is part of `j` after a merge was part of it before, or part of the other. -/
theorem Becomes.of_mergeIncident (hne : target ≠ other) (now : ℚ)
    (htarget : ∃ c, db.view.incident target = some (c, none))
    (hother : ∃ c, db.view.incident other = some (c, none))
    (h : Becomes db₀ (mergeIncident now target db other) o j) :
    Becomes db₀ db o j ∨ (Becomes db₀ db o other ∧ j = target) := by
  obtain ⟨ho, hreach⟩ := h
  induction hreach with
  | refl => exact Or.inl ⟨ho, .refl⟩
  | tail _ hstep ih =>
    rename_i b c _
    rw [mergedInto_mergeIncident hne hother] at hstep
    rcases ih with hb | ⟨-, rfl⟩
    · split at hstep
      · rename_i hbo
        exact Or.inr ⟨hbo ▸ hb, (Option.some.inj hstep).symm⟩
      · exact Or.inl ⟨ho, hb.2.tail hstep⟩
    · obtain ⟨_, hc⟩ := htarget
      rw [if_neg hne, mergedInto_of_open hc] at hstep
      cases hstep

end Merge

theorem Watch.merge {db : Db} {target other : Id} (h : Watch db₀ db) (now : ℚ)
    (hne : target ≠ other) (htarget : ∃ c, db.view.incident target = some (c, none))
    (hother : ∃ c, db.view.incident other = some (c, none)) :
    Watch db₀ (mergeIncident now target db other) := by
  obtain ⟨_, hc⟩ := hother
  have hopen : mergedInto db other = none := mergedInto_of_open hc
  have hmerged := mergedInto_mergeIncident hne ⟨_, hc⟩ now
  have hkept : ∀ i t, mergedInto db i = some t →
      mergedInto (mergeIncident now target db other) i = some t := by
    intro i t ht
    rw [hmerged, if_neg]
    · exact ht
    · rintro rfl
      rw [hopen] at ht
      cases ht
  have hjoin : ∀ o, Becomes db₀ db o other → Becomes db₀ (mergeIncident now target db other) o target :=
    fun o ho => ⟨ho.1, (ho.mono hkept).2.tail (by rw [hmerged, if_pos rfl])⟩
  refine ⟨fun i t ht => hkept i t (h.merged i t ht), fun j hj => ?_, fun o j hoj hj => ?_,
    fun k ev hnone hsome => ?_⟩
  · rw [triageState_mergeIncident hne]
    have hj' : mergedInto db j = none := by
      rw [hmerged] at hj
      split at hj
      · cases hj
      · exact hj
    by_cases hlt : j = target ∧ (triageState db other).rank < (triageState db target).rank
    · rw [if_pos hlt]
      rcases h.state other hopen with hs | ⟨hs, o, ho, hack⟩ | ⟨hs, -⟩
      · exact Or.inl hs
      · exact Or.inr (Or.inl ⟨hs, o, hlt.1 ▸ hjoin o ho, hack⟩)
      · -- Nothing is handled more than a resolved incident.
        have hle := (triageState db target).rank_le
        rw [hs] at hlt
        exact absurd (hlt.2.trans_le hle) (lt_irrefl 2)
    · rw [if_neg hlt, triage_mergeIncident hne now hlt]
      rcases h.state j hj' with hs | ⟨hs, o, ho, hack⟩ | hs
      · exact Or.inl hs
      · exact Or.inr (Or.inl ⟨hs, o, ho.mono hkept, hack⟩)
      · exact Or.inr (Or.inr hs)
  · rcases hoj.of_mergeIncident hne now htarget ⟨_, hc⟩ with ho | ⟨ho, rfl⟩
    · refine (rank_mergeIncident_le hne now j).trans (h.least o j ho ?_)
      rw [hmerged] at hj
      split at hj
      · cases hj
      · exact hj
    · rw [rank_mergeIncident hne]
      exact (min_le_right _ _).trans (h.least o other ho hopen)
  · rw [evidence_mergeIncident hne, Option.map_eq_some_iff] at hsome
    obtain ⟨e, he, rfl⟩ := hsome
    have hold := h.fresh k e hnone he
    by_cases hown : e.incidentId = other
    · simp only [if_pos hown]
      rw [hown] at hold
      rcases hold with hs | ⟨o, ho, hcovers⟩
      · refine Or.inl (TriageState.eq_pending ?_)
        rw [rank_mergeIncident hne, hs]
        exact min_le_right _ _
      · exact Or.inr ⟨o, hjoin o ho, hcovers⟩
    · simp only [if_neg hown]
      rcases hold with hs | ⟨o, ho, hcovers⟩
      · refine Or.inl (TriageState.eq_pending ?_)
        refine (rank_mergeIncident_le hne now _).trans ?_
        rw [hs]
        exact le_rfl
      · exact Or.inr ⟨o, ho.mono hkept, hcovers⟩

section Attach

variable {i : Id}

theorem attachRow_newest (st : Attach) (row : Row) {n : Row} (h : st.newest = some n) :
    ∃ n', (attachRow i st row).newest = some n' ∧ n.eventTs ≤ n'.eventTs := by
  simp only [attachRow, h]
  split
  · exact ⟨n, rfl, le_rfl⟩
  · split
    · rename_i hlt
      exact ⟨row, rfl, hlt.le⟩
    · exact ⟨n, rfl, le_rfl⟩

theorem attachRows_newest (rows : List Row) (st : Attach) {n : Row} (h : st.newest = some n) :
    ∃ n', (rows.foldl (attachRow i) st).newest = some n' ∧ n.eventTs ≤ n'.eventTs := by
  induction rows generalizing st n with
  | nil => exact ⟨n, h, le_rfl⟩
  | cons row rows ih =>
    obtain ⟨n₁, h₁, hle₁⟩ := attachRow_newest (i := i) st row h
    obtain ⟨n₂, h₂, hle₂⟩ := ih (attachRow i st row) h₁
    exact ⟨n₂, h₂, hle₁.trans hle₂⟩

/-- A row the loop adds goes to the incident and is no newer than the newest. -/
theorem attachRows_evidence (rows : List Row) (st : Attach) {k : Key} {ev : Evidence}
    (h : (rows.foldl (attachRow i) st).db.evidence.find? k = some ev) :
    st.db.evidence.find? k = some ev ∨ (ev.incidentId = i ∧
      ∃ n, (rows.foldl (attachRow i) st).newest = some n ∧ ev.row.eventTs ≤ n.eventTs) := by
  induction rows generalizing st with
  | nil => exact Or.inl h
  | cons row rows ih =>
    rcases ih (attachRow i st row) h with hold | hnew
    · simp only [attachRow, Table.find?_insertOrIgnore] at hold
      split at hold
      · rename_i hkey
        cases hfind : st.db.evidence.find? k with
        | some old =>
          rw [hfind] at hold
          exact Or.inl (by simpa using hold)
        | none =>
          rw [hfind] at hold
          obtain rfl := Option.some.inj hold
          have hrow : st.db.evidence.find? row.key = none := by
            rw [← hfind, ← hkey]
            rfl
          have hnewest : ∃ n, (attachRow i st row).newest = some n ∧ row.eventTs ≤ n.eventTs := by
            simp only [attachRow, hrow, Option.isSome_none, Bool.false_eq_true, if_false]
            cases st.newest with
            | none => exact ⟨row, rfl, le_rfl⟩
            | some n =>
              dsimp only
              split
              · exact ⟨row, rfl, le_rfl⟩
              · rename_i hle
                exact ⟨n, rfl, not_lt.mp hle⟩
          obtain ⟨n, hn, hle⟩ := hnewest
          obtain ⟨n', hn', hle'⟩ := attachRows_newest (i := i) rows (attachRow i st row) hn
          exact Or.inr ⟨rfl, n', hn', hle.trans hle'⟩
      · exact Or.inl hold
    · exact Or.inr hnew

variable (db : Db) (m : RuleMatch) (now : ℚ)

theorem mergedInto_attach : mergedInto (attach db i m now) = mergedInto db := by
  funext j
  rw [mergedInto_eq_view, mergedInto_eq_view, view_attach]
  show ((m.evidence.foldl (View.attachRow i) db.view).incident j).bind _ = _
  rw [(View.frame_attachRows db.view i m.evidence).2.2.1]

/-- **Reopening**: the labels stay and the newest row is covered by a resolution, or the incident is
pending. -/
theorem attach_triage :
    ((attach db i m now).triage = db.triage ∧ ∀ n x,
      (m.evidence.foldl (attachRow i) ⟨db, none⟩).newest = some n → db.triage.find? i = some x →
      x.state = .resolved → n.eventTs ≤ x.stateTs) ∨
    (triageState (attach db i m now) i = .pending ∧
      ∀ j, j ≠ i → (attach db i m now).triage.find? j = db.triage.find? j) := by
  obtain ⟨-, htriage, -⟩ := quiet_attachRows i m.evidence ⟨db, none⟩
  have hsame : (touchIncident (recordRule (m.evidence.foldl (attachRow i) ⟨db, none⟩).db i m)
      i now).triage = db.triage := htriage
  rw [attach]
  unfold reopen
  rw [hsame]
  split
  · rename_i n x hn hx
    split
    · refine Or.inr ⟨?_, fun j hj => ?_⟩
      · rw [triageState_setTriage, if_pos rfl]
      · rw [find?_setTriage, if_neg fun h => hj h.2, hsame]
    · rename_i hcond
      refine Or.inl ⟨hsame, fun n' x' hn' hx' hres => ?_⟩
      obtain rfl := Option.some.inj (hn.symm.trans hn')
      obtain rfl := Option.some.inj (hx.symm.trans hx')
      exact not_lt.mp fun hlt => hcond ⟨hres, hlt⟩
  · rename_i hnone
    exact Or.inl ⟨hsame, fun n x hn hx _ => absurd hx (hnone n x hn)⟩

end Attach

theorem Watch.attach {db : Db} (h : Watch db₀ db) (m : RuleMatch) (now : ℚ)
    (hi : ∃ c, db.view.incident i = some (c, none)) : Watch db₀ (attach db i m now) := by
  have hmerged := mergedInto_attach (i := i) db m now
  have hbecomes : ∀ o j, Becomes db₀ (Store.attach db i m now) o j ↔ Becomes db₀ db o j := by
    intro o j
    rw [Becomes, Becomes, hmerged]
  have hopen : mergedInto db i = none := by
    obtain ⟨c, hc⟩ := hi
    exact mergedInto_of_open hc
  have hopen₀ : mergedInto db₀ i = none := by
    cases ht : mergedInto db₀ i with
    | none => rfl
    | some t =>
      rw [h.merged i t ht] at hopen
      cases hopen
  have hevidence : (Store.attach db i m now).evidence =
      (m.evidence.foldl (attachRow i) ⟨db, none⟩).db.evidence := by
    rw [Store.attach]
    exact (reopen_tables _ _ _ _).2
  rcases attach_triage (i := i) db m now with ⟨htriage, hcovered⟩ | ⟨hpending, hothers⟩
  · have hstate : triageState (Store.attach db i m now) = triageState db := by
      funext j
      rw [triageState, htriage, triageState]
    refine ⟨?_, ?_, ?_, fun k ev hnone hsome => ?_⟩
    · rw [hmerged]
      exact h.merged
    · simp only [hbecomes, hmerged, hstate, htriage]
      exact h.state
    · simp only [hbecomes, hmerged, hstate]
      exact h.least
    · simp only [hbecomes, hstate]
      rw [hevidence] at hsome
      rcases attachRows_evidence m.evidence ⟨db, none⟩ hsome with hold | ⟨hown, n, hn, hle⟩
      · exact h.fresh k ev hnone hold
      · rw [hown]
        rcases h.state i hopen with hs | ⟨-, o, ho, hack⟩ | ⟨hs, hrow⟩
        · exact Or.inl hs
        · exact Or.inr ⟨o, ho, Or.inl hack⟩
        · refine Or.inr ⟨i, ⟨hopen₀, .refl⟩, Or.inr ?_⟩
          cases hx : db.triage.find? i with
          | none => simp [triageState, hx] at hs
          | some x =>
            have hres : x.state = .resolved := by simpa [triageState, hx] using hs
            exact ⟨x, hrow ▸ hx, hres, hle.trans (hcovered n x hn hx hres)⟩
  · have hstate : ∀ j, triageState (Store.attach db i m now) j = .pending ∨
        triageState (Store.attach db i m now) j = triageState db j ∧ j ≠ i := by
      intro j
      by_cases hj : j = i
      · exact Or.inl (hj ▸ hpending)
      · exact Or.inr ⟨by rw [triageState, hothers j hj, triageState], hj⟩
    refine ⟨?_, fun j hj => ?_, fun o j ho hj => ?_, fun k ev hnone hsome => ?_⟩
    · rw [hmerged]
      exact h.merged
    · rw [hmerged] at hj
      simp only [hbecomes]
      rcases hstate j with hs | ⟨hs, hne⟩
      · exact Or.inl hs
      · rw [hs, hothers j hne]
        exact h.state j hj
    · rw [hmerged] at hj
      rcases hstate j with hs | ⟨hs, -⟩
      · rw [hs]
        exact Nat.zero_le _
      · rw [hs]
        exact h.least o j ((hbecomes o j).mp ho) hj
    · simp only [hbecomes]
      rw [hevidence] at hsome
      rcases attachRows_evidence m.evidence ⟨db, none⟩ hsome with hold | ⟨hown, -⟩
      · rcases hstate ev.incidentId with hs | ⟨hs, -⟩
        · exact Or.inl hs
        · rw [hs]
          exact h.fresh k ev hnone hold
      · exact Or.inl (hown ▸ hpending)

/-- What any number of changes does to an incident. -/
theorem watch_changes {db : Db} (hchanges : Relation.ReflTransGen Changes db₀ db) :
    Watch db₀ db := by
  induction hchanges with
  | refl => exact watch_refl db₀
  | tail _ hstep ih =>
    cases hstep with
    | quiet hquiet => exact ih.quiet hquiet
    | merge now hne htarget hother => exact ih.merge now hne htarget hother
    | attach m now hi => exact ih.attach m now hi

/-! ### Runs -/

/-- A call of an operator keeps the evidence and the log. -/
theorem Logged.setTriageLive {db : Db} (h : Logged db) {r : TriageRequest}
    {results : List TriageResult} (hok : setTriageLive r db = .ok (db', results)) :
    Logged db' ∧ db'.evidence = db.evidence :=
  setTriageLive_preserves (P := fun d => Logged d ∧ d.evidence = db.evidence)
    (fun d _ state note hi hd => ⟨hd.1.setTriage hi state _ _ _ note _,
      (setTriage_tables d _ _ _ _ _ _ _).2.trans hd.2⟩) ⟨h, rfl⟩ hok

theorem Logged.resolveBlocked {db : Db} (h : Logged db) {r : BlockReport} {ids : List Id}
    (hok : resolveBlocked r db = .ok (db', ids)) : Logged db' ∧ db'.evidence = db.evidence := by
  have hall : Logged db' ∧ db'.evidence = db.evidence ∧
      ∀ j, (db'.incidents.find? j).isSome = (db.incidents.find? j).isSome :=
    resolveBlocked_preserves (P := fun d => Logged d ∧ d.evidence = db.evidence ∧
        ∀ j, (d.incidents.find? j).isSome = (db.incidents.find? j).isSome)
      (fun d i note reference hi hd => ⟨hd.1.setTriage (by rw [hd.2.2 i]; exact hi) _ _ _ _ note _,
        (setTriage_tables d _ _ _ _ _ _ _).2.trans hd.2.1,
        fun j => (isSome_incident_setTriage d _ _ _ _ _ _ _ j).trans (hd.2.2 j)⟩)
      ⟨h, rfl, fun _ => rfl⟩ hok
  exact ⟨hall.1, hall.2.1⟩

/-- **One call**: it keeps the log, and adds evidence only by matches. -/
theorem Logged.next {env : Env} {s : Live} (h : Logged s.db) (hkept : Kept s.db fun _ => False)
    (op : Op) :
    Logged (nextLive env s op).db ∧ (Relation.ReflTransGen Changes s.db (nextLive env s op).db ∨
      (nextLive env s op).db.evidence = s.db.evidence) := by
  rw [nextLive]
  split
  · rename_i s' hok
    cases op with
    | ingest d =>
      rw [applyOp] at hok
      split at hok
      · rename_i response s₁ hlive
        obtain rfl := Except.ok.inj hok
        have hchanges := changes_ingestLive hkept hlive
        exact ⟨h.changes hchanges, Or.inl hchanges⟩
      · cases hok
    | rebuild uuid now =>
      obtain ⟨⟨db₁, rebuilt⟩, hrebuild, rfl⟩ := map_eq_ok.mp hok
      rw [rebuildDetections, bind_eq_ok] at hrebuild
      obtain ⟨db₂, hpeers, heq⟩ := hrebuild
      obtain ⟨rfl, -⟩ := Prod.mk.inj (Except.ok.inj heq)
      have hchanges := changes_rebuildPeers hkept hpeers
      exact ⟨h.changes hchanges, Or.inl hchanges⟩
    | setTriage r =>
      obtain ⟨⟨db₁, results⟩, hset, rfl⟩ := map_eq_ok.mp hok
      obtain ⟨hlogged, hevidence⟩ := h.setTriageLive hset
      exact ⟨hlogged, Or.inr hevidence⟩
    | resolveBlocked r =>
      obtain ⟨⟨db₁, ids⟩, hresolve, rfl⟩ := map_eq_ok.mp hok
      obtain ⟨hlogged, hevidence⟩ := h.resolveBlocked hresolve
      exact ⟨hlogged, Or.inr hevidence⟩
    | cleanup now =>
      obtain rfl := Except.ok.inj hok
      exact ⟨h.quiet ⟨rfl, fun _ hi => hi, rfl, rfl, rfl⟩, Or.inr rfl⟩
  · exact ⟨h, Or.inr rfl⟩

/-- **The triage logs of a reachable store are chains.** -/
theorem logged_run (env : Env) (ops : List Op) : Logged (liveAfter env ops).db :=
  (run_preserves (P := fun s : Live => Logged s.db ∧ Kept s.db fun _ => False)
    (fun _ op h => ⟨(h.1.next h.2 op).1, h.2.next op⟩) ⟨logged_init, kept_init⟩).1

/-- The call that led from `db` to `db'` merged incident `y` into `i`. -/
structure AbsorbedInto (db db' : Db) (y : Incident) (i : Id) : Prop where
  known : y ∈ db.incidents
  other : y.incidentId ≠ i
  notMerged : y.mergedInto = none
  canonical : canonicalIncident db' y.incidentId = i

theorem Becomes.absorbed {db : Db} (h : Becomes db db' o i) (hlogged : Logged db)
    (holder : db'.view.MergedOlder) (hi : mergedInto db' i = none) (hne : o ≠ i)
    (hstate : triageState db o ≠ .pending) : ∃ y, AbsorbedInto db db' y i ∧ y.incidentId = o := by
  have hsome : (db.triage.find? o).isSome := by
    cases hx : db.triage.find? o with
    | none => simp [triageState, hx] at hstate
    | some x => rfl
  obtain ⟨y, hy⟩ := Option.isSome_iff_exists.mp (hlogged.known o hsome)
  have hid : y.incidentId = o := Table.find?_key hy
  refine ⟨y, ⟨Table.mem_of_find? hy, hid ▸ hne, ?_, ?_⟩, hid⟩
  · have hopen := h.1
    rw [mergedInto, hy] at hopen
    exact hopen
  · rw [hid, canonicalIncident, followMerges_eq_climb]
    exact (descends_mergedInto holder).climb_of_reaches (card_incidents_le db') h.2 hi

/-- **A handled label does not hide unhandled activity.** After every sequence of calls: the log of
an incident is a chain from pending to its state. A merge leaves the least handled state of the
merged incidents. And when a call adds evidence newer than the resolution of the incident it ends
in, that incident is pending afterwards; it is acknowledged if the call merged an acknowledged
incident into it, and nothing is said if the call merged an incident into it that was resolved no
earlier than the evidence. -/
theorem triage_never_hides (env : Env) (ops : List Op) :
    (∀ i, TriageChain .pending (triageLogOf (liveAfter env ops).db i)
      (triageState (liveAfter env ops).db i)) ∧
    (∀ (db : Db) (now : ℚ) (target : Id) (others : List Id), target ∉ others →
      IsLeast {n | ∃ i ∈ target :: others, (triageState db i).rank = n}
        (triageState (others.foldl (mergeIncident now target) db) target).rank) ∧
    ∀ (op : Op) (k : Key) (ev : Evidence) (x : Triage),
      let db := (liveAfter env ops).db
      let db' := (nextLive env (liveAfter env ops) op).db
      db.evidence.find? k = none → db'.evidence.find? k = some ev →
      db.triage.find? ev.incidentId = some x → x.state = .resolved → x.stateTs < ev.row.eventTs →
      triageState db' ev.incidentId = .pending ∨
      (triageState db' ev.incidentId = .acknowledged ∧
        ∃ y, AbsorbedInto db db' y ev.incidentId ∧ triageState db y.incidentId = .acknowledged) ∨
      ∃ y z, AbsorbedInto db db' y ev.incidentId ∧ db.triage.find? y.incidentId = some z ∧
        z.state = .resolved ∧ ev.row.eventTs ≤ z.stateTs := by
  have hlogged := logged_run env ops
  have hkept := kept_run env ops
  refine ⟨hlogged.chain, fun db now target others hnot => isLeast_mergeAll hnot db now, ?_⟩
  intro op k ev x db db' hnone hsome hx hres hlate
  have hnext : Relation.ReflTransGen Changes db db' ∨ db'.evidence = db.evidence :=
    (hlogged.next hkept op).2
  rcases hnext with hchanges | hevidence
  · have hwatch : Watch db db' := watch_changes hchanges
    have hkept' : Kept db' fun _ => False := hkept.next op
    have howner : db'.view.owner k = some ev.incidentId := by
      simp [View.owner, Db.view, hsome]
    obtain ⟨c, hc⟩ := hkept'.ownersOpen k ev.incidentId howner
    have hopen := mergedInto_of_open hc
    rcases hwatch.fresh k ev hnone hsome with hpending | ⟨o, ho, hcovers⟩
    · exact Or.inl hpending
    · have hstate : triageState db ev.incidentId = .resolved := by
        rw [triageState, hx]
        exact hres
      rcases hcovers with hack | ⟨z, hz, hzres, hle⟩
      · have hne : o ≠ ev.incidentId := by
          rintro rfl
          rw [hstate] at hack
          cases hack
        obtain ⟨y, hy, rfl⟩ := ho.absorbed hlogged hkept'.mergedOlder hopen hne (by simp [hack])
        have hrank := hwatch.least _ _ ho hopen
        rw [hack] at hrank
        cases hs : triageState db' ev.incidentId with
        | pending => exact Or.inl rfl
        | acknowledged => exact Or.inr (Or.inl ⟨rfl, y, hy, hack⟩)
        | resolved =>
          rw [hs] at hrank
          exact absurd hrank (by decide)
      · have hne : o ≠ ev.incidentId := by
          rintro rfl
          obtain rfl := Option.some.inj (hx.symm.trans hz)
          exact absurd hle (not_le.mpr hlate)
        obtain ⟨y, hy, rfl⟩ := ho.absorbed hlogged hkept'.mergedOlder hopen hne
          (by simp [triageState, hz, hzres])
        exact Or.inr (Or.inr ⟨y, z, hy, hz, hzres, hle⟩)
  · have hsome' : db'.evidence.find? k = none := hevidence.symm ▸ hnone
    rw [hsome'] at hsome
    cases hsome

/-! A run in which activity after a resolution leaves the incident acknowledged: it joins an older
resolved incident and a newer acknowledged one, and is added to the newer one first. -/

/-- ASCII classes, and a clock that reads ten seconds for each character. -/
def tallyLibrary : Library where
  isWord c := c.isAlphanum || c = '_'
  isDecimal c := c.isDigit
  instant t := some (10 * t.length)

/-- A store that keeps thirty days. -/
def tallyEnv : Env := ⟨tallyLibrary, 30, fun _ => true⟩

/-- A failed login, so many tens of seconds after the start. -/
def loginAt (tens : Nat) : Json :=
  .obj [("event_id".toList, .str (Nat.toDigits 10 tens)),
    ("timestamp".toList, .str (List.replicate tens 't')),
    ("message".toList, .str "Failed password for a from 1.2.3.4 port 2".toList),
    ("identifier".toList, .str "sshd".toList)]

/-- A batch of failed logins. -/
def deliverLogins (batchId : Char) (tens : List Nat) (now : ℚ) : Op :=
  .ingest ⟨⟨['s'], ['h'], [batchId], tens.map loginAt, none, now, Nat.toDigits 10⟩, none⟩

/-- An operator labels an incident. -/
def markAs (incidentId : String) (state : String) (now : ℚ) : Op :=
  .setTriage ⟨[incidentId.toList], state, "operator", none, now⟩

/-- Two incidents, one resolved and one acknowledged. -/
def labelled : List Op :=
  [deliverLogins 'a' [40, 41, 42] 100, markAs "SSH-0" "resolved" 110,
   deliverLogins 'b' [1, 2, 3] 120, markAs "SSH-1" "acknowledged" 125]

theorem reopening_lost_to_acknowledged :
    ¬ ∀ (env : Env) (ops : List Op) (op : Op) (k : Key) (ev : Evidence) (x : Triage),
      (liveAfter env ops).db.evidence.find? k = none →
      (nextLive env (liveAfter env ops) op).db.evidence.find? k = some ev →
      (liveAfter env ops).db.triage.find? ev.incidentId = some x → x.state = .resolved →
      x.stateTs < ev.row.eventTs →
      triageState (nextLive env (liveAfter env ops) op).db ev.incidentId = .pending := by
  intro hclaim
  obtain ⟨s, hs⟩ : ∃ s, s = liveAfter tallyEnv labelled := ⟨_, rfl⟩
  obtain ⟨s', hs'⟩ : ∃ s', s' = nextLive tallyEnv s (deliverLogins 'c' [20] 130) := ⟨_, rfl⟩
  have hfacts : s.db.evidence.find? (['s'], "20".toList) = none ∧
      (s'.db.evidence.find? (['s'], "20".toList)).map (fun e => (e.incidentId, e.row.eventTs)) =
        some ("SSH-0".toList, 200) ∧
      (s.db.triage.find? "SSH-0".toList).map (fun x => (x.state, x.stateTs)) =
        some (.resolved, 110) ∧
      triageState s'.db "SSH-0".toList = .acknowledged := by
    rw [hs', hs]
    decide +kernel
  obtain ⟨hnone, hev, hx, hstate⟩ := hfacts
  obtain ⟨ev, hev, heq⟩ := Option.map_eq_some_iff.mp hev
  obtain ⟨x, hx, hxeq⟩ := Option.map_eq_some_iff.mp hx
  obtain ⟨hid, hts⟩ := Prod.mk.inj heq
  obtain ⟨hres, hat⟩ := Prod.mk.inj hxeq
  have hpending := hclaim tallyEnv labelled (deliverLogins 'c' [20] 130) (['s'], "20".toList) ev x
    (hs ▸ hnone) (by rw [← hs, ← hs']; exact hev) (by rw [← hs, hid]; exact hx) hres
    (by rw [hts, hat]; norm_num)
  rw [← hs, ← hs', hid, hstate] at hpending
  cases hpending

end RiskOps.Telemetry.Store
