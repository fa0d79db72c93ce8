import RiskOps.Telemetry.StoreInvariant
import RiskOps.Telemetry.StoreTriage

/-!
# RiskOps.Telemetry.BlockedPeers — a verified block resolves what it covers

**Handled means covered.** The query behind a verified block reads the table of the sources of an
incident and the source it was found on. In every reachable state the incident has evidence and the
table lists exactly the sources of that evidence, so what the query selects is what its purpose asks
for: the unhandled incidents of the peer all of whose evidence comes from a source that blocks it.
-/

namespace RiskOps.Telemetry.Store

open RiskOps.Lib

/-! ### An open incident has evidence -/

/-- Incidents that are not merged own some record. -/
def View.OpenOwned (v : View) : Prop :=
  ∀ i c, v.incident i = some (c, none) → ∃ k, v.owner k = some i

theorem carried_openOwned : Carried (fun _ => True) fun v _ => v.OpenOwned where
  intake h _ hincident hheld _ := fun i c hi => by
    obtain ⟨k, hk⟩ := h i c (hincident ▸ hi)
    exact ⟨k, by rw [View.owner, hheld]; exact hk⟩
  mono _ h := h
  applied _ _ _ _ happlied h := happlied.openOwned h
  refreshed {db _} i h := fun j c hj => by
    obtain ⟨-, hevidence, -, -, hincident⟩ := refreshIncident_frame db i
    obtain ⟨k, hk⟩ := h j c (hincident ▸ hj)
    exact ⟨k, by simpa only [View.owner, Db.view, hevidence] using hk⟩

theorem openOwned_run (env : Env) (ops : List Op) : (liveAfter env ops).db.view.OpenOwned := by
  refine carried_openOwned.run (fun i c h => ?_) env fun _ _ _ _ _ _ _ _ => trivial
  simp [Db.view, Db.init] at h

theorem evidenceOf_ne_nil {db : Db} (h : db.view.OpenOwned) {x : Incident} (hx : x ∈ db.incidents)
    (hopen : x.mergedInto = none) : evidenceOf db x.incidentId ≠ [] := by
  have hincident : db.view.incident x.incidentId = some (x.createdAt, none) := by
    simp only [Db.view, Table.find?_of_mem hx, Option.map_some, hopen]
  obtain ⟨k, hk⟩ := h _ _ hincident
  obtain ⟨row, hheld⟩ := View.held_of_owner hk
  obtain ⟨e, he, -⟩ := List.mem_map.mp (mem_evidenceOf.mpr ⟨k, hheld⟩)
  exact List.ne_nil_of_mem he

/-! ### What the query selects -/

/-- An unhandled incident of the address, all of whose evidence comes from the listed sources. -/
def Covered (db : Db) (ip : List Char) (sources : List (List Char)) (i : Id) : Prop :=
  ∃ x, db.incidents.find? i = some x ∧ x.mergedInto = none ∧ x.srcIp = some ip ∧
    triageState db i ≠ .resolved ∧ ∀ e ∈ evidenceOf db i, e.row.sourceId ∈ sources

/-- **The table of sources stands for the evidence.** -/
theorem mem_incidentSources {db : Db} {i : Id} (h : Aggregated db i) (hne : evidenceOf db i ≠ [])
    (s : List Char) : (∃ r ∈ db.incidentSources, r.incidentId = i ∧ r.sourceId = s) ↔
      ∃ e ∈ evidenceOf db i, e.row.sourceId = s := by
  obtain ⟨x, d, -, -, hagg⟩ := h hne
  have hsource : (db.incidentSources.find? (i, s)).isSome ↔
      s ∈ (evidenceOf db i).map fun e => e.row.sourceId := by
    rw [← Option.isSome_map (f := IncidentSource.hostname), hagg.sources s]
    split <;> simp_all
  rw [List.mem_map] at hsource
  rw [← hsource, Option.isSome_iff_exists]
  constructor
  · intro ⟨r, hr, hi, hs⟩
    exact ⟨r, by rw [← hi, ← hs]; exact Table.find?_of_mem hr⟩
  · intro ⟨r, hr⟩
    exact ⟨r, Table.mem_of_find? hr, Prod.mk.inj (show r.key = (i, s) from Table.find?_key hr)⟩

theorem blockedIncident_iff {db : Db} {x : Incident} {ip : List Char} {sources : List (List Char)}
    (hx : x ∈ db.incidents) (h : x.mergedInto = none → Aggregated db x.incidentId ∧
      evidenceOf db x.incidentId ≠ []) :
    blockedIncident db ip sources x = true ↔ Covered db ip sources x.incidentId := by
  simp only [blockedIncident, Bool.and_eq_true, Option.isNone_iff_eq_none, decide_eq_true_eq,
    List.all_eq_true, Table.mem_select, Bool.or_eq_true, Bool.not_eq_true', and_assoc]
  constructor
  · intro hblocked
    obtain ⟨hopen, hip, hstate, hall, _⟩ := hblocked
    obtain ⟨hagg, hne⟩ := h hopen
    refine ⟨x, Table.find?_of_mem hx, hopen, hip, hstate, fun e he => ?_⟩
    obtain ⟨r, hr, hi, hs⟩ := (mem_incidentSources hagg hne e.row.sourceId).mpr ⟨e, he, rfl⟩
    exact hs ▸ hall r ⟨hr, hi⟩
  · intro hcovered
    obtain ⟨x', hx', hopen, hip, hstate, hall⟩ := hcovered
    obtain rfl : x = x' := Option.some.inj ((Table.find?_of_mem hx).symm.trans hx')
    obtain ⟨hagg, hne⟩ := h hopen
    refine ⟨hopen, hip, hstate, fun r hr => ?_, ?_⟩
    · obtain ⟨e, he, hs⟩ := (mem_incidentSources hagg hne r.sourceId).mp ⟨r, hr.1, hr.2, rfl⟩
      exact hs ▸ hall e he
    · -- The table is not empty, so the source the incident was found on is not asked for.
      obtain ⟨e, he⟩ := List.exists_mem_of_ne_nil _ hne
      obtain ⟨r, hr, hi, -⟩ := (mem_incidentSources hagg hne _).mpr ⟨e, he, rfl⟩
      refine .inr ?_
      rw [List.isEmpty_eq_false_iff_exists_mem]
      exact ⟨r, Table.mem_select.mpr ⟨hr, decide_eq_true hi⟩⟩

/-! ### What the call writes -/

section Resolve

variable {now : ℚ} {actor : String} {note : Option (List Char)} {reference : Option Reference}

/-- The writes of a verified block: one transition for each incident. -/
def resolveAll (now : ℚ) (actor : String) (note : Option (List Char)) (reference : Option Reference)
    (db : Db) (ids : List Id) : Db :=
  ids.foldl (fun db id => setTriage db id .resolved now actor .block note reference) db

/-- The transition of one incident leaves everything else as it is. -/
theorem setTriage_frame (db : Db) (i : Id) (state : TriageState) (cause : TriageCause) :
    let db' := setTriage db i state now actor cause note reference
    db' = { db with incidents := db'.incidents, triage := db'.triage, triageLog := db'.triageLog } ∧
      ∀ j, j ≠ i → db'.incidents.find? j = db.incidents.find? j ∧
        db'.triage.find? j = db.triage.find? j := by
  intro db'
  refine ⟨?_, fun j hj => ⟨?_, ?_⟩⟩
  · simp only [db', setTriage]
    split <;> rfl
  · simp only [db', setTriage]
    split
    · rfl
    · rw [touchIncident, Table.find?_update]
      cases hfind : db.incidents.find? j with
      | none => rfl
      | some x =>
        have hne : x.incidentId ≠ i := fun h => hj ((Table.find?_key hfind).symm.trans h)
        rw [Option.map_some, if_neg hne]
  · rw [find?_setTriage, if_neg fun h => hj h.2]

/-- **Each listed incident becomes resolved with one entry, and no other changes.** -/
theorem resolveAll_spec {ids : List Id} (hnodup : ids.Nodup) (db : Db)
    (hstate : ∀ i ∈ ids, triageState db i ≠ .resolved) :
    let db' := resolveAll now actor note reference db ids
    (∀ i ∈ ids, triageState db' i = .resolved ∧ triageLogOf db' i = triageLogOf db i ++
      [⟨i, now, actor, triageState db i, .resolved, .block, note, reference⟩]) ∧
    (∀ i, i ∉ ids → db'.incidents.find? i = db.incidents.find? i ∧
      db'.triage.find? i = db.triage.find? i ∧ triageLogOf db' i = triageLogOf db i) ∧
    db' = { db with
      incidents := db'.incidents, triage := db'.triage, triageLog := db'.triageLog } := by
  induction ids generalizing db with
  | nil => exact ⟨fun i hi => absurd hi List.not_mem_nil, fun i _ => ⟨rfl, rfl, rfl⟩, rfl⟩
  | cons j ids ih =>
    obtain ⟨hj, hnodup⟩ := List.nodup_cons.mp hnodup
    obtain ⟨hframe, hothers⟩ := @setTriage_frame now actor note reference db j .resolved .block
    have hresolve := hstate j List.mem_cons_self
    obtain ⟨hin, hout, hrest⟩ := ih hnodup
      (setTriage db j .resolved now actor .block note reference) fun i hi => by
        have hne : i ≠ j := fun h => hj (h ▸ hi)
        rw [triageState_setTriage, if_neg hne]
        exact hstate i (List.mem_cons_of_mem _ hi)
    refine ⟨fun i hi => ?_, fun i hi => ?_, ?_⟩
    · rcases List.mem_cons.mp hi with rfl | hi
      · -- The rest of the list does not come back to it.
        obtain ⟨-, htriage, hlog⟩ := hout i hj
        refine ⟨?_, hlog.trans ?_⟩
        · rw [triageState, resolveAll, List.foldl_cons, ← resolveAll, htriage, ← triageState,
            triageState_setTriage, if_pos rfl]
        · rw [triageLogOf_setTriage, if_pos ⟨hresolve, rfl⟩]
      · have hne : i ≠ j := fun h => hj (h ▸ hi)
        obtain ⟨hstate', hlog⟩ := hin i hi
        refine ⟨hstate', hlog.trans ?_⟩
        rw [triageLogOf_setTriage, if_neg fun h => hne h.2, List.append_nil,
          triageState_setTriage, if_neg hne]
    · rw [List.mem_cons, not_or] at hi
      obtain ⟨hincident, htriage, hlog⟩ := hout i hi.2
      obtain ⟨hincident', htriage'⟩ := hothers i hi.1
      refine ⟨hincident.trans hincident', htriage.trans htriage', hlog.trans ?_⟩
      rw [triageLogOf_setTriage, if_neg fun h => hi.1 h.2, List.append_nil]
    · have hsame : ∀ incidents triage log,
          ({ setTriage db j .resolved now actor .block note reference with
            incidents := incidents, triage := triage, triageLog := log } : Db) =
          { db with incidents := incidents, triage := triage, triageLog := log } := by
        intro incidents triage log
        rw [hframe]
      exact hrest.trans (hsame _ _ _)

end Resolve

/-! ### The call -/

/-- A text without NUL, not blank, of at most so many characters. -/
def Bounded (text : List Char) (maximum : Nat) : Prop :=
  text.length ≤ maximum ∧ strip text ≠ [] ∧ Char.ofNat 0 ∉ text

theorem boundedText_isOk {text : List Char} {name : String} {maximum : Nat} :
    (∃ v, boundedText (.str text) name maximum false = .ok v) ↔ Bounded text maximum := by
  simp only [boundedText_eq_ok, exists_and_left, exists_eq, and_true, Bounded, true_implies]

/-- What a call has to give: a readable address, bounded sources and, when there are any, an actor,
a reference and a note that are bounded. -/
structure BlockReport.Accepted (r : BlockReport) : Prop where
  ip : (IpAddress.parse r.ip).isSome = true
  sourceIds : ∀ item ∈ r.sourceIds, Bounded item 128
  texts : r.sourceIds ≠ [] → Bounded r.actor.toList 128 ∧ Bounded r.reference 256 ∧
    ∀ note, r.note = some note → note.length ≤ 300 ∧ Char.ofNat 0 ∉ note

theorem checkNote_isOk {note : Option (List Char)} : (∃ v, checkNote note = .ok v) ↔
    ∀ text, note = some text → text.length ≤ 300 ∧ Char.ofNat 0 ∉ text := by
  cases note with
  | none => exact iff_of_true ⟨none, rfl⟩ fun _ h => by cases h
  | some text =>
    simp only [checkNote, map_eq_ok, boundedText_eq_ok, Option.some.injEq, forall_eq']
    constructor
    · rintro ⟨_, _, ⟨⟨hlength, -, hnul⟩, -⟩, -⟩
      exact ⟨hlength, hnul⟩
    · rintro ⟨hlength, hnul⟩
      exact ⟨_, text, ⟨⟨hlength, (fun h => by cases h), hnul⟩, rfl⟩, rfl⟩

/-- The sources come out as they were given. -/
theorem mapM_sources {items covered : List (List Char)} (h : items.mapM (fun item =>
    boundedText (.str item) "source_id" 128 false) = .ok covered) : covered = items := by
  have hsame := (mapM_eq_ok.mp h).imp fun _ _ h => (boundedText_eq_ok.mp h).2.symm
  rw [List.forall₂_eq_eq_eq] at hsame
  exact hsame.symm

theorem resolveBlocked_ok {r : BlockReport} {db db' : Db} {ids : List Id}
    (hok : resolveBlocked r db = .ok (db', ids)) :
    ∃ ip, IpAddress.parse r.ip = some ip ∧
      (r.sourceIds = [] ∧ db' = db ∧ ids = [] ∨ r.sourceIds ≠ [] ∧ ∃ note,
        ids = ((db.incidents.select (blockedIncident db ip.toText r.sourceIds)).map
          Incident.incidentId).insertionSort (· ≤ ·) ∧
        db' = resolveAll r.now r.actor note (some (.request r.reference)) db ids) := by
  rw [resolveBlocked] at hok
  split at hok
  · cases hok
  · rename_i ip hip
    obtain ⟨covered, hcovered, hok⟩ := bind_eq_ok.mp hok
    obtain rfl := mapM_sources hcovered
    refine ⟨ip, hip, ?_⟩
    split at hok
    · rename_i hempty
      obtain ⟨rfl, rfl⟩ := Prod.mk.inj (Except.ok.inj hok)
      exact .inl ⟨List.isEmpty_iff.mp hempty, rfl, rfl⟩
    · rename_i hne
      obtain ⟨_, -, hok⟩ := bind_eq_ok.mp hok
      obtain ⟨reference, href, hok⟩ := bind_eq_ok.mp hok
      obtain ⟨note, -, hok⟩ := bind_eq_ok.mp hok
      obtain ⟨rfl, rfl⟩ := Prod.mk.inj (Except.ok.inj hok)
      obtain rfl := (boundedText_eq_ok.mp href).2
      exact .inr ⟨fun h => hne (List.isEmpty_iff.mpr h), note, rfl, rfl⟩

/-- A call returns exactly when it is accepted. -/
theorem resolveBlocked_isOk {r : BlockReport} {db : Db} :
    (∃ x, resolveBlocked r db = .ok x) ↔ r.Accepted := by
  constructor
  · rintro ⟨x, hok⟩
    rw [resolveBlocked] at hok
    split at hok
    · cases hok
    · rename_i ip hip
      obtain ⟨covered, hcovered, hok⟩ := bind_eq_ok.mp hok
      obtain rfl := mapM_sources hcovered
      refine ⟨by rw [hip]; rfl, fun item hitem =>
        boundedText_isOk.mp (exists_mapM_eq_ok.mp ⟨_, hcovered⟩ item hitem), fun hne => ?_⟩
      rw [if_neg (by simpa using hne)] at hok
      obtain ⟨_, hactor, hok⟩ := bind_eq_ok.mp hok
      obtain ⟨_, href, hok⟩ := bind_eq_ok.mp hok
      obtain ⟨_, hnote, -⟩ := bind_eq_ok.mp hok
      exact ⟨boundedText_isOk.mp ⟨_, hactor⟩, boundedText_isOk.mp ⟨_, href⟩,
        checkNote_isOk.mp ⟨_, hnote⟩⟩
  · intro h
    obtain ⟨ip, hip⟩ := Option.isSome_iff_exists.mp h.ip
    obtain ⟨covered, hcovered⟩ := exists_mapM_eq_ok.mpr fun item hitem =>
      boundedText_isOk.mpr (h.sourceIds item hitem)
    obtain rfl := mapM_sources hcovered
    simp only [resolveBlocked, hip, hcovered, bind, Except.bind]
    by_cases hempty : r.sourceIds = []
    · exact ⟨_, if_pos (List.isEmpty_iff.mpr hempty)⟩
    · obtain ⟨hactor, href, hnote⟩ := h.texts hempty
      obtain ⟨_, hactor⟩ := boundedText_isOk.mpr hactor
      obtain ⟨_, href⟩ := boundedText_isOk.mpr href
      obtain ⟨_, hnote⟩ := checkNote_isOk.mpr hnote
      rw [if_neg (by simpa using hempty), hactor, href, hnote]
      exact ⟨_, rfl⟩

/-- **A block resolves exactly the incidents it covers.** In every reachable state a call with
listed sources resolves exactly the incidents of the peer that are not merged, not resolved and have
all their evidence from listed sources. Each of them gets one entry in its log. Every other incident
keeps its row, its state and its log, and so does every other table. A call raises exactly when its
address or one of its texts is refused, and then changes nothing. -/
theorem block_resolves_covered (env : Env) (ops : List Op) (r : BlockReport) :
    let s := liveAfter env ops
    ((∃ x, resolveBlocked r s.db = .ok x) ↔ r.Accepted) ∧ match resolveBlocked r s.db with
    | .error _ => nextLive env s (.resolveBlocked r) = s
    | .ok (db', ids) => nextLive env s (.resolveBlocked r) = { s with db := db' } ∧
      ∃ ip note, IpAddress.parse r.ip = some ip ∧
        (∀ i, i ∈ ids ↔ Covered s.db ip.toText r.sourceIds i) ∧
        (∀ i ∈ ids, triageState db' i = .resolved ∧
          triageLogOf db' i = triageLogOf s.db i ++ [⟨i, r.now, r.actor, triageState s.db i,
            .resolved, .block, note, some (.request r.reference)⟩]) ∧
        (∀ i, i ∉ ids → db'.incidents.find? i = s.db.incidents.find? i ∧
          db'.triage.find? i = s.db.triage.find? i ∧ triageLogOf db' i = triageLogOf s.db i) ∧
        db' = { s.db with
          incidents := db'.incidents, triage := db'.triage, triageLog := db'.triageLog } := by
  intro s
  have hkept : Kept s.db fun _ => False := kept_run env ops
  have howned : s.db.view.OpenOwned := openOwned_run env ops
  refine ⟨resolveBlocked_isOk, ?_⟩
  split
  · rename_i e he
    rw [nextLive, applyOp, he]
    rfl
  · rename_i db' ids hok
    refine ⟨by rw [nextLive, applyOp, hok]; rfl, ?_⟩
    have hdescribed : ∀ x ∈ s.db.incidents, x.mergedInto = none →
        Aggregated s.db x.incidentId ∧ evidenceOf s.db x.incidentId ≠ [] := fun x hx hopen => by
      have hincident : s.db.view.incident x.incidentId = some (x.createdAt, none) := by
        simp only [Db.view, Table.find?_of_mem hx, Option.map_some, hopen]
      exact ⟨(hkept.aggregated _ _ hincident).resolve_left id, evidenceOf_ne_nil howned hx hopen⟩
    obtain ⟨ip, hip, ⟨hnil, rfl, rfl⟩ | ⟨-, note, hids, rfl⟩⟩ := resolveBlocked_ok hok
    · -- Without listed sources nothing is covered, since an open incident has evidence.
      refine ⟨ip, none, hip, fun i => ?_, fun i hi => absurd hi List.not_mem_nil,
        fun i _ => ⟨rfl, rfl, rfl⟩, rfl⟩
      refine iff_of_false List.not_mem_nil fun hcovered => ?_
      obtain ⟨x, hx, hopen, _, _, hall⟩ := hcovered
      have hkey : x.incidentId = i := Table.find?_key hx
      obtain ⟨e, he⟩ := List.exists_mem_of_ne_nil _ (hdescribed x (Table.mem_of_find? hx) hopen).2
      have hmem := hall e (hkey ▸ he)
      rw [hnil] at hmem
      exact List.not_mem_nil hmem
    · have hmem : ∀ i, i ∈ ids ↔ Covered s.db ip.toText r.sourceIds i := fun i => by
        rw [hids, List.mem_insertionSort, List.mem_map]
        constructor
        · intro hselected
          obtain ⟨x, hx, hi⟩ := hselected
          obtain ⟨hx, hblocked⟩ := Table.mem_select.mp hx
          exact hi ▸ (blockedIncident_iff hx (hdescribed x hx)).mp hblocked
        · intro h
          obtain ⟨x, hx, _⟩ := id h
          have hkey : x.incidentId = i := Table.find?_key hx
          have hx := Table.mem_of_find? hx
          exact ⟨x, Table.mem_select.mpr ⟨hx,
            (blockedIncident_iff hx (hdescribed x hx)).mpr (hkey.symm ▸ h)⟩, hkey⟩
      have hnodup : ids.Nodup := by
        rw [hids]
        refine (List.perm_insertionSort _ _).nodup_iff.mpr ?_
        exact s.db.incidents.nodup.sublist (List.filter_sublist.map Incident.incidentId)
      exact ⟨ip, note, hip, hmem, resolveAll_spec hnodup s.db fun i hi => by
        obtain ⟨x, -, -, -, hstate, -⟩ := (hmem i).mp hi
        exact hstate⟩

/-- The peer of three failed logins is blocked on the one source they come from. -/
def peerBlocked : BlockReport :=
  ⟨"1.2.3.4".toList, [['s']], "operator", "block-1".toList, none, 200⟩

/-- Its incident is resolved. -/
theorem blocked_peer_resolved :
    ∃ db' ids, resolveBlocked peerBlocked
        (liveAfter tallyEnv [deliverLogins 'a' [40, 41, 42] 100]).db = .ok (db', ids) ∧
      "SSH-0".toList ∈ ids ∧ triageState db' "SSH-0".toList = .resolved := by
  have hids : (resolveBlocked peerBlocked
      (liveAfter tallyEnv [deliverLogins 'a' [40, 41, 42] 100]).db).toOption.map Prod.snd =
        some ["SSH-0".toList] := by
    decide +kernel
  obtain ⟨hreturns, hcall⟩ :=
    block_resolves_covered tallyEnv [deliverLogins 'a' [40, 41, 42] 100] peerBlocked
  cases h : resolveBlocked peerBlocked
      (liveAfter tallyEnv [deliverLogins 'a' [40, 41, 42] 100]).db with
  | error e => rw [h] at hids; cases hids
  | ok x =>
    rw [h] at hids hcall
    have hmem : "SSH-0".toList ∈ x.2 := by
      rw [Option.some.inj hids]
      exact List.mem_singleton_self _
    obtain ⟨-, ip, note, -, -, hresolved, -⟩ := hcall
    exact ⟨x.1, x.2, rfl, hmem, (hresolved _ hmem).1⟩

end RiskOps.Telemetry.Store
