import RiskOps.Telemetry.StoreTriage

/-!
# RiskOps.Telemetry.StoreExactlyOnce — every record once

**Deliveries of the live SSH store, repeated and overlapping.** Detection never reads the sources or
the batches of a database (`Db.under`), and the loop over the records skips what has a receipt. So a
run leaves the records that the run `once` leaves, in which every record is delivered only by the
first batch that was acknowledged with it. The counters of a source count its receipts, a batch that
was acknowledged is acknowledged again, and a call that raises leaves nothing behind.
-/

namespace RiskOps.Telemetry.Store

open RiskOps.Lib

/-! ### Detection reads no sources, batches and receipts -/

/-- The same records and incidents under other sources, batches and receipts. -/
def Db.under (db : Db) (sources : Table Source.sourceId) (batches : Table Batch.key)
    (receipts : Table Receipt.key) : Db :=
  { db with sources := sources, batches := batches, receipts := receipts }

section Under

variable (db : Db) (sources : Table Source.sourceId) (batches : Table Batch.key)
  (receipts : Table Receipt.key)

theorem setTriage_under (i : Id) (state : TriageState) (now : ℚ) (actor : String)
    (cause : TriageCause) (note : Option (List Char)) (reference : Option Reference) :
    setTriage (db.under sources batches receipts) i state now actor cause note reference =
      (setTriage db i state now actor cause note reference).under sources batches receipts := by
  simp only [setTriage]
  show (if triageState db i = state then _ else _) = _
  split
  · rfl
  · rfl

theorem mergeIncident_under (now : ℚ) (target other : Id) :
    mergeIncident now target (db.under sources batches receipts) other =
      (mergeIncident now target db other).under sources batches receipts := by
  by_cases heq : target = other
  · simp only [mergeIncident, if_pos heq]
  · rw [mergeIncident, mergeIncident, if_neg heq, if_neg heq]
    by_cases hlt : (triageState db other).rank < (triageState db target).rank
    · have hmerged := setTriage_under (reparent db target other now) sources batches receipts target
        (triageState db other) now "system" .merge none (some (.incident other))
      exact (if_pos hlt).trans (hmerged.trans (congrArg (Db.under · sources batches receipts) (if_pos hlt).symm))
    · refine (if_neg hlt).trans (Eq.trans ?_ (congrArg (Db.under · sources batches receipts) (if_neg hlt).symm))
      rfl

theorem mergeAll_under (now : ℚ) (target : Id) (others : List Id) :
    others.foldl (mergeIncident now target) (db.under sources batches receipts) =
      (others.foldl (mergeIncident now target) db).under sources batches receipts := by
  induction others generalizing db with
  | nil => rfl
  | cons other others ih => rw [List.foldl_cons, mergeIncident_under, ih, List.foldl_cons]

theorem attachRows_under (i : Id) (rows : List Row) (newest : Option Row) :
    rows.foldl (attachRow i) ⟨db.under sources batches receipts, newest⟩ =
      ⟨(rows.foldl (attachRow i) ⟨db, newest⟩).db.under sources batches receipts,
        (rows.foldl (attachRow i) ⟨db, newest⟩).newest⟩ := by
  induction rows generalizing db newest with
  | nil => rfl
  | cons row rows ih => exact ih (attachRow i ⟨db, newest⟩ row).db (attachRow i ⟨db, newest⟩ row).newest

theorem reopen_under (i : Id) (newest : Option Row) (now : ℚ) :
    reopen (db.under sources batches receipts) i newest now =
      (reopen db i newest now).under sources batches receipts := by
  cases newest with
  | none => rfl
  | some row =>
    simp only [reopen]
    rw [show (db.under sources batches receipts).triage = db.triage from rfl]
    cases db.triage.find? i with
    | none => rfl
    | some x =>
      dsimp only
      split
      · exact setTriage_under db sources batches receipts _ _ _ _ _ _ _
      · rfl

theorem attach_under (i : Id) (m : RuleMatch) (now : ℚ) :
    attach (db.under sources batches receipts) i m now = (attach db i m now).under sources batches receipts := by
  rw [attach, attachRows_under]
  exact reopen_under (touchIncident (recordRule (m.evidence.foldl (attachRow i) ⟨db, none⟩).db i m)
    i now) sources batches receipts i _ now

theorem applyMatch_under (uuid : Nat → List Char) (now : ℚ) (m : RuleMatch) :
    applyMatch uuid now (db.under sources batches receipts) m =
      (applyMatch uuid now db m).map fun out => (out.1.under sources batches receipts, out.2) := by
  simp only [applyMatch]
  cases (orderRows m.evidence).head? with
  | none => rfl
  | some first =>
    have holdest : oldest (db.under sources batches receipts)
        (linkedIncidents (db.under sources batches receipts) m.evidence) =
        oldest db (linkedIncidents db m.evidence) := rfl
    dsimp only
    rw [holdest]
    cases oldest db (linkedIncidents db m.evidence) with
    | some id =>
      dsimp only
      show Except.ok (attach (List.foldl _ (db.under sources batches receipts)
        ((linkedIncidents db m.evidence).filter _)) id m now, id) = _
      rw [mergeAll_under, attach_under]
      rfl
    | none =>
      dsimp only
      have hinsert : (db.under sources batches receipts).incidents.insert
          (newIncident (db.under sources batches receipts)
            (incidentId uuid (db.under sources batches receipts)) first now) =
          db.incidents.insert (newIncident db (incidentId uuid db) first now) := rfl
      rw [hinsert]
      cases db.incidents.insert (newIncident db (incidentId uuid db) first now) with
      | none => rfl
      | some incidents =>
        dsimp only
        have hattach := attach_under { db with incidents := incidents } sources batches receipts
          (incidentId uuid db) m now
        exact congrArg (fun d => Except.ok (d, incidentId uuid db)) hattach

theorem applyMatches_under (uuid : Nat → List Char) (now : ℚ) (ms : List RuleMatch)
    (changed : List Id) :
    applyMatches uuid now (db.under sources batches receipts, changed) ms =
      (applyMatches uuid now (db, changed) ms).map fun out =>
        (out.1.under sources batches receipts, out.2) := by
  induction ms generalizing db changed with
  | nil => rfl
  | cons m ms ih =>
    rw [applyMatches, applyMatch_under, applyMatches]
    cases applyMatch uuid now db m with
    | error e => rfl
    | ok out => exact ih out.1 (out.2 :: changed)

theorem runQueries_under (uuid : Nat → List Char) (now : ℚ) (qs : List Query) (changed : List Id) :
    runQueries uuid now (db.under sources batches receipts, changed) qs =
      (runQueries uuid now (db, changed) qs).map fun out => (out.1.under sources batches receipts, out.2) := by
  induction qs generalizing db changed with
  | nil => rfl
  | cons q qs ih =>
    rw [runQueries, runQueries]
    show (applyMatches uuid now (db.under sources batches receipts, changed)
      (detectMatches (candidates db q) q.keys true) >>= _) = _
    rw [applyMatches_under]
    cases applyMatches uuid now (db, changed) (detectMatches (candidates db q) q.keys true) with
    | error e => rfl
    | ok out => exact ih out.1 out.2

theorem detectAdvanced_under (uuid : Nat → List Char) (now : ℚ) (triggers : List Row) :
    detectAdvanced uuid now (db.under sources batches receipts) triggers =
      (detectAdvanced uuid now db triggers).map fun out => (out.1.under sources batches receipts, out.2) := by
  rw [detectAdvanced, detectAdvanced, runQueries_under]
  cases runQueries uuid now (db, []) (queries triggers) with
  | error e => rfl
  | ok out => rfl

theorem refreshScore_under (i : Id) :
    refreshScore (db.under sources batches receipts) i = (refreshScore db i).under sources batches receipts := by
  rw [refreshScore, refreshScore]
  by_cases hzero : scoringRefresh db i = some 0
  · rw [if_pos hzero]
    exact if_pos hzero
  · rw [if_neg hzero]
    exact if_neg hzero

theorem refreshIncident_under (i : Id) :
    refreshIncident (db.under sources batches receipts) i = (refreshIncident db i).under sources batches receipts := by
  rw [refreshIncident, refreshIncident]
  rw [show evidenceOf (db.under sources batches receipts) i = evidenceOf db i from rfl]
  dsimp only
  split
  · exact refreshScore_under (countIncident (insertSources { db with
      details := db.details.replace (detailsOf i ((evidenceOf db i).map Evidence.row)) } i
        (evidenceOf db i)) i ((evidenceOf db i).map Evidence.row) _ _) sources batches receipts i
  · rw [show (db.under sources batches receipts).incidents = db.incidents from rfl]
    split
    · rfl
    · rfl

theorem refreshAll_under (ids : List Id) :
    ids.foldl refreshIncident (db.under sources batches receipts) =
      (ids.foldl refreshIncident db).under sources batches receipts := by
  induction ids generalizing db with
  | nil => rfl
  | cons i ids ih => rw [List.foldl_cons, refreshIncident_under, ih, List.foldl_cons]

end Under

/-! ### The first delivery of a record -/

/-- The keys of some records of a source. -/
def recordKeys (sourceId : List Char) (rs : List Normalized) : List Key :=
  rs.map fun r => (sourceId, r.raw.eventId)

/-- The records whose key was not seen, each key once. -/
def firstRecords (sourceId : List Char) : List Key → List Normalized → List Normalized
  | _, [] => []
  | seen, r :: rs =>
    if (sourceId, r.raw.eventId) ∈ seen then firstRecords sourceId seen rs
    else r :: firstRecords sourceId ((sourceId, r.raw.eventId) :: seen) rs

/-- The same for the records as they were sent; what is not readable is left out. -/
def firstSent (lib : Library) (now : ℚ) (sourceId : List Char) : List Key → List Json → List Json
  | _, [] => []
  | seen, sent :: rest =>
    match normalizeRecord lib now sent with
    | .ok r =>
      if (sourceId, r.raw.eventId) ∈ seen then firstSent lib now sourceId seen rest
      else sent :: firstSent lib now sourceId ((sourceId, r.raw.eventId) :: seen) rest
    | .error _ => firstSent lib now sourceId seen rest

/-- The readable records of a delivery. -/
def Delivery.records (lib : Library) (d : Delivery) : List Normalized :=
  d.call.records.filterMap fun sent => (normalizeRecord lib d.call.now sent).toOption

/-- The keys of a delivery. -/
def Delivery.keys (lib : Library) (d : Delivery) : List Key := recordKeys d.call.sourceId (d.records lib)

/-- A delivery without the records whose keys were seen. -/
def Delivery.onlyFirst (lib : Library) (seen : List Key) (d : Delivery) : Delivery :=
  { d with call := { d.call with
      records := firstSent lib d.call.now d.call.sourceId seen d.call.records } }

/-- The state after a delivery. -/
def afterDelivery (env : Env) (s : Live) (d : Delivery) : Live := (ingestLive env d s).2

/-- The deliveries of a run that were acknowledged as new, each with the records that were not
delivered before. -/
def once (env : Env) : List Key → Live → List Delivery → List Delivery
  | _, _, [] => []
  | seen, s, d :: ds =>
    match ingestLive env d s with
    | (.ok response, s') =>
      if response.replayedBatch then once env seen s' ds
      else d.onlyFirst env.lib seen :: once env (d.keys env.lib ++ seen) s' ds
    | (.error _, _) => once env seen s ds

variable {rs : List Normalized} {lib : Library} {d : Delivery}

section First

variable {sourceId : List Char}

theorem mem_keys_firstRecords {seen : List Key} {k : Key} :
    k ∈ recordKeys sourceId (firstRecords sourceId seen rs) ↔ k ∈ recordKeys sourceId rs ∧ k ∉ seen := by
  induction rs generalizing seen with
  | nil => simp [firstRecords, recordKeys]
  | cons r rs ih =>
    rw [firstRecords]
    by_cases hseen : (sourceId, r.raw.eventId) ∈ seen
    · rw [if_pos hseen, ih]
      simp only [recordKeys, List.map_cons, List.mem_cons]
      constructor
      · rintro ⟨hk, hnot⟩
        exact ⟨Or.inr hk, hnot⟩
      · rintro ⟨rfl | hk, hnot⟩
        · exact absurd hseen hnot
        · exact ⟨hk, hnot⟩
    · rw [if_neg hseen]
      have hcons : ∀ l : List Normalized, k ∈ recordKeys sourceId (r :: l) ↔
          k = (sourceId, r.raw.eventId) ∨ k ∈ recordKeys sourceId l := by
        simp [recordKeys]
      rw [hcons, hcons, ih, List.mem_cons, not_or]
      constructor
      · rintro (rfl | ⟨hk, -, hnot⟩)
        · exact ⟨Or.inl rfl, hseen⟩
        · exact ⟨Or.inr hk, hnot⟩
      · rintro ⟨hk, hnot⟩
        by_cases heq : k = (sourceId, r.raw.eventId)
        · exact Or.inl heq
        · exact Or.inr ⟨hk.resolve_left heq, heq, hnot⟩

theorem nodup_keys_firstRecords (seen : List Key) (rs : List Normalized) :
    (recordKeys sourceId (firstRecords sourceId seen rs)).Nodup := by
  induction rs generalizing seen with
  | nil => exact List.nodup_nil
  | cons r rs ih =>
    rw [firstRecords]
    split
    · exact ih seen
    · refine List.nodup_cons.mpr ⟨fun hmem => ?_, ih _⟩
      exact (Iff.mp mem_keys_firstRecords hmem).2 List.mem_cons_self

/-- What is sent is read as the first records. -/
theorem mapM_firstSent {now : ℚ} {seen : List Key} {sent : List Json}
    (h : sent.mapM (normalizeRecord lib now) = .ok rs) :
    (firstSent lib now sourceId seen sent).mapM (normalizeRecord lib now) =
      .ok (firstRecords sourceId seen rs) := by
  induction sent generalizing seen rs with
  | nil =>
    obtain rfl := Except.ok.inj h
    rfl
  | cons j rest ih =>
    rw [List.mapM_cons, bind_eq_ok] at h
    obtain ⟨r, hr, h⟩ := h
    obtain ⟨rs', hrest, heq⟩ := bind_eq_ok.mp h
    obtain rfl := Except.ok.inj heq
    rw [firstSent, hr]
    dsimp only
    rw [firstRecords]
    split
    · exact ih hrest
    · rw [List.mapM_cons, hr, ih hrest]
      rfl

theorem length_firstSent_le (lib : Library) (now : ℚ) (seen : List Key) (sent : List Json) :
    (firstSent lib now sourceId seen sent).length ≤ sent.length := by
  induction sent generalizing seen with
  | nil => exact le_rfl
  | cons j rest ih =>
    rw [firstSent]
    split
    · split
      · exact (ih seen).trans (Nat.le_succ _)
      · exact Nat.succ_le_succ (ih _)
    · exact (ih seen).trans (Nat.le_succ _)

/-- When everything can be read, what is read are the readable records. -/
theorem records_of_mapM (h : d.call.records.mapM (normalizeRecord lib d.call.now) = .ok rs) :
    d.records lib = rs := by
  rw [Delivery.records]
  generalize d.call.records = sent at h
  induction sent generalizing rs with
  | nil =>
    obtain rfl := Except.ok.inj h
    rfl
  | cons j rest ih =>
    rw [List.mapM_cons, bind_eq_ok] at h
    obtain ⟨r, hr, h⟩ := h
    obtain ⟨rs', hrest, heq⟩ := bind_eq_ok.mp h
    obtain rfl := Except.ok.inj heq
    rw [List.filterMap_cons, hr, ih hrest]
    rfl

end First

variable {c : Call} {k : Checked}

/-- The checks of a call, taken apart. -/
theorem checkCall_eq_ok :
    checkCall lib c = .ok k ↔
      (∃ v, boundedText (.str c.sourceId) "source_id" 128 false = .ok v) ∧
      (∃ v, boundedText (.str c.hostname) "hostname" 255 false = .ok v) ∧
      (∃ v, boundedText (.str c.batchId) "batch_id" 256 false = .ok v) ∧
      c.records.length ≤ 500 ∧ checkError c.error = .ok k.error ∧
      c.records.mapM (normalizeRecord lib c.now) = .ok k.records := by
  simp only [checkCall, bind_eq_ok, checkCount]
  constructor
  · rintro ⟨v₁, h₁, v₂, h₂, v₃, h₃, _, hcount, e, he, rs, hrs, hk⟩
    obtain rfl := Except.ok.inj hk
    refine ⟨⟨v₁, h₁⟩, ⟨v₂, h₂⟩, ⟨v₃, h₃⟩, ?_, he, hrs⟩
    by_contra hlen
    rw [if_pos (not_le.mp hlen)] at hcount
    cases hcount
  · rintro ⟨⟨v₁, h₁⟩, ⟨v₂, h₂⟩, ⟨v₃, h₃⟩, hlen, he, hrs⟩
    exact ⟨v₁, h₁, v₂, h₂, v₃, h₃, (), if_neg (not_lt.mpr hlen), k.error, he, k.records, hrs, rfl⟩

theorem checkCall_onlyFirst (seen : List Key) (h : checkCall lib d.call = .ok k) :
    checkCall lib (d.onlyFirst lib seen).call =
      .ok ⟨firstRecords d.call.sourceId seen k.records, k.error⟩ := by
  rw [checkCall_eq_ok] at h ⊢
  obtain ⟨h₁, h₂, h₃, hlen, he, hrs⟩ := h
  exact ⟨h₁, h₂, h₃, (length_firstSent_le lib _ seen _).trans hlen, he, mapM_firstSent hrs⟩

/-! ### One batch -/

/-- The incidents of a batch. -/
def batchIds (db : Db) (changed : List Id) : List Id := (changed.map (canonicalIncident db)).dedup

/-- What `ingest` returns for a new batch. -/
def newResponse (c : Call) (st : Intake) (ids : List Id) : Response :=
  ⟨c.sourceId, c.batchId, true, st.accepted, st.duplicates, ids.insertionSort (· ≤ ·), c.now, false⟩

/-- The database after a new batch, without its row in `batches`. -/
def countedBatch (c : Call) (k : Checked) (st : Intake) (db : Db) (ids : List Id) : Db :=
  countSource (ids.foldl refreshIncident db) c.sourceId st.accepted st.duplicates
    (k.records.map fun r => r.raw.timestamp).max?

variable {db' : Db} {r : Response}

theorem commitBatch_eq_ok {db : Db} :
    commitBatch db c k = .ok (db', r) ↔ ∃ st db₁ changed batches,
      ingestRecords c ⟨touchSource db c k.error, 0, 0, []⟩ k.records = .ok st ∧
      detectAdvanced c.uuid c.now st.db st.detectionRows = .ok (db₁, changed) ∧
      (countedBatch c k st db₁ (batchIds db₁ changed)).batches.insert
        ⟨c.sourceId, c.batchId, payloadOf c k, c.now, c.records.length,
          newResponse c st (batchIds db₁ changed)⟩ = some batches ∧
      db' = { countedBatch c k st db₁ (batchIds db₁ changed) with batches := batches } ∧
      r = newResponse c st (batchIds db₁ changed) := by
  rw [commitBatch, bind_eq_ok]
  constructor
  · rintro ⟨st, hloop, hok⟩
    obtain ⟨⟨db₁, changed⟩, hdetect, hok⟩ := bind_eq_ok.mp hok
    dsimp only at hok
    split at hok
    · rename_i batches hinsert
      obtain ⟨rfl, rfl⟩ := Prod.mk.inj (Except.ok.inj hok)
      exact ⟨st, db₁, changed, batches, hloop, hdetect, hinsert, rfl, rfl⟩
    · cases hok
  · rintro ⟨st, db₁, changed, batches, hloop, hdetect, hinsert, rfl, rfl⟩
    refine ⟨st, hloop, bind_eq_ok.mpr ⟨(db₁, changed), hdetect, ?_⟩⟩
    dsimp only
    have hinsert' := hinsert
    simp only [countedBatch, batchIds, newResponse] at hinsert'
    simp only [hinsert']
    rfl

variable {st : Intake}

/-- The loop over the records, and over those that come first. -/
theorem ingestRecords_first (c' : Call) (st' : Intake) {st₁ : Intake} {seen : List Key}
    {sources : Table Source.sourceId} {batches : Table Batch.key}
    (hok : ingestRecords c st rs = .ok st₁) (hsource : c'.sourceId = c.sourceId)
    (hhost : c'.hostname = c.hostname) (hnow : c'.now = c.now)
    (hdb : st'.db = st.db.under sources batches st.db.receipts)
    (hrows : st'.detectionRows = st.detectionRows)
    (hseen : ∀ k, k ∈ seen ↔ (st.db.receipts.find? k).isSome) :
    ∃ st₁', ingestRecords c' st' (firstRecords c.sourceId seen rs) = .ok st₁' ∧
      st₁'.db = st₁.db.under sources batches st₁.db.receipts ∧ st₁'.detectionRows = st₁.detectionRows ∧
      st₁'.duplicates = st'.duplicates ∧
      ∀ k, k ∈ recordKeys c.sourceId rs ++ seen ↔ (st₁.db.receipts.find? k).isSome := by
  induction rs generalizing st st' seen with
  | nil =>
    obtain rfl := Except.ok.inj hok
    exact ⟨st', rfl, hdb, hrows, rfl, hseen⟩
  | cons r rs ih =>
    rw [ingestRecords, bind_eq_ok] at hok
    obtain ⟨st₂, hone, hrest⟩ := hok
    rw [firstRecords]
    unfold ingestRecord at hone
    split at hone
    · -- A duplicate was seen.
      rename_i prior hprior
      split at hone
      · obtain rfl := Except.ok.inj hone
        have hmem : (c.sourceId, r.raw.eventId) ∈ seen := by
          rw [hseen, hprior]
          rfl
        rw [if_pos hmem]
        obtain ⟨st₁', hok', hdb', hrows', hdup', hseen'⟩ := ih st' hrest hdb hrows hseen
        refine ⟨st₁', hok', hdb', hrows', hdup', fun k => ?_⟩
        rw [← hseen' k]
        simp only [recordKeys, List.map_cons, List.cons_append, List.mem_cons, List.mem_append]
        constructor
        · rintro (rfl | hk)
          · exact Or.inr hmem
          · exact hk
        · exact Or.inr
      · cases hone
    · rename_i hnone
      dsimp only at hone
      split at hone
      · rename_i receipts events hreceipts hevents
        obtain rfl := Except.ok.inj hone
        have hnot : (c.sourceId, r.raw.eventId) ∉ seen := by
          rw [hseen, hnone]
          exact Bool.false_ne_true
        rw [if_neg hnot]
        have hone' : ∃ st₂', ingestRecord c' st' r = .ok st₂' ∧
            st₂'.db = ({ st.db with receipts := receipts, events := events } : Db).under sources
              batches receipts ∧
            st₂'.detectionRows = (if (failureType (rowOf c.sourceId r).eventType ||
                successType (rowOf c.sourceId r).eventType) && (rowOf c.sourceId r).srcIp.isSome then
              st.detectionRows ++ [rowOf c.sourceId r] else st.detectionRows) ∧
            st₂'.duplicates = st'.duplicates := by
          unfold ingestRecord
          rw [hdb, hsource, hhost, hnow, hrows]
          have hfind : (st.db.under sources batches st.db.receipts).receipts.find? (c.sourceId, r.raw.eventId) =
              none := hnone
          have hins : (st.db.under sources batches st.db.receipts).receipts.insert ⟨c.sourceId, r.raw, c.now⟩ =
              some receipts := hreceipts
          have hins' : (st.db.under sources batches st.db.receipts).events.insert
              ⟨rowOf c.sourceId r, c.hostname, r.raw.message, c.now, none⟩ = some events := hevents
          simp only [hfind, hins, hins']
          exact ⟨_, rfl, rfl, rfl, rfl⟩
        obtain ⟨st₂', hone', hdb₂, hrows₂, hdup₂⟩ := hone'
        have hseen₂ : ∀ k, k ∈ (c.sourceId, r.raw.eventId) :: seen ↔
            (receipts.find? k).isSome := by
          intro k
          rw [Table.find?_insert hreceipts, List.mem_cons, hseen]
          have hkey : Receipt.key ⟨c.sourceId, r.raw, c.now⟩ = (c.sourceId, r.raw.eventId) := rfl
          rw [hkey]
          by_cases hk : (c.sourceId, r.raw.eventId) = k
          · simp [hk]
          · simp [hk, Ne.symm hk]
        obtain ⟨st₁', hok', hdb', hrows', hdup', hseen'⟩ := ih st₂' hrest hdb₂ hrows₂ hseen₂
        refine ⟨st₁', ?_, hdb', hrows', hdup'.trans hdup₂, fun k => ?_⟩
        · rw [ingestRecords, hone']
          exact hok'
        · rw [← hseen' k]
          simp only [recordKeys, List.map_cons, List.cons_append, List.mem_cons, List.mem_append]
          tauto
      · cases hone

theorem ingestRecords_tables {st' : Intake} (hok : ingestRecords c st rs = .ok st') :
    st'.db.sources = st.db.sources ∧ st'.db.batches = st.db.batches := by
  induction rs generalizing st with
  | nil =>
    obtain rfl := Except.ok.inj hok
    exact ⟨rfl, rfl⟩
  | cons r rs ih =>
    rw [ingestRecords, bind_eq_ok] at hok
    obtain ⟨st₁, hone, hrest⟩ := hok
    obtain ⟨hsources, hbatches⟩ := ih hrest
    rw [hsources, hbatches]
    unfold ingestRecord at hone
    split at hone
    · split at hone
      · obtain rfl := Except.ok.inj hone
        exact ⟨rfl, rfl⟩
      · cases hone
    · dsimp only at hone
      split at hone
      · obtain rfl := Except.ok.inj hone
        exact ⟨rfl, rfl⟩
      · cases hone

/-- These tables are the same. -/
def SameTables (db db' : Db) : Prop :=
  db'.sources = db.sources ∧ db'.batches = db.batches ∧ db'.receipts = db.receipts

theorem sameTables_of_under {db : Db} (h : db' = db'.under db.sources db.batches db.receipts) :
    SameTables db db' := by
  have hsources := congrArg Db.sources h
  have hbatches := congrArg Db.batches h
  have hreceipts := congrArg Db.receipts h
  exact ⟨hsources, hbatches, hreceipts⟩

theorem detectAdvanced_tables {uuid : Nat → List Char} {now : ℚ} {db : Db} {triggers : List Row}
    {changed : List Id} (hok : detectAdvanced uuid now db triggers = .ok (db', changed)) :
    SameTables db db' := by
  have hunder := detectAdvanced_under db db.sources db.batches db.receipts uuid now triggers
  rw [show db.under db.sources db.batches db.receipts = db from rfl, hok] at hunder
  exact sameTables_of_under (Prod.mk.inj (Except.ok.inj hunder)).1

theorem refreshAll_tables (db : Db) (ids : List Id) :
    SameTables db (ids.foldl refreshIncident db) :=
  sameTables_of_under (refreshAll_under db db.sources db.batches db.receipts ids)

/-- The row of a new batch. -/
def newBatch (c : Call) (k : Checked) (response : Response) : Batch :=
  ⟨c.sourceId, c.batchId, payloadOf c k, c.now, c.records.length, response⟩

theorem countedBatch_tables (k : Checked) {db : Db} {changed : List Id}
    (hdetect : detectAdvanced c.uuid c.now st.db st.detectionRows = .ok (db, changed))
    (ids : List Id) :
    (countedBatch c k st db ids).batches = st.db.batches ∧
      (countedBatch c k st db ids).receipts = st.db.receipts := by
  obtain ⟨-, hbatches, hreceipts⟩ := detectAdvanced_tables hdetect
  obtain ⟨-, hbatches', hreceipts'⟩ := refreshAll_tables db ids
  exact ⟨hbatches'.trans hbatches, hreceipts'.trans hreceipts⟩

/-- **A new batch adds its row to `batches`** and nothing else. -/
theorem batches_commitBatch {db : Db} (h : commitBatch db c k = .ok (db', r)) :
    db.batches.insert (newBatch c k r) = some db'.batches := by
  obtain ⟨st, db₁, changed, batches, hloop, hdetect, hinsert, rfl, rfl⟩ := commitBatch_eq_ok.mp h
  rw [(countedBatch_tables k hdetect _).1, (ingestRecords_tables hloop).2] at hinsert
  exact hinsert

/-- **The records that come first do the work of a batch.** -/
theorem commitBatch_first {db db₁ : Db} {seen : List Key} (sent : List Json)
    (sources : Table Source.sourceId) {batches : Table Batch.key}
    (hbatches : ∀ key, (batches.find? key).isSome = (db.batches.find? key).isSome)
    (hseen : ∀ key, key ∈ seen ↔ (db.receipts.find? key).isSome)
    (hok : commitBatch db c k = .ok (db₁, r)) :
    (∃ db₁' r' sources', commitBatch (db.under sources batches db.receipts) { c with records := sent }
        ⟨firstRecords c.sourceId seen k.records, k.error⟩ = .ok (db₁', r') ∧
      r'.replayedBatch = false ∧ r'.duplicates = 0 ∧
      db₁' = db₁.under sources' db₁'.batches db₁.receipts ∧
      ∀ key, (db₁'.batches.find? key).isSome = (db₁.batches.find? key).isSome) ∧
    ∀ key, key ∈ recordKeys c.sourceId k.records ++ seen ↔ (db₁.receipts.find? key).isSome := by
  have hinsert := batches_commitBatch hok
  obtain ⟨st, db₂, changed, batches₁, hloop, hdetect, -, hdb₁, -⟩ := commitBatch_eq_ok.mp hok
  have hreceipts : db₁.receipts = st.db.receipts := by
    rw [hdb₁]
    exact (countedBatch_tables k hdetect _).2
  obtain ⟨c', hc'⟩ : ∃ c' : Call, c' = { c with records := sent } := ⟨_, rfl⟩
  obtain ⟨k', hk'⟩ : ∃ k' : Checked, k' = ⟨firstRecords c.sourceId seen k.records, k.error⟩ := ⟨_, rfl⟩
  obtain ⟨sources₁, hsources₁⟩ : ∃ t, t = (touchSource (db.under sources batches db.receipts) c'
      k.error).sources := ⟨_, rfl⟩
  -- The loop over the first records, under the other sources and batches.
  have hstart : touchSource (db.under sources batches db.receipts) c' k.error =
      (touchSource db c k.error).under sources₁ batches db.receipts := by
    rw [hsources₁]
    rfl
  obtain ⟨st', hloop', hdb', hrows', hdup', hseen'⟩ := ingestRecords_first c'
    ⟨touchSource (db.under sources batches db.receipts) c' k.error, 0, 0, []⟩
    hloop (by rw [hc']) (by rw [hc']) (by rw [hc']) hstart rfl hseen
  have hdetect' : detectAdvanced c'.uuid c'.now st'.db st'.detectionRows =
      .ok (db₂.under sources₁ batches st.db.receipts, changed) := by
    rw [hdb', hrows', hc', detectAdvanced_under, hdetect]
    rfl
  have hcounted : ∃ sources', countedBatch c' k' st' (db₂.under sources₁ batches st.db.receipts)
      (batchIds db₂ changed) = (countedBatch c k st db₂ (batchIds db₂ changed)).under sources' batches
        st.db.receipts := by
    rw [countedBatch, refreshAll_under]
    exact ⟨_, rfl⟩
  obtain ⟨sources', hcounted⟩ := hcounted
  -- The batch is new there, too.
  have hfresh : batches.find? (c.sourceId, c.batchId) = none := by
    have hnone : db.batches.find? (c.sourceId, c.batchId) = none := Table.find?_none_of_insert hinsert
    have hsame := hbatches (c.sourceId, c.batchId)
    rw [hnone] at hsame
    exact Option.not_isSome_iff_eq_none.mp (by simp [hsame])
  have hbatches' : ∃ batches', batches.insert (newBatch c' k' (newResponse c' st'
      (batchIds db₂ changed))) = some batches' := by
    cases hins : batches.insert (newBatch c' k' (newResponse c' st' (batchIds db₂ changed))) with
    | some batches' => exact ⟨batches', rfl⟩
    | none =>
      have hsome := Table.insert_eq_none_iff.mp hins
      rw [show Batch.key (newBatch c' k' _) = (c.sourceId, c.batchId) by rw [hc']; rfl, hfresh] at hsome
      cases hsome
  obtain ⟨batches', hins⟩ := hbatches'
  refine ⟨⟨{ countedBatch c' k' st' (db₂.under sources₁ batches st.db.receipts)
      (batchIds db₂ changed) with batches := batches' }, newResponse c' st' (batchIds db₂ changed),
    sources', ?_, rfl, hdup', ?_, fun key => ?_⟩, fun key => ?_⟩
  · rw [← hc', ← hk', commitBatch_eq_ok]
    refine ⟨st', db₂.under sources₁ batches st.db.receipts, changed, batches', ?_, hdetect', ?_, rfl, rfl⟩
    · rw [hk']
      exact hloop'
    · have hids : batchIds (db₂.under sources₁ batches st.db.receipts) changed = batchIds db₂ changed :=
        rfl
      rw [hids, hcounted]
      exact hins
  · rw [hcounted, hreceipts, hdb₁]
    rfl
  · show (batches'.find? key).isSome = _
    rw [Table.find?_insert hins, Table.find?_insert hinsert]
    have hkey : Batch.key (newBatch c' k' (newResponse c' st' (batchIds db₂ changed))) =
        Batch.key (newBatch c k r) := by rw [hc']; rfl
    rw [hkey]
    split
    · rfl
    · exact hbatches key
  · rw [hreceipts]
    exact hseen' key

/-! ### One delivery -/

/-- The row of a batch that was committed before. -/
def Replays (db : Db) (c : Call) (k : Checked) (batch : Batch) : Prop :=
  db.batches.find? (c.sourceId, c.batchId) = some batch ∧ batch.payload = payloadOf c k

variable {env : Env} {s : Live}

theorem ingestLive_replay {batch : Batch} (hk : checkCall env.lib d.call = .ok k)
    (h : Replays s.db d.call k batch) :
    ingestLive env d s = (.ok (replayBatch s.db d.call k batch).2,
      { s with db := (replayBatch s.db d.call k batch).1 }) := by
  have hingest : ingest env.lib s.db d.call = .ok (replayBatch s.db d.call k batch) := by
    unfold ingest
    rw [hk]
    dsimp only [bind, Except.bind]
    rw [h.1]
    exact if_pos h.2
  have hreplayed : (replayBatch s.db d.call k batch).2.replayedBatch = true := rfl
  rw [ingestLive, connection, ingestBody, hingest]
  dsimp only
  rw [if_pos hreplayed]

theorem ingestLive_new {db : Db} (hk : checkCall env.lib d.call = .ok k)
    (hnew : s.db.batches.find? (d.call.sourceId, d.call.batchId) = none)
    (hcommit : commitBatch s.db d.call k = .ok (db, r))
    (hrecord : recordBatch env d.collectedAt = .ok ()) (hreplayed : r.replayedBatch = false) :
    ingestLive env d s = (.ok r, dailyCleanup env d.call.now { s with db := db }) := by
  have hingest : ingest env.lib s.db d.call = .ok (db, r) := by
    unfold ingest
    rw [hk]
    dsimp only [bind, Except.bind]
    rw [hnew]
    exact hcommit
  rw [ingestLive, connection, ingestBody, hingest]
  dsimp only
  rw [if_neg (by rw [hreplayed]; exact Bool.false_ne_true), hrecord]

variable {s' : Live}

/-- **What an acknowledged delivery did**: it repeated a batch, or committed a new one. -/
theorem ingestLive_cases (h : ingestLive env d s = (.ok r, s')) :
    ∃ k, checkCall env.lib d.call = .ok k ∧
      ((∃ batch, Replays s.db d.call k batch ∧ r = (replayBatch s.db d.call k batch).2 ∧
        s' = { s with db := (replayBatch s.db d.call k batch).1 }) ∨
      (s.db.batches.find? (d.call.sourceId, d.call.batchId) = none ∧
        recordBatch env d.collectedAt = .ok () ∧ r.replayedBatch = false ∧
        ∃ db, commitBatch s.db d.call k = .ok (db, r) ∧
          s' = dailyCleanup env d.call.now { s with db := db })) := by
  cases hk : checkCall env.lib d.call with
  | error e => simp [ingestLive, connection, ingestBody, ingest, hk, bind, Except.bind] at h
  | ok k =>
    refine ⟨k, rfl, ?_⟩
    cases hfind : s.db.batches.find? (d.call.sourceId, d.call.batchId) with
    | some batch =>
      by_cases hpayload : batch.payload = payloadOf d.call k
      · rw [ingestLive_replay hk ⟨hfind, hpayload⟩] at h
        obtain ⟨hr, hs'⟩ := Prod.mk.inj h
        exact Or.inl ⟨batch, ⟨hfind, hpayload⟩, (Except.ok.inj hr).symm, hs'.symm⟩
      · simp [ingestLive, connection, ingestBody, ingest, hk, bind, Except.bind, hfind,
          hpayload] at h
    | none =>
      cases hcommit : commitBatch s.db d.call k with
      | error e => simp [ingestLive, connection, ingestBody, ingest, hk, bind, Except.bind, hfind,
          hcommit] at h
      | ok out =>
        obtain ⟨db, r₁⟩ := out
        have hreplayed : r₁.replayedBatch = false := by
          obtain ⟨st, db₁, changed, batches, -, -, -, -, rfl⟩ := commitBatch_eq_ok.mp hcommit
          rfl
        cases hrecord : recordBatch env d.collectedAt with
        | error e => simp [ingestLive, connection, ingestBody, ingest, hk, bind, Except.bind,
            hfind, hcommit, hreplayed, hrecord] at h
        | ok u =>
          rw [ingestLive_new hk hfind hcommit hrecord hreplayed] at h
          obtain ⟨hr, hs'⟩ := Prod.mk.inj h
          obtain rfl := Except.ok.inj hr
          exact Or.inr ⟨rfl, rfl, hreplayed, db, rfl, hs'.symm⟩

/-- **A call that raises changes nothing.** -/
theorem ingestLive_error {e : String} (h : ingestLive env d s = (.error e, s')) : s' = s := by
  rw [ingestLive, connection] at h
  split at h
  · cases (Prod.mk.inj h).1
  · exact (Prod.mk.inj h).2.symm

/-! ### The run of first deliveries -/

/-- The same records, incidents and batch ids; sources and answers may differ. -/
structure SameRecords (s s' : Live) : Prop where
  db : ∃ sources batches, s'.db = s.db.under sources batches s.db.receipts
  cleanup : s'.lastCleanup = s.lastCleanup
  batches : ∀ key, (s'.db.batches.find? key).isSome = (s.db.batches.find? key).isSome

theorem dailyCleanup_under (env : Env) (now : ℚ) (db : Db) (last : Option ℤ)
    (sources : Table Source.sourceId) (batches : Table Batch.key) (receipts : Table Receipt.key) :
    dailyCleanup env now ⟨db.under sources batches receipts, last⟩ =
      ⟨(dailyCleanup env now ⟨db, last⟩).db.under sources batches receipts,
        (dailyCleanup env now ⟨db, last⟩).lastCleanup⟩ := by
  rw [dailyCleanup, dailyCleanup]
  dsimp only
  split
  · rfl
  · rfl

theorem dailyCleanup_tables (env : Env) (now : ℚ) (s : Live) :
    SameTables s.db (dailyCleanup env now s).db := by
  rw [dailyCleanup]
  split
  · exact ⟨rfl, rfl, rfl⟩
  · exact ⟨rfl, rfl, rfl⟩

/-- A delivery is acknowledged as new, without duplicates. -/
def AcceptedAsNew (env : Env) (s : Live) (d : Delivery) : Prop :=
  ∃ r s', ingestLive env d s = (.ok r, s') ∧ r.replayedBatch = false ∧ r.duplicates = 0

/-- **One delivery that is acknowledged as new**, and its first records. -/
theorem SameRecords.first {s₁ : Live} {seen : List Key} (h : SameRecords s s')
    (hseen : ∀ key, key ∈ seen ↔ (s.db.receipts.find? key).isSome)
    (hok : ingestLive env d s = (.ok r, s₁)) (hreplayed : r.replayedBatch = false) :
    AcceptedAsNew env s' (d.onlyFirst env.lib seen) ∧
      SameRecords s₁ (afterDelivery env s' (d.onlyFirst env.lib seen)) ∧
      ∀ key, key ∈ d.keys env.lib ++ seen ↔ (s₁.db.receipts.find? key).isSome := by
  obtain ⟨k, hk, ⟨batch, -, rfl, -⟩ | ⟨hnew, hrecord, -, db₁, hcommit, rfl⟩⟩ := ingestLive_cases hok
  · cases hreplayed
  · obtain ⟨sources, batches, hdb⟩ := h.db
    have hbatches : ∀ key, (batches.find? key).isSome = (s.db.batches.find? key).isSome := by
      intro key
      rw [← h.batches key, hdb]
      rfl
    obtain ⟨⟨db₁', r', sources', hcommit', hreplayed', hdup', hdb₁', hsame⟩, hkeys⟩ :=
      commitBatch_first (firstSent env.lib d.call.now d.call.sourceId seen d.call.records) sources
        hbatches hseen hcommit
    have hk' := checkCall_onlyFirst seen hk
    have hnew' : s'.db.batches.find? (d.call.sourceId, d.call.batchId) = none := by
      have := h.batches (d.call.sourceId, d.call.batchId)
      rw [hnew] at this
      exact Option.not_isSome_iff_eq_none.mp (by simp [this])
    have hlive : ingestLive env (d.onlyFirst env.lib seen) s' =
        (.ok r', dailyCleanup env d.call.now { s' with db := db₁' }) := by
      refine ingestLive_new hk' hnew' ?_ hrecord hreplayed'
      rw [hdb]
      exact hcommit'
    have hrecords : d.records env.lib = k.records :=
      records_of_mapM (checkCall_eq_ok.mp hk).2.2.2.2.2
    obtain ⟨-, hbatches₁, hreceipts₁⟩ := dailyCleanup_tables env d.call.now { s with db := db₁ }
    refine ⟨⟨r', _, hlive, hreplayed', hdup'⟩, ?_, fun key => ?_⟩
    · rw [afterDelivery, hlive, hdb₁', h.cleanup]
      show SameRecords _ (dailyCleanup env d.call.now
        ⟨db₁.under sources' db₁'.batches db₁.receipts, s.lastCleanup⟩)
      rw [dailyCleanup_under]
      refine ⟨⟨sources', db₁'.batches, ?_⟩, rfl, fun key => ?_⟩
      · rw [hreceipts₁]
      · rw [hbatches₁]
        exact hsame key
    · rw [hreceipts₁, Delivery.keys, hrecords]
      exact hkeys key

theorem once_simulates (env : Env) {seen : List Key} (ds : List Delivery) (h : SameRecords s s')
    (hseen : ∀ key, key ∈ seen ↔ (s.db.receipts.find? key).isSome) :
    SameRecords (run (afterDelivery env) s ds) (run (afterDelivery env) s' (once env seen s ds)) ∧
      StepsSatisfy (afterDelivery env) (AcceptedAsNew env) s' (once env seen s ds) := by
  induction ds generalizing s s' seen with
  | nil => exact ⟨h, trivial⟩
  | cons d ds ih =>
    rw [once, run_cons]
    split
    · rename_i r s₁ hok
      have hafter : afterDelivery env s d = s₁ := by rw [afterDelivery, hok]
      rw [hafter]
      split
      · -- A repeated batch changes only its source.
        rename_i hreplayed
        obtain ⟨k, -, ⟨batch, -, -, rfl⟩ | ⟨-, -, hnot, -⟩⟩ := ingestLive_cases hok
        · obtain ⟨sources, batches, hdb⟩ := h.db
          exact ih ⟨⟨sources, batches, hdb⟩, h.cleanup, h.batches⟩ hseen
        · rw [hnot] at hreplayed
          cases hreplayed
      · rename_i hreplayed
        obtain ⟨hnew, hsame, hkeys⟩ := h.first hseen hok (by simpa using hreplayed)
        obtain ⟨hrun, hsteps⟩ := ih hsame hkeys
        exact ⟨hrun, hnew, hsteps⟩
    · rename_i e s₁ hok
      have hafter : afterDelivery env s d = s := by
        rw [afterDelivery, hok]
        exact ingestLive_error hok
      rw [hafter]
      exact ih h hseen

/-- No key is delivered twice. -/
theorem nodup_once (seen : List Key) (s : Live) (ds : List Delivery) :
    ((once env seen s ds).flatMap (Delivery.keys env.lib)).Nodup ∧
      ∀ key ∈ (once env seen s ds).flatMap (Delivery.keys env.lib), key ∉ seen := by
  induction ds generalizing s seen with
  | nil => exact ⟨List.nodup_nil, fun _ h => absurd h List.not_mem_nil⟩
  | cons d ds ih =>
    rw [once]
    split
    · rename_i r s₁ hok
      split
      · exact ih seen s₁
      · obtain ⟨k, hk, -⟩ := ingestLive_cases hok
        have hrecords : d.records env.lib = k.records :=
          records_of_mapM (checkCall_eq_ok.mp hk).2.2.2.2.2
        have hfirst : (d.onlyFirst env.lib seen).keys env.lib =
            recordKeys d.call.sourceId (firstRecords d.call.sourceId seen k.records) := by
          rw [Delivery.keys]
          exact congrArg _ (records_of_mapM
            (checkCall_eq_ok.mp (checkCall_onlyFirst seen hk)).2.2.2.2.2)
        obtain ⟨hnodup, hfresh⟩ := ih (d.keys env.lib ++ seen) s₁
        rw [List.flatMap_cons, hfirst]
        refine ⟨List.nodup_append.mpr ⟨nodup_keys_firstRecords seen _, hnodup, ?_⟩, ?_⟩
        · rintro key hkey _ hkey' rfl
          refine hfresh key hkey' (List.mem_append_left _ ?_)
          rw [Delivery.keys, hrecords]
          exact (mem_keys_firstRecords.mp hkey).1
        · intro key hkey
          rcases List.mem_append.mp hkey with hkey | hkey
          · exact (mem_keys_firstRecords.mp hkey).2
          · exact fun hmem => hfresh key hkey (List.mem_append_right _ hmem)
    · exact ih seen s

/-! ### The counters of a source -/

/-- `accepted_total` of a source. -/
def acceptedOf (db : Db) (sourceId : List Char) : Nat :=
  ((db.sources.find? sourceId).map Source.acceptedTotal).getD 0

/-- The number of receipts of a source. -/
def receiptsOf (db : Db) (sourceId : List Char) : Nat :=
  db.receipts.rows.countP fun r => r.sourceId = sourceId

/-- The counters of the sources count their receipts, and every receipt has its source. -/
structure Counted (db : Db) : Prop where
  accepted : ∀ sourceId, acceptedOf db sourceId = receiptsOf db sourceId
  known : ∀ r ∈ db.receipts, (db.sources.find? r.sourceId).isSome

theorem find?_touchSource (db : Db) (c : Call) (error : Option (List Char)) (sourceId : List Char) :
    ((touchSource db c error).sources.find? sourceId).isSome =
        (decide (sourceId = c.sourceId) || (db.sources.find? sourceId).isSome) ∧
      acceptedOf (touchSource db c error) sourceId = acceptedOf db sourceId := by
  simp only [acceptedOf, touchSource, Table.find?_replace]
  cases hfind : db.sources.find? c.sourceId with
  | none =>
    by_cases hid : sourceId = c.sourceId
    · simp [hid, hfind]
    · simp [hid, Ne.symm hid]
  | some x =>
    have hx : x.sourceId = c.sourceId := Table.find?_key hfind
    by_cases hid : sourceId = c.sourceId
    · simp [hid, hfind, hx]
    · simp [hid, Ne.symm hid, hx]

theorem find?_countSource {db : Db} {sourceId : List Char} (hknown : (db.sources.find? sourceId).isSome)
    (accepted duplicates : Nat) (latest : Option ℚ) (other : List Char) :
    ((countSource db sourceId accepted duplicates latest).sources.find? other).isSome =
        (db.sources.find? other).isSome ∧
      acceptedOf (countSource db sourceId accepted duplicates latest) other =
        acceptedOf db other + if other = sourceId then accepted else 0 := by
  simp only [acceptedOf, countSource, Table.find?_update]
  cases hfind : db.sources.find? other with
  | none =>
    have hne : other ≠ sourceId := by
      rintro rfl
      rw [hfind] at hknown
      cases hknown
    simp [hne]
  | some x =>
    have hx : x.sourceId = other := Table.find?_key hfind
    by_cases hid : other = sourceId
    · simp [hx, hid]
    · simp [hx, hid]

/-- The loop counts the receipts it writes. -/
theorem ingestRecords_counts {st' : Intake} (hok : ingestRecords c st rs = .ok st') :
    (∀ sourceId, receiptsOf st'.db sourceId + (if sourceId = c.sourceId then st.accepted else 0) =
      receiptsOf st.db sourceId + if sourceId = c.sourceId then st'.accepted else 0) ∧
    ∀ r ∈ st'.db.receipts, r ∈ st.db.receipts ∨ r.sourceId = c.sourceId := by
  induction rs generalizing st with
  | nil =>
    obtain rfl := Except.ok.inj hok
    exact ⟨fun _ => rfl, fun _ hr => Or.inl hr⟩
  | cons x rs ih =>
    rw [ingestRecords, bind_eq_ok] at hok
    obtain ⟨st₁, hone, hrest⟩ := hok
    obtain ⟨hcount, hmem⟩ := ih hrest
    unfold ingestRecord at hone
    split at hone
    · split at hone
      · obtain rfl := Except.ok.inj hone
        exact ⟨hcount, hmem⟩
      · cases hone
    · dsimp only at hone
      split at hone
      · rename_i receipts events hreceipts hevents
        obtain rfl := Except.ok.inj hone
        refine ⟨fun sourceId => ?_, fun r hr => ?_⟩
        · have hadded : receiptsOf { st.db with receipts := receipts, events := events } sourceId =
              receiptsOf st.db sourceId + if sourceId = c.sourceId then 1 else 0 := by
            rw [receiptsOf, receiptsOf, Table.rows_of_insert hreceipts, List.countP_append]
            by_cases hid : sourceId = c.sourceId
            · simp [hid]
            · simp [hid, Ne.symm hid]
          have htotal := hcount sourceId
          dsimp only at htotal
          rw [hadded] at htotal
          by_cases hid : sourceId = c.sourceId
          · simp only [if_pos hid] at htotal ⊢
            omega
          · simp only [if_neg hid] at htotal ⊢
            omega
        · rcases hmem r hr with hr | hr
          · rcases (Table.mem_of_insert hreceipts).mp hr with hr | rfl
            · exact Or.inl hr
            · exact Or.inr rfl
          · exact Or.inr hr
      · cases hone

theorem Counted.congr {db : Db} (h : Counted db) (hsame : SameTables db db') : Counted db' := by
  obtain ⟨hsources, -, hreceipts⟩ := hsame
  refine ⟨fun sourceId => ?_, fun r hr => ?_⟩
  · rw [acceptedOf, receiptsOf, hsources, hreceipts]
    exact h.accepted sourceId
  · rw [hsources]
    exact h.known r (hreceipts ▸ hr)

theorem Counted.commitBatch {db : Db} (h : Counted db) (hok : commitBatch db c k = .ok (db', r)) :
    Counted db' := by
  obtain ⟨st, db₁, changed, batches, hloop, hdetect, -, rfl, -⟩ := commitBatch_eq_ok.mp hok
  obtain ⟨hcount, hmem⟩ := ingestRecords_counts hloop
  obtain ⟨hsources₁, -, hreceipts₁⟩ := detectAdvanced_tables hdetect
  obtain ⟨hsources₂, -, hreceipts₂⟩ := refreshAll_tables db₁ (batchIds db₁ changed)
  have hsources : ((batchIds db₁ changed).foldl refreshIncident db₁).sources =
      (touchSource db c k.error).sources :=
    hsources₂.trans (hsources₁.trans (ingestRecords_tables hloop).1)
  have hreceipts : ((batchIds db₁ changed).foldl refreshIncident db₁).receipts = st.db.receipts :=
    hreceipts₂.trans hreceipts₁
  have hknown : (((batchIds db₁ changed).foldl refreshIncident db₁).sources.find? c.sourceId).isSome := by
    rw [hsources, (find?_touchSource db c k.error c.sourceId).1]
    simp
  have hcounted := find?_countSource hknown st.accepted st.duplicates
    (k.records.map fun r => r.raw.timestamp).max?
  refine ⟨fun sourceId => ?_, fun r hr => ?_⟩
  · refine (hcounted sourceId).2.trans ?_
    have hold : acceptedOf ((batchIds db₁ changed).foldl refreshIncident db₁) sourceId =
        receiptsOf db sourceId := by
      rw [acceptedOf, hsources, ← h.accepted sourceId]
      exact (find?_touchSource db c k.error sourceId).2
    have hnew := hcount sourceId
    have hstart : receiptsOf (touchSource db c k.error) sourceId = receiptsOf db sourceId := rfl
    have hend : receiptsOf { countedBatch c k st db₁ (batchIds db₁ changed) with batches := batches }
        sourceId = receiptsOf st.db sourceId := by
      rw [receiptsOf, receiptsOf, ← hreceipts]
      rfl
    simp only [hstart, ite_self, add_zero] at hnew
    rw [hold, hend, hnew]
  · have hr' : r ∈ st.db.receipts := by
      rw [← hreceipts]
      exact hr
    refine Eq.trans (hcounted r.sourceId).1 ?_
    rw [hsources, (find?_touchSource db c k.error r.sourceId).1]
    rcases hmem r hr' with hold | hnew
    · simp [h.known r hold]
    · simp [hnew]

theorem Counted.replayBatch {db : Db} (h : Counted db) (c : Call) (k : Checked) (batch : Batch) :
    Counted (replayBatch db c k batch).1 := by
  have hknown : ((touchSource db c k.error).sources.find? c.sourceId).isSome := by
    rw [(find?_touchSource db c k.error c.sourceId).1]
    simp
  have hcounted := find?_countSource hknown 0 c.records.length none
  refine ⟨fun sourceId => ?_, fun r hr => ?_⟩
  · refine (hcounted sourceId).2.trans ?_
    rw [ite_self, add_zero, (find?_touchSource db c k.error sourceId).2]
    exact h.accepted sourceId
  · refine Eq.trans (hcounted r.sourceId).1 ?_
    rw [(find?_touchSource db c k.error r.sourceId).1, h.known r hr, Bool.or_true]

theorem Counted.next (h : Counted s.db) (d : Delivery) : Counted (afterDelivery env s d).db := by
  rw [afterDelivery]
  cases hok : ingestLive env d s with
  | mk result s' =>
    cases result with
    | error e =>
      obtain rfl := ingestLive_error hok
      exact h
    | ok r =>
      obtain ⟨k, -, ⟨batch, -, -, rfl⟩ | ⟨-, -, -, db, hcommit, rfl⟩⟩ := ingestLive_cases hok
      · exact h.replayBatch d.call k batch
      · exact (h.commitBatch hcommit).congr (dailyCleanup_tables env d.call.now { s with db := db })

theorem counted_init : Counted Live.init.db := by
  refine ⟨fun _ => rfl, fun r hr => ?_⟩
  simp [Live.init, Db.init] at hr

/-! ### Batches are acknowledged again -/

/-- The canonical forms of some incident ids, as an acknowledgement lists them. -/
def canonicalForms (db : Db) (ids : List Id) : List Id :=
  ((ids.map (canonicalIncident db)).dedup).insertionSort (· ≤ ·)

/-- The arguments of a delivery, sent again. -/
structure Redelivers (d d' : Delivery) : Prop where
  sourceId : d'.call.sourceId = d.call.sourceId
  hostname : d'.call.hostname = d.call.hostname
  batchId : d'.call.batchId = d.call.batchId
  records : d'.call.records = d.call.records
  error : d'.call.error = d.call.error

theorem canonicalForms_congr {db : Db} {ids ids' : List Id}
    (h : ∀ i, i ∈ ids.map (canonicalIncident db) ↔ i ∈ ids'.map (canonicalIncident db)) :
    canonicalForms db ids = canonicalForms db ids' := by
  have hperm : (ids.map (canonicalIncident db)).dedup.Perm (ids'.map (canonicalIncident db)).dedup := by
    rw [List.perm_ext_iff_of_nodup (List.nodup_dedup _) (List.nodup_dedup _)]
    intro i
    rw [List.mem_dedup, List.mem_dedup, h i]
  rw [canonicalForms, canonicalForms]
  refine List.Perm.eq_of_pairwise' (List.pairwise_insertionSort _ _)
    (List.pairwise_insertionSort _ _) ?_
  exact (List.perm_insertionSort _ _).trans (hperm.trans (List.perm_insertionSort _ _).symm)

/-- Canonical forms of canonical forms, when merges were only added. -/
theorem canonicalForms_forms {db : Db} (holder : db'.view.MergedOlder)
    (hkept : ∀ i t, mergedInto db i = some t → mergedInto db' i = some t) (ids : List Id) :
    canonicalForms db' (canonicalForms db ids) = canonicalForms db' ids := by
  have hcanonical : ∀ i, canonicalIncident db' (canonicalIncident db i) = canonicalIncident db' i := by
    intro i
    simp only [canonicalIncident, followMerges_eq_climb]
    exact (descends_mergedInto holder).climb_extend (card_incidents_le db') hkept i
  refine canonicalForms_congr fun i => ?_
  simp only [canonicalForms, List.mem_map, List.mem_insertionSort, List.mem_dedup]
  constructor
  · rintro ⟨_, ⟨j, hj, rfl⟩, rfl⟩
    exact ⟨j, hj, (hcanonical j).symm⟩
  · rintro ⟨j, hj, rfl⟩
    exact ⟨_, ⟨j, hj, rfl⟩, hcanonical j⟩

section Clock

variable {lib : Library} {now : ℚ} (now' : ℚ)

/-- The clock decides whether a timestamp passes, never what it reads. -/
theorem checkInstant_clock {t : List Char} {x : ℚ} (h : checkInstant lib now t = .ok x) :
    (now ≤ now' → checkInstant lib now' t = .ok x) ∧
      ∀ x', checkInstant lib now' t = .ok x' → x' = x := by
  unfold checkInstant at h ⊢
  cases hread : lib.instant t with
  | none =>
    rw [hread] at h
    cases h
  | some y =>
    rw [hread] at h
    dsimp only at h ⊢
    split at h
    · cases h
    · rename_i hle
      obtain rfl := Except.ok.inj h
      refine ⟨fun hnow => ?_, fun x' hx' => ?_⟩
      · rw [if_neg]
        exact fun hlt => hle (lt_of_le_of_lt (by linarith) hlt)
      · split at hx'
        · cases hx'
        · exact (Except.ok.inj hx').symm

theorem normalizeRecord_clock {sent : Json} {r : Normalized}
    (h : normalizeRecord lib now sent = .ok r) :
    (now ≤ now' → normalizeRecord lib now' sent = .ok r) ∧
      ∀ r', normalizeRecord lib now' sent = .ok r' → r' = r := by
  cases sent with
  | obj members =>
    simp only [normalizeRecord, bind_eq_ok] at h ⊢
    obtain ⟨eventId, heventId, timestamp, htimestamp, x, hx, message, hmessage, unit, hunit,
      identifier, hidentifier, priority, hpriority, hr⟩ := h
    obtain ⟨hlater, hsame⟩ := checkInstant_clock now' hx
    refine ⟨fun hnow => ⟨eventId, heventId, timestamp, htimestamp, x, hlater hnow, message, hmessage,
      unit, hunit, identifier, hidentifier, priority, hpriority, hr⟩, ?_⟩
    rintro r' ⟨eventId', heventId', timestamp', htimestamp', x', hx', message', hmessage', unit',
      hunit', identifier', hidentifier', priority', hpriority', hr'⟩
    obtain rfl := Except.ok.inj (heventId.symm.trans heventId')
    obtain rfl := Except.ok.inj (htimestamp.symm.trans htimestamp')
    obtain rfl := hsame x' hx'
    obtain rfl := Except.ok.inj (hmessage.symm.trans hmessage')
    obtain rfl := Except.ok.inj (hunit.symm.trans hunit')
    obtain rfl := Except.ok.inj (hidentifier.symm.trans hidentifier')
    obtain rfl := Except.ok.inj (hpriority.symm.trans hpriority')
    exact Except.ok.inj (hr'.symm.trans hr)
  | _ => cases h

theorem mapM_clock {sent : List Json} (h : sent.mapM (normalizeRecord lib now) = .ok rs) :
    (now ≤ now' → sent.mapM (normalizeRecord lib now') = .ok rs) ∧
      ∀ rs', sent.mapM (normalizeRecord lib now') = .ok rs' → rs' = rs := by
  induction sent generalizing rs with
  | nil => exact ⟨fun _ => h, fun rs' hrs' => Except.ok.inj (hrs'.symm.trans h)⟩
  | cons j rest ih =>
    rw [List.mapM_cons, bind_eq_ok] at h
    obtain ⟨r, hr, h⟩ := h
    obtain ⟨rs₁, hrest, heq⟩ := bind_eq_ok.mp h
    obtain rfl := Except.ok.inj heq
    obtain ⟨hlater, hsame⟩ := normalizeRecord_clock now' hr
    obtain ⟨hlater', hsame'⟩ := ih hrest
    refine ⟨fun hnow => ?_, fun rs' hrs' => ?_⟩
    · rw [List.mapM_cons, hlater hnow, hlater' hnow]
      rfl
    · rw [List.mapM_cons, bind_eq_ok] at hrs'
      obtain ⟨r', hr', hrs'⟩ := hrs'
      obtain ⟨rs₁', hrest', heq'⟩ := bind_eq_ok.mp hrs'
      obtain rfl := Except.ok.inj heq'
      rw [hsame r' hr', hsame' rs₁' hrest']

end Clock

/-- The same arguments pass the checks later, and whenever they pass they mean the same. -/
theorem Redelivers.check {d' : Delivery} (h : Redelivers d d') (hk : checkCall lib d.call = .ok k) :
    (d.call.now ≤ d'.call.now → checkCall lib d'.call = .ok k) ∧
      ∀ k', checkCall lib d'.call = .ok k' → k' = k := by
  obtain ⟨h₁, h₂, h₃, hlen, he, hrs⟩ := checkCall_eq_ok.mp hk
  obtain ⟨hlater, hsame⟩ := mapM_clock d'.call.now hrs
  refine ⟨fun hnow => checkCall_eq_ok.mpr ?_, fun k' hk' => ?_⟩
  · rw [h.sourceId, h.hostname, h.batchId, h.records, h.error]
    exact ⟨h₁, h₂, h₃, hlen, he, hlater hnow⟩
  · obtain ⟨-, -, -, -, he', hrs'⟩ := checkCall_eq_ok.mp hk'
    rw [h.error] at he'
    rw [h.records] at hrs'
    have herror : k'.error = k.error := Except.ok.inj (he'.symm.trans he)
    have hrecords : k'.records = k.records := hsame k'.records hrs'
    obtain ⟨rs, e⟩ := k
    obtain ⟨rs', e'⟩ := k'
    dsimp only at herror hrecords
    rw [herror, hrecords]

/-- What later deliveries keep: merges and batches, which are all durable. -/
structure Remembers (s s' : Live) : Prop where
  merged : ∀ i t, mergedInto s.db i = some t → mergedInto s'.db i = some t
  batches : ∀ key batch, s.db.batches.find? key = some batch → s'.db.batches.find? key = some batch

/-- What holds between two deliveries. -/
structure Consistent (s : Live) : Prop where
  kept : Kept s.db fun _ => False
  durable : ∀ batch ∈ s.db.batches, batch.response.durable = true

theorem consistent_init : Consistent .init := by
  refine ⟨kept_init, fun batch hbatch => ?_⟩
  simp [Live.init, Db.init] at hbatch

theorem Consistent.next (env : Env) (h : Consistent s) (d : Delivery) :
    Consistent (afterDelivery env s d) ∧ Remembers s (afterDelivery env s d) := by
  rw [afterDelivery]
  cases hok : ingestLive env d s with
  | mk result s' =>
    cases result with
    | error e =>
      obtain rfl := ingestLive_error hok
      exact ⟨h, fun _ _ ht => ht, fun _ _ hb => hb⟩
    | ok r =>
      have hkept := h.kept.ingestLive hok
      have hmerged := (watch_changes (changes_ingestLive h.kept hok)).merged
      obtain ⟨k, -, ⟨batch, -, -, rfl⟩ | ⟨hnew, -, -, db, hcommit, rfl⟩⟩ := ingestLive_cases hok
      · exact ⟨⟨hkept, h.durable⟩, hmerged, fun _ _ hb => hb⟩
      · have hinsert := batches_commitBatch hcommit
        obtain ⟨-, hbatches, -⟩ := dailyCleanup_tables env d.call.now { s with db := db }
        have hdurable : r.durable = true := by
          obtain ⟨st, db₁, changed, batches, -, -, -, -, rfl⟩ := commitBatch_eq_ok.mp hcommit
          rfl
        refine ⟨⟨hkept, fun batch hbatch => ?_⟩, hmerged, fun key batch hb => ?_⟩
        · rw [hbatches] at hbatch
          rcases (Table.mem_of_insert hinsert).mp hbatch with hold | rfl
          · exact h.durable batch hold
          · exact hdurable
        · rw [hbatches]
          show db.batches.find? key = some batch
          rw [Table.find?_insert hinsert, if_neg]
          · exact hb
          · rintro rfl
            rw [show Batch.key (newBatch d.call k r) = (d.call.sourceId, d.call.batchId) from rfl,
              hnew] at hb
            cases hb

theorem Consistent.deliveries (env : Env) (h : Consistent s) (ds : List Delivery) :
    Consistent (run (afterDelivery env) s ds) ∧ Remembers s (run (afterDelivery env) s ds) := by
  induction ds generalizing s with
  | nil => exact ⟨h, fun _ _ ht => ht, fun _ _ hb => hb⟩
  | cons d ds ih =>
    obtain ⟨hone, hremembers⟩ := h.next env d
    obtain ⟨hend, hrest⟩ := ih hone
    exact ⟨hend, fun i t ht => hrest.merged i t (hremembers.merged i t ht),
      fun key batch hb => hrest.batches key batch (hremembers.batches key batch hb)⟩

/-- The row behind an acknowledgement. -/
theorem Consistent.acknowledged (h : Consistent s) (hok : ingestLive env d s = (.ok r, s')) :
    ∃ k batch, checkCall env.lib d.call = .ok k ∧ Replays s'.db d.call k batch ∧
      ∀ s₂, Remembers s' s₂ → Consistent s₂ →
        canonicalForms s₂.db batch.response.incidentIds = canonicalForms s₂.db r.incidentIds := by
  have hremembers : Remembers s s' := by
    have := (h.next env d).2
    rwa [afterDelivery, hok] at this
  obtain ⟨k, hk, ⟨batch, hreplays, rfl, rfl⟩ | ⟨hnew, -, -, db, hcommit, rfl⟩⟩ := ingestLive_cases hok
  · refine ⟨k, batch, hk, hreplays, fun s₂ hlater hs₂ => ?_⟩
    exact (canonicalForms_forms hs₂.kept.mergedOlder
      (fun i t ht => hlater.merged i t (hremembers.merged i t ht)) _).symm
  · obtain ⟨-, hbatches, -⟩ := dailyCleanup_tables env d.call.now { s with db := db }
    refine ⟨k, newBatch d.call k r, hk, ⟨?_, rfl⟩, fun _ _ _ => rfl⟩
    rw [hbatches]
    show db.batches.find? _ = _
    rw [Table.find?_insert (batches_commitBatch hcommit)]
    exact if_pos rfl

/-- **An acknowledged batch is acknowledged again.** -/
theorem Consistent.replays {d' : Delivery} (h : Consistent s)
    (hok : ingestLive env d s = (.ok r, s')) (more : List Delivery) (hsame : Redelivers d d')
    (hcheck : d.call.now ≤ d'.call.now ∨ ∃ k, checkCall env.lib d'.call = .ok k) :
    ∃ r' s'', ingestLive env d' (run (afterDelivery env) s' more) = (.ok r', s'') ∧
      r'.durable = true ∧ r'.accepted = 0 ∧
      r'.incidentIds = canonicalForms (run (afterDelivery env) s' more).db r.incidentIds := by
  have hs' : Consistent s' := by
    have := (h.next env d).1
    rwa [afterDelivery, hok] at this
  obtain ⟨k, batch, hk, hreplays, hforms⟩ := h.acknowledged hok
  obtain ⟨hend, hremembers⟩ := hs'.deliveries env more
  obtain ⟨hlater, hmeans⟩ := hsame.check hk
  have hk' : checkCall env.lib d'.call = .ok k := by
    rcases hcheck with hnow | ⟨k', hk'⟩
    · exact hlater hnow
    · rw [← hmeans k' hk']
      exact hk'
  have hfind := hremembers.batches _ _ hreplays.1
  have hreplays' : Replays (run (afterDelivery env) s' more).db d'.call k batch := by
    refine ⟨?_, ?_⟩
    · rw [hsame.sourceId, hsame.batchId]
      exact hfind
    · rw [hreplays.2, payloadOf, payloadOf, hsame.hostname]
  refine ⟨_, _, ingestLive_replay hk' hreplays', ?_, rfl, ?_⟩
  · exact hend.durable batch (Table.mem_of_find? hfind)
  · exact hforms _ hremembers hend

end RiskOps.Telemetry.Store
