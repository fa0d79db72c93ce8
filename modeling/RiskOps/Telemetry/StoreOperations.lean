import RiskOps.Telemetry.Store

/-!
# RiskOps.Telemetry.StoreOperations — the operations of the live SSH store

Model of what callers do with `TelemetryStore`: **`ingest` with the daily clean-up at its end,
`rebuild_detections`, `set_triage`, `resolve_blocked_incidents` and `cleanup`**, each in one
transaction of `_connection`. A body that raises has already written rows; the rollback takes them
back.

Times are exact numbers of seconds and a day is the number of days since the epoch. The tables of
`collection` are left out: `record_batch` reads nothing else, and what it can raise is whether
`collected_at` is readable, a parameter.
-/

namespace RiskOps.Telemetry.Store

open RiskOps.Lib Sshd

/-- What the operations depend on beside the database. -/
structure Env where
  lib : Library
  retentionDays : Nat
  /-- `_parse` of `collection` reads the text. -/
  readable : List Char → Bool

/-- The database with `maintenance`: the day of the last complete clean-up. -/
structure Live where
  db : Db
  lastCleanup : Option ℤ

/-- A new database. -/
def Live.init : Live := ⟨.init, none⟩

/-- `_connection(write=True)`: what the body leaves is committed, and rolled back when it raises. -/
def connection {α : Type} (body : Live → Except String α × Live) (s : Live) :
    Except String α × Live :=
  match body s with
  | (.ok a, s') => (.ok a, s')
  | (.error e, _) => (.error e, s)

/-! ### Retention -/

/-- `_iso(now)[:10]`. -/
def dayOf (now : ℚ) : ℤ := ⌊now / 86400⌋

/-- `(now - timedelta(days=retention_days)).timestamp()`. -/
def Env.cutoff (env : Env) (now : ℚ) : ℚ := now - env.retentionDays * 86400

/-- The keys of the expired rows, the oldest first. -/
def expiredKeys (cutoff : ℚ) (db : Db) : List Key :=
  ((db.events.select fun e => e.row.eventTs < cutoff).insertionSort
    fun a b => a.row.eventTs ≤ b.row.eventTs).map StoredEvent.key

/-- `_cleanup`; without a limit every expired row is deleted. -/
def cleanupEvents (env : Env) (now : ℚ) (limit : Option Nat) (s : Live) : Live :=
  let expired := expiredKeys (env.cutoff now) s.db
  let gone := match limit with
    | none => expired
    | some limit => expired.take limit
  let db := { s.db with events := s.db.events.delete fun e => e.key ∈ gone }
  ⟨db, if (expiredKeys (env.cutoff now) db).isEmpty then some (dayOf now) else s.lastCleanup⟩

/-- `_INGEST_CLEANUP_LIMIT`. -/
def ingestCleanupLimit : Nat := 1000

/-! ### `ingest` -/

/-- A call of `ingest` with its `collected_at`. -/
structure Delivery where
  call : Call
  collectedAt : Option (List Char)

/-- What `record_batch` can raise: `_parse(collected_at or received_at)`. -/
def recordBatch (env : Env) (collectedAt : Option (List Char)) : Except String Unit :=
  match collectedAt with
  | none => .ok ()
  | some text =>
    if text = [] ∨ env.readable text then .ok () else .error "Invalid isoformat string"

/-- The rows of a batch up to the first that raises. -/
def writeRecords (c : Call) : Intake → List Normalized → Intake
  | st, [] => st
  | st, r :: rs =>
    match ingestRecord c st r with
    | .ok st => writeRecords c st rs
    | .error _ => st

/-- What a call has written when it raises. -/
def written (env : Env) (c : Call) (db : Db) : Db :=
  match checkCall env.lib c, db.batches.find? (c.sourceId, c.batchId) with
  | .ok k, none => (writeRecords c ⟨touchSource db c k.error, 0, 0, []⟩ k.records).db
  | _, _ => db

/-- The clean-up at the end of a new batch, once a day. -/
def dailyCleanup (env : Env) (now : ℚ) (s : Live) : Live :=
  if s.lastCleanup = some (dayOf now) then s
  else cleanupEvents env now (some ingestCleanupLimit) s

/-- The body of `ingest`. -/
def ingestBody (env : Env) (d : Delivery) (s : Live) : Except String Response × Live :=
  match ingest env.lib s.db d.call with
  | .error e => (.error e, { s with db := written env d.call s.db })
  | .ok (db, response) =>
    if response.replayedBatch then (.ok response, { s with db := db })
    else match recordBatch env d.collectedAt with
      | .error e => (.error e, { s with db := db })
      | .ok _ => (.ok response, dailyCleanup env d.call.now { s with db := db })

/-- `TelemetryStore.ingest`. -/
def ingestLive (env : Env) (d : Delivery) (s : Live) : Except String Response × Live :=
  connection (ingestBody env d) s

/-! ### Triage -/

/-- `TRIAGE_STATES` by their texts. -/
def TriageState.ofText? (text : String) : Option TriageState :=
  if text = "pending" then some .pending
  else if text = "acknowledged" then some .acknowledged
  else if text = "resolved" then some .resolved
  else none

/-- `TRIAGE_TRANSITIONS`. -/
def TriageState.allows : TriageState → TriageState → Bool
  | .pending, .acknowledged => true
  | .pending, .resolved => true
  | .acknowledged, .pending => true
  | .acknowledged, .resolved => true
  | .resolved, .pending => true
  | _, _ => false

/-- The `result` of one incident of `set_triage`. -/
inductive TriageResult where
  | missing
  | unchanged
  | invalid
  | changed
  deriving DecidableEq, Repr

/-- The arguments of `set_triage`. -/
structure TriageRequest where
  incidentIds : List (List Char)
  state : String
  actor : String
  note : Option (List Char)
  now : ℚ

/-- `_bounded_text(note, "note", 300, empty=True).strip() or None`. -/
def checkNote : Option (List Char) → Except String (Option (List Char))
  | none => .ok none
  | some note => (boundedText (.str note) "note" 300 true).map fun note =>
    if strip note = [] then none else some (strip note)

/-- One incident of `set_triage`. -/
def triageOne (r : TriageRequest) (state : TriageState) (note : Option (List Char)) (db : Db)
    (requested : List Char) : Except String (Db × TriageResult) := do
  let requested ← boundedText (.str requested) "incident_id" 256 false
  let canonical := canonicalIncident db requested
  if (db.incidents.find? canonical).isNone then .ok (db, .missing)
  else
    let previous := triageState db canonical
    if previous = state then .ok (db, .unchanged)
    else if ¬ previous.allows state then .ok (db, .invalid)
    else .ok (setTriage db canonical state r.now r.actor .manual note none, .changed)

/-- The loop over the incidents. -/
def triageAll (r : TriageRequest) (state : TriageState) (note : Option (List Char)) :
    Db → List (List Char) → Except String (Db × List TriageResult)
  | db, [] => .ok (db, [])
  | db, requested :: rest => do
      let (db, result) ← triageOne r state note db requested
      let (db, results) ← triageAll r state note db rest
      .ok (db, result :: results)

/-- `TelemetryStore.set_triage`, without the counts it returns. -/
def setTriageLive (r : TriageRequest) (db : Db) : Except String (Db × List TriageResult) := do
  match TriageState.ofText? r.state with
  | none => .error "state must be pending, acknowledged or resolved"
  | some state =>
    if ¬ (1 ≤ r.incidentIds.length ∧ r.incidentIds.length ≤ 100) then
      .error "incident_ids must list between 1 and 100 incidents"
    else
      let _ ← boundedText (.str r.actor.toList) "actor" 128 false
      let note ← checkNote r.note
      triageAll r state note db r.incidentIds

/-! ### Verified blocks -/

/-- The arguments of `resolve_blocked_incidents`. -/
structure BlockReport where
  ip : List Char
  sourceIds : List (List Char)
  actor : String
  reference : List Char
  note : Option (List Char)
  now : ℚ

/-- An unhandled incident of the address whose sources all block it. -/
def blockedIncident (db : Db) (ip : List Char) (covered : List (List Char)) (i : Incident) : Bool :=
  let sources := db.incidentSources.select fun s => s.incidentId = i.incidentId
  i.mergedInto.isNone && decide (i.srcIp = some ip)
    && decide (triageState db i.incidentId ≠ .resolved)
    && sources.all (fun s => s.sourceId ∈ covered)
    && (decide (i.sourceId ∈ covered) || !sources.isEmpty)

/-- `TelemetryStore.resolve_blocked_incidents`. -/
def resolveBlocked (r : BlockReport) (db : Db) : Except String (Db × List Id) := do
  match IpAddress.parse r.ip with
  | none => .error "does not appear to be an IPv4 or IPv6 address"
  | some ip =>
    let covered ← r.sourceIds.mapM fun item => boundedText (.str item) "source_id" 128 false
    if covered.isEmpty then .ok (db, [])
    else
      let _ ← boundedText (.str r.actor.toList) "actor" 128 false
      let reference ← boundedText (.str r.reference) "reference" 256 false
      let note ← checkNote r.note
      let ids := ((db.incidents.select (blockedIncident db ip.toText covered)).map
        Incident.incidentId).insertionSort (· ≤ ·)
      .ok (ids.foldl (fun db id =>
        setTriage db id .resolved r.now r.actor .block note (some (.request reference))) db, ids)

/-! ### Runs -/

/-- One call of the store. -/
inductive Op where
  | ingest (delivery : Delivery)
  | rebuild (uuid : Nat → List Char) (now : ℚ)
  | setTriage (request : TriageRequest)
  | resolveBlocked (report : BlockReport)
  | cleanup (now : ℚ)

/-- The state a call leaves when it returns. -/
def applyOp (env : Env) (s : Live) : Op → Except String Live
  | .ingest d =>
    match ingestLive env d s with
    | (.ok _, s') => .ok s'
    | (.error e, _) => .error e
  | .rebuild uuid now => (rebuildDetections uuid now s.db).map fun out => { s with db := out.1 }
  | .setTriage r => (setTriageLive r s.db).map fun out => { s with db := out.1 }
  | .resolveBlocked r => (resolveBlocked r s.db).map fun out => { s with db := out.1 }
  | .cleanup now => .ok (cleanupEvents env now none s)

/-- The state after a call; one that raises changes nothing. -/
def nextLive (env : Env) (s : Live) (op : Op) : Live :=
  match applyOp env s op with
  | .ok s' => s'
  | .error _ => s

/-- The state after some calls. -/
def liveAfter (env : Env) (ops : List Op) : Live := run (nextLive env) .init ops

end RiskOps.Telemetry.Store
