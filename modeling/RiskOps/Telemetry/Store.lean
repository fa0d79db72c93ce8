import RiskOps.Lib.Table
import RiskOps.Lib.Run
import RiskOps.Lib.Json
import RiskOps.Telemetry.Detection

/-!
# RiskOps.Telemetry.Store — the live SSH store

Model of `TelemetryStore` (`telemetry/store.py`) as far as it **accepts records and keeps
incidents**: `ingest` with its receipts, `_detect_advanced`, `_apply_match`,
`_merge_incident`, `_refresh_incident` and `rebuild_detections`. A `Db` is the content of
the database; a method that raises rolls its transaction back, so a raised error carries
no state.

Times are exact numbers of seconds. A digest is the text it was computed from: SHA-256
and the canonical JSON under it are taken to be collision free. `uuid n` is the random
part of the id an incident gets when the table holds `n` others.

Left out: the score itself, notifications, collection issues and the daily clean-up, none
of which the functions here read.
-/

namespace RiskOps.Telemetry.Store

open RiskOps.Lib Sshd

/-! ### Records -/

/-- What the interpreter's library decides: the character classes `\w` and `\d`, and the
instant a timezone-aware ISO timestamp stands for. -/
structure Library where
  isWord : Char → Bool
  isDecimal : Char → Bool
  instant : List Char → Option ℚ

/-- The `priority` of a record. -/
inductive Priority where
  | text (s : List Char)
  | level (n : Int)
  deriving DecidableEq

/-- The raw part of a normalised record; it is also what its `record_hash` stands for. -/
structure Raw where
  eventId : List Char
  timestamp : ℚ
  message : List Char
  unit : List Char
  priority : Option Priority
  identifier : List Char
  deriving DecidableEq

/-- A record as `_normalize` returns it. -/
structure Normalized where
  raw : Raw
  eventType : EventKind
  srcIp : Option (List Char)
  sshUser : Option (List Char)
  deriving DecidableEq

/-- `_bounded_text`. -/
def boundedText (value : Json) (name : String) (maximum : Nat) (empty : Bool) :
    Except String (List Char) :=
  let refused := name ++ " must be " ++ (if empty then "an optional" else "a nonempty") ++
    " string of at most " ++ toString maximum ++ " characters"
  match value with
  | .str s =>
    if maximum < s.length ∨ (empty = false ∧ strip s = []) then .error refused
    else if Char.ofNat 0 ∈ s then .error (name ++ " must not contain a NUL character")
    else .ok s
  | _ => .error refused

theorem boundedText_eq_ok {s : List Char} {name : String} {maximum : Nat} {empty : Bool}
    {v : List Char} : boundedText (.str s) name maximum empty = .ok v ↔
      (s.length ≤ maximum ∧ (empty = false → strip s ≠ []) ∧ Char.ofNat 0 ∉ s) ∧ v = s := by
  unfold boundedText
  dsimp only
  split
  · rename_i hrefused
    refine ⟨fun h => (by cases h), fun h => ?_⟩
    rcases hrefused with hlong | ⟨hempty, hblank⟩
    · exact absurd h.1.1 (Nat.not_le.mpr hlong)
    · exact absurd hblank (h.1.2.1 hempty)
  · rename_i hfits
    obtain ⟨hlen, hblank⟩ := not_or.mp hfits
    split
    · rename_i hnul
      exact ⟨fun h => (by cases h), fun h => absurd hnul h.1.2.2⟩
    · rename_i hnul
      refine ⟨fun h => ⟨⟨Nat.not_lt.mp hlen, fun he hb => hblank ⟨he, hb⟩, hnul⟩, ?_⟩, fun h => ?_⟩
      · exact (Except.ok.inj h).symm
      · rw [h.2]

/-- `record.get(key)`. -/
def field (members : List (List Char × Json)) (key : String) : Json :=
  (Json.get? members key.toList).getD .null

/-- `bool(value)` is false. -/
def falsy : Json → Bool
  | .null => true
  | .bool b => !b
  | .int n => n = 0
  | .float l => l = ['0', '.', '0'] || l = ['-', '0', '.', '0']
  | .str s => s = []
  | .arr items => items.isEmpty
  | .obj members => members.isEmpty

/-- `value or ""`. -/
def orEmpty (value : Json) : Json := if falsy value then .str [] else value

/-- The checks on `priority`. -/
def checkPriority (value : Json) : Except String (Option Priority) :=
  match value with
  | .null => .ok none
  | .str s =>
    if s ∈ (List.range 8).map (Nat.toDigits 10) then .ok (some (.text s))
    else .error "priority must be between 0 and 7"
  | .int n =>
    if 0 ≤ n ∧ n < 8 then .ok (some (.level n)) else .error "priority must be between 0 and 7"
  | _ => .error "priority must be a string, integer, or null"

section Normalize

variable (lib : Library)

/-- `_classify` of a raw record. -/
def Raw.classified (raw : Raw) : Normalized :=
  let parsed := classify lib.isWord lib.isDecimal raw.message raw.identifier raw.unit
  ⟨raw, parsed.eventKind, parsed.peerIp, parsed.username⟩

/-- The instant of a timestamp; a bad source clock must not reach far into the future. -/
def checkInstant (now : ℚ) (timestamp : List Char) : Except String ℚ :=
  match lib.instant timestamp with
  | some instant =>
    if now + 600 < instant then .error "timestamp is more than ten minutes in the future"
    else .ok instant
  | none => .error "timestamp must be a valid timezone-aware ISO timestamp"

/-- `_normalize`. -/
def normalizeRecord (now : ℚ) (record : Json) : Except String Normalized :=
  match record with
  | .obj members => do
      let eventId ← boundedText (field members "event_id") "event_id" 2048 false
      let timestamp ← boundedText (field members "timestamp") "timestamp" 80 false
      let instant ← checkInstant lib now timestamp
      let message ← boundedText (field members "message") "message" 65536 true
      let unit ← boundedText (orEmpty (field members "unit")) "unit" 256 true
      let identifier ← boundedText (orEmpty (field members "identifier")) "identifier" 256 true
      let priority ← checkPriority (field members "priority")
      .ok (Raw.classified lib ⟨eventId, instant, message, unit, priority, identifier⟩)
  | _ => .error "each record must be an object"

end Normalize

/-! ### Tables -/

/-- An `incident_id`. -/
abbrev Id := List Char

/-- What `ingest` returns. -/
structure Response where
  sourceId : List Char
  batchId : List Char
  durable : Bool
  accepted : Nat
  duplicates : Nat
  incidentIds : List Id
  lastSeen : ℚ
  replayedBatch : Bool

/-- What `payload_hash` is computed from. -/
structure Payload where
  hostname : List Char
  records : List Raw
  error : Option (List Char)
  deriving DecidableEq

/-- A row of `sources`. -/
structure Source where
  sourceId : List Char
  hostname : List Char
  firstSeen : ℚ
  lastSeen : ℚ
  lastEventAt : Option ℚ
  lastError : Option (List Char)
  acceptedTotal : Nat
  duplicateTotal : Nat

/-- A row of `batches`. -/
structure Batch where
  sourceId : List Char
  batchId : List Char
  payload : Payload
  receivedAt : ℚ
  recordCount : Nat
  response : Response

/-- The primary key of `batches`. -/
def Batch.key (b : Batch) : List Char × List Char := (b.sourceId, b.batchId)

/-- A row of `event_receipts`. -/
structure Receipt where
  sourceId : List Char
  record : Raw
  receivedAt : ℚ

/-- The primary key of `event_receipts`. -/
def Receipt.key (r : Receipt) : Key := (r.sourceId, r.record.eventId)

/-- A row of `events`. -/
structure StoredEvent where
  row : Row
  hostname : List Char
  message : List Char
  receivedAt : ℚ
  incidentId : Option Id

/-- The primary key of `events`. -/
def StoredEvent.key (e : StoredEvent) : Key := e.row.key

/-- A row of `incidents`. `status` is `'merged'` exactly when `mergedInto` is set. -/
structure Incident where
  incidentId : Id
  sourceId : List Char
  hostname : List Char
  srcIp : Option (List Char)
  firstTs : ℚ
  lastTs : ℚ
  failureCount : Nat
  createdAt : ℚ
  updatedAt : ℚ
  mergedInto : Option Id

/-- A row of `incident_evidence` with the fields of its snapshot that are read. -/
structure Evidence where
  row : Row
  hostname : List Char
  incidentId : Id

/-- The primary key of `incident_evidence`. -/
def Evidence.key (e : Evidence) : Key := e.row.key

/-- A row of `incident_rules`. -/
structure IncidentRule where
  incidentId : Id
  ruleId : RuleId
  ruleVersion : Nat
  windowSeconds : Nat
  reason : String

/-- The primary key of `incident_rules`. -/
def IncidentRule.key (r : IncidentRule) : Id × RuleId := (r.incidentId, r.ruleId)

/-- A row of `incident_details`. -/
structure Details where
  incidentId : Id
  successCount : Nat
  evidenceCount : Nat
  usernameCount : Nat
  usernames : List (List Char)

/-- A row of `incident_sources`. -/
structure IncidentSource where
  incidentId : Id
  sourceId : List Char
  hostname : List Char

/-- The primary key of `incident_sources`. -/
def IncidentSource.key (s : IncidentSource) : Id × List Char := (s.incidentId, s.sourceId)

/-- `TRIAGE_STATES`. -/
inductive TriageState where
  | pending
  | acknowledged
  | resolved
  deriving DecidableEq, Repr

/-- `_TRIAGE_RANK`. -/
def TriageState.rank : TriageState → Nat
  | .pending => 0
  | .acknowledged => 1
  | .resolved => 2

/-- The `cause` of a change of triage state. -/
inductive TriageCause where
  | merge
  | evidence
  | manual
  | block
  deriving DecidableEq, Repr

/-- The `reference` logged with a change: the absorbed incident, the record, or the request of a
block. -/
inductive Reference where
  | incident (id : Id)
  | record (key : Key)
  | request (reference : List Char)
  deriving DecidableEq

/-- A row of `incident_triage`. -/
structure Triage where
  incidentId : Id
  state : TriageState
  stateTs : ℚ
  actor : String

/-- A row of `incident_triage_log`. -/
structure TriageEntry where
  incidentId : Id
  ts : ℚ
  actor : String
  fromState : TriageState
  toState : TriageState
  cause : TriageCause
  note : Option (List Char)
  reference : Option Reference

/-- The database. -/
structure Db where
  sources : Table Source.sourceId
  batches : Table Batch.key
  receipts : Table Receipt.key
  events : Table StoredEvent.key
  incidents : Table Incident.incidentId
  evidence : Table Evidence.key
  rules : Table IncidentRule.key
  details : Table Details.incidentId
  incidentSources : Table IncidentSource.key
  triage : Table Triage.incidentId
  triageLog : List TriageEntry

/-- A new database. -/
def Db.init : Db where
  sources := .empty
  batches := .empty
  receipts := .empty
  events := .empty
  incidents := .empty
  evidence := .empty
  rules := .empty
  details := .empty
  incidentSources := .empty
  triage := .empty
  triageLog := []

/-! ### Incidents -/

/-- The loop of `_canonical_incident`, at most `fuel` times. -/
def followMerges (incidents : Table Incident.incidentId) : Nat → Id → Id
  | 0, id => id
  | fuel + 1, id =>
    match (incidents.find? id).bind Incident.mergedInto with
    | some target => followMerges incidents fuel target
    | none => id

/-- `_canonical_incident`. A chain of merges visits no incident twice. -/
def canonicalIncident (db : Db) (id : Id) : Id :=
  followMerges db.incidents db.incidents.rows.length id

/-- `_record_rule`. -/
def recordRule (db : Db) (id : Id) (m : RuleMatch) : Db :=
  { db with rules := db.rules.replace ⟨id, m.ruleId, m.ruleVersion, m.windowSeconds, m.reason⟩ }

/-- `_triage_state`. -/
def triageState (db : Db) (id : Id) : TriageState :=
  ((db.triage.find? id).map Triage.state).getD .pending

/-- `UPDATE incidents SET updated_at=? WHERE incident_id=?`. -/
def touchIncident (db : Db) (id : Id) (now : ℚ) : Db :=
  { db with
    incidents := db.incidents.update
      (fun i => if i.incidentId = id then { i with updatedAt := now } else i)
      (fun i => by split <;> rfl) }

/-- `_set_triage`. -/
def setTriage (db : Db) (id : Id) (state : TriageState) (now : ℚ) (actor : String)
    (cause : TriageCause) (note : Option (List Char)) (reference : Option Reference) : Db :=
  let previous := triageState db id
  if previous = state then db
  else
    touchIncident
      { db with
        triage := db.triage.replace ⟨id, state, now, actor⟩
        triageLog := db.triageLog ++ [⟨id, now, actor, previous, state, cause, note, reference⟩] }
      id now

/-- The evidence of an incident. -/
def evidenceOf (db : Db) (id : Id) : List Evidence := db.evidence.select fun e => e.incidentId = id

/-- The tables of `_merge_incident`, before triage. -/
def reparent (db : Db) (target other : Id) (now : ℚ) : Db :=
  { db with
    events := db.events.update
      (fun e => if e.incidentId = some other ∧
          ((db.evidence.find? e.key).any fun ev => ev.incidentId = other) then
        { e with incidentId := some target } else e)
      (fun e => by split <;> rfl)
    evidence := db.evidence.update
      (fun e => if e.incidentId = other then { e with incidentId := target } else e)
      (fun e => by split <;> rfl)
    rules := (db.rules.select fun r => r.incidentId = other).foldl
      (fun rules r => rules.insertOrIgnore { r with incidentId := target }) db.rules
    incidents := db.incidents.update
      (fun i => if i.incidentId = other then { i with mergedInto := some target, updatedAt := now }
        else i)
      (fun i => by split <;> rfl) }

/-- `_merge_incident`. -/
def mergeIncident (now : ℚ) (target : Id) (db : Db) (other : Id) : Db :=
  if target = other then db
  else
    let db := reparent db target other now
    let absorbed := triageState db other
    if absorbed.rank < (triageState db target).rank then
      setTriage db target absorbed now "system" .merge none (some (.incident other))
    else db

/-! ### Applying a match -/

/-- `(event_ts, source_id, event_id)`. -/
def rowOrder (row : Row) : ℚ ×ₗ (List Char ×ₗ List Char) := toLex (row.eventTs, toLex row.key)

/-- `ORDER BY event_ts,source_id,event_id`. -/
def orderRows (rows : List Row) : List Row := rows.insertionSort fun a b => rowOrder a ≤ rowOrder b

/-- The incidents that hold some of the evidence. -/
def linkedIncidents (db : Db) (evidence : List Row) : List Id :=
  (evidence.filterMap fun row =>
    (db.evidence.find? row.key).map fun prior => canonicalIncident db prior.incidentId).dedup

/-- `(created_at, incident_id)`. -/
def age (db : Db) (id : Id) : ℚ ×ₗ List Char :=
  toLex (((db.incidents.find? id).map Incident.createdAt).getD 0, id)

/-- The oldest of some incidents. -/
def oldest (db : Db) (linked : List Id) : Option Id :=
  (linked.insertionSort fun a b => age db a ≤ age db b).head?

/-- The host name of a stored row. -/
def hostnameOf (db : Db) (row : Row) : List Char :=
  ((db.events.find? row.key).map StoredEvent.hostname).getD []

/-- The state of the loop that adds evidence: the newest row it added. -/
structure Attach where
  db : Db
  newest : Option Row

/-- One row of evidence. -/
def attachRow (id : Id) (st : Attach) (row : Row) : Attach where
  db :=
    { st.db with
      evidence := st.db.evidence.insertOrIgnore ⟨row, hostnameOf st.db row, id⟩
      events := st.db.events.update
        (fun e => if e.key = row.key then { e with incidentId := some id } else e)
        (fun e => by split <;> rfl) }
  newest :=
    if (st.db.evidence.find? row.key).isSome then st.newest
    else match st.newest with
      | none => some row
      | some newest => if newest.eventTs < row.eventTs then some row else some newest

/-- Activity after the operator resolved the incident reopens it. -/
def reopen (db : Db) (id : Id) (newest : Option Row) (now : ℚ) : Db :=
  match newest, db.triage.find? id with
  | some row, some triage =>
    if triage.state = .resolved ∧ triage.stateTs < row.eventTs then
      setTriage db id .pending now "system" .evidence none (some (.record row.key))
    else db
  | _, _ => db

/-- Adds the evidence of a match and its rule to an incident. -/
def attach (db : Db) (id : Id) (m : RuleMatch) (now : ℚ) : Db :=
  let st := m.evidence.foldl (attachRow id) ⟨db, none⟩
  reopen (touchIncident (recordRule st.db id m) id now) id st.newest now

/-- The row `_apply_match` inserts into `incidents`. -/
def newIncident (db : Db) (id : Id) (first : Row) (now : ℚ) : Incident where
  incidentId := id
  sourceId := first.sourceId
  hostname := hostnameOf db first
  srcIp := first.srcIp
  firstTs := first.eventTs
  lastTs := first.eventTs
  failureCount := 0
  createdAt := now
  updatedAt := now
  mergedInto := none

/-- `"SSH-" + uuid4().hex`. -/
def incidentId (uuid : Nat → List Char) (db : Db) : Id :=
  ['S', 'S', 'H', '-'] ++ uuid db.incidents.rows.length

/-- `_apply_match`. -/
def applyMatch (uuid : Nat → List Char) (now : ℚ) (db : Db) (m : RuleMatch) :
    Except String (Db × Id) :=
  match (orderRows m.evidence).head? with
  | none => .error "min() iterable argument is empty"
  | some first =>
    let linked := linkedIncidents db m.evidence
    match oldest db linked with
    | some id =>
      let db := (linked.filter (· ≠ id)).foldl (mergeIncident now id) db
      .ok (attach db id m now, id)
    | none =>
      match db.incidents.insert (newIncident db (incidentId uuid db) first now) with
      | none => .error "UNIQUE constraint failed: incidents.incident_id"
      | some incidents =>
        .ok (attach { db with incidents := incidents } (incidentId uuid db) m now,
          incidentId uuid db)

/-- Applies matches one after the other and collects the incidents they ended in. -/
def applyMatches (uuid : Nat → List Char) (now : ℚ) :
    Db × List Id → List RuleMatch → Except String (Db × List Id)
  | st, [] => .ok st
  | (db, changed), m :: ms => do
      let (db, id) ← applyMatch uuid now db m
      applyMatches uuid now (db, id :: changed) ms

/-! ### Detection around new records -/

/-- `intervals`: the neighbourhoods of some sorted times, those that meet taken together.
The latest is first. -/
def neighbourhoods : List (ℚ × ℚ) → List ℚ → List (ℚ × ℚ)
  | intervals, [] => intervals
  | [], t :: times => neighbourhoods [(t - maxWindowSeconds, t + maxWindowSeconds)] times
  | (left, right) :: older, t :: times =>
    if t - maxWindowSeconds ≤ right then
      neighbourhoods ((left, max right (t + maxWindowSeconds)) :: older) times
    else neighbourhoods ((t - maxWindowSeconds, t + maxWindowSeconds) :: (left, right) :: older) times

/-- One query of `_detect_advanced`: a peer, the new keys of that peer and an interval. -/
structure Query where
  peer : List Char
  keys : List Key
  left : ℚ
  right : ℚ

/-- The queries for one peer. -/
def peerQueries (triggers : List Row) (peer : List Char) : List Query :=
  let rows := triggers.filter fun row => row.srcIp = some peer
  let times := (rows.map Row.eventTs).insertionSort (· ≤ ·)
  (neighbourhoods [] times).reverse.map fun (left, right) => ⟨peer, rows.map Row.key, left, right⟩

/-- The queries for some new rows, peer by peer in order of first appearance. -/
def queries (triggers : List Row) : List Query :=
  ((triggers.filterMap Row.srcIp).reverse.dedup.reverse).flatMap (peerQueries triggers)

/-- The rows of a peer that detection looks at. -/
def peerRows (db : Db) (peer : List Char) : List Row :=
  ((db.events.select fun e => e.row.srcIp = some peer &&
    (failureType e.row.eventType || successType e.row.eventType)).map StoredEvent.row)

/-- The rows a query selects. -/
def candidates (db : Db) (q : Query) : List Row :=
  orderRows ((peerRows db q.peer).filter fun row => q.left ≤ row.eventTs ∧ row.eventTs ≤ q.right)

/-- The loop over the queries. -/
def runQueries (uuid : Nat → List Char) (now : ℚ) :
    Db × List Id → List Query → Except String (Db × List Id)
  | st, [] => .ok st
  | st, q :: qs => do
      let st ← applyMatches uuid now st (detectMatches (candidates st.1 q) q.keys true)
      runQueries uuid now st qs

/-- `_detect_advanced`. -/
def detectAdvanced (uuid : Nat → List Char) (now : ℚ) (db : Db) (triggers : List Row) :
    Except String (Db × List Id) := do
  let (db, changed) ← runQueries uuid now (db, []) (queries triggers)
  .ok (db, (changed.map (canonicalIncident db)).dedup)

/-! ### Refreshing an incident -/

/-- A row of the `moments` of `scoring.evaluate`: evidence of one source, peer and time. -/
structure Moment where
  sourceId : List Char
  peer : List Char
  eventTs : ℚ
  deriving DecidableEq

/-- The moment of a row, when it names a peer. -/
def momentOf (row : Row) : Option Moment :=
  match row.srcIp with
  | some peer => if peer = [] then none else some ⟨row.sourceId, peer, row.eventTs⟩
  | none => none

/-- `sum(kind IN …)` over a moment. -/
def momentCount (rows : List Row) (kind : EventKind → Bool) (m : Moment) : Nat :=
  rows.countP fun row => decide (momentOf row = some m) && kind row.eventType

/-- `preceding_failures`: the failures of the half hour up to a moment, less its own. -/
def precedingFailures (rows : List Row) (moments : List Moment) (m : Moment) : Nat :=
  ((moments.filter fun m' => m'.sourceId = m.sourceId ∧ m'.peer = m.peer ∧
      m.eventTs - successWindowSeconds ≤ m'.eventTs ∧ m'.eventTs ≤ m.eventTs).map
    (momentCount rows authenticationFailureType)).sum - momentCount rows authenticationFailureType m

/-- The successes `scoring.evaluate` counts. -/
def qualifyingSuccesses (rows : List Row) : Nat :=
  let moments := (rows.filterMap momentOf).dedup
  ((moments.filter fun m => successMinFailures ≤ precedingFailures rows moments m).map
    (momentCount rows successType)).sum

/-- `scoring.refresh`: the qualifying successes, when there is evidence. -/
def scoringRefresh (db : Db) (id : Id) : Option Nat :=
  let rows := (evidenceOf db id).map Evidence.row
  if rows = [] then none else some (qualifyingSuccesses rows)

/-- `_refresh_score`. -/
def refreshScore (db : Db) (id : Id) : Db :=
  if scoringRefresh db id = some 0 then
    { db with rules := db.rules.delete fun r => r.incidentId = id ∧ r.ruleId = .successAfterFailures }
  else db

/-- The distinct nonempty user names of some rows. -/
def usernamesOf (rows : List Row) : List (List Char) :=
  ((rows.filterMap Row.sshUser).filter (· ≠ [])).dedup

/-- The details of an incident. -/
def detailsOf (id : Id) (rows : List Row) : Details where
  incidentId := id
  successCount := rows.countP fun row => successType row.eventType
  evidenceCount := rows.length
  usernameCount := (usernamesOf rows).length
  usernames := ((usernamesOf rows).insertionSort (· ≤ ·)).take 100

/-- `max(hostname)` of the evidence of one source. -/
def sourceHostname (evidence : List Evidence) (sourceId : List Char) : List Char :=
  (((evidence.filter fun e => e.row.sourceId = sourceId).map Evidence.hostname).insertionSort
    (· ≤ ·)).getLastD sourceId

/-- `INSERT INTO incident_sources … GROUP BY source_id`. -/
def insertSources (db : Db) (id : Id) (evidence : List Evidence) : Db :=
  { db with
    incidentSources := (evidence.map fun e => e.row.sourceId).dedup.foldl
      (fun t sourceId => t.insertOrIgnore ⟨id, sourceId, sourceHostname evidence sourceId⟩)
      (db.incidentSources.delete fun s => s.incidentId = id) }

/-- `UPDATE incidents SET failure_count=?,first_ts=?,last_ts=?`. -/
def countIncident (db : Db) (id : Id) (rows : List Row) (first last : ℚ) : Db :=
  { db with
    incidents := db.incidents.update
      (fun i => if i.incidentId = id then
        { i with
          failureCount := rows.countP fun row => failureType row.eventType
          firstTs := first
          lastTs := last } else i)
      (fun i => by split <;> rfl) }

/-- `_refresh_incident`. -/
def refreshIncident (db : Db) (id : Id) : Db :=
  let evidence := evidenceOf db id
  let rows := evidence.map Evidence.row
  match (rows.map Row.eventTs).min?, (rows.map Row.eventTs).max? with
  | some first, some last =>
    let db := { db with details := db.details.replace (detailsOf id rows) }
    refreshScore (countIncident (insertSources db id evidence) id rows first last) id
  | _, _ =>
    match db.incidents.find? id with
    | some i =>
      { db with
        incidentSources := db.incidentSources.insertOrIgnore ⟨id, i.sourceId, i.hostname⟩ }
    | none => db

/-! ### `ingest` -/

/-- The arguments of one call of `ingest`, with the clock and the random ids it reads. -/
structure Call where
  sourceId : List Char
  hostname : List Char
  batchId : List Char
  records : List Json
  error : Option (List Char)
  now : ℚ
  uuid : Nat → List Char

/-- A call whose arguments passed every check. -/
structure Checked where
  records : List Normalized
  error : Option (List Char)

/-- At most 500 records. -/
def checkCount (records : List Json) : Except String Unit :=
  if 500 < records.length then .error "records must be a list of at most 500 objects" else .ok ()

/-- The optional `error` of a call. -/
def checkError : Option (List Char) → Except String (Option (List Char))
  | none => .ok none
  | some e => (boundedText (.str e) "error" 8192 true).map fun e => if e = [] then none else some e

/-- The checks before the transaction. -/
def checkCall (lib : Library) (c : Call) : Except String Checked := do
  let _ ← boundedText (.str c.sourceId) "source_id" 128 false
  let _ ← boundedText (.str c.hostname) "hostname" 255 false
  let _ ← boundedText (.str c.batchId) "batch_id" 256 false
  let _ ← checkCount c.records
  let error ← checkError c.error
  let records ← c.records.mapM (normalizeRecord lib c.now)
  .ok ⟨records, error⟩

/-- What `payload_hash` stands for. -/
def payloadOf (c : Call) (k : Checked) : Payload := ⟨c.hostname, k.records.map Normalized.raw, k.error⟩

/-- The row of `sources` after the upsert at the start of the transaction. -/
def touchSource (db : Db) (c : Call) (error : Option (List Char)) : Db :=
  { db with
    sources := db.sources.replace
      (match db.sources.find? c.sourceId with
        | some s => { s with hostname := c.hostname, lastSeen := c.now, lastError := error }
        | none => ⟨c.sourceId, c.hostname, c.now, c.now, none, error, 0, 0⟩) }

/-- `last_event_at < ?` of two nullable times. -/
def laterOf (known latest : Option ℚ) : Option ℚ :=
  match known, latest with
  | none, latest => latest
  | some known, some latest => if known < latest then some latest else some known
  | some known, none => some known

/-- The counters of a source. -/
def countSource (db : Db) (sourceId : List Char) (accepted duplicates : Nat)
    (latest : Option ℚ) : Db :=
  { db with
    sources := db.sources.update
      (fun s => if s.sourceId = sourceId then
        { s with
          acceptedTotal := s.acceptedTotal + accepted
          duplicateTotal := s.duplicateTotal + duplicates
          lastEventAt := laterOf s.lastEventAt latest } else s)
      (fun s => by split <;> rfl) }

/-- The row a record becomes. -/
def rowOf (sourceId : List Char) (r : Normalized) : Row :=
  ⟨sourceId, r.raw.eventId, r.raw.timestamp, r.eventType, r.srcIp, r.sshUser⟩

/-- The state of the loop over the records. -/
structure Intake where
  db : Db
  accepted : Nat
  duplicates : Nat
  detectionRows : List Row

/-- One record of a batch. -/
def ingestRecord (c : Call) (st : Intake) (r : Normalized) : Except String Intake :=
  match st.db.receipts.find? (c.sourceId, r.raw.eventId) with
  | some prior =>
    if prior.record = r.raw then .ok { st with duplicates := st.duplicates + 1 }
    else .error "event_id was already used for different content"
  | none =>
    let row := rowOf c.sourceId r
    match st.db.receipts.insert ⟨c.sourceId, r.raw, c.now⟩,
        st.db.events.insert ⟨row, c.hostname, r.raw.message, c.now, none⟩ with
    | some receipts, some events =>
      .ok { st with
        db := { st.db with receipts := receipts, events := events }
        accepted := st.accepted + 1
        detectionRows :=
          if (failureType row.eventType || successType row.eventType) && row.srcIp.isSome then
            st.detectionRows ++ [row]
          else st.detectionRows }
    | _, _ => .error "UNIQUE constraint failed: events.source_id, events.event_id"

/-- The loop over the records. -/
def ingestRecords (c : Call) : Intake → List Normalized → Except String Intake
  | st, [] => .ok st
  | st, r :: rs => do
      let st ← ingestRecord c st r
      ingestRecords c st rs

/-- A batch that was committed before. -/
def replayBatch (db : Db) (c : Call) (k : Checked) (batch : Batch) : Db × Response :=
  (countSource (touchSource db c k.error) c.sourceId 0 c.records.length none,
    { batch.response with
      accepted := 0
      duplicates := c.records.length
      incidentIds := ((batch.response.incidentIds.map (canonicalIncident db)).dedup).insertionSort
        (· ≤ ·)
      replayedBatch := true
      lastSeen := c.now })

/-- A new batch. -/
def commitBatch (db : Db) (c : Call) (k : Checked) : Except String (Db × Response) := do
  let st ← ingestRecords c ⟨touchSource db c k.error, 0, 0, []⟩ k.records
  let (db, changed) ← detectAdvanced c.uuid c.now st.db st.detectionRows
  let ids := (changed.map (canonicalIncident db)).dedup
  let db := ids.foldl refreshIncident db
  let db := countSource db c.sourceId st.accepted st.duplicates
    (k.records.map fun r => r.raw.timestamp).max?
  let response : Response :=
    ⟨c.sourceId, c.batchId, true, st.accepted, st.duplicates, ids.insertionSort (· ≤ ·), c.now, false⟩
  match db.batches.insert ⟨c.sourceId, c.batchId, payloadOf c k, c.now, c.records.length, response⟩ with
  | some batches => .ok ({ db with batches := batches }, response)
  | none => .error "UNIQUE constraint failed: batches.source_id, batches.batch_id"

/-- `TelemetryStore.ingest`. -/
def ingest (lib : Library) (db : Db) (c : Call) : Except String (Db × Response) := do
  let k ← checkCall lib c
  match db.batches.find? (c.sourceId, c.batchId) with
  | some batch =>
    if batch.payload = payloadOf c k then .ok (replayBatch db c k batch)
    else .error "batch_id was already used for different content"
  | none => commitBatch db c k

/-! ### `rebuild_detections` -/

/-- What `rebuild_detections` returns. -/
structure Rebuilt where
  eventsEvaluated : Nat
  incidentsCreated : Int
  incidentsMerged : Int
  evidenceAdded : Int
  deriving DecidableEq

/-- `SELECT count(*) FROM incidents WHERE status='merged'`. -/
def mergedCount (db : Db) : Nat := db.incidents.rows.countP fun i => i.mergedInto.isSome

/-- The peers of the rows that detection looks at. -/
def peers (db : Db) : List (List Char) :=
  ((db.events.select fun e => failureType e.row.eventType || successType e.row.eventType).filterMap
    fun e => e.row.srcIp).dedup

/-- One peer of `rebuild_detections`. -/
def rebuildPeer (uuid : Nat → List Char) (now : ℚ) (db : Db) (peer : List Char) :
    Except String Db := do
  let rows := orderRows (peerRows db peer)
  let (db, changed) ← applyMatches uuid now (db, []) (detectMatches rows (rows.map Row.key) true)
  .ok (((changed.map (canonicalIncident db)).dedup).foldl refreshIncident db)

/-- The loop over the peers. -/
def rebuildPeers (uuid : Nat → List Char) (now : ℚ) : Db → List (List Char) → Except String Db
  | db, [] => .ok db
  | db, peer :: ps => do
      let db ← rebuildPeer uuid now db peer
      rebuildPeers uuid now db ps

/-- `rebuild_detections`. -/
def rebuildDetections (uuid : Nat → List Char) (now : ℚ) (db : Db) : Except String (Db × Rebuilt) := do
  let db' ← rebuildPeers uuid now db (peers db)
  .ok (db',
    { eventsEvaluated := ((peers db).map fun peer => (peerRows db peer).length).sum
      incidentsCreated := db'.incidents.rows.length - db.incidents.rows.length
      incidentsMerged := mergedCount db' - mergedCount db
      evidenceAdded := db'.evidence.rows.length - db.evidence.rows.length })

end RiskOps.Telemetry.Store
