import RiskOps.Telemetry.HttpIncidents

/-!
# RiskOps.Telemetry.HttpStore — storing HTTP batches

Model of `HttpStore.ingest` of `telemetry/http_store.py`, and of the store as it runs: **batches
are stored and analysed in separate transactions, in any order.** A record is stored once
under its identity, whatever batches carry it; a batch that was stored answers as it did the
first time.

The records of a batch are those `normalize_http` returned, so they carry the batch's source
and service. A digest is what it is computed from.
-/

namespace RiskOps.Telemetry.Http

open RiskOps.Lib

/-- `(source_id, service_id)`. -/
abbrev Stream := List Char × List Char

/-- A normalized record of a batch. -/
structure Record where
  eventId : List Char
  timestamp : List Char
  eventTs : ℚ
  clientIp : List Char
  method : List Char
  path : List Char
  decodedPath : List Char
  status : Nat
  deriving DecidableEq

/-- `ReportCode`. -/
inductive ReportCode where
  | rotationGap
  | fileTruncated
  | fileUnavailable
  | partialLine
  | lineTooLong
  | catchingUp
  | rotationWait
  deriving DecidableEq, Repr

/-- `HttpBatch`; a rejected record is its id. -/
structure HttpBatch where
  sourceId : List Char
  serviceId : List Char
  batchId : List Char
  records : List Record
  rejected : List (List Char)
  reports : List ReportCode
  caughtUp : Bool
  collectedAt : List Char
  deriving DecidableEq

/-- The stream of a batch. -/
def HttpBatch.stream (batch : HttpBatch) : Stream := (batch.sourceId, batch.serviceId)

/-- The event of a record. -/
def HttpBatch.event (batch : HttpBatch) (r : Record) : HttpEvent :=
  ⟨batch.sourceId, batch.serviceId, r.eventId, r.timestamp, r.eventTs, r.clientIp, r.method,
    r.path, r.decodedPath, r.status⟩

/-- A record of the batch, valid or rejected: what `record_hash` is computed from. -/
inductive Item where
  | valid (event : HttpEvent)
  | rejected (eventId : List Char)
  deriving DecidableEq

/-- `item["event_id"]`. -/
def Item.eventId : Item → List Char
  | .valid event => event.eventId
  | .rejected id => id

/-- The accepted record. -/
def Item.event? : Item → Option HttpEvent
  | .valid event => some event
  | .rejected _ => none

/-- The records of a batch, the valid ones first. -/
def HttpBatch.items (batch : HttpBatch) : List Item :=
  batch.records.map (fun r => .valid (batch.event r)) ++ batch.rejected.map .rejected

/-- A row of `http_receipts`. -/
structure Receipt where
  stream : Stream
  item : Item
  deriving DecidableEq

/-- `(source_id, service_id, event_id)`. -/
def Receipt.key (r : Receipt) : Stream × List Char := (r.stream, r.item.eventId)

/-- The response to a batch. -/
structure Response where
  stream : Stream
  batchId : List Char
  accepted : Nat
  rejected : Nat
  rejectedRecords : List (List Char)
  duplicates : Nat
  receivedAt : ℚ
  collectedAt : List Char
  reports : List ReportCode
  caughtUp : Bool
  deriving DecidableEq

/-- A row of `http_batches`; the batch stands for `payload_hash`. -/
structure StoredBatch where
  batch : HttpBatch
  response : Response

/-- `(source_id, service_id, batch_id)`. -/
def StoredBatch.key (b : StoredBatch) : Stream × List Char := (b.batch.stream, b.batch.batchId)

/-- The database: receipts, batches and the tables of the analysis. -/
structure Db where
  receipts : Table Receipt.key
  batches : Table StoredBatch.key
  analysis : Analysis

/-- The database before the first batch. -/
def Db.empty : Db := ⟨.empty, .empty, .empty⟩

/-! ### `ingest` -/

/-- The loop over the records of a batch. -/
structure Progress where
  receipts : Table Receipt.key
  events : List Stored
  eventSeq : Nat
  accepted : Nat
  rejected : Nat
  duplicates : Nat

/-- One record of a batch. -/
def ingestItem (stream : Stream) (st : Progress) (item : Item) : Except String Progress :=
  match st.receipts.find? (stream, item.eventId) with
  | some previous =>
    if previous.item = item then .ok { st with duplicates := st.duplicates + 1 }
    else .error "Conflicting HTTP event identity"
  | none =>
    let receipts := st.receipts.insertOrIgnore ⟨stream, item⟩
    match item with
    | .valid event => .ok { st with
        receipts := receipts
        events := st.events ++ [(st.eventSeq + 1, event)]
        eventSeq := st.eventSeq + 1
        accepted := st.accepted + 1 }
    | .rejected _ => .ok { st with receipts := receipts, rejected := st.rejected + 1 }

/-- The checks before the transaction. -/
def checkBatch (now : ℚ) (batch : HttpBatch) : Except String Unit :=
  if batch.records.length + batch.rejected.length > 200 then .error "HTTP batch record limit"
  else if batch.records.any fun r => decide (r.eventTs > now + 300) then
    .error "HTTP timestamp is in the future"
  else .ok ()

/-- The transaction of a batch that was not stored before. -/
def ingestFresh (env : Env) (now : ℚ) (batch : HttpBatch) (db : Db) :
    Except String (Response × Db) := do
  let st ← batch.items.foldlM (ingestItem batch.stream)
    ⟨db.receipts, db.analysis.events, db.analysis.eventSeq, 0, 0, 0⟩
  let response : Response := ⟨batch.stream, batch.batchId, st.accepted, st.rejected, batch.rejected,
    st.duplicates, now, batch.collectedAt, batch.reports, batch.caughtUp⟩
  .ok (response, {
    receipts := st.receipts
    batches := db.batches.insertOrIgnore ⟨batch, response⟩
    analysis := { db.analysis with
      events := deleteExpired (env.cutoff now) st.events
      eventSeq := st.eventSeq } })

/-- `ingest`. -/
def ingest (env : Env) (now : ℚ) (batch : HttpBatch) (db : Db) : Except String (Response × Db) := do
  checkBatch now batch
  match db.batches.find? (batch.stream, batch.batchId) with
  | some stored =>
    if stored.batch = batch then .ok (stored.response, db)
    else .error "Conflicting HTTP batch identity"
  | none => ingestFresh env now batch db

/-! ### Runs -/

/-- One transaction. -/
inductive Op where
  | ingest (batch : HttpBatch)
  | intake (limit : Nat)
  | analyze (key : WindowKey)
  | prune

/-- A transaction and the clock it read. -/
structure Step where
  now : ℚ
  op : Op

/-- One transaction; one that fails changes nothing, and only a dirty window is analysed. -/
def next (env : Env) (db : Db) (s : Step) : Db :=
  match s.op with
  | .ingest batch =>
    match ingest env s.now batch db with
    | .ok (_, db') => db'
    | .error _ => db
  | .intake limit => { db with analysis := (intake s.now limit db.analysis).2 }
  | .analyze key =>
    if DirtyWindow.isDirty db.analysis.windows key then
      match analyzeWindow env db.analysis key s.now with
      | .ok analysis => { db with analysis := analysis }
      | .error _ => db
    else db
  | .prune => { db with analysis := pruneContext env s.now db.analysis }

/-- The clock never goes back. -/
def Clocked (steps : List Step) : Prop := (steps.map Step.now).Pairwise (· ≤ ·)

/-- The accepted records, in the order of their sequence numbers. -/
def accepted (db : Db) : List HttpEvent := db.receipts.rows.filterMap fun r => r.item.event?

/-- The accepted records of a peer. -/
def acceptedOf (db : Db) (p : Peer) : List HttpEvent :=
  (accepted db).filter fun e => e.peer = p

/-- No record waits for intake and no window for analysis. -/
def Settled (db : Db) : Prop :=
  db.analysis.eventSeq ≤ db.analysis.cursor ∧ ∀ w ∈ db.analysis.windows, w.dirty = false

end RiskOps.Telemetry.Http
