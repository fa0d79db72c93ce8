import RiskOps.Joint.Correlate
import RiskOps.Lib.Table

/-!
# RiskOps.Joint.Reader — reading the evidence of one network revision

Model of `joint_reader.read_joint_evidence` with its two sources: `read_network_case` reads one
retained revision from the network database, `read_ssh_evidence` the records of the mapped sources
from the SSH database.

**Rows as the queries deliver them.** A text or a number taken from a JSON column is an `Option`: it
is `none` when the field is missing or of another type. The bounds of the `CASE` expressions are
applied here. `bytes` of a row is what `_consume` counts for it. The tables of the SSH store have
their primary keys; the checks of the network reader need none.

**The clock.** A read may fail at any of its many deadline checks; which of them fails is not
modelled, `late` says that one does.
-/

namespace RiskOps.JointEvidence

open RiskOps.Lib

/-- The codes of `EvidenceReadError`. -/
inductive ReadError
  | invalidRequest | limitExceeded | evidenceInvalid | revisionMissing | sourceUnavailable
  | sourceBusy | schemaUnavailable | deadlineExceeded
  deriving Repr, DecidableEq

/-! ### Limits -/

/-- A Python number: `int` or `float`. -/
inductive Number
  | int (n : Int)
  | float (x : ℚ)

def Number.value : Number → ℚ
  | .int n => n
  | .float x => x

def Number.toValue : Number → Value
  | .int n => .int n
  | .float x => .float x

structure ReadLimits where
  recordLimit : Bounded 1 5000
  candidateLimit : Bounded 1 200
  byteLimit : Bounded 1 8388608
  deadlineSeconds : Number
  lockWaitSeconds : Number
  batchSize : Bounded 1 200
  deadline_range : 0 < deadlineSeconds.value ∧ deadlineSeconds.value ≤ 5
  lockWait_range : 0 < lockWaitSeconds.value ∧ lockWaitSeconds.value ≤ 1 / 4

def ReadLimits.toValue (l : ReadLimits) : Value :=
  .obj [("batch_size", .int l.batchSize.val), ("byte_limit", .int l.byteLimit.val),
    ("candidate_limit", .int l.candidateLimit.val), ("deadline_seconds", l.deadlineSeconds.toValue),
    ("lock_wait_seconds", l.lockWaitSeconds.toValue), ("record_limit", .int l.recordLimit.val)]

/-- `budget.consume_bytes(amount)`. -/
def ReadLimits.consume (l : ReadLimits) (bytes amount : Nat) : Except ReadError Nat :=
  if l.byteLimit.val < (bytes + amount : Nat) then .error .limitExceeded else .ok (bytes + amount)

/-! ### The network database -/

/-- The fields of `network_incident_revisions.payload_json`. -/
structure HeaderRow where
  incidentId : String
  revision : Int
  payloadIncidentId : Option String
  sourceId : Option String
  bootId : Option String
  profileRevision : Option String
  srcIp : Option String
  dstIp : Option String
  protocol : Option String
  payloadRevision : Option Int
  evidenceCount : Option Int
  active : Option Bool
  stale : Option Bool
  coverage : Option (List Value)
  bytes : Nat

/-- A row of `network_evidence`, with the fields of `event_json`. -/
structure NetworkRow where
  incidentId : String
  eventId : String
  monotonicUs : Int
  sourceId : Option String
  jsonEventId : Option String
  bootId : Option String
  profileRevision : Option String
  srcIp : Option String
  dstIp : Option String
  protocol : Option String
  direction : Option String
  realtimeUs : Option Int
  jsonMonotonicUs : Option Int
  dstPort : Option Int
  bytes : Nat

structure Membership where
  incidentId : String
  eventId : String
  fromRevision : Int
  toRevision : Option Int

structure NetworkDb where
  applicationId : Int
  userVersion : Int
  schemaBytes : Nat
  producer : Option (Option String)
  producerBytes : Nat
  revisions : List HeaderRow
  evidence : List NetworkRow
  memberships : List Membership
  countBytes : Nat

/-- `_text(column, path, maximum)`: the length is counted in bytes. -/
def sqlText (maximum : Nat) (s : Option String) : Option String :=
  s.filter fun s => 1 ≤ s.utf8ByteSize && s.utf8ByteSize ≤ maximum

/-- `_integer(column, path, low, high)`. -/
def sqlInteger (lo hi : Int) (n : Option Int) : Option Int := n.filter fun n => lo ≤ n && n ≤ hi

/-- Anything missing or malformed is `evidence_invalid`. -/
def valid {α : Type} : Option α → Except ReadError α
  | some a => .ok a
  | none => .error .evidenceInvalid

/-- The case of a header, still without evidence. -/
def HeaderRow.read (row : HeaderRow) (producer : String) (incidentId : String) (revision : Int) :
    Option NetworkCase := do
  let payloadIncidentId ← sqlText 128 row.payloadIncidentId
  let payloadRevision ← sqlInteger 1 (2 ^ 31 - 1) row.payloadRevision
  let protocol ← sqlText 16 row.protocol
  guard (payloadIncidentId = incidentId ∧ payloadRevision = revision ∧ protocol = "network")
  let coverage ← (← row.coverage).mapM Value.asStr
  let anchor : Anchor :=
    { producerId := ← Checked.of? isIdentifier producer
      incidentId := ← Checked.of? isIdentifier payloadIncidentId
      revision := ← Bounded.of? 1 (2 ^ 31 - 1) payloadRevision
      sourceId := ← (sqlText 128 row.sourceId).bind (Checked.of? isIdentifier)
      bootId := ← (sqlText 128 row.bootId).bind (Checked.of? isIdentifier)
      profileRevision := ← (sqlText 64 row.profileRevision).bind (Checked.of? isDigest)
      srcIp := ← (sqlText 64 row.srcIp).bind Ip.read
      dstIp := ← (sqlText 64 row.dstIp).bind Ip.read }
  return { toAnchor := anchor
           evidence := []
           evidenceTotal := some (← row.evidenceCount.bind (Bounded.of? 0 1000000))
           active := ← row.active
           stale := ← row.stale
           coverage := ← Codes.of? coverage
           evidence_length := Nat.zero_le _ }

/-- `_event(row, case)`. -/
def NetworkRow.read (row : NetworkRow) (a : Anchor) : Option NetworkEvidence := do
  let eventId ← sqlText 2048 row.jsonEventId
  let monotonicUs ← row.jsonMonotonicUs
  guard (row.eventId = eventId ∧ row.monotonicUs = monotonicUs)
  let e : NetworkEvidence :=
    { sourceId := ← (sqlText 128 row.sourceId).bind (Checked.of? isIdentifier)
      eventId := ← Checked.of? (isText 2048) eventId
      bootId := ← (sqlText 128 row.bootId).bind (Checked.of? isIdentifier)
      profileRevision := ← (sqlText 64 row.profileRevision).bind (Checked.of? isDigest)
      srcIp := ← (sqlText 64 row.srcIp).bind Ip.read
      dstIp := ← (sqlText 64 row.dstIp).bind Ip.read
      eventTsUs := ← row.realtimeUs.bind (Bounded.of? 0 maxTimeUs)
      monotonicUs := ← Bounded.of? 0 (2 ^ 63 - 1) monotonicUs
      dstPort := ← row.dstPort.bind (Bounded.of? 1 65535)
      protocol := ← (sqlText 16 row.protocol).bind Protocol.read
      direction := ← (sqlText 32 row.direction).bind Direction.read }
  guard (e.belongs a = true)
  return e

def Membership.covers (m : Membership) (incidentId : String) (revision : Int) : Bool :=
  m.incidentId = incidentId && m.fromRevision ≤ revision
    && m.toRevision.all fun last => revision ≤ last

/-- The rows of the `LEFT JOIN` of memberships and evidence. -/
def NetworkDb.joined (db : NetworkDb) (incidentId : String) (revision : Int) :
    List (Membership × Option NetworkRow) :=
  (db.memberships.filter fun m => m.covers incidentId revision).flatMap fun m =>
    match db.evidence.filter fun e => e.incidentId = m.incidentId ∧ e.eventId = m.eventId with
    | [] => [(m, none)]
    | rows => rows.map fun e => (m, some e)

def Membership.invalid (m : Membership) : Bool :=
  m.fromRevision < 1 || m.toRevision.any fun last => last < m.fromRevision

/-- `ORDER BY e.monotonic_us,e.event_id`. -/
def orderRows (rows : List NetworkRow) : List NetworkRow :=
  rows.insertionSort fun a b =>
    (toLex (a.monotonicUs, a.eventId) : ℤ ×ₗ String) ≤ toLex (b.monotonicUs, b.eventId)

/-- One row of the evidence query. -/
def NetworkRow.collect (l : ReadLimits) (a : Anchor) (x : List NetworkEvidence × Nat)
    (row : NetworkRow) : Except ReadError (List NetworkEvidence × Nat) := do
  let bytes ← l.consume x.2 row.bytes
  let e ← valid (row.read a)
  if l.recordLimit.val < (x.1.length + 1 : Nat) then throw .limitExceeded
  return (x.1 ++ [e], bytes)

/-- `NET-[0-9a-f]{32}`. -/
def isNetId (s : String) : Bool :=
  s.toList.take 4 = ['N', 'E', 'T', '-'] && s.toList.length = 36 && (s.toList.drop 4).all isLowerHex

/-- `read_network_case(path, incident_id, revision, budget=budget)`. -/
def readNetworkCase (l : ReadLimits) (source : Except ReadError NetworkDb) (incidentId : String)
    (revision : Int) : Except ReadError (NetworkCase × Nat) := do
  if !isNetId incidentId || !(1 ≤ revision && revision ≤ 2 ^ 31 - 1) then throw .invalidRequest
  let db ← source
  let bytes ← l.consume 0 db.schemaBytes
  if db.applicationId ≠ 0x4E455431 ∨ db.userVersion ≠ 2 then throw .schemaUnavailable
  let bytes ← l.consume bytes db.producerBytes
  let producer ← valid (db.producer.bind (sqlText 128))
  match db.revisions.find? fun r => r.incidentId = incidentId ∧ r.revision = revision with
  | none => throw .revisionMissing
  | some row =>
    let bytes ← l.consume bytes row.bytes
    let case ← valid (row.read producer incidentId revision)
    if case.evidenceTotal.any fun total => l.recordLimit.val < total.val then throw .limitExceeded
    let bytes ← l.consume bytes db.countBytes
    let joined := db.joined incidentId revision
    if l.recordLimit.val < (joined.length : Nat) then throw .limitExceeded
    if joined.any (fun x => x.1.invalid) || joined.length ≠ (joined.map fun x => x.1.eventId).dedup.length
        || joined.length ≠ (joined.filterMap Prod.snd).length
        || case.evidenceTotal.any fun total => total.val ≠ (joined.length : Int) then
      throw .evidenceInvalid
    let rows := (orderRows (joined.filterMap Prod.snd)).take (l.recordLimit.val.toNat + 1)
    let (records, bytes) ← rows.foldlM (NetworkRow.collect l case.toAnchor) ([], bytes)
    if h : records.length = joined.length ∧ records.length ≤ maxRecords then
      return ({ case with evidence := records, evidence_length := h.2 }, bytes)
    else throw .evidenceInvalid

/-! ### The SSH database -/

structure IncidentRow where
  incidentId : String
  sourceId : String
  srcIp : String
  status : String
  firstTs : ℚ
  lastTs : ℚ
  mergedInto : Option String
  candidateBytes : Nat
  ownerBytes : Nat

/-- A row of `incident_evidence`, with the fields of `snapshot_json`. -/
structure SshRow where
  sourceId : String
  eventId : String
  incidentId : String
  eventTs : ℚ
  jsonSourceId : Option String
  jsonEventId : Option String
  jsonTimestamp : Option String
  jsonEventType : Option String
  jsonSrcIp : Option String
  jsonSshUser : Option String
  accountValid : Bool
  bytes : Nat

def SshRow.key (r : SshRow) : String × String := (r.sourceId, r.eventId)

structure SshDb where
  incidents : Table IncidentRow.incidentId
  incidentSources : List (String × String)
  evidence : Table SshRow.key

/-- `_bounded_text_sql(expression, maximum)`. -/
def sshText (maximum : Nat) (s : Option String) : Option String :=
  s.filter fun s => s.toList.length ≤ maximum

def digits (n : Nat) (s : List Char) : Bool := s.length = n && s.all Char.isDigit

/-- The part of `_TIMESTAMP` and `_STAMP` up to the seconds. -/
def isSecondText (s : List Char) : Bool :=
  match s with
  | [a, b, c, d, '-', e, f, '-', g, h, 'T', i, j, ':', k, l, ':', m, n] =>
    [a, b, c, d, e, f, g, h, i, j, k, l, m, n].all Char.isDigit
  | _ => false

/-- `_timestamp(value, event_ts)`. -/
def Env.readTimestamp (env : Env) (value : String) (eventTs : ℚ) : Option Time := do
  guard (isSecondText (value.toList.take 19) = true ∧ value.toList.length = 27 ∧
    (value.toList.drop 19).head? = some '.' ∧ digits 6 ((value.toList.drop 20).take 6) = true ∧
    value.toList.getLast? = some 'Z')
  let us ← env.fromisoformat (value.toList.dropLast ++ ['+', '0', '0', ':', '0', '0'])
  guard (eventTs = env.timestamp us)
  Bounded.of? 0 maxTimeUs us

/-- An account is a text, or missing. -/
def readAccount : Option String → Option (Option Account)
  | none => some none
  | some s => (Checked.of? (isText 256) s).map some

/-- The record of a row, whose incident is resolved to `canonical`. -/
def SshRow.read (env : Env) (row : SshRow) (sources : List Identifier) (peer : Ip)
    (identity canonical : Identifier) : Option SshRecord := do
  let eventId := sshText 2048 (some row.eventId)
  let sourceId ← sources.find? fun s => s.val = row.sourceId
  guard (row.incidentId = identity.val ∧ sshText 128 row.jsonSourceId = some row.sourceId ∧
    eventId = sshText 2048 row.jsonEventId ∧
    (sshText 64 row.jsonSrcIp).bind ip = some peer.val ∧ row.accountValid = true)
  return {
    sourceId := sourceId
    srcIp := peer
    eventTsUs := ← (sshText 27 row.jsonTimestamp).bind fun value => env.readTimestamp value row.eventTs
    eventId := ← eventId.bind (Checked.of? (isText 2048))
    eventType := ← (sshText 32 row.jsonEventType).bind SshKind.read
    account := ← readAccount (sshText 256 row.jsonSshUser)
    incidentId := identity
    canonicalIncidentId := if canonical = identity then none else some canonical }

/-- The loop of `_canonical_incident`, with the incidents passed and the bytes counted. -/
def canonicalLoop (l : ReadLimits) (db : SshDb) (peer : Ip) (cache : List (Identifier × Identifier)) :
    Nat → Identifier → List Identifier → Nat →
    Except ReadError (Identifier × List Identifier × Nat)
  | 0, _, _, _ => .error .evidenceInvalid
  | hops + 1, identity, seen, bytes =>
    if seen.contains identity then .error .evidenceInvalid
    else
      match cache.lookup identity with
      | some canonical => .ok (canonical, seen, bytes)
      | none =>
        match db.incidents.find? identity.val with
        | none => .error .evidenceInvalid
        | some row => do
          let bytes ← l.consume bytes row.ownerBytes
          let _ ← valid (((sshText 64 (some row.srcIp)).bind ip).filter fun s => s = peer.val)
          let status ← valid (sshText 32 (some row.status))
          match row.mergedInto with
          | none =>
            if status = "merged" then .error .evidenceInvalid
            else .ok (identity, identity :: seen, bytes)
          | some target => do
            let next ← valid (Checked.of? isIdentifier target)
            canonicalLoop l db peer cache hops next (identity :: seen) bytes

/-- `_canonical_incident(db, identity, peer, budget, cache)`; at most `MAX_ALIAS_HOPS`. -/
def canonicalIncident (l : ReadLimits) (db : SshDb) (peer : Ip)
    (cache : List (Identifier × Identifier)) (identity : Identifier) (bytes : Nat) :
    Except ReadError (Identifier × List (Identifier × Identifier) × Nat) := do
  let (canonical, seen, bytes) ← canonicalLoop l db peer cache 32 identity [] bytes
  return (canonical, (seen ++ [identity]).map (fun i => (i, canonical)) ++ cache, bytes)

/-- `_candidate_sql`. -/
def SshDb.candidates (db : SshDb) (sources : List Identifier) (peer : Ip) (lower upper : ℚ)
    (limit : Nat) : List IncidentRow :=
  let listed := fun s => sources.any fun i => i.val = s
  ((db.incidents.select fun r => r.status ≠ "merged" && r.srcIp = peer.val && lower ≤ r.lastTs
      && r.firstTs ≤ upper && (listed r.sourceId
        || db.incidentSources.any fun s => s.1 = r.incidentId && listed s.2)).insertionSort
    fun a b => (toLex (-a.lastTs, a.incidentId) : ℚ ×ₗ String) ≤ toLex (-b.lastTs, b.incidentId)).take
    limit

/-- `_evidence_sql`. -/
def SshDb.evidenceOf (db : SshDb) (identity : Identifier) (sources : List Identifier)
    (lower upper : ℚ) (limit : Nat) : List SshRow :=
  ((db.evidence.select fun r => r.incidentId = identity.val && lower ≤ r.eventTs
      && r.eventTs ≤ upper && sources.any fun i => i.val = r.sourceId).insertionSort
    fun a b => (toLex (a.eventTs, toLex (a.sourceId, a.eventId)) : ℚ ×ₗ String ×ₗ String) ≤
      toLex (b.eventTs, toLex (b.sourceId, b.eventId))).take limit

/-- What the loops of `read_ssh_evidence` carry. -/
structure SshScan where
  result : List SshRecord
  materialized : Nat
  bytes : Nat
  cache : List (Identifier × Identifier)

/-- One row of one incident. -/
def SshScan.row (env : Env) (l : ReadLimits) (sources : List Identifier) (peer : Ip)
    (window : Int × Int) (identity canonical : Identifier) (x : SshScan) (row : SshRow) :
    Except ReadError SshScan := do
  let bytes ← l.consume x.bytes row.bytes
  if l.recordLimit.val < (x.materialized + 1 : Nat) then throw .limitExceeded
  let r ← valid (row.read env sources peer identity canonical)
  return { x with
    materialized := x.materialized + 1
    bytes := bytes
    result := if window.1 ≤ r.eventTsUs.val ∧ r.eventTsUs.val ≤ window.2 then x.result ++ [r]
      else x.result }

/-- One incident. -/
def SshScan.incident (env : Env) (l : ReadLimits) (db : SshDb) (sources : List Identifier)
    (peer : Ip) (window : Int × Int) (x : SshScan) (identity : Identifier) :
    Except ReadError SshScan := do
  let (canonical, cache, bytes) ← canonicalIncident l db peer x.cache identity x.bytes
  (db.evidenceOf identity sources (env.below window.1) (env.above window.2)
    (l.recordLimit.val.toNat - x.materialized + 1)).foldlM
    (SshScan.row env l sources peer window identity canonical) { x with cache := cache, bytes := bytes }

/-- The incident of a candidate row. -/
def IncidentRow.collect (l : ReadLimits) (x : List Identifier × Nat) (row : IncidentRow) :
    Except ReadError (List Identifier × Nat) := do
  let bytes ← l.consume x.2 row.candidateBytes
  if l.candidateLimit.val ≤ (x.1.length : Int) then throw .limitExceeded
  let identity ← valid (Checked.of? isIdentifier row.incidentId)
  if row.lastTs < row.firstTs then throw .evidenceInvalid
  return (x.1 ++ [identity], bytes)

/-- A failure of `correlate`, as the reader reports it. -/
def Failure.readError : Failure → ReadError
  | .inputByteLimit => .limitExceeded
  | .projectionByteLimit => .limitExceeded
  | _ => .evidenceInvalid

/-- The times of a read, as `_stamp()` writes them. -/
structure Stamps where
  networkStart : String
  networkEnd : String
  sshStart : String
  sshEnd : String

/-- What was read from the SSH source. -/
inductive SshObservation
  | read
  | skipped (reason : String)
  deriving DecidableEq

def SshObservation.toValue (t : Stamps) : SshObservation → Value
  | .read => .obj [("finished_at", .str t.sshEnd), ("started_at", .str t.sshStart),
      ("state", .str "read")]
  | .skipped reason => .obj [("reason", .str reason), ("state", .str "skipped")]

/-- A `ValueError` of `correlate` becomes an `EvidenceReadError`. -/
def reported {α : Type} : Except Failure α → Except ReadError α
  | .ok a => .ok a
  | .error e => .error e.readError

end RiskOps.JointEvidence
