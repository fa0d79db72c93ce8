import RiskOps.Lib.Run
import RiskOps.Telemetry.NetworkParse

/-!
# RiskOps.Telemetry.NetworkProtocol — batches of observations and their acknowledgement

Model of `telemetry/network_protocol.py`: **what travels between the exporter, the collector and
the store.** A batch carries a page of journal entries with the cursors before and after it;
each entry is an observation or a rejection that keeps only its identity. `validateBatch` is
what every receiver checks, `validateAck` what the collector checks before it moves on.

`Wire` holds the digests of the protocol and the size of an encoded batch.
-/

namespace RiskOps.Telemetry.Network

open RiskOps.Lib

/-! ### Batches -/

/-- `REPORT_CODES`. -/
inductive Report where
  | coverageStart
  | journalCursorUnavailable
  | profileDrift
  | catchingUp
  | profileBoundary
  deriving DecidableEq, Repr

/-- `REJECTION_CODES`. -/
inductive RejectionCode where
  | invalidRecord
  | profileContextUnavailable
  deriving DecidableEq, Repr

/-- A record without a usable message. -/
structure Rejection (D : Type) where
  eventId : D
  contentHash : D
  bootId : List Char
  journalCursor : List Char
  journalRealtimeUs : Nat
  journalMonotonicUs : Nat
  code : RejectionCode
  deriving DecidableEq

/-- An entry of a batch. -/
inductive Entry (D : Type) where
  | event (e : NetworkEvent D)
  | rejection (r : Rejection D)
  deriving DecidableEq

namespace Entry

variable {D : Type}

/-- The fields every entry has. -/
def eventId : Entry D → D
  | event e => e.eventId
  | rejection r => r.eventId

/-- `content_hash`. -/
def contentHash : Entry D → D
  | event e => e.contentHash
  | rejection r => r.contentHash

/-- `journal_cursor`. -/
def journalCursor : Entry D → List Char
  | event e => e.journalCursor
  | rejection r => r.journalCursor

/-- The code of a rejection. -/
def code : Entry D → Option RejectionCode
  | event _ => none
  | rejection r => some r.code

/-- The entry is an observation. -/
def isEvent : Entry D → Bool
  | event _ => true
  | rejection _ => false

end Entry

/-- A batch; `version` is 1. -/
structure Batch (D : Type) where
  sourceId : List Char
  profileRevision : D
  batchId : List Char
  collectedAtUs : Nat
  cursorBefore : Option (List Char)
  cursorAfter : Option (List Char)
  entries : List (Entry D)
  reports : List Report
  caughtUp : Bool
  deriving DecidableEq

/-- The digests of the protocol and the length of an encoded batch. -/
structure Wire (D : Type) extends EventDigests D where
  /-- `fingerprint(batch)`. -/
  payload : Batch D → D
  /-- `fingerprint({"kind": kind, "record": item})`. -/
  record : Entry D → D
  /-- `len(encode(batch))`. -/
  size : Batch D → Nat

/-- `MAX_BATCH_BYTES`. -/
def maxBatchBytes : Nat := 1024 * 1024

/-- `MAX_ENTRIES`. -/
def maxEntries : Nat := 200

variable {D : Type} [DecidableEq D]

/-- `_cursor`. -/
def validCursor (s : List Char) : Bool := isAscii maxCursorBytes s

/-- The coverage codes an observation must have under a profile. -/
def expectedCoverage (profile : SourceProfile) (e : Content D) : List (CoverageCode × Bool) :=
  [(.dynamicTerminalFiltering, profile.guardVersion = .terminal),
    (.loggingRateLimited, profile.loggingLimit = .rateLimited),
    (.loggingLimitsUnknown, profile.loggingLimit = .unknown),
    (.journalRetentionUnknown, profile.retention = .unknown),
    (.unsupportedProtocol, e.protocol = .other),
    (.missingTransportPorts, e.protocol ≠ .other && (e.srcPort.isNone || e.dstPort.isNone))]

/-- The observation names a local input of the profile. -/
def isLocalInput (profile : SourceProfile) (e : Content D) : Bool :=
  profile.localInputLabels.contains e.logLabel &&
    e.ingressInterface.any profile.localInputInterfaces.contains &&
    e.egressInterface.isNone && decide (.incompleteInterfaces ∉ e.coverage)

/-- The checks of `validate_batch` on an observation. -/
def validateBatchEvent (w : Wire D) (profile : SourceProfile) (e : NetworkEvent D) :
    Except String Unit := do
  validateEvent w.toEventDigests e
  if e.sourceId ≠ profile.sourceId ∨ e.sourceProfileRevision ≠ w.profile profile
      ∨ e.parserVersion ≠ profileParserVersion profile ∨ e.logLabel ∉ profile.logLabels
      ∨ e.ipFamily ∉ profile.ipFamilies
      ∨ e.rejectionRelated ≠ decide (e.logLabel ∈ profile.rejectionLabels) then
    .error "network_profile_mismatch"
  else if profile.guardVersion.strong ∧
      profile.profileValidFromUs.any (fun t => decide (e.journalRealtimeUs < t)) then
    .error "network_profile_mismatch"
  else if (expectedCoverage profile e.toContent).any fun c => decide (c.1 ∈ e.coverage) != c.2 then
    .error "network_profile_mismatch"
  else if e.protocol = .tcp ∧ e.tcpFlags.isSome ∧
      (.truncatedTransportHeader ∈ e.coverage ∨ .fragmentedPacket ∈ e.coverage) then
    .error "invalid_network_event"
  else if decide (e.direction = .localInput) ≠ isLocalInput profile e.toContent then
    .error "network_profile_mismatch"
  else .ok ()

/-- The checks of `validate_batch` on a rejection. -/
def validateBatchRejection (w : Wire D) (profile : SourceProfile) (r : Rejection D) :
    Except String Unit :=
  if !isBoot r.bootId then .error "invalid_network_rejection"
  else if !validCursor r.journalCursor then .error "invalid_network_cursor"
  else if r.journalRealtimeUs > maxRealtimeUs || r.journalMonotonicUs > maxMonotonicUs then
    .error "invalid_network_timestamp"
  else if r.eventId ≠ w.identity profile.sourceId r.bootId r.journalCursor then
    .error "invalid_network_rejection"
  else .ok ()

/-- The checks of `validate_batch` on an entry. -/
def validateEntry (w : Wire D) (profile : SourceProfile) : Entry D → Except String Unit
  | .event e => validateBatchEvent w profile e
  | .rejection r => validateBatchRejection w profile r

/-- The checks of `validate_batch` before the entries. -/
def validateHeader (w : Wire D) (profile : SourceProfile) (b : Batch D) : Except String Unit :=
  if b.sourceId ≠ profile.sourceId ∨ b.profileRevision ≠ w.profile profile then
    .error "network_profile_mismatch"
  else if !isId b.batchId then .error "invalid_network_batch_id"
  else if b.collectedAtUs > maxRealtimeUs then .error "invalid_network_timestamp"
  else if profile.guardVersion.strong ∧
      profile.profileValidFromUs.any (fun t => decide (b.collectedAtUs < t)) then
    .error "network_profile_mismatch"
  else if !(b.cursorBefore.all validCursor && b.cursorAfter.all validCursor) then
    .error "invalid_network_cursor"
  else if ¬ b.reports.Nodup then .error "invalid_network_payload"
  else if b.caughtUp ∧ (.catchingUp ∈ b.reports ∨ .profileDrift ∈ b.reports
      ∨ .journalCursorUnavailable ∈ b.reports) then .error "inconsistent_network_coverage"
  else if b.entries.length > maxEntries then .error "network_batch_limit"
  else if .profileDrift ∈ b.reports ∧ (b.entries ≠ [] ∨ b.cursorAfter ≠ b.cursorBefore) then
    .error "network_profile_drift"
  else .ok ()

/-- The cursor of the last entry. -/
def lastCursor (b : Batch D) : Option (List Char) :=
  match b.entries.getLast? with
  | some e => some e.journalCursor
  | none => b.cursorBefore

/-- `validate_batch`. -/
def validateBatch (w : Wire D) (profile : SourceProfile) (b : Batch D) : Except String Unit := do
  validateHeader w profile b
  b.entries.forM (validateEntry w profile)
  if b.cursorAfter ≠ lastCursor b then .error "network_checkpoint_mismatch"
  else if w.size b > maxBatchBytes then .error "network_batch_limit"
  else .ok ()

/-! ### Acknowledgements -/

/-- The status of one entry. -/
inductive Status where
  | accepted
  | rejected
  | duplicate
  deriving DecidableEq, Repr

/-- The result of one entry. -/
structure Result (D : Type) where
  eventId : D
  contentHash : D
  status : Status
  code : Option RejectionCode
  deriving DecidableEq

/-- The acknowledgement of a batch. -/
structure Ack (D : Type) where
  sourceId : List Char
  profileRevision : D
  batchId : List Char
  payloadHash : D
  durable : Bool
  cursorBefore : Option (List Char)
  cursorAfter : Option (List Char)
  collectedAtUs : Nat
  receivedAtUs : Nat
  results : List (Result D)
  reports : List Report
  caughtUp : Bool
  accepted : Nat
  rejected : Nat
  duplicates : Nat
  deriving DecidableEq

/-- The acknowledgement repeats the fields of the batch. -/
def echoes (ack : Ack D) (b : Batch D) : Bool :=
  ack.sourceId == b.sourceId && ack.profileRevision == b.profileRevision
    && ack.batchId == b.batchId && ack.collectedAtUs == b.collectedAtUs
    && ack.cursorBefore == b.cursorBefore && ack.cursorAfter == b.cursorAfter
    && ack.reports == b.reports && ack.caughtUp == b.caughtUp

/-- The result of an entry has its identity, its code and a status it can have. -/
def resultMatches (result : Result D) (entry : Entry D) : Bool :=
  result.eventId == entry.eventId && result.contentHash == entry.contentHash
    && result.code == entry.code
    && (result.status == .duplicate
      || result.status == (if entry.isEvent then .accepted else .rejected))

/-- `validate_ack`. -/
def validateAck (w : Wire D) (ack : Ack D) (b : Batch D) : Except String Unit :=
  if !ack.durable || ack.payloadHash != w.payload b || !echoes ack b then
    .error "invalid_network_ack"
  else if ack.receivedAtUs > maxRealtimeUs then .error "invalid_network_timestamp"
  else if ack.results.length ≠ b.entries.length then .error "invalid_network_ack"
  else if !(ack.results.zip b.entries).all fun p => resultMatches p.1 p.2 then
    .error "invalid_network_ack"
  else if ack.accepted ≠ ack.results.countP (fun r => r.status == .accepted)
      ∨ ack.rejected ≠ ack.results.countP (fun r => r.status == .rejected)
      ∨ ack.duplicates ≠ ack.results.countP (fun r => r.status == .duplicate) then
    .error "invalid_network_ack"
  else .ok ()

end RiskOps.Telemetry.Network
