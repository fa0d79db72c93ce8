import RiskOps.Lib.Sliding
import RiskOps.Telemetry.NetworkProtocol

/-!
# RiskOps.Telemetry.NetworkDetection — port probes in firewall observations

Model of `telemetry/network_detection.py` as the analysis calls it, without maintenance
windows: **which rejected packets of one peer reach ten ports within five minutes.** A window
slides over the packets of one source, boot, profile and address pair; windows that qualify
and share a packet become one finding.

Time is the monotonic clock of one boot. The limits on the input are a parameter, so that the
rule can also be asked about a history of any size. `finding_id` is a digest of other fields
and is left out.
-/

namespace RiskOps.Telemetry.Network

open RiskOps.Lib RiskOps.Lib.Sliding

/-! ### Findings -/

/-- What a report says about the limits of its evidence. -/
inductive Note where
  | offlineContextOnly
  | observationsAreLowerBounds
  | apparentSourceNotIdentity
  | journalClockDiscontinuity
  | monotonicHourReviewBucket
  | contextLimit
  | rawHistoryExpiredBeforeAnalysis
  | expiredContext
  | rejectedRecords
  | collectionBacklogObserved
  | coverage (code : CoverageCode)
  | rejection (code : RejectionCode)
  | report (code : Report)
  deriving DecidableEq, Repr

/-- `_BASE_COVERAGE`. -/
def baseCoverage : Finset Note :=
  {.offlineContextOnly, .observationsAreLowerBounds, .apparentSourceNotIdentity}

/-- `WINDOW_SECONDS`. -/
def windowSeconds : Nat := 300

/-- `MIN_DISTINCT_PORTS`. -/
def minDistinctPorts : Nat := 10

variable {D : Type}

/-- `event.key`. -/
def NetworkEvent.key (e : NetworkEvent D) : List Char × D := (e.sourceId, e.eventId)

/-- The codes of an observation. -/
def NetworkEvent.notes (e : NetworkEvent D) : Finset Note :=
  e.coverage.image Note.coverage

/-- `(source_id, boot_id, source_profile_revision, src_ip, dst_ip)`. -/
structure Peer (D : Type) where
  sourceId : List Char
  bootId : List Char
  sourceProfileRevision : D
  srcIp : List Char
  dstIp : List Char
  deriving DecidableEq

/-- The group of an observation. -/
def NetworkEvent.peer (e : NetworkEvent D) : Peer D :=
  ⟨e.sourceId, e.bootId, e.sourceProfileRevision, e.srcIp, e.dstIp⟩

/-- `NetworkFinding`; `rule_id`, `rule_version` and `window_seconds` are fixed. -/
structure NetworkFinding (D : Type) where
  peer : Peer D
  firstMonotonicUs : Nat
  lastMonotonicUs : Nat
  firstJournalRealtimeUs : Nat
  lastJournalRealtimeUs : Nat
  distinctDstPorts : List Nat
  evidenceIds : List D
  qualifyingWindows : Nat
  coverage : Finset Note

/-- `NetworkReport`. -/
structure NetworkReport (D : Type) where
  findings : List (NetworkFinding D)
  inputCount : Nat
  uniqueCount : Nat
  duplicateCount : Nat
  eligibleCount : Nat
  excludedCount : Nat
  coverage : Finset Note

/-! ### The rule -/

/-- `_eligible`. -/
def eligible (e : NetworkEvent D) : Bool :=
  decide (e.direction = .localInput) && decide (e.observationPoint = .localInput)
    && e.rejectionRelated && decide (e.protocol = .tcp) && e.srcPort.isSome && e.dstPort.isSome
    && e.tcpFlags.any fun flags => decide (.syn ∈ flags) && decide (.ack ∉ flags)
      && decide (.rst ∉ flags) && decide (.fin ∉ flags)

/-- The window of `_scan`; the counter is the list of the ports counted. -/
def probeRule : Rule (NetworkEvent D) (List (Option Nat)) where
  time e := e.journalMonotonicUs
  width := windowSeconds * 1000000
  init := []
  enter ports e := ports ++ [e.dstPort]
  leave ports e := ports.erase e.dstPort
  live _ ports := !decide (ports.dedup.length < minDistinctPorts)

/-- `_finding`; the rows are never empty. -/
def finding? (clockUncertain : Bool) (windows : Nat) (rows : List (NetworkEvent D)) :
    Option (NetworkFinding D) := do
  let first ← rows.head?
  let last ← rows.getLast?
  some {
    peer := first.peer
    firstMonotonicUs := first.journalMonotonicUs
    lastMonotonicUs := last.journalMonotonicUs
    firstJournalRealtimeUs := first.journalRealtimeUs
    lastJournalRealtimeUs := last.journalRealtimeUs
    distinctDstPorts := (rows.filterMap fun e => e.dstPort).dedup.insertionSort (· ≤ ·)
    evidenceIds := rows.map NetworkEvent.eventId
    qualifyingWindows := windows
    coverage := baseCoverage ∪ rows.foldl (fun notes e => notes ∪ e.notes) ∅ ∪
      if clockUncertain then {.journalClockDiscontinuity} else ∅ }

/-- `_scan`. -/
def scanRows (clockUncertain : Bool) (rows : List (NetworkEvent D)) : List (NetworkFinding D) :=
  (probeRule.scan rows).filterMap fun iv => finding? clockUncertain iv.count (iv.rows rows)

/-! ### Clocks -/

/-- `(source_id, boot_id)`. -/
def NetworkEvent.clock (e : NetworkEvent D) : List Char × List Char := (e.sourceId, e.bootId)

/-- One observation of `_clock_warnings`: the last ones of each clock, and the clocks whose wall
time moved by more than a second against their monotonic time. -/
def clockStep (st : List (NetworkEvent D) × List (List Char × List Char)) (e : NetworkEvent D) :
    List (NetworkEvent D) × List (List Char × List Char) :=
  let jumped := (st.1.find? fun before => before.clock = e.clock).any fun before =>
    decide ((((e.journalRealtimeUs : ℤ) - before.journalRealtimeUs) -
      ((e.journalMonotonicUs : ℤ) - before.journalMonotonicUs)).natAbs > 1000000)
  (e :: st.1.filter (fun before => before.clock ≠ e.clock),
    if jumped then e.clock :: st.2 else st.2)

/-- `_clock_warnings`. -/
def clockWarnings (events : List (NetworkEvent D)) : List (List Char × List Char) :=
  (events.foldl clockStep ([], [])).2

/-! ### `detect_network` -/

/-- The bounds on the input of a detection. -/
structure InputLimits where
  records : Option Nat
  bytes : Option Nat

/-- `MAX_INPUT_RECORDS` and `MAX_INPUT_BYTES`. -/
def inputLimits : InputLimits := ⟨some 10000, some (16 * 1024 * 1024)⟩

/-- No bounds. -/
def noLimits : InputLimits := ⟨none, none⟩

/-- The loop over the input. -/
structure Gathered (D : Type) where
  unique : List (NetworkEvent D)
  inputCount : Nat
  byteCount : Nat
  coverage : Finset Note

/-- What a detection depends on beside its input: the digests, and the length of the JSON text
of an observation. -/
structure Detector (D : Type) where
  digests : EventDigests D
  size : NetworkEvent D → Nat

section Detect

variable [DecidableEq D]

/-- A known key must come with the same content; its entry is replaced in place. -/
def addUnique (unique : List (NetworkEvent D)) (e : NetworkEvent D) :
    Except String (List (NetworkEvent D)) :=
  match unique.find? fun before => before.key = e.key with
  | some before =>
    if before.contentHash ≠ e.contentHash then .error "conflicting_network_evidence"
    else .ok (unique.map fun u => if u.key = e.key then e else u)
  | none => .ok (unique ++ [e])

/-- One observation of the input. -/
def gather (det : Detector D) (limits : InputLimits) (st : Gathered D) (e : NetworkEvent D) :
    Except String (Gathered D) :=
  if limits.records.any fun most => decide (most < st.inputCount + 1) then
    .error "network_context_limit"
  else do
    validateEvent det.digests e
    if limits.bytes.any fun most => decide (most < st.byteCount + det.size e) then
      .error "network_context_limit"
    else
      let unique ← addUnique st.unique e
      .ok ⟨unique, st.inputCount + 1, st.byteCount + det.size e, st.coverage ∪ e.notes⟩

end Detect

variable [LinearOrder D]

/-- The sort key `(source_id, boot_id, journal_monotonic_us, event_id)`. -/
def NetworkEvent.order (e : NetworkEvent D) : List Char ×ₗ List Char ×ₗ Nat ×ₗ D :=
  toLex (e.sourceId, toLex (e.bootId, toLex (e.journalMonotonicUs, e.eventId)))

/-- The sort key of a group. -/
def peerOrder (p : Peer D) : List Char ×ₗ List Char ×ₗ D ×ₗ List Char ×ₗ List Char :=
  toLex (p.sourceId, toLex (p.bootId, toLex (p.sourceProfileRevision, toLex (p.srcIp, p.dstIp))))

/-- The keys of the groups, sorted. -/
def peers (rows : List (NetworkEvent D)) : List (Peer D) :=
  (rows.map NetworkEvent.peer).dedup.insertionSort fun a b => peerOrder a ≤ peerOrder b

/-- `ordered`. -/
def sortRows (events : List (NetworkEvent D)) : List (NetworkEvent D) :=
  events.insertionSort fun a b => a.order ≤ b.order

/-- The report on the observations gathered. -/
def reportOf (st : Gathered D) : NetworkReport D :=
  let ordered := sortRows st.unique
  let affected := clockWarnings ordered
  let rows := ordered.filter eligible
  { findings := (peers rows).flatMap fun p =>
      scanRows (affected.contains (p.sourceId, p.bootId)) (rows.filter fun e => e.peer = p)
    inputCount := st.inputCount
    uniqueCount := st.unique.length
    duplicateCount := st.inputCount - st.unique.length
    eligibleCount := rows.length
    excludedCount := st.unique.length - rows.length
    coverage := st.coverage ∪ if affected.isEmpty then ∅ else {.journalClockDiscontinuity} }

/-- `detect_network`. -/
def detectNetwork (det : Detector D) (limits : InputLimits) (events : List (NetworkEvent D)) :
    Except String (NetworkReport D) := do
  let st ← events.foldlM (gather det limits) ⟨[], 0, 0, baseCoverage⟩
  .ok (reportOf st)

end RiskOps.Telemetry.Network
