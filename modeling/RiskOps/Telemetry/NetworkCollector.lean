import RiskOps.Telemetry.NetworkExport
import RiskOps.Telemetry.NetworkStore

/-!
# RiskOps.Telemetry.NetworkCollector — the collector between the journal and the store

Model of `collect_page` of `scripts/network_collector.py` in the system it is part of: **a journal
that only grows, a collector with two durable files, and the store.** A page is written to the
pending file before it is sent; the state file is written after the acknowledgement; the pending
file is removed last. The collector can stop between any two of these and starts again from its
files. Requests and acknowledgements can be lost, delayed and repeated.

The files belong to one configuration, so its fingerprint is left out, as are the quota of the
spool and the deadlines: a page they stop changes nothing.
-/

namespace RiskOps.Telemetry.Network

open RiskOps.Lib

/-! ### Durable files -/

/-- `network.state.json`. -/
structure CollectorState (D : Type) where
  cursor : Option (List Char)
  lastBatchId : Option (List Char)
  lastPayloadHash : Option D
  deriving DecidableEq

/-- `_load_state` without a file. -/
def CollectorState.initial {D : Type} : CollectorState D := ⟨none, none, none⟩

/-- `network.pending.json`. -/
structure Pending (D : Type) where
  payloadHash : D
  batch : Batch D
  deriving DecidableEq

variable {D : Type} [DecidableEq D]

/-- The pending file of a batch. -/
def pendingOf (w : Wire D) (b : Batch D) : Pending D := ⟨w.payload b, b⟩

/-- The state was written for this batch, and its file not yet removed. -/
def afterStateCommit (state : CollectorState D) (pending : Pending D) : Bool :=
  state.lastBatchId == some pending.batch.batchId
    && state.lastPayloadHash == some pending.payloadHash && state.cursor == pending.batch.cursorAfter

/-- `_validate_pending`; every failure has one code. -/
def validatePending (w : Wire D) (profile : SourceProfile) (state : CollectorState D)
    (pending : Pending D) : Except String (Batch D) :=
  if pending.payloadHash ≠ w.payload pending.batch then .error "invalid_network_spool"
  else match validateBatch w profile pending.batch with
    | .error _ => .error "invalid_network_spool"
    | .ok () =>
      if state.cursor ≠ pending.batch.cursorBefore ∧ afterStateCommit state pending = false then
        .error "invalid_network_spool"
      else .ok pending.batch

/-- `_next_state`. -/
def nextState (w : Wire D) (b : Batch D) : CollectorState D :=
  ⟨b.cursorAfter, some b.batchId, some (w.payload b)⟩

/-- The checks on a page that was fetched. -/
def validateFetched (w : Wire D) (profile : SourceProfile) (state : CollectorState D) (b : Batch D) :
    Except String (Batch D) :=
  match validateBatch w profile b with
  | .error _ => .error "invalid_network_export"
  | .ok () => if b.cursorBefore ≠ state.cursor then .error "invalid_network_export" else .ok b

/-! ### The system -/

/-- How far the running `collect_page` has come: nothing, a body to send, an acknowledgement
that passed, the state written. -/
inductive Phase (D : Type) where
  | idle
  | sending (body : Batch D)
  | acknowledged (body : Batch D) (ack : Ack D)
  | committed (body : Batch D)

/-- The journal, the collector with its files, what is in flight, and the store. -/
structure System (D : Type) where
  journal : List (Entry D)
  state : CollectorState D
  pending : Option (Pending D)
  phase : Phase D
  requests : List (Batch D)
  acks : List (Ack D)
  store : Store D
  /-- The batch identifiers drawn so far. -/
  issued : List (List Char)

/-- The system before the first export. -/
def System.initial : System D := ⟨[], .initial, none, .idle, [], [], .empty, []⟩

/-- The configuration of the exporter, the collector and the store. -/
structure Setup (D : Type) where
  wire : Wire D
  profile : SourceProfile
  validFromUs : Nat
  config : StoreConfig

/-- The records after a cursor; without one, those from position `start` on. -/
def recordsAfter (journal : List (Entry D)) (start : Nat) : Option (List Char) → List (Entry D)
  | some cursor => (journal.dropWhile fun e => e.journalCursor ≠ cursor).tail
  | none => journal.drop start

/-- The events of the system. -/
inductive Action (D : Type) where
  /-- The kernel logs a record. -/
  | log (entry : Entry D)
  /-- `collect_page` starts; what its export observes, if it exports. -/
  | start (obs : Observed) (recent : Nat)
  /-- The body is sent, or sent again. -/
  | send
  /-- The store handles a request in flight. -/
  | serve (now : Nat) (b : Batch D)
  /-- The collector of another source delivers. -/
  | other (x : Delivery D)
  /-- An acknowledgement arrives. -/
  | receive (ack : Ack D)
  | writeState
  | unlink
  /-- The collector stops. -/
  | crash

/-- `collect_page` up to the pending file. The journal still has the cursor. -/
def startPage (cfg : Setup D) (obs : Observed) (recent : Nat) (s : System D) :
    Except String (System D) :=
  match s.pending with
  | some pending => do
      let body ← validatePending cfg.wire cfg.profile s.state pending
      .ok { s with phase := .sending body }
  | none => do
      let obs := { obs with cursorBefore := true, cursorAfter := true }
      let page ← exportPage cfg.wire cfg.profile cfg.validFromUs obs s.state.cursor .ok
        (recordsAfter s.journal recent s.state.cursor)
      let body ← validateFetched cfg.wire cfg.profile s.state page
      .ok { s with
        pending := some (pendingOf cfg.wire body)
        phase := .sending body
        issued := obs.batchId :: s.issued }

/-- The store handles a request. -/
def serve (cfg : Setup D) (now : Nat) (b : Batch D) (s : System D) : System D :=
  match ingest cfg.wire cfg.config cfg.profile now b s.store with
  | .ok (ack, store) => { s with store := store, acks := ack :: s.acks }
  | .error _ => s

/-- One event; one that cannot happen changes nothing. A new record has a new cursor and a new
identity, and a drawn batch identifier is new. -/
def System.next (cfg : Setup D) (s : System D) : Action D → System D
  | .log entry =>
    if entry.journalCursor ∈ s.journal.map Entry.journalCursor
        ∨ entry.eventId ∈ s.journal.map Entry.eventId then s
    else { s with journal := s.journal ++ [entry] }
  | .start obs recent =>
    match s.phase with
    | .idle =>
      if obs.batchId ∈ s.issued then s
      else match startPage cfg obs recent s with
        | .ok s' => s'
        | .error _ => s
    | _ => s
  | .send =>
    match s.phase with
    | .sending body => { s with requests := body :: s.requests }
    | _ => s
  | .serve now b => if b ∈ s.requests then serve cfg now b s else s
  | .other x =>
    if x.batch.sourceId = cfg.profile.sourceId then s
    else { s with store := deliver cfg.wire cfg.config s.store x }
  | .receive ack =>
    match s.phase with
    | .sending body =>
      if ack ∈ s.acks then
        match validateAck cfg.wire ack body with
        | .ok () => { s with phase := .acknowledged body ack }
        | .error _ => { s with phase := .idle }
      else s
    | _ => s
  | .writeState =>
    match s.phase with
    | .acknowledged body _ =>
      { s with state := nextState cfg.wire body, phase := .committed body }
    | _ => s
  | .unlink =>
    match s.phase with
    | .committed _ => { s with pending := none, phase := .idle }
    | _ => s
  | .crash => { s with phase := .idle }

/-- The receipts of a source. -/
def Store.receiptsOf (s : Store D) (sourceId : List Char) : List (Receipt D) :=
  s.receipts.rows.filter fun r => r.sourceId = sourceId

end RiskOps.Telemetry.Network
