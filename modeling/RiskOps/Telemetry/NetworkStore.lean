import RiskOps.Lib.Table
import RiskOps.Telemetry.NetworkProtocol

/-!
# RiskOps.Telemetry.NetworkStore — receipts of network batches

Model of `NetworkStore.ingest` of `telemetry/network_store.py`: **a batch is stored in one
transaction, or answered from its stored response.** The batch has to start where the source's
checkpoint stands. Every entry leaves one receipt under its identity; an observation is also
stored until retention deletes it. Receipts and responses are never deleted.

The limits on disk space are left out: a batch they refuse changes nothing.
-/

namespace RiskOps.Telemetry.Network

open RiskOps.Lib

variable {D : Type} [DecidableEq D]

/-! ### Tables -/

/-- A row of `network_receipts`. -/
structure Receipt (D : Type) where
  sourceId : List Char
  eventId : D
  contentHash : D
  isEvent : Bool
  code : Option RejectionCode
  recordHash : D
  bootId : List Char
  journalCursor : List Char
  journalRealtimeUs : Nat
  journalMonotonicUs : Nat
  collectedAtUs : Nat
  receivedAtUs : Nat

/-- `(source_id, event_id)`. -/
def Receipt.key (r : Receipt D) : List Char × D := (r.sourceId, r.eventId)

/-- A row of `network_events`. -/
structure StoredEvent (D : Type) where
  seq : Nat
  sourceId : List Char
  collectedAtUs : Nat
  receivedAtUs : Nat
  event : NetworkEvent D

/-- A row of `network_batches`. -/
structure StoredBatch (D : Type) where
  sourceId : List Char
  batchId : List Char
  payloadHash : D
  receivedAtUs : Nat
  response : Ack D

/-- `(source_id, batch_id)`. -/
def StoredBatch.key (b : StoredBatch D) : List Char × List Char := (b.sourceId, b.batchId)

/-- A row of `network_sources`; the last response stands for `last_report_json`. -/
structure Source (D : Type) where
  sourceId : List Char
  profileRevision : D
  checkpoint : Option (List Char)
  firstReceivedAtUs : Nat
  receivedAtUs : Nat
  acceptedTotal : Nat
  rejectedTotal : Nat
  duplicateTotal : Nat
  lastReport : Ack D

/-- The tables of the store. -/
structure Store (D : Type) where
  receipts : Table (Receipt.key : Receipt D → List Char × D)
  events : List (StoredEvent D)
  eventSeq : Nat
  batches : Table (StoredBatch.key : StoredBatch D → List Char × List Char)
  sources : Table (Source.sourceId : Source D → List Char)

/-- The store before the first batch. -/
def Store.empty : Store D := ⟨.empty, [], 0, .empty, .empty⟩

/-- The bounds of a store. -/
structure StoreConfig where
  retentionDays : Nat
  maxEvents : Nat
  maxReceipts : Nat
  maxBatches : Nat

/-- `RETENTION_BATCH`. -/
def retentionBatch : Nat := 1000

/-- The checkpoint of a source. -/
def Store.checkpoint (s : Store D) (sourceId : List Char) : Option (List Char) :=
  (s.sources.find? sourceId).bind Source.checkpoint

/-! ### `ingest` -/

/-- The sort key `(received_at_us, seq)`. -/
def StoredEvent.expiryOrder (e : StoredEvent D) : Nat ×ₗ Nat := toLex (e.receivedAtUs, e.seq)

/-- Deletes at most 1000 expired observations, the oldest first. -/
def deleteExpired (cfg : StoreConfig) (now : Nat) (events : List (StoredEvent D)) :
    List (StoredEvent D) :=
  let expired := ((events.filter fun e =>
      decide (e.receivedAtUs + cfg.retentionDays * 86400000000 < now)).insertionSort
    fun a b => a.expiryOrder ≤ b.expiryOrder).take retentionBatch
  events.filter fun e => !(expired.map StoredEvent.seq).contains e.seq

/-- The loop over the entries of a batch. -/
structure Progress (D : Type) where
  receipts : Table (Receipt.key : Receipt D → List Char × D)
  events : List (StoredEvent D)
  eventSeq : Nat
  results : List (Result D)

/-- The receipt of an entry. -/
def receiptOf (w : Wire D) (b : Batch D) (now : Nat) (entry : Entry D) : Receipt D :=
  match entry with
  | .event e => ⟨b.sourceId, e.eventId, e.contentHash, true, none, w.record entry, e.bootId,
      e.journalCursor, e.journalRealtimeUs, e.journalMonotonicUs, b.collectedAtUs, now⟩
  | .rejection r => ⟨b.sourceId, r.eventId, r.contentHash, false, some r.code, w.record entry,
      r.bootId, r.journalCursor, r.journalRealtimeUs, r.journalMonotonicUs, b.collectedAtUs, now⟩

/-- The result of an entry. -/
def resultOf (entry : Entry D) (status : Status) (code : Option RejectionCode) : Result D :=
  ⟨entry.eventId, entry.contentHash, status, code⟩

/-- One entry of a batch. -/
def ingestEntry (w : Wire D) (cfg : StoreConfig) (b : Batch D) (now : Nat) (st : Progress D)
    (entry : Entry D) : Except String (Progress D) :=
  match st.receipts.find? (b.sourceId, entry.eventId) with
  | some previous =>
    if previous.contentHash ≠ entry.contentHash ∨ previous.isEvent ≠ entry.isEvent
        ∨ previous.recordHash ≠ w.record entry then .error "network_event_conflict"
    else .ok { st with results := st.results ++ [resultOf entry .duplicate previous.code] }
  | none =>
    if cfg.maxReceipts ≤ st.receipts.rows.length
        ∨ (entry.isEvent ∧ cfg.maxEvents ≤ st.events.length) then
      .error "network_capacity_exceeded"
    else
      let receipts := st.receipts.insertOrIgnore (receiptOf w b now entry)
      match entry with
      | .event e => .ok {
          receipts := receipts
          events := st.events ++ [⟨st.eventSeq + 1, b.sourceId, b.collectedAtUs, now, e⟩]
          eventSeq := st.eventSeq + 1
          results := st.results ++ [resultOf entry .accepted none] }
      | .rejection r => .ok { st with
          receipts := receipts
          results := st.results ++ [resultOf entry .rejected (some r.code)] }

/-- The response to a batch. -/
def responseOf (w : Wire D) (b : Batch D) (now : Nat) (results : List (Result D)) : Ack D where
  sourceId := b.sourceId
  profileRevision := b.profileRevision
  batchId := b.batchId
  payloadHash := w.payload b
  durable := true
  cursorBefore := b.cursorBefore
  cursorAfter := b.cursorAfter
  collectedAtUs := b.collectedAtUs
  receivedAtUs := now
  results := results
  reports := b.reports
  caughtUp := b.caughtUp
  accepted := results.countP fun r => r.status == .accepted
  rejected := results.countP fun r => r.status == .rejected
  duplicates := results.countP fun r => r.status == .duplicate

/-- The source after a batch. -/
def sourceAfter (old : Option (Source D)) (b : Batch D) (now : Nat) (response : Ack D) : Source D :=
  { sourceId := b.sourceId
    profileRevision := b.profileRevision
    checkpoint := b.cursorAfter
    firstReceivedAtUs := (old.map Source.firstReceivedAtUs).getD now
    receivedAtUs := now
    acceptedTotal := (old.map Source.acceptedTotal).getD 0 + response.accepted
    rejectedTotal := (old.map Source.rejectedTotal).getD 0 + response.rejected
    duplicateTotal := (old.map Source.duplicateTotal).getD 0 + response.duplicates
    lastReport := response }

/-- The transaction of a batch that was not stored before. -/
def ingestFresh (w : Wire D) (cfg : StoreConfig) (b : Batch D) (now : Nat) (s : Store D) :
    Except String (Ack D × Store D) :=
  if b.collectedAtUs > now + 300000000 then .error "network_collection_time_in_future"
  else if b.cursorBefore ≠ s.checkpoint b.sourceId then .error "network_cursor_conflict"
  else if cfg.maxBatches ≤ s.batches.rows.length then .error "network_capacity_exceeded"
  else do
    let st ← b.entries.foldlM (ingestEntry w cfg b now)
      ⟨s.receipts, deleteExpired cfg now s.events, s.eventSeq, []⟩
    let response := responseOf w b now st.results
    .ok (response, {
      receipts := st.receipts
      events := st.events
      eventSeq := st.eventSeq
      batches := s.batches.insertOrIgnore ⟨b.sourceId, b.batchId, w.payload b, now, response⟩
      sources := s.sources.replace (sourceAfter (s.sources.find? b.sourceId) b now response) })

/-- `ingest`. -/
def ingest (w : Wire D) (cfg : StoreConfig) (profile : SourceProfile) (now : Nat) (b : Batch D)
    (s : Store D) : Except String (Ack D × Store D) := do
  validateBatch w profile b
  if now > maxRealtimeUs then .error "invalid_network_receive_time"
  else
    match s.batches.find? (b.sourceId, b.batchId) with
    | some previous =>
      if previous.payloadHash ≠ w.payload b then .error "network_batch_conflict"
      else .ok (previous.response, s)
    | none => ingestFresh w cfg b now s

/-- A delivery: the profile the store knows, the time and the batch. -/
structure Delivery (D : Type) where
  profile : SourceProfile
  now : Nat
  batch : Batch D

/-- The store after a delivery; one that is refused changes nothing. -/
def deliver (w : Wire D) (cfg : StoreConfig) (s : Store D) (x : Delivery D) : Store D :=
  match ingest w cfg x.profile x.now x.batch s with
  | .ok (_, s') => s'
  | .error _ => s

end RiskOps.Telemetry.Network
