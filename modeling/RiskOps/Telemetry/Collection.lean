import RiskOps.Telemetry.Store

/-!
# RiskOps.Telemetry.Collection — what was not collected, and what arrived late

Model of `record_batch` (`telemetry/collection.py`), which `ingest` calls once for every batch it
commits. A **gap** is an interval whose records may never arrive; it is written once, closed. A
**delay** says that records come late; it stays open while it lasts and is closed by the first batch
that shows it is over.

Times are exact numbers of seconds; a `collected_at` that cannot be read raises before anything is
written. `minutes` is the text of a duration. Rows of `collection_issues` are never deleted, so the
next `issue_id` is their number plus one.
-/

namespace RiskOps.Telemetry.Collection

open RiskOps.Lib

/-! ### Rows -/

/-- The `category` of an issue: `GAP`, `DELAY`, `NOTICE`. -/
inductive Category
  | gap
  | delay
  | notice
  deriving DecidableEq, Repr

/-- A row of `collection_issues`. -/
structure Issue where
  issueId : Nat
  sourceId : List Char
  kind : String
  category : Category
  startedAt : Option ℚ
  endedAt : Option ℚ
  detail : String
  firstBatchId : List Char
  lastBatchId : List Char
  batches : Nat
  openedAt : ℚ
  updatedAt : ℚ
  deriving DecidableEq

/-- A row of `source_collection`. -/
structure SourceCollection where
  sourceId : List Char
  trackingSince : ℚ
  coverageStart : Option ℚ
  coverageNote : Option String
  lastBatchAt : Option ℚ
  caughtUp : Bool
  lastDeliveryLagSeconds : Option ℚ
  updatedAt : ℚ

/-- The two tables. -/
structure Tables where
  issues : List Issue
  sources : Table SourceCollection.sourceId

def Tables.empty : Tables := ⟨[], .empty⟩

/-- A report of a batch; a missing code or message is the empty text. -/
structure Report where
  code : String
  message : String

/-- The arguments of `record_batch`. `previous` is the row of `sources` before the batch. -/
structure Batch where
  sourceId : List Char
  batchId : List Char
  receivedAt : ℚ
  previous : Option Store.Source
  reports : List Report
  recordTimes : List ℚ
  collectedAt : Option ℚ

/-! ### What a batch reports -/

/-- `CATCHING_UP`. -/
def catchingUp : List String := ["page_full", "batch_limited"]

/-- `INFORMATIONAL`: any other code says that the source could not be read. -/
def informational : List String :=
  ["coverage_start", "retention_gap", "message_truncated"] ++ catchingUp

/-- `SILENCE_SECONDS`. -/
def silenceSeconds : ℚ := 300

/-- `RECOVERY_WINDOW_SECONDS`. -/
def recoveryWindowSeconds : ℚ := 600

/-- `DELIVERY_DELAY_SECONDS`. -/
def deliveryDelaySeconds : ℚ := 120

/-- `codes`. -/
def Batch.codes (b : Batch) : List String := b.reports.map Report.code

/-- `messages.get(code, "")`: the last report with the code counts. -/
def Batch.message (b : Batch) (code : String) : String :=
  ((b.reports.reverse.find? fun r => r.code = code).map Report.message).getD ""

/-- `sorted(codes - INFORMATIONAL - {""})`. -/
def Batch.failed (b : Batch) : List String :=
  ((b.codes.filter fun c => c ∉ informational ∧ c ≠ "").dedup).insertionSort (· ≤ ·)

/-- `codes & CATCHING_UP` is not empty. -/
def Batch.behind (b : Batch) : Bool := b.codes.any fun c => c ∈ catchingUp

/-- `last_event`. -/
def Batch.lastEvent (b : Batch) : Option ℚ := b.previous.bind Store.Source.lastEventAt

/-- `window_start`: the exporter's recent window begins ten minutes before the export. -/
def Batch.windowStart (b : Batch) : ℚ := b.collectedAt.getD b.receivedAt - recoveryWindowSeconds

/-! ### Writing rows -/

/-- `_insert`. -/
def insertIssue (t : Tables) (sourceId : List Char) (kind : String) (category : Category)
    (started ended : Option ℚ) (detail : String) (batchId : List Char) (now : ℚ) : Tables :=
  { t with
    issues := t.issues ++ [⟨t.issues.length + 1, sourceId, kind, category, started, ended, detail,
      batchId, batchId, 1, now, now⟩] }

/-- An issue that has not ended. -/
def Issue.isOpen (i : Issue) (sourceId : List Char) (kind : String) : Bool :=
  decide (i.sourceId = sourceId) && decide (i.kind = kind) && i.endedAt.isNone

/-- `_open`: starts a delay, or extends the one already open. -/
def openIssue (t : Tables) (sourceId : List Char) (kind detail : String) (batchId : List Char)
    (now : ℚ) : Tables :=
  match (t.issues.filter fun i => i.isOpen sourceId kind).getLast? with
  | none => insertIssue t sourceId kind .delay (some now) none detail batchId now
  | some row =>
    { t with
      issues := t.issues.map fun i =>
        if i.issueId = row.issueId then
          { i with
            lastBatchId := batchId
            batches := i.batches + 1
            detail := detail
            updatedAt := now } else i }

/-- `_close`. -/
def closeIssue (t : Tables) (sourceId : List Char) (kind : String) (now : ℚ) : Tables :=
  { t with
    issues := t.issues.map fun i =>
      if i.isOpen sourceId kind then { i with endedAt := some now, updatedAt := now } else i }

/-! ### `record_batch` -/

/-- The row of `source_collection`, made at the first batch. -/
def track (t : Tables) (b : Batch) : Tables :=
  match t.sources.find? b.sourceId with
  | some _ => t
  | none =>
    let coverage := b.previous.map Store.Source.firstSeen
    let note := b.previous.map fun _ => "estimated from the first batch; tracking started later"
    { t with
      sources := t.sources.insertOrIgnore
        ⟨b.sourceId, b.receivedAt, coverage, note, none, true, none, b.receivedAt⟩ }

section

variable (minutes : ℚ → String)

/-- No batch for a while. -/
def recordSilence (t : Tables) (b : Batch) : Tables :=
  match b.previous with
  | none => t
  | some previous =>
    let quiet := b.receivedAt - previous.lastSeen
    if silenceSeconds < quiet then
      insertIssue t b.sourceId "silence" .delay (some previous.lastSeen) (some b.receivedAt)
        ("no batch for " ++ minutes quiet ++ ": the collector or this API was not running. " ++
          "The source journal kept the records, so they arrive late rather than being lost, " ++
          "unless it rotated in the meantime (that would be recorded as a gap).")
        b.batchId b.receivedAt
    else t

/-- `reset`: only the stretch between the last record and the recovered window can be missing. -/
def reset (t : Tables) (b : Batch) (kind why : String) : Tables :=
  match b.lastEvent.filter fun last => last < b.windowStart with
  | some last =>
    insertIssue t b.sourceId kind .gap (some last) (some b.windowStart)
      (String.ofList (strip (why ++ " Records between these times may be missing. " ++
        b.message kind).toList)) b.batchId b.receivedAt
  | none =>
    insertIssue t b.sourceId "cursor_reset" .notice (some b.windowStart) (some b.receivedAt)
      (why ++ " The recovered window reaches back past the last record already collected, so " ++
        "nothing is missing; overlapping records were deduplicated.") b.batchId b.receivedAt

/-- `start`: where a source without a record begins. -/
def Batch.coverageStart (b : Batch) : ℚ := b.recordTimes.min?.getD b.receivedAt

/-- A batch of a collector without a cursor. -/
def recordCoverage (t : Tables) (b : Batch) : Tables :=
  if "coverage_start" ∉ b.codes then t
  else if b.lastEvent.isNone then
    let t := insertIssue t b.sourceId "coverage_start" .gap none (some b.coverageStart)
      ("collection began here; only the exporter's recent window was read, so anything earlier " ++
        "is outside coverage.") b.batchId b.receivedAt
    { t with
      sources := t.sources.update
        (fun s => if s.sourceId = b.sourceId ∧ s.coverageStart.isNone then
          { s with coverageStart := some b.coverageStart, coverageNote := none } else s)
        (fun s => by split <;> rfl) }
  else
    reset t b "cursor_lost" ("The collector had no saved cursor for a source it had collected " ++
      "before and restarted from the exporter's recent window.")

/-- A batch behind a cursor that the journal no longer holds. -/
def recordRetention (t : Tables) (b : Batch) : Tables :=
  if "retention_gap" ∈ b.codes then
    reset t b "retention_gap"
      "The saved cursor was no longer in the source journal (rotated or vacuumed)."
  else t

/-- Could the source be read? -/
def recordFailure (t : Tables) (b : Batch) : Tables :=
  if b.failed ≠ [] then
    openIssue t b.sourceId "source_error"
      ("the source could not be read (" ++ ", ".intercalate b.failed ++ "); its cursor did not " ++
        "move, so the records wait in its journal.") b.batchId b.receivedAt
  else closeIssue t b.sourceId "source_error" b.receivedAt

/-- Is the collector working through a backlog? -/
def recordBacklog (t : Tables) (b : Batch) : Tables :=
  if b.behind then
    openIssue t b.sourceId "catching_up"
      ("the collector read a full page and more records are waiting; it is working through a " ++
        "backlog.") b.batchId b.receivedAt
  else if b.failed = [] then closeIssue t b.sourceId "catching_up" b.receivedAt
  else t

/-- How long a batch collected then was on its way. -/
def Batch.lagOf (b : Batch) (collected : ℚ) : ℚ := max 0 (b.receivedAt - collected)

/-- A batch that waited in the spool. -/
def recordDelivery (t : Tables) (b : Batch) : Tables :=
  match b.collectedAt with
  | none => t
  | some collected =>
    if deliveryDelaySeconds < b.lagOf collected then
      insertIssue t b.sourceId "delivery_delay" .delay (some collected) (some b.receivedAt)
        ("this batch waited " ++ minutes (b.lagOf collected) ++
          " in the collector's spool before this API accepted it.") b.batchId b.receivedAt
    else t

/-- Truncated messages. -/
def recordTruncation (t : Tables) (b : Batch) : Tables :=
  if "message_truncated" ∈ b.codes then
    insertIssue t b.sourceId "message_truncated" .notice (some b.receivedAt) (some b.receivedAt)
      (b.message "message_truncated") b.batchId b.receivedAt
  else t

/-- The last update of `source_collection`. -/
def finish (t : Tables) (b : Batch) : Tables :=
  { t with
    sources := t.sources.update
      (fun s => if s.sourceId = b.sourceId then
        { s with
          lastBatchAt := some b.receivedAt
          caughtUp := !(b.behind || !b.failed.isEmpty)
          lastDeliveryLagSeconds := (b.collectedAt.map b.lagOf).or s.lastDeliveryLagSeconds
          updatedAt := b.receivedAt } else s)
      (fun s => by split <;> rfl) }

/-- `record_batch`. -/
def recordBatch (t : Tables) (b : Batch) : Tables :=
  let t := track t b
  let t := recordSilence minutes t b
  let t := recordCoverage t b
  let t := recordRetention t b
  let t := recordFailure t b
  let t := recordBacklog t b
  let t := recordDelivery minutes t b
  let t := recordTruncation t b
  finish t b

end

end RiskOps.Telemetry.Collection
