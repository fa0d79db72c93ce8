import RiskOps.Lib.CaseBook
import RiskOps.Telemetry.NetworkDetection
import RiskOps.Telemetry.NetworkStore

/-!
# RiskOps.Telemetry.NetworkIncidents — restartable network analysis

Model of `telemetry/network_incidents.py`: **receipts become review cases, one per group and
monotonic hour.** `intake` walks the receipts up to a durable target, copies their observations
into the context and marks the hours they can change; `analyzeWindow` runs the rule over one
marked hour with five minutes on both sides and stores the case. An observation that has
expired on the way is recorded as a loss, and a window with a loss is not analysed.

Receipts and batches are never deleted, so the row number of each is its position. The evidence
digest of a payload is the evidence, an incident identifier is the key it is computed from, and
`now` is an exact number of seconds.
-/

namespace RiskOps.Telemetry.Network

open RiskOps.Lib

/-! ### Tables -/

/-- `HOUR_US`. -/
def hourUs : Nat := 3600000000

/-- `WINDOW_US`. -/
def windowUs : Nat := 300000000

/-- `MAX_CONTEXT_RECORDS`. -/
def maxContextRecords : Nat := 5000

/-- `MAX_CONTEXT_BYTES`. -/
def maxContextBytes : Nat := 4 * 1024 * 1024

/-- A group and an hour of its monotonic clock. -/
abbrev WindowKey (D : Type) := Peer D × Nat

/-- A row of `network_context`. -/
structure ContextRow (D : Type) where
  receiptSeq : Nat
  receivedAtUs : Nat
  event : NetworkEvent D

/-- A row of `network_analysis_losses`; the reason is its note. -/
structure Loss (D : Type) where
  sourceId : List Char
  eventId : D
  bootId : List Char
  monotonicUs : Nat
  reason : Note

/-- `(source_id, event_id)`. -/
def Loss.key {D : Type} (l : Loss D) : List Char × D := (l.sourceId, l.eventId)

/-- `last_report_json`. -/
structure LastReport where
  batchSeq : Nat
  batchId : List Char
  reports : List Report
  caughtUp : Bool
  receivedAtUs : Nat

/-- A row of `network_analysis_sources`. -/
structure SourceCoverage where
  sourceId : List Char
  coverage : Finset Note
  lastReport : Option LastReport

/-- `assessment`, without its texts. -/
structure Assessment where
  score : Nat
  priority : Option String
  surfaced : Bool
  evidenceCount : Nat
  deriving DecidableEq

/-- The content of a case; `evidence` stands for `evidence_sha256`, and the ports are those of
its rule. -/
structure Payload (D : Type) where
  key : WindowKey D
  coverage : Finset Note
  stale : Bool
  active : Bool
  firstSeen : Nat
  lastSeen : Nat
  distinctDstPorts : List Nat
  evidenceCount : Nat
  evidence : List (NetworkEvent D)
  assessment : Assessment
  deriving DecidableEq

/-- A row of `network_evidence`. -/
structure Evidence (D : Type) where
  key : WindowKey D
  event : NetworkEvent D

/-- A row of `network_notice_outbox`. -/
structure Notice (D : Type) where
  topic : WindowKey D
  revision : Nat
  cancelled : Bool
  payload : Payload D
  pending : Bool

/-- The tables of the analysis. `book` stands for `network_incidents`,
`network_incident_revisions` and `network_evidence_membership`. -/
structure Analysis (D : Type) where
  cursor : Nat
  batchCursor : Nat
  targets : Option (Nat × Nat)
  analyzedInputRecords : Nat
  missingRawRecords : Nat
  sources : Table SourceCoverage.sourceId
  context : List (ContextRow D)
  losses : Table (Loss.key : Loss D → List Char × D)
  windows : DirtyWindow.Windows (WindowKey D) (Finset Note)
  book : CaseBook (WindowKey D) (Payload D) D
  evidence : Table fun e : Evidence D => (e.key, e.event.eventId)
  outbox : Table (Notice.topic : Notice D → WindowKey D)

/-- The tables as `initialize` leaves them. -/
def Analysis.empty {D : Type} : Analysis D :=
  ⟨0, 0, none, 0, 0, .empty, [], .empty, .empty, .empty, .empty, .empty⟩

/-- The database. -/
structure Db (D : Type) where
  store : Store D
  analysis : Analysis D

/-- The database before the first batch. -/
def Db.empty {D : Type} : Db D := ⟨.empty, .empty⟩

/-- The protocol, the bounds of the store and the lengths of encoded observations. -/
structure Env (D : Type) where
  wire : Wire D
  config : StoreConfig
  /-- The length of an observation in `detect_network`. -/
  size : NetworkEvent D → Nat
  /-- The length of a stored `event_json`. -/
  recordSize : NetworkEvent D → Nat

/-- The detector of the analysis. -/
def Env.detector {D : Type} (env : Env D) : Detector D := ⟨env.wire.toEventDigests, env.size⟩

variable {D : Type}

/-! ### Intake -/

/-- `monotonic_us // HOUR_US * HOUR_US`. -/
def hourOf (monotonicUs : Nat) : Nat := monotonicUs / hourUs * hourUs

/-- `_buckets`, unsorted. -/
def buckets (monotonicUs : Nat) : List Nat :=
  let hour := hourOf monotonicUs
  hour :: ((if monotonicUs - hour ≤ windowUs ∧ hour ≠ 0 then [hour - hourUs] else []) ++
    (if monotonicUs - hour ≥ hourUs - windowUs ∧ hour + hourUs ≤ maxMonotonicUs then
      [hour + hourUs] else []))

/-- The windows an observation marks. -/
def windowsOf (e : NetworkEvent D) : List (WindowKey D) :=
  (buckets e.journalMonotonicUs).map fun hour => (e.peer, hour)

/-- Every window of the clock at the hour is dirty. -/
def dirtyClock (now : ℚ) (sourceId bootId : List Char)
    (windows : DirtyWindow.Windows (WindowKey D) (Finset Note)) (hour : Nat) :
    DirtyWindow.Windows (WindowKey D) (Finset Note) :=
  windows.update (fun w =>
      if w.key.1.sourceId = sourceId ∧ w.key.1.bootId = bootId ∧ w.key.2 = hour then
        { w with dirty := true, updatedAt := now } else w)
    (fun w => by split <;> rfl)

section Tables

variable [DecidableEq D]

/-- `_loss`. -/
def recordLoss (now : ℚ) (loss : Loss D) (db : Analysis D) : Analysis D :=
  { db with
    losses := db.losses.insertOrIgnore loss
    windows := (buckets loss.monotonicUs).foldl (dirtyClock now loss.sourceId loss.bootId)
      db.windows }

/-- `_source_coverage`. -/
def sourceCoverage (sourceId : List Char) (notes : Finset Note) (last : Option LastReport)
    (db : Analysis D) : Analysis D :=
  let old := db.sources.find? sourceId
  let row : SourceCoverage := ⟨sourceId, (old.map SourceCoverage.coverage).getD ∅ ∪ notes,
    last.orElse fun _ => old.bind SourceCoverage.lastReport⟩
  { db with sources := db.sources.replace row }

/-- The raw observation of a receipt. -/
def Store.event? (s : Store D) (key : List Char × D) : Option (NetworkEvent D) :=
  (s.events.find? fun row => (row.sourceId, row.event.eventId) = key).map StoredEvent.event

/-- One receipt of `intake`, with its row number. -/
def intakeReceipt (s : Store D) (now : ℚ) (db : Analysis D) (row : Receipt D × Nat) : Analysis D :=
  let r := row.1
  let db := { db with cursor := row.2 }
  if r.isEvent then
    match s.event? r.key with
    | none =>
      let lost := recordLoss now ⟨r.sourceId, r.eventId, r.bootId, r.journalMonotonicUs,
        .rawHistoryExpiredBeforeAnalysis⟩ db
      sourceCoverage r.sourceId {.rawHistoryExpiredBeforeAnalysis} none
        { lost with missingRawRecords := lost.missingRawRecords + 1 }
    | some e =>
      sourceCoverage e.sourceId e.notes none { db with
        context := db.context ++ [⟨row.2, r.receivedAtUs, e⟩]
        windows := (windowsOf e).foldl (DirtyWindow.mark ∅ now) db.windows
        analyzedInputRecords := db.analyzedInputRecords + 1 }
  else
    sourceCoverage r.sourceId (insert .rejectedRecords
      ((r.code.toList.map Note.rejection).toFinset)) none db

/-- One batch of `intake`: what its response says about the collection. -/
def intakeBatch (db : Analysis D) (row : StoredBatch D × Nat) : Analysis D :=
  let report := row.1.response
  let notes := (report.reports.map Note.report).toFinset ∪
    (if report.caughtUp then ∅ else {.collectionBacklogObserved}) ∪
    (if report.results.any fun r => r.code.isSome then {.rejectedRecords} else ∅)
  { sourceCoverage report.sourceId notes
      (some ⟨row.2, report.batchId, report.reports, report.caughtUp, report.receivedAtUs⟩) db with
    batchCursor := row.2 }

/-- `WHERE rowid>? AND rowid<=? ORDER BY rowid LIMIT ?`. -/
def numbered {ρ : Type} (rows : List ρ) (cursor target limit : Nat) : List (ρ × Nat) :=
  (((rows.zipIdx 1).take target).drop cursor).take limit

/-- The targets of this cycle: new ones when the last cycle has drained. -/
def nextTargets (s : Store D) (db : Analysis D) : Nat × Nat :=
  match db.targets with
  | some t =>
    if t.1 ≤ db.cursor ∧ t.2 ≤ db.batchCursor ∧ (db.windows.select DirtyWindow.dirty).isEmpty then
      (s.receipts.rows.length, s.batches.rows.length)
    else t
  | none => (s.receipts.rows.length, s.batches.rows.length)

/-- The cycle has read what it was to read. -/
def drained (db : Analysis D) : Bool :=
  decide ((db.targets.getD (0, 0)).1 ≤ db.cursor) &&
    decide ((db.targets.getD (0, 0)).2 ≤ db.batchCursor)

/-- `intake`; it returns `drained`. -/
def intake (s : Store D) (now : ℚ) (limit : Nat) (db : Analysis D) : Analysis D :=
  let targets := nextTargets s db
  let db := { db with targets := some targets }
  let db := (numbered s.receipts.rows db.cursor targets.1 limit).foldl (intakeReceipt s now) db
  (numbered s.batches.rows db.batchCursor targets.2 (min limit 20)).foldl intakeBatch db

/-! ### Retention -/

/-- The sort key `(received_at_us, receipt_seq)`. -/
def ContextRow.expiryOrder (row : ContextRow D) : Nat ×ₗ Nat :=
  toLex (row.receivedAtUs, row.receiptSeq)

/-- One expired row of the context. -/
def pruneRow (now : ℚ) (db : Analysis D) (row : ContextRow D) : Analysis D :=
  let db := recordLoss now ⟨row.event.sourceId, row.event.eventId, row.event.bootId,
    row.event.journalMonotonicUs, .expiredContext⟩ db
  { db with context := db.context.filter fun r => r.receiptSeq ≠ row.receiptSeq }

/-- The rows `_prune_context` deletes. -/
def expiredRows (retentionDays : Nat) (now : ℚ) (db : Analysis D) : List (ContextRow D) :=
  ((db.context.filter fun row =>
      decide ((row.receivedAtUs : ℤ) < ⌊now * 1000000⌋ - retentionDays * 86400000000)).insertionSort
    fun a b => a.expiryOrder ≤ b.expiryOrder).take 200

/-- `_prune_context`. -/
def pruneContext (retentionDays : Nat) (now : ℚ) (db : Analysis D) : Analysis D :=
  (expiredRows retentionDays now db).foldl (pruneRow now) db

/-! ### Cases -/

/-- `assessment`. -/
def assessment (active : Bool) (count : Nat) : Assessment :=
  if active then ⟨35, some "P3", true, count⟩ else ⟨0, none, false, count⟩

/-- `lookup`: the observation of an id. -/
def lookup (events : List (NetworkEvent D)) (id : D) : Option (NetworkEvent D) :=
  events.reverse.find? fun e => e.eventId = id

/-- The observation is in the hour. -/
def inHour (hour : Nat) (e : NetworkEvent D) : Bool :=
  decide (hour ≤ e.journalMonotonicUs) && decide (e.journalMonotonicUs < hour + hourUs)

/-- A finding with an observation in the hour. -/
def touches (events : List (NetworkEvent D)) (hour : Nat) (f : NetworkFinding D) : Bool :=
  f.evidenceIds.any fun id => (lookup events id).any (inHour hour)

/-- The ids of `selected`. -/
def selectedIds (events : List (NetworkEvent D)) (hour : Nat) (findings : List (NetworkFinding D)) :
    List D :=
  ((findings.filter (touches events hour)).flatMap NetworkFinding.evidenceIds).dedup

/-- `offline_context_only` is not passed on. -/
def caseNotes (notes : Finset Note) : Finset Note := notes.erase .offlineContextOnly

/-- The notes the selected findings add. -/
def findingNotes (events : List (NetworkEvent D)) (hour : Nat) (findings : List (NetworkFinding D)) :
    Finset Note :=
  (findings.filter (touches events hour)).foldl (fun notes f => notes ∪ caseNotes f.coverage) ∅

/-- The notice of a new revision: only a case seen within a day is announced. -/
def notice (key : WindowKey D) (revision : Nat) (payload : Payload D) (now : ℚ) : Notice D :=
  let seen : ℚ := payload.lastSeen / 1000000
  ⟨key, revision, !(payload.active && payload.assessment.surfaced && !payload.stale
    && decide (seen ≥ now - 86400) && decide (seen ≤ now + 300)), payload, true⟩

/-- Writes a revision, its notice and the observations it cites, unless nothing changed. -/
def storeCase (db : Analysis D) (key : WindowKey D) (payload : Payload D)
    (events : List (NetworkEvent D)) (selected : Option (List D)) (now : ℚ) : Analysis D :=
  if db.book.payload? key = some payload then db
  else
    { db with
      book := db.book.revise key payload selected now
      evidence := (((selected.getD []).filter fun id => id ∉ db.book.holds key).filterMap
        (lookup events)).foldl (fun t e => t.insertOrIgnore ⟨key, e⟩) db.evidence
      outbox := db.outbox.replace (notice key (db.book.nextRevision key) payload now) }

/-- The payload of a case that could not be analysed: the last result, marked stale. -/
def stalePayload (coverage : Finset Note) (previous : Payload D) : Payload D :=
  { previous with coverage := previous.coverage ∪ coverage, stale := true }

end Tables

/-! ### One window -/

/-- The bounds of the context of an hour. -/
def contextStart (hour : Nat) : Nat := hour - windowUs

/-- `min(MAX_TIME_US, hour + HOUR_US + WINDOW_US)`. -/
def contextEnd (hour : Nat) : Nat := min maxMonotonicUs (hour + hourUs + windowUs)

/-- The reasons for which the window cannot be analysed. -/
def lossesOf (db : Analysis D) (key : WindowKey D) : Finset Note :=
  ((db.losses.rows.filter fun l => l.sourceId = key.1.sourceId ∧ l.bootId = key.1.bootId ∧
    contextStart key.2 ≤ l.monotonicUs ∧ l.monotonicUs ≤ contextEnd key.2).map Loss.reason).toFinset

/-- The sort key `(monotonic_us, receipt_seq)`. -/
def ContextRow.order (row : ContextRow D) : Nat ×ₗ Nat :=
  toLex (row.event.journalMonotonicUs, row.receiptSeq)

section Windows

variable [LinearOrder D]

/-- The observation lies in the context of the window. -/
def inContext (key : WindowKey D) (e : NetworkEvent D) : Bool :=
  decide (e.peer = key.1) && decide (contextStart key.2 ≤ e.journalMonotonicUs)
    && decide (e.journalMonotonicUs ≤ contextEnd key.2)

/-- The context of a window. -/
def contextRows (db : Analysis D) (key : WindowKey D) : List (NetworkEvent D) :=
  ((db.context.filter fun row => inContext key row.event).insertionSort
    fun a b => a.order ≤ b.order).map ContextRow.event

/-- Reads observations until a limit is reached. -/
def readContext (size : NetworkEvent D → Nat) : List (NetworkEvent D) → Nat → List (NetworkEvent D) →
    List (NetworkEvent D) × Bool
  | events, _, [] => (events, false)
  | events, total, e :: rest =>
    if events.length ≥ maxContextRecords ∨ total + size e > maxContextBytes then (events, true)
    else readContext size (events ++ [e]) (total + size e) rest

/-- The sort key `(journal_monotonic_us, event_id)`. -/
def NetworkEvent.caseOrder (e : NetworkEvent D) : Nat ×ₗ D :=
  toLex (e.journalMonotonicUs, e.eventId)

/-- `ordered` of `_save_case`. -/
def selectedRows (events : List (NetworkEvent D)) (hour : Nat)
    (findings : List (NetworkFinding D)) : List (NetworkEvent D) :=
  ((selectedIds events hour findings).filterMap (lookup events)).insertionSort
    fun a b => a.caseOrder ≤ b.caseOrder

/-- The content of an analysed case. -/
def completePayload (key : WindowKey D) (coverage : Finset Note) (events : List (NetworkEvent D))
    (findings : List (NetworkFinding D)) (previous : Option (Payload D)) : Payload D :=
  let selected := selectedIds events key.2 findings
  let rows := selectedRows events key.2 findings
  let seen (row : Option (NetworkEvent D)) (old : Payload D → Nat) : Nat :=
    match row with
    | some e => e.journalRealtimeUs
    | none => (previous.map old).getD 0
  { key := key
    coverage := coverage
    stale := false
    active := !selected.isEmpty
    firstSeen := seen rows.head? Payload.firstSeen
    lastSeen := seen rows.getLast? Payload.lastSeen
    distinctDstPorts := ((findings.filter (touches events key.2)).flatMap
      NetworkFinding.distinctDstPorts).dedup.insertionSort (· ≤ ·)
    evidenceCount := selected.length
    evidence := rows
    assessment := assessment (!selected.isEmpty) selected.length }

/-- `_save_case` of a window that was analysed. -/
def saveCase (db : Analysis D) (key : WindowKey D) (coverage : Finset Note)
    (events : List (NetworkEvent D)) (findings : List (NetworkFinding D)) (now : ℚ) : Analysis D :=
  let selected := selectedIds events key.2 findings
  let old := db.book.payload? key
  if selected.isEmpty ∧ old.isNone then db
  else storeCase db key (completePayload key coverage events findings old) events (some selected) now

/-- `_save_case` with `unavailable`. -/
def saveStale (db : Analysis D) (key : WindowKey D) (coverage : Finset Note) (now : ℚ) :
    Analysis D :=
  match db.book.payload? key with
  | none => db
  | some old => storeCase db key (stalePayload coverage old) [] none now

/-- The coverage every window starts with. -/
def windowCoverage : Finset Note :=
  {.observationsAreLowerBounds, .apparentSourceNotIdentity, .monotonicHourReviewBucket}

/-- The window is clean with this coverage. -/
def cleanWindow (db : Analysis D) (key : WindowKey D) (coverage : Finset Note) (now : ℚ) :
    Analysis D :=
  { db with windows := DirtyWindow.clean now coverage key db.windows }

/-- `analyze_window`. -/
def analyzeWindow (env : Env D) (db : Analysis D) (key : WindowKey D) (now : ℚ) :
    Except String (Analysis D) :=
  let losses := lossesOf db key
  let read := readContext env.recordSize [] 0 ((contextRows db key).take (maxContextRecords + 1))
  if losses ≠ ∅ then
    let coverage := windowCoverage ∪ losses
    .ok (cleanWindow (saveStale db key coverage now) key coverage now)
  else if read.2 then
    let coverage := insert .contextLimit windowCoverage
    .ok (cleanWindow (saveStale db key coverage now) key coverage now)
  else do
    let report ← detectNetwork env.detector inputLimits read.1
    let coverage := windowCoverage ∪ caseNotes report.coverage ∪
      findingNotes read.1 key.2 report.findings
    .ok (cleanWindow (saveCase db key coverage read.1 report.findings now) key coverage now)

/-! ### `process` -/

/-- At most `limit` windows, each in its own transaction. -/
def analyzeWindows (env : Env D) (now : ℚ) : Nat → Analysis D → Except String (Analysis D)
  | 0, db => .ok db
  | limit + 1, db =>
    if !drained db then .ok db
    else match DirtyWindow.next? db.windows with
      | none => .ok db
      | some key => do analyzeWindows env now limit (← analyzeWindow env db key now)

/-- The first transaction of `process`. -/
def takeIn (env : Env D) (now : ℚ) (limit : Nat) (db : Db D) : Analysis D :=
  pruneContext env.config.retentionDays now (intake db.store now limit db.analysis)

/-- `process`, between two deliveries. -/
def process (env : Env D) (now : ℚ) (intakeLimit windowLimit : Nat) (db : Db D) :
    Except String (Db D) :=
  if ¬ (1 ≤ intakeLimit ∧ intakeLimit ≤ 1000) ∨ ¬ (1 ≤ windowLimit ∧ windowLimit ≤ 20)
      ∨ now < 0 ∨ 253402300799 ≤ now then .error "invalid_network_analysis_bounds"
  else do
    let analysis ← analyzeWindows env now windowLimit (takeIn env now intakeLimit db)
    .ok { db with analysis := analysis }

/-! ### Runs -/

/-- One transaction. -/
inductive Op (D : Type) where
  | ingest (delivery : Delivery D)
  | takeIn (now : ℚ) (limit : Nat)
  | analyze (now : ℚ) (key : WindowKey D)

/-- One transaction; one that fails changes nothing. A window is analysed when it is dirty and
the cycle has drained. -/
def next (env : Env D) (db : Db D) : Op D → Db D
  | .ingest delivery => { db with store := deliver env.wire env.config db.store delivery }
  | .takeIn now limit => { db with analysis := takeIn env now limit db }
  | .analyze now key =>
    if drained db.analysis && DirtyWindow.isDirty db.analysis.windows key then
      match analyzeWindow env db.analysis key now with
      | .ok analysis => { db with analysis := analysis }
      | .error _ => db
    else db

/-- The observations a transaction accepts: the rows it adds to `network_events`. -/
def acceptedBy (env : Env D) (db : Db D) : Op D → List (NetworkEvent D)
  | .ingest delivery =>
    ((deliver env.wire env.config db.store delivery).events.filter fun row =>
      decide (db.store.eventSeq < row.seq)).map StoredEvent.event
  | _ => []

/-- No receipt waits for intake and no window for analysis. -/
def Settled (db : Db D) : Prop :=
  db.store.receipts.rows.length ≤ db.analysis.cursor ∧ ∀ w ∈ db.analysis.windows, w.dirty = false

end Windows

end RiskOps.Telemetry.Network
