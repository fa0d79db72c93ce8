import RiskOps.Lib.CaseBook
import RiskOps.Lib.Run
import RiskOps.Telemetry.WebDetection

/-!
# RiskOps.Telemetry.HttpIncidents — restartable HTTP analysis

Model of `telemetry/http_incidents.py`: **committed access records become review cases, one
per source, service, peer and hour.** `intake` copies new records into the context and marks
the hours they can change; `analyzeWindow` runs the rules over one marked hour with five
minutes on both sides and stores the case; `pruneContext` drops what retention has expired.

Each operation is one transaction. A JSON record is the record, a digest is what it is
computed from, and times are exact numbers of seconds. Rows of equal time are taken in row
order. The size of a stored record and case folding are parameters.
-/

namespace RiskOps.Telemetry.Http

open RiskOps.Lib

/-- What the analysis depends on beside the database. -/
structure Env where
  casefold : List Char → List Char
  /-- The bytes of a stored record. -/
  size : HttpEvent → Nat
  retentionDays : Nat

/-- The age at which a record expires. -/
def Env.cutoff (env : Env) (now : ℚ) : ℚ := now - env.retentionDays * 86400

/-! ### Tables -/

/-- `(source_id, service_id, client_ip, hour)`. -/
abbrev WindowKey := Peer × ℤ

/-- The `coverage` of a window. -/
inductive Coverage where
  | pending
  | complete
  | expiredContext
  | contextLimit
  deriving DecidableEq, Repr

/-- `assessment`. -/
structure Assessment where
  score : Nat
  priority : Option String
  surfaced : Bool
  reasons : List RuleId
  evidenceCount : Nat
  deriving DecidableEq

/-- The content of a case; `evidence` stands for `evidence_sha256`. -/
structure Payload where
  key : WindowKey
  coverage : Coverage
  stale : Bool
  active : Bool
  firstSeen : List Char
  lastSeen : List Char
  rules : List (RuleId × Nat)
  evidence : List HttpEvent
  assessment : Assessment
  deriving DecidableEq

/-- A row of `http_evidence`. -/
structure Evidence where
  key : WindowKey
  event : HttpEvent

/-- A row of `http_notice_outbox`. -/
structure Notice where
  topic : WindowKey
  revision : Nat
  cancelled : Bool
  payload : Payload
  pending : Bool

/-- A record with its sequence number. -/
abbrev Stored := Nat × HttpEvent

/-- The tables of the analysis, and `http_events` with its `sqlite_sequence`. `book` stands for
`http_incidents`, `http_incident_revisions` and `http_evidence_membership`. -/
structure Analysis where
  events : List Stored
  eventSeq : Nat
  cursor : Nat
  missingRawRecords : Nat
  analyzedInputRecords : Nat
  context : List Stored
  windows : DirtyWindow.Windows WindowKey Coverage
  book : CaseBook WindowKey Payload (List Char)
  evidence : Table fun e : Evidence => (e.key, e.event.eventId)
  outbox : Table Notice.topic

/-- The tables as `initialize` leaves them. -/
def Analysis.empty : Analysis :=
  ⟨[], 0, 0, 0, 0, [], .empty, .empty, .empty, .empty⟩

/-! ### Intake -/

/-- `int(event_ts // 3600) * 3600`. -/
def hourOf (ts : ℚ) : ℤ := ⌊ts / 3600⌋ * 3600

/-- The hours whose context holds the record. -/
def hoursOf (ts : ℚ) : List ℤ :=
  hourOf ts :: ((if ts - hourOf ts ≤ 300 then [hourOf ts - 3600] else []) ++
    (if ts - hourOf ts ≥ 3300 then [hourOf ts + 3600] else []))

/-- The windows whose context holds the record. -/
def windowsOf (e : HttpEvent) : List WindowKey := (hoursOf e.eventTs).map fun hour => (e.peer, hour)

/-- One record of `intake`. -/
def intakeRow (now : ℚ) (db : Analysis) (row : Stored) : Analysis :=
  { db with
    missingRawRecords := db.missingRawRecords + (row.1 - db.cursor - 1)
    context := if db.context.any (fun c => c.1 == row.1) then db.context else db.context ++ [row]
    windows := (windowsOf row.2).foldl (DirtyWindow.mark .pending now) db.windows
    cursor := row.1 }

/-- The next records of `http_events`. -/
def intakeRows (db : Analysis) (limit : Nat) : List Stored :=
  ((db.events.filter fun row => db.cursor < row.1).insertionSort fun a b => a.1 ≤ b.1).take limit

/-- `intake`, with `caught_up`. -/
def intake (now : ℚ) (limit : Nat) (db : Analysis) : Bool × Analysis :=
  let rows := intakeRows db limit
  let next := rows.foldl (intakeRow now) db
  let next := { next with analyzedInputRecords := db.analyzedInputRecords + rows.length }
  if rows.length < limit ∨ db.eventSeq ≤ next.cursor then
    (true, { next with
      missingRawRecords := next.missingRawRecords + (db.eventSeq - next.cursor)
      cursor := db.eventSeq })
  else (false, next)

/-! ### Cases -/

/-- `RULES`: the points of a rule. -/
def points : RuleId → Nat
  | .sensitiveResource => 25
  | .pathTraversal => 35
  | .multiPathScan => 30

/-- The rules in the order of their ids. -/
def sortedRules : List RuleId := [.multiPathScan, .pathTraversal, .sensitiveResource]

/-- `assessment`. -/
def assessment (rules : List RuleId) (evidenceCount : Nat) : Assessment :=
  let score := min 90 (rules.map points).sum
  ⟨score, if score ≥ 60 then some "P2" else if score ≥ 30 then some "P3" else none,
    decide (score ≥ 30), rules, evidenceCount⟩

/-- `lookup`: the record of an id. -/
def lookup (events : List HttpEvent) (id : List Char) : Option HttpEvent :=
  events.reverse.find? fun e => e.eventId = id

/-- A finding with a record in the hour; the others belong to the next case. -/
def touches (events : List HttpEvent) (hour : ℤ) (f : WebFinding) : Bool :=
  f.evidenceIds.any fun id =>
    (lookup events id).any fun e : HttpEvent =>
      decide ((hour : ℚ) ≤ e.eventTs) && decide (e.eventTs < hour + 3600)

/-- The ids of `rules[rule]`. -/
def ruleIds (events : List HttpEvent) (hour : ℤ) (findings : List WebFinding) (rule : RuleId) :
    List (List Char) :=
  ((findings.filter fun f => touches events hour f && f.ruleId == rule).flatMap
    WebFinding.evidenceIds).dedup

/-- The ids of `selected`. -/
def selectedIds (events : List HttpEvent) (hour : ℤ) (findings : List WebFinding) :
    List (List Char) :=
  ((findings.filter (touches events hour)).flatMap WebFinding.evidenceIds).dedup

/-- The sort key `(event_ts, event_id)`. -/
def HttpEvent.caseOrder (e : HttpEvent) : ℚ ×ₗ List Char := toLex (e.eventTs, e.eventId)

/-- `selected_rows`. -/
def selectedRows (events : List HttpEvent) (hour : ℤ) (findings : List WebFinding) :
    List HttpEvent :=
  ((selectedIds events hour findings).filterMap (lookup events)).insertionSort
    fun a b => a.caseOrder ≤ b.caseOrder

/-- The content of a complete case. -/
def completePayload (key : WindowKey) (events : List HttpEvent) (findings : List WebFinding)
    (previous : Option Payload) : Payload :=
  let rows := selectedRows events key.2 findings
  let rules := sortedRules.filter fun rule =>
    findings.any fun f => touches events key.2 f && f.ruleId == rule
  let seen (time : Option HttpEvent) (old : Payload → List Char) : List Char :=
    match time with
    | some e => e.timestamp
    | none => (previous.map old).getD []
  { key := key
    coverage := .complete
    stale := false
    active := !(selectedIds events key.2 findings).isEmpty
    firstSeen := seen rows.head? Payload.firstSeen
    lastSeen := seen rows.getLast? Payload.lastSeen
    rules := rules.map fun rule => (rule, (ruleIds events key.2 findings rule).length)
    evidence := rows
    assessment := assessment rules (selectedIds events key.2 findings).length }

/-- The notice of a new revision. -/
def notice (key : WindowKey) (revision : Nat) (payload : Payload) (now : ℚ) : Notice :=
  ⟨key, revision, !(payload.active && payload.assessment.surfaced && !payload.stale
    && decide (key.2 + 3600 ≥ now - 86400)), payload, true⟩

/-- Writes a revision, its notice and the records it cites, unless nothing changed. -/
def storeCase (db : Analysis) (key : WindowKey) (payload : Payload) (events : List HttpEvent)
    (selected : Option (List (List Char))) (now : ℚ) : Analysis :=
  if db.book.payload? key = some payload then db
  else
    { db with
      book := db.book.revise key payload selected now
      evidence := (((selected.getD []).filter fun id => id ∉ db.book.holds key).filterMap
        (lookup events)).foldl (fun t e => t.insertOrIgnore ⟨key, e⟩) db.evidence
      outbox := db.outbox.replace (notice key (db.book.nextRevision key) payload now) }

/-- The payload of a case that could not be analysed: the last result, marked stale. -/
def stalePayload (coverage : Coverage) (previous : Payload) : Payload :=
  { previous with coverage := coverage, stale := true }

/-- `_save_case`. -/
def saveCase (db : Analysis) (key : WindowKey) (coverage : Coverage) (events : List HttpEvent)
    (findings : List WebFinding) (now : ℚ) : Analysis :=
  match coverage, db.book.payload? key with
  | .complete, old =>
    let selected := selectedIds events key.2 findings
    if selected.isEmpty ∧ old.isNone then db
    else storeCase db key (completePayload key events findings old) events (some selected) now
  | _, none => db
  | coverage, some old => storeCase db key (stalePayload coverage old) events none now

/-! ### One window -/

/-- `MAX_CONTEXT_RECORDS`. -/
def maxContextRecords : Nat := 5000

/-- `MAX_CONTEXT_BYTES`. -/
def maxContextBytes : Nat := 4 * 1024 * 1024

/-- The sort key `(event_ts, seq)`. -/
def storedOrder (row : Stored) : ℚ ×ₗ Nat := toLex (row.2.eventTs, row.1)

/-- The record lies in the context of the hour. -/
def inContext (key : WindowKey) (e : HttpEvent) : Bool :=
  e.peer == key.1 && decide ((key.2 : ℚ) - 300 ≤ e.eventTs) && decide (e.eventTs ≤ key.2 + 3900)

/-- The context of a window. -/
def contextRows (db : Analysis) (key : WindowKey) : List HttpEvent :=
  ((db.context.filter fun row => inContext key row.2).insertionSort
    fun a b => storedOrder a ≤ storedOrder b).map Prod.snd

/-- Reads records until a limit is reached. -/
def readContext (size : HttpEvent → Nat) : List HttpEvent → Nat → List HttpEvent →
    List HttpEvent × Coverage
  | events, _, [] => (events, .complete)
  | events, total, e :: rest =>
    if events.length ≥ maxContextRecords ∨ total + size e > maxContextBytes then
      (events, .contextLimit)
    else readContext size (events ++ [e]) (total + size e) rest

/-- What `analyze_window` reads, and its coverage. -/
def readWindow (env : Env) (db : Analysis) (key : WindowKey) (now : ℚ) :
    List HttpEvent × Coverage :=
  if (key.2 : ℚ) - 300 < env.cutoff now then ([], .expiredContext)
  else readContext env.size [] 0 ((contextRows db key).take (maxContextRecords + 1))

/-- The findings of a window. -/
def windowFindings (env : Env) (events : List HttpEvent) (coverage : Coverage) :
    Except String (List WebFinding) :=
  if coverage = .complete then detectWeb env.casefold events else .ok []

/-- `analyze_window`. -/
def analyzeWindow (env : Env) (db : Analysis) (key : WindowKey) (now : ℚ) :
    Except String Analysis := do
  let read := readWindow env db key now
  let findings ← windowFindings env read.1 read.2
  let db := saveCase db key read.2 read.1 findings now
  .ok { db with windows := DirtyWindow.clean now read.2 key db.windows }

/-! ### Retention -/

/-- Deletes at most 1000 expired rows, the oldest first. -/
def deleteExpired (cutoff : ℚ) (rows : List Stored) : List Stored :=
  let expired := ((rows.filter fun row => row.2.eventTs < cutoff).insertionSort
    fun a b => storedOrder a ≤ storedOrder b).take 1000
  rows.filter fun row => row ∉ expired

/-- The end of `process`. -/
def pruneContext (env : Env) (now : ℚ) (db : Analysis) : Analysis :=
  { db with context := deleteExpired (env.cutoff now) db.context }

/-! ### `process` -/

/-- At most `limit` windows, each in its own transaction. -/
def analyzeWindows (env : Env) (now : ℚ) : Nat → Analysis → Except String Analysis
  | 0, db => .ok db
  | limit + 1, db =>
    match DirtyWindow.next? db.windows with
    | none => .ok db
    | some key => do analyzeWindows env now limit (← analyzeWindow env db key now)

/-- Windows are analysed only once the intake has caught up. -/
def analyzeCaughtUp (env : Env) (now : ℚ) (limit : Nat) (taken : Bool × Analysis) :
    Except String Analysis :=
  if taken.1 then analyzeWindows env now limit taken.2 else .ok taken.2

/-- `process`, with `caught_up`. -/
def process (env : Env) (now : ℚ) (intakeLimit windowLimit : Nat) (db : Analysis) :
    Except String (Bool × Analysis) := do
  if ¬ (1 ≤ intakeLimit ∧ intakeLimit ≤ 1000) ∨ ¬ (1 ≤ windowLimit ∧ windowLimit ≤ 20) then
    .error "Invalid HTTP analysis bounds"
  else
    let taken := intake now intakeLimit db
    let db ← analyzeCaughtUp env now windowLimit taken
    let db := pruneContext env now db
    .ok (taken.1 && (db.windows.select DirtyWindow.dirty).isEmpty, db)

end RiskOps.Telemetry.Http
