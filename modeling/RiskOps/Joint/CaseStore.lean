import RiskOps.Lib.Run

/-!
# RiskOps.Joint.CaseStore — the store of derived joint cases

Model of `joint_case_store.JointCaseStore`. The database holds the registered network anchors, the
published case revisions with their summaries, one refresh cycle with its frozen items, one
discovery cycle and the flags of the recovery.

**One call, one transaction.** Every method is a function from the store to the store and a reply;
a raised `CaseStoreError`, or an integrity error of SQLite, is an `Except.error` and leaves the
store as it was (`next`). The identities `uuid4` draws and the time of a call are arguments.

The columns of `joint_revision_summaries` that only repeat the payload are left out: nothing in
this module reads them.
-/

namespace RiskOps.Joint

open RiskOps.Lib

/-! ### Rows -/

/-- The `StoreLimits` this module uses. -/
structure StoreLimits where
  registrationLimit : Nat
  revisionLimit : Nat
  payloadByteLimit : Nat
  deriving Repr, DecidableEq

structure AnchorRequest where
  incidentId : String
  revision : Nat
  deriving Repr, DecidableEq

inductive RefreshState
  | pending | fresh | needsReview | notEligible | unavailable
  deriving Repr, DecidableEq

/-- A row of `joint_registrations`. -/
structure Registration where
  seq : Nat
  incidentId : String
  requestedRevision : Nat
  requestGeneration : Nat
  caseId : Option String
  anchorFingerprint : Option String
  lastSuccess : Option String
  latestReadMetadata : Option String
  refreshState : RefreshState
  fixedErrorCode : Option String
  lastAttemptCycle : Option String
  lastAttemptAt : Option String
  deriving Repr, DecidableEq

/-- A row of `joint_cases`. -/
structure CaseRow where
  caseId : String
  registrationSeq : Nat
  createdGeneration : Nat
  currentRevision : Nat
  deriving Repr, DecidableEq

/-- A row of `joint_case_revisions`. -/
structure RevisionRow where
  caseId : String
  revision : Nat
  publishGeneration : Nat
  projectionSha : String
  projectionJson : String
  firstReadMetadata : String
  payloadBytes : Nat
  observedAt : String
  deriving Repr, DecidableEq

/-- A row of `joint_revision_summaries`. -/
structure SummaryRow where
  caseId : String
  revision : Nat
  publishGeneration : Nat
  deriving Repr, DecidableEq

/-- The counters of `joint_meta`. -/
structure Counters where
  committedGeneration : Nat
  revisionCount : Nat
  payloadBytes : Nat
  deriving Repr, DecidableEq

/-- `_OUTCOMES`. -/
inductive Outcome
  | published | unchanged | failed | notEligible | superseded
  deriving Repr, DecidableEq

/-- The `joint_cycle` row. Its `state` and `finished_at` follow from the counters. -/
structure Cycle where
  cycleId : String
  targetSeq : Nat
  itemCount : Nat
  cursorSeq : Nat
  completed : Bool
  published : Nat
  unchanged : Nat
  failed : Nat
  notEligible : Nat
  superseded : Nat
  deriving Repr, DecidableEq

/-- A row of `joint_cycle_items`; `outcome` is `none` while the item is pending. -/
structure Item where
  cycleId : String
  registrationSeq : Nat
  capturedGeneration : Nat
  capturedRevision : Nat
  outcome : Option Outcome
  fixedErrorCode : Option String
  deriving Repr, DecidableEq

/-- The `joint_runtime` row. -/
structure Runtime where
  catalogMinSeq : Nat
  revalidationPending : Bool
  recoveryDiscoveryDone : Bool
  recoveryRefreshCycle : Option String
  discoveryError : Option String
  recoveryDiscoveryCycle : Option String
  deriving Repr, DecidableEq

/-- How many scanned incidents were skipped, by reason. -/
structure SkippedCounts where
  sourceUnmapped : Nat
  destinationUnmapped : Nat
  profileUnmapped : Nat
  deriving Repr, DecidableEq

/-- The `joint_discovery` row. -/
structure Discovery where
  cycleId : String
  producerId : String
  targetSeq : Nat
  cursorSeq : Nat
  complete : Bool
  scannedCount : Nat
  registeredCount : Nat
  skipped : SkippedCounts
  error : Option String
  deriving Repr, DecidableEq

structure Store where
  counters : Counters
  registrations : List Registration
  cases : List CaseRow
  revisions : List RevisionRow
  summaries : List SummaryRow
  cycle : Option Cycle
  items : List Item
  runtime : Runtime
  discovery : Option Discovery
  deriving Repr, DecidableEq

/-- `JointCaseStore.create`. -/
def Store.create (catalogMinSeq : Nat) : Store where
  counters := ⟨0, 0, 0⟩
  registrations := []
  cases := []
  revisions := []
  summaries := []
  cycle := none
  items := []
  runtime := ⟨catalogMinSeq, false, false, none, none, none⟩
  discovery := none

/-- The codes of the `CaseStoreError`s raised; `unavailable` is an integrity error of SQLite. -/
inductive Refusal
  | invalidRequest | capacityExceeded | revisionRegression | anchorMismatch | resultInvalid
  | unavailable
  deriving Repr, DecidableEq

/-- `WorkItem`: a handle to a frozen item. -/
structure WorkItem where
  cycleId : String
  registrationSeq : Nat
  requestGeneration : Nat
  networkRevision : Nat
  incidentId : String
  deriving Repr, DecidableEq

/-- What a validated read says: a rejection with its code, or a projection of a case. -/
inductive ReadState
  | rejected (code : String)
  | accepted (caseId : String)
  deriving Repr, DecidableEq

structure ValidatedRead where
  state : ReadState
  projectionSha : String
  projectionJson : String
  metadataJson : String
  anchorFingerprint : String
  deriving Repr, DecidableEq

/-- A page of a discovery scan. -/
structure DiscoveryPage where
  producerId : String
  afterSeq : Nat
  targetSeq : Nat
  nextSeq : Nat
  scannedCount : Nat
  complete : Bool
  eligible : List AnchorRequest
  skipped : SkippedCounts
  deriving Repr, DecidableEq

/-- The store's own settings: its limits, the producer of its scope, the check `publish` makes
again on a read (`validate_read` for the scope), and the codes `CaseStoreError` allows. -/
structure Env where
  limits : StoreLimits
  producerId : String
  validateRead : WorkItem → ValidatedRead → Except Refusal ValidatedRead
  errorCodes : List String

/-! ### Registration -/

structure RegisterSummary where
  registered : Nat
  updated : Nat
  unchanged : Nat
  deriving Repr, DecidableEq

/-- `coalesce(max(registration_seq),0)`. -/
def lastSeq (rows : List Registration) : Nat := (rows.map Registration.seq).foldl max 0

/-- A registration that was never read. -/
def newRegistration (seq : Nat) (item : AnchorRequest) : Registration :=
  ⟨seq, item.incidentId, item.revision, 1, none, none, none, none, .pending, none, none, none⟩

/-- A newer revision of a registered anchor is requested. -/
def Registration.request (revision : Nat) (r : Registration) : Registration :=
  { r with requestedRevision := revision, requestGeneration := r.requestGeneration + 1,
           refreshState := .pending, fixedErrorCode := none }

/-- `UPDATE joint_registrations … WHERE registration_seq=?`. -/
def updateRegistration (seq : Nat) (f : Registration → Registration) (rows : List Registration) :
    List Registration :=
  rows.map fun r => if r.seq = seq then f r else r

/-- One request of `_register`. -/
def registerOne (limit : Nat) (x : List Registration × RegisterSummary) (item : AnchorRequest) :
    Except Refusal (List Registration × RegisterSummary) :=
  match x.1.find? fun r => r.incidentId = item.incidentId with
  | none =>
    if limit ≤ x.1.length then .error .capacityExceeded
    else .ok (x.1 ++ [newRegistration (lastSeq x.1 + 1) item],
      { x.2 with registered := x.2.registered + 1 })
  | some row =>
    if item.revision < row.requestedRevision then .error .revisionRegression
    else if item.revision = row.requestedRevision then
      .ok (x.1, { x.2 with unchanged := x.2.unchanged + 1 })
    else
      .ok (updateRegistration row.seq (Registration.request item.revision) x.1,
        { x.2 with updated := x.2.updated + 1 })

/-- `_register(db, requests)`. -/
def registerAll (limit : Nat) (rows : List Registration) (requests : List AnchorRequest) :
    Except Refusal (List Registration × RegisterSummary) :=
  requests.foldlM (registerOne limit) (rows, ⟨0, 0, 0⟩)

/-- The requests name each incident once. -/
def distinctRequests (requests : List AnchorRequest) : Bool :=
  decide (requests.map AnchorRequest.incidentId).Nodup

/-- What a method returns. -/
inductive Reply
  | registered (summary : RegisterSummary) (total : Nat)
  | discovery (d : Discovery)
  | applied | recorded
  | cycle (c : Cycle)
  | outcome (o : Outcome)
  | alreadyProcessed
  | superseded
  deriving Repr, DecidableEq

/-- `register(requests)`. -/
def register (env : Env) (s : Store) (requests : List AnchorRequest) :
    Except Refusal (Store × Reply) :=
  if requests.isEmpty || 50 < requests.length || !distinctRequests requests then
    .error .invalidRequest
  else
    match registerAll env.limits.registrationLimit s.registrations requests with
    | .error e => .error e
    | .ok (rows, summary) =>
      .ok ({ s with registrations := rows }, .registered summary rows.length)

/-! ### Discovery -/

/-- The largest integer `_positive` allows. -/
def maxInteger : Nat := 2 ^ 63 - 1

/-- `begin_discovery(target_seq, producer_id)`; `identity` is the new cycle's id. -/
def beginDiscovery (env : Env) (s : Store) (targetSeq : Nat) (producerId identity : String) :
    Except Refusal (Store × Reply) :=
  if maxInteger < targetSeq then .error .invalidRequest
  else if producerId ≠ env.producerId then .error .anchorMismatch
  else
    let start : Except Refusal (Store × Reply) :=
      let complete := decide (targetSeq < s.runtime.catalogMinSeq)
      let d : Discovery := ⟨identity, producerId, targetSeq, s.runtime.catalogMinSeq - 1, complete,
        0, 0, ⟨0, 0, 0⟩, none⟩
      .ok ({ s with
        discovery := some d
        runtime := { s.runtime with
          recoveryDiscoveryDone := complete
          recoveryRefreshCycle := none
          recoveryDiscoveryCycle := some identity
          discoveryError := if complete then none else s.runtime.discoveryError } }, .discovery d)
    match s.discovery with
    | none => start
    | some previous =>
      if !previous.complete then .ok (s, .discovery previous)
      else if targetSeq < previous.targetSeq then .error .revisionRegression
      else start

/-- The checks `apply_discovery_page` makes before it opens the database. -/
def DiscoveryPage.valid (page : DiscoveryPage) (expectedCursor : Nat) : Bool :=
  let skips := page.skipped.sourceUnmapped + page.skipped.destinationUnmapped
    + page.skipped.profileUnmapped
  decide (expectedCursor ≤ maxInteger ∧ page.targetSeq ≤ maxInteger)
    && decide (page.eligible.length ≤ 50) && distinctRequests page.eligible
    && decide (page.scannedCount ≤ 50 ∧ page.scannedCount = page.eligible.length + skips)
    && decide (page.afterSeq = expectedCursor)
    && decide (expectedCursor ≤ page.nextSeq ∧ page.nextSeq ≤ page.targetSeq)
    && !(decide (page.scannedCount ≠ 0) && decide (page.nextSeq ≤ expectedCursor))
    && !(!page.complete && (page.scannedCount = 0 || page.targetSeq ≤ page.nextSeq))
    && !(page.complete && page.nextSeq ≠ page.targetSeq)

def SkippedCounts.add (a b : SkippedCounts) : SkippedCounts :=
  ⟨a.sourceUnmapped + b.sourceUnmapped, a.destinationUnmapped + b.destinationUnmapped,
    a.profileUnmapped + b.profileUnmapped⟩

/-- The discovery a page or a failure is for: the current one, at its cursor, not complete. -/
def currentDiscovery (s : Store) (cycleId : String) (expectedCursor : Nat) : Option Discovery :=
  s.discovery.filter fun d => d.cycleId = cycleId && d.cursorSeq = expectedCursor && !d.complete

/-- The runtime after a completed page: the flags are set when no recovery is pending, or when
the completed discovery is the one the recovery began. -/
def Runtime.discovered (cycleId : String) (r : Runtime) : Runtime :=
  if !r.revalidationPending || r.recoveryDiscoveryCycle = some cycleId then
    { r with recoveryDiscoveryDone := true, discoveryError := none }
  else r

/-- `apply_discovery_page(cycle_id, expected_cursor, page)`. -/
def applyDiscoveryPage (env : Env) (s : Store) (cycleId : String) (expectedCursor : Nat)
    (page : DiscoveryPage) : Except Refusal (Store × Reply) :=
  if !page.valid expectedCursor then .error .invalidRequest
  else
    match currentDiscovery s cycleId expectedCursor with
    | none => .ok (s, .superseded)
    | some current =>
      if page.producerId ≠ env.producerId then .error .anchorMismatch
      else if page.targetSeq ≠ current.targetSeq then .error .invalidRequest
      else
        match registerAll env.limits.registrationLimit s.registrations page.eligible with
        | .error e => .error e
        | .ok (rows, summary) =>
          .ok ({ s with
            registrations := rows
            discovery := some { current with
              cursorSeq := page.nextSeq
              complete := page.complete
              scannedCount := current.scannedCount + page.scannedCount
              registeredCount := current.registeredCount + (summary.registered + summary.updated)
              skipped := current.skipped.add page.skipped
              error := none }
            runtime := if page.complete then s.runtime.discovered cycleId else s.runtime }, .applied)

/-- `_record_discovery_failure(db, code)`. -/
def Runtime.fail (code : String) (r : Runtime) : Runtime :=
  { r with discoveryError := some code, revalidationPending := true,
           recoveryDiscoveryDone := false, recoveryRefreshCycle := none,
           recoveryDiscoveryCycle := none }

/-- `fail_discovery(cycle_id, expected_cursor, code)`. -/
def failDiscovery (env : Env) (s : Store) (cycleId : String) (expectedCursor : Nat)
    (code : String) : Except Refusal (Store × Reply) :=
  if maxInteger < expectedCursor || !env.errorCodes.contains code then .error .invalidRequest
  else
    match currentDiscovery s cycleId expectedCursor with
    | none => .ok (s, .superseded)
    | some current =>
      .ok ({ s with discovery := some { current with error := some code },
                    runtime := s.runtime.fail code }, .recorded)

/-- The optional expectations of `record_discovery_failure`. -/
structure FailureGuard where
  /-- `expected_cycle_id` and `expected_cursor`. -/
  discovery : Option (Option String × Nat)
  revalidationPending : Option Bool
  refreshCycle : Option (Option String)
  deriving Repr, DecidableEq

/-- The state is still the one the caller saw. -/
def FailureGuard.holds (g : FailureGuard) (s : Store) : Bool :=
  (match g.discovery with
    | none => true
    | some (cycleId, cursor) =>
      match s.discovery with
      | none => cycleId = none
      | some d => cycleId = some d.cycleId && d.cursorSeq = cursor)
    && (match g.revalidationPending with
      | none => true
      | some pending => s.runtime.revalidationPending = pending)
    && match g.refreshCycle with
      | none => true
      | some cycleId => s.cycle.map Cycle.cycleId = cycleId

/-- `record_discovery_failure(code, …)`. -/
def recordDiscoveryFailure (env : Env) (s : Store) (code : String) (g : FailureGuard) :
    Except Refusal (Store × Reply) :=
  if !env.errorCodes.contains code then .error .invalidRequest
  else if g.holds s then .ok ({ s with runtime := s.runtime.fail code }, .recorded)
  else .ok (s, .superseded)

/-! ### Refresh cycles -/

def Cycle.attempted (c : Cycle) : Nat :=
  c.published + c.unchanged + c.failed + c.notEligible + c.superseded

/-- `attempted_complete`. -/
def Cycle.attemptedComplete (c : Cycle) : Bool := c.itemCount = c.attempted

/-- `all_items_refreshed`. -/
def Cycle.allItemsRefreshed (c : Cycle) : Bool :=
  c.attemptedComplete && c.failed = 0 && c.superseded = 0 && c.notEligible = 0

/-- The recovery's discovery is done and is the current one, complete and without error. -/
def Store.discoveryRecovered (s : Store) : Bool :=
  s.runtime.revalidationPending && s.runtime.recoveryDiscoveryDone
    && s.runtime.discoveryError.isNone
    && s.discovery.any fun d => d.complete && d.error.isNone
      && s.runtime.recoveryDiscoveryCycle = some d.cycleId

/-- The recovery's refresh cycle is the current one and every registration is fresh. -/
def Store.refreshRecovered (s : Store) : Bool :=
  s.cycle.any (fun c => s.runtime.recoveryRefreshCycle = some c.cycleId && c.allItemsRefreshed)
    && s.registrations.all fun r => r.refreshState = .fresh

/-- `_recover_if_complete(db)`. -/
def Store.recoverIfComplete (s : Store) : Store :=
  if s.discoveryRecovered && s.refreshRecovered then
    { s with runtime := { s.runtime with revalidationPending := false } }
  else s

/-- The frozen item of a registration. -/
def freeze (cycleId : String) (r : Registration) : Item :=
  ⟨cycleId, r.seq, r.requestGeneration, r.requestedRevision, none, none⟩

/-- The database after `begin_cycle` replaced the cycle, before the recovery check. -/
def Store.withCycle (identity : String) (s : Store) : Store :=
  let target := lastSeq s.registrations
  { s with
    cycle := some ⟨identity, target, s.registrations.length, 0, s.registrations.isEmpty, 0, 0, 0, 0, 0⟩
    items := (s.registrations.filter fun r => r.seq ≤ target).map (freeze identity)
    runtime :=
      if s.runtime.revalidationPending && s.runtime.recoveryDiscoveryDone then
        { s.runtime with recoveryRefreshCycle := some identity }
      else s.runtime }

/-- `begin_cycle()`; `identity` is the new cycle's id. -/
def beginCycle (env : Env) (s : Store) (identity : String) : Except Refusal (Store × Reply) :=
  let start : Except Refusal (Store × Reply) :=
    if env.limits.registrationLimit < s.registrations.length then .error .capacityExceeded
    else
      let s' := (s.withCycle identity).recoverIfComplete
      match s'.cycle with
      | none => .error .unavailable
      | some c => .ok (s', .cycle c)
  match s.cycle with
  | none => start
  | some current => if !current.attemptedComplete then .ok (s, .cycle current) else start

/-- `UPDATE joint_cycle SET {outcome}={outcome}+1`. -/
def Cycle.count (o : Outcome) (c : Cycle) : Cycle :=
  match o with
  | .published => { c with published := c.published + 1 }
  | .unchanged => { c with unchanged := c.unchanged + 1 }
  | .failed => { c with failed := c.failed + 1 }
  | .notEligible => { c with notEligible := c.notEligible + 1 }
  | .superseded => { c with superseded := c.superseded + 1 }

/-- `WHERE cycle_id=? AND registration_seq=?`. -/
def WorkItem.names (item : WorkItem) (i : Item) : Bool :=
  i.cycleId = item.cycleId && i.registrationSeq = item.registrationSeq

def Item.isPending (i : Item) : Bool := i.outcome.isNone

/-- The cycle row after an item: `remaining` is the first registration still pending. -/
def Cycle.settle (o : Outcome) (remaining : Option Nat) (c : Cycle) : Cycle :=
  { c.count o with
    cursorSeq := match remaining with
      | none => c.targetSeq
      | some seq => seq - 1
    completed := remaining.isNone }

/-- `_finish(db, item, outcome, error)`. -/
def Store.finish (item : WorkItem) (o : Outcome) (error : Option String) (s : Store) : Store :=
  let items := s.items.map fun i =>
    if item.names i then { i with outcome := some o, fixedErrorCode := error } else i
  let remaining := ((items.filter Item.isPending).map Item.registrationSeq).min?
  { s with
    items := items
    cycle := s.cycle.map (Cycle.settle o remaining) }.recoverIfComplete

/-- `_pending(db, item)`: the registration of a pending item that is still requested, or the store
and the reply when there is none. -/
def Store.pending (s : Store) (item : WorkItem) : Except (Store × Reply) Registration :=
  let row := (s.items.find? item.names).bind fun i =>
    (s.registrations.find? fun r => r.seq = item.registrationSeq).map fun r => (i, r)
  match row with
  | none => .error (s, .alreadyProcessed)
  | some (i, r) =>
    if !i.isPending || r.incidentId ≠ item.incidentId
        || i.capturedGeneration ≠ item.requestGeneration
        || i.capturedRevision ≠ item.networkRevision then .error (s, .alreadyProcessed)
    else if r.requestGeneration ≠ item.requestGeneration
        || r.requestedRevision ≠ item.networkRevision then
      .error (s.finish item .superseded none, .outcome .superseded)
    else .ok r

/-! ### Publishing -/

/-- What every attempt on a registration leaves behind. -/
def Registration.attempted (item : WorkItem) (now : String) (state : RefreshState)
    (error : Option String) (r : Registration) : Registration :=
  { r with refreshState := state, fixedErrorCode := error, lastAttemptCycle := some item.cycleId,
           lastAttemptAt := some now }

/-- What a successful read leaves behind. -/
def Registration.readBack (now : String) (value : ValidatedRead) (r : Registration) : Registration :=
  { r with anchorFingerprint := some value.anchorFingerprint,
           latestReadMetadata := some value.metadataJson, lastSuccess := some now }

/-- The case's current revision with its projection digest. -/
def Store.current (s : Store) (caseId : String) : Option (Nat × String) :=
  (s.cases.find? fun c => c.caseId = caseId).bind fun c =>
    (s.revisions.find? fun v => v.caseId = caseId && v.revision = c.currentRevision).map fun v =>
      (c.currentRevision, v.projectionSha)

/-- The case row: inserted for a first revision, else moved to the new one. -/
def casesAfter (item : WorkItem) (caseId : String) (generation revision : Nat) (isNew : Bool)
    (rows : List CaseRow) : List CaseRow :=
  (if isNew then rows ++ [⟨caseId, item.registrationSeq, generation, revision⟩] else rows).map
    fun c => if c.caseId = caseId then { c with currentRevision := revision } else c

/-- The keys and unique columns an insertion would repeat. -/
def Store.conflicts (s : Store) (item : WorkItem) (caseId : String) (generation revision : Nat)
    (isNew : Bool) : Bool :=
  (isNew && s.cases.any fun c => c.caseId = caseId || c.registrationSeq = item.registrationSeq)
    || s.revisions.any (fun v => (v.caseId = caseId && v.revision = revision)
      || v.publishGeneration = generation)
    || s.summaries.any fun v => (v.caseId = caseId && v.revision = revision)
      || v.publishGeneration = generation

/-- The new revision of a changed projection: case, revision, summary and counters. -/
def Store.addRevision (env : Env) (s : Store) (item : WorkItem) (value : ValidatedRead)
    (caseId now : String) : Except Refusal Store :=
  let size := value.projectionJson.length
  if env.limits.revisionLimit ≤ s.counters.revisionCount
      || env.limits.payloadByteLimit < s.counters.payloadBytes + size then .error .capacityExceeded
  else
    let current := s.current caseId
    let revision := (current.map fun c => c.1 + 1).getD 1
    let generation := s.counters.committedGeneration + 1
    if s.conflicts item caseId generation revision current.isNone then .error .unavailable
    else .ok { s with
      cases := casesAfter item caseId generation revision current.isNone s.cases
      revisions := s.revisions ++ [⟨caseId, revision, generation, value.projectionSha,
        value.projectionJson, value.metadataJson, size, now⟩]
      summaries := s.summaries ++ [⟨caseId, revision, generation⟩]
      counters := ⟨generation, s.counters.revisionCount + 1, s.counters.payloadBytes + size⟩ }

/-- The projection of the case differs from its current revision. -/
def Store.changed (s : Store) (value : ValidatedRead) (caseId : String) : Bool :=
  (s.current caseId).map Prod.snd ≠ some value.projectionSha

/-- `publish` of a read that is not rejected. -/
def Store.publishCase (env : Env) (s : Store) (item : WorkItem) (r : Registration)
    (value : ValidatedRead) (caseId now : String) : Except Refusal (Store × Reply) :=
  if r.caseId.any (· ≠ caseId) then .error .anchorMismatch
  else
    let settle (s : Store) (o : Outcome) : Except Refusal (Store × Reply) :=
      -- `case_id` is unique among the registrations.
      if s.registrations.any fun r => r.caseId = some caseId && r.seq ≠ item.registrationSeq then
        .error .unavailable
      else
        let update (r : Registration) : Registration :=
          { (r.readBack now value).attempted item now .fresh none with caseId := some caseId }
        .ok ({ s with
          registrations := updateRegistration item.registrationSeq update s.registrations }.finish
            item o none, .outcome o)
    if s.changed value caseId then
      match s.addRevision env item value caseId now with
      | .error e => .error e
      | .ok s' => settle s' .published
    else settle s .unchanged

/-- `publish(item, value)`. -/
def publish (env : Env) (s : Store) (item : WorkItem) (value : ValidatedRead) (now : String) :
    Except Refusal (Store × Reply) :=
  match env.validateRead item value with
  | .error e => .error e
  | .ok value =>
    match s.pending item with
    | .error done => .ok done
    | .ok r =>
      if r.anchorFingerprint.any (· ≠ value.anchorFingerprint) then .error .anchorMismatch
      else
        match value.state with
        | .rejected code =>
          let state : RefreshState := if r.caseId.isSome then .needsReview else .notEligible
          .ok ({ s with
            registrations := updateRegistration item.registrationSeq
              (fun r => (r.readBack now value).attempted item now state (some code))
              s.registrations }.finish item .notEligible (some code), .outcome .notEligible)
        | .accepted caseId => s.publishCase env item r value caseId now

/-- `fail(item, fixed_code)`. -/
def fail (env : Env) (s : Store) (item : WorkItem) (code now : String) :
    Except Refusal (Store × Reply) :=
  if !env.errorCodes.contains code then .error .invalidRequest
  else
    match s.pending item with
    | .error done => .ok done
    | .ok _ =>
      let state : RefreshState :=
        if code = "joint_anchor_mismatch" || code = "joint_scope_mismatch" then .needsReview
        else .unavailable
      .ok ({ s with
        registrations := updateRegistration item.registrationSeq
          (Registration.attempted item now state (some code)) s.registrations }.finish
            item .failed (some code), .outcome .failed)

/-! ### The transition system -/

/-- One method call, with the identity and the time it draws. -/
inductive Op
  | register (requests : List AnchorRequest)
  | beginDiscovery (targetSeq : Nat) (producerId identity : String)
  | applyDiscoveryPage (cycleId : String) (expectedCursor : Nat) (page : DiscoveryPage)
  | failDiscovery (cycleId : String) (expectedCursor : Nat) (code : String)
  | recordDiscoveryFailure (code : String) (guards : FailureGuard)
  | beginCycle (identity : String)
  | publish (item : WorkItem) (value : ValidatedRead) (now : String)
  | fail (item : WorkItem) (code now : String)

def step (env : Env) (s : Store) : Op → Except Refusal (Store × Reply)
  | .register requests => register env s requests
  | .beginDiscovery target producer identity => beginDiscovery env s target producer identity
  | .applyDiscoveryPage cycleId cursor page => applyDiscoveryPage env s cycleId cursor page
  | .failDiscovery cycleId cursor code => failDiscovery env s cycleId cursor code
  | .recordDiscoveryFailure code guards => recordDiscoveryFailure env s code guards
  | .beginCycle identity => beginCycle env s identity
  | .publish item value now => publish env s item value now
  | .fail item code now => fail env s item code now

/-- A refused call leaves the store as it was. -/
def next (env : Env) (s : Store) (op : Op) : Store :=
  match step env s op with
  | .ok (s', _) => s'
  | .error _ => s

/-! ### Opening and querying -/

/-- What `JointCaseStore.open` counts and compares. -/
def Store.opens (limits : StoreLimits) (s : Store) : Bool :=
  let count := s.revisions.length
  let size := (s.revisions.map RevisionRow.payloadBytes).sum
  let generation := (s.revisions.map RevisionRow.publishGeneration).foldl max 0
  1 ≤ s.runtime.catalogMinSeq && s.summaries.length = count && count = s.counters.revisionCount
    && size = s.counters.payloadBytes && generation = s.counters.committedGeneration
    && count ≤ limits.revisionLimit && size ≤ limits.payloadByteLimit
    && s.registrations.length ≤ limits.registrationLimit

/-- `PRAGMA foreign_key_check` reports no row. -/
def Store.foreignKeys (s : Store) : Bool :=
  s.cases.all (fun c => s.registrations.any fun r => r.seq = c.registrationSeq)
    && s.revisions.all (fun v => s.cases.any fun c => c.caseId = v.caseId)
    && s.summaries.all (fun m => s.revisions.any fun v => v.caseId = m.caseId && v.revision = m.revision)
    && s.items.all fun i => s.cycle.any (fun c => c.cycleId = i.cycleId)
      && s.registrations.any fun r => r.seq = i.registrationSeq

/-- What `JointCaseQuery._connection` compares. -/
def Store.queryable (limits : StoreLimits) (s : Store) : Bool :=
  s.counters.revisionCount ≤ limits.revisionLimit
    && s.counters.payloadBytes ≤ limits.payloadByteLimit
    && s.counters.committedGeneration = s.counters.revisionCount

end RiskOps.Joint
