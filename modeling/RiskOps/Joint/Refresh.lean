import RiskOps.Joint.CaseQuery
import RiskOps.Joint.CaseStoreRecovery
import RiskOps.Lib.Faulty

/-!
# RiskOps.Joint.Refresh — one bounded step of the local refresh

Model of `joint_refresh.tick` with its checkpoint file, of the commands `discover` and `refresh` of
`joint_cli`, and of `joint_reconcile.reconcile_step`.

**Processes.** A command is a computation over a `Machine`: the durable `World` (the derived store
and the checkpoint file) and the checkpoint in memory. It may stop at any access, with the code of
an error that handlers see or with a crash that they do not; what it had made durable stays.

**Surroundings.** What a command does not decide is the argument `Outside`: readings of the clock,
new identities, what the sources answer, and which accesses fail, before or after they took effect.
Nothing is assumed of it.

Times are microseconds since 1970, as `stamp` prints them. `read_refresh_status`, which only reads,
and the checks of paths and of file modes are left out; where they can raise, there is an access.
-/

namespace RiskOps.Joint.Refresh

open RiskOps.Lib (Faulty)
open RiskOps.JointEvidence (isLowerHex)

/-! ### The world -/

inductive Phase
  | idle | discover | refresh
  deriving Repr, DecidableEq

/-- The `state` of a checkpoint. -/
inductive Progress
  | notStarted | running | waiting | backoff | blocked
  deriving Repr, DecidableEq

structure Binding where
  storeId : String
  queryEpoch : String
  configSha : String
  deriving Repr, DecidableEq

/-- The content of the checkpoint file. -/
structure Checkpoint where
  binding : Binding
  phase : Phase
  progress : Progress
  qualified : Bool
  resumeDiscovery : Bool
  error : Option String
  lastAttemptAt : Option Nat
  lastCompleteAt : Option Nat
  lastSuccessAt : Option Nat
  nextAttemptAt : Option Nat
  discoveryId : Option String
  refreshId : Option String
  previousDiscoveryId : Option String
  previousRefreshId : Option String
  /-- History: how much of the world's log there was when the round began. No code reads it. -/
  roundStart : Nat
  deriving Repr, DecidableEq

/-- What survives a crash. -/
structure World where
  storeId : String
  queryEpoch : String
  store : Store
  /-- `finished_at` of the `joint_discovery` row. -/
  discoveryFinishedAt : Option Nat
  /-- `finished_at` of the `joint_cycle` row. -/
  cycleFinishedAt : Option Nat
  checkpoint : Option Checkpoint
  /-- History: what the store's calls did, oldest first. No code reads it. -/
  log : List RecoveryEvent
  deriving Repr, DecidableEq

/-- A store that was just created, and no checkpoint. -/
def World.create (storeId queryEpoch : String) (catalogMinSeq : Nat) : World :=
  ⟨storeId, queryEpoch, Store.create catalogMinSeq, none, none, none, []⟩

/-- A running command; `reads` counts what it took from outside. -/
structure Machine where
  world : World
  state : Checkpoint
  reads : Nat
  deriving Repr, DecidableEq

/-- Why a command stops: an error that handlers see, or a crash. -/
inductive Stop
  | code (c : String)
  | crash
  deriving Repr, DecidableEq

/-- What a source read raises, by the class of the error. -/
inductive SourceError
  | evidence (code : String)
  | caseStore (code : String)
  deriving Repr, DecidableEq

/-- Everything a command takes from outside, by the number of things taken before. -/
structure Outside where
  clock : Nat → Nat
  identity : Nat → String
  fault : Nat → Option Stop
  /-- `time.monotonic()` is past a deadline. -/
  late : Nat → Bool
  target : Nat → Except String Nat
  page : Nat → Except String DiscoveryPage
  read : Nat → Except SourceError ValidatedRead

/-- The settings of the refresh, and the digest of the configuration. -/
structure RefreshSpec where
  enabled : Bool
  intervalUs : Nat
  retryUs : Nat
  configSha : String
  deriving Repr, DecidableEq

abbrev Process (α : Type) : Type := Faulty Stop Machine α

section Accesses

variable (env : Env) (o : Outside)

/-- The next thing from outside. -/
def ask {α : Type} (f : Nat → α) : Process α := do
  let m ← get
  modify fun m => { m with reads := m.reads + 1 }
  return f m.reads

/-- A point where the command may stop. -/
def access : Process Unit := do
  match ← ask o.fault with
  | none => return ()
  | some stop => throw stop

/-- `utcnow()`. -/
def utcnow : Process Nat := ask o.clock

/-- `except (CaseStoreError, EvidenceReadError)`. -/
def catching {α : Type} (x : Process α) (handler : String → Process α) : Process α :=
  tryCatch x fun stop =>
    match stop with
    | .code c => handler c
    | .crash => throw .crash

/-- The code of a `CaseStoreError` of the store. -/
def code : Refusal → String
  | .invalidRequest => "joint_invalid_request"
  | .capacityExceeded => "joint_capacity_exceeded"
  | .revisionRegression => "joint_revision_regression"
  | .anchorMismatch => "joint_anchor_mismatch"
  | .resultInvalid => "joint_result_invalid"
  | .unavailable => "joint_store_unavailable"

/-- The call writes the discovery row. -/
def writesDiscovery (s : Store) (op : Op) (reply : Reply) : Bool :=
  match op, reply with
  | .beginDiscovery _ _ _, .discovery _ => s.discovery.all Discovery.complete
  | .applyDiscoveryPage _ _ _, .applied => true
  | _, _ => false

/-- The call writes the cycle row. -/
def writesCycle (s : Store) (op : Op) (reply : Reply) : Bool :=
  match op, reply with
  | .beginCycle _, .cycle _ => s.cycle.all Cycle.attemptedComplete
  | _, .outcome _ => true
  | _, _ => false

/-- A call on the store: its transaction, and the `finished_at` of the rows it writes. -/
def World.commit (now : Nat) (op : Op) (w : World) : Except Refusal (World × Reply) :=
  match step env w.store op with
  | .error e => .error e
  | .ok (s, reply) =>
    .ok ({ w with
      store := s
      discoveryFinishedAt :=
        if writesDiscovery w.store op reply then
          if s.discovery.any Discovery.complete then some now else none
        else w.discoveryFinishedAt
      cycleFinishedAt :=
        if writesCycle w.store op reply then
          if s.cycle.any Cycle.completed then some now else none
        else w.cycleFinishedAt
      log := w.log ++ recoveryEvents env w.store op }, reply)

/-- A call on the store by a command. -/
def call (op : Op) : Process Unit := do
  access o
  let now ← utcnow o
  let m ← get
  match m.world.commit env now op with
  | .error e => throw (.code (code e))
  | .ok (w, _) => do
    modify fun m => { m with world := w }
    access o

/-- A read of the store. -/
def look {α : Type} (f : World → α) : Process α := do
  access o
  let m ← get
  return f m.world

end Accesses

/-! ### The checkpoint file -/

/-- `new_state(spec, base)`. -/
def newState (binding : Binding) : Checkpoint :=
  ⟨binding, .idle, .notStarted, false, false, none, none, none, none, none, none, none, none, none, 0⟩

/-- `[0-9a-f]{32}`. -/
def isHex32 (s : String) : Bool := s.toList.length = 32 && s.toList.all isLowerHex

/-- `PUBLIC_ERRORS`, for the codes of `CaseStoreError`. -/
def publicErrors (env : Env) : List String :=
  env.errorCodes ++ ["network_source_unmapped", "network_destination_unmapped",
    "network_profile_unmapped", "network_observation_not_local_tcp"]

/-- `_validate(value)`, as far as the types leave it open. -/
def Checkpoint.valid (env : Env) (c : Checkpoint) : Bool :=
  isHex32 c.binding.storeId && isHex32 c.binding.queryEpoch
    && c.binding.configSha.toList.length = 64 && c.binding.configSha.toList.all isLowerHex
    && c.error.all (publicErrors env).contains
    && [c.discoveryId, c.refreshId, c.previousDiscoveryId, c.previousRefreshId].all
      (Option.all isHex32)

/-- Changes the checkpoint in memory. -/
def update (f : Checkpoint → Checkpoint) : Process Unit :=
  modify fun m => { m with state := f m.state }

/-- `save_state(spec, value)`: the file is replaced as a whole, or not. -/
def saveState (env : Env) (o : Outside) : Process Unit := do
  let m ← get
  if m.state.valid env then do
    access o
    modify fun m => { m with world := { m.world with checkpoint := some m.state } }
    access o
  else throw (.code "joint_store_unavailable")

/-! ### Status -/

/-- What `_status(spec)` says and the refresh reads. -/
structure Base where
  binding : Binding
  discovery : Option Discovery
  discoveryFinishedAt : Option Nat
  cycle : Option Cycle
  cycleFinishedAt : Option Nat
  registrations : Nat
  revalidationPending : Bool
  error : Option String
  deriving Repr, DecidableEq

/-- `binding(spec, base)` with `status()`; the oldest registration with an error is the first. -/
def World.base (configSha : String) (w : World) : Base where
  binding := ⟨w.storeId, w.queryEpoch, configSha⟩
  discovery := w.store.discovery
  discoveryFinishedAt := w.discoveryFinishedAt
  cycle := w.store.cycle
  cycleFinishedAt := w.cycleFinishedAt
  registrations := w.store.registrations.length
  revalidationPending := w.store.runtime.revalidationPending
  error := w.store.runtime.discoveryError <|> w.store.discovery.bind Discovery.error
    <|> (w.store.registrations.filterMap Registration.fixedErrorCode).head?

/-- `_id(base['discovery'])`. -/
def Base.discoveryId (base : Base) : Option String := base.discovery.map Discovery.cycleId

/-- `_id(base['cycle'])`. -/
def Base.cycleId (base : Base) : Option String := base.cycle.map Cycle.cycleId

section Commands

variable (env : Env) (o : Outside)

/-! ### The manual commands -/

/-- The discovery a command starts from, or the error of the source or the store. -/
def openDiscovery (current : Option Discovery) : Process Unit :=
  catching
    (do
      access o
      match ← ask o.target with
      | .error c => throw (.code c)
      | .ok target => do
        let identity ← ask o.identity
        call env o (.beginDiscovery target env.producerId identity))
    fun c => do
      call env o (.recordDiscoveryFailure c
        ⟨some (current.map Discovery.cycleId, (current.map Discovery.cursorSeq).getD 0), none, none⟩)
      throw (.code c)

/-- One page of a discovery. -/
def readPage (current : Discovery) : Process Unit :=
  catching
    (do
      access o
      match ← ask o.page with
      | .error c => throw (.code c)
      | .ok page => call env o (.applyDiscoveryPage current.cycleId current.cursorSeq page))
    fun c => do
      call env o (.failDiscovery current.cycleId current.cursorSeq c)
      throw (.code c)

/-- `begin_discovery` as `discover` calls it; it returns the row it leaves. -/
def newDiscovery (current : Option Discovery) : Process (Option Discovery) := do
  openDiscovery env o current
  let m ← get
  return m.world.store.discovery

/-- The discovery to read a page of: the current one while it is not complete, else a new one. -/
def currentOrNew : Process (Option Discovery) := do
  let current ← look o fun w => w.store.discovery
  if current.all Discovery.complete then newDiscovery env o current else return current

/-- `discover(spec)`: one page, or a discovery that is complete from the start. -/
def discover : Process (Option Discovery) := do
  access o
  match ← currentOrNew env o with
  | none => throw .crash
  | some current =>
    if current.complete then return some current
    else do
      readPage env o current
      look o fun w => w.store.discovery

/-- `next_item()`. -/
def nextItem (s : Store) : Option WorkItem :=
  let rows := (s.items.filter Item.isPending).filterMap fun i =>
    (s.registrations.find? fun r => r.seq = i.registrationSeq).map fun r =>
      (⟨i.cycleId, i.registrationSeq, i.capturedGeneration, i.capturedRevision, r.incidentId⟩
        : WorkItem)
  rows.argmin WorkItem.registrationSeq

/-- The codes an item fails with; any other ends the step. -/
def itemErrors : List String :=
  ["joint_result_invalid", "joint_capacity_exceeded", "joint_anchor_mismatch",
    "joint_scope_mismatch"]

/-- `store.fail(item, code)`. -/
def failItem (item : WorkItem) (c : String) : Process Unit := do
  let now ← utcnow o
  call env o (.fail item c (isoMicros now))

/-- `store.fail(item, code)` for the codes above. -/
def failKnown (item : WorkItem) (c : String) : Process Unit :=
  if itemErrors.contains c then failItem env o item c else throw (.code c)

/-- One item of `reconcile_step`. -/
def attempt (item : WorkItem) : Process Unit := do
  access o
  match ← ask o.read with
  | .error (.evidence c) => failItem env o item c
  | .error (.caseStore c) => failKnown env o item c
  | .ok value =>
    catching
      (do
        let now ← utcnow o
        call env o (.publish item value (isoMicros now)))
      (failKnown env o item)

/-- The loop of `reconcile_step`; `selected` is the cycle of the items before. -/
def reconcileItems : Nat → Option String → Process Unit
  | 0, _ => return ()
  | n + 1, selected => do
    if ← ask o.late then return ()
    else
      match ← look o fun w => nextItem w.store with
      | none => return ()
      | some item =>
        if selected.any (· ≠ item.cycleId) then return ()
        else
          if ← ask o.late then return ()
          else do
            attempt env o item
            reconcileItems n (some item.cycleId)

/-- `reconcile_step(store, …)`. -/
def reconcileStep : Process Unit := do
  access o
  reconcileItems env o 5 none
  access o

/-- `preflight_sources(spec)`; its error is recorded unless the store changed since `base`, and
noted in the checkpoint. -/
def preflight (base : Base) (note : Checkpoint → Checkpoint) : Process Unit :=
  catching (access o) fun c => do
    call env o (.recordDiscoveryFailure c
      ⟨some (base.discoveryId, (base.discovery.map Discovery.cursorSeq).getD 0),
        some base.revalidationPending, some base.cycleId⟩)
    update note
    throw (.code c)

/-- `begin_cycle()`; it returns the row it leaves. -/
def openCycle : Process (Option Cycle) := do
  let identity ← ask o.identity
  call env o (.beginCycle identity)
  let m ← get
  return m.world.store.cycle

/-- The check of the sources by `refresh`, while a recovery is pending. -/
def recheck (base : Base) : Process Unit :=
  if base.revalidationPending then preflight env o base id else return ()

/-- `refresh(spec)`. -/
def refresh (configSha : String) : Process Unit := do
  access o
  let base ← look o (World.base configSha)
  recheck env o base
  let _ ← openCycle env o
  reconcileStep env o

/-! ### The round -/

/-- `_start(state, base)`. -/
def Checkpoint.start (base : Base) (logged : Nat) (c : Checkpoint) : Checkpoint :=
  let c := { c with
    phase := .discover
    discoveryId := none
    refreshId := none
    previousDiscoveryId := base.discoveryId
    previousRefreshId := base.cycleId
    qualified := true
    resumeDiscovery := false
    roundStart := logged }
  if base.cycle.any fun cycle => !cycle.attemptedComplete then
    { c with phase := .refresh, refreshId := base.cycleId, qualified := false }
  else if base.discovery.any fun d => !d.complete then
    { c with discoveryId := base.discoveryId, qualified := false }
  else c

/-- `_realign(state, base)`. -/
def Checkpoint.realign (base : Base) (logged : Nat) (c : Checkpoint) : Checkpoint :=
  { c with
    phase := .idle
    qualified := false
    discoveryId := none
    refreshId := none
    resumeDiscovery := false
    nextAttemptAt := none }.start base logged

/-- A round begins at the present end of the log. -/
def startRound (f : Base → Nat → Checkpoint → Checkpoint) (base : Base) : Process Unit := do
  let m ← get
  update (f base m.world.log.length)

/-- The cycle that `_finish` reports a success for: of a qualified round, after its discovery. -/
def Checkpoint.cleanRound (c : Checkpoint) (base : Base) (cycle : Cycle) (completed : Nat) : Bool :=
  c.qualified && !c.resumeDiscovery
    && base.discovery.any (fun d => some d.cycleId = c.discoveryId && d.complete && d.error.isNone
      && base.discoveryFinishedAt.any (· ≤ completed))
    && cycle.allItemsRefreshed && !base.revalidationPending

/-- The error `_finish` reports. -/
def finishError (base : Base) (cycle : Cycle) : Option String :=
  if !cycle.allItemsRefreshed && base.error.isNone then some "joint_refresh_required"
  else base.error

/-- What comes after a finished cycle. -/
def Checkpoint.afterCycle (spec : RefreshSpec) (now completed : Nat) (error : Option String)
    (c : Checkpoint) : Checkpoint :=
  if error = some "joint_capacity_exceeded" then
    { c with progress := .blocked, error := error, qualified := false, nextAttemptAt := none }
  else if c.resumeDiscovery then
    { c with
      phase := .discover
      refreshId := none
      qualified := false
      resumeDiscovery := false
      progress := .backoff
      error := error <|> c.error
      nextAttemptAt := some (now + spec.retryUs) }
  else
    { c with
      phase := .idle
      qualified := false
      refreshId := none
      progress := if error.isSome then .backoff else .waiting
      error := error
      nextAttemptAt := some (if error.isSome then now + spec.retryUs
        else completed + spec.intervalUs) }

/-- `now or utcnow()`. -/
def nowOr (now : Option Nat) : Process Nat :=
  match now with
  | some now => return now
  | none => utcnow o

/-- Every registration is fresh, asked only when the round was clean. -/
def allFresh (clean : Bool) : Process Bool :=
  if clean then look o fun w => w.store.registrations.all fun r => r.refreshState = .fresh
  else return false

/-- `_finish(state, spec, store, base, now)`. -/
def finish (spec : RefreshSpec) (base : Base) (now : Option Nat) : Process Unit := do
  let now ← nowOr o now
  let m ← get
  match base.cycle with
  | none => throw (.code "joint_refresh_required")
  | some cycle =>
    if some cycle.cycleId ≠ m.state.refreshId then throw (.code "joint_refresh_required")
    else
      match base.cycleFinishedAt with
      | none => throw .crash
      | some completed =>
        if now < completed then throw (.code "joint_refresh_required")
        else do
          update fun c => { c with lastCompleteAt := some completed
                                   previousRefreshId := some cycle.cycleId }
          let success ← allFresh o (m.state.cleanRound base cycle completed)
          update fun c =>
            (if success then { c with lastSuccessAt := some completed } else c).afterCycle spec now
              completed (finishError base cycle)

/-- `_capacity_failure(store)`. -/
def capacityFailure : Process Unit := do
  let full ← look o fun w => w.store.registrations.any fun r =>
    r.fixedErrorCode = some "joint_capacity_exceeded"
  if full then throw (.code "joint_capacity_exceeded") else return ()

/-- The discovery of the round: the one that is complete, else one more page. -/
def advance (base : Base) : Process Discovery := do
  let m ← get
  match base.discovery.filter fun d => some d.cycleId = m.state.discoveryId && d.complete with
  | some current =>
    match current.error with
    | some c => throw (.code c)
    | none => return current
  | none => do
    match ← discover env o with
    | none => throw .crash
    | some current => do
      update fun c => { c with discoveryId := some current.cycleId }
      return current

/-- The previous process began a discovery and died before it replaced the checkpoint. -/
def Checkpoint.adoptDiscovery (base : Base) (c : Checkpoint) : Checkpoint :=
  if c.discoveryId.isNone && base.discoveryId.isSome
      && base.discoveryId ≠ c.previousDiscoveryId then
    { c with discoveryId := base.discoveryId }
  else c

/-- `_discovery_step(spec, state, base)`. -/
def discoveryStep (base : Base) : Process Unit := do
  let m ← get
  if m.state.discoveryId.isSome && base.discoveryId ≠ m.state.discoveryId then
    startRound Checkpoint.realign base
  else do
    update (Checkpoint.adoptDiscovery base)
    let current ← advance env o base
    if current.complete then
      update fun c => { c with phase := .refresh, refreshId := none
                               previousRefreshId := base.cycleId }
    else return ()

/-- The discovery of a qualified round is still the current one. -/
def Checkpoint.requalify (base : Base) (c : Checkpoint) : Checkpoint :=
  if base.discovery.any fun d => some d.cycleId = c.discoveryId && d.complete && d.error.isNone then c
  else { c with qualified := false }

/-- `_finish(state, spec, store, _status(spec), now)`. -/
def finishNow (spec : RefreshSpec) (now : Option Nat) : Process Unit := do
  let base ← look o (World.base spec.configSha)
  finish o spec base now

/-- The end of the first step of a cycle. -/
def endFirstStep (spec : RefreshSpec) (now : Option Nat) : Process Unit := do
  capacityFailure o
  match ← look o fun w => w.store.cycle with
  | none => throw .crash
  | some current => if current.attemptedComplete then finishNow o spec now else return ()

/-- The end of a later step, which also compares the identities. -/
def endStep (spec : RefreshSpec) (now : Option Nat) : Process Unit := do
  capacityFailure o
  let m ← get
  let current ← look o fun w => w.store.cycle
  if current.any fun c => some c.cycleId = m.state.refreshId && c.attemptedComplete then
    finishNow o spec now
  else return ()

/-- Both sources are checked when a recovery is pending or nothing is registered. -/
def checkSources (base : Base) : Process Unit :=
  if base.revalidationPending || base.registrations = 0 then
    preflight env o base fun c => { c with qualified := false }
  else return ()

/-- The first step of a refresh cycle that was just begun. -/
def firstStep (spec : RefreshSpec) (current : Cycle) (now : Option Nat) : Process Unit := do
  if ← ask o.late then throw (.code "query_deadline_exceeded")
  else if current.attemptedComplete then endFirstStep o spec now
  else do
    reconcileStep env o
    endFirstStep o spec now

/-- A new refresh cycle, and its first step. -/
def beginRefresh (spec : RefreshSpec) (base : Base) (now : Option Nat) : Process Unit := do
  checkSources env o base
  match ← openCycle env o with
  | none => throw .crash
  | some current => do
    -- The identity is durable before any source is read.
    update fun c => { c with refreshId := some current.cycleId }
    saveState env o
    firstStep env o spec current now

/-- A step of the cycle that is under way. -/
def continueRefresh (spec : RefreshSpec) (base : Base) (now : Option Nat) : Process Unit :=
  if base.cycle.any Cycle.attemptedComplete then finish o spec base now
  else do
    reconcileStep env o
    endStep o spec now

/-- `_refresh_step(spec, state, store, base, now)`. -/
def refreshStep (spec : RefreshSpec) (base : Base) (now : Option Nat) : Process Unit := do
  update (Checkpoint.requalify base)
  let m ← get
  if m.state.refreshId.isSome && base.cycleId ≠ m.state.refreshId then
    startRound Checkpoint.realign base
  else if m.state.refreshId.isSome then continueRefresh env o spec base now
  else if base.cycleId.isSome && base.cycleId ≠ m.state.previousRefreshId then do
    -- `begin_cycle` was committed, the checkpoint was not.
    update fun c => { c with refreshId := base.cycleId }
    continueRefresh env o spec base now
  else if base.cycle.any fun cycle => !cycle.attemptedComplete then do
    update fun c => { c with refreshId := base.cycleId, qualified := false }
    continueRefresh env o spec base now
  else beginRefresh env o spec base now

/-- `_failure(state, spec, base, error, now)`. -/
def Checkpoint.failed (spec : RefreshSpec) (base : Base) (c : String) (now : Nat)
    (state : Checkpoint) : Checkpoint :=
  let full : Bool := c = "joint_capacity_exceeded"
  let state := { state with
    progress := if full then .blocked else .backoff
    error := some c
    qualified := false
    nextAttemptAt := if full then none else some (now + spec.retryUs) }
  if state.phase = .discover && base.registrations ≠ 0 && !full then
    { state with
      phase := .refresh
      resumeDiscovery := true
      refreshId := none
      discoveryId := base.discoveryId
      previousRefreshId := base.cycleId }
  else state

/-! ### The tick -/

/-- A time of the checkpoint is later than the clock. -/
def Checkpoint.ahead (now : Nat) (c : Checkpoint) : Bool :=
  [c.lastAttemptAt, c.lastCompleteAt, c.lastSuccessAt].any (Option.any (now < ·))

/-- The checkpoint a tick starts from: a new one when there is none that can be read, or when it
is of another store, another configuration or a clock that went back. -/
def startingState (binding : Binding) (now : Nat) (loaded : Option Checkpoint) : Checkpoint :=
  match loaded with
  | none => newState binding
  | some c =>
    if c.binding ≠ binding then newState binding
    else if c.progress = .blocked then c
    else if c.ahead now then newState binding
    else c

/-- `load_state(spec)`; a file that cannot be read counts as none. -/
def loadState : Process (Option Checkpoint) :=
  catching (look o World.checkpoint) fun _ => return none

/-- A round begins unless one is under way. -/
def startIfIdle (base : Base) : Process Unit := do
  let m ← get
  if m.state.phase = .idle then startRound Checkpoint.start base else return ()

/-- The one step of a tick. -/
def roundStep (spec : RefreshSpec) (base : Base) (now : Option Nat) : Process Unit := do
  let m ← get
  if m.state.phase = .discover then discoveryStep env o base
  else refreshStep env o spec base now

/-- A step that neither finished nor failed. -/
def Checkpoint.rest (c : Checkpoint) : Checkpoint :=
  if c.progress = .running then { c with progress := .waiting, error := none } else c

/-- The step with its error handler. -/
def guardedStep (spec : RefreshSpec) (base : Base) (now : Option Nat) : Process Unit :=
  catching
    (do
      roundStep env o spec base now
      update Checkpoint.rest)
    fun c => do
      let base ← look o (World.base spec.configSha)
      let now ← nowOr o now
      update (Checkpoint.failed spec base c now)

/-- `tick(spec, now=…)`. -/
def tick (spec : RefreshSpec) (now : Option Nat) : Process Unit :=
  if spec.enabled then do
    let current ← nowOr o now
    access o
    access o
    let base ← look o (World.base spec.configSha)
    let loaded ← loadState o
    update fun _ => startingState base.binding current loaded
    let m ← get
    if m.state.progress = .blocked || m.state.nextAttemptAt.any (current < ·) then return ()
    else do
      startIfIdle base
      update fun c => { c with progress := .running, lastAttemptAt := some current
                               nextAttemptAt := none }
      saveState env o
      guardedStep env o spec base now
      saveState env o
      access o
  else return ()

end Commands

/-! ### Runs -/

/-- What is run under the lock: a tick, a manual command, or another call on the store. -/
inductive Command
  | tick (spec : RefreshSpec) (now : Option Nat)
  | discover
  | refresh (configSha : String)
  | call (op : Op)

/-- What a command does until it returns or stops. -/
def Command.process (env : Env) (o : Outside) : Command → Process Unit
  | .tick spec now => Refresh.tick env o spec now
  | .discover => do
    let _ ← Refresh.discover env o
    return ()
  | .refresh configSha => Refresh.refresh env o configSha
  | .call op => Refresh.call env o op

/-- The world after a command, with what it took from outside. -/
def World.next (env : Env) (w : World) (x : Outside × Command) : World :=
  (x.2.process env x.1 ⟨w, newState ⟨"", "", ""⟩, 0⟩).2.world

end RiskOps.Joint.Refresh

