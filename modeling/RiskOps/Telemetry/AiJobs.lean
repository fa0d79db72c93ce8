import RiskOps.Lib.Table
import RiskOps.Lib.Run

/-!
# RiskOps.Telemetry.AiJobs

The **analysis queue and its budget ledger** (`telemetry/ai_jobs.py`).

A *job* is one requested analysis; each time a worker claims it out of `queued`
it starts a numbered *attempt* with a call id of its own, and an attempt pays by
inserting a *call* row. The three live in different tables and, for a joint
queue, in different databases: a joint queue keeps its jobs and attempts
locally, while calls, limits and the `halted` flag live in the SSH queue's
database (its *shared owner*). `World` is that picture: one `Account`, and one
`Queue` for each queue bound to it. A queue with local accounting is the `ssh`
queue of a world in which nobody else acts.

Every public method runs in one write transaction, so one method call is one
step. The only place where two commits are involved is a shared reservation:
the owner commits first and the local transaction can still be lost, which is
what the `localLost` flag of `reserve` stands for. A call that raises changes
nothing; the connection guards (`_kind_guard`, `_shared_guard`) can only raise.

Left out, because no modelled method reads them: the audit rows, the
`started`/`ended`/`updated` stamps, and the payload columns of a job.
-/

namespace RiskOps.Telemetry.AiJobs

open RiskOps.Lib

/-! ### Tables -/

/-- The `state` column of jobs and attempts. -/
inductive JobState
  | queued | running | recoverable | uncertain
  | complete | review | stale | failed | budgetExhausted
  deriving Repr, DecidableEq

/-- A row of `ai_jobs`. A worker's `job` dict is a copy of such a row. -/
structure Job where
  id : String
  cacheKey : String
  requestSha : String
  created : ℚ
  state : JobState
  attemptCount : Nat
  leaseToken : Option String
  leaseUntil : Option ℚ
  callId : Option String
  runId : Option String
  resultJson : Option String
  errorCode : Option String
  deriving DecidableEq

/-- A row of `ai_attempts`. -/
structure Attempt where
  callId : String
  jobId : String
  number : Nat
  state : JobState
  errorCode : Option String
  deriving DecidableEq

/-- The `status` column of `ai_calls`. -/
inductive CallStatus
  | reserved | complete | uncertain
  deriving Repr, DecidableEq

/-- A row of `ai_calls`. Amounts are micro-dollars. -/
structure Call where
  id : String
  day : String
  reserved : Int
  charged : Option Int
  status : CallStatus
  record : Option String
  error : Option String
  deriving DecidableEq

/-- The row `Ledger.reserve` inserts. -/
def reservedCall (id day : String) (amount : Int) : Call where
  id := id
  day := day
  reserved := amount
  charged := none
  status := .reserved
  record := none
  error := none

/-- `SET charged=?, status='complete', record=?`. -/
def Call.settle (charged : Int) (record : String) (c : Call) : Call :=
  { c with charged := some charged, status := .complete, record := some record }

/-- `SET status='uncertain', error=?`. -/
def Call.markUncertain (code : String) (c : Call) : Call :=
  { c with status := .uncertain, error := some code }

@[simp] theorem Call.settle_id (charged : Int) (record : String) (c : Call) :
    (c.settle charged record).id = c.id := rfl

@[simp] theorem Call.markUncertain_id (code : String) (c : Call) :
    (c.markUncertain code).id = c.id := rfl

/-- `coalesce(charged, reserved)`. -/
def Call.committed (c : Call) : Int := c.charged.getD c.reserved

/-- One queue database: its jobs, its attempts and the position of the rotating
receipt scan (`receipt_recovery_cursor`). -/
structure Queue where
  jobs : Table Job.id
  attempts : Table Attempt.callId
  cursor : Option String

/-- The financial state: calls, limits and the halt flag of the owner. -/
structure Account where
  calls : Table Call.id
  totalLimit : Option Int
  dailyLimit : Option Int
  halted : Bool

/-- The SSH queue owns the account; joint queues are bound to it. -/
inductive QueueRef
  | ssh
  | joint (n : Nat)
  deriving Repr, DecidableEq

structure World where
  queue : QueueRef → Queue
  account : Account

/-- All databases freshly created. -/
def World.init : World where
  queue := fun _ => ⟨Table.empty, Table.empty, none⟩
  account := ⟨Table.empty, none, none, false⟩

/-- Replace the database of one queue. -/
def World.setQueue (w : World) (q : QueueRef) (db : Queue) : World :=
  { w with queue := fun q' => if q' = q then db else w.queue q' }

@[simp] theorem World.setQueue_self (w : World) (q : QueueRef) (db : Queue) :
    (w.setQueue q db).queue q = db := by
  simp [World.setQueue]

theorem World.setQueue_ne (w : World) {q q' : QueueRef} (db : Queue) (h : q' ≠ q) :
    (w.setQueue q db).queue q' = w.queue q' := by
  simp [World.setQueue, h]

@[simp] theorem World.setQueue_account (w : World) (q : QueueRef) (db : Queue) :
    (w.setQueue q db).account = w.account := rfl

/-- The exceptions the methods raise. -/
inductive Refusal
  | queueFull | integrity | invalidAttempt | leaseInactive | wrongCall
  | invalidReservation | reservationChanged | unresolved | budgetExceeded
  | invalidSettlement | missingReservation | settlementChanged
  | invalidFailure | failureChanged | invalidBudget | limitsChanged | commitFailed
  deriving Repr, DecidableEq

/-- What a method returns. `permitted` is the `None` of `Ledger.reserve`: the
caller may submit the request. `lost` is a shared reservation whose owner
transaction committed while the caller saw an exception. -/
inductive Reply
  | jobId (id : String)
  | noJob
  | claimed (job : Job)
  | permitted
  | recorded (record : Option String)
  | lost
  | done
  deriving DecidableEq

/-! ### `Jobs.enqueue` -/

/-- The states `enqueue` counts against the queue limit. -/
def JobState.pending : JobState → Bool
  | .queued | .running | .recoverable => true
  | _ => false

/-- `Jobs.enqueue`: one job per cache key; `jobId` is the fresh random id. -/
def enqueue (db : Queue) (jobId cacheKey requestSha : String) (now : ℚ) (queueLimit : Nat) :
    Except Refusal (Queue × Reply) :=
  match db.jobs.rows.find? (fun j => j.cacheKey = cacheKey) with
  | some prior => .ok (db, .jobId prior.id)
  | none =>
    if queueLimit ≤ (db.jobs.select (fun j => j.state.pending)).length then .error .queueFull
    else
      match db.jobs.insert
          { id := jobId, cacheKey := cacheKey, requestSha := requestSha, created := now,
            state := .queued, attemptCount := 0, leaseToken := none, leaseUntil := none,
            callId := none, runId := none, resultJson := none, errorCode := none } with
      | none => .error .integrity
      | some jobs => .ok ({ db with jobs := jobs }, .jobId jobId)

/-! ### `Jobs._recover` and `Jobs.claim` -/

/-- `ORDER BY created, id`. -/
def createdOrder (a b : Job) : Bool :=
  a.created < b.created || (a.created = b.created && a.id ≤ b.id)

/-- `ORDER BY id`. -/
def idOrder (a b : Job) : Bool := a.id ≤ b.id

/-- The call row of the job's current attempt. -/
def Account.callOf (acc : Account) (job : Job) : Option Call := job.callId.bind acc.calls.find?

/-- A durable charged receipt exists for the job's current call. -/
def Account.isCharged (acc : Account) (job : Job) : Bool :=
  ((acc.callOf job).bind Call.charged).isSome

/-- Running jobs whose lease has expired. -/
def expiredRows (db : Queue) (now : ℚ) : List Job :=
  ((db.jobs.select fun j => j.state = .running && j.leaseUntil.any (· ≤ now)).mergeSort
    createdOrder).take 100

/-- Uncertain jobs to look at again. The SSH queue joins its own receipts; a
joint queue scans a bounded page after its saved cursor and wraps around. -/
def pendingRows (q : QueueRef) (db : Queue) (acc : Account) : List Job :=
  match q with
  | .ssh =>
    ((db.jobs.select fun j => j.state = .uncertain && acc.isCharged j).mergeSort
      createdOrder).take 100
  | .joint _ =>
    let position := db.cursor.getD ""
    let page := ((db.jobs.select fun j => j.state = .uncertain && decide (position < j.id)).mergeSort
      idOrder).take 100
    if page.isEmpty && position ≠ "" then
      ((db.jobs.select fun j => j.state = .uncertain).mergeSort idOrder).take 100
    else page

/-- The cursor a joint queue saves: the last job of the page it looked at. -/
def nextCursor (q : QueueRef) (db : Queue) (acc : Account) : Option String :=
  match q with
  | .ssh => db.cursor
  | .joint _ => ((pendingRows q db acc).getLast?.map Job.id).or db.cursor

/-- The state `_recover` moves a job to, `none` when it leaves it alone. -/
def recoveredState (acc : Account) (maxAttempts : Nat) (job : Job) : Option JobState :=
  if acc.isCharged job then some .recoverable
  else if job.state = .uncertain then none
  else if (acc.callOf job).isSome then some .uncertain
  else some (if job.attemptCount < maxAttempts then .queued else .failed)

/-- `UPDATE ai_jobs SET state=?, error_code=? WHERE id=?`. -/
def Queue.setJobState (db : Queue) (id : String) (state : JobState) (error : Option String) : Queue :=
  { db with
    jobs := db.jobs.update
      (fun j => if j.id = id then { j with state := state, errorCode := error } else j)
      (fun j => by split <;> rfl) }

/-- `UPDATE ai_attempts SET state=?, error_code=? WHERE call_id=?`. -/
def Queue.setAttemptState (db : Queue) (callId : Option String) (state : JobState)
    (error : Option String) : Queue :=
  { db with
    attempts := db.attempts.update
      (fun a => if callId = some a.callId then { a with state := state, errorCode := error } else a)
      (fun a => by split <;> rfl) }

/-- The body of `_recover`'s loop. -/
def recoverRow (acc : Account) (maxAttempts : Nat) (db : Queue) (job : Job) : Queue :=
  match recoveredState acc maxAttempts job with
  | none => db
  | some state =>
    (db.setJobState job.id state (some "lease_expired")).setAttemptState job.callId state
      (some "lease_expired")

/-- `Jobs._recover`. -/
def recover (q : QueueRef) (db : Queue) (acc : Account) (now : ℚ) (maxAttempts : Nat) : Queue :=
  (expiredRows db now ++ pendingRows q db acc).foldl (recoverRow acc maxAttempts)
    { db with cursor := nextCursor q db acc }

section Claim

-- `callHash runId requestSha` is the SHA-256 call id of an attempt and
-- `attemptPath q jobId number` its run directory. The model depends on neither
-- being injective: a repeated call id is refused by the attempts' primary key.
variable (callHash : String → String → String) (attemptPath : QueueRef → String → Nat → String)

/-- The part of `Jobs.claim` after `_recover`: take the oldest claimable job,
start a new attempt unless it is recoverable, and lease it. -/
def lease (q : QueueRef) (db : Queue) (token : String) (now leaseSeconds : ℚ) (recoverOnly : Bool) :
    Except Refusal (Queue × Reply) :=
  match ((db.jobs.select fun j =>
      j.state = .recoverable || (!recoverOnly && j.state = .queued)).mergeSort createdOrder).head? with
  | none => .ok (db, .noJob)
  | some row =>
    let leased (attempts : Table Attempt.callId) (job : Job) : Queue × Reply :=
      ({ db with
          attempts := attempts
          jobs := db.jobs.update
            (fun j => if j.id = row.id then
              { j with state := .running, leaseToken := some token,
                       leaseUntil := some (now + leaseSeconds),
                       attemptCount := job.attemptCount, runId := job.runId,
                       callId := job.callId, errorCode := none } else j)
            (fun j => by split <;> rfl) },
        .claimed { job with state := .running, leaseToken := some token,
                            leaseUntil := some (now + leaseSeconds) })
    if row.state = .recoverable then .ok (leased db.attempts row)
    else
      let number := row.attemptCount + 1
      let runId := attemptPath q row.id number
      let callId := callHash runId row.requestSha
      match db.attempts.insert
          { callId := callId, jobId := row.id, number := number, state := .running,
            errorCode := none } with
      | none => .error .integrity
      | some attempts =>
        .ok (leased attempts
          { row with attemptCount := number, runId := some runId, callId := some callId })

/-- `Jobs.claim`. The clock is read once for the expiry test and once for the
new lease; `token` is the fresh random lease token. -/
def claim (q : QueueRef) (db : Queue) (acc : Account) (token : String)
    (recoverNow now leaseSeconds : ℚ) (maxAttempts : Nat) (recoverOnly : Bool) :
    Except Refusal (Queue × Reply) :=
  lease callHash attemptPath q (recover q db acc recoverNow maxAttempts) token now leaseSeconds
    recoverOnly

end Claim

/-! ### `Jobs._finish` and `Jobs.retry_unsubmitted` -/

/-- The guard of `_finish`'s `UPDATE`; SQL equality with `NULL` is never true. -/
def holdsLease (job row : Job) : Bool :=
  row.id = job.id && row.requestSha = job.requestSha
    && (job.leaseToken.isSome && row.leaseToken = job.leaseToken)
    && (job.callId.isSome && row.callId = job.callId)
    && (row.state = .running || row.state = .uncertain)

/-- `Jobs._finish`. -/
def finish (db : Queue) (job : Job) (state : JobState) (record error : Option String) : Queue :=
  if db.jobs.rows.any (holdsLease job) then
    { db with
      jobs := db.jobs.update
        (fun j => if holdsLease job j then
          { j with state := state, resultJson := record, errorCode := error } else j)
        (fun j => by split <;> rfl) }.setAttemptState job.callId state error
  else db

/-- The row `Ledger._attempt` selects: the job joined with this very attempt. -/
def attemptRow (db : Queue) (job : Job) : Option Job :=
  (db.jobs.find? job.id).filter fun row =>
    row.requestSha = job.requestSha
      && db.attempts.rows.any fun a =>
        a.jobId = row.id && job.callId = some a.callId && a.number = job.attemptCount

/-- `Ledger._attempt(db)`. -/
def attempt (db : Queue) (job : Job) : Except Refusal Job :=
  match attemptRow db job with
  | none => .error .invalidAttempt
  | some row => .ok row

/-- The extra test of `Ledger._attempt(db, active=True)`. -/
def isActive (row job : Job) (now : ℚ) : Bool :=
  row.state = .running && row.leaseToken = job.leaseToken && row.callId = job.callId
    && row.leaseUntil.any (now < ·)

/-- `Jobs.retry_unsubmitted`. -/
def retryUnsubmitted (db : Queue) (acc : Account) (job : Job) (maxAttempts : Nat) :
    Except Refusal Queue := do
  let _ ← attempt db job
  let state : JobState :=
    if (acc.callOf job).isSome then .uncertain
    else if job.attemptCount < maxAttempts then .queued else .failed
  return finish db job state none (some "provider_unavailable")

/-! ### `Jobs.set_budget` -/

/-- The largest amount SQLite stores. -/
def maxAmount : Int := 2 ^ 63 - 1

/-- `Jobs.set_budget`: limits are written once and never changed. -/
def setBudget (acc : Account) (total daily : Int) : Except Refusal Account :=
  if ¬ (0 < daily ∧ daily ≤ total ∧ total ≤ maxAmount) then .error .invalidBudget
  else if acc.totalLimit.getD total ≠ total ∨ acc.dailyLimit.getD daily ≠ daily then
    .error .limitsChanged
  else .ok { acc with totalLimit := some total, dailyLimit := some daily }

/-! ### `Ledger.reserve`, `complete` and `fail` -/

/-- `sum(coalesce(charged, reserved))` over all calls. -/
def Account.committed (acc : Account) : Int := (acc.calls.rows.map Call.committed).sum

/-- The same sum over one day's calls. -/
def Account.committedOn (acc : Account) (day : String) : Int :=
  ((acc.calls.select (fun c => c.day = day)).map Call.committed).sum

/-- `UPDATE ai_calls … WHERE id=?`. -/
def Account.updateCall (acc : Account) (id : String) (f : Call → Call)
    (hf : ∀ c, (f c).id = c.id) : Account :=
  { acc with
    calls := acc.calls.update (fun c => if c.id = id then f c else c)
      (fun c => by split <;> simp [hf]) }

/-- `Ledger.reserve` up to its commits: the account after it, or the recorded
answer of an already settled call. `utcDay` is the owner clock's UTC date. -/
def reserve (utcDay : ℚ → String) (db : Queue) (acc : Account) (job : Job) (callId : String)
    (amount : Int) (now ownerNow : ℚ) : Except Refusal (Account × Reply) := do
  if job.callId ≠ some callId then throw .wrongCall
  if ¬ (0 < amount ∧ amount ≤ maxAmount) then throw .invalidReservation
  let row ← attempt db job
  match acc.calls.find? callId with
  | some previous =>
    if previous.reserved ≠ amount then throw .reservationChanged
    else if previous.charged.isSome then return (acc, .recorded previous.record)
    else throw .unresolved
  | none =>
    if !isActive row job now then throw .leaseInactive
    let day := utcDay ownerNow
    if acc.halted ∨ acc.totalLimit.getD 0 < acc.committed + amount
        ∨ acc.dailyLimit.getD 0 < acc.committedOn day + amount then throw .budgetExceeded
    match acc.calls.insert (reservedCall callId day amount) with
    | none => throw .integrity
    | some calls => return ({ acc with calls := calls }, .permitted)

/-- `Ledger.complete`. `encoded` is the canonical JSON of the record, `none`
when the record cannot be encoded. -/
def complete (db : Queue) (acc : Account) (job : Job) (callId : String) (charged : Int)
    (encoded : Option String) : Except Refusal Account := do
  if job.callId ≠ some callId then throw .wrongCall
  if ¬ (0 ≤ charged ∧ charged ≤ maxAmount) then throw .invalidSettlement
  let record ← match encoded with
    | none => throw .invalidSettlement
    | some record => pure record
  let _ ← attempt db job
  match acc.calls.find? callId with
  | none => throw .missingReservation
  | some row =>
    if row.charged.isSome then
      if row.charged ≠ some charged ∨ row.record ≠ some record then throw .settlementChanged
      else return acc
    else
      let acc' := acc.updateCall callId (Call.settle charged record) (Call.settle_id _ _)
      return { acc' with halted := acc.halted || decide (row.reserved < charged) }

/-- `[a-z][a-z0-9_]{0,63}`. -/
def isFailureCode (code : String) : Bool :=
  match code.toList with
  | [] => false
  | c :: cs => c.isLower && cs.length ≤ 63
      && cs.all (fun d => d.isLower || d.isDigit || d = '_')

/-- `Ledger.fail`. -/
def fail (db : Queue) (acc : Account) (job : Job) (callId code : String) :
    Except Refusal Account := do
  if job.callId ≠ some callId then throw .wrongCall
  if !isFailureCode code then throw .invalidFailure
  let _ ← attempt db job
  match acc.calls.find? callId with
  | none => throw .missingReservation
  | some row =>
    if row.charged.isSome then return acc
    else if row.status = .uncertain then
      if row.error ≠ some code then throw .failureChanged else return acc
    else
      return acc.updateCall callId (Call.markUncertain code) (Call.markUncertain_id _)

/-! ### The transition system -/

/-- One method call, with the values of the clocks and random ids it draws. -/
inductive Op
  | enqueue (q : QueueRef) (jobId cacheKey requestSha : String) (now : ℚ) (queueLimit : Nat)
  | claim (q : QueueRef) (token : String) (recoverNow now leaseSeconds : ℚ) (maxAttempts : Nat)
      (recoverOnly : Bool)
  | reserve (q : QueueRef) (job : Job) (callId : String) (amount : Int) (now ownerNow : ℚ)
      (localLost : Bool)
  | complete (q : QueueRef) (job : Job) (callId : String) (charged : Int) (encoded : Option String)
  | fail (q : QueueRef) (job : Job) (callId code : String)
  | finish (q : QueueRef) (job : Job) (state : JobState) (record error : Option String)
  | retryUnsubmitted (q : QueueRef) (job : Job) (maxAttempts : Nat)
  | setBudget (total daily : Int)

section System

variable (callHash : String → String → String) (attemptPath : QueueRef → String → Nat → String)
  (utcDay : ℚ → String)

/-- The world and reply of one method call; a raised exception is an error. -/
def step (w : World) : Op → Except Refusal (World × Reply)
  | .enqueue q jobId cacheKey requestSha now queueLimit => do
    let (db, reply) ← enqueue (w.queue q) jobId cacheKey requestSha now queueLimit
    return (w.setQueue q db, reply)
  | .claim q token recoverNow now leaseSeconds maxAttempts recoverOnly => do
    let (db, reply) ← claim callHash attemptPath q (w.queue q) w.account token recoverNow now
      leaseSeconds maxAttempts recoverOnly
    return (w.setQueue q db, reply)
  | .reserve q job callId amount now ownerNow localLost => do
    let (acc, reply) ← reserve utcDay (w.queue q) w.account job callId amount now ownerNow
    -- Only a joint queue has a second commit that can be lost after the owner's.
    if localLost then
      match q with
      | .ssh => throw .commitFailed
      | .joint _ => return ({ w with account := acc }, if reply = .permitted then .lost else .done)
    else return ({ w with account := acc }, reply)
  | .complete q job callId charged encoded => do
    let acc ← complete (w.queue q) w.account job callId charged encoded
    return ({ w with account := acc }, .done)
  | .fail q job callId code => do
    let acc ← fail (w.queue q) w.account job callId code
    return ({ w with account := acc }, .done)
  | .finish q job state record error =>
    return (w.setQueue q (finish (w.queue q) job state record error), .done)
  | .retryUnsubmitted q job maxAttempts => do
    let db ← retryUnsubmitted (w.queue q) w.account job maxAttempts
    return (w.setQueue q db, .done)
  | .setBudget total daily => do
    let acc ← setBudget w.account total daily
    return ({ w with account := acc }, .done)

/-- A refused call leaves the world as it was. -/
def next (w : World) (op : Op) : World :=
  match step callHash attemptPath utcDay w op with
  | .ok (w', _) => w'
  | .error _ => w

/-- What a run is observed to do with money: `inserted` when a `reserve` for a
job adds a call row, `permitted` when it hands out the permission to submit. -/
inductive Event
  | inserted (q : QueueRef) (jobId : String)
  | permitted (q : QueueRef) (jobId : String)
  deriving DecidableEq

/-- The events of one method call. -/
def emit (w : World) (op : Op) : List Event :=
  match op with
  | .reserve q job _ _ _ _ _ =>
    (if w.account.calls.rows.length <
        (next callHash attemptPath utcDay w op).account.calls.rows.length
      then [.inserted q job.id] else []) ++
    match step callHash attemptPath utcDay w op with
    | .ok (_, .permitted) => [.permitted q job.id]
    | _ => []
  | _ => []

end System

end RiskOps.Telemetry.AiJobs
