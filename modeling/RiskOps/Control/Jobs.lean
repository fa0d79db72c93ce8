import RiskOps.Control.SshBlockControl
import RiskOps.Lib.PyText

/-!
# RiskOps.Control.Jobs — the queue of operator actions

Model of `telemetry/control.py`: an operator previews an action, executes the plan, and a worker
(`run_once`) sends the items of the resulting job one by one over an unreliable transport.

**Three steps of a worker.** `run_once` claims an item in one transaction, calls the transport, and
stores the result in a second transaction. The worker carries its own copy of the job's items from
the first to the second. Each of the three is a step of its own here, and the worker may crash
between them; any number of workers may share the database.

The service is configured; a body whose fields do not have the types below is refused as one with
the wrong fields. The audit table, which nothing here reads, and the listener called after a
verified ban are left out. Times are rationals; identities `uuid4` draws are arguments.
-/

namespace RiskOps.Control.Jobs

open RiskOps.Lib

/-! ### Previews -/

/-- The messages of the raised `ValueError`s. -/
inductive Refusal
  | invalidFields | unsupportedAction | invalidDuration | invalidReason | invalidChannels
  | targetCount | unknownSource | invalidIp | unblockableIp | protectedTarget | tooManyItems
  | unknownPlan | expiredPlan
  /-- A primary key is taken: an integrity error of SQLite. -/
  | unavailable
  deriving DecidableEq, Repr

inductive JobAction
  | ban | unban
  deriving DecidableEq, Repr

structure Target where
  sourceId : String
  ip : List Char

structure Body where
  action : String
  targets : List Target
  channels : List String
  durationSeconds : Option Int
  reason : List Char

/-- What an item asks for. -/
structure PlanItem where
  sourceId : String
  ip : HostIp
  channel : Channel
  action : JobAction
  durationSeconds : Option Int
  deriving DecidableEq

/-- The configured sources and the management networks. -/
structure Config where
  sources : List String
  protectedNetworks : List Network

theorem ipv4Mapped_v4 (address : Fin (2 ^ 32)) : (IpAddress.v4 address).ipv4Mapped = none := rfl

/-- `address(value)`. -/
def address (s : List Char) : Except Refusal HostIp :=
  if 64 < s.length ∨ '%' ∈ s then .error .invalidIp
  else match IpAddress.parse s with
    | none => .error .invalidIp
    | some parsed =>
      let ip : HostIp := match h : parsed.ipv4Mapped with
        | some mapped => ⟨.v4 mapped, ipv4Mapped_v4 mapped⟩
        | none => ⟨parsed, h⟩
      if ip.addr.isUnspecified || ip.addr.isLoopback || ip.addr.isMulticast || ip.addr.isLinkLocal
      then .error .unblockableIp
      else .ok ip

/-- `DURATIONS` without `None`. -/
def durations : List Int := [300, 900, 1800, 3600, 86400]

def readChannel : String → Option Channel
  | "ssh" => some .ssh
  | "tcp" => some .tcp
  | "udp" => some .udp
  | _ => none

def readAction : String → Option JobAction
  | "ban" => some .ban
  | "unban" => some .unban
  | _ => none

/-- The channels of the items, sorted; a ban of `tcp` covers `ssh`. -/
def itemChannels (action : JobAction) (chosen : List Channel) : List Channel :=
  [Channel.ssh, .tcp, .udp].filter fun c => chosen.contains c
    && !(c = .ssh && chosen.contains .tcp && action = .ban)

/-- `items[key] = …` for a key that may be there. -/
def addItem (items : List PlanItem) (item : PlanItem) : List PlanItem :=
  if item ∈ items then items else items ++ [item]

/-- One target of `preview`. -/
def addTarget (config : Config) (action : JobAction) (chosen : List Channel)
    (duration : Option Int) (operatorIp : Option HostIp) (items : List PlanItem) (t : Target) :
    Except Refusal (List PlanItem) :=
  if !config.sources.contains t.sourceId then .error .unknownSource
  else do
    let ip ← address t.ip
    if action = .ban && (config.protectedNetworks.any (·.contains ip.addr) || operatorIp = some ip)
    then .error .protectedTarget
    else .ok (((itemChannels action chosen).map fun c => ⟨t.sourceId, ip, c, action, duration⟩).foldl
      addItem items)

/-- The items of a preview, or the first check that fails. -/
def previewItems (config : Config) (body : Body) (operatorIp : Option HostIp) :
    Except Refusal (List PlanItem) :=
  match readAction body.action with
  | none => .error .unsupportedAction
  | some action =>
    if body.durationSeconds.any fun d => !durations.contains d then .error .invalidDuration
    else if (strip body.reason).length < 1 ∨ 300 < (strip body.reason).length then
      .error .invalidReason
    else if body.channels.isEmpty || 3 < body.channels.length
        || body.channels.any fun c => (readChannel c).isNone then .error .invalidChannels
    else if body.targets.isEmpty || 100 < body.targets.length then .error .targetCount
    else do
      let items ← body.targets.foldlM (addTarget config action (body.channels.filterMap readChannel)
        body.durationSeconds operatorIp) []
      if 100 < items.length then .error .tooManyItems else .ok items

/-! ### Plans, jobs and blocks -/

/-- A row of `plans`. -/
structure Plan where
  id : String
  actor : String
  created : ℚ
  expires : ℚ
  items : List PlanItem
  reason : List Char
  jobId : Option String

inductive ItemStatus
  | pending | running | ok | rejected | uncertain
  deriving DecidableEq, Repr

/-- The error texts stored with an item. -/
inductive ItemError
  | refused | unconfirmed
  deriving DecidableEq, Repr

structure Item where
  plan : PlanItem
  requestId : String
  status : ItemStatus
  attempts : Nat
  expiresAt : Option Int
  verifiedAt : Option ℚ
  error : Option ItemError
  deriving DecidableEq

/-- The status of a job; `mixed` is `'partial'`. -/
inductive JobStatus
  | queued | running | done | mixed | failed
  deriving DecidableEq, Repr

/-- A row of `jobs`. -/
structure Job where
  id : String
  actor : String
  created : ℚ
  updated : ℚ
  status : JobStatus
  items : List Item
  reason : List Char
  leaseUntil : ℚ

structure BlockKey where
  sourceId : String
  ip : HostIp
  channel : Channel
  deriving DecidableEq

/-- A row of `blocks`. -/
structure BlockRow where
  key : BlockKey
  expiresAt : Option Int
  verifiedAt : ℚ

structure Db where
  plans : Table Plan.id
  jobs : Table Job.id
  blocks : Table BlockRow.key

def Db.empty : Db := ⟨Table.empty, Table.empty, Table.empty⟩

def Item.key (i : Item) : BlockKey := ⟨i.plan.sourceId, i.plan.ip, i.plan.channel⟩

/-- `preview(actor, body, operator_ip)`; `planId` is the new plan's identity. -/
def preview (config : Config) (db : Db) (actor : String) (body : Option Body)
    (operatorIp : Option (List Char)) (now : ℚ) (planId : String) : Except Refusal (Db × Plan) := do
  match body with
  | none => .error .invalidFields
  | some body =>
    let operator := (operatorIp.filter (· ≠ [])).bind fun ip => (address ip).toOption
    let items ← previewItems config body operator
    let plan : Plan := ⟨planId, actor, now, now + 300, items, strip body.reason, none⟩
    match db.plans.insert plan with
    | none => .error .unavailable
    | some plans => .ok ({ db with plans := plans }, plan)

/-- The item of a new job. -/
def newItem (now : ℚ) (requestId : String) (item : PlanItem) : Item :=
  ⟨item, requestId, .pending, 0,
    if item.action = .ban then item.durationSeconds.map (now.floor + ·) else none, none, none⟩

/-- `execute(actor, plan_id)`; `jobId` and `requestIds` are the identities drawn. -/
def execute (db : Db) (actor planId : String) (now : ℚ) (jobId : String)
    (requestIds : Nat → String) : Except Refusal (Db × Job) :=
  match (db.plans.find? planId).filter fun p => p.actor = actor with
  | none => .error .unknownPlan
  | some plan =>
    match plan.jobId with
    | some id => (db.jobs.find? id).elim (.error .unavailable) fun job => .ok (db, job)
    | none =>
      if plan.expires < now then .error .expiredPlan
      else
        let items := plan.items.mapIdx fun i item => newItem now (requestIds i) item
        let job : Job := ⟨jobId, actor, now, now, .queued, items, plan.reason, 0⟩
        match db.jobs.insert job with
        | none => .error .unavailable
        | some jobs =>
          .ok ({ db with
            jobs := jobs
            plans := db.plans.update
              (fun p => if p.id = planId then { p with jobId := some jobId } else p)
              (by intro p; split <;> rfl) }, job)

/-! ### One run of a worker -/

def ItemStatus.active : ItemStatus → Bool
  | .pending | .running => true
  | _ => false

def Item.active (i : Item) : Bool := i.status.active

/-- `status IN ('queued','running')`. -/
def JobStatus.active : JobStatus → Bool
  | .queued | .running => true
  | _ => false

def Job.active (j : Job) : Bool := j.status.active

/-- `ORDER BY created LIMIT 1`. -/
def earliest : List Job → Option Job
  | [] => none
  | j :: jobs =>
    match earliest jobs with
    | none => some j
    | some k => if k.created < j.created then some k else some j

/-- `SELECT * FROM jobs WHERE status IN ('queued','running') ORDER BY created LIMIT 1`. -/
def Db.head (db : Db) : Option Job := earliest (db.jobs.rows.filter Job.active)

/-- The copy a worker carries: the items of the job as it claimed them. -/
structure Claim where
  jobId : String
  actor : String
  items : List Item
  index : Nat

/-- `UPDATE jobs … WHERE id=?`. -/
def Db.updateJob (db : Db) (jobId : String) (f : Job → Job) (hf : ∀ j, (f j).id = j.id) : Db :=
  { db with jobs := db.jobs.update (fun j => if j.id = jobId then f j else j)
              (by intro j; split; exact hf j; rfl) }

def Item.claim (i : Item) : Item := { i with status := .running, attempts := i.attempts + 1 }

/-- The first transaction of `run_once`; `none` when it returns `False`. -/
def Db.claim (db : Db) (now : ℚ) : Option (Db × Claim) :=
  match db.head with
  | none => none
  | some job =>
    if now < job.leaseUntil then none
    else
      match job.items.findIdx? Item.active with
      | none => none
      | some index =>
        let items := job.items.modify index Item.claim
        some (db.updateJob job.id (fun j => { j with
            status := .running, items := items, leaseUntil := now + 90, updated := now })
          (fun _ => rfl), ⟨job.id, job.actor, items, index⟩)

/-- A value of the response, as far as it is compared; a number is its value. -/
inductive Scalar
  | none | bool (b : Bool) | number (q : ℚ) | text (s : List Char) | other
  deriving DecidableEq

/-- `value == n` for an integer: `True` equals 1. -/
def Scalar.isInt (n : Int) : Scalar → Bool
  | .number q => q = n
  | .bool b => (if b then 1 else 0) = n
  | _ => false

/-- `value == expires_at`. -/
def Scalar.isExpiry : Option Int → Scalar → Bool
  | Option.none, v => v = .none
  | some n, v => v.isInt n

/-- The fields of a response that `run_once` reads, as `response.get` returns them. -/
structure Response where
  version : Scalar
  sourceId : Scalar
  requestId : Scalar
  status : Scalar
  ip : Scalar
  channel : Scalar
  blocked : Scalar
  expiresAt : Scalar

/-- The response is one to the request of the item. -/
def Response.answers (r : Response) (i : Item) : Bool :=
  r.version.isInt 1 && r.sourceId = .text i.plan.sourceId.toList
    && r.requestId = .text i.requestId.toList

/-- The response confirms the item. -/
def Response.confirms (r : Response) (i : Item) : Bool :=
  r.status = .text "ok".toList && r.ip = .text i.plan.ip.addr.toText
    && r.channel = .text i.plan.channel.text && r.blocked = .bool (i.plan.action = .ban)
    && (i.plan.action ≠ .ban || r.expiresAt.isExpiry i.expiresAt)

/-- The item after an exception or an unusable response. -/
def Item.unconfirmed (i : Item) : Item :=
  { i with status := if i.attempts < 3 then .pending else .uncertain, error := some .unconfirmed }

/-- The item after the transport returned (`none`: it raised) at time `now`. -/
def Item.answer (i : Item) (now : ℚ) : Option Response → Item
  | Option.none => i.unconfirmed
  | some r =>
    if !r.answers i then i.unconfirmed
    else if r.status = .text "rejected".toList then
      { i with status := .rejected, error := some .refused }
    else if r.confirms i then
      { i with status := .ok, verifiedAt := some now, error := Option.none }
    else i.unconfirmed

/-- The status of the job after a result. -/
def resultStatus (items : List Item) : JobStatus :=
  if items.any Item.active then .running
  else if items.all fun i => i.status = .ok then .done
  else if items.any fun i => i.status = .ok then .mixed
  else .failed

/-- The `blocks` row of a verified item. -/
def recordBlock (blocks : Table BlockRow.key) (i : Item) (now : ℚ) : Table BlockRow.key :=
  if i.status = .ok then
    if i.plan.action = .ban then blocks.replace ⟨i.key, i.expiresAt, now⟩
    else blocks.delete fun b => b.key = i.key
  else blocks

/-- The second transaction of `run_once`: it writes back the worker's copy. -/
def Db.record (db : Db) (claim : Claim) (item : Item) (now : ℚ) : Db :=
  let items := claim.items.set claim.index item
  { db with blocks := recordBlock db.blocks item now }.updateJob claim.jobId
    (fun j => { j with
      status := resultStatus items, items := items, updated := now
      leaseUntil := if item.status = ItemStatus.pending then now + 10 else 0 })
    (fun _ => rfl)

/-! ### The transition system -/

/-- Where a worker is between the steps of `run_once`. -/
inductive Phase
  | idle
  | claimed (claim : Claim)
  | answered (claim : Claim) (item : Item)

structure World (ω : Type) where
  db : Db
  workers : ω → Phase

variable {ω : Type} [DecidableEq ω]

def World.init : World ω := ⟨Db.empty, fun _ => .idle⟩

inductive Op (ω : Type)
  | preview (actor : String) (body : Option Body) (operatorIp : Option (List Char)) (now : ℚ)
      (planId : String)
  | execute (actor planId : String) (now : ℚ) (jobId : String) (requestIds : Nat → String)
  | claim (w : ω) (now : ℚ)
  | call (w : ω) (now : ℚ) (response : Option Response)
  | record (w : ω) (now : ℚ)
  | crash (w : ω)

def World.setWorker (s : World ω) (w : ω) (phase : Phase) : World ω :=
  { s with workers := Function.update s.workers w phase }

/-- A refused call, and a step a worker is not ready for, leave the world as it was. -/
def next (config : Config) (s : World ω) : Op ω → World ω
  | .preview actor body operatorIp now planId =>
    match preview config s.db actor body operatorIp now planId with
    | .error _ => s
    | .ok (db, _) => { s with db := db }
  | .execute actor planId now jobId requestIds =>
    match execute s.db actor planId now jobId requestIds with
    | .error _ => s
    | .ok (db, _) => { s with db := db }
  | .claim w now =>
    match s.workers w with
    | .idle =>
      match s.db.claim now with
      | none => s
      | some (db, claim) => { s with db := db }.setWorker w (.claimed claim)
    | _ => s
  | .call w now response =>
    match s.workers w with
    | .claimed claim =>
      match claim.items[claim.index]? with
      | none => s
      | some item => s.setWorker w (.answered claim (item.answer now response))
    | _ => s
  | .record w now =>
    match s.workers w with
    | .answered claim item => { s with db := s.db.record claim item now }.setWorker w .idle
    | _ => s
  | .crash w => s.setWorker w .idle

end RiskOps.Control.Jobs
