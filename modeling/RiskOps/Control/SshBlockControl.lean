import RiskOps.Lib.IpAddress
import RiskOps.Lib.Json
import RiskOps.Lib.Regex
import RiskOps.Lib.Run
import RiskOps.Lib.Table

/-!
# RiskOps.Control.SshBlockControl — the firewall control helper

Model of `scripts/ssh_block_control.py`: **one request, one atomic nft batch, one
receipt.** A request adds or deletes a block on an address and channel. The helper
first stores what it intends (a *pending* receipt), then sends the batch, reads the
table back and stores what it found.

The world is what survives a call: the store (blocks and receipts) and the sets
installed in the firewall. What the outside decides is an argument of the call: the
clock readings, what the firewall commands answer, whether the batch was applied when
its answer leaves that open, and whether the helper dies on the way. Addresses are
values, not text: `canonical_ip` maps every spelling of an address to one value.
`sha256` (hex digest) and `collapse` (`ipaddress.collapse_addresses`) are parameters.
-/

namespace RiskOps.Control

open RiskOps.Lib

/-! ### Addresses, channels and keys -/

/-- What `canonical_ip` returns: an address without zone that is not IPv4-mapped. -/
structure HostIp where
  addr : IpAddress
  unmapped : addr.ipv4Mapped = none
  deriving DecidableEq

/-- The two address families. -/
inductive Version where
  | four
  | six
  deriving DecidableEq, Repr

/-- `ipaddress.ip_address(ip).version`. -/
def HostIp.version (ip : HostIp) : Version :=
  match ip.addr with
  | .v4 _ => .four
  | .v6 _ _ => .six

/-- `network.version`. -/
def netVersion : Network → Version
  | .v4 _ _ => .four
  | .v6 _ _ => .six

/-- `CHANNELS`. -/
inductive Channel where
  | ssh
  | tcp
  | udp
  deriving DecidableEq, Repr

/-- The channel's text. -/
def Channel.text : Channel → List Char
  | .ssh => "ssh".toList
  | .tcp => "tcp".toList
  | .udp => "udp".toList

/-- `MAX_BLOCKS`. -/
def maxBlocks : Nat := 4096

/-- The codes of replies and of raised `ControlError`s. -/
inductive Code where
  | verified
  | idempotentReplay
  | requestIdConflict
  | protectedAddress
  | deadlineOutOfRange
  | capacityReached
  | pendingVerification
  | verificationFailed
  | protectionVerificationFailed
  | invalidNftElements
  | commandTimeout
  | commandUnavailable
  | outputLimit
  | nftRejected
  | commandFailed
  | invalidCommandOutput
  | invalidNftState
  | firewallSchemaMismatch
  | invalidRequest
  | invalidVersion
  | wrongSource
  | invalidRequestId
  | invalidAction
  | invalidIp
  | invalidChannel
  | missingTarget
  | missingDeadline
  | invalidDeadline
  | invalidTtl
  | unexpectedDeadline
  deriving DecidableEq, Repr

/-- `canonical_ip`. -/
def canonicalIp : Json → Except Code HostIp
  | .str s =>
    if 45 < s.length ∨ '%' ∈ s ∨ '/' ∈ s then .error .invalidIp
    else match IpAddress.parse s with
      | none => .error .invalidIp
      | some address =>
        match h : address.ipv4Mapped with
        | some mapped => .ok ⟨.v4 mapped, rfl⟩
        | none => .ok ⟨address, h⟩
  | _ => .error .invalidIp

/-- `protected_ip`. -/
def protectedIp (ip : HostIp) (networks : List Network) : Bool :=
  ip.addr.isLoopback || ip.addr.isLinkLocal || ip.addr.isMulticast || ip.addr.isUnspecified
    || networks.any (·.contains ip.addr)

/-! ### Requests -/

/-- What a block is stored under. -/
structure Key where
  ip : HostIp
  channel : Channel
  deriving DecidableEq

/-- What a request asks for. `status` and `check` may select an address or channel. -/
inductive Action where
  | add (key : Key) (expiresAt : Option Int) (ttlSeconds : Option Int)
  | delete (key : Key)
  | status (ip : Option HostIp) (channel : Option Channel)
  | check (ip : Option HostIp) (channel : Option Channel)
  deriving DecidableEq

/-- The action's name. -/
def Action.name : Action → List Char
  | .add .. => "add".toList
  | .delete _ => "delete".toList
  | .status .. => "status".toList
  | .check .. => "check".toList

/-- The action writes: `request['action'] in ('add', 'delete')`. -/
def Action.writes : Action → Bool
  | .add .. => true
  | .delete _ => true
  | .status .. => false
  | .check .. => false

/-- A validated request. -/
structure Request where
  sourceId : List Char
  requestId : List Char
  action : Action
  deriving DecidableEq

/-- The validated configuration `execute` reads. -/
structure Config where
  sourceId : List Char
  sshPorts : List Nat
  maxTtlSeconds : Int

/-- `SAFE_ID`. -/
def safeId : Regex :=
  let alnum := fun c : Char => ('A' ≤ c && c ≤ 'Z') || ('a' ≤ c && c ≤ 'z') || ('0' ≤ c && c ≤ '9')
  .seq (.cls alnum)
    (.rep (fun c => alnum c || c = '_' || c = '.' || c = ':' || c = '-') 0 (some 127) true)

/-- The fields a request may carry. -/
def requestFields : List (List Char) :=
  ["version", "source_id", "action", "request_id", "ip", "channel", "expires_at",
    "ttl_seconds"].map String.toList

/-- The optional `ip` of a request. -/
def readIp (raw : List (List Char × Json)) : Except Code (Option HostIp) :=
  match Json.get? raw "ip".toList with
  | none => .ok none
  | some value => (canonicalIp value).map some

/-- The optional `channel` of a request. -/
def readChannel (raw : List (List Char × Json)) : Except Code (Option Channel) :=
  match Json.get? raw "channel".toList with
  | none => .ok none
  | some (.str s) =>
    match [Channel.ssh, .tcp, .udp].find? (·.text = s) with
    | some channel => .ok (some channel)
    | none => .error .invalidChannel
  | some _ => .error .invalidChannel

/-- The deadline of an `add`. -/
def readDeadline (raw : List (List Char × Json)) : Except Code (Option Int) :=
  match Json.get? raw "expires_at".toList with
  | none => .error .missingDeadline
  | some .null => .ok none
  | some (.int n) => if n ≤ 0 then .error .invalidDeadline else .ok (some n)
  | some _ => .error .invalidDeadline

/-- The optional `ttl_seconds` of an `add`. -/
def readTtl (raw : List (List Char × Json)) (config : Config) : Except Code (Option Int) :=
  match Json.get? raw "ttl_seconds".toList with
  | none => .ok none
  | some (.int n) =>
    if 1 ≤ n ∧ n ≤ config.maxTtlSeconds then .ok (some n) else .error .invalidTtl
  | some _ => .error .invalidTtl

/-- The target of an `add` or `delete`. -/
def readTarget (ip : Option HostIp) (channel : Option Channel) : Except Code Key :=
  match ip, channel with
  | some ip, some channel => .ok ⟨ip, channel⟩
  | _, _ => .error .missingTarget

/-- A request other than `add` carries no deadline. -/
def noDeadline (raw : List (List Char × Json)) : Except Code Unit :=
  if (Json.get? raw "expires_at".toList).isSome ∨ (Json.get? raw "ttl_seconds".toList).isSome then
    .error .unexpectedDeadline
  else .ok ()

/-- The action of a request, its target and deadline checked. -/
def readAction (raw : List (List Char × Json)) (config : Config) (action : List Char) :
    Except Code Action := do
  let ip ← readIp raw
  let channel ← readChannel raw
  if action = "add".toList then
    let key ← readTarget ip channel
    let deadline ← readDeadline raw
    let ttl ← readTtl raw config
    return .add key deadline ttl
  else if action = "delete".toList then
    let key ← readTarget ip channel
    noDeadline raw
    return .delete key
  else
    noDeadline raw
    return if action = "status".toList then .status ip channel else .check ip channel

/-- `validate_request`. -/
def validateRequest (config : Config) : Json → Except Code Request
  | .obj raw =>
    if raw.any (fun m => !requestFields.contains m.1) then .error .invalidRequest
    else match Json.get? raw "version".toList with
      | some (.int 1) =>
        match Json.get? raw "source_id".toList with
        | some (.str source) =>
          if source ≠ config.sourceId then .error .wrongSource
          else match Json.get? raw "request_id".toList with
            | some (.str requestId) =>
              if (safeId.fullmatch requestId).isNone then .error .invalidRequestId
              else match Json.get? raw "action".toList with
                | some (.str action) =>
                  if action ∉ ["add", "delete", "status", "check"].map String.toList then
                    .error .invalidAction
                  else (readAction raw config action).map fun a => ⟨source, requestId, a⟩
                | _ => .error .invalidAction
            | _ => .error .invalidRequestId
        | _ => .error .wrongSource
      | _ => .error .invalidVersion
  | _ => .error .invalidRequest

/-- The fields an action adds to the validated request. -/
def Action.fields : Action → List (List Char × Json)
  | .add key expiresAt ttl =>
    [("ip".toList, .str key.ip.addr.toText), ("channel".toList, .str key.channel.text),
      ("expires_at".toList, (expiresAt.map Json.int).getD .null)]
      ++ (ttl.map fun n => ("ttl_seconds".toList, Json.int n)).toList
  | .delete key =>
    [("ip".toList, .str key.ip.addr.toText), ("channel".toList, .str key.channel.text)]
  | .status ip channel =>
    (ip.map fun a => ("ip".toList, Json.str a.addr.toText)).toList
      ++ (channel.map fun c => ("channel".toList, Json.str c.text)).toList
  | .check ip channel =>
    (ip.map fun a => ("ip".toList, Json.str a.addr.toText)).toList
      ++ (channel.map fun c => ("channel".toList, Json.str c.text)).toList

/-- The canonical JSON text of a validated request. -/
def Request.text (request : Request) : List Char :=
  (Json.obj ([("version".toList, .int 1), ("source_id".toList, .str request.sourceId),
      ("action".toList, .str request.action.name), ("request_id".toList, .str request.requestId)]
    ++ request.action.fields)).sortKeys.dumps ⟨true, [','], [':']⟩

/-- `fingerprint`. -/
def fingerprint (sha256 : List Char → List Char) (request : Request) : List Char :=
  sha256 request.text

/-! ### The store -/

/-- A row of `blocks`. -/
structure Block where
  key : Key
  expiresAt : Option Int
  deriving DecidableEq

/-- `status` of a reply. -/
inductive Status where
  | ok
  | error
  | rejected
  | uncertain
  deriving DecidableEq, Repr

/-- What a reply says about the sets it read. -/
inductive Observation where
  | block (blocked : Bool) (expiresAt : Option Int) (remainingSeconds : Option Int)
  | blocks (entries : List (Key × Option Int))
  deriving DecidableEq

/-- A reply; the request it echoes stands for the fields copied from it. -/
structure Reply where
  request : Request
  status : Status
  code : Code
  observed : Option Observation
  previousStatus : Option Status
  tablePresent : Option Bool
  deriving DecidableEq

/-- `reply` without further fields. -/
def reply (request : Request) (status : Status) (code : Code) : Reply :=
  ⟨request, status, code, none, none, none⟩

/-- A row of `receipts`. -/
structure Receipt where
  requestId : List Char
  fingerprint : List Char
  response : Reply
  deriving DecidableEq

/-- `Store`. -/
structure Store where
  blocks : Table Block.key
  receipts : Table Receipt.requestId

/-- The block is still running at `now`. -/
def running (now : ℚ) (expiry : Option Int) : Bool :=
  expiry.all fun e : Int => decide (now < (e : ℚ))

/-- `Store.desired`: the running blocks on addresses that are not protected. -/
def Store.desired (store : Store) (now : ℚ) (networks : List Network) : Table Block.key :=
  store.blocks.delete fun b => !(running now b.expiresAt && !protectedIp b.key.ip networks)

/-- `Store.save`: replaces the blocks; an `add` or `delete` leaves its receipt. -/
def Store.save (sha256 : List Char → List Char) (store : Store) (desired : Table Block.key)
    (request : Request) (response : Reply) : Store :=
  { blocks := desired
    receipts :=
      if request.action.writes then
        store.receipts.replace ⟨request.requestId, fingerprint sha256 request, response⟩
      else store.receipts }

/-! ### The firewall -/

/-- The sets of the helper's table. -/
inductive SetName where
  | allow (version : Version)
  | block (channel : Channel) (version : Version)
  deriving DecidableEq

/-- The rules of the helper's chain: accept from an allow set, drop from a block set
(for `ssh` on the configured ports). -/
inductive Rule where
  | protect (version : Version)
  | drop (channel : Channel) (version : Version) (ports : List Nat)
  deriving DecidableEq

/-- An element of a block set, with its timeout in seconds. -/
structure Element where
  ip : HostIp
  timeout : Option Int
  deriving DecidableEq

/-- The commands of a batch. -/
inductive NftCommand where
  | createTable
  | addChain
  | addSet (name : SetName)
  | addRule (rule : Rule)
  | flush (name : SetName)
  | addNetworks (version : Version) (networks : List Network)
  | addElements (channel : Channel) (version : Version) (elements : List Element)
  deriving DecidableEq

/-- `(4, 6)`. -/
def versions : List Version := [.four, .six]

/-- `CHANNELS` in order. -/
def channels : List Channel := [.ssh, .tcp, .udp]

/-- `expected_rules`. -/
def expectedRules (config : Config) : List Rule :=
  versions.map .protect ++ channels.flatMap fun channel => versions.map fun version =>
    .drop channel version (if channel = .ssh then config.sshPorts else [])

/-- `create_commands`. -/
def createCommands (config : Config) : List NftCommand :=
  [.createTable, .addChain]
    ++ versions.flatMap (fun version =>
        .addSet (.allow version) :: channels.map fun channel => .addSet (.block channel version))
    ++ (expectedRules config).map .addRule

/-- The elements of one block set: a block that ends within the second is left out. -/
def elementsOf (desired : Table Block.key) (now : ℚ) (channel : Channel) (version : Version) :
    List Element :=
  desired.rows.filterMap fun b =>
    if b.key.channel ≠ channel ∨ b.key.ip.version ≠ version then none
    else match b.expiresAt with
      | none => some ⟨b.key.ip, none⟩
      | some expiry =>
        if 1 ≤ ⌊(expiry : ℚ) - now⌋ then some ⟨b.key.ip, some ⌊(expiry : ℚ) - now⌋⟩ else none

/-- The commands for one block set. -/
def blockCommands (flushed : Bool) (desired : Table Block.key) (now : ℚ) (version : Version)
    (channel : Channel) : List NftCommand :=
  (if flushed then [.flush (.block channel version)] else [])
    ++ (if elementsOf desired now channel version = [] then []
        else [.addElements channel version (elementsOf desired now channel version)])

/-- The commands for one version: its allow set, then its block sets. -/
def versionCommands (flushed : Bool) (networks : List Network) (desired : Table Block.key)
    (now : ℚ) (version : Version) : List NftCommand :=
  let elements := networks.filter (netVersion · = version)
  (if flushed then [.flush (.allow version)] else [])
    ++ (if elements = [] then [] else [.addNetworks version elements])
    ++ channels.flatMap (blockCommands flushed desired now version)

/-- The batch `Firewall.apply` sends. -/
def applyBatch (config : Config) (networks : List Network) (desired : Table Block.key)
    (present : Bool) (now : ℚ) : List NftCommand :=
  (if present then [] else createCommands config)
    ++ versions.flatMap (versionCommands present networks desired now)

/-- An element as `nft list` prints it: its set, its value, and for one with a timeout
the seconds left when they are a number. -/
structure ListedElement where
  channel : Channel
  version : Version
  val : Json
  timed : Bool
  expires : Option ℚ

/-- A listing of the helper's table that matches its schema: the allow sets when they
can be read, and the elements of the block sets. -/
structure Listing where
  allow : Option (List Network)
  elements : List ListedElement

/-- `Firewall.blocks`: what the block sets hold, with absolute deadlines. -/
def listedBlocks (now : ℚ) : List ListedElement → List (Key × Option ℚ) →
    Except Code (List (Key × Option ℚ))
  | [], found => .ok found
  | e :: es, found =>
    match canonicalIp e.val with
    | .error code => .error code
    | .ok ip =>
      if ip.version ≠ e.version then .error .invalidNftElements
      else if e.timed && (e.expires.isNone || e.expires.any (· < 0)) then
        .error .invalidNftElements
      else if (found.lookup ⟨ip, e.channel⟩).isSome then .error .invalidNftElements
      else listedBlocks now es
        (found ++ [(⟨ip, e.channel⟩, if e.timed then e.expires.map (now + ·) else none)])

/-- How `Firewall.read` can fail. -/
inductive ReadFailure where
  | timeout
  | unavailable
  | tooLong
  | failed
  | unreadable
  | invalidState
  | schemaMismatch
  deriving DecidableEq

/-- The code it raises then. -/
def ReadFailure.code : ReadFailure → Code
  | .timeout => .commandTimeout
  | .unavailable => .commandUnavailable
  | .tooLong => .outputLimit
  | .failed => .commandFailed
  | .unreadable => .invalidCommandOutput
  | .invalidState => .invalidNftState
  | .schemaMismatch => .firewallSchemaMismatch

/-- What `Firewall.read` comes to. -/
inductive ReadOutcome where
  | failed (failure : ReadFailure)
  | absent
  | table (listing : Listing)

/-- `Firewall.blocks(Firewall.read(…))`. -/
def ReadOutcome.blocks (now : ℚ) : ReadOutcome → Except Code (List (Key × Option ℚ))
  | .failed failure => .error failure.code
  | .absent => .ok []
  | .table listing => listedBlocks now listing.elements []

/-- `current is not None`. -/
def ReadOutcome.present : ReadOutcome → Bool
  | .table _ => true
  | _ => false

/-- What the batch comes to. When no definite answer arrives, whether it was applied is
not known to the helper. -/
inductive BatchOutcome where
  | done
  | refused
  | unavailable
  | timeout (applied : Bool)
  | tooLong (applied : Bool)
  | unreadable (applied : Bool)
  deriving DecidableEq

/-- The batch took effect. -/
def BatchOutcome.applied : BatchOutcome → Bool
  | .done => true
  | .refused => false
  | .unavailable => false
  | .timeout applied => applied
  | .tooLong applied => applied
  | .unreadable applied => applied

/-- The code `run_command` raises for the batch. -/
def BatchOutcome.code? : BatchOutcome → Option Code
  | .done => none
  | .refused => some .nftRejected
  | .unavailable => some .commandUnavailable
  | .timeout _ => some .commandTimeout
  | .tooLong _ => some .outputLimit
  | .unreadable _ => some .invalidCommandOutput

/-- What a set holds: networks, or elements with absolute deadlines. -/
@[ext] structure Installed where
  allow : Version → List Network
  block : Channel → Version → List (HostIp × Option ℚ)

/-- What one command of a batch does to the table when the batch runs at `now`. -/
def runNft (now : ℚ) : Option Installed → NftCommand → Option Installed
  | _, .createTable => some ⟨fun _ => [], fun _ _ => []⟩
  | none, _ => none
  | some sets, .flush (.allow version) =>
    some { sets with allow := fun v => if v = version then [] else sets.allow v }
  | some sets, .flush (.block channel version) =>
    some { sets with
      block := fun c v => if c = channel ∧ v = version then [] else sets.block c v }
  | some sets, .addNetworks version networks =>
    some { sets with
      allow := fun v => if v = version then sets.allow v ++ networks else sets.allow v }
  | some sets, .addElements channel version elements =>
    some { sets with
      block := fun c v =>
        if c = channel ∧ v = version then
          sets.block c v ++ elements.map fun e => (e.ip, e.timeout.map fun t => now + (t : ℚ))
        else sets.block c v }
  | some sets, _ => some sets

/-! ### One call -/

/-- Where the helper can die after the pending receipt is stored. -/
inductive Crash where
  | beforeApply
  | afterApply
  deriving DecidableEq

/-- What the helper is called with: a request, or `--restore`, for which `main` makes a
`check` request of its own. -/
inductive Demand where
  | request (raw : Json)
  | restore (stamp : List Char)

/-- The `restore` argument of `execute`. -/
def Demand.restores : Demand → Bool
  | .request _ => false
  | .restore _ => true

/-- The validated request of a call. -/
def Demand.read (config : Config) : Demand → Except Code Request
  | .request raw => validateRequest config raw
  | .restore stamp => .ok ⟨config.sourceId, "restore-".toList ++ stamp, .check none none⟩

/-- One call of the helper with everything the outside decides. -/
structure Call where
  demand : Demand
  networks : List Network
  now : ℚ
  applyNow : ℚ
  readNow : ℚ
  read : ReadOutcome
  batch : BatchOutcome
  readback : ReadOutcome
  crash : Option Crash

/-- What survives a call. -/
structure World where
  store : Store
  firewall : Option Installed

/-- How a call ends. -/
inductive Outcome where
  | raised (code : Code)
  | replied (reply : Reply)
  | crashed
  deriving DecidableEq

/-- What the call goes on to do: the intent to store, and the blocks to fall back to. -/
structure Intent where
  request : Request
  previous : Table Block.key
  desired : Table Block.key

section Execute

variable (sha256 : List Char → List Char) (collapse : List Network → List Network)
variable (config : Config)

/-- The selection of a `status` or `check`. -/
def Action.selects (action : Action) (key : Key) : Bool :=
  match action with
  | .status ip channel => ip.all (· = key.ip) && channel.all (· = key.channel)
  | .check ip channel => ip.all (· = key.ip) && channel.all (· = key.channel)
  | _ => true

/-- The single block a request is about, when it names both an address and a channel. -/
def Action.key? : Action → Option Key
  | .add key _ _ => some key
  | .delete key => some key
  | .status (some ip) (some channel) => some ⟨ip, channel⟩
  | .check (some ip) (some channel) => some ⟨ip, channel⟩
  | _ => none

/-- The deadline shown for a block: the stored one where both have one. -/
def shownExpiry (desired : Table Block.key) (key : Key) (expiry : Option ℚ) : Option ℚ :=
  match expiry, (desired.find? key).bind Block.expiresAt with
  | some _, some original => some (original : ℚ)
  | expiry, _ => expiry

/-- `sorted(blocks.items())`. -/
def sortBlocks (blocks : List (Key × Option ℚ)) : List (Key × Option ℚ) :=
  blocks.insertionSort fun a b =>
    a.1.ip.addr.toText < b.1.ip.addr.toText ∨
      a.1.ip.addr.toText = b.1.ip.addr.toText ∧ a.1.channel.text ≤ b.1.channel.text

/-- What `observed_reply` reports. -/
def observe (action : Action) (blocks : List (Key × Option ℚ)) (desired : Table Block.key)
    (now : ℚ) : Observation :=
  match action.key? with
  | some key =>
    let expiry := (blocks.lookup key).bind (shownExpiry desired key)
    .block (blocks.lookup key).isSome (expiry.map (⌈·⌉)) (expiry.map fun e => max 0 ⌊e - now⌋)
  | none =>
    .blocks ((sortBlocks (blocks.filter fun b => action.selects b.1)).map fun b =>
      (b.1, (shownExpiry desired b.1 b.2).map (⌈·⌉)))

/-- The blocks an `add` or `delete` asks for. -/
def Action.intend (action : Action) (desired : Table Block.key) : Table Block.key :=
  match action with
  | .add key expiresAt _ => desired.replace ⟨key, expiresAt⟩
  | .delete key => desired.delete fun b => b.key = key
  | _ => desired

/-- The checks of a first `add`: the address, then the deadline. -/
def refusal (action : Action) (networks : List Network) (now : ℚ) : Option Code :=
  match action with
  | .add key expiresAt _ =>
    if protectedIp key.ip networks then some .protectedAddress
    else if expiresAt.any fun e : Int =>
        decide ((e : ℚ) ≤ now) || decide ((config.maxTtlSeconds : ℚ) < e - now) then
      some .deadlineOutOfRange
    else none
  | _ => none

/-- The reply that carries a refusal. -/
def refuse (request : Request) (code : Code) : Reply :=
  if code = .protectedAddress then
    { reply request .rejected code with observed := some (.block false none none) }
  else reply request .rejected code

/-- `existing`: the receipt a writing request finds under its id. -/
def existingReceipt (store : Store) (request : Request) : Option Receipt :=
  if request.action.writes then store.receipts.find? request.requestId else none

/-- The id was used for a request of other content. -/
def conflicts (request : Request) (existing : Option Receipt) : Bool :=
  existing.any fun r => r.fingerprint ≠ fingerprint sha256 request

/-- `reconcile`: reapply what is stored. -/
def reconciles (call : Call) (existing : Option Receipt) : Bool :=
  call.demand.restores || existing.any fun r => r.response.status = .uncertain

/-- `desired` with the request's change in it. -/
def intended (call : Call) (request : Request) (existing : Option Receipt)
    (desired : Table Block.key) : Table Block.key :=
  if reconciles call existing then desired else request.action.intend desired

/-- `execute` from the first read to the pending receipt. -/
def plan (call : Call) (request : Request) (existing : Option Receipt) (desired : Table Block.key)
    (actual : List (Key × Option ℚ)) : Except Outcome Intent :=
  if !request.action.writes && !call.demand.restores then
    .error (.replied { reply request .ok .verified with
      observed := some (observe request.action actual desired call.now)
      tablePresent := some call.read.present })
  else if existing.isSome && !reconciles call existing then
    .error (.replied { reply request .ok .idempotentReplay with
      observed := some (observe request.action actual desired call.now)
      previousStatus := existing.map fun r => r.response.status })
  else match (if reconciles call existing then none
      else refusal config request.action call.networks call.now) with
    | some code => .error (.replied (refuse request code))
    | none =>
      if maxBlocks < (intended call request existing desired).rows.length then
        .error (.replied (reply request .rejected .capacityReached))
      else .ok ⟨request, desired, intended call request existing desired⟩

/-- The first half of `execute`: everything before the pending receipt is stored. -/
def prepare (w : World) (call : Call) : Except Outcome Intent :=
  match call.demand.read config with
  | .error code => .error (.raised code)
  | .ok request =>
    if conflicts sha256 request (existingReceipt w.store request) then
      .error (.replied (reply request .rejected .requestIdConflict))
    else match call.read.blocks call.now with
      | .error code => .error (.raised code)
      | .ok actual =>
        plan config call request (existingReceipt w.store request)
          (w.store.desired call.now call.networks) actual

/-- `verify_protections`: the allow sets, collapsed, are the networks. -/
def protectionsVerified (networks : List Network) (listing : Listing) : Bool :=
  match listing.allow with
  | none => false
  | some allow =>
    (collapse allow).all (networks.contains ·) && networks.all ((collapse allow).contains ·)

/-- A deadline read back is the stored one, up to rounding and the time the batch took. -/
def deadlineVerified (target : Option Int) (expiry : Option ℚ) : Bool :=
  match expiry, target with
  | none, none => true
  | some e, some t => e ≤ (t : ℚ) + 1 && (t : ℚ) - 12 ≤ e
  | _, _ => false

/-- The sets read back are the ones asked for. -/
def blocksVerified (desired : Table Block.key) (actual : List (Key × Option ℚ)) (now : ℚ) : Bool :=
  actual.all (fun a => (desired.find? a.1).isSome)
    && desired.rows.all (fun b =>
        !running (now + 1) b.expiresAt || (actual.lookup b.key).isSome)
    && actual.all (fun a => deadlineVerified ((desired.find? a.1).bind Block.expiresAt) a.2)

/-- The readback after the batch: the blocks it shows, once everything is verified. -/
def verify (networks : List Network) (desired : Table Block.key) (readback : ReadOutcome) (now : ℚ) :
    Except Code (List (Key × Option ℚ)) :=
  match readback with
  | .failed failure => .error failure.code
  | .absent => .error .verificationFailed
  | .table listing =>
    if !protectionsVerified collapse networks listing then .error .protectionVerificationFailed
    else match listedBlocks now listing.elements [] with
      | .error code => .error code
      | .ok actual =>
        if blocksVerified desired actual now then .ok actual else .error .verificationFailed

/-- A definite failure: the batch was refused or could not be started. -/
def definite (code : Code) : Bool := code = .nftRejected || code = .commandUnavailable

/-- What the batch and the readback after it come to. -/
def batchAnswer (intent : Intent) (call : Call) : Except Code (List (Key × Option ℚ)) :=
  match call.batch.code? with
  | some code => .error code
  | none => verify collapse call.networks intent.desired call.readback call.readNow

/-- The second half of `execute`: the blocks to store and the reply, once the batch
and the readback have answered. -/
def settle (intent : Intent) (call : Call) : Table Block.key × Reply :=
  match batchAnswer collapse intent call with
  | .ok actual =>
    (intent.desired, { reply intent.request .ok .verified with
      observed := some (observe intent.request.action actual intent.desired call.readNow) })
  | .error code =>
    if definite code then (intent.previous, reply intent.request .error code)
    else (intent.desired, reply intent.request .uncertain code)

/-- The batch of a call. -/
def callBatch (intent : Intent) (call : Call) : List NftCommand :=
  applyBatch config call.networks intent.desired call.read.present call.applyNow

/-- The store once the pending receipt is written. -/
def pendingStore (w : World) (intent : Intent) : Store :=
  w.store.save sha256 intent.desired intent.request
    (reply intent.request .uncertain .pendingVerification)

/-- The firewall once the batch has answered. -/
def appliedFirewall (w : World) (intent : Intent) (call : Call) : Option Installed :=
  if call.batch.applied then
    (callBatch config intent call).foldl (runNft call.applyNow) w.firewall
  else w.firewall

/-- `execute`. -/
def execute (w : World) (call : Call) : World × Outcome :=
  match prepare sha256 config w call with
  | .error outcome => (w, outcome)
  | .ok intent =>
    let pending := pendingStore sha256 w intent
    if call.crash = some .beforeApply then (⟨pending, w.firewall⟩, .crashed)
    else
      let firewall := appliedFirewall config w intent call
      if call.crash = some .afterApply then (⟨pending, firewall⟩, .crashed)
      else
        let settled := settle collapse intent call
        (⟨pending.save sha256 settled.1 intent.request settled.2, firewall⟩, .replied settled.2)

end Execute

end RiskOps.Control
