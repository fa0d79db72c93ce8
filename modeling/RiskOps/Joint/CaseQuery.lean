import RiskOps.Joint.CaseStoreCounters
import RiskOps.Joint.Evidence
import RiskOps.Lib.Base64
import RiskOps.Lib.PyJsonAscii

/-!
# RiskOps.Joint.CaseQuery — the list of joint cases

Model of `joint_case_query.JointCaseQuery.list_cases` with its filters and its snapshot token.

**Summaries.** A row of `joint_revision_summaries` is what `_summary_values` takes from the payload
of the revision it is inserted with, so the rows are read off the revisions (`Store.summaryRows`).

**Tokens.** A token is the canonical JSON of everything that decides about the list, in base64; a
token that is handed in is decoded, compared field by field and printed again.

`datetime.fromisoformat` is the parameter `fromisoformat`. The schema of the database and the
deadline of a query are not modelled.
-/

namespace RiskOps.Joint

open RiskOps.Lib.PyJson
open RiskOps.Lib (Str)
open RiskOps.JointEvidence (isIdentifier isLowerHex isIp ip Digest maxTimeUs)

/-- The codes of the `CaseStoreError`s a query raises. -/
inductive QueryError
  | invalidRequest | refreshRequired | scopeMismatch | storeCorrupt | capacityExceeded
  deriving Repr, DecidableEq

/-! ### Filters -/

/-- What `fromisoformat` reads: the offset from UTC, if there is one, and the microseconds of the
clock it shows since 1970, both without the zone. -/
structure IsoTime where
  offset : Option Int
  micros : Int
  deriving Repr, DecidableEq

/-- Year, month and day of a day number. -/
def civil (day : Nat) : Nat × Nat × Nat :=
  let z := day + 719468
  let era := z / 146097
  let doe := z % 146097
  let yoe := (doe - doe / 1460 + doe / 36524 - doe / 146096) / 365
  let doy := doe - (365 * yoe + yoe / 4 - yoe / 100)
  let mp := (5 * doy + 2) / 153
  let month := if mp < 10 then mp + 3 else mp - 9
  (yoe + era * 400 + (if month ≤ 2 then 1 else 0), month, doy - (153 * mp + 2) / 5 + 1)

/-- The last digits of a number. -/
def lastDigits (width n : Nat) : List Char :=
  (List.range width).reverse.map fun i => Nat.digitChar (n / 10 ^ i % 10)

/-- `isoformat(timespec='microseconds').replace('+00:00','Z')` of a UTC time. -/
def isoMicros (t : Nat) : String :=
  let (year, month, day) := civil (t / 86400000000)
  let second := t / 1000000 % 86400
  String.ofList (lastDigits 4 year ++ '-' :: lastDigits 2 month ++ '-' :: lastDigits 2 day
    ++ 'T' :: lastDigits 2 (second / 3600) ++ ':' :: lastDigits 2 (second / 60 % 60)
    ++ ':' :: lastDigits 2 (second % 60) ++ '.' :: lastDigits 6 (t % 1000000) ++ ['Z'])

example : isoMicros 1709210096000007 = "2024-02-29T12:34:56.000007Z" := by decide +kernel

/-- `value.replace('Z','+00:00')`. -/
def zoneText (s : String) : String :=
  String.ofList (s.toList.flatMap fun c => if c = 'Z' then ['+', '0', '0', ':', '0', '0'] else [c])

/-- A member of a request that is text, or missing. -/
def optionalText : Option Value → Except QueryError (Option String)
  | none => .ok none
  | some .null => .ok none
  | some (.str s) =>
    match Str.encode s with
    | some s => .ok (some s)
    | none => .error .invalidRequest
  | _ => .error .invalidRequest

/-- `_timestamp(value)`. -/
def timestamp (fromisoformat : String → Option IsoTime) :
    Option String → Except QueryError (Option Nat)
  | none => .ok none
  | some s =>
    if 40 < s.toList.length then .error .invalidRequest
    else
      match fromisoformat (zoneText s) with
      | some ⟨some 0, .ofNat t⟩ => .ok (some t)
      | _ => .error .invalidRequest

/-- `_STATES`. -/
def caseStates : List String := ["linked", "unmatched", "partial", "stale", "retracted"]

/-- The filters `normalize_filters` returns. -/
structure Filters where
  ip : Option String
  assetId : Option String
  state : Option String
  start : Option Nat
  stop : Option Nat
  deriving Repr, DecidableEq

def filterKeys : List Str := ["ip", "asset_id", "state", "start", "end"].map Str.ofString

/-- A check on a filter that is given. -/
def checkFilter (p : String → Bool) : Option String → Except QueryError (Option String)
  | none => .ok none
  | some s => if p s then .ok (some s) else .error .invalidRequest

/-- An address is replaced by its canonical text. -/
def normalizeIp : Option String → Except QueryError (Option String)
  | none => .ok none
  | some raw =>
    match ip raw with
    | some text => .ok (some text)
    | none => .error .invalidRequest

/-- `normalize_filters(filters)`. -/
def normalizeFilters (fromisoformat : String → Option IsoTime)
    (filters : Option (List (Str × Value))) : Except QueryError Filters := do
  let filters := filters.getD []
  if !filters.all fun m => filterKeys.contains m.1 then throw .invalidRequest
  let get (key : String) := optionalText (filters.lookup (Str.ofString key))
  let address ← normalizeIp (← get "ip")
  let assetId ← checkFilter isIdentifier (← get "asset_id")
  let state ← checkFilter caseStates.contains (← get "state")
  let start ← timestamp fromisoformat (← get "start")
  let stop ← timestamp fromisoformat (← get "end")
  if start.any fun a => stop.any fun b => b < a then throw .invalidRequest
  return ⟨address, assetId, state, start, stop⟩

/-! ### The rows -/

/-- The columns of `joint_revision_summaries` that a list reads. -/
structure SummaryColumns where
  assetId : String
  peerIp : String
  associationState : String
  windowStartUs : Option Int
  windowEndUs : Option Int
  temporalAvailable : Int
  networkCount : Int
  sshCount : Int
  savedCount : Int
  observedCount : Int
  timelineComplete : Int
  deriving Repr, DecidableEq

/-- `value[key]`. -/
def item (v : Value) (key : String) : Option Value :=
  match v with
  | .obj ms => ms.lookup (Str.ofString key)
  | _ => none

def asText : Value → Option String
  | .str s => Str.encode s
  | _ => none

def asInt : Value → Option Int
  | .int n => some n
  | _ => none

/-- An integer, or SQL's `NULL`. -/
def asOptionalInt : Value → Option (Option Int)
  | .null => some none
  | .int n => some (some n)
  | _ => none

/-- `int(value)` of a boolean. -/
def asFlag : Value → Option Int
  | .bool b => some (if b then 1 else 0)
  | _ => none

def asItems : Value → Option (List Value)
  | .arr vs => some vs
  | _ => none

def values : Value → Option (List Value)
  | .obj ms => some (ms.map Prod.snd)
  | _ => none

/-- `_summary_values(case_id, revision, generation, payload)`. -/
def summaryValues (payload : Value) : Option SummaryColumns := do
  let anchor ← item payload "anchor"
  let counts ← item payload "counts"
  let window ← item payload "window"
  let network ← (← (item counts "network").bind values).mapM asInt
  let ssh ← (← (item counts "ssh").bind values).mapM fun x => (item x "evidence").bind asInt
  let timeline ← (item payload "timeline").bind asItems
  return {
    assetId := ← (item payload "asset_id").bind asText
    peerIp := ← (item anchor "src_ip").bind asText
    associationState := ← (item payload "state").bind asText
    windowStartUs := ← (item window "start_us").bind asOptionalInt
    windowEndUs := ← (item window "end_us").bind asOptionalInt
    temporalAvailable := ← (item payload "temporal_association_available").bind asFlag
    networkCount := network.sum
    sshCount := ssh.sum
    savedCount := timeline.length
    observedCount := ← (item payload "observed_evidence_count").bind asInt
    timelineComplete := ← (item payload "timeline_complete").bind asFlag }

/-- A row of `joint_revision_summaries`. -/
structure CaseItem where
  caseId : String
  revision : Nat
  publishGeneration : Nat
  columns : SummaryColumns
  deriving Repr, DecidableEq

/-- The recursion limit of the decoder. -/
def decodeDepth : Nat := 900

/-- The row `_summary` inserts with a revision; a payload it cannot take the values from is not
published. -/
def RevisionRow.item (v : RevisionRow) : Option CaseItem :=
  match loads decodeDepth (Str.ofString v.projectionJson) with
  | .ok payload => (summaryValues payload).map (CaseItem.mk v.caseId v.revision v.publishGeneration)
  | .error _ => none

def Store.summaryRows (s : Store) : List CaseItem := s.revisions.filterMap RevisionRow.item

/-- `JOINT-[0-9a-f]{32}`. -/
def isCaseId (s : String) : Bool :=
  s.toList.take 6 = ['J', 'O', 'I', 'N', 'T', '-'] && s.toList.length = 38
    && (s.toList.drop 6).all isLowerHex

/-- `typeof(x)='text' AND length(CAST(x AS BLOB))<=128`. -/
def boundedText (s : String) : Bool := s.utf8ByteSize ≤ 128

/-- The checks on a row. -/
def CaseItem.valid (i : CaseItem) : Bool :=
  let c := i.columns
  boundedText i.caseId && boundedText c.assetId && boundedText c.peerIp
    && boundedText c.associationState && isCaseId i.caseId && caseStates.contains c.associationState
    && [c.temporalAvailable, c.networkCount, c.sshCount, c.savedCount, c.observedCount,
      c.timelineComplete].all (0 ≤ ·)
    && (c.temporalAvailable = 0 || c.temporalAvailable = 1)
    && (c.timelineComplete = 0 || c.timelineComplete = 1) && isIp c.peerIp
    && decide (1 ≤ i.revision ∧ 1 ≤ i.publishGeneration)
    && decide (c.networkCount ≤ 5000 ∧ c.sshCount ≤ 5000 ∧ c.savedCount ≤ 1000
      ∧ c.savedCount ≤ c.observedCount ∧ c.networkCount + c.sshCount = c.observedCount)
    && decide (c.timelineComplete = 1 ↔ c.savedCount = c.observedCount)
    && (if c.temporalAvailable = 1 then
        match c.windowStartUs, c.windowEndUs with
        | some a, some b => 0 ≤ a && a ≤ b && b ≤ maxTimeUs
        | _, _ => false
      else c.windowStartUs = none && c.windowEndUs = none)

/-! ### The token -/

/-- A database file: what `joint_meta` and `joint_runtime` say of it, and its rows. -/
structure StoreFile where
  storeId : String
  queryEpoch : String
  scopeSha : String
  scopeJson : String
  limits : StoreLimits
  store : Store

/-- An opened query. -/
structure CaseQuery where
  scopeSha : Digest
  scopeJson : String
  limits : StoreLimits
  catalogMinSeq : Nat

/-- `[0-9a-f]{32}`. -/
def isIdentity (s : String) : Bool := s.toList.length = 32 && s.toList.all isLowerHex

/-- `_connection()`. -/
def CaseQuery.connection (q : CaseQuery) (f : StoreFile) : Except QueryError Unit :=
  if f.scopeSha ≠ q.scopeSha.val || f.scopeJson ≠ q.scopeJson || f.limits ≠ q.limits
      || f.store.runtime.catalogMinSeq ≠ q.catalogMinSeq then .error .scopeMismatch
  else if !isIdentity f.storeId || !isIdentity f.queryEpoch || !f.store.queryable q.limits then
    .error .storeCorrupt
  else .ok ()

def optionalValue : Option String → Value
  | none => .null
  | some s => .str (Str.ofString s)

/-- The members of `filters`, in the order of their keys. -/
def Filters.members (x : Filters) : List (Str × Value) :=
  [(Str.ofString "asset_id", optionalValue x.assetId),
    (Str.ofString "end", optionalValue (x.stop.map isoMicros)),
    (Str.ofString "ip", optionalValue x.ip),
    (Str.ofString "start", optionalValue (x.start.map isoMicros)),
    (Str.ofString "state", optionalValue x.state)]

/-- `dict(fixed, generation=…)`, in the order of its keys. -/
def tokenValue (q : CaseQuery) (f : StoreFile) (x : Filters) (generation : Nat) : Value :=
  .obj [(Str.ofString "filters", .obj x.members), (Str.ofString "generation", .int generation),
    (Str.ofString "query_epoch", .str (Str.ofString f.queryEpoch)), (Str.ofString "schema", .int 2),
    (Str.ofString "scope", .str (Str.ofString q.scopeSha.val)),
    (Str.ofString "store_id", .str (Str.ofString f.storeId)), (Str.ofString "version", .int 1)]

/-- `value == n`: a float is equal when it is printed as `n.0`. -/
def equalsInt (n : Nat) : Value → Bool
  | .int m => m = n
  | .bool b => b && n = 1
  | .float l => l = dumpInt n ++ [46, 48]
  | _ => false

def equalsText (s : String) : Value → Bool
  | .str t => t = Str.ofString s
  | _ => false

def equalsOptional : Option String → Value → Bool
  | none, .null => true
  | some s, v => equalsText s v
  | none, _ => false

/-- `value == filters`. -/
def Filters.equals (x : Filters) (v : Value) : Bool :=
  let get (key : String) (s : Option String) := (item v key).any (equalsOptional s)
  match v with
  | .obj ms => ms.length = 5 && get "asset_id" x.assetId && get "end" (x.stop.map isoMicros)
      && get "ip" x.ip && get "start" (x.start.map isoMicros) && get "state" x.state
  | _ => false

/-- The checks on a decoded token: the generation it names. -/
def checkToken (q : CaseQuery) (f : StoreFile) (x : Filters) (v : Value) : Option Nat :=
  match v with
  | .obj ms =>
    if ms.length = 7 && (item v "version").any (equalsInt 1) && (item v "schema").any (equalsInt 2)
        && (item v "store_id").any (equalsText f.storeId)
        && (item v "query_epoch").any (equalsText f.queryEpoch)
        && (item v "scope").any (equalsText q.scopeSha.val) && (item v "filters").any x.equals then
      match item v "generation" with
      | some (.int (.ofNat g)) => if g ≤ f.store.counters.committedGeneration then some g else none
      | _ => none
    else none
  | _ => none

/-- The text of a token. -/
def tokenText (v : Value) : Str := Lib.Base64.encode (dumpsAscii v)

/-- `_snapshot(snapshot, meta, runtime, filters)` of a token that is handed in. -/
def readToken (q : CaseQuery) (f : StoreFile) (x : Filters) (snapshot : Str) :
    Option (Value × Nat) := do
  guard (snapshot.length ≤ 4096 ∧ ∀ c ∈ snapshot, c < 128)
  let raw ← Lib.Base64.decode snapshot
  guard (∀ c ∈ raw, c < 128)
  match loads decodeDepth raw with
  | .error _ => none
  | .ok v =>
    let generation ← checkToken q f x v
    guard (dumpsAscii (sortKeys v) = raw)
    return (v, generation)

/-- `_snapshot(snapshot, meta, runtime, filters)`. -/
def snapshotOf (q : CaseQuery) (f : StoreFile) (x : Filters) :
    Option Str → Except QueryError (Str × Nat)
  | none =>
    let generation := f.store.counters.committedGeneration
    .ok (tokenText (tokenValue q f x generation), generation)
  | some snapshot =>
    match readToken q f x snapshot with
    | some (v, generation) => .ok (tokenText (sortKeys v), generation)
    | none => .error .refreshRequired

/-! ### The list -/

/-- The latest row of each case up to a generation. -/
def latest (generation : Nat) (rows : List CaseItem) : List CaseItem :=
  rows.filter fun r => r.publishGeneration ≤ generation && rows.all fun r' =>
    !(r'.caseId = r.caseId && r'.publishGeneration ≤ generation)
      || r'.publishGeneration ≤ r.publishGeneration

/-- The `WHERE` clauses. -/
def Filters.selects (x : Filters) (r : CaseItem) : Bool :=
  let c := r.columns
  x.ip.all (· = c.peerIp) && x.assetId.all (· = c.assetId) && x.state.all (· = c.associationState)
    && x.start.all (fun start => c.temporalAvailable = 1 && c.windowEndUs.any ((start : Int) ≤ ·))
    && x.stop.all fun stop => c.temporalAvailable = 1 && c.windowStartUs.any (· ≤ (stop : Int))

/-- `ORDER BY s.publish_generation DESC,s.case_id`. -/
def orderItems (rows : List CaseItem) : List CaseItem :=
  rows.insertionSort fun a b => b.publishGeneration < a.publishGeneration
    ∨ b.publishGeneration = a.publishGeneration ∧ a.caseId ≤ b.caseId

/-- The selected rows, in their order. -/
def selected (x : Filters) (generation : Nat) (rows : List CaseItem) : List CaseItem :=
  orderItems ((latest generation rows).filter x.selects)

structure Listing where
  items : List CaseItem
  page : Nat
  totalPages : Nat
  total : Nat
  snapshot : Str
  currentGeneration : Nat
  deriving Repr, DecidableEq

/-- An item as it is returned, in the order of its keys. -/
def CaseItem.value (i : CaseItem) : Value :=
  let c := i.columns
  let int (n : Option Int) : Value := (n.map Value.int).getD .null
  .obj [(Str.ofString "asset_id", .str (Str.ofString c.assetId)),
    (Str.ofString "association_state", .str (Str.ofString c.associationState)),
    (Str.ofString "case_id", .str (Str.ofString i.caseId)),
    (Str.ofString "network_count", .int c.networkCount),
    (Str.ofString "observed_count", .int c.observedCount),
    (Str.ofString "peer_ip", .str (Str.ofString c.peerIp)),
    (Str.ofString "publish_generation", .int i.publishGeneration),
    (Str.ofString "revision", .int i.revision), (Str.ofString "saved_count", .int c.savedCount),
    (Str.ofString "ssh_count", .int c.sshCount),
    (Str.ofString "temporal_available", .bool (c.temporalAvailable = 1)),
    (Str.ofString "timeline_complete", .bool (c.timelineComplete = 1)),
    (Str.ofString "window_end_us", int c.windowEndUs),
    (Str.ofString "window_start_us", int c.windowStartUs)]

def Listing.value (l : Listing) : Value :=
  .obj [(Str.ofString "current_generation", .int l.currentGeneration),
    (Str.ofString "items", .arr (l.items.map CaseItem.value)), (Str.ofString "page", .int l.page),
    (Str.ofString "snapshot", .str l.snapshot), (Str.ofString "total", .int l.total),
    (Str.ofString "total_pages", .int l.totalPages)]

/-- `LIST_BYTES`. -/
def listBytes : Nat := 128 * 1024

/-- The part of `list_cases` after the token. -/
def listAt (q : CaseQuery) (f : StoreFile) (x : Filters) (page limit : Nat) (token : Str)
    (generation : Nat) : Except QueryError Listing :=
  let rows := selected x generation f.store.summaryRows
  let total := rows.length
  if q.limits.registrationLimit < total then .error .storeCorrupt
  else
    let items := (rows.drop ((page - 1) * limit)).take limit
    if !items.all CaseItem.valid then .error .storeCorrupt
    else
      let result : Listing := ⟨items, page, max 1 ((total + limit - 1) / limit), total, token,
        f.store.counters.committedGeneration⟩
      if listBytes < (dumpsAscii result.value).length then .error .capacityExceeded else .ok result

/-- `list_cases(filters, page=…, limit=…, snapshot=…)`. -/
def listCases (fromisoformat : String → Option IsoTime) (q : CaseQuery) (f : StoreFile)
    (filters : Option (List (Str × Value))) (page limit : Nat) (snapshot : Option Str) :
    Except QueryError Listing := do
  if !(1 ≤ page && page ≤ 1000 && 1 ≤ limit && limit ≤ 50) then throw .invalidRequest
  let x ← normalizeFilters fromisoformat filters
  q.connection f
  let (token, generation) ← snapshotOf q f x snapshot
  listAt q f x page limit token generation

end RiskOps.Joint
