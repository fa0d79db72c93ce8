import RiskOps.Joint.CaseStoreCycles
import RiskOps.Joint.Scope
import RiskOps.Lib.Json

/-!
# RiskOps.Joint.Catalog — pages of the network incident catalogue

Model of `joint_catalog`: `catalog_target` captures the largest sequence number of the catalogue,
`read_catalog_page` reads the heads behind a cursor up to that number, and classifies each by the
bindings of the scope.

**A head and its revision.** The store of the network incidents inserts a row once and then only
replaces its revision and payload, so the columns that identify a row and decide about it are a
structure of their own, `Head`.

The deadline of a read is not modelled; the bytes it counts are.
-/

namespace RiskOps.Joint

open RiskOps.Lib
open RiskOps.JointEvidence (ReadError ReadLimits CaseScope NetworkBinding AssetMapping sqlText
  sqlInteger isIdentifier isDigest isIp isNetId)

/-- What a read of the catalogue raises: an `EvidenceReadError` or a `CaseStoreError`. -/
inductive CatalogError
  | read (e : ReadError)
  | store (e : Refusal)
  deriving Repr, DecidableEq

/-- The columns of `network_incidents` that an update leaves alone. -/
structure Head where
  seq : Nat
  incidentId : String
  sourceId : String
  sourceProfileRevision : String
  srcIp : String
  dstIp : String
  deriving Repr, DecidableEq

/-- A row of `network_incidents`; `parity` says that the header in `payload_json` repeats the
columns. -/
structure HeadRow extends Head where
  revision : Nat
  parity : Bool
  deriving Repr, DecidableEq

structure Catalog where
  applicationId : Int
  userVersion : Int
  /-- The columns the probes name are there. -/
  schema : Bool
  /-- The value of `producer_id`, when the row is there and holds a JSON text. -/
  producerId : Option String
  incidents : List HeadRow
  deriving Repr, DecidableEq

/-- The fields of a `JointRuntimeSpec` that the catalogue uses. -/
structure RuntimeSpec where
  scope : CaseScope
  catalogMinSeq : Nat

/-- `ReadLimits()`. -/
def defaultByteLimit : Nat := 8 * 1024 * 1024

/-- `budget.consume_bytes(amount)`. -/
def consumeBytes (limit bytes amount : Nat) : Except CatalogError Nat :=
  if limit < bytes + amount then .error (.read .limitExceeded) else .ok (bytes + amount)

/-- `_identity(db, spec, budget)`: the producer, and the bytes counted. -/
def Catalog.identity (limit : Nat) (spec : RuntimeSpec) (c : Catalog) :
    Except CatalogError (String × Nat) :=
  if c.applicationId ≠ 0x4E455431 ∨ c.userVersion ≠ 2 ∨ c.schema = false then
    .error (.read .schemaUnavailable)
  else
    match (sqlText 128 c.producerId).filter isIdentifier with
    | none => .error (.read .evidenceInvalid)
    | some producer => do
      let bytes ← consumeBytes limit 0 producer.toList.length
      if producer ≠ spec.scope.producerId.val then throw (.store .anchorMismatch)
      return (producer, bytes)

/-- `_maximum(db)`. -/
def Catalog.maximum (c : Catalog) : Nat := (c.incidents.map fun r => r.seq).foldl max 0

/-- `catalog_target(network_path, spec)`. -/
def catalogTarget (spec : RuntimeSpec) (c : Catalog) : Except CatalogError Nat := do
  let _ ← c.identity defaultByteLimit spec
  if maxInteger < c.maximum then throw (.read .evidenceInvalid)
  return c.maximum

/-! ### One row -/

/-- A text column as the query delivers it. -/
def jsonText (s : Option String) : Json := (s.map fun s => Json.str s.toList).getD .null

/-- `_integer(column)`. -/
def jsonPositive (n : Nat) : Json := if 1 ≤ n then .int n else .null

/-- The row as the query delivers it. -/
def HeadRow.json (r : HeadRow) : Json :=
  .arr [jsonPositive r.seq, jsonPositive r.revision, jsonText (sqlText 36 (some r.incidentId)),
    jsonText (sqlText 128 (some r.sourceId)), jsonText (sqlText 64 (some r.sourceProfileRevision)),
    jsonText (sqlText 64 (some r.srcIp)), jsonText (sqlText 64 (some r.dstIp)),
    .int (if r.parity then 1 else 0)]

/-- `len(json.dumps(list(row), separators=(',', ':'), ensure_ascii=True))`. -/
def HeadRow.bytes (r : HeadRow) : Nat := (Json.dumps ⟨true, [','], [':']⟩ r.json).length

/-- The checks on a row. -/
def HeadRow.wellFormed (r : HeadRow) : Bool :=
  r.parity && decide (1 ≤ r.seq) && (decide (1 ≤ r.revision) && decide (r.revision ≤ 2 ^ 31 - 1))
    && (sqlText 36 (some r.incidentId)).any isNetId && (sqlText 128 (some r.sourceId)).any isIdentifier
    && (sqlText 64 (some r.sourceProfileRevision)).any isDigest
    && (sqlText 64 (some r.srcIp)).any isIp && (sqlText 64 (some r.dstIp)).any isIp

/-- `SKIP_CODES`. -/
inductive SkipReason
  | sourceUnmapped | destinationUnmapped | profileUnmapped
  deriving Repr, DecidableEq

/-- `bindings.get(source_id)`: the last binding of a source wins. -/
def RuntimeSpec.binding (spec : RuntimeSpec) (sourceId : String) : Option NetworkBinding :=
  ((spec.scope.mappings.flatMap AssetMapping.networkBindings).filter fun b =>
    b.sourceId.val = sourceId).getLast?

/-- Why a head is not registered. -/
def RuntimeSpec.reason (spec : RuntimeSpec) (h : Head) : Option SkipReason :=
  match spec.binding h.sourceId with
  | none => some .sourceUnmapped
  | some b =>
    if !b.destinationIps.any fun d => d.val = h.dstIp then some .destinationUnmapped
    else if !b.profileRevisions.any fun p => p.val = h.sourceProfileRevision then
      some .profileUnmapped
    else none

/-- `skipped[reason] = skipped.get(reason, 0)+1`. -/
def SkippedCounts.count (reason : SkipReason) (x : SkippedCounts) : SkippedCounts :=
  match reason with
  | .sourceUnmapped => { x with sourceUnmapped := x.sourceUnmapped + 1 }
  | .destinationUnmapped => { x with destinationUnmapped := x.destinationUnmapped + 1 }
  | .profileUnmapped => { x with profileUnmapped := x.profileUnmapped + 1 }

/-- What the loop over the rows carries. -/
structure PageScan where
  requests : List AnchorRequest
  skipped : SkippedCounts
  bytes : Nat
  deriving Repr, DecidableEq

def HeadRow.request (r : HeadRow) : AnchorRequest := ⟨r.incidentId, r.revision⟩

/-- A row is registered or skipped with its reason. -/
def PageScan.classify (spec : RuntimeSpec) (x : PageScan) (r : HeadRow) : PageScan :=
  match spec.reason r.toHead with
  | none => { x with requests := x.requests ++ [r.request] }
  | some reason => { x with skipped := x.skipped.count reason }

/-- One row. -/
def PageScan.row (limit : Nat) (spec : RuntimeSpec) (x : PageScan) (r : HeadRow) :
    Except CatalogError PageScan := do
  let bytes ← consumeBytes limit x.bytes r.bytes
  if !r.wellFormed then throw (.read .evidenceInvalid)
  return { x.classify spec r with bytes := bytes }

/-! ### One page -/

/-- The heads with `seq>? AND seq<=?`, in the order of their numbers. -/
def Catalog.heads (c : Catalog) (afterSeq targetSeq : Nat) : List HeadRow :=
  (c.incidents.filter fun r => afterSeq < r.seq && r.seq ≤ targetSeq).insertionSort
    fun a b => a.seq ≤ b.seq

/-- `read_catalog_page(network_path, spec, after_seq=…, target_seq=…, limit=…)`. -/
def readCatalogPage (spec : RuntimeSpec) (c : Catalog) (afterSeq targetSeq limit : Nat) :
    Except CatalogError DiscoveryPage := do
  if !(spec.catalogMinSeq - 1 ≤ afterSeq && afterSeq ≤ targetSeq && targetSeq ≤ maxInteger
      && 1 ≤ limit && limit ≤ 50) then throw (.read .invalidRequest)
  let (producer, bytes) ← c.identity defaultByteLimit spec
  if c.maximum < targetSeq then throw (.store .revisionRegression)
  let rows := (c.heads afterSeq targetSeq).take limit
  let scan ← rows.foldlM (PageScan.row defaultByteLimit spec) ⟨[], ⟨0, 0, 0⟩, bytes⟩
  let complete := decide (rows.length < limit) || rows.getLast?.any fun r => r.seq = targetSeq
  -- When a full page ends before a sparse tail, the next invocation completes that tail.
  let nextSeq := if complete then targetSeq else (rows.getLast?.map fun r => r.seq).getD targetSeq
  return ⟨producer, afterSeq, targetSeq, nextSeq, rows.length, complete, scan.requests, scan.skipped⟩

/-! ### The discovery -/

/-- One page behind the cursor of the current discovery is read and applied: the rows that were
read, the new store and the reply. -/
def discoverPage (env : Env) (spec : RuntimeSpec) (limit : Nat) (c : Catalog) (s : Store) :
    Except CatalogError (Store × Reply) :=
  match s.discovery with
  | none => .error (.store .invalidRequest)
  | some d => do
    let page ← readCatalogPage spec c d.cursorSeq d.targetSeq limit
    match applyDiscoveryPage env s d.cycleId d.cursorSeq page with
    | .ok x => .ok x
    | .error e => .error (.store e)

/-- Pages are read, the next one from the next catalogue, until the discovery is complete. The
rows that were read are kept; every page has to be applied. -/
def discoverAll (env : Env) (spec : RuntimeSpec) (limit : Nat) :
    List Catalog → Store → Except CatalogError (Store × List HeadRow)
  | [], s => .ok (s, [])
  | c :: cs, s =>
    match s.discovery with
    | none => .error (.store .invalidRequest)
    | some d => do
      let (s', reply) ← discoverPage env spec limit c s
      if reply ≠ .applied then throw (.store .invalidRequest)
      let (s'', rows) ← discoverAll env spec limit cs s'
      return (s'', (c.heads d.cursorSeq d.targetSeq).take limit ++ rows)

end RiskOps.Joint
