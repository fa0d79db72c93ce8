import RiskOps.Joint.Evidence

/-!
# RiskOps.Joint.Correlate — one revision of a joint case

Model of `joint_evidence.correlate`. A case is built in the order of the source: duplicates are
merged, the mapping may reject the case, the clocks decide whether times can be compared, and the
SSH records of the mapped sources in the window are counted and listed.
-/

namespace RiskOps.JointEvidence

open RiskOps.Lib

/-- The codes of the `ValueError`s of `correlate`. -/
inductive Failure
  | inputByteLimit | projectionByteLimit | networkProvenanceMismatch | conflictingNetworkEvidence
  | invalidEvidenceTotal | conflictingSshAlias | conflictingSshEvidence | ambiguousSshOwnership
  | unresolvedSshAlias | invalidSshEvidence
  deriving Repr, DecidableEq

/-! ### Merging duplicates -/

/-- The record carries the provenance of the case. -/
def NetworkEvidence.belongs (e : NetworkEvidence) (a : Anchor) : Bool :=
  (e.sourceId, e.bootId, e.profileRevision, e.srcIp, e.dstIp) =
    (a.sourceId, a.bootId, a.profileRevision, a.srcIp, a.dstIp)

def addNetwork (a : Anchor) (unique : List NetworkEvidence) (e : NetworkEvidence) :
    Except Failure (List NetworkEvidence) :=
  if e.belongs a then
    match unique.find? fun u => (u.sourceId, u.eventId) = (e.sourceId, e.eventId) with
    | some u => if u = e then .ok unique else .error .conflictingNetworkEvidence
    | none => .ok (unique ++ [e])
  else .error .networkProvenanceMismatch

/-- `_unique_network(network)`. -/
def uniqueNetwork (n : NetworkCase) : Except Failure (List NetworkEvidence) := do
  let unique ← n.evidence.foldlM (addNetwork n.toAnchor) []
  match n.evidenceTotal with
  | some total =>
    if total.val < unique.length then throw .invalidEvidenceTotal else return unique
  | none => return unique

/-- An SSH event with the incidents that refer to it, each with its canonical one. -/
structure SshEntry where
  facts : SshFacts
  refs : List (Identifier × Identifier)
  deriving DecidableEq

structure SshIndex where
  entries : List SshEntry
  aliases : List (Identifier × Identifier)

def addAlias (aliases : List (Identifier × Identifier)) (incident canonical : Identifier) :
    Except Failure (List (Identifier × Identifier)) :=
  match aliases.lookup incident with
  | some c => if c = canonical then .ok aliases else .error .conflictingSshAlias
  | none => .ok (aliases ++ [(incident, canonical)])

def SshIndex.add (x : SshIndex) (r : SshRecord) : Except Failure SshIndex := do
  let aliases ← addAlias x.aliases r.incidentId r.canonical
  match x.entries.find? fun e => (e.facts.sourceId, e.facts.eventId) = (r.sourceId, r.eventId) with
  | some e =>
    if e.facts = r.toSshFacts then
      return ⟨x.entries.map fun e' =>
        if e'.facts = e.facts then { e' with refs := e'.refs.insert (r.incidentId, r.canonical) }
        else e', aliases⟩
    else throw .conflictingSshEvidence
  | none => return ⟨x.entries ++ [⟨r.toSshFacts, [(r.incidentId, r.canonical)]⟩], aliases⟩

/-- `_unique_ssh(records)`. -/
def uniqueSsh (records : List SshRecord) : Except Failure (List SshEntry) := do
  let x ← records.foldlM SshIndex.add ⟨[], []⟩
  if x.entries.any fun e => (e.refs.map Prod.snd).dedup.length ≠ 1 then throw .ambiguousSshOwnership
  if x.aliases.any fun a => (x.aliases.lookup a.2).any fun c => c ≠ a.2 then
    throw .unresolvedSshAlias
  return x.entries

/-! ### Clocks -/

def high (xs : List Int) : Int := xs.max?.getD 0

def low (xs : List Int) : Int := xs.min?.getD 0

/-- `max(xs) - min(xs)`; 0 of an empty list, which no bound is compared with. -/
def spread (xs : List Int) : Int := high xs - low xs

def times (records : List NetworkEvidence) : List Int := records.map fun e => e.eventTsUs.val

def monotonics (records : List NetworkEvidence) : List Int := records.map fun e => e.monotonicUs.val

def offsets (records : List NetworkEvidence) : List Int :=
  records.map fun e => e.eventTsUs.val - e.monotonicUs.val

def discontinuity : String := "journal_clock_discontinuity"

def clockUncertain (coverage : Codes) (records : List NetworkEvidence) : Bool :=
  coverage.list.contains discontinuity || 1000000 < spread (offsets records)

def spanExceeded (records : List NetworkEvidence) : Bool :=
  maxAnchorSpanUs < spread (times records) || maxAnchorSpanUs < spread (monotonics records)

/-- `temporal_available`. -/
def temporalAvailable (network ssh : Codes) (records : List NetworkEvidence) : Bool :=
  !records.isEmpty && !clockUncertain network records && !ssh.list.contains discontinuity
    && !spanExceeded records

/-- Start and end of the window around the network events. -/
def windowOf (margin : Nat) (records : List NetworkEvidence) : Int × Int :=
  (max 0 (low (times records) - margin * 1000000),
    min maxTimeUs (high (times records) + margin * 1000000))

/-! ### The timeline -/

inductive Row
  | network (e : NetworkEvidence) (incidentId : Identifier) (revision : Revision)
  | ssh (facts : SshFacts) (refs : List (Identifier × Identifier))
  deriving DecidableEq

namespace Row

def kind : Row → String
  | .network .. => "network"
  | .ssh .. => "ssh"

def eventTsUs : Row → Int
  | .network e _ _ => e.eventTsUs.val
  | .ssh f _ => f.eventTsUs.val

def sourceId : Row → String
  | .network e _ _ => e.sourceId.val
  | .ssh f _ => f.sourceId.val

def eventId : Row → String
  | .network e _ _ => e.eventId.val
  | .ssh f _ => f.eventId.val

end Row

/-- The order of timelines: by time, then kind, source and event. -/
abbrev RowKey := ℤ ×ₗ String ×ₗ String ×ₗ String

def Row.key (r : Row) : RowKey :=
  toLex (r.eventTsUs, toLex (r.kind, toLex (r.sourceId, r.eventId)))

def sortRows (rows : List Row) : List Row := rows.insertionSort fun a b => a.key ≤ b.key

def Row.toValue : Row → Value
  | .network e incidentId revision =>
    .obj [("boot_id", .str e.bootId.val), ("direction", .str e.direction.text),
      ("dst_ip", .str e.dstIp.val), ("dst_port", .int e.dstPort.val),
      ("event_id", .str e.eventId.val), ("event_ts_us", .int e.eventTsUs.val),
      ("incident_refs", .arr [.obj [("incident_id", .str incidentId.val),
        ("revision", .int revision.val)]]),
      ("kind", .str "network"), ("monotonic_us", .int e.monotonicUs.val),
      ("profile_revision", .str e.profileRevision.val), ("protocol", .str e.protocol.text),
      ("source_id", .str e.sourceId.val), ("src_ip", .str e.srcIp.val)]
  | .ssh f refs =>
    .obj [("account", optionStr f.account), ("event_id", .str f.eventId.val),
      ("event_ts_us", .int f.eventTsUs.val), ("event_type", .str f.eventType.text),
      ("incident_refs", .arr (refs.map fun r => .obj [("canonical_incident_id", .str r.2.val),
        ("incident_id", .str r.1.val)])),
      ("kind", .str "ssh"), ("source_id", .str f.sourceId.val), ("src_ip", .str f.srcIp.val)]

/-- `sorted(references[key])`. -/
def sortRefs (refs : List (Identifier × Identifier)) : List (Identifier × Identifier) :=
  refs.insertionSort fun a b => (toLex (a.1.val, a.2.val) : String ×ₗ String) ≤ toLex (b.1.val, b.2.val)

/-! ### Counts -/

/-- The counts of one SSH source. -/
structure SourceCounts where
  source : Identifier
  evidence : Nat
  kind : SshKind → Nat

def countsOf (matched : List SshFacts) (source : Identifier) : SourceCounts where
  source := source
  evidence := (matched.filter fun f => f.sourceId = source).length
  kind := fun k => (matched.filter fun f => f.sourceId = source ∧ f.eventType = k).length

/-- The counts of the matched records, by source. -/
def sshCounts (matched : List SshFacts) : List SourceCounts :=
  ((matched.map SshFacts.sourceId).dedup.insertionSort fun a b => a.val ≤ b.val).map
    (countsOf matched)

def SourceCounts.toValue (c : SourceCounts) : Value :=
  .obj [("auth_failure", .int (c.kind .authFailure)), ("auth_success", .int (c.kind .authSuccess)),
    ("disconnect", .int (c.kind .disconnect)), ("evidence", .int c.evidence),
    ("invalid_user", .int (c.kind .invalidUser)), ("preauth_abort", .int (c.kind .preauthAbort)),
    ("ssh_failure", .int (c.kind .sshFailure)), ("ssh_success", .int (c.kind .sshSuccess))]

/-! ### Projections -/

inductive CaseState
  | linked | unmatched | incomplete | stale | retracted | rejected
  deriving Repr, DecidableEq

def CaseState.text : CaseState → String
  | .linked => "linked"
  | .unmatched => "unmatched"
  | .incomplete => "partial"
  | .stale => "stale"
  | .retracted => "retracted"
  | .rejected => "rejected"

/-- A serialized revision; the canonical text is kept as the value it prints. -/
structure JointProjection where
  caseId : Option String
  state : String
  sha256 : String
  canonicalJson : Value

/-- What a projection that is not rejected says. -/
structure Payload where
  caseId : String
  state : CaseState
  assetId : Identifier
  mappingSha : Digest
  anchor : Anchor
  window : Option (Int × Int)
  margin : Nat
  inputComplete : Bool
  timelineComplete : Bool
  available : Bool
  reasons : List String
  uncertainties : List String
  evidenceSha : Digest
  observed : Nat
  netTotal : Nat
  sshSupplied : Nat
  sshTotal : Nat
  networkCount : Nat
  counts : List SourceCounts
  timeline : List Row
  limit : Nat

def optionInt : Option Int → Value
  | some n => .int n
  | none => .null

def Payload.toValue (p : Payload) : Value :=
  .obj [("anchor", p.anchor.toValue), ("assessment", .str "association_only_no_joint_risk_score"),
    ("asset_id", .str p.assetId.val), ("case_id", .str p.caseId),
    ("completeness_scope", .str "supplied_projection_only"),
    ("counts", .obj [("network", .obj [(p.anchor.sourceId.val, .int p.networkCount)]),
      ("ssh", .obj (p.counts.map fun c => (c.source.val, c.toValue)))]),
    ("coverage_complete", .null), ("declared_network_evidence_total", .int p.netTotal),
    ("declared_ssh_candidate_total", .int p.sshTotal), ("evidence_sha256", .str p.evidenceSha.val),
    ("input_complete", .bool p.inputComplete), ("mapping_sha256", .str p.mappingSha.val),
    ("observed_evidence_count", .int p.observed),
    ("policy_version", .str "explicit-asset-peer-window-v1"), ("reasons", .strs p.reasons),
    ("scope", .str "retained_typed_evidence_only"), ("state", .str p.state.text),
    ("supplied_ssh_candidate_count", .int p.sshSupplied),
    ("temporal_association_available", .bool p.available),
    ("timeline", .arr (p.timeline.map Row.toValue)), ("timeline_complete", .bool p.timelineComplete),
    ("timeline_limit", .int p.limit), ("uncertainties", .strs p.uncertainties),
    ("version", .str "joint-evidence-v1"),
    ("window", .obj [("end_us", optionInt (p.window.map Prod.snd)), ("margin_seconds", .int p.margin),
      ("start_us", optionInt (p.window.map Prod.fst))])]

/-- The payload of a rejected case. -/
def rejectedValue (a : Anchor) (reason : String) : Value :=
  .obj [("anchor", a.toValue), ("case_id", .null), ("coverage_complete", .null),
    ("input_complete", .null), ("policy_version", .str "explicit-asset-peer-window-v1"),
    ("reasons", .strs [reason]), ("state", .str CaseState.rejected.text), ("timeline", .arr []),
    ("timeline_complete", .bool false), ("uncertainties", .strs ["association_not_evaluated"]),
    ("version", .str "joint-evidence-v1")]

/-- `_projection(payload)`. -/
def Env.project (env : Env) (caseId : Option String) (state : CaseState) (payload : Value) :
    Except Failure JointProjection :=
  if maxOutputBytes < env.size payload then .error .projectionByteLimit
  else .ok ⟨caseId, state.text, (env.hash payload).val, payload⟩

/-! ### `correlate` -/

/-- The asset and the binding of a network source: the last of the list when there are several. -/
def findBinding (mappings : List AssetMapping) (source : Identifier) :
    Option (AssetMapping × NetworkBinding) :=
  ((mappings.flatMap fun a => a.networkBindings.map fun b => (a, b)).filter fun x =>
    x.2.sourceId = source).getLast?

/-- Why the mapping does not admit the anchor. -/
def mappingRejection (found : Option (AssetMapping × NetworkBinding)) (a : Anchor) : Option String :=
  match found with
  | none => some "network_source_unmapped"
  | some (_, b) =>
    if !b.destinationIps.contains a.dstIp then some "network_destination_unmapped"
    else if !b.profileRevisions.contains a.profileRevision then some "network_profile_unmapped"
    else none

def NetworkEvidence.localTcp (e : NetworkEvidence) : Bool :=
  e.protocol = .tcp && e.direction = .localInput

def rejection (found : Option (AssetMapping × NetworkBinding)) (a : Anchor)
    (records : List NetworkEvidence) : Option String :=
  match mappingRejection found a with
  | some reason => some reason
  | none => if records.all NetworkEvidence.localTcp then none
      else some "network_observation_not_local_tcp"

/-- `case_id`. -/
def Env.caseId (env : Env) (a : Anchor) (assetId : Identifier) (mappingSha : Digest) : String :=
  "JOINT-" ++ String.ofList (((env.hash (.arr [.str "explicit-asset-peer-window-v1",
    .str mappingSha.val, .obj a.identity, .str assetId.val])).val.toList).take 32)

/-- The SSH events of the asset's sources, of the same peer and in the window. -/
def matchedEntries (asset : AssetMapping) (a : Anchor) (window : Option (Int × Int))
    (entries : List SshEntry) : List SshEntry :=
  match window with
  | none => []
  | some w => entries.filter fun e => asset.sshSourceIds.contains e.facts.sourceId
      && e.facts.srcIp = a.srcIp && w.1 ≤ e.facts.eventTsUs.val && e.facts.eventTsUs.val ≤ w.2

def failureKinds : List SshKind := [.authFailure, .sshFailure, .invalidUser]

def successKinds : List SshKind := [.authSuccess, .sshSuccess]

def reasonsOf (matched : List SshFacts) (available : Bool) : List String :=
  let kinds := matched.map SshFacts.eventType
  ["explicit_asset_mapping", "network_anchor_retained"] ++
    if !matched.isEmpty then
      ["same_observed_peer", "mapped_ssh_evidence_in_window"]
        ++ (if kinds.any failureKinds.contains then ["ssh_authentication_failure_observed"] else [])
        ++ (if kinds.any successKinds.contains then ["ssh_authentication_success_observed"] else [])
        ++ (if kinds.contains .preauthAbort then ["ssh_preauth_abort_observed"] else [])
    else if available then ["no_matching_retained_ssh_evidence"]
    else ["ssh_association_not_evaluated"]

/-- What `correlate` has found out when it collects the uncertainties. -/
structure Findings where
  clockUncertain : Bool
  spanExceeded : Bool
  single : Bool
  networkIncomplete : Bool
  sshIncomplete : Bool
  unavailable : Bool
  noTimes : Bool
  truncated : Bool
  retracted : Bool
  stale : Bool

def flagged (b : Bool) (code : String) : List String := if b then [code] else []

def uncertaintiesOf (network ssh : Codes) (f : Findings) : List String :=
  ["shared_ip_does_not_establish_identity", "cross_source_clock_alignment_unknown",
      "observations_are_lower_bounds"]
    ++ network.list.map ("network:" ++ ·) ++ ssh.list.map ("ssh:" ++ ·)
    ++ flagged f.clockUncertain ("network:" ++ discontinuity)
    ++ flagged f.spanExceeded "network_anchor_time_span_exceeded"
    ++ flagged f.single "single_network_observation_clock_unverifiable"
    ++ flagged f.networkIncomplete "network_evidence_incomplete"
    ++ flagged f.sshIncomplete "ssh_candidate_evidence_incomplete"
    ++ flagged f.noTimes "network_evidence_unavailable"
    ++ flagged f.unavailable "temporal_association_unavailable"
    ++ flagged f.truncated "timeline_truncated"
    ++ flagged f.retracted "network_anchor_retracted"
    ++ flagged f.stale "network_anchor_stale"

/-- The payload of a case that the mapping admits. -/
def payloadOf (env : Env) (n : NetworkCase) (asset : AssetMapping) (records : List NetworkEvidence)
    (entries : List SshEntry) (sshTotal : Nat) (coverage : Codes) (margin limit : Nat) : Payload :=
  let available := temporalAvailable n.coverage coverage records
  let window := if available then some (windowOf margin records) else none
  let matched := matchedEntries asset n.toAnchor window entries
  let netTotal := match n.evidenceTotal with
    | some total => total.val.toNat
    | none => records.length
  let inputComplete := netTotal = records.length && sshTotal = entries.length
  let timeline := sortRows ((records.map fun e => .network e n.incidentId n.revision)
    ++ matched.map fun e => .ssh e.facts (sortRefs e.refs))
  let observed := timeline.length
  let mappingSha := env.hash asset.toValue
  let facts := matched.map SshEntry.facts
  { caseId := env.caseId n.toAnchor asset.assetId mappingSha
    state := if !n.active then .retracted else if n.stale then .stale
      else if !inputComplete || !available || limit < observed then .incomplete
      else if !matched.isEmpty then .linked else .unmatched
    assetId := asset.assetId
    mappingSha := mappingSha
    anchor := n.toAnchor
    window := window
    margin := margin
    inputComplete := inputComplete
    timelineComplete := observed ≤ limit
    available := available
    reasons := (reasonsOf facts available).insertionSort (· ≤ ·)
    uncertainties := sortedSet (uncertaintiesOf n.coverage coverage
      { clockUncertain := clockUncertain n.coverage records
        spanExceeded := spanExceeded records
        single := records.length = 1
        networkIncomplete := records.length < netTotal
        sshIncomplete := entries.length < sshTotal
        unavailable := !available
        noTimes := records.isEmpty
        truncated := limit < observed
        retracted := !n.active
        stale := n.active && n.stale })
    evidenceSha := env.hash (.arr (timeline.map Row.toValue))
    observed := observed
    netTotal := netTotal
    sshSupplied := entries.length
    sshTotal := sshTotal
    networkCount := records.length
    counts := sshCounts facts
    timeline := timeline.take limit
    limit := limit }

/-- `correlate(mappings, network, ssh_records, …)` for checked arguments. -/
def correlate (env : Env) (mappings : List AssetMapping) (n : NetworkCase) (ssh : List SshRecord)
    (sshTotal : Option Nat) (coverage : Codes) (margin limit : Nat) :
    Except Failure JointProjection := do
  if maxRecords < ssh.length then throw .invalidSshEvidence
  if sshTotal.any fun total => 1000000 < total then throw .invalidEvidenceTotal
  if maxInputBytes < (n.evidence.map fun e => env.size (.obj e.members)).sum
      + (ssh.map fun r => env.size r.toValue).sum then
    throw .inputByteLimit
  let records ← uniqueNetwork n
  let entries ← uniqueSsh ssh
  if sshTotal.any fun total => total < entries.length then throw .invalidEvidenceTotal
  let found := findBinding mappings n.sourceId
  match rejection found n.toAnchor records, found with
  | some reason, _ => env.project none .rejected (rejectedValue n.toAnchor reason)
  | none, some (asset, _) =>
    let p := payloadOf env n asset records entries (sshTotal.getD entries.length) coverage margin limit
    env.project (some p.caseId) p.state p.toValue
  -- a source without a binding is rejected
  | none, none => throw .invalidSshEvidence

end RiskOps.JointEvidence
