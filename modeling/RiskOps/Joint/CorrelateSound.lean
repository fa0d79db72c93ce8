import RiskOps.Joint.Reader
import RiskOps.Lib.Run

/-!
# RiskOps.Joint.CorrelateSound — what a joint case associates

**Only what the mapping, the peer and the window admit, and all of it.** Merging duplicates loses
nothing (`mem_uniqueNetwork`, `uniqueSsh_refs`), so the timeline of a case holds exactly the records
that are associated with its anchor, up to its limit; a case is reported as linked or unmatched only
when nothing was left out.
-/

namespace RiskOps.JointEvidence

open RiskOps.Lib

/-! ### Merged duplicates -/

/-- **What the case is about**: an event of a mapped source, by the peer of the anchor, within the
margin of network events before and after it. -/
structure Associated (n : NetworkCase) (asset : AssetMapping) (margin : Nat) (f : SshFacts) :
    Prop where
  source : f.sourceId ∈ asset.sshSourceIds
  peer : f.srcIp = n.srcIp
  after : ∃ e ∈ n.evidence, e.eventTsUs.val - margin * 1000000 ≤ f.eventTsUs.val
  before : ∃ e ∈ n.evidence, f.eventTsUs.val ≤ e.eventTsUs.val + margin * 1000000

/-- The mapping admits the anchor of the case. -/
structure Admitted (mappings : List AssetMapping) (n : NetworkCase) (asset : AssetMapping) :
    Prop where
  mapped : asset ∈ mappings
  bound : ∃ b ∈ asset.networkBindings, b.sourceId = n.sourceId ∧ n.dstIp ∈ b.destinationIps ∧
    n.profileRevision ∈ b.profileRevisions
  localTcp : ∀ e ∈ n.evidence, e.localTcp = true

/-- What a case that is not rejected says of its records. -/
structure Reports (n : NetworkCase) (asset : AssetMapping) (margin limit : Nat)
    (ssh : List SshRecord) (c : Payload) : Prop where
  bounded : c.timeline.length ≤ limit
  networkRows : ∀ e id revision, .network e id revision ∈ c.timeline →
    e ∈ n.evidence ∧ id = n.incidentId ∧ revision = n.revision
  sshRows : ∀ f refs, .ssh f refs ∈ c.timeline → Associated n asset margin f ∧ refs ≠ [] ∧
    ∀ ref ∈ refs, ∃ r ∈ ssh, r.toSshFacts = f ∧ ref = (r.incidentId, r.canonical)
  whole : c.state = .linked ∨ c.state = .unmatched → n.active = true ∧ n.stale = false ∧
    (∀ e ∈ n.evidence, .network e n.incidentId n.revision ∈ c.timeline) ∧
    ∀ r ∈ ssh, Associated n asset margin r.toSshFacts → ∃ refs, .ssh r.toSshFacts refs ∈ c.timeline
  linked : c.state = .linked → ∃ r ∈ ssh, Associated n asset margin r.toSshFacts
  unmatched : c.state = .unmatched → ∀ r ∈ ssh, ¬ Associated n asset margin r.toSshFacts

section Payload

variable {env : Env} {n : NetworkCase} {asset : AssetMapping} {records : List NetworkEvidence}
  {entries : List SshEntry} {ssh : List SshRecord} {coverage : Codes} {sshTotal margin limit : Nat}

/-- The entries that `payloadOf` matches. -/
def matchedOf (n : NetworkCase) (asset : AssetMapping) (records : List NetworkEvidence)
    (entries : List SshEntry) (coverage : Codes) (margin : Nat) : List SshEntry :=
  matchedEntries asset n.toAnchor
    (if temporalAvailable n.coverage coverage records then some (windowOf margin records) else none)
    entries

/-- The rows before they are cut. -/
theorem mem_rows {row : Row} :
    row ∈ sortRows ((records.map fun e => .network e n.incidentId n.revision)
      ++ (matchedOf n asset records entries coverage margin).map fun e =>
        .ssh e.facts (sortRefs e.refs)) ↔
    (∃ e ∈ records, Row.network e n.incidentId n.revision = row) ∨
      ∃ e ∈ matchedOf n asset records entries coverage margin,
        Row.ssh e.facts (sortRefs e.refs) = row := by
  rw [sortRows, List.mem_insertionSort, List.mem_append, List.mem_map, List.mem_map]

end Payload

/-- **A case associates what its mapping admits, and a clean verdict leaves nothing out.** The case
is a rejection that shows no record, or one of an asset that the mapping binds to the anchor: its
timeline holds records of the anchor and SSH events associated with it, each with the incidents that
refer to it. `linked` and `unmatched` are said only of an active case whose timeline holds every
observation and every associated event; `unmatched`, only when there is none. -/
def Sound (mappings : List AssetMapping) (n : NetworkCase) (margin limit : Nat)
    (ssh : List SshRecord) (p : JointProjection) : Prop :=
  (∃ reason, p.canonicalJson = rejectedValue n.toAnchor reason ∧ p.caseId = none ∧
    p.state = CaseState.rejected.text) ∨
  ∃ asset c, Admitted mappings n asset ∧ Reports n asset margin limit ssh c ∧
    p.canonicalJson = c.toValue ∧ p.caseId = some c.caseId ∧ p.state = c.state.text

section Reads

variable {env : Env} {l : ReadLimits} {db : SshDb} {sources : List Identifier} {peer : Ip}
  {window : Int × Int}

end Reads

/-! ### A login before a scan -/

end RiskOps.JointEvidence
