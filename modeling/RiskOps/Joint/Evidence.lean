import RiskOps.Lib.Canonical
import RiskOps.Lib.IpText

/-!
# RiskOps.Joint.Evidence — association of SSH and network evidence

Model of `joint_evidence`: the typed records, the mapping of assets and `correlate`, which builds
one revision of a joint case from a retained network case and the SSH records read for it.

**Records cannot be malformed.** What a `__post_init__` checks is in the types: identifiers,
digests, addresses and codes are `Checked` text, times and ports are `Bounded`. An address is kept
as `str(ip_address(value))` writes it.

**Texts are values.** A projection keeps its canonical JSON as the value that is printed; objects
list their members in the order of their keys. `Env` holds what comes from outside: the digest of a
text, the printing of a float and the reading of a time.
-/

namespace RiskOps.JointEvidence

open RiskOps.Lib

/-! ### Checks on text -/

def isAlnum (c : Char) : Bool :=
  ('a' ≤ c && c ≤ 'z') || ('A' ≤ c && c ≤ 'Z') || ('0' ≤ c && c ≤ '9')

/-- `[A-Za-z0-9][A-Za-z0-9_.:-]{0,127}`. -/
def isIdentifier (s : String) : Bool :=
  match s.toList with
  | [] => false
  | c :: cs => isAlnum c && cs.length ≤ 127
      && cs.all fun d => isAlnum d || d = '_' || d = '.' || d = ':' || d = '-'

def isLowerHex (c : Char) : Bool := ('0' ≤ c && c ≤ '9') || ('a' ≤ c && c ≤ 'f')

/-- `[0-9a-f]{64}`. -/
def isDigest (s : String) : Bool := s.toList.length = 64 && s.toList.all isLowerHex

/-- `[a-z][a-z0-9_]{0,63}`. -/
def isCode (s : String) : Bool :=
  match s.toList with
  | [] => false
  | c :: cs => 'a' ≤ c && c ≤ 'z' && cs.length ≤ 63
      && cs.all fun d => ('a' ≤ d && d ≤ 'z') || ('0' ≤ d && d ≤ '9') || d = '_'

/-- `_text(value, maximum, …)`. -/
def isText (maximum : Nat) (s : String) : Bool :=
  1 ≤ s.toList.length && s.toList.length ≤ maximum
    && s.toList.all fun c => 32 ≤ c.toNat && c.toNat ≠ 127

/-- `_ip(value)`. -/
def ip (s : String) : Option String :=
  if 1 ≤ s.toList.length ∧ s.toList.length ≤ 64 ∧ '%' ∉ s.toList then
    (IpAddress.parse s.toList).map fun a => String.ofList a.toText
  else none

def isIp (s : String) : Bool := ip s = some s

abbrev Identifier := Checked isIdentifier
abbrev Digest := Checked isDigest
abbrev EventId := Checked (isText 2048)
abbrev Account := Checked (isText 256)

/-- An address as it is printed. -/
abbrev Ip := Checked isIp

def Ip.read (s : String) : Option Ip := (ip s).bind (Checked.of? isIp)

def maxRecords : Nat := 5000

/-- One network monotonic-hour case may include five minutes on either side. -/
def maxAnchorSpanUs : Int := 4200 * 1000000

def maxTimeUs : Int := 253402300799999999

def maxInputBytes : Nat := 8 * 1024 * 1024

def maxOutputBytes : Nat := 4 * 1024 * 1024

abbrev Time := Bounded 0 maxTimeUs
abbrev Monotonic := Bounded 0 (2 ^ 63 - 1)
abbrev Port := Bounded 1 65535
abbrev Revision := Bounded 1 (2 ^ 31 - 1)

/-- `_codes(values)`: at most 64 codes, sorted, each once. -/
structure Codes where
  list : List String
  isCode_of_mem : ∀ c ∈ list, isCode c = true
  sorted : sortedSet list = list
  length_le : list.length ≤ 64
  deriving DecidableEq

def Codes.of? (values : List String) : Option Codes :=
  if h : values.length ≤ 64 ∧ ∀ c ∈ values, isCode c = true then
    some ⟨sortedSet values, fun c hc => h.2 c (mem_sortedSet.mp hc), sortedSet_sortedSet values,
      (length_sortedSet_le values).trans h.1⟩
  else none

/-! ### Mappings -/

structure NetworkBinding where
  sourceId : Identifier
  destinationIps : List Ip
  profileRevisions : List Digest
  destinations_length : 1 ≤ destinationIps.length ∧ destinationIps.length ≤ 32
  profiles_length : 1 ≤ profileRevisions.length ∧ profileRevisions.length ≤ 32
  destinations_sorted : sortedSet (destinationIps.map Subtype.val) = destinationIps.map Subtype.val
  profiles_sorted : sortedSet (profileRevisions.map Subtype.val) = profileRevisions.map Subtype.val
  deriving DecidableEq

structure AssetMapping where
  assetId : Identifier
  sshSourceIds : List Identifier
  networkBindings : List NetworkBinding
  sources_length : 1 ≤ sshSourceIds.length ∧ sshSourceIds.length ≤ 16
  bindings_length : 1 ≤ networkBindings.length ∧ networkBindings.length ≤ 16
  sources_sorted : sortedSet (sshSourceIds.map Subtype.val) = sshSourceIds.map Subtype.val
  bindings_sorted : sortedSet (networkBindings.map fun b => b.sourceId.val) =
    networkBindings.map fun b => b.sourceId.val
  deriving DecidableEq

/-- Two mappings share no asset, SSH source or network source. -/
def AssetMapping.disjoint (a b : AssetMapping) : Bool :=
  a.assetId ≠ b.assetId && a.sshSourceIds.all (fun s => !b.sshSourceIds.contains s)
    && a.networkBindings.all fun x => b.networkBindings.all fun y => x.sourceId ≠ y.sourceId

/-- `validate_mappings(mappings)`. -/
def validateMappings (mappings : List AssetMapping) : Option (List AssetMapping) :=
  if 1 ≤ mappings.length ∧ mappings.length ≤ 64 ∧
      mappings.Pairwise (fun a b => a.disjoint b = true) then
    some (mappings.insertionSort fun a b => a.assetId.val ≤ b.assetId.val)
  else none

def NetworkBinding.toValue (b : NetworkBinding) : Value :=
  .obj [("destination_ips", .strs (b.destinationIps.map Subtype.val)),
    ("profile_revisions", .strs (b.profileRevisions.map Subtype.val)),
    ("source_id", .str b.sourceId.val)]

/-- `asdict(asset)`. -/
def AssetMapping.toValue (a : AssetMapping) : Value :=
  .obj [("asset_id", .str a.assetId.val),
    ("network_bindings", .arr (a.networkBindings.map NetworkBinding.toValue)),
    ("ssh_source_ids", .strs (a.sshSourceIds.map Subtype.val))]

/-! ### Evidence -/

inductive Protocol
  | tcp | udp
  deriving Repr, DecidableEq

def Protocol.text : Protocol → String
  | .tcp => "TCP"
  | .udp => "UDP"

def Protocol.read (s : String) : Option Protocol := [.tcp, .udp].find? fun p => Protocol.text p = s

inductive Direction
  | localInput | unknown
  deriving Repr, DecidableEq

def Direction.text : Direction → String
  | .localInput => "local_input"
  | .unknown => "unknown"

def Direction.read (s : String) : Option Direction :=
  [.localInput, .unknown].find? fun d => Direction.text d = s

structure NetworkEvidence where
  sourceId : Identifier
  eventId : EventId
  bootId : Identifier
  profileRevision : Digest
  srcIp : Ip
  dstIp : Ip
  eventTsUs : Time
  monotonicUs : Monotonic
  dstPort : Port
  protocol : Protocol
  direction : Direction
  deriving DecidableEq

/-- What identifies a network case and its revision. -/
structure Anchor where
  producerId : Identifier
  incidentId : Identifier
  revision : Revision
  sourceId : Identifier
  bootId : Identifier
  profileRevision : Digest
  srcIp : Ip
  dstIp : Ip
  deriving DecidableEq

structure NetworkCase extends Anchor where
  evidence : List NetworkEvidence
  evidenceTotal : Option (Bounded 0 1000000)
  active : Bool
  stale : Bool
  coverage : Codes
  evidence_length : evidence.length ≤ maxRecords

inductive SshKind
  | authFailure | authSuccess | disconnect | invalidUser | preauthAbort | sshFailure | sshSuccess
  deriving Repr, DecidableEq

def SshKind.text : SshKind → String
  | .authFailure => "auth_failure"
  | .authSuccess => "auth_success"
  | .disconnect => "disconnect"
  | .invalidUser => "invalid_user"
  | .preauthAbort => "preauth_abort"
  | .sshFailure => "ssh_failure"
  | .sshSuccess => "ssh_success"

/-- `sorted(SSH_KINDS)`. -/
def sshKinds : List SshKind :=
  [.authFailure, .authSuccess, .disconnect, .invalidUser, .preauthAbort, .sshFailure, .sshSuccess]

def SshKind.read (s : String) : Option SshKind := sshKinds.find? fun k => SshKind.text k = s

/-- What an SSH record says about its event, apart from the incident that owns it. -/
structure SshFacts where
  account : Option Account
  eventId : EventId
  eventTsUs : Time
  eventType : SshKind
  sourceId : Identifier
  srcIp : Ip
  deriving DecidableEq

structure SshRecord extends SshFacts where
  incidentId : Identifier
  canonicalIncidentId : Option Identifier
  deriving DecidableEq

def SshRecord.canonical (r : SshRecord) : Identifier := r.canonicalIncidentId.getD r.incidentId

/-! ### Records as values -/

def NetworkEvidence.members (e : NetworkEvidence) : List (String × Value) :=
  [("boot_id", .str e.bootId.val), ("direction", .str e.direction.text),
    ("dst_ip", .str e.dstIp.val), ("dst_port", .int e.dstPort.val),
    ("event_id", .str e.eventId.val), ("event_ts_us", .int e.eventTsUs.val),
    ("monotonic_us", .int e.monotonicUs.val), ("profile_revision", .str e.profileRevision.val),
    ("protocol", .str e.protocol.text), ("source_id", .str e.sourceId.val),
    ("src_ip", .str e.srcIp.val)]

def optionStr {p : String → Bool} : Option (Checked p) → Value
  | some s => .str s.val
  | none => .null

/-- `asdict(record)`. -/
def SshRecord.toValue (r : SshRecord) : Value :=
  .obj [("account", optionStr r.account), ("canonical_incident_id", optionStr r.canonicalIncidentId),
    ("event_id", .str r.eventId.val), ("event_ts_us", .int r.eventTsUs.val),
    ("event_type", .str r.eventType.text), ("incident_id", .str r.incidentId.val),
    ("source_id", .str r.sourceId.val), ("src_ip", .str r.srcIp.val)]

def Anchor.identity (a : Anchor) : List (String × Value) :=
  [("boot_id", .str a.bootId.val), ("dst_ip", .str a.dstIp.val),
    ("incident_id", .str a.incidentId.val), ("producer_id", .str a.producerId.val),
    ("profile_revision", .str a.profileRevision.val), ("source_id", .str a.sourceId.val),
    ("src_ip", .str a.srcIp.val)]

def Anchor.toValue (a : Anchor) : Value :=
  .obj [("boot_id", .str a.bootId.val), ("dst_ip", .str a.dstIp.val),
    ("incident_id", .str a.incidentId.val), ("producer_id", .str a.producerId.val),
    ("profile_revision", .str a.profileRevision.val), ("revision", .int a.revision.val),
    ("source_id", .str a.sourceId.val), ("src_ip", .str a.srcIp.val)]

/-! ### What comes from outside -/

structure Env where
  /-- `hashlib.sha256(text).hexdigest()`. -/
  sha256 : List Char → String
  /-- `repr` of a float. -/
  repr : ℚ → List Char
  /-- `datetime.fromisoformat(text)`, in microseconds since the epoch. -/
  fromisoformat : List Char → Option Int
  /-- `datetime.timestamp()` of a time in microseconds. -/
  timestamp : Int → ℚ
  /-- `math.nextafter(us / 1_000_000, -math.inf)` and `math.nextafter(us / 1_000_000, math.inf)`. -/
  below : Int → ℚ
  above : Int → ℚ
  sha256_digest : ∀ s, isDigest (sha256 s) = true

/-- `_hash(value)`. -/
def Env.hash (env : Env) (v : Value) : Digest := ⟨env.sha256 (v.text env.repr), env.sha256_digest _⟩

/-- `len(_json(value))`. -/
def Env.size (env : Env) (v : Value) : Nat := (v.text env.repr).length

end RiskOps.JointEvidence
