import RiskOps.Lib.IpAddress
import RiskOps.Lib.Json
import RiskOps.Lib.PyText

/-!
# RiskOps.Telemetry.NetworkParse — firewall records of the kernel journal

Model of `telemetry/network_parse.py`: **a source profile, the observation one journal record
stands for, and the checks an observation has to pass wherever it is read.** The reading of the
firewall's text is left out; what it returns has passed `validateEvent`, like every observation
that is read from a batch or a database.

Digests are values of a type `D`; `Digests` says what they are computed from. Texts are lists
of characters, and a text whose values are fixed is an enumeration.
-/

namespace RiskOps.Telemetry.Network

open RiskOps.Lib

/-! ### Enumerations -/

/-- `guard_version`. -/
inductive Guard where
  | legacy
  | full
  | terminal
  deriving DecidableEq, Repr

/-- `guard_version in STRONG_GUARDS`. -/
def Guard.strong : Guard → Bool
  | .legacy => false
  | .full | .terminal => true

/-- `parser_version`. -/
inductive ParserVersion where
  | ufwV1
  | netfilterV2
  | netfilterV3
  deriving DecidableEq, Repr

/-- `logging_limit`. -/
inductive LoggingLimit where
  | rateLimited
  | unlimited
  | unknown
  deriving DecidableEq, Repr

/-- `retention`. -/
inductive Retention where
  | bounded
  | unknown
  deriving DecidableEq, Repr

/-- `direction` and `observation_point`. -/
inductive Direction where
  | unknown
  | localInput
  deriving DecidableEq, Repr

/-- `protocol`. -/
inductive Protocol where
  | tcp
  | udp
  | other
  deriving DecidableEq, Repr

/-- `_TCP_FLAGS`. -/
inductive TcpFlag where
  | fin
  | syn
  | rst
  | psh
  | ack
  | urg
  | ece
  | cwr
  deriving DecidableEq, Repr

/-- `_COVERAGE`. -/
inductive CoverageCode where
  | loggingRateLimited
  | loggingLimitsUnknown
  | journalRetentionUnknown
  | unverifiedLocalInput
  | incompleteInterfaces
  | missingTransportPorts
  | tcpFlagsUnavailable
  | truncatedTransportHeader
  | fragmentedPacket
  | unsupportedProtocol
  | ipv6ExtensionHeaders
  | dynamicTerminalFiltering
  deriving DecidableEq, Repr

/-- The name of a flag in a message. -/
def TcpFlag.name : TcpFlag → List Char
  | .fin => "FIN".toList
  | .syn => "SYN".toList
  | .rst => "RST".toList
  | .psh => "PSH".toList
  | .ack => "ACK".toList
  | .urg => "URG".toList
  | .ece => "ECE".toList
  | .cwr => "CWR".toList

/-- The flags in the order of their names. -/
def TcpFlag.sorted : List TcpFlag := [.ack, .cwr, .ece, .fin, .psh, .rst, .syn, .urg]

/-! ### Limits and patterns -/

/-- `MAX_CURSOR_BYTES`. -/
def maxCursorBytes : Nat := 2048

/-- `MAX_REALTIME_US`. -/
def maxRealtimeUs : Nat := 253402300799999999

/-- `MAX_MONOTONIC_US`. -/
def maxMonotonicUs : Nat := 2 ^ 63 - 1

/-- Characters of `_ID` after the first. -/
def idChar (c : Char) : Bool := c.isAlphanum || c == '_' || c == '.' || c == ':' || c == '-'

/-- `_ID`. -/
def isId : List Char → Bool
  | [] => false
  | c :: rest => c.isAlphanum && rest.all idChar && decide (rest.length ≤ 127)

/-- A lower-case hexadecimal digit. -/
def hexChar (c : Char) : Bool := c.isDigit || (decide ('a' ≤ c) && decide (c ≤ 'f'))

/-- `_HEX64`. -/
def isHex64 (s : List Char) : Bool := decide (s.length = 64) && s.all hexChar

/-- `_BOOT`. -/
def isBoot (s : List Char) : Bool := decide (s.length = 32) && s.all hexChar

/-- Characters of `_LABEL` after the first. -/
def labelChar (c : Char) : Bool :=
  c.isUpper || c.isDigit || c == ' ' || c == '_' || c == ':' || c == '-'

/-- `_LABEL`. -/
def isLabel : List Char → Bool
  | '[' :: c :: rest => (c.isUpper || c.isDigit) && rest.getLast? == some ']' &&
      rest.dropLast.all labelChar && decide (rest.length ≤ 60)
  | _ => false

/-- `_NATIVE_LABEL`. -/
def isNativeLabel : List Char → Bool
  | c :: rest => c.isAlpha && rest.getLast? == some ':' &&
      rest.dropLast.all (fun c => c.isAlphanum || c == '_' || c == '.' || c == '-') &&
      decide (rest.length ≤ 59)
  | [] => false

/-- `_ANY_LABEL`. -/
def isAnyLabel (s : List Char) : Bool := isLabel s || isNativeLabel s

/-- `_INTERFACE`. -/
def isInterface (s : List Char) : Bool :=
  decide (1 ≤ s.length) && decide (s.length ≤ 15) &&
    s.all fun c => c.isAlphanum || c == '_' || c == '.' || c == ':' || c == '@' || c == '-'

/-- `_PROTOCOL`. -/
def isProtocol (s : List Char) : Bool :=
  decide (1 ≤ s.length) && decide (s.length ≤ 16) &&
    s.all fun c => c.isAlphanum || c == '_' || c == '-'

/-- `_ascii`. -/
def isAscii (maximum : Nat) (s : List Char) : Bool :=
  !s.isEmpty && decide (s.length ≤ maximum) &&
    s.all fun c => decide (32 ≤ c.toNat) && decide (c.toNat ≤ 126)

/-! ### Profiles -/

/-- `SourceProfile`; `schema_version` is 1. -/
structure SourceProfile where
  sourceId : List Char
  rulesetSha256 : List Char
  logLabels : List (List Char)
  ipFamilies : List Nat
  rejectionLabels : List (List Char)
  localInputLabels : List (List Char)
  localInputInterfaces : List (List Char)
  loggingLimit : LoggingLimit
  retention : Retention
  loggingLimitContext : List Char
  retentionContext : List Char
  guardVersion : Guard
  profileValidFromUs : Option Nat
  dynamicTerminalSets : List (List Char)
  deriving DecidableEq

/-- `profile_parser_version`. -/
def profileParserVersion (profile : SourceProfile) : ParserVersion :=
  match profile.guardVersion with
  | .legacy => .ufwV1
  | .full => .netfilterV2
  | .terminal => .netfilterV3

/-- What `SourceProfile.revision` is computed from. -/
def SourceProfile.revisionPayload (profile : SourceProfile) : SourceProfile :=
  let sort (l : List (List Char)) : List (List Char) := l.insertionSort (· ≤ ·)
  { profile with
    logLabels := sort profile.logLabels
    ipFamilies := profile.ipFamilies.insertionSort (· ≤ ·)
    rejectionLabels := sort profile.rejectionLabels
    localInputLabels := sort profile.localInputLabels
    localInputInterfaces := sort profile.localInputInterfaces
    dynamicTerminalSets := sort profile.dynamicTerminalSets }

/-! ### Observations -/

/-- The fields of an observation that its content hash covers. -/
structure Content (D : Type) where
  sourceId : List Char
  parserVersion : ParserVersion
  bootId : List Char
  journalCursor : List Char
  journalRealtimeUs : Nat
  journalMonotonicUs : Nat
  ipFamily : Nat
  srcIp : List Char
  dstIp : List Char
  protocol : Protocol
  observedProtocol : List Char
  srcPort : Option Nat
  dstPort : Option Nat
  tcpFlags : Option (Finset TcpFlag)
  ingressInterface : Option (List Char)
  egressInterface : Option (List Char)
  direction : Direction
  observationPoint : Direction
  logLabel : List Char
  sourceProfileRevision : D
  coverage : Finset CoverageCode
  rejectionRelated : Bool
  deriving DecidableEq

/-- `NetworkEvent`; `schema_version` is 1, `transport` is `kernel`, `final_outcome` is `unknown`. -/
structure NetworkEvent (D : Type) extends Content D where
  eventId : D
  contentHash : D
  deriving DecidableEq

/-- The digests of an observation. -/
structure EventDigests (D : Type) where
  /-- `SourceProfile.revision`. -/
  revision : SourceProfile → D
  /-- `_identity`: source, boot and cursor. -/
  identity : List Char → List Char → List Char → D
  /-- `_digest(_content(event))`. -/
  content : Content D → D

/-- `profile.revision`. -/
def EventDigests.profile {D : Type} (d : EventDigests D) (profile : SourceProfile) : D :=
  d.revision profile.revisionPayload

variable {D : Type} [DecidableEq D]

/-- The version of an address. -/
def ipVersion : IpAddress → Nat
  | .v4 _ => 4
  | .v6 _ _ => 6

/-- `_address`. -/
def address (s : List Char) : Except String IpAddress :=
  if s.length > 45 || s.contains '%' then .error "invalid_ip_address"
  else match IpAddress.parse s with
    | none => .error "invalid_ip_address"
    | some a => if a.ipv4Mapped.isSome then .error "unsupported_mapped_address" else .ok a

/-- `observed_protocol if observed_protocol in ("TCP", "UDP") else "OTHER"`. -/
def protocolOf (observed : List Char) : Protocol :=
  if observed = "TCP".toList then .tcp else if observed = "UDP".toList then .udp else .other

/-- The checks of `validate_event` on one address pair. -/
def validAddresses (e : Content D) : Except String Unit := do
  let src ← address e.srcIp
  let dst ← address e.dstIp
  if ipVersion src ≠ ipVersion dst ∨ ipVersion src ≠ e.ipFamily ∨ src.toText ≠ e.srcIp
      ∨ dst.toText ≠ e.dstIp then .error "invalid_event_ip_family"
  else .ok ()

/-- The checks of `validate_event` before the addresses. -/
def validIdentity (e : Content D) : Except String Unit :=
  if !isId e.sourceId then .error "invalid_event_source_id"
  else if !isBoot e.bootId then .error "invalid_boot_id"
  else if !isAscii maxCursorBytes e.journalCursor then .error "invalid_journal_cursor"
  else if e.journalRealtimeUs > maxRealtimeUs || e.journalMonotonicUs > maxMonotonicUs then
    .error "invalid_journal_timestamp"
  else .ok ()

/-- The checks of `validate_event` on the transport fields. -/
def validTransport (e : Content D) : Except String Unit :=
  if !isProtocol e.observedProtocol || e.protocol != protocolOf e.observedProtocol then
    .error "invalid_protocol"
  else if e.srcPort.any (fun p => p > 65535) || e.dstPort.any (fun p => p > 65535) then
    .error "invalid_transport_number"
  else if e.tcpFlags.isSome && e.protocol != .tcp then .error "invalid_tcp_flags"
  else if !(e.ingressInterface.all isInterface && e.egressInterface.all isInterface) then
    .error "invalid_interface"
  else .ok ()

/-- The checks of `validate_event` on where the packet was seen. -/
def validObservation (e : Content D) : Except String Unit :=
  if e.observationPoint ≠ e.direction then .error "invalid_observation_point"
  else if e.direction = .localInput && (e.ingressInterface.isNone || e.egressInterface.isSome) then
    .error "invalid_local_input_shape"
  else if !(if e.parserVersion = .ufwV1 then isLabel e.logLabel else isAnyLabel e.logLabel) then
    .error "invalid_log_label"
  else if isNativeLabel e.logLabel && (e.direction != .unknown || e.rejectionRelated) then
    .error "invalid_native_observation"
  else .ok ()

/-- The checks of `validate_event` on the coverage codes. -/
def validCoverage (e : Content D) : Except String Unit :=
  if decide (e.parserVersion = .netfilterV3) != decide (.dynamicTerminalFiltering ∈ e.coverage) then
    .error "inconsistent_event_coverage"
  else if decide (e.direction = .unknown) != decide (.unverifiedLocalInput ∈ e.coverage) then
    .error "inconsistent_event_coverage"
  else if e.protocol == .tcp && e.tcpFlags.isNone != decide (.tcpFlagsUnavailable ∈ e.coverage) then
    .error "inconsistent_event_coverage"
  else .ok ()

/-- `validate_event`. -/
def validateEvent (d : EventDigests D) (e : NetworkEvent D) : Except String Unit := do
  validIdentity e.toContent
  validAddresses e.toContent
  validTransport e.toContent
  validObservation e.toContent
  validCoverage e.toContent
  if e.eventId ≠ d.identity e.sourceId e.bootId e.journalCursor then
    .error "event_identity_mismatch"
  else if e.contentHash ≠ d.content e.toContent then .error "event_content_mismatch"
  else .ok ()

end RiskOps.Telemetry.Network
