import RiskOps.Lib.IpText
import RiskOps.Lib.PyCodec
import RiskOps.Lib.PyJsonStrict
import RiskOps.Telemetry.NetworkProtocol

/-!
# RiskOps.Telemetry.NetworkWire — observations on the wire

Model of `encode`, `decode`, `event_to_dict` and `event_from_dict` of
`telemetry/network_protocol.py` and of the digests `_identity` and `_content` of
`telemetry/network_parse.py`: **an observation travels as the one JSON object it is written as.**
`eventFromDict` accepts an object exactly when it is what `eventToDict` writes, up to the order of
its members; what `encode` prints, `decode` reads.

Digests are texts here. `sha256` is the hexadecimal digest of a text, a parameter, as is the
revision of a source profile.
-/

namespace RiskOps.Telemetry.Network

open RiskOps.Lib (Str IpAddress bind_eq_ok)
open RiskOps.Lib.PyJson

/-! ### Names -/

/-- The text of a version. -/
def ParserVersion.name : ParserVersion → List Char
  | .ufwV1 => "ufw-kernel-v1".toList
  | .netfilterV2 => "netfilter-kernel-v2".toList
  | .netfilterV3 => "netfilter-kernel-v3".toList

/-- The text of a protocol. -/
def Protocol.name : Protocol → List Char
  | .tcp => "TCP".toList
  | .udp => "UDP".toList
  | .other => "OTHER".toList

/-- The text of a direction. -/
def Direction.name : Direction → List Char
  | .unknown => "unknown".toList
  | .localInput => "local_input".toList

/-- The text of a coverage code. -/
def CoverageCode.name : CoverageCode → List Char
  | .loggingRateLimited => "logging_rate_limited".toList
  | .loggingLimitsUnknown => "logging_limits_unknown".toList
  | .journalRetentionUnknown => "journal_retention_unknown".toList
  | .unverifiedLocalInput => "unverified_local_input".toList
  | .incompleteInterfaces => "incomplete_interfaces".toList
  | .missingTransportPorts => "missing_transport_ports".toList
  | .tcpFlagsUnavailable => "tcp_flags_unavailable".toList
  | .truncatedTransportHeader => "truncated_transport_header".toList
  | .fragmentedPacket => "fragmented_packet".toList
  | .unsupportedProtocol => "unsupported_protocol".toList
  | .ipv6ExtensionHeaders => "ipv6_extension_headers".toList
  | .dynamicTerminalFiltering => "dynamic_terminal_filtering".toList

/-- The codes in the order of their texts. -/
def CoverageCode.sorted : List CoverageCode :=
  [.dynamicTerminalFiltering, .fragmentedPacket, .incompleteInterfaces, .ipv6ExtensionHeaders,
    .journalRetentionUnknown, .loggingLimitsUnknown, .loggingRateLimited, .missingTransportPorts,
    .tcpFlagsUnavailable, .truncatedTransportHeader, .unsupportedProtocol, .unverifiedLocalInput]

/-! ### Record -/

section Codecs

open Codec

/-- `parser_version`. -/
def parserVersionCode : Codec ParserVersion :=
  enum ParserVersion.name [.ufwV1, .netfilterV2, .netfilterV3]
    (fun a b => by cases a <;> cases b <;> decide) (fun a => by cases a <;> decide)

/-- `protocol`. -/
def protocolCode : Codec Protocol :=
  enum Protocol.name [.tcp, .udp, .other] (fun a b => by cases a <;> cases b <;> decide)
    (fun a => by cases a <;> decide)

/-- `direction` and `observation_point`. -/
def directionCode : Codec Direction :=
  enum Direction.name [.unknown, .localInput] (fun a b => by cases a <;> cases b <;> decide)
    (fun a => by cases a <;> decide)

/-- At most eight sorted flags. -/
def flagNamesCode : Codec (Finset TcpFlag) :=
  names 8 TcpFlag.name TcpFlag.sorted (by decide) (fun a => by cases a <;> decide) (by decide)

/-- `tcp_flags`. -/
def flagsCode : Codec (Option (Finset TcpFlag)) :=
  nullable flagNamesCode (fun a => by simp [flagNamesCode, names])

/-- `coverage`: at most sixteen sorted names. -/
def coverageCode : Codec (Finset CoverageCode) :=
  names 16 CoverageCode.name CoverageCode.sorted (by decide) (fun a => by cases a <;> decide)
    (by decide)

/-- A port: an integer or `null`. -/
def portCode : Codec (Option Nat) := nullable nat (fun a => by simp [nat])

/-- An interface: a text or `null`. -/
def interfaceCode : Codec (Option (List Char)) :=
  nullable Codec.text (fun a => by simp [Codec.text])

/-- `schema_version`. -/
def schemaCode : Codec Unit := nat.exactly 1

/-- `transport`. -/
def transportCode : Codec Unit := Codec.text.exactly "kernel".toList

/-- `final_outcome`. -/
def outcomeCode : Codec Unit := Codec.text.exactly "unknown".toList

end Codecs

/-! ### Observations -/

/-- The fields of an observation that its content hash covers. The order of a dict's members does
not matter: they are sorted when they are printed. -/
def contentRecord : Record (Content (List Char)) :=
  ((Record.one "source_id" Codec.text).and <| (Record.one "schema_version" schemaCode).and <|
    (Record.one "parser_version" parserVersionCode).and <| (Record.one "boot_id" Codec.text).and <|
    (Record.one "journal_cursor" Codec.text).and <|
    (Record.one "journal_realtime_us" Codec.nat).and <|
    (Record.one "journal_monotonic_us" Codec.nat).and <|
    (Record.one "transport" transportCode).and <| (Record.one "ip_family" Codec.nat).and <|
    (Record.one "src_ip" Codec.text).and <| (Record.one "dst_ip" Codec.text).and <|
    (Record.one "protocol" protocolCode).and <|
    (Record.one "observed_protocol" Codec.text).and <| (Record.one "src_port" portCode).and <|
    (Record.one "dst_port" portCode).and <| (Record.one "tcp_flags" flagsCode).and <|
    (Record.one "ingress_interface" interfaceCode).and <|
    (Record.one "egress_interface" interfaceCode).and <|
    (Record.one "direction" directionCode).and <|
    (Record.one "observation_point" directionCode).and <| (Record.one "log_label" Codec.text).and <|
    (Record.one "final_outcome" outcomeCode).and <|
    (Record.one "source_profile_revision" Codec.text).and <|
    (Record.one "coverage" coverageCode).and <| Record.one "rejection_related" Codec.bool).iso
  { toFun := fun (sourceId, _, parserVersion, bootId, journalCursor, journalRealtimeUs,
        journalMonotonicUs, _, ipFamily, srcIp, dstIp, protocol, observedProtocol, srcPort, dstPort,
        tcpFlags, ingressInterface, egressInterface, direction, observationPoint, logLabel, _,
        sourceProfileRevision, coverage, rejectionRelated) =>
      { sourceId, parserVersion, bootId, journalCursor, journalRealtimeUs, journalMonotonicUs,
        ipFamily, srcIp, dstIp, protocol, observedProtocol, srcPort, dstPort, tcpFlags,
        ingressInterface, egressInterface, direction, observationPoint, logLabel,
        sourceProfileRevision, coverage, rejectionRelated }
    invFun := fun e =>
      (e.sourceId, (), e.parserVersion, e.bootId, e.journalCursor, e.journalRealtimeUs,
        e.journalMonotonicUs, (), e.ipFamily, e.srcIp, e.dstIp, e.protocol, e.observedProtocol,
        e.srcPort, e.dstPort, e.tcpFlags, e.ingressInterface, e.egressInterface, e.direction,
        e.observationPoint, e.logLabel, (), e.sourceProfileRevision, e.coverage, e.rejectionRelated)
    left_inv := fun _ => rfl
    right_inv := fun _ => rfl }

/-- `fields(NetworkEvent)`: those of the content, and two digests. -/
def eventRecord : Record (NetworkEvent (List Char)) :=
  (contentRecord.and <|
    (Record.one "event_id" Codec.text).and <| Record.one "content_hash" Codec.text).iso
  { toFun := fun (content, eventId, contentHash) => { toContent := content, eventId, contentHash }
    invFun := fun e => (e.toContent, e.eventId, e.contentHash)
    left_inv := fun _ => rfl
    right_inv := fun _ => rfl }

/-- The names of the fields. -/
def fieldNames : List Str :=
  ["source_id", "schema_version", "parser_version", "boot_id", "journal_cursor",
    "journal_realtime_us", "journal_monotonic_us", "transport", "ip_family", "src_ip", "dst_ip",
    "protocol", "observed_protocol", "src_port", "dst_port", "tcp_flags", "ingress_interface",
    "egress_interface", "direction", "observation_point", "log_label", "final_outcome",
    "source_profile_revision", "coverage", "rejection_related", "event_id",
    "content_hash"].map Str.ofString

/-- What `_digest` hashes: the object with sorted keys, in ASCII. -/
def digestText (ms : List (Str × Value)) : Str := dumpsAscii (sortKeys (.obj ms))

/-- `_identity` and `_digest(_content(event))` over a digest of texts. -/
def textDigests (sha256 : Str → List Char) (revision : SourceProfile → List Char) :
    EventDigests (List Char) where
  revision := revision
  identity source boot cursor := sha256 (digestText
    ((Record.one "source_id" Codec.text).write source
      ++ (Record.one "boot_id" Codec.text).write boot
      ++ (Record.one "journal_cursor" Codec.text).write cursor))
  content e := sha256 (digestText (contentRecord.write e))

/-! ### Bytes -/

mutual

/-- How many values `decode` counts. -/
def nodes : Value → Nat
  | .arr vs => 1 + nodesItems vs
  | .obj ms => 1 + nodesMembers ms
  | _ => 1

def nodesItems : List Value → Nat
  | [] => 0
  | v :: vs => nodes v + nodesItems vs

def nodesMembers : List (Str × Value) → Nat
  | [] => 0
  | (_, v) :: ms => nodes v + nodesMembers ms

end

mutual

/-- The greatest depth at which `decode` meets a value. -/
def depth : Value → Nat
  | .arr vs => depthItems vs
  | .obj ms => depthMembers ms
  | _ => 0

def depthItems : List Value → Nat
  | [] => 0
  | v :: vs => max (depth v + 1) (depthItems vs)

def depthMembers : List (Str × Value) → Nat
  | [] => 0
  | (_, v) :: ms => max (depth v + 1) (depthMembers ms)

end

/-- `sys.getrecursionlimit()`. Text nested deeper than sixteen levels is refused in any case. -/
def recursionLimit : Nat := 1000

/-- `encode`. -/
def encode (v : Value) : Option Str := if finite v then some (dumpsAscii (sortKeys v)) else none

/-- `decode`; the codes of its refusals are left out. -/
def decode (raw : List Nat) : Option Value :=
  if maxBatchBytes < raw.length then none
  else (strictLoads recursionLimit raw).bind fun v =>
    if 16 < depth v ∨ 20000 < nodes v then none else some v

/-! ### Flat objects -/

/-- A short plain text. -/
def ShortText (limit : Nat) (s : Str) : Prop := s.length ≤ limit ∧ ∀ c ∈ s, Plain c

instance (c : Nat) : Decidable (Plain c) := inferInstanceAs (Decidable (32 ≤ c ∧ c < 127))

instance (limit : Nat) (s : Str) : Decidable (ShortText limit s) :=
  inferInstanceAs (Decidable (s.length ≤ limit ∧ ∀ c ∈ s, Plain c))

/-- A value of an observation's object: a number, a plain text, or a few short plain texts. -/
def Flat : Value → Prop
  | .null | .bool _ => True
  | .int n => 0 ≤ n ∧ n < 10 ^ 19
  | .str s => ShortText 2048 s
  | .arr vs => vs.length ≤ 16 ∧ ∀ v ∈ vs, ∃ s, v = .str s ∧ ShortText 64 s
  | _ => False

theorem strWeight_le_of_plain {s : Str} (h : ∀ c ∈ s, Plain c) : strWeight s ≤ 6 * s.length := by
  refine Nat.le_trans (strWeight_le s) (Nat.mul_le_mul_left 6 ?_)
  induction s with
  | nil => simp [utf8Length]
  | cons c s ih =>
    have hc : utf8Width c = 1 := if_pos (by have := (h c List.mem_cons_self).2; omega)
    have htail := ih fun d hd => h d (List.mem_cons_of_mem _ hd)
    simp only [utf8Length, List.map_cons, List.sum_cons, List.length_cons] at htail ⊢
    omega

theorem length_toDigits_flat {n : Int} (h : Flat (.int n)) :
    (Nat.toDigits 10 n.natAbs).length ≤ 19 := by
  have hlow := h.1
  have hhigh := h.2
  exact (Nat.length_toDigits_le_iff (by decide) (by decide)).mpr (by omega)

namespace Flat

variable {v : Value}

theorem readable (h : Flat v) : Readable v := by
  cases v with
  | int n =>
    have hlen := length_toDigits_flat h
    rw [Readable, digitCodes, List.length_map]
    exact Nat.le_trans hlen (by decide)
  | arr vs =>
    refine readableItems_iff.mpr fun w hw => ?_
    obtain ⟨s, rfl, -⟩ := h.2 w hw
    trivial
  | float l => exact h.elim
  | obj ms => exact h.elim
  | _ => trivial

theorem floatless (h : Flat v) : Floatless v = true := by
  cases v with
  | arr vs =>
    rw [Floatless, floatlessItems_eq_all, List.all_eq_true]
    intro w hw
    obtain ⟨s, rfl, -⟩ := h.2 w hw
    rfl
  | float l => exact h.elim
  | obj ms => exact h.elim
  | _ => rfl

theorem sortKeys (h : Flat v) : sortKeys v = v := by
  cases v with
  | arr vs =>
    rw [RiskOps.Lib.PyJson.sortKeys, sortItems_eq_map]
    have hmap : vs.map RiskOps.Lib.PyJson.sortKeys = vs.map id :=
      List.map_congr_left fun w hw => by
        obtain ⟨s, rfl, -⟩ := h.2 w hw
        rfl
    rw [hmap, List.map_id]
  | obj ms => exact h.elim
  | _ => rfl

theorem codes (h : Flat v) : ∀ c ∈ codes v, c < 127 := by
  intro c hc
  cases v with
  | str s => exact (h.2 c hc).2
  | arr vs =>
    obtain ⟨w, hw, hc⟩ := mem_codesItems.mp hc
    obtain ⟨s, rfl, hs⟩ := h.2 w hw
    exact (hs.2 c hc).2
  | obj ms => exact h.elim
  | _ => cases hc

theorem nesting_le (h : Flat v) : nesting v ≤ 1 := by
  cases v with
  | arr vs =>
    have hitems : ∀ ws ⊆ vs, nestingItems ws = 0 := by
      intro ws hws
      induction ws with
      | nil => rfl
      | cons w ws ih =>
        obtain ⟨s, rfl, -⟩ := h.2 w (hws List.mem_cons_self)
        rw [nestingItems, ih fun x hx => hws (List.mem_cons_of_mem _ hx)]
        rfl
    rw [nesting, hitems vs (List.Subset.refl vs)]
  | obj ms => exact h.elim
  | _ => exact Nat.zero_le 1

theorem depth_le (h : Flat v) : depth v ≤ 1 := by
  cases v with
  | arr vs =>
    have hitems : ∀ ws ⊆ vs, depthItems ws ≤ 1 := by
      intro ws hws
      induction ws with
      | nil => exact Nat.zero_le 1
      | cons w ws ih =>
        obtain ⟨s, rfl, -⟩ := h.2 w (hws List.mem_cons_self)
        exact max_le (Nat.le_refl 1) (ih fun x hx => hws (List.mem_cons_of_mem _ hx))
    exact hitems vs (List.Subset.refl vs)
  | obj ms => exact h.elim
  | _ => exact Nat.zero_le 1

theorem nodes_le (h : Flat v) : nodes v ≤ 17 := by
  cases v with
  | arr vs =>
    have hitems : ∀ ws ⊆ vs, nodesItems ws = ws.length := by
      intro ws hws
      induction ws with
      | nil => rfl
      | cons w ws ih =>
        obtain ⟨s, rfl, -⟩ := h.2 w (hws List.mem_cons_self)
        have hone : nodes (.str s) = 1 := rfl
        rw [nodesItems, ih fun x hx => hws (List.mem_cons_of_mem _ hx), hone, List.length_cons,
          Nat.add_comm]
    have hlen := h.1
    rw [nodes, hitems vs (List.Subset.refl vs)]
    omega
  | obj ms => exact h.elim
  | _ => exact Nat.le_add_left 1 16

theorem textBound_le (h : Flat v) : textBound v ≤ 12290 := by
  cases v with
  | int n =>
    have hlen := length_toDigits_flat h
    obtain ⟨m, rfl⟩ := Int.eq_ofNat_of_zero_le h.1
    rw [textBound]
    refine Nat.le_trans (Nat.le_of_eq ?_) (Nat.le_trans hlen (by decide))
    exact List.length_map _
  | str s =>
    have hweight := strWeight_le_of_plain h.2
    have hlen := h.1
    rw [textBound]
    omega
  | arr vs =>
    have hitems : ∀ ws ⊆ vs, itemsBound ws ≤ 387 * ws.length := by
      intro ws hws
      induction ws with
      | nil => exact Nat.zero_le _
      | cons w ws ih =>
        obtain ⟨s, rfl, hs⟩ := h.2 w (hws List.mem_cons_self)
        have hweight := strWeight_le_of_plain hs.2
        have hlen := hs.1
        have htail := ih fun x hx => hws (List.mem_cons_of_mem _ hx)
        rw [itemsBound, textBound, List.length_cons]
        omega
    have hbound := hitems vs (List.Subset.refl vs)
    have hlen := h.1
    rw [textBound]
    omega
  | float l => exact h.elim
  | obj ms => exact h.elim
  | _ => simp [textBound]

end Flat

variable {ms : List (Str × Value)}

/-- How much a flat object takes of each bound. -/
theorem bounds_of_flat (h : ∀ m ∈ ms, ShortText 64 m.1 ∧ Flat m.2) :
    membersBound ms ≤ 12678 * ms.length ∧ nodesMembers ms ≤ 17 * ms.length ∧
      depthMembers ms ≤ 2 := by
  induction ms with
  | nil => simp [membersBound, nodesMembers, depthMembers]
  | cons m ms ih =>
    obtain ⟨k, v⟩ := m
    obtain ⟨hkey, hv⟩ := h (k, v) List.mem_cons_self
    obtain ⟨htext, hnodes, hdepth⟩ := ih fun n hn => h n (List.mem_cons_of_mem _ hn)
    have hweight := strWeight_le_of_plain hkey.2
    have hlen : k.length ≤ 64 := hkey.1
    have h₁ := hv.textBound_le
    have h₂ := hv.nodes_le
    have h₃ := hv.depth_le
    dsimp only at hweight h₁ h₂ h₃
    rw [membersBound, nodesMembers, depthMembers, List.length_cons]
    exact ⟨by omega, by omega, by omega⟩

/-- **A flat object travels.** What is printed is read back, with its members sorted. -/
theorem decode_encode (hkeys : (ms.map Prod.fst).Nodup) (hcount : ms.length ≤ 32)
    (hflat : ∀ m ∈ ms, ShortText 64 m.1 ∧ Flat m.2) :
    ∃ raw sorted, encode (.obj ms) = some raw ∧ sorted.Perm ms ∧
      decode raw = some (.obj sorted) := by
  have hsort : sortMembers ms = ms := by
    rw [sortMembers_eq_map]
    have hmap : ms.map (fun m => (m.1, sortKeys m.2)) = ms.map id :=
      List.map_congr_left fun m hm => by rw [(hflat m hm).2.sortKeys]; rfl
    rw [hmap, List.map_id]
  have hperm : (ms.insertionSort fun a b => a.1 ≤ b.1).Perm ms := List.perm_insertionSort _ _
  generalize hsorted : ms.insertionSort (fun a b => a.1 ≤ b.1) = sorted at hperm
  have hflat' : ∀ m ∈ sorted, ShortText 64 m.1 ∧ Flat m.2 :=
    fun m hm => hflat m (hperm.mem_iff.mp hm)
  have hobj : sortKeys (.obj ms) = .obj sorted := by rw [sortKeys, hsort, hsorted]
  have hread : Readable (.obj sorted) :=
    ⟨(hperm.map Prod.fst).nodup_iff.mpr hkeys,
      readableMembers_iff.mpr fun m hm => (hflat' m hm).2.readable⟩
  have hfloats : Floatless (.obj sorted) = true := by
    rw [Floatless, floatlessMembers_eq_all, List.all_eq_true]
    exact fun m hm => (hflat' m hm).2.floatless
  have hcodes : ∀ c ∈ codes (.obj sorted), c < 127 := by
    intro c hc
    obtain ⟨m, hm, hc⟩ := mem_codesMembers.mp hc
    rcases hc with hc | hc
    · exact ((hflat' m hm).1.2 c hc).2
    · exact (hflat' m hm).2.codes c hc
  have hnesting : nesting (.obj sorted) ≤ recursionLimit := by
    have hmembers : nestingMembers sorted ≤ 1 :=
      nestingMembers_le.mpr fun m hm => (hflat' m hm).2.nesting_le
    rw [nesting, recursionLimit]
    omega
  obtain ⟨htext, hnodes, hdepth⟩ := bounds_of_flat hflat'
  have hlen : sorted.length ≤ 32 := by rwa [hperm.length_eq]
  have hsize : (dumpsAscii (.obj sorted)).length ≤ maxBatchBytes := by
    have hbound := length_dumpsAscii_le (.obj sorted)
    rw [textBound] at hbound
    rw [maxBatchBytes]
    omega
  refine ⟨dumpsAscii (.obj sorted), sorted, ?_, hperm, ?_⟩
  · have hfinite : finite (.obj ms) = true := by
      refine finite_of_floatless _ ?_
      rw [Floatless, floatlessMembers_eq_all, ← hperm.all_eq]
      rwa [Floatless, floatlessMembers_eq_all] at hfloats
    rw [encode, if_pos hfinite, hobj]
  · rw [decode, if_neg (Nat.not_lt.mpr hsize), strictLoads_dumpsAscii hread hfloats hcodes hnesting,
      Option.bind_some, if_neg]
    rw [depth, nodes]
    omega
/-! ### The texts of a valid observation -/

/-- A text that is flat. -/
def PlainText (s : List Char) : Prop := s.length ≤ 2048 ∧ ∀ c ∈ s, Plain c.toNat

variable {s : List Char}

theorem PlainText.short (h : PlainText s) : ShortText 2048 (Codec.codesOf s) := by
  refine ⟨by simpa [Codec.codesOf] using h.1, fun c hc => ?_⟩
  obtain ⟨d, hd, rfl⟩ := List.mem_map.mp hc
  exact h.2 d hd

variable {c : Char}

theorem plain_of_alphanum (h : c.isAlphanum = true) : Plain c.toNat := by
  simp only [Char.isAlphanum, Char.isAlpha, Char.isUpper, Char.isLower, Char.isDigit,
    Bool.or_eq_true, Bool.and_eq_true, decide_eq_true_eq, ge_iff_le, UInt32.le_iff_toNat_le] at h
  have hval : c.val.toNat = c.toNat := rfl
  have h₁ : ('a' : Char).val.toNat = 97 := rfl
  have h₂ : ('z' : Char).val.toNat = 122 := rfl
  have h₃ : ('A' : Char).val.toNat = 65 := rfl
  have h₄ : ('Z' : Char).val.toNat = 90 := rfl
  have h₅ : ('0' : Char).val.toNat = 48 := rfl
  have h₆ : ('9' : Char).val.toNat = 57 := rfl
  unfold Plain
  omega

/-- A class of characters made of letters, digits and plain signs. -/
theorem plain_of_class (signs : List Char)
    (hsigns : (signs.all fun d => decide (Plain d.toNat)) = true)
    (h : c.isAlphanum = true ∨ c ∈ signs) : Plain c.toNat :=
  h.elim plain_of_alphanum fun hc => by simpa using List.all_eq_true.mp hsigns c hc

/-- A literal that is flat. -/
theorem plainText_literal (hlen : s.length ≤ 2048)
    (h : (s.all fun c => decide (Plain c.toNat)) = true) : PlainText s :=
  ⟨hlen, fun c hc => by simpa using List.all_eq_true.mp h c hc⟩

theorem isAlphanum_of_isUpper (h : c.isUpper = true) : c.isAlphanum = true := by
  simp [Char.isAlphanum, Char.isAlpha, h]

theorem isAlphanum_of_isDigit (h : c.isDigit = true) : c.isAlphanum = true := by
  simp [Char.isAlphanum, h]

theorem plain_of_hexChar (h : hexChar c = true) : Plain c.toNat := by
  simp only [hexChar, Bool.or_eq_true, Bool.and_eq_true, decide_eq_true_eq, Char.le_def,
    UInt32.le_iff_toNat_le] at h
  rcases h with h | h
  · exact plain_of_alphanum (isAlphanum_of_isDigit h)
  · have hval : c.val.toNat = c.toNat := rfl
    have ha : ('a' : Char).val.toNat = 97 := rfl
    have hf : ('f' : Char).val.toNat = 102 := rfl
    unfold Plain
    omega

theorem plainText_hex {n : Nat} (hlen : s.length = n) (hn : n ≤ 2048) (h : s.all hexChar = true) :
    PlainText s :=
  ⟨by omega, fun c hc => plain_of_hexChar (List.all_eq_true.mp h c hc)⟩

theorem plainText_isHex64 (h : isHex64 s = true) : PlainText s := by
  simp only [isHex64, Bool.and_eq_true, decide_eq_true_eq] at h
  exact plainText_hex h.1 (by decide) h.2

theorem plainText_isBoot (h : isBoot s = true) : PlainText s := by
  simp only [isBoot, Bool.and_eq_true, decide_eq_true_eq] at h
  exact plainText_hex h.1 (by decide) h.2

theorem plainText_isAscii (h : isAscii maxCursorBytes s = true) : PlainText s := by
  simp only [isAscii, Bool.and_eq_true, decide_eq_true_eq, List.all_eq_true] at h
  exact ⟨h.1.2, fun c hc => ⟨(h.2 c hc).1, Nat.lt_succ_of_le (h.2 c hc).2⟩⟩

theorem plainText_isId (h : isId s = true) : PlainText s := by
  cases s with
  | nil => cases h
  | cons c rest =>
    simp only [isId, Bool.and_eq_true, decide_eq_true_eq, List.all_eq_true] at h
    refine ⟨by simp only [List.length_cons]; omega, fun d hd => ?_⟩
    rcases List.mem_cons.mp hd with rfl | hd
    · exact plain_of_alphanum h.1.1
    · have hclass := h.1.2 d hd
      simp only [idChar, Bool.or_eq_true, beq_iff_eq] at hclass
      exact plain_of_class ['_', '.', ':', '-'] (by decide)
        (by simpa [or_assoc] using hclass)

theorem plainText_isProtocol (h : isProtocol s = true) : PlainText s := by
  simp only [isProtocol, Bool.and_eq_true, decide_eq_true_eq, List.all_eq_true, Bool.or_eq_true,
    beq_iff_eq] at h
  refine ⟨by omega, fun c hc => ?_⟩
  exact plain_of_class ['_', '-'] (by decide)
    (by simpa [or_assoc] using h.2 c hc)

theorem plainText_isInterface (h : isInterface s = true) : PlainText s := by
  simp only [isInterface, Bool.and_eq_true, decide_eq_true_eq, List.all_eq_true, Bool.or_eq_true,
    beq_iff_eq] at h
  refine ⟨by omega, fun c hc => ?_⟩
  exact plain_of_class ['_', '.', ':', '@', '-'] (by decide)
    (by simpa [or_assoc] using h.2 c hc)

/-- A text whose last character is known, by the rest. -/
theorem mem_of_getLast? {last : Char} (h : s.getLast? = some last) (hc : c ∈ s) :
    c ∈ s.dropLast ∨ c = last := by
  obtain ⟨front, rfl⟩ := List.getLast?_eq_some_iff.mp h
  simpa using hc

theorem plainText_isLabel (h : isLabel s = true) : PlainText s := by
  unfold isLabel at h
  split at h
  · rename_i c rest
    simp only [Bool.and_eq_true, Bool.or_eq_true, decide_eq_true_eq, beq_iff_eq,
      List.all_eq_true] at h
    obtain ⟨⟨⟨hfirst, hlast⟩, hinner⟩, hlen⟩ := h
    refine ⟨by simp only [List.length_cons]; omega, fun d hd => ?_⟩
    rcases List.mem_cons.mp hd with rfl | hd
    · exact ⟨by decide, by decide⟩
    rcases List.mem_cons.mp hd with rfl | hd
    · exact plain_of_alphanum (hfirst.elim isAlphanum_of_isUpper isAlphanum_of_isDigit)
    rcases mem_of_getLast? hlast hd with hd | rfl
    · have hclass := hinner d hd
      simp only [labelChar, Bool.or_eq_true, beq_iff_eq] at hclass
      refine plain_of_class [' ', '_', ':', '-'] (by decide) ?_
      rcases hclass with ((((hup | hdigit) | rfl) | rfl) | rfl) | rfl
      · exact .inl (isAlphanum_of_isUpper hup)
      · exact .inl (isAlphanum_of_isDigit hdigit)
      all_goals exact .inr (by decide)
    · exact ⟨by decide, by decide⟩
  · cases h

theorem plainText_isNativeLabel (h : isNativeLabel s = true) : PlainText s := by
  cases s with
  | nil => cases h
  | cons c rest =>
    simp only [isNativeLabel, Bool.and_eq_true, Bool.or_eq_true, decide_eq_true_eq, beq_iff_eq,
      List.all_eq_true] at h
    obtain ⟨⟨⟨hfirst, hlast⟩, hinner⟩, hlen⟩ := h
    refine ⟨by simp only [List.length_cons]; omega, fun d hd => ?_⟩
    rcases List.mem_cons.mp hd with rfl | hd
    · exact plain_of_alphanum (by simp [Char.isAlphanum, hfirst])
    rcases mem_of_getLast? hlast hd with hd | rfl
    · exact plain_of_class ['_', '.', '-'] (by decide)
        (by simpa [or_assoc] using hinner d hd)
    · exact ⟨by decide, by decide⟩

theorem plainText_isAnyLabel (h : isAnyLabel s = true) : PlainText s := by
  rw [isAnyLabel, Bool.or_eq_true] at h
  exact h.elim plainText_isLabel plainText_isNativeLabel

theorem plainText_address {a : IpAddress} (h : address s = .ok a) (htext : a.toText = s) :
    PlainText s := by
  rw [address] at h
  split at h
  · cases h
  · rename_i hbounds
    simp only [Bool.or_eq_true, decide_eq_true_eq, not_or, not_lt, List.contains_eq_mem] at hbounds
    split at h
    · cases h
    · rename_i b hparse
      have hzone := IpAddress.zone_eq_none hparse hbounds.2
      split at h
      · cases h
      · obtain rfl := Except.ok.inj h
        refine ⟨by omega, fun c hc => ?_⟩
        rw [← htext] at hc
        exact IpAddress.ascii_of_mem_toText hzone hc

section Wire

variable (digests : EventDigests (List Char))

/-- `validate_event` accepts the observation: its digests are also hexadecimal. -/
def validEvent (e : NetworkEvent (List Char)) : Bool :=
  (validateEvent digests e).isOk && isHex64 e.eventId && isHex64 e.contentHash &&
    isHex64 e.sourceProfileRevision

/-- `event_to_dict`. -/
def eventToDict (e : NetworkEvent (List Char)) : Option Value :=
  if validEvent digests e then some (.obj (eventRecord.write e)) else none

/-- `event_from_dict`. -/
def eventFromDict : Value → Option (NetworkEvent (List Char))
  | .obj ms =>
    if (ms.map Prod.fst).isPerm fieldNames then
      (eventRecord.read ms).bind fun e => if validEvent digests e then some e else none
    else none
  | _ => none

theorem keys_write (e : NetworkEvent (List Char)) :
    (eventRecord.write e).map Prod.fst = fieldNames := rfl

theorem nodup_fieldNames : fieldNames.Nodup := by decide

/-- An object is accepted exactly when it is what a valid observation is written as. -/
theorem eventFromDict_obj {e : NetworkEvent (List Char)} :
    eventFromDict digests (.obj ms) = some e
      ↔ ms.Perm (eventRecord.write e) ∧ validEvent digests e = true := by
  have hnodup : ((eventRecord.write e).map Prod.fst).Nodup := by
    rw [keys_write]
    exact nodup_fieldNames
  simp only [eventFromDict, Option.ite_none_right_eq_some, List.isPerm_iff, Option.bind_eq_some_iff,
    eventRecord.law]
  constructor
  · rintro ⟨hkeys, e', hread, hvalid, heq⟩
    obtain rfl := Option.some.inj heq
    exact ⟨perm_of_lookup_eq hnodup (by rwa [keys_write]) hread, hvalid⟩
  · rintro ⟨hperm, hvalid⟩
    refine ⟨?_, e, fun w hw => lookup_eq_of_perm hnodup hperm hw, hvalid, rfl⟩
    rw [← keys_write e]
    exact hperm.map Prod.fst

/-! ### A valid observation is flat -/

/-- A check that fails lets nothing through. -/
theorem check_eq_ok {p : Prop} [Decidable p] {code : String} {rest : Except String Unit}
    {u : Unit} :
    (if p then .error code else rest) = .ok u ↔ ¬p ∧ rest = .ok u := by
  by_cases hp : p
  · simp [hp]
  · simp [hp]

/-- What the fields of a valid observation are. -/
structure FlatEvent (e : NetworkEvent (List Char)) : Prop where
  sourceId : PlainText e.sourceId
  bootId : PlainText e.bootId
  journalCursor : PlainText e.journalCursor
  realtime : e.journalRealtimeUs ≤ maxRealtimeUs
  monotonic : e.journalMonotonicUs ≤ maxMonotonicUs
  ipFamily : e.ipFamily ≤ 6
  srcIp : PlainText e.srcIp
  dstIp : PlainText e.dstIp
  observedProtocol : PlainText e.observedProtocol
  srcPort : ∀ p ∈ e.srcPort, p ≤ 65535
  dstPort : ∀ p ∈ e.dstPort, p ≤ 65535
  ingressInterface : ∀ i ∈ e.ingressInterface, PlainText i
  egressInterface : ∀ i ∈ e.egressInterface, PlainText i
  logLabel : PlainText e.logLabel
  sourceProfileRevision : PlainText e.sourceProfileRevision
  eventId : PlainText e.eventId
  contentHash : PlainText e.contentHash

theorem ipVersion_le (a : IpAddress) : ipVersion a ≤ 6 := by
  cases a <;> simp [ipVersion]

theorem flatEvent_of_valid {e : NetworkEvent (List Char)} (h : validEvent digests e = true) :
    FlatEvent e := by
  simp only [validEvent, Bool.and_eq_true] at h
  obtain ⟨⟨⟨hvalid, hid⟩, hhash⟩, hrevision⟩ := h
  have hok : validateEvent digests e = .ok () := by
    cases hresult : validateEvent digests e with
    | ok u => rfl
    | error code =>
      rw [hresult] at hvalid
      cases hvalid
  obtain ⟨_, hidentity, hok⟩ := bind_eq_ok.mp hok
  obtain ⟨_, haddresses, hok⟩ := bind_eq_ok.mp hok
  obtain ⟨_, htransport, hok⟩ := bind_eq_ok.mp hok
  obtain ⟨_, hobservation, -⟩ := bind_eq_ok.mp hok
  obtain ⟨src, hsrc, haddresses⟩ := bind_eq_ok.mp haddresses
  obtain ⟨dst, hdst, haddresses⟩ := bind_eq_ok.mp haddresses
  simp only [check_eq_ok, validIdentity, Bool.not_eq_true', Bool.not_eq_false, and_true,
    Bool.or_eq_true, decide_eq_true_eq, not_or, not_lt] at hidentity
  simp only [check_eq_ok, not_or, not_not, and_true] at haddresses
  simp only [check_eq_ok, validTransport, Bool.or_eq_true, not_or, Bool.not_eq_true',
    Bool.not_eq_false, Bool.and_eq_true, Option.any_eq_true, Option.all_eq_true,
    decide_eq_true_eq, not_exists, not_and, not_lt, and_true] at htransport
  simp only [check_eq_ok, validObservation, Bool.not_eq_true', Bool.not_eq_false] at hobservation
  obtain ⟨hsource, hboot, hcursor, hrealtime, hmonotonic⟩ := hidentity
  obtain ⟨-, hfamily, hsrctext, hdsttext⟩ := haddresses
  obtain ⟨⟨hprotocol, -⟩, ⟨hsrcport, hdstport⟩, -, hingress, hegress⟩ := htransport
  exact
    { sourceId := plainText_isId hsource
      bootId := plainText_isBoot hboot
      journalCursor := plainText_isAscii hcursor
      realtime := hrealtime
      monotonic := hmonotonic
      ipFamily := hfamily ▸ ipVersion_le src
      srcIp := plainText_address hsrc hsrctext
      dstIp := plainText_address hdst hdsttext
      observedProtocol := plainText_isProtocol hprotocol
      srcPort := hsrcport
      dstPort := hdstport
      ingressInterface := fun i hi => plainText_isInterface (hingress i hi)
      egressInterface := fun i hi => plainText_isInterface (hegress i hi)
      logLabel := plainText_isAnyLabel (by
        have hlabel := hobservation.2.2.1
        split at hlabel
        · simp [isAnyLabel, hlabel]
        · exact hlabel)
      sourceProfileRevision := plainText_isHex64 hrevision
      eventId := plainText_isHex64 hid
      contentHash := plainText_isHex64 hhash }

section Write

open Codec

theorem flat_text (h : PlainText s) : Flat (Codec.text.write s) := h.short

theorem flat_nat {n : Nat} (h : n < 10 ^ 19) : Flat (nat.write n) :=
  ⟨Int.natCast_nonneg n, by exact_mod_cast h⟩

theorem flat_port {port : Option Nat} (h : ∀ p ∈ port, p ≤ 65535) : Flat (portCode.write port) := by
  cases port with
  | none => trivial
  | some p => exact flat_nat (Nat.lt_of_le_of_lt (h p rfl) (by decide))

theorem flat_interface {name : Option (List Char)} (h : ∀ i ∈ name, PlainText i) :
    Flat (interfaceCode.write name) := by
  cases name with
  | none => trivial
  | some i => exact flat_text (h i rfl)

/-- A few short names. -/
theorem flat_names {α : Type} [DecidableEq α] {limit : Nat} {name : α → List Char} {all : List α}
    {hsorted : (all.map name).Pairwise (· < ·)} {hall : ∀ a, a ∈ all} {hlimit : all.length ≤ limit}
    (hfew : all.length ≤ 16) (hshort : ∀ a ∈ all, ShortText 64 (codesOf (name a))) (S : Finset α) :
    Flat ((names limit name all hsorted hall hlimit).write S) := by
  refine ⟨?_, fun v hv => ?_⟩
  · refine Nat.le_trans ?_ hfew
    simpa [namesOf] using List.length_filter_le _ all
  · obtain ⟨s, hs, rfl⟩ := List.mem_map.mp hv
    obtain ⟨a, ha, rfl⟩ := List.mem_map.mp hs
    exact ⟨_, rfl, hshort a (List.mem_filter.mp ha).1⟩

theorem flat_flagNames (S : Finset TcpFlag) : Flat (flagNamesCode.write S) :=
  flat_names (by decide) (by decide) S

theorem flat_flags (flags : Option (Finset TcpFlag)) : Flat (flagsCode.write flags) := by
  cases flags with
  | none => trivial
  | some S => exact flat_flagNames S

theorem flat_coverage (S : Finset CoverageCode) : Flat (coverageCode.write S) :=
  flat_names (by decide) (by decide) S

end Write

theorem flat_write {e : NetworkEvent (List Char)} (h : FlatEvent e) :
    ∀ m ∈ eventRecord.write e, ShortText 64 m.1 ∧ Flat m.2 := by
  have hkeys : ∀ k ∈ fieldNames, ShortText 64 k := by
    decide
  have hconst : Flat (schemaCode.write ()) ∧ Flat (transportCode.write ())
      ∧ Flat (outcomeCode.write ()) := by
    refine ⟨flat_nat (by decide), flat_text ?_, flat_text ?_⟩
    all_goals exact plainText_literal (by decide) (by decide)
  have hversion : Flat (parserVersionCode.write e.parserVersion) :=
    flat_text (by cases e.parserVersion <;> exact plainText_literal (by decide) (by decide))
  have hprotocol : Flat (protocolCode.write e.protocol) :=
    flat_text (by cases e.protocol <;> exact plainText_literal (by decide) (by decide))
  have hdirection : ∀ d, Flat (directionCode.write d) := fun d =>
    flat_text (by cases d <;> exact plainText_literal (by decide) (by decide))
  have hrealtime := h.realtime
  have hmonotonic := h.monotonic
  have hfamily := h.ipFamily
  unfold maxRealtimeUs at hrealtime
  unfold maxMonotonicUs at hmonotonic
  have hvalues : ∀ m ∈ eventRecord.write e, Flat m.2 := by
    simp only [eventRecord, contentRecord, Record.iso, Record.and, Record.one, Equiv.coe_fn_symm_mk,
      List.forall_mem_append, List.forall_mem_singleton]
    exact ⟨⟨flat_text h.sourceId, hconst.1, hversion, flat_text h.bootId, flat_text h.journalCursor,
      flat_nat (by omega), flat_nat (by omega), hconst.2.1, flat_nat (by omega), flat_text h.srcIp,
      flat_text h.dstIp, hprotocol, flat_text h.observedProtocol, flat_port h.srcPort,
      flat_port h.dstPort, flat_flags e.tcpFlags, flat_interface h.ingressInterface,
      flat_interface h.egressInterface, hdirection _, hdirection _, flat_text h.logLabel,
      hconst.2.2, flat_text h.sourceProfileRevision, flat_coverage e.coverage, trivial⟩,
      flat_text h.eventId, flat_text h.contentHash⟩
  exact fun m hm => ⟨hkeys m.1 (keys_write e ▸ List.mem_map_of_mem hm), hvalues m hm⟩

/-! ### What travels -/

/-- What is accepted is the dict of the observation, up to the order of its members. -/
def SameObject : Value → Value → Prop
  | .obj ms, .obj ns => ms.Perm ns
  | _, _ => False

/-- Equal dicts are printed alike. -/
theorem encode_eq_of_perm {ns : List (Str × Value)} (hkeys : (ms.map Prod.fst).Nodup)
    (h : ms.Perm ns) : encode (.obj ms) = encode (.obj ns) := by
  have hdict : SameDict ms ns := by
    rw [SameDict, sortMembers_eq_map, sortMembers_eq_map]
    exact h.map _
  have hfinite : finite (.obj ms) = finite (.obj ns) := by
    rw [finite, finite, finiteMembers_eq_all, finiteMembers_eq_all, h.all_eq]
  rw [encode, encode, hfinite, hdict.sortKeys_eq hkeys]

/-- `fingerprint`. -/
def fingerprint (sha256 : Str → List Char) (v : Value) : Option (List Char) := (encode v).map sha256

/-- Observations survive the wire: what is sent is received as the same observation, and what is
received is the one object its observation is written as, so that both sides hash one text. -/
theorem event_wire_exact (sha256 : Str → List Char) (revision : SourceProfile → List Char) :
    (∀ e, validEvent (textDigests sha256 revision) e = true →
      ∃ v raw received, eventToDict (textDigests sha256 revision) e = some v ∧
        encode v = some raw ∧ decode raw = some received ∧
        eventFromDict (textDigests sha256 revision) received = some e) ∧
    (∀ v e, eventFromDict (textDigests sha256 revision) v = some e →
      ∃ w, eventToDict (textDigests sha256 revision) e = some w ∧ SameObject v w ∧
        fingerprint sha256 v = fingerprint sha256 w) := by
  constructor
  · intro e hvalid
    have hnodup : ((eventRecord.write e).map Prod.fst).Nodup := by
      rw [keys_write]
      exact nodup_fieldNames
    obtain ⟨raw, sorted, hencode, hperm, hdecode⟩ := decode_encode hnodup
      (Nat.le_of_ble_eq_true rfl) (flat_write (flatEvent_of_valid _ hvalid))
    exact ⟨_, raw, .obj sorted, if_pos hvalid, hencode, hdecode,
      (eventFromDict_obj _).mpr ⟨hperm, hvalid⟩⟩
  · intro v e h
    cases v with
    | obj ms =>
      obtain ⟨hperm, hvalid⟩ := (eventFromDict_obj _).mp h
      have hnodup : (ms.map Prod.fst).Nodup := by
        rw [(hperm.map Prod.fst).nodup_iff, keys_write]
        exact nodup_fieldNames
      exact ⟨_, if_pos hvalid, hperm, by
        rw [fingerprint, fingerprint, encode_eq_of_perm hnodup hperm]⟩
    | _ => cases h

end Wire

/-! ### A blocked connection -/

/-- The digests of the two texts of `blocked`; they differ in length. -/
def blockedSha256 (text : Str) : List Char :=
  if text.length = 95 then "88657bc86812962355441f25b67889e1d4a300c69f7fab9631d9a215c2527a20".toList
  else "1e152740185dac42e5e2ab98c7fc8dd4960ad611c8174a0304e862e5cad5d2e4".toList

/-- A refused connection attempt. -/
def blocked : NetworkEvent (List Char) where
  sourceId := "fw1".toList
  parserVersion := .ufwV1
  bootId := "0123456789abcdef0123456789abcdef".toList
  journalCursor := "s=1;i=\"2\"".toList
  journalRealtimeUs := 1767225600000000
  journalMonotonicUs := 17
  ipFamily := 4
  srcIp := "192.0.2.9".toList
  dstIp := "198.51.100.7".toList
  protocol := .tcp
  observedProtocol := "TCP".toList
  srcPort := some 40000
  dstPort := some 22
  tcpFlags := some {.syn, .ack}
  ingressInterface := some "eth0".toList
  egressInterface := none
  direction := .unknown
  observationPoint := .unknown
  logLabel := "[UFW BLOCK]".toList
  sourceProfileRevision := List.replicate 64 'a'
  coverage := {.journalRetentionUnknown, .unverifiedLocalInput}
  rejectionRelated := true
  eventId := "88657bc86812962355441f25b67889e1d4a300c69f7fab9631d9a215c2527a20".toList
  contentHash := "1e152740185dac42e5e2ab98c7fc8dd4960ad611c8174a0304e862e5cad5d2e4".toList

theorem event_wire_exact_blocked :
    ∃ v raw received, eventToDict (textDigests blockedSha256 fun _ => []) blocked = some v ∧
      encode v = some raw ∧ decode raw = some received ∧
      eventFromDict (textDigests blockedSha256 fun _ => []) received = some blocked :=
  (event_wire_exact blockedSha256 fun _ => []).1 blocked (by decide +kernel)

end RiskOps.Telemetry.Network
