import RiskOps.Joint.ReaderSpec
import RiskOps.Telemetry.CaseRevisions

/-!
# RiskOps.Joint.NetworkReadable — which case revisions the joint reader can read

**The analysis writes, the reader reads.** `Print.db` is the network database as
`read_network_case` finds it: what the tables of the analysis hold, as text and numbers. Every
revision of every reachable state has a header the reader accepts, and as many rows as it counts;
a row is accepted unless its destination port is 0, which `validate_event` allows and
`NetworkEvidence` does not (`readable_iff_no_port_zero`).
-/

namespace RiskOps.JointEvidence

open RiskOps.Lib RiskOps.Telemetry

/-! ### Texts -/

/-- `_COVERAGE`. -/
def coverageText : Network.CoverageCode → String
  | .loggingRateLimited => "logging_rate_limited"
  | .loggingLimitsUnknown => "logging_limits_unknown"
  | .journalRetentionUnknown => "journal_retention_unknown"
  | .unverifiedLocalInput => "unverified_local_input"
  | .incompleteInterfaces => "incomplete_interfaces"
  | .missingTransportPorts => "missing_transport_ports"
  | .tcpFlagsUnavailable => "tcp_flags_unavailable"
  | .truncatedTransportHeader => "truncated_transport_header"
  | .fragmentedPacket => "fragmented_packet"
  | .unsupportedProtocol => "unsupported_protocol"
  | .ipv6ExtensionHeaders => "ipv6_extension_headers"
  | .dynamicTerminalFiltering => "dynamic_terminal_filtering"

/-- `REJECTION_CODES`. -/
def rejectionText : Network.RejectionCode → String
  | .invalidRecord => "invalid_record"
  | .profileContextUnavailable => "profile_context_unavailable"

/-- `REPORT_CODES`. -/
def reportText : Network.Report → String
  | .coverageStart => "coverage_start"
  | .journalCursorUnavailable => "journal_cursor_unavailable"
  | .profileDrift => "profile_drift"
  | .catchingUp => "catching_up"
  | .profileBoundary => "profile_boundary"

/-- A code in `coverage`. -/
def noteText : Network.Note → String
  | .offlineContextOnly => "offline_context_only"
  | .observationsAreLowerBounds => "observations_are_lower_bounds"
  | .apparentSourceNotIdentity => "apparent_source_not_identity"
  | .journalClockDiscontinuity => "journal_clock_discontinuity"
  | .monotonicHourReviewBucket => "monotonic_hour_review_bucket"
  | .contextLimit => "context_limit"
  | .rawHistoryExpiredBeforeAnalysis => "raw_history_expired_before_analysis"
  | .expiredContext => "expired_context"
  | .rejectedRecords => "rejected_records"
  | .collectionBacklogObserved => "collection_backlog_observed"
  | .coverage code => coverageText code
  | .rejection code => rejectionText code
  | .report code => reportText code

/-- `protocol` of an observation. -/
def protocolText : Network.Protocol → String
  | .tcp => "TCP"
  | .udp => "UDP"
  | .other => "OTHER"

/-- `direction` of an observation. -/
def directionText : Network.Direction → String
  | .localInput => "local_input"
  | .unknown => "unknown"

/-! ### The tables as text -/

/-- What comes from outside: the texts of the digests, the digest a case is named after, and what
`_consume` counts. -/
structure Print (D : Type) where
  digest : D → Digest
  /-- `fingerprint([CORRELATION_VERSION, *key])`. -/
  fingerprint : Network.WindowKey D → Digest
  producerId : Identifier
  schemaBytes : Nat
  producerBytes : Nat
  headerBytes : Nat → Network.Payload D → Nat
  countBytes : Nat
  rowBytes : Network.NetworkEvent D → Nat

namespace Print

variable {D : Type}

/-- `"NET-" + fingerprint([CORRELATION_VERSION, *key])[:32]`. -/
def incidentId (w : Print D) (key : Network.WindowKey D) : String :=
  String.ofList (['N', 'E', 'T', '-'] ++ (w.fingerprint key).val.toList.take 32)

/-- `sorted(coverage)`. -/
def coverage (notes : Finset Network.Note) : List String :=
  (notes.image noteText).sort (· ≤ ·)

/-- A row of `network_incident_revisions`. -/
def header (w : Print D) (x : Network.WindowKey D × Nat × Network.Payload D) : HeaderRow where
  incidentId := w.incidentId x.1
  revision := x.2.1
  payloadIncidentId := some (w.incidentId x.2.2.key)
  sourceId := some (String.ofList x.2.2.key.1.sourceId)
  bootId := some (String.ofList x.2.2.key.1.bootId)
  profileRevision := some (w.digest x.2.2.key.1.sourceProfileRevision).val
  srcIp := some (String.ofList x.2.2.key.1.srcIp)
  dstIp := some (String.ofList x.2.2.key.1.dstIp)
  protocol := some "network"
  payloadRevision := some x.2.1
  evidenceCount := some x.2.2.evidenceCount
  active := some x.2.2.active
  stale := some x.2.2.stale
  coverage := some ((coverage x.2.2.coverage).map .str)
  bytes := w.headerBytes x.2.1 x.2.2

/-- A row of `network_evidence`. -/
def row (w : Print D) (x : Network.Evidence D) : NetworkRow where
  incidentId := w.incidentId x.key
  eventId := (w.digest x.event.eventId).val
  monotonicUs := x.event.journalMonotonicUs
  sourceId := some (String.ofList x.event.sourceId)
  jsonEventId := some (w.digest x.event.eventId).val
  bootId := some (String.ofList x.event.bootId)
  profileRevision := some (w.digest x.event.sourceProfileRevision).val
  srcIp := some (String.ofList x.event.srcIp)
  dstIp := some (String.ofList x.event.dstIp)
  protocol := some (protocolText x.event.protocol)
  direction := some (directionText x.event.direction)
  realtimeUs := some x.event.journalRealtimeUs
  jsonMonotonicUs := some x.event.journalMonotonicUs
  dstPort := x.event.dstPort.map Int.ofNat
  bytes := w.rowBytes x.event

/-- A row of `network_evidence_membership`. -/
def membership (w : Print D) (m : Member (Network.WindowKey D) D) : Membership where
  incidentId := w.incidentId m.owner
  eventId := (w.digest m.item).val
  fromRevision := m.fromRevision
  toRevision := m.toRevision.map Int.ofNat

/-- The network database. -/
def db (w : Print D) (A : Network.Analysis D) : NetworkDb where
  applicationId := 0x4E455431
  userVersion := 2
  schemaBytes := w.schemaBytes
  producer := some (some w.producerId.val)
  producerBytes := w.producerBytes
  revisions := A.book.revisions.map w.header
  evidence := A.evidence.rows.map w.row
  memberships := A.book.membership.map w.membership
  countBytes := w.countBytes

/-- What a read of the revision consumes. -/
def readBytes (w : Print D) (revision : Nat) (payload : Network.Payload D) : Nat :=
  w.schemaBytes + w.producerBytes + w.headerBytes revision payload + w.countBytes +
    (payload.evidence.map w.rowBytes).sum

/-- The record is the observation. -/
structure Shows (w : Print D) (n : NetworkEvidence) (e : Network.NetworkEvent D) : Prop where
  sourceId : n.sourceId.val = String.ofList e.sourceId
  eventId : n.eventId.val = (w.digest e.eventId).val
  bootId : n.bootId.val = String.ofList e.bootId
  profileRevision : n.profileRevision = w.digest e.sourceProfileRevision
  srcIp : n.srcIp.val = String.ofList e.srcIp
  dstIp : n.dstIp.val = String.ofList e.dstIp
  eventTsUs : n.eventTsUs.val = e.journalRealtimeUs
  monotonicUs : n.monotonicUs.val = e.journalMonotonicUs
  dstPort : some n.dstPort.val = e.dstPort.map Int.ofNat
  protocol : n.protocol.text = protocolText e.protocol
  direction : n.direction.text = directionText e.direction

end Print

end RiskOps.JointEvidence

/-! ### What revisions cite -/

namespace RiskOps.Telemetry.Network

open RiskOps.Lib

variable {D : Type} [LinearOrder D] {env : Env D} {log : List (NetworkEvent D)} {s : Store D}
  {A B : Analysis D} {key : WindowKey D} {payload : Payload D} {events : List (NetworkEvent D)}
  {now : ℚ}

/-- Every revision is about an observed group and cites eligible observations only, and there is no
evidence without a revision. -/
structure Cited (log : List (NetworkEvent D)) (A : Analysis D) : Prop where
  headed : ∀ x ∈ A.book.revisions, x.2.2.key = x.1 ∧ 1 ≤ x.2.1
  grouped : ∀ x ∈ A.book.revisions, ∃ e ∈ log, e.peer = x.1.1
  cites : ∀ x ∈ A.book.revisions, ∀ e ∈ x.2.2.evidence, eligible e = true
  owned : ∀ row ∈ A.evidence, ∃ x ∈ A.book.revisions, x.1 = row.key

omit [LinearOrder D] in
theorem Cited.of_log {more : List (NetworkEvent D)} (h : Cited log A) :
    Cited (log ++ more) A :=
  ⟨h.headed, fun x hx => let ⟨e, he, hpeer⟩ := h.grouped x hx
    ⟨e, List.mem_append_left _ he, hpeer⟩, h.cites, h.owned⟩

omit [LinearOrder D] in
/-- Only these columns matter. -/
theorem Cited.congr (h : Cited log A) (hbook : B.book = A.book) (hevidence : B.evidence = A.evidence) :
    Cited log B := by
  refine ⟨?_, ?_, ?_, ?_⟩
  · rw [hbook]
    exact h.headed
  · rw [hbook]
    exact h.grouped
  · rw [hbook]
    exact h.cites
  · rw [hbook, hevidence]
    exact h.owned

theorem Cited.storeCase (h : Cited log A) (hkey : payload.key = key)
    (hgroup : ∃ e ∈ log, e.peer = key.1) (hcites : ∀ e ∈ payload.evidence, eligible e = true)
    (selected : Option (List D)) (now : ℚ) :
    Cited log (storeCase A key payload events selected now) := by
  rw [Network.storeCase]
  split
  · exact h
  · rename_i hnew
    have hrevisions : (A.book.revise key payload selected now).revisions =
        A.book.revisions ++ [(key, A.book.nextRevision key, payload)] := by
      rw [CaseBook.revise.eq_def, if_neg hnew]
    have hcase : ∀ x ∈ (A.book.revise key payload selected now).revisions,
        x ∈ A.book.revisions ∨ x = (key, A.book.nextRevision key, payload) := by
      intro x hx
      rw [hrevisions] at hx
      exact (List.mem_append.mp hx).imp_right List.mem_singleton.mp
    refine ⟨fun x hx => ?_, fun x hx => ?_, fun x hx => ?_, fun row hrow => ?_⟩
    · rcases hcase x hx with hx | rfl
      · exact h.headed x hx
      · exact ⟨hkey, Nat.le_add_left 1 _⟩
    · rcases hcase x hx with hx | rfl
      · exact h.grouped x hx
      · exact hgroup
    · rcases hcase x hx with hx | rfl
      · exact h.cites x hx
      · exact hcites
    · -- the new rows belong to the case that is written
      dsimp only at hrow ⊢
      rw [← List.foldl_map (f := Evidence.mk key)] at hrow
      rw [hrevisions]
      rcases Table.mem_insertAll hrow with hold | hadded
      · obtain ⟨x, hx, howner⟩ := h.owned row hold
        exact ⟨x, List.mem_append_left _ hx, howner⟩
      · obtain ⟨e, -, rfl⟩ := List.mem_map.mp hadded
        exact ⟨_, List.mem_append_right _ (List.mem_singleton.mpr rfl), rfl⟩

/-- The last payload of a case is one of its revisions. -/
theorem Revised.last_mem (h : Revised log A) (hold : A.book.payload? key = some payload) :
    ∃ r, (key, r, payload) ∈ A.book.revisions :=
  let ⟨last, _, hmem⟩ := h.history.last key payload hold
  ⟨last, hmem⟩

theorem Cited.saveStale (h : Cited log A) (hrevised : Revised log A) (key : WindowKey D)
    (coverage : Finset Note) (now : ℚ) : Cited log (saveStale A key coverage now) := by
  rw [Network.saveStale]
  split
  · exact h
  · rename_i old hold
    obtain ⟨r, hmem⟩ := hrevised.last_mem hold
    have hkey : (stalePayload coverage old).key = key := (h.headed _ hmem).1
    have hcites : ∀ e ∈ (stalePayload coverage old).evidence, eligible e = true := h.cites _ hmem
    exact h.storeCase hkey (h.grouped _ hmem) hcites none now

theorem Cited.saveCase {det : Detector D} {limits : InputLimits} {report : NetworkReport D}
    (h : Cited log A) (hrevised : Revised log A) (hmem : ∀ e ∈ events, e ∈ log)
    (hd : Distinct events) (hpeer : ∀ e ∈ events, e.peer = key.1)
    (hreport : detectNetwork det limits events = .ok report) (coverage : Finset Note) (now : ℚ) :
    Cited log (saveCase A key coverage events report.findings now) := by
  rw [Network.saveCase]
  split
  · exact h
  · rename_i hsome
    have hprobed : ∀ id ∈ selectedIds events key.2 report.findings,
        ∃ e ∈ events, e.eventId = id ∧ eligible e = true := by
      intro id hid
      obtain ⟨e, he, hname, x, -, -, hwindow⟩ := probed_of_selected hd hpeer hreport hid
      exact ⟨e, he, hname, (List.mem_filter.mp (mem_window.mp hwindow).1).2⟩
    have hkey : (completePayload key coverage events report.findings (A.book.payload? key)).key =
        key := rfl
    refine h.storeCase hkey ?_ (fun e he => ?_) _ now
    · -- a first revision cites something, a later one is about the group of the first
      cases hold : A.book.payload? key with
      | some old =>
        obtain ⟨r, hrevision⟩ := hrevised.last_mem hold
        exact h.grouped _ hrevision
      | none =>
        rw [hold, not_and_or] at hsome
        have hids : selectedIds events key.2 report.findings ≠ [] := by
          intro hnil
          simp [hnil] at hsome
        obtain ⟨id, hid⟩ := List.exists_mem_of_ne_nil _ hids
        obtain ⟨e, he, -, -⟩ := hprobed id hid
        exact ⟨e, hmem e he, hpeer e he⟩
    · have hrows : e ∈ (selectedIds events key.2 report.findings).filterMap (lookup events) :=
        (List.mem_insertionSort _).mp he
      obtain ⟨id, hid, hlookup⟩ := List.mem_filterMap.mp hrows
      obtain ⟨a, ha, rfl, heligible⟩ := hprobed id hid
      rw [lookup_eventId hd hpeer ha] at hlookup
      rw [← Option.some.inj hlookup]
      exact heligible

theorem Cited.analyze (h : Cited log A) (hrevised : Revised log A)
    (ht : Tracked log s A) (hanalyze : analyzeWindow env A key now = .ok B) : Cited log B := by
  rw [analyzeWindow] at hanalyze
  dsimp only at hanalyze
  split at hanalyze
  · rw [← Except.ok.inj hanalyze]
    exact (h.saveStale hrevised key _ now).congr rfl rfl
  · split at hanalyze
    · rw [← Except.ok.inj hanalyze]
      exact (h.saveStale hrevised key _ now).congr rfl rfl
    · rename_i hread
      rw [readContext_take (Bool.not_eq_true _ ▸ hread)] at hanalyze
      obtain ⟨report, hreport, hdone⟩ := bind_eq_ok.mp hanalyze
      rw [← Except.ok.inj hdone]
      refine (h.saveCase hrevised (fun e he => ?_) (distinct_contextRows ht key)
        peer_of_mem_contextRows hreport _ now).congr rfl rfl
      obtain ⟨row, hrow, rfl, -⟩ := mem_contextRows.mp he
      exact (ht.context row hrow).1

theorem Cited.next {db : Db D} (hinv : Inv env log db) (hrevised : Revised log db.analysis)
    (h : Cited log db.analysis) (op : Op D) :
    Cited (log ++ acceptedBy env db op) (next env db op).analysis := by
  cases op with
  | ingest delivery => exact h.of_log
  | takeIn now limit =>
    obtain ⟨hbook, hevidence⟩ := takeIn_sameCases env now limit db
    exact (h.congr hbook hevidence).of_log
  | analyze now key =>
    refine Cited.of_log ?_
    rw [Network.next]
    split
    · split
      · rename_i B hB
        exact h.analyze hrevised hinv.analysed.tracked hB
      · exact h
    · exact h

/-- What is known of every state reached. -/
structure Kept (env : Env D) (log : List (NetworkEvent D)) (db : Db D) : Prop where
  inv : Inv env log db
  revised : Revised log db.analysis
  cited : Cited log db.analysis

theorem kept_run (env : Env D) (ops : List (Op D)) :
    Kept env (accepted env ops) (run (next env) .empty ops) := by
  have hcited : Cited [] (Analysis.empty : Analysis D) :=
    ⟨fun x hx => absurd hx List.not_mem_nil, fun x hx => absurd hx List.not_mem_nil,
      fun x hx => absurd hx List.not_mem_nil, fun row hrow => absurd hrow (Table.not_mem_empty row)⟩
  have h : Kept env ([] ++ trace (next env) (acceptedBy env) .empty ops)
      (run (next env) .empty ops) :=
    trace_invariant (R := fun log db => Kept env log db) (Q := fun _ => True)
      (fun _ _ op _ h => ⟨h.inv.next op, h.revised.next h.inv op, h.cited.next h.inv h.revised op⟩)
      (fun _ _ => trivial) ⟨inv_empty env, revised_empty, hcited⟩
  exact h

/-! ### What a validated observation looks like -/

/-- A text that is the canonical form of an address. -/
def Canonical (s : List Char) : Prop :=
  ∃ a, IpAddress.parse s = some a ∧ a.toText = s ∧ s.length ≤ 64 ∧ '%' ∉ s

/-- What `validateEvent` says about the fields a reader reads. -/
structure Fields (e : NetworkEvent D) : Prop where
  sourceId : isId e.sourceId = true
  bootId : isBoot e.bootId = true
  realtime : e.journalRealtimeUs ≤ maxRealtimeUs
  monotonic : e.journalMonotonicUs ≤ maxMonotonicUs
  srcIp : Canonical e.srcIp
  dstIp : Canonical e.dstIp
  dstPort : ∀ p, e.dstPort = some p → p ≤ 65535

theorem canonical_of_address {s : List Char} {a : IpAddress} (h : address s = .ok a)
    (htext : a.toText = s) : Canonical s := by
  rw [address] at h
  split at h
  · cases h
  · rename_i hbounds
    simp only [Bool.or_eq_true, decide_eq_true_eq, not_or, not_lt, List.contains_eq_mem] at hbounds
    split at h
    · cases h
    · rename_i addr hparse
      split at h
      · cases h
      · obtain rfl := Except.ok.inj h
        exact ⟨_, hparse, htext, by omega, hbounds.2⟩

theorem fields_of_valid {d : EventDigests D} {e : NetworkEvent D}
    (h : validateEvent d e = .ok ()) : Fields e := by
  have hmonotonic := monotonic_of_valid h
  rw [validateEvent] at h
  obtain ⟨_, hidentity, h⟩ := bind_eq_ok.mp h
  obtain ⟨_, haddresses, h⟩ := bind_eq_ok.mp h
  obtain ⟨_, htransport, -⟩ := bind_eq_ok.mp h
  rw [validIdentity] at hidentity
  rw [validAddresses] at haddresses
  obtain ⟨src, hsrc, haddresses⟩ := bind_eq_ok.mp haddresses
  obtain ⟨dst, hdst, haddresses⟩ := bind_eq_ok.mp haddresses
  rw [validTransport] at htransport
  split at hidentity
  · cases hidentity
  · rename_i hsource
    split at hidentity
    · cases hidentity
    · rename_i hboot
      split at hidentity
      · cases hidentity
      · split at hidentity
        · cases hidentity
        · rename_i htime
          split at haddresses
          · cases haddresses
          · rename_i htexts
            split at htransport
            · cases htransport
            · split at htransport
              · cases htransport
              · rename_i hports
                simp only [Bool.or_eq_true, decide_eq_true_eq, not_or, not_lt] at htime
                simp only [not_or, not_not] at htexts
                simp only [Bool.or_eq_true, not_or] at hports
                refine ⟨by simpa using hsource, by simpa using hboot, htime.1, hmonotonic,
                  canonical_of_address hsrc htexts.2.2.1, canonical_of_address hdst htexts.2.2.2, ?_⟩
                intro p hp
                have hlow := hports.2
                rw [hp, Option.any_some, decide_eq_true_eq] at hlow
                exact Nat.le_of_not_lt hlow

end RiskOps.Telemetry.Network

/-! ### Which rows are read -/

namespace RiskOps.JointEvidence

open RiskOps.Lib RiskOps.Telemetry

variable {c : Char}

theorem isAlnum_iff : isAlnum c = true ↔
    (97 ≤ c.toNat ∧ c.toNat ≤ 122) ∨ (65 ≤ c.toNat ∧ c.toNat ≤ 90) ∨
      (48 ≤ c.toNat ∧ c.toNat ≤ 57) := by
  simp only [isAlnum, Bool.or_eq_true, Bool.and_eq_true, decide_eq_true_eq, Char.le_def,
    UInt32.le_iff_toNat_le, or_assoc]
  rfl

theorem isAlphanum_iff : c.isAlphanum = true ↔
    (97 ≤ c.toNat ∧ c.toNat ≤ 122) ∨ (65 ≤ c.toNat ∧ c.toNat ≤ 90) ∨
      (48 ≤ c.toNat ∧ c.toNat ≤ 57) := by
  simp only [Char.isAlphanum, Char.isAlpha, Char.isUpper, Char.isLower, Char.isDigit,
    Bool.or_eq_true, Bool.and_eq_true, decide_eq_true_eq, ge_iff_le, UInt32.le_iff_toNat_le]
  rw [or_assoc, or_left_comm]
  rfl

theorem isAlnum_of_isLowerHex (h : isLowerHex c = true) : isAlnum c = true := by
  simp only [isLowerHex, Bool.or_eq_true, Bool.and_eq_true, decide_eq_true_eq, Char.le_def,
    UInt32.le_iff_toNat_le] at h
  rw [isAlnum_iff]
  have hval : c.val.toNat = c.toNat := rfl
  have ha : ('a' : Char).val.toNat = 97 := rfl
  have hf : ('f' : Char).val.toNat = 102 := rfl
  have hz : ('0' : Char).val.toNat = 48 := rfl
  have hd : ('9' : Char).val.toNat = 57 := rfl
  omega

theorem isLowerHex_of_hexChar (h : Network.hexChar c = true) : isLowerHex c = true := by
  simp only [Network.hexChar, Bool.or_eq_true, Bool.and_eq_true, decide_eq_true_eq] at h
  simp only [isLowerHex, Bool.or_eq_true, Bool.and_eq_true, decide_eq_true_eq]
  rcases h with h | h
  · obtain ⟨hlow, hhigh⟩ := Char.isDigit_iff_toNat.mp h
    exact Or.inl ⟨UInt32.le_iff_toNat_le.mpr hlow, UInt32.le_iff_toNat_le.mpr hhigh⟩
  · exact Or.inr h

/-- Text of at most 128 letters and digits is an identifier. -/
theorem isIdentifier_of_alnum {s : List Char} (hpos : s ≠ []) (hlen : s.length ≤ 128)
    (h : ∀ c ∈ s, isAlnum c = true ∨ c = '-') (hhead : ∀ c, s.head? = some c → isAlnum c = true) :
    isIdentifier (String.ofList s) = true := by
  cases s with
  | nil => exact absurd rfl hpos
  | cons c s =>
    simp only [isIdentifier, String.toList_ofList, Bool.and_eq_true, decide_eq_true_eq,
      List.all_eq_true, Bool.or_eq_true]
    refine ⟨⟨hhead c rfl, Nat.le_of_succ_le_succ hlen⟩, fun d hd => ?_⟩
    rcases h d (List.mem_cons_of_mem _ hd) with halnum | hdash
    · exact Or.inl (Or.inl (Or.inl (Or.inl halnum)))
    · exact Or.inr hdash

theorem isIdentifier_of_isId {s : List Char} (h : Network.isId s = true) :
    isIdentifier (String.ofList s) = true := by
  cases s with
  | nil => cases h
  | cons c s =>
    simp only [Network.isId, Network.idChar, Bool.and_eq_true, decide_eq_true_eq,
      List.all_eq_true, Bool.or_eq_true, beq_iff_eq] at h
    simp only [isIdentifier, String.toList_ofList, Bool.and_eq_true, decide_eq_true_eq,
      List.all_eq_true, Bool.or_eq_true]
    refine ⟨⟨Iff.mpr isAlnum_iff (Iff.mp isAlphanum_iff h.1.1), h.2⟩, fun d hd => ?_⟩
    rcases h.1.2 d hd with (((hd | hd) | hd) | hd) | hd
    · exact Or.inl (Or.inl (Or.inl (Or.inl (Iff.mpr isAlnum_iff (Iff.mp isAlphanum_iff hd)))))
    · exact Or.inl (Or.inl (Or.inl (Or.inr hd)))
    · exact Or.inl (Or.inl (Or.inr hd))
    · exact Or.inl (Or.inr hd)
    · exact Or.inr hd

theorem isIdentifier_of_isBoot {s : List Char} (h : Network.isBoot s = true) :
    isIdentifier (String.ofList s) = true := by
  simp only [Network.isBoot, Bool.and_eq_true, decide_eq_true_eq, List.all_eq_true] at h
  obtain ⟨hlen, hchars⟩ := h
  have halnum : ∀ c ∈ s, isAlnum c = true :=
    fun c hc => isAlnum_of_isLowerHex (isLowerHex_of_hexChar (hchars c hc))
  refine isIdentifier_of_alnum (fun hnil => ?_) (by omega) (fun c hc => Or.inl (halnum c hc))
    fun c hc => halnum c (List.mem_of_head? hc)
  rw [hnil] at hlen
  cases hlen

theorem isIp_of_canonical {s : List Char} (h : Network.Canonical s) :
    isIp (String.ofList s) = true := by
  obtain ⟨a, hparse, htext, hlen, hzone⟩ := h
  rw [isIp, ip_ofList hparse htext hlen hzone]
  exact decide_eq_true rfl

namespace Print

variable {D : Type} (w : Print D)

theorem fingerprint_prefix (key : Network.WindowKey D) :
    ((w.fingerprint key).val.toList.take 32).length = 32 ∧
      ∀ c ∈ (w.fingerprint key).val.toList.take 32, isLowerHex c = true := by
  obtain ⟨hlen, hchars⟩ := Checked.digest_chars (w.fingerprint key)
  refine ⟨?_, fun c hc => hchars c (List.mem_of_mem_take hc)⟩
  rw [List.length_take, hlen]
  rfl

theorem isNetId_incidentId (key : Network.WindowKey D) : isNetId (w.incidentId key) = true := by
  obtain ⟨hlen, hchars⟩ := w.fingerprint_prefix key
  rw [isNetId, incidentId, String.toList_ofList]
  simp only [List.cons_append, List.nil_append, List.take_succ_cons, List.take_zero,
    List.length_cons, hlen, List.drop_succ_cons, List.drop_zero, List.all_eq_true, decide_true,
    Bool.true_and]
  exact hchars

theorem isIdentifier_incidentId (key : Network.WindowKey D) :
    isIdentifier (w.incidentId key) = true := by
  obtain ⟨hlen, hchars⟩ := w.fingerprint_prefix key
  refine isIdentifier_of_alnum (by simp) ?_ (fun c hc => ?_) fun c hc => ?_
  · rw [List.length_append, hlen]
    decide
  · rcases List.mem_append.mp hc with hc | hc
    · have hstart : ['N', 'E', 'T', '-'].all (fun d => isAlnum d || d == '-') = true := by decide
      have hc := List.all_eq_true.mp hstart c hc
      rwa [Bool.or_eq_true, beq_iff_eq] at hc
    · exact Or.inl (isAlnum_of_isLowerHex (hchars c hc))
  · obtain rfl := Option.some.inj hc
    decide

/-- The typed fields of a group. -/
structure Typed (p : Network.Peer D) (a : Anchor) : Prop where
  sourceId : a.sourceId.val = String.ofList p.sourceId
  bootId : a.bootId.val = String.ofList p.bootId
  profileRevision : a.profileRevision = w.digest p.sourceProfileRevision
  srcIp : a.srcIp.val = String.ofList p.srcIp
  dstIp : a.dstIp.val = String.ofList p.dstIp

/-- The group of a validated observation has typed fields. -/
theorem exists_typed {e : Network.NetworkEvent D} (h : Network.Fields e) (producer incident : Identifier)
    (revision : Revision) : ∃ a : Anchor, w.Typed e.peer a ∧ a.producerId = producer ∧
      a.incidentId = incident ∧ a.revision = revision :=
  ⟨{ producerId := producer
     incidentId := incident
     revision := revision
     sourceId := ⟨_, isIdentifier_of_isId h.sourceId⟩
     bootId := ⟨_, isIdentifier_of_isBoot h.bootId⟩
     profileRevision := w.digest e.sourceProfileRevision
     srcIp := ⟨_, isIp_of_canonical h.srcIp⟩
     dstIp := ⟨_, isIp_of_canonical h.dstIp⟩ },
    ⟨rfl, rfl, rfl, rfl, rfl⟩, rfl, rfl, rfl⟩

/-! #### The coverage -/

/-- Every code a case can have. -/
def allNotes : List Network.Note :=
  [.offlineContextOnly, .observationsAreLowerBounds, .apparentSourceNotIdentity,
    .journalClockDiscontinuity, .monotonicHourReviewBucket, .contextLimit,
    .rawHistoryExpiredBeforeAnalysis, .expiredContext, .rejectedRecords,
    .collectionBacklogObserved, .coverage .loggingRateLimited, .coverage .loggingLimitsUnknown,
    .coverage .journalRetentionUnknown, .coverage .unverifiedLocalInput,
    .coverage .incompleteInterfaces, .coverage .missingTransportPorts,
    .coverage .tcpFlagsUnavailable, .coverage .truncatedTransportHeader,
    .coverage .fragmentedPacket, .coverage .unsupportedProtocol, .coverage .ipv6ExtensionHeaders,
    .coverage .dynamicTerminalFiltering, .rejection .invalidRecord,
    .rejection .profileContextUnavailable, .report .coverageStart,
    .report .journalCursorUnavailable, .report .profileDrift, .report .catchingUp,
    .report .profileBoundary]

theorem mem_allNotes (n : Network.Note) : n ∈ allNotes := by
  cases n with
  | coverage code => cases code <;> decide
  | rejection code => cases code <;> decide
  | report code => cases code <;> decide
  | _ => decide

theorem isCode_noteText (n : Network.Note) : isCode (noteText n) = true := by
  have h : ∀ n ∈ allNotes, isCode (noteText n) = true := by decide +kernel
  exact h n (mem_allNotes n)

theorem codes_coverage (notes : Finset Network.Note) :
    ∃ codes, Codes.of? (coverage notes) = some codes := by
  have hlen : (coverage notes).length ≤ 64 := by
    have hsub : notes ⊆ allNotes.toFinset := fun n _ => List.mem_toFinset.mpr (mem_allNotes n)
    have hcard : allNotes.toFinset.card ≤ 64 :=
      (List.toFinset_card_le _).trans (by decide)
    rw [coverage, Finset.length_sort]
    exact Finset.card_image_le.trans ((Finset.card_le_card hsub).trans hcard)
  have hcodes : ∀ c ∈ coverage notes, isCode c = true := by
    intro c hc
    rw [coverage, Finset.mem_sort] at hc
    obtain ⟨n, -, rfl⟩ := Finset.mem_image.mp hc
    exact isCode_noteText n
  exact ⟨_, dif_pos ⟨hlen, hcodes⟩⟩

theorem mapM_asStr (ss : List String) : (ss.map Value.str).mapM Value.asStr = some ss := by
  induction ss with
  | nil => rfl
  | cons s ss ih =>
    rw [List.map_cons, List.mapM_cons, ih]
    rfl

/-! #### The header -/

/-- **The header of a revision is accepted.** -/
theorem read_header {x : Network.WindowKey D × Nat × Network.Payload D}
    {e : Network.NetworkEvent D} (hkey : x.2.2.key = x.1)
    (hrevision : 1 ≤ (x.2.1 : Int) ∧ (x.2.1 : Int) ≤ 2 ^ 31 - 1)
    (hcount : (x.2.2.evidenceCount : Int) ≤ 1000000) (he : Network.Fields e)
    (hpeer : e.peer = x.1.1) :
    ∃ case, (w.header x).read w.producerId.val (w.incidentId x.1) x.2.1 = some case ∧
      w.Typed x.1.1 case.toAnchor ∧
      case.evidenceTotal.map Subtype.val = some (x.2.2.evidenceCount : Int) := by
  obtain ⟨codes, hcodes⟩ := codes_coverage x.2.2.coverage
  obtain ⟨a, ha, hproducer, hincident, har⟩ :=
    w.exists_typed he w.producerId ⟨w.incidentId x.1, w.isIdentifier_incidentId x.1⟩
      ⟨x.2.1, hrevision⟩
  rw [hpeer] at ha
  have hid : sqlText 128 (some (w.incidentId x.1)) = some (w.incidentId x.1) :=
    sqlText_identifier ⟨w.incidentId x.1, w.isIdentifier_incidentId x.1⟩
  have hidentity : Checked.of? isIdentifier (w.incidentId x.1) = some a.incidentId := by
    rw [hincident]
    exact Checked.of?_val ⟨w.incidentId x.1, w.isIdentifier_incidentId x.1⟩
  have hnumber : sqlInteger 1 (2 ^ 31 - 1) (some (x.2.1 : Int)) = some (x.2.1 : Int) := by
    rw [sqlInteger, Option.filter_some, if_pos]
    simp only [hrevision.1, decide_true, Bool.true_and, decide_eq_true_eq]
    exact hrevision.2
  have hr : Bounded.of? 1 (2 ^ 31 - 1) (x.2.1 : Int) = some a.revision := by
    rw [har]
    exact Bounded.of?_val ⟨x.2.1, hrevision⟩
  have hnetwork : sqlText 16 (some "network") = some "network" := by decide
  have htotal : Bounded.of? 0 1000000 (x.2.2.evidenceCount : Int) =
      some ⟨x.2.2.evidenceCount, Int.natCast_nonneg _, hcount⟩ :=
    dif_pos ⟨Int.natCast_nonneg _, hcount⟩
  refine ⟨{ toAnchor := a
            evidence := []
            evidenceTotal := some ⟨x.2.2.evidenceCount, Int.natCast_nonneg _, hcount⟩
            active := x.2.2.active
            stale := x.2.2.stale
            coverage := codes
            evidence_length := Nat.zero_le _ }, ?_, ha, rfl⟩
  rw [HeaderRow.read]
  simp only [header, hkey, hid, hnumber, hnetwork, hidentity, hr, htotal, hcodes, mapM_asStr,
    ← ha.sourceId, ← ha.bootId, ← ha.profileRevision, ← ha.srcIp, ← ha.dstIp, ← hproducer,
    sqlText_identifier, sqlText_digest (Nat.le_refl 64), sqlText_ip, Ip.read_val, Checked.of?_val,
    bind, Option.bind_some, and_self, guard, if_true, pure]
  rfl

/-! #### The rows -/

/-- **A cited observation is read, unless its destination port is 0.** -/
theorem read_row {key : Network.WindowKey D} {e : Network.NetworkEvent D} {a : Anchor}
    (ha : w.Typed e.peer a) (he : Network.Fields e) (heligible : Network.eligible e = true) :
    (e.dstPort = some 0 → (w.row ⟨key, e⟩).read a = none) ∧
      (e.dstPort ≠ some 0 → ∃ n, (w.row ⟨key, e⟩).read a = some n ∧ w.Shows n e) := by
  simp only [Network.eligible, Bool.and_eq_true, decide_eq_true_eq] at heligible
  obtain ⟨⟨⟨⟨⟨⟨hdirection, -⟩, -⟩, hprotocol⟩, -⟩, hsome⟩, -⟩ := heligible
  obtain ⟨port, hport⟩ := Option.isSome_iff_exists.mp hsome
  obtain ⟨time, htimeVal⟩ : ∃ t : Time, t.val = e.journalRealtimeUs :=
    ⟨⟨_, Int.natCast_nonneg _, Int.ofNat_le.mpr he.realtime⟩, rfl⟩
  obtain ⟨clock, hclockVal⟩ : ∃ t : Monotonic, t.val = e.journalMonotonicUs :=
    ⟨⟨_, Int.natCast_nonneg _, Int.ofNat_le.mpr he.monotonic⟩, rfl⟩
  obtain ⟨name, hnameVal⟩ : ∃ id : EventId, id.val = (w.digest e.eventId).val :=
    ⟨⟨_, isText_digest (w.digest e.eventId)⟩, rfl⟩
  have htime : Bounded.of? 0 maxTimeUs (e.journalRealtimeUs : Int) = some time := by
    rw [← htimeVal, Bounded.of?_val]
  have hclock : Bounded.of? 0 (2 ^ 63 - 1) (e.journalMonotonicUs : Int) = some clock := by
    rw [← hclockVal, Bounded.of?_val]
  have hname : Checked.of? (isText 2048) (w.digest e.eventId).val = some name := by
    rw [← hnameVal, Checked.of?_val]
  have htcp : (sqlText 16 (some (protocolText e.protocol))).bind Protocol.read = some .tcp := by
    rw [hprotocol]
    decide
  have hinput : (sqlText 32 (some (directionText e.direction))).bind Direction.read =
      some .localInput := by
    rw [hdirection]
    decide
  have hread : (w.row ⟨key, e⟩).read a = (Bounded.of? 1 65535 (port : Int)).bind fun p =>
      some ⟨a.sourceId, name, a.bootId, a.profileRevision, a.srcIp, a.dstIp, time, clock, p, .tcp,
        .localInput⟩ := by
    have hbelongs : ∀ p : Port, NetworkEvidence.belongs ⟨a.sourceId, name, a.bootId,
        a.profileRevision, a.srcIp, a.dstIp, time, clock, p, .tcp, .localInput⟩ a = true :=
      fun p => decide_eq_true rfl
    have hsource : String.ofList e.sourceId = a.sourceId.val := ha.sourceId.symm
    have hboot : String.ofList e.bootId = a.bootId.val := ha.bootId.symm
    have hprofile : w.digest e.sourceProfileRevision = a.profileRevision := ha.profileRevision.symm
    have hsrc : String.ofList e.srcIp = a.srcIp.val := ha.srcIp.symm
    have hdst : String.ofList e.dstIp = a.dstIp.val := ha.dstIp.symm
    rw [NetworkRow.read]
    simp only [row, sqlText_digest (show 64 ≤ 2048 by decide), hsource, hboot, hprofile, hsrc, hdst,
      sqlText_identifier, sqlText_digest (Nat.le_refl 64), sqlText_ip, Ip.read_val, Checked.of?_val,
      hname, htime, hclock, htcp, hinput, hport, hbelongs, bind, Option.bind_some, and_self, guard,
      if_true, pure, Option.map_some, Int.ofNat_eq_natCast]
  constructor
  · intro hzero
    obtain rfl := Option.some.inj (hport.symm.trans hzero)
    rw [hread]
    rfl
  · intro hzero
    have hrange : 1 ≤ (port : Int) ∧ (port : Int) ≤ 65535 := by
      have hle := he.dstPort port hport
      have hne : port ≠ 0 := fun h => hzero (h ▸ hport)
      omega
    refine ⟨⟨a.sourceId, name, a.bootId, a.profileRevision, a.srcIp, a.dstIp, time, clock,
      ⟨port, hrange⟩, .tcp, .localInput⟩, ?_, ?_⟩
    · rw [hread]
      have hp : Bounded.of? 1 65535 (port : Int) = some ⟨port, hrange⟩ := dif_pos hrange
      rw [hp]
      rfl
    · exact ⟨ha.sourceId, hnameVal, ha.bootId, ha.profileRevision, ha.srcIp, ha.dstIp, htimeVal,
        hclockVal, by rw [hport]; rfl, by rw [hprotocol]; rfl, by rw [hdirection]; rfl⟩

/-! #### The joined rows -/

variable {α : Type}

theorem filter_eq_singleton {xs : List α} {p : α → Bool} {x : α} (hn : xs.Nodup) (hx : x ∈ xs)
    (hp : ∀ y ∈ xs, p y = true ↔ y = x) : xs.filter p = [x] := by
  induction xs with
  | nil => cases hx
  | cons y xs ih =>
    obtain ⟨hy, hn⟩ := List.nodup_cons.mp hn
    rw [List.filter_cons]
    by_cases hyx : y = x
    · have hnone : xs.filter p = [] := by
        rw [List.filter_eq_nil_iff]
        intro z hz hpz
        have hzx := (hp z (List.mem_cons_of_mem _ hz)).mp hpz
        exact hy (by rw [hyx, ← hzx]; exact hz)
      rw [if_pos ((hp y List.mem_cons_self).mpr hyx), hnone, hyx]
    · rw [if_neg fun hpy => hyx ((hp y List.mem_cons_self).mp hpy)]
      exact ih hn ((List.mem_cons.mp hx).resolve_left (Ne.symm hyx))
        fun z hz => hp z (List.mem_cons_of_mem _ hz)

variable [LinearOrder D] {log : List (Network.NetworkEvent D)} {A : Network.Analysis D}

/-- Cases with one identifier are one case. -/
def Distinguishes (w : Print D) (A : Network.Analysis D) : Prop :=
  ∀ x ∈ A.book.revisions, ∀ y ∈ A.book.revisions, w.incidentId x.1 = w.incidentId y.1 → x.1 = y.1

/-- A member belongs to a case that has a revision. -/
theorem exists_revision_of_member (h : Network.Revised log A)
    {m : Member (Network.WindowKey D) D} (hm : m ∈ A.book.membership) :
    ∃ x ∈ A.book.revisions, x.1 = m.owner := by
  obtain ⟨hpos, hlt, -⟩ := h.history.before m hm
  cases hpayload : A.book.payload? m.owner with
  | none =>
    rw [CaseBook.nextRevision_of_none hpayload] at hlt
    omega
  | some payload =>
    obtain ⟨r, hr⟩ := h.last_mem hpayload
    exact ⟨_, hr, rfl⟩

variable {r : Nat}

/-- The row of an item of a case. -/
theorem evidence_filter (hdigest : Function.Injective w.digest) (hcited : Network.Cited log A)
    (hkeys : w.Distinguishes A) {key : Network.WindowKey D} {payload : Network.Payload D}
    (hx : (key, r, payload) ∈ A.book.revisions) {id : D} {e : Network.NetworkEvent D}
    (he : A.content key id = some e) :
    (w.db A).evidence.filter (fun row => row.incidentId = w.incidentId key ∧
      row.eventId = (w.digest id).val) = [w.row ⟨key, e⟩] := by
  obtain ⟨row, hfind, rfl⟩ := Option.map_eq_some_iff.mp he
  have hrowKey : (row.key, row.event.eventId) = (key, id) :=
    Table.find?_key (t := A.evidence) hfind
  have hmem : row ∈ A.evidence.rows := Table.mem_of_find? hfind
  obtain ⟨rfl, rfl⟩ := Prod.mk.inj hrowKey
  have hnodup : A.evidence.rows.Nodup := List.Nodup.of_map _ A.evidence.nodup
  show (A.evidence.rows.map w.row).filter _ = _
  rw [List.filter_map, filter_eq_singleton hnodup hmem, List.map_singleton]
  intro y hy
  rw [Function.comp_apply, decide_eq_true_iff]
  constructor
  · intro ⟨hincident, hevent⟩
    obtain ⟨z, hz, hzkey⟩ := hcited.owned y hy
    have hkey : y.key = row.key := by
      have := hkeys z hz _ hx (by rw [hzkey]; exact hincident)
      rw [← hzkey, this]
    have hid : y.event.eventId = row.event.eventId := hdigest (Subtype.ext hevent)
    exact A.evidence.eq_of_key_eq hy hmem (Prod.ext hkey hid)
  · intro hyx
    rw [hyx]
    exact ⟨rfl, rfl⟩

omit [LinearOrder D] in
theorem covers_iff (m : Member (Network.WindowKey D) D) (key : Network.WindowKey D) (r : Nat) :
    (w.membership m).covers (w.incidentId key) r = true ↔
      w.incidentId m.owner = w.incidentId key ∧ m.covers r = true := by
  rw [Membership.covers, Member.covers]
  simp only [Bool.and_eq_true, decide_eq_true_eq, and_assoc]
  simp only [membership, Nat.cast_le]
  cases m.toRevision with
  | none => simp
  | some last => simp

/-- The content of what a revision holds. -/
theorem exists_content (hrevised : Network.Revised log A) {key : Network.WindowKey D}
    {payload : Network.Payload D} (hx : (key, r, payload) ∈ A.book.revisions)
    {m : Member (Network.WindowKey D) D} (hm : m ∈ A.book.membership) (howner : m.owner = key)
    (hcovers : m.covers r = true) : ∃ e, A.content key m.item = some e := by
  have hitem : m.item ∈ Member.heldAt A.book.membership key r := by
    refine List.mem_map_of_mem (List.mem_filter.mpr ⟨hm, ?_⟩)
    rw [hcovers, howner]
    simp
  obtain ⟨e, he, hid⟩ := List.mem_map.mp ((hrevised.history.held _ hx).subset hitem)
  exact ⟨e, hid ▸ hrevised.history.kept _ hx e he⟩

/-- **The join of a revision**: every member with its row. -/
theorem joined_eq (hdigest : Function.Injective w.digest) (hrevised : Network.Revised log A)
    (hcited : Network.Cited log A) (hkeys : w.Distinguishes A) {key : Network.WindowKey D}
    {payload : Network.Payload D} (hx : (key, r, payload) ∈ A.book.revisions) :
    (w.db A).joined (w.incidentId key) r =
      (A.book.membership.filter fun m => m.owner = key && m.covers r).map fun m =>
        (w.membership m, (A.content key m.item).map fun e => w.row ⟨key, e⟩) := by
  have hfilter : A.book.membership.filter
      ((fun m => m.covers (w.incidentId key) r) ∘ w.membership) =
        A.book.membership.filter fun m => m.owner = key && m.covers r := by
    refine List.filter_congr fun m hm => ?_
    rw [Bool.eq_iff_iff, Function.comp_apply, w.covers_iff, Bool.and_eq_true, decide_eq_true_eq]
    obtain ⟨z, hz, hzkey⟩ := exists_revision_of_member hrevised hm
    constructor
    · intro ⟨hid, hcovers⟩
      have howner : z.1 = key := hkeys z hz _ hx (by rw [hzkey]; exact hid)
      exact ⟨hzkey.symm.trans howner, hcovers⟩
    · intro ⟨howner, hcovers⟩
      exact ⟨by rw [howner], hcovers⟩
  rw [NetworkDb.joined]
  show ((A.book.membership.map w.membership).filter _).flatMap _ = _
  rw [List.filter_map, hfilter, List.flatMap_map, List.map_eq_flatMap]
  refine List.flatMap_congr fun m hm => ?_
  obtain ⟨hmem, hmatch⟩ := List.mem_filter.mp hm
  rw [Bool.and_eq_true, decide_eq_true_eq] at hmatch
  obtain ⟨e, he⟩ := exists_content hrevised hx hmem hmatch.1 hmatch.2
  have hrows := w.evidence_filter hdigest hcited hkeys hx he
  rw [← hmatch.1] at hrows he ⊢
  have hjoin : (w.db A).evidence.filter (fun row => row.incidentId = (w.membership m).incidentId ∧
      row.eventId = (w.membership m).eventId) = [w.row ⟨m.owner, e⟩] := hrows
  rw [hjoin, he]
  rfl

variable {β : Type}

theorem map_eq_map_some {f : α → Option β} {xs : List α} (h : ∀ x ∈ xs, ∃ y, f x = some y) :
    xs.map f = (xs.filterMap f).map some := by
  induction xs with
  | nil => rfl
  | cons x xs ih =>
    obtain ⟨y, hy⟩ := h x List.mem_cons_self
    rw [List.map_cons, List.filterMap_cons_some hy, List.map_cons, hy,
      ih fun z hz => h z (List.mem_cons_of_mem _ hz)]

/-- Evidence order is the order of the reader. -/
theorem orderRows_eq (hdigest : StrictMono fun d => (w.digest d).val) (key : Network.WindowKey D)
    (events : List (Network.NetworkEvent D)) :
    orderRows (events.map fun e => w.row ⟨key, e⟩) =
      (events.insertionSort fun a b => a.caseOrder ≤ b.caseOrder).map fun e => w.row ⟨key, e⟩ := by
  refine (List.map_insertionSort _ _ _ _ fun a _ b _ => ?_).symm
  simp only [Network.NetworkEvent.caseOrder, row, Prod.Lex.toLex_le_toLex, Nat.cast_lt, Nat.cast_inj]
  exact or_congr_right (and_congr_right fun _ => hdigest.le_iff_le.symm)

/-- What a revision held is its evidence, in another order. -/
theorem held_perm (hrevised : Network.Revised log A) {key : Network.WindowKey D}
    {payload : Network.Payload D} (hx : (key, r, payload) ∈ A.book.revisions) :
    ((Member.heldAt A.book.membership key r).filterMap (A.content key)).Perm payload.evidence := by
  rw [← hrevised.evidenceItems_eq hx]
  exact (List.perm_insertionSort _ _).symm

/-- The header that is found is that of the revision. -/
theorem find_header (hrevised : Network.Revised log A) (hkeys : w.Distinguishes A)
    {key : Network.WindowKey D} {payload : Network.Payload D}
    (hx : (key, r, payload) ∈ A.book.revisions) :
    (w.db A).revisions.find? (fun row => row.incidentId = w.incidentId key ∧ row.revision = (r : Int))
      = some (w.header (key, r, payload)) := by
  show (A.book.revisions.map w.header).find? _ = _
  rw [List.find?_map]
  cases hfind : A.book.revisions.find? ((fun row : HeaderRow =>
      decide (row.incidentId = w.incidentId key ∧ row.revision = (r : Int))) ∘ w.header) with
  | none =>
    have hmiss := List.find?_eq_none.mp hfind _ hx
    rw [Function.comp_apply, decide_eq_true_iff] at hmiss
    exact absurd ⟨rfl, rfl⟩ hmiss
  | some y =>
    have hmatch := List.find?_some hfind
    rw [Function.comp_apply, decide_eq_true_iff] at hmatch
    have hmem := List.mem_of_find?_eq_some hfind
    have hkey : y.1 = key := hkeys y hmem _ hx hmatch.1
    have hnumber : y.2.1 = r := Int.ofNat_inj.mp hmatch.2
    have hsame := List.inj_on_of_nodup_map hrevised.history.keys hmem hx (Prod.ext hkey hnumber)
    rw [hsame]
    rfl

omit [LinearOrder D] in
/-- A stay that covers a revision is an interval. -/
theorem valid_stay {m : Member (Network.WindowKey D) D} (hpos : 1 ≤ m.fromRevision)
    (hcovers : m.covers r = true) : (w.membership m).invalid = false := by
  rw [Member.covers, Bool.and_eq_true, decide_eq_true_eq] at hcovers
  obtain ⟨hfrom, hto⟩ := hcovers
  rw [Membership.invalid, Bool.or_eq_false_iff]
  refine ⟨decide_eq_false (show ¬((m.fromRevision : Int) < 1) by omega), ?_⟩
  show (m.toRevision.map Int.ofNat).any (fun last => last < (m.fromRevision : Int)) = false
  cases hlast : m.toRevision with
  | none => rfl
  | some last =>
    rw [hlast, Option.all_some, decide_eq_true_eq] at hto
    rw [Option.map_some, Option.any_some]
    exact decide_eq_false (show ¬((last : Int) < m.fromRevision) by omega)

/-- **Every revision is retained**, with one row for each event of its evidence. -/
theorem retained (hdigest : StrictMono fun d => (w.digest d).val) (hrevised : Network.Revised log A)
    (hcited : Network.Cited log A) (hkeys : w.Distinguishes A) {l : ReadLimits}
    {key : Network.WindowKey D} {payload : Network.Payload D}
    (hx : (key, r, payload) ∈ A.book.revisions) {case : NetworkCase}
    (hcase : (w.header (key, r, payload)).read w.producerId.val (w.incidentId key) r = some case)
    (htotal : case.evidenceTotal.map Subtype.val = some (payload.evidenceCount : Int))
    (hrecords : (payload.evidence.length : Int) ≤ l.recordLimit.val)
    (hbytes : (w.readBytes r payload : Int) ≤ l.byteLimit.val) :
    Retained l (w.db A) (w.incidentId key) r case
      (((Member.heldAt A.book.membership key r).filterMap (A.content key)).map
        fun e => w.row ⟨key, e⟩) := by
  have hinjective : Function.Injective w.digest := fun a b hab =>
    hdigest.injective (congrArg Subtype.val hab)
  have hjoined := w.joined_eq hinjective hrevised hcited hkeys hx
  have hperm := held_perm hrevised hx
  have hmember : ∀ m ∈ A.book.membership.filter (fun m => m.owner = key && m.covers r),
      m ∈ A.book.membership ∧ m.owner = key ∧ m.covers r = true := by
    intro m hm
    obtain ⟨hmem, hmatch⟩ := List.mem_filter.mp hm
    rw [Bool.and_eq_true, decide_eq_true_eq] at hmatch
    exact ⟨hmem, hmatch⟩
  refine ⟨⟨rfl, rfl⟩, ⟨w.producerId.val, w.header (key, r, payload), ?_, ?_, hcase, ?_⟩, ?_, ?_, ?_,
    ?_, ?_⟩
  · exact sqlText_identifier w.producerId
  · exact w.find_header hrevised hkeys hx
  · have hsum := (hperm.map w.rowBytes).sum_nat
    rw [List.map_map]
    refine (Int.ofNat_le.mpr (Nat.le_of_eq ?_)).trans hbytes
    exact congrArg (_ + ·) hsum
  · have hcontent := map_eq_map_some (f := fun m : Member (Network.WindowKey D) D =>
        (A.content key m.item).map fun e => w.row ⟨key, e⟩) fun m hm =>
      let ⟨hmem, howner, hcovers⟩ := hmember m hm
      let ⟨e, he⟩ := exists_content hrevised hx hmem howner hcovers
      ⟨w.row ⟨key, e⟩, by rw [he, Option.map_some]⟩
    rw [hjoined, List.map_map, Member.heldAt, List.filterMap_map, List.map_filterMap]
    exact hcontent
  · intro x hx
    rw [hjoined] at hx
    obtain ⟨m, hm, rfl⟩ := List.mem_map.mp hx
    obtain ⟨hmem, -, hcovers⟩ := hmember m hm
    obtain ⟨hpos, -, -⟩ := hrevised.history.before m hmem
    exact w.valid_stay hpos hcovers
  · have hheld : (Member.heldAt A.book.membership key r).Nodup :=
      (hrevised.history.held _ hx).nodup_iff.mpr (hrevised.history.nodup _ hx)
    rw [hjoined, List.map_map]
    rw [Member.heldAt] at hheld
    have hids := hheld.map hdigest.injective
    rw [List.map_map] at hids
    exact hids
  · rw [htotal, List.length_map, hperm.length_eq, hrevised.counted _ hx]
  · rw [List.length_map, hperm.length_eq]
    exact hrecords

/-! ### Reading a revision -/

theorem mapM_eq_none {f : α → Option β} {xs : List α} (h : ∃ x ∈ xs, f x = none) :
    xs.mapM f = none := by
  induction xs with
  | nil =>
    obtain ⟨x, hx, -⟩ := h
    cases hx
  | cons x xs ih =>
    rw [List.mapM_cons]
    cases hf : f x with
    | none => rfl
    | some y =>
      obtain ⟨z, hz, hnone⟩ := h
      rcases List.mem_cons.mp hz with rfl | hz
      · rw [hf] at hnone
        cases hnone
      · rw [ih ⟨z, hz, hnone⟩]
        rfl

theorem mapM_forall₂ {γ : Type} {f : α → Option β} {g : γ → α} {R : β → γ → Prop} {xs : List γ}
    (h : ∀ x ∈ xs, ∃ y, f (g x) = some y ∧ R y x) :
    ∃ ys, (xs.map g).mapM f = some ys ∧ List.Forall₂ R ys xs := by
  induction xs with
  | nil => exact ⟨[], rfl, .nil⟩
  | cons x xs ih =>
    obtain ⟨y, hy, hR⟩ := h x List.mem_cons_self
    obtain ⟨ys, hys, hall⟩ := ih fun z hz => h z (List.mem_cons_of_mem _ hz)
    refine ⟨y :: ys, ?_, .cons hR hall⟩
    rw [List.map_cons, List.mapM_cons, hy, hys]
    rfl

/-- **One revision of a reachable state**: it is read unless it cites port 0. -/
theorem read_revision (hdigest : StrictMono fun d => (w.digest d).val) {env : Network.Env D}
    {db : Network.Db D} (h : Network.Kept env log db) (hkeys : w.Distinguishes db.analysis)
    {l : ReadLimits} {key : Network.WindowKey D} {payload : Network.Payload D}
    (hx : (key, r, payload) ∈ db.analysis.book.revisions) (hr : (r : Int) ≤ 2 ^ 31 - 1)
    (hrecords : (payload.evidence.length : Int) ≤ l.recordLimit.val)
    (hbytes : (w.readBytes r payload : Int) ≤ l.byteLimit.val) :
    ((∀ e ∈ payload.evidence, e.dstPort ≠ some 0) → ∃ case bytes,
      readNetworkCase l (.ok (w.db db.analysis)) (w.incidentId key) r = .ok (case, bytes) ∧
        List.Forall₂ w.Shows case.evidence payload.evidence) ∧
    ((∃ e ∈ payload.evidence, e.dstPort = some 0) →
      readNetworkCase l (.ok (w.db db.analysis)) (w.incidentId key) r =
        .error .evidenceInvalid) := by
  obtain ⟨hkey, hpos⟩ := h.cited.headed _ hx
  obtain ⟨e₀, he₀, hpeer₀⟩ := h.cited.grouped _ hx
  have hfields : ∀ e ∈ log, Network.Fields e := fun e he =>
    Network.fields_of_valid (h.inv.recorded.valid e he)
  have hpossible : ∀ e ∈ payload.evidence, e ∈ log ∧ e.peer = key.1 := by
    intro e he
    obtain ⟨row, hfind, rfl⟩ := Option.map_eq_some_iff.mp (h.revised.history.kept _ hx e he)
    have hrow := h.revised.possible row (Table.mem_of_find? hfind)
    have hrowKey := Table.find?_key (t := db.analysis.evidence) hfind
    exact ⟨hrow.1, hrow.2.trans (congrArg Prod.fst (Prod.mk.inj hrowKey).1)⟩
  have hcount : (payload.evidenceCount : Int) ≤ 1000000 := by
    have hlimit := l.recordLimit.property.2
    have hlength := h.revised.counted _ hx
    dsimp only at hlength
    omega
  obtain ⟨case, hcase, htyped, htotal⟩ := w.read_header (x := (key, r, payload)) hkey
    ⟨Int.ofNat_le.mpr hpos, hr⟩ hcount (hfields e₀ he₀) hpeer₀
  have hretained := w.retained hdigest h.revised h.cited hkeys hx hcase htotal hrecords hbytes
  have hread := readNetworkCase_eq (w.isNetId_incidentId key) ⟨Int.ofNat_le.mpr hpos, hr⟩ hretained
  have hevidence : ((Member.heldAt db.analysis.book.membership key r).filterMap
      (db.analysis.content key)).insertionSort (fun a b => a.caseOrder ≤ b.caseOrder) =
        payload.evidence := h.revised.evidenceItems_eq hx
  rw [w.orderRows_eq hdigest, hevidence] at hread
  have hrow : ∀ e ∈ payload.evidence,
      (e.dstPort = some 0 → (w.row ⟨key, e⟩).read case.toAnchor = none) ∧
        (e.dstPort ≠ some 0 → ∃ n, (w.row ⟨key, e⟩).read case.toAnchor = some n ∧ w.Shows n e) := by
    intro e he
    obtain ⟨hlog, hpeer⟩ := hpossible e he
    exact w.read_row (by rw [hpeer]; exact htyped) (hfields e hlog) (h.cited.cites _ hx e he)
  constructor
  · intro hports
    obtain ⟨records, hrecords, hshows⟩ := mapM_forall₂ (R := w.Shows)
      (f := (NetworkRow.read · case.toAnchor)) (g := fun e => w.row ⟨key, e⟩)
      fun e he => (hrow e he).2 (hports e he)
    rw [hrecords] at hread
    obtain ⟨read, bytes, hok, rfl⟩ := hread
    exact ⟨read, bytes, hok, hshows⟩
  · intro ⟨e, he, hport⟩
    rw [mapM_eq_none ⟨_, List.mem_map_of_mem he, (hrow e he).1 hport⟩] at hread
    exact hread

end Print

/-- **A case revision can be read exactly when no packet of its evidence went to port 0** and its
number is one the reader takes. -/
theorem readable_iff_no_port_zero {D : Type} [LinearOrder D] (env : Network.Env D)
    (ops : List (Network.Op D)) (w : Print D) (l : ReadLimits)
    (hdigest : StrictMono fun d => (w.digest d).val)
    (hkeys : w.Distinguishes (run (Network.next env) .empty ops).analysis)
    {key : Network.WindowKey D} {r : Nat} {payload : Network.Payload D}
    (h : (key, r, payload) ∈ (run (Network.next env) .empty ops).analysis.book.revisions)
    (hrecords : (payload.evidence.length : Int) ≤ l.recordLimit.val)
    (hbytes : (w.readBytes r payload : Int) ≤ l.byteLimit.val) :
    (∃ case bytes, readNetworkCase l (.ok (w.db (run (Network.next env) .empty ops).analysis))
        (w.incidentId key) r = .ok (case, bytes) ∧
          List.Forall₂ w.Shows case.evidence payload.evidence) ↔
      r ≤ 2 ^ 31 - 1 ∧ ∀ e ∈ payload.evidence, e.dstPort ≠ some 0 := by
  have hkept := Network.kept_run env ops
  constructor
  · intro hshown
    obtain ⟨_, _, hread, _⟩ := hshown
    have hr : r ≤ 2 ^ 31 - 1 := by
      by_contra hr
      have hrequest : (!isNetId (w.incidentId key) ||
          !(decide (1 ≤ (r : Int)) && decide ((r : Int) ≤ 2 ^ 31 - 1))) = true := by
        have hlarge : ¬((r : Int) ≤ 2 ^ 31 - 1) := by omega
        rw [decide_eq_false hlarge, Bool.and_false, Bool.not_false, Bool.or_true]
      rw [readNetworkCase, if_pos hrequest] at hread
      cases hread
    refine ⟨hr, fun e he hport => ?_⟩
    have hinvalid := (w.read_revision hdigest hkept hkeys h (by omega) hrecords hbytes).2
      ⟨e, he, hport⟩
    rw [hread] at hinvalid
    cases hinvalid
  · intro hbounds
    obtain ⟨hr, hports⟩ := hbounds
    exact (w.read_revision hdigest hkept hkeys h (by omega) hrecords hbytes).1 hports

/-! #### A scan of ten ports -/

/-- A digest that ends in one of sixteen digits. -/
def smallDigest (i : Fin 16) : Digest :=
  ⟨String.ofList (List.replicate 63 '0' ++ [Nat.digitChar i]), by
    rw [isDigest, String.toList_ofList]
    revert i
    decide⟩

/-- Digests of one hexadecimal digit; an event has that of its cursor. -/
def smallWire : Network.Wire (Fin 16) where
  revision _ := 0
  identity _ _ cursor := Fin.ofNat 16 (cursor.headD 'A').toNat
  content _ := 0
  payload _ := 0
  record entry := entry.eventId
  size batch := batch.entries.length

def smallEnv : Network.Env (Fin 16) := ⟨smallWire, ⟨14, 100, 100, 100⟩, fun _ => 400, fun _ => 400⟩

/-- A rejected packet to a port of the gateway. -/
def scanEvent (port : Nat) : Network.NetworkEvent (Fin 16) where
  sourceId := "edge-1".toList
  parserVersion := .ufwV1
  bootId := List.replicate 32 'b'
  journalCursor := [Char.ofNat (65 + port)]
  journalRealtimeUs := 10
  journalMonotonicUs := 1800000000 + port
  ipFamily := 4
  srcIp := "10.0.0.9".toList
  dstIp := "10.0.0.1".toList
  protocol := .tcp
  observedProtocol := "TCP".toList
  srcPort := some 4000
  dstPort := some port
  tcpFlags := some {.syn}
  ingressInterface := some "eth0".toList
  egressInterface := none
  direction := .localInput
  observationPoint := .localInput
  logLabel := "[UFW BLOCK]".toList
  sourceProfileRevision := 0
  coverage := ∅
  rejectionRelated := true
  eventId := Fin.ofNat 16 (65 + port)
  contentHash := 0

/-- The packets to ten ports from `first` on arrive and their hour is analysed. -/
def scanOps (first : Nat) : List (Network.Op (Fin 16)) :=
  [.ingest ⟨Network.gatewayProfile, 1000000,
      { sourceId := "edge-1".toList
        profileRevision := 0
        batchId := "b1".toList
        collectedAtUs := 20
        cursorBefore := none
        cursorAfter := some [Char.ofNat (74 + first)]
        entries := (List.range 10).map fun i => .event (scanEvent (first + i))
        reports := []
        caughtUp := true }⟩,
    .takeIn 1 200, .analyze 1 ((scanEvent 0).peer, 0)]

/-- Small rows. -/
def smallPrint : Print (Fin 16) where
  digest := smallDigest
  fingerprint _ := smallDigest 0
  producerId := ⟨"p", by decide⟩
  schemaBytes := 8
  producerBytes := 5
  headerBytes _ _ := 300
  countBytes := 9
  rowBytes _ := 400

theorem smallDigest_strictMono : StrictMono fun d => (smallPrint.digest d).val := by
  have htexts : ∀ a b : Fin 16, a < b → List.replicate 63 '0' ++ [Nat.digitChar a] <
      List.replicate 63 '0' ++ [Nat.digitChar b] := by
    decide +kernel
  intro a b hab
  exact String.lt_iff_toList_lt.mpr (by
    simpa only [smallPrint, smallDigest, String.toList_ofList] using htexts a b hab)

def smallLimits : ReadLimits :=
  ⟨⟨5000, by decide⟩, ⟨200, by decide⟩, ⟨8388608, by decide⟩, .int 5, .float (1 / 4), ⟨200, by decide⟩,
    ⟨by norm_num [Number.value], by norm_num [Number.value]⟩,
    ⟨by norm_num [Number.value], by norm_num [Number.value]⟩⟩

/-- What the scan leaves: one revision of one case, with ten packets. -/
theorem scan_revision {first : Nat} (h : first < 2) :
    ∃ x, (run (Network.next smallEnv) .empty (scanOps first)).analysis.book.revisions = [x] ∧
      x.2.1 = 1 ∧ x.2.2.evidence.map (fun e => e.dstPort) =
        (List.range 10).map fun i => some (first + i) := by
  have hleft : ∀ n < 2, (run (Network.next smallEnv) .empty (scanOps n)).analysis.book.revisions.map
      (fun x => (x.2.1, x.2.2.evidence.map fun e => e.dstPort)) =
        [(1, (List.range 10).map fun i => some (n + i))] := by
    decide +kernel
  obtain ⟨x, hx, heq⟩ := List.map_eq_singleton_iff.mp (hleft first h)
  obtain ⟨hnumber, hports⟩ := Prod.mk.inj heq
  exact ⟨x, hx, hnumber, hports⟩

theorem scan_distinguishes {first : Nat} (h : first < 2) :
    smallPrint.Distinguishes (run (Network.next smallEnv) .empty (scanOps first)).analysis := by
  obtain ⟨x, hx, -⟩ := scan_revision h
  intro y hy z hz _
  rw [hx, List.mem_singleton] at hy hz
  rw [hy, hz]

theorem scan_bytes {payload : Network.Payload (Fin 16)} {first : Nat}
    (hports : payload.evidence.map (fun e => e.dstPort) =
      (List.range 10).map fun i => some (first + i)) :
    payload.evidence.length = 10 ∧ smallPrint.readBytes 1 payload = 4322 := by
  have hlen : payload.evidence.length = 10 := by
    have := congrArg List.length hports
    rwa [List.length_map, List.length_map, List.length_range] at this
  refine ⟨hlen, ?_⟩
  show 8 + 5 + 300 + 9 + (payload.evidence.map fun _ => 400).sum = 4322
  rw [List.map_const', List.sum_replicate, hlen]
  rfl

/-- A scan of the ports 1 to 10 is read. -/
theorem scan_readable : ∃ x ∈ (run (Network.next smallEnv) .empty (scanOps 1)).analysis.book.revisions,
    ∃ n bytes, readNetworkCase smallLimits
      (.ok (smallPrint.db (run (Network.next smallEnv) .empty (scanOps 1)).analysis))
        (smallPrint.incidentId x.1) x.2.1 = .ok (n, bytes) ∧
          List.Forall₂ smallPrint.Shows n.evidence x.2.2.evidence := by
  obtain ⟨⟨key, r, payload⟩, hx, hr, hports⟩ := scan_revision (show 1 < 2 by decide)
  dsimp only at hr hports
  subst hr
  obtain ⟨hlen, hbytes⟩ := scan_bytes hports
  have hmem : (key, 1, payload) ∈
      (run (Network.next smallEnv) .empty (scanOps 1)).analysis.book.revisions := by
    rw [hx]
    exact List.mem_singleton_self _
  refine ⟨_, hmem, (readable_iff_no_port_zero smallEnv (scanOps 1) smallPrint smallLimits
    smallDigest_strictMono (scan_distinguishes (by decide)) hmem ?_ ?_).mpr ⟨by decide, ?_⟩⟩
  · rw [hlen]
    decide
  · rw [hbytes]
    decide
  · intro e he hport
    have hzero : some 0 ∈ payload.evidence.map fun e => e.dstPort :=
      hport ▸ List.mem_map_of_mem he
    rw [hports] at hzero
    revert hzero
    decide

/-- A scan that starts at port 0 is a case nobody can read. -/
theorem scan_of_port_zero_unreadable :
    ∃ x ∈ (run (Network.next smallEnv) .empty (scanOps 0)).analysis.book.revisions,
      x.2.2.evidence.length = 10 ∧
      smallPrint.readBytes x.2.1 x.2.2 = 4322 ∧
      readNetworkCase smallLimits
        (.ok (smallPrint.db (run (Network.next smallEnv) .empty (scanOps 0)).analysis))
          (smallPrint.incidentId x.1) x.2.1 = .error .evidenceInvalid := by
  obtain ⟨⟨key, r, payload⟩, hx, hr, hports⟩ := scan_revision (show 0 < 2 by decide)
  dsimp only at hr hports
  subst hr
  obtain ⟨hlen, hbytes⟩ := scan_bytes hports
  have hmem : (key, 1, payload) ∈
      (run (Network.next smallEnv) .empty (scanOps 0)).analysis.book.revisions := by
    rw [hx]
    exact List.mem_singleton_self _
  have hzero : ∃ e ∈ payload.evidence, e.dstPort = some 0 := by
    have hlisted : some 0 ∈ payload.evidence.map fun e => e.dstPort := by
      rw [hports]
      decide
    exact List.mem_map.mp hlisted
  refine ⟨_, hmem, hlen, hbytes, (smallPrint.read_revision smallDigest_strictMono
    (Network.kept_run smallEnv (scanOps 0)) (scan_distinguishes (by decide)) hmem (by decide) ?_
    ?_).2 hzero⟩
  · rw [hlen]
    decide
  · rw [hbytes]
    decide

end RiskOps.JointEvidence
