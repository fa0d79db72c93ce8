import RiskOps.Telemetry.NetworkStore

/-!
# RiskOps.Telemetry.NetworkStoreSpec — the collector accepts what the store answers

**Every response of the store passes `validateAck` for the batch it answers.** A fresh batch is
answered with one result per entry, in order. A batch that was delivered before is answered
with the stored response, and equal digests mean equal batches.

Digests are only assumed not to collide on what was delivered.
-/

namespace RiskOps.Telemetry.Network

open RiskOps.Lib

variable {D : Type} [DecidableEq D] {w : Wire D} {cfg : StoreConfig}

/-! ### One entry -/

/-- A receipt was written for one of the entries. -/
def FromEntry (w : Wire D) (delivered : List (Batch D)) (r : Receipt D) : Prop :=
  ∃ b ∈ delivered, ∃ entry ∈ b.entries, r.recordHash = w.record entry ∧ r.code = entry.code

/-- The batch in progress: one matching result for each entry so far. -/
structure Answered (w : Wire D) (delivered : List (Batch D)) (entries : List (Entry D))
    (st : Progress D) : Prop where
  receipts : ∀ r ∈ st.receipts, FromEntry w delivered r
  results : st.results.length = entries.length
  matching : ∀ p ∈ st.results.zip entries, resultMatches p.1 p.2 = true

theorem resultMatches_resultOf (entry : Entry D) (status : Status)
    (h : status = .duplicate ∨ status = if entry.isEvent then .accepted else .rejected) :
    resultMatches (resultOf entry status entry.code) entry = true := by
  rw [resultMatches]
  simp only [resultOf, beq_self_eq_true, Bool.true_and, Bool.or_eq_true, beq_iff_eq]
  exact h

theorem Answered.snoc {delivered : List (Batch D)} {entries : List (Entry D)} {st st' : Progress D}
    {entry : Entry D} {status : Status} (h : Answered w delivered entries st)
    (hresults : st'.results = st.results ++ [resultOf entry status entry.code])
    (hstatus : status = .duplicate ∨ status = if entry.isEvent then .accepted else .rejected)
    (hreceipts : ∀ r ∈ st'.receipts, FromEntry w delivered r) :
    Answered w delivered (entries ++ [entry]) st' := by
  refine ⟨hreceipts, by rw [hresults]; simp [h.results], ?_⟩
  intro p hp
  rw [hresults, List.zip_append h.results, List.mem_append] at hp
  rcases hp with hp | hp
  · exact h.matching p hp
  · rw [List.zip_cons_cons, List.zip_nil_left, List.mem_singleton] at hp
    rw [hp]
    exact resultMatches_resultOf entry status hstatus

/-- Digests of entries do not collide. -/
def RecordsApart (w : Wire D) (delivered : List (Batch D)) : Prop :=
  ∀ b ∈ delivered, ∀ entry ∈ b.entries, ∀ b' ∈ delivered, ∀ entry' ∈ b'.entries,
    w.record entry = w.record entry' → entry = entry'

/-- Digests of batches do not collide. -/
def PayloadsApart (w : Wire D) (delivered : List (Batch D)) : Prop :=
  ∀ b ∈ delivered, ∀ b' ∈ delivered, w.payload b = w.payload b' → b = b'

theorem mem_insertOrIgnore {ρ κ : Type} {key : ρ → κ} [DecidableEq κ] {t : Table key} {r a : ρ}
    (h : a ∈ t.insertOrIgnore r) : a ∈ t ∨ a = r := by
  rw [Table.insertOrIgnore] at h
  cases hi : t.insert r with
  | none =>
    rw [hi] at h
    exact Or.inl h
  | some t' =>
    rw [hi, Option.getD_some] at h
    exact (Table.mem_of_insert hi).mp h

omit [DecidableEq D] in
theorem receiptOf_recordHash (w : Wire D) (b : Batch D) (now : Nat) (entry : Entry D) :
    (receiptOf w b now entry).recordHash = w.record entry ∧
      (receiptOf w b now entry).code = entry.code := by
  cases entry with
  | event e => exact ⟨rfl, rfl⟩
  | rejection r => exact ⟨rfl, rfl⟩

/-- **One entry gets one matching result**, whether it is new or repeated. -/
theorem Answered.entry {delivered : List (Batch D)} {entries : List (Entry D)} {st st' : Progress D}
    {entry : Entry D} {b : Batch D} {now : Nat} (hapart : RecordsApart w delivered)
    (hb : b ∈ delivered) (hentry : entry ∈ b.entries) (h : Answered w delivered entries st)
    (hstep : ingestEntry w cfg b now st entry = .ok st') :
    Answered w delivered (entries ++ [entry]) st' := by
  rw [ingestEntry] at hstep
  cases hfind : st.receipts.find? (b.sourceId, entry.eventId) with
  | some previous =>
    rw [hfind] at hstep
    dsimp only at hstep
    split at hstep
    · cases hstep
    · rename_i hsame
      cases hstep
      obtain ⟨b', hb', entry', hentry', hhash, hcode⟩ :=
        h.receipts previous (Table.mem_of_find? hfind)
      have hrecord : w.record entry' = w.record entry := by
        rw [← hhash]
        by_contra hne
        exact hsame (Or.inr (Or.inr hne))
      have heq : entry' = entry := hapart b' hb' entry' hentry' b hb entry hentry hrecord
      rw [heq] at hcode
      rw [hcode]
      exact h.snoc rfl (Or.inl rfl) h.receipts
  | none =>
    rw [hfind] at hstep
    dsimp only at hstep
    split at hstep
    · cases hstep
    · have hreceipts : ∀ r ∈ st.receipts.insertOrIgnore (receiptOf w b now entry),
          FromEntry w delivered r := by
        intro r hr
        rcases mem_insertOrIgnore hr with hr | rfl
        · exact h.receipts r hr
        · exact ⟨b, hb, entry, hentry, receiptOf_recordHash w b now entry⟩
      cases entry with
      | event e =>
        cases hstep
        exact h.snoc rfl (Or.inr rfl) hreceipts
      | rejection r =>
        cases hstep
        exact h.snoc rfl (Or.inr rfl) hreceipts

theorem Answered.foldlM {delivered : List (Batch D)} {b : Batch D} {now : Nat}
    (hapart : RecordsApart w delivered) (hb : b ∈ delivered) :
    ∀ {rest entries : List (Entry D)} {st st' : Progress D}, b.entries = entries ++ rest →
      Answered w delivered entries st → rest.foldlM (ingestEntry w cfg b now) st = .ok st' →
      Answered w delivered b.entries st' := by
  intro rest
  induction rest with
  | nil =>
    intro entries st st' hsplit h hfold
    cases hfold
    rw [List.append_nil] at hsplit
    exact hsplit ▸ h
  | cons entry rest ih =>
    intro entries st st' hsplit h hfold
    rw [List.foldlM_cons] at hfold
    obtain ⟨mid, hmid, hrest⟩ := bind_eq_ok.mp hfold
    have hentry : entry ∈ b.entries := by
      rw [hsplit]
      exact List.mem_append_right _ List.mem_cons_self
    exact ih (by rw [hsplit, List.append_assoc, List.singleton_append])
      (h.entry hapart hb hentry hmid) hrest

/-! ### One batch -/

theorem validateAck_responseOf {b : Batch D} {now : Nat} {results : List (Result D)}
    (hnow : now ≤ maxRealtimeUs) (hlen : results.length = b.entries.length)
    (hmatch : ∀ p ∈ results.zip b.entries, resultMatches p.1 p.2 = true) :
    validateAck w (responseOf w b now results) b = .ok () := by
  have hecho : echoes (responseOf w b now results) b = true := by
    simp [echoes, responseOf]
  have hall : (((responseOf w b now results).results.zip b.entries).all fun p =>
      resultMatches p.1 p.2) = true := List.all_eq_true.mpr hmatch
  rw [validateAck, hecho, hall, if_neg (by simp [responseOf]),
    if_neg (by simp only [responseOf]; omega), if_neg (by simp [responseOf, hlen]),
    if_neg (by simp), if_neg (by simp [responseOf])]

/-- What the store remembers of the deliveries so far. -/
structure Remembers (w : Wire D) (delivered : List (Batch D)) (s : Store D) : Prop where
  receipts : ∀ r ∈ s.receipts, FromEntry w delivered r
  batches : ∀ row ∈ s.batches, ∃ b ∈ delivered, row.key = (b.sourceId, b.batchId) ∧
    row.payloadHash = w.payload b ∧ validateAck w row.response b = .ok ()

/-- **The outcomes of `ingest`.** Either the batch was stored before, or it starts at the
checkpoint and is stored now. -/
theorem ingest_cases {profile : SourceProfile} {now : Nat} {b : Batch D} {s s' : Store D}
    {ack : Ack D} (h : ingest w cfg profile now b s = .ok (ack, s')) :
    now ≤ maxRealtimeUs ∧
    ((∃ previous, s.batches.find? (b.sourceId, b.batchId) = some previous ∧
        previous.payloadHash = w.payload b ∧ ack = previous.response ∧ s' = s) ∨
      (s.batches.find? (b.sourceId, b.batchId) = none ∧
        b.cursorBefore = s.checkpoint b.sourceId ∧
        ∃ st, b.entries.foldlM (ingestEntry w cfg b now)
            ⟨s.receipts, deleteExpired cfg now s.events, s.eventSeq, []⟩ = .ok st ∧
          ack = responseOf w b now st.results ∧
          s' = {
            receipts := st.receipts
            events := st.events
            eventSeq := st.eventSeq
            batches := s.batches.insertOrIgnore ⟨b.sourceId, b.batchId, w.payload b, now, ack⟩
            sources := s.sources.replace (sourceAfter (s.sources.find? b.sourceId) b now ack) })) := by
  rw [ingest] at h
  obtain ⟨-, -, h⟩ := bind_eq_ok.mp h
  split at h
  · cases h
  · rename_i hnow
    refine ⟨not_lt.mp hnow, ?_⟩
    split at h
    · rename_i previous hfind
      split at h
      · cases h
      · rename_i hsame
        cases h
        exact Or.inl ⟨previous, hfind, not_not.mp hsame, rfl, rfl⟩
    · rename_i hfind
      rw [ingestFresh] at h
      split at h
      · cases h
      · split at h
        · cases h
        · rename_i hcursor
          split at h
          · cases h
          · obtain ⟨st, hst, hdone⟩ := bind_eq_ok.mp h
            cases hdone
            exact Or.inr ⟨hfind, not_not.mp hcursor, st, hst, rfl, rfl⟩

/-- **One delivery.** The response is acceptable, and the store remembers it. -/
theorem Remembers.ingest {delivered : List (Batch D)} {profile : SourceProfile} {now : Nat}
    {b : Batch D} {s s' : Store D} {ack : Ack D} (hpayloads : PayloadsApart w delivered)
    (hrecords : RecordsApart w delivered) (hb : b ∈ delivered) (h : Remembers w delivered s)
    (hok : ingest w cfg profile now b s = .ok (ack, s')) :
    validateAck w ack b = .ok () ∧ Remembers w delivered s' := by
  obtain ⟨hnow, hcases⟩ := ingest_cases hok
  rcases hcases with ⟨previous, hfind, hhash, rfl, rfl⟩ | ⟨hfind, -, st, hst, rfl, rfl⟩
  · obtain ⟨b', hb', -, hhash', hvalid⟩ := h.batches previous (Table.mem_of_find? hfind)
    have heq : b' = b := hpayloads b' hb' b hb (hhash'.symm.trans hhash)
    exact ⟨heq ▸ hvalid, h⟩
  · have hstart : Answered w delivered []
        ⟨s.receipts, deleteExpired cfg now s.events, s.eventSeq, []⟩ :=
      ⟨h.receipts, rfl, by simp⟩
    have hend : Answered w delivered b.entries st :=
      Answered.foldlM hrecords hb (List.nil_append _).symm hstart hst
    have hvalid : validateAck w (responseOf w b now st.results) b = .ok () :=
      validateAck_responseOf hnow hend.results hend.matching
    refine ⟨hvalid, hend.receipts, ?_⟩
    intro row hrow
    rcases mem_insertOrIgnore hrow with hrow | rfl
    · exact h.batches row hrow
    · exact ⟨b, hb, rfl, rfl, hvalid⟩

/-! ### Every run -/

theorem remembers_run (w : Wire D) (cfg : StoreConfig) {delivered : List (Batch D)}
    (hpayloads : PayloadsApart w delivered) (hrecords : RecordsApart w delivered)
    {xs : List (Delivery D)} (hxs : ∀ x ∈ xs, x.batch ∈ delivered) :
    Remembers w delivered (run (deliver w cfg) .empty xs) := by
  refine run_invariant (Q := fun x => x.batch ∈ delivered) ?_ hxs
    ⟨fun r hr => absurd hr (Table.not_mem_empty r), fun r hr => absurd hr (Table.not_mem_empty r)⟩
  intro s x hx h
  rw [deliver]
  split
  · rename_i ack s' hok
    exact (h.ingest hpayloads hrecords hx hok).2
  · exact h

/-- **Every acknowledgement the store issues is one the collector accepts.** In every store
reached by deliveries, a batch that `ingest` does not refuse is answered with an
acknowledgement that passes `validateAck` for it; and if it was not stored before, the
checkpoint of its source is then its last cursor. -/
theorem ingest_ack_accepted (w : Wire D) (cfg : StoreConfig) (xs : List (Delivery D))
    (x : Delivery D) (hpayloads : PayloadsApart w (x.batch :: xs.map Delivery.batch))
    (hrecords : RecordsApart w (x.batch :: xs.map Delivery.batch)) (ack : Ack D) (s' : Store D)
    (hok : ingest w cfg x.profile x.now x.batch (run (deliver w cfg) .empty xs) = .ok (ack, s')) :
    validateAck w ack x.batch = .ok () ∧
      ((run (deliver w cfg) .empty xs).batches.find? (x.batch.sourceId, x.batch.batchId) = none →
        s'.checkpoint x.batch.sourceId = x.batch.cursorAfter) := by
  have hmem : ∀ y ∈ xs, y.batch ∈ x.batch :: xs.map Delivery.batch :=
    fun y hy => List.mem_cons_of_mem _ (List.mem_map_of_mem hy)
  have h := remembers_run w cfg hpayloads hrecords hmem
  refine ⟨(h.ingest hpayloads hrecords List.mem_cons_self hok).1, fun hfirst => ?_⟩
  obtain ⟨-, hcases⟩ := ingest_cases hok
  rcases hcases with ⟨previous, hfind, -⟩ | ⟨-, -, st, -, -, rfl⟩
  · rw [hfirst] at hfind
    cases hfind
  · have hkey : (sourceAfter ((run (deliver w cfg) .empty xs).sources.find? x.batch.sourceId)
        x.batch x.now ack).sourceId = x.batch.sourceId := rfl
    rw [Store.checkpoint, Table.find?_replace, if_pos hkey]
    rfl

/-! ### A sample source -/

/-- A host that logs every rejected packet. -/
def sampleProfile : SourceProfile where
  sourceId := "edge-1".toList
  rulesetSha256 := List.replicate 64 'a'
  logLabels := ["[UFW BLOCK]".toList]
  ipFamilies := [4]
  rejectionLabels := ["[UFW BLOCK]".toList]
  localInputLabels := []
  localInputInterfaces := []
  loggingLimit := .unlimited
  retention := .bounded
  loggingLimitContext := "none".toList
  retentionContext := "90d".toList
  guardVersion := .legacy
  profileValidFromUs := none
  dynamicTerminalSets := []

/-- A text as one number. -/
def textNumber (s : List Char) : Nat := s.foldl (fun n c => n * 1114112 + c.toNat) 1

/-- Digests that keep cursors and batch identifiers apart. -/
def sampleWire : Wire Nat where
  revision p := textNumber p.sourceId
  identity source boot cursor := textNumber (source ++ boot ++ cursor)
  content c := textNumber (c.bootId ++ c.journalCursor)
  payload b := textNumber b.batchId
  record entry := entry.eventId
  size b := b.entries.length

/-- A packet from a host to a port. -/
def sampleContent (cursor : List Char) (port : Nat) : Content Nat where
  sourceId := "edge-1".toList
  parserVersion := .ufwV1
  bootId := List.replicate 32 'b'
  journalCursor := cursor
  journalRealtimeUs := 10
  journalMonotonicUs := 10
  ipFamily := 4
  srcIp := "10.0.0.9".toList
  dstIp := "10.0.0.1".toList
  protocol := .tcp
  observedProtocol := "TCP".toList
  srcPort := some 4000
  dstPort := some port
  tcpFlags := some {.syn}
  ingressInterface := some "eth0".toList
  egressInterface := none
  direction := .unknown
  observationPoint := .unknown
  logLabel := "[UFW BLOCK]".toList
  sourceProfileRevision := textNumber "edge-1".toList
  coverage := {.unverifiedLocalInput}
  rejectionRelated := true

/-- The observation of a packet. -/
def sampleEvent (cursor : List Char) (port : Nat) : NetworkEvent Nat :=
  { sampleContent cursor port with
    eventId := sampleWire.identity "edge-1".toList (List.replicate 32 'b') cursor
    contentHash := sampleWire.content (sampleContent cursor port) }

/-- A record without a message. -/
def sampleRejection (cursor : List Char) : Rejection Nat where
  eventId := sampleWire.identity "edge-1".toList (List.replicate 32 'b') cursor
  contentHash := textNumber cursor
  bootId := List.replicate 32 'b'
  journalCursor := cursor
  journalRealtimeUs := 10
  journalMonotonicUs := 10
  code := .invalidRecord

/-- A batch of the source. -/
def sampleBatch (batchId : List Char) (before after : Option (List Char))
    (entries : List (Entry Nat)) : Batch Nat where
  sourceId := "edge-1".toList
  profileRevision := textNumber "edge-1".toList
  batchId := batchId
  collectedAtUs := 20
  cursorBefore := before
  cursorAfter := after
  entries := entries
  reports := []
  caughtUp := true

/-- A rejection and an observation. -/
def firstBatch : Batch Nat := sampleBatch "b1".toList none (some "c2".toList)
  [.rejection (sampleRejection "c1".toList), .event (sampleEvent "c2".toList 22)]

/-- The observation again, and one more rejection. -/
def secondBatch : Batch Nat := sampleBatch "b2".toList (some "c2".toList) (some "c3".toList)
  [.event (sampleEvent "c2".toList 22), .rejection (sampleRejection "c3".toList)]

/-- A small store. -/
def sampleConfig : StoreConfig := ⟨14, 10, 10, 10⟩

theorem ingest_ack_accepted_partly_duplicate :
    ∃ ack s', ingest sampleWire sampleConfig sampleProfile 40 secondBatch
        (run (deliver sampleWire sampleConfig) .empty [⟨sampleProfile, 30, firstBatch⟩])
        = .ok (ack, s') ∧ ack.duplicates = 1 ∧ ack.rejected = 1 ∧
      validateAck sampleWire ack secondBatch = .ok () ∧
      s'.checkpoint "edge-1".toList = some "c3".toList := by
  have hok : (ingest sampleWire sampleConfig sampleProfile 40 secondBatch
      (run (deliver sampleWire sampleConfig) .empty [⟨sampleProfile, 30, firstBatch⟩])).toOption.any
        (fun p => p.1.duplicates == 1 && p.1.rejected == 1) = true := by decide
  cases h : ingest sampleWire sampleConfig sampleProfile 40 secondBatch
      (run (deliver sampleWire sampleConfig) .empty [⟨sampleProfile, 30, firstBatch⟩]) with
  | error code => rw [h] at hok; cases hok
  | ok p =>
    obtain ⟨ack, s'⟩ := p
    rw [h] at hok
    have hcounts : ack.duplicates = 1 ∧ ack.rejected = 1 := by simpa [Except.toOption] using hok
    have haccepted := ingest_ack_accepted sampleWire sampleConfig
      [⟨sampleProfile, 30, firstBatch⟩] ⟨sampleProfile, 40, secondBatch⟩
      (by unfold PayloadsApart; decide) (by unfold RecordsApart; decide) ack s' h
    refine ⟨ack, s', rfl, hcounts.1, hcounts.2, haccepted.1, haccepted.2 ?_⟩
    have hfirst : ((run (deliver sampleWire sampleConfig) .empty
      [⟨sampleProfile, 30, firstBatch⟩]).batches.find? (secondBatch.sourceId,
        secondBatch.batchId)).isNone = true := by decide
    exact Option.isNone_iff_eq_none.mp hfirst

end RiskOps.Telemetry.Network
