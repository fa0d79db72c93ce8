import RiskOps.Lib.IpText
import RiskOps.Telemetry.StoreConfluence

/-!
# RiskOps.Telemetry.StoreDelivery — every way to deliver a set of records

**The main results about live SSH detection.** A run is a list of `ingest` calls; a call
that raises changes nothing. What a run delivered is the set of records of the calls that
returned. `Inv` ties the store to that set: the stored rows are the delivered records and
the incidents hold the components of their windows, so the incidents depend on the set
alone (`detection_confluent`).
-/

namespace RiskOps.Telemetry

open RiskOps.Lib

/-! ### Peers need no stripping -/

namespace Sshd

theorem digitVal_of_isSpace {c : Char} (h : isSpace c = true) :
    IpAddress.digitVal c = none ∧ c ≠ '.' ∧ c ≠ ':' := by
  have hrange : ∀ lo hi : Char, (lo ≤ c ∧ c ≤ hi) ↔ (lo.toNat ≤ c.toNat ∧ c.toNat ≤ hi.toNat) :=
    fun lo hi => Iff.rfl
  have h0 : '0'.toNat = 48 := rfl
  have h9 : '9'.toNat = 57 := rfl
  have ha : 'a'.toNat = 97 := rfl
  have hf : 'f'.toNat = 102 := rfl
  have hA : 'A'.toNat = 65 := rfl
  have hF : 'F'.toNat = 70 := rfl
  simp only [isSpace, Bool.or_eq_true, Bool.and_eq_true, decide_eq_true_eq] at h
  refine ⟨?_, ?_, ?_⟩
  · simp only [IpAddress.digitVal, hrange, h0, h9, ha, hf, hA, hF]
    rw [if_neg (by omega), if_neg (by omega), if_neg (by omega)]
  · rintro rfl
    have hdot : '.'.toNat = 46 := rfl
    omega
  · rintro rfl
    have hcolon : ':'.toNat = 58 := rfl
    omega

/-- The text of an address without a zone holds no whitespace. -/
theorem solid_toText {a : IpAddress} (h : a.zone = none) : Solid a.toText := by
  intro c hc
  by_contra hspace
  rw [Bool.not_eq_false] at hspace
  obtain ⟨hdigit, hdot, hcolon⟩ := digitVal_of_isSpace hspace
  cases a with
  | v4 n => exact IpAddress.not_mem_textV4 hdigit hdot hc
  | v6 n zone =>
    have hzone : zone = none := h
    subst hzone
    simp only [IpAddress.toText, Option.map_none, Option.getD_none, List.append_nil] at hc
    exact IpAddress.not_mem_textV6 hdigit hcolon hc

variable {p : List Char}

theorem finish_peer {kind : EventKind} {g : Regex.Groups} (h : (finish kind g).peerIp = some p) :
    ∃ a : IpAddress, a.zone = none ∧ p = a.toText := by
  unfold finish at h
  split at h
  · rename_i peer hpeer
    split at h
    · rename_i canonical hcanonical
      have hp : canonical = p := by
        unfold finishPort at h
        dsimp only at h
        split at h
        · split at h
          · exact Option.some.inj h
          · cases h
        · exact Option.some.inj h
      subst hp
      unfold canonicalPeer at hcanonical
      split at hcanonical
      · cases hcanonical
      · rename_i hclean
        obtain ⟨a, ha, rfl⟩ := Option.map_eq_some_iff.mp hcanonical
        exact ⟨a, IpAddress.zone_eq_none ha fun h => hclean (Or.inl h), rfl⟩
    · cases h
  · unfold finishPort at h
    dsimp only at h
    split at h
    · split at h <;> cases h
    · cases h

theorem parseSshd_peer {message : List Char} (h : (parseSshd message).peerIp = some p) :
    ∃ a : IpAddress, a.zone = none ∧ p = a.toText := by
  rw [parseSshd] at h
  cases hfind : rules.findSome? (·.apply (strip message)) with
  | none =>
    rw [hfind] at h
    cases h
  | some v =>
    rw [hfind, Option.getD_some] at h
    obtain ⟨r, -, hv⟩ := List.exists_of_findSome?_eq_some hfind
    obtain ⟨g, -, rfl⟩ := Option.map_eq_some_iff.mp hv
    exact finish_peer h

/-- The peer of a classified message is a canonical address. -/
theorem classify_address {isWord isDecimal : Char → Bool} {message identifier unit : List Char}
    (h : (classify isWord isDecimal message identifier unit).peerIp = some p) :
    ∃ a : IpAddress, a.zone = none ∧ p = a.toText := by
  unfold classify at h
  split at h
  · obtain ⟨q, hq, hparse⟩ := Option.bind_eq_some_iff.mp h
    obtain ⟨a, hzone, rfl⟩ := parseSshd_peer hq
    obtain ⟨b, hb, rfl⟩ := Option.map_eq_some_iff.mp hparse
    rw [IpAddress.parse_toText hzone] at hb
    exact Option.some.inj hb ▸ ⟨a, hzone, rfl⟩
  · cases h

theorem classify_peer {isWord isDecimal : Char → Bool} {message identifier unit : List Char}
    (h : (classify isWord isDecimal message identifier unit).peerIp = some p) : Solid p := by
  obtain ⟨a, hzone, rfl⟩ := classify_address h
  exact solid_toText hzone

theorem classify_peer_ne_nil {isWord isDecimal : Char → Bool} {message identifier unit : List Char}
    (h : (classify isWord isDecimal message identifier unit).peerIp = some p) : p ≠ [] := by
  obtain ⟨a, hzone, rfl⟩ := classify_address h
  intro hnil
  have hparse := IpAddress.parse_toText hzone
  rw [hnil] at hparse
  cases hparse

theorem strip_solid {s : List Char} (h : Solid s) : strip s = s :=
  strip_eq_self (fun c hc => h c (List.mem_of_mem_head? hc))
    fun c hc => h c (List.mem_of_mem_getLast? hc)

end Sshd

namespace Store

open RiskOps.Lib.Components

/-! ### Records and rows -/

/-- The row a source's raw record is stored as. -/
def rowFor (lib : Library) (sourceId : List Char) (raw : Raw) : Row :=
  rowOf sourceId (Raw.classified lib raw)

/-- Source and event ids carry no leading or trailing whitespace. -/
def TrimmedIds (D : List (List Char × Raw)) : Prop :=
  ∀ p ∈ D, strip p.1 = p.1 ∧ strip p.2.eventId = p.2.eventId

/-- The store holds the records `D`, one row for each. -/
structure Stored (lib : Library) (D : List (List Char × Raw)) (v : View) : Prop where
  receipts : ∀ s raw, (s, raw) ∈ D ↔ ∃ r ∈ v.receipts, r.sourceId = s ∧ r.record = raw
  rows : ∀ row, row ∈ v.rows ↔ ∃ r ∈ v.receipts, row = rowFor lib r.sourceId r.record

variable {lib : Library} {v : View}

theorem Stored.mem_rows {D : List (List Char × Raw)} (h : Stored lib D v) (row : Row) :
    row ∈ v.rows ↔ ∃ p ∈ D, row = rowFor lib p.1 p.2 := by
  rw [h.rows]
  constructor
  · rintro ⟨r, hr, rfl⟩
    exact ⟨(r.sourceId, r.record), (h.receipts _ _).mpr ⟨r, hr, rfl, rfl⟩, rfl⟩
  · rintro ⟨⟨s, raw⟩, hp, rfl⟩
    obtain ⟨r, hr, rfl, rfl⟩ := (h.receipts s raw).mp hp
    exact ⟨r, hr, rfl⟩

theorem rowFor_trimmed {s : List Char} {raw : Raw} (hs : strip s = s)
    (hraw : strip raw.eventId = raw.eventId) : (rowFor lib s raw).Trimmed where
  source := hs
  event := hraw
  peer _ hp := Sshd.strip_solid (Sshd.classify_peer hp)

theorem Stored.sound {D : List (List Char × Raw)} {db : Db} (h : Stored lib D db.view)
    (htrim : TrimmedIds D) : Sound db.view.rows where
  nodup := by
    show ((db.events.rows.map StoredEvent.row).map Row.key).Nodup
    rw [List.map_map]
    exact db.events.nodup
  trimmed row hrow := by
    obtain ⟨p, hp, rfl⟩ := (h.mem_rows row).mp hrow
    exact rowFor_trimmed (htrim p hp).1 (htrim p hp).2

theorem normalizeRecord_classified {now : ℚ} {j : Json} {r : Normalized}
    (h : normalizeRecord lib now j = .ok r) : r = Raw.classified lib r.raw := by
  unfold normalizeRecord at h
  split at h
  · simp only [bind_eq_ok] at h
    obtain ⟨_, -, _, -, _, -, _, -, _, -, _, -, _, -, heq⟩ := h
    rw [← Except.ok.inj heq]
    rfl
  · cases h

theorem checkCall_classified {c : Call} {k : Checked} (h : checkCall lib c = .ok k) :
    ∀ r ∈ k.records, r = Raw.classified lib r.raw := by
  simp only [checkCall, bind_eq_ok] at h
  obtain ⟨_, -, _, -, _, -, _, -, _, -, records, hrecords, heq⟩ := h
  rw [← Except.ok.inj heq]
  intro r hr
  obtain ⟨j, -, hj⟩ := mem_of_mapM hrecords hr
  exact normalizeRecord_classified hj

/-! ### The loop over the records -/

/-- Rows that are handed to detection. -/
def detectable (row : Row) : Bool :=
  (failureType row.eventType || successType row.eventType) && row.srcIp.isSome

/-- What the loop over some records did to the store. -/
structure Took (lib : Library) (D : List (List Char × Raw)) (st st' : Intake) (new : List Row) :
    Prop where
  view : st'.db.view =
    { st.db.view with rows := st.db.view.rows ++ new, receipts := st'.db.view.receipts }
  detected : st'.detectionRows = st.detectionRows ++ new.filter detectable
  stored : Stored lib D st'.db.view

section Loop

variable {lib : Library} {D : List (List Char × Raw)} {c : Call} {st st' : Intake}

theorem stored_dup {s : List Char} {raw : Raw} (h : Stored lib D v)
    (hmem : ∃ r ∈ v.receipts, r.sourceId = s ∧ r.record = raw) :
    Stored lib (D ++ [(s, raw)]) v where
  receipts s' raw' := by
    rw [List.mem_append, List.mem_singleton, ← h.receipts s' raw']
    refine or_iff_left_of_imp fun heq => ?_
    obtain ⟨rfl, rfl⟩ := Prod.mk.inj heq
    exact (h.receipts _ _).mpr hmem
  rows := h.rows

theorem ingestRecord_took {r : Normalized} (hr : r = Raw.classified lib r.raw)
    (h : Stored lib D st.db.view) (hok : ingestRecord c st r = .ok st') :
    ∃ new, Took lib (D ++ [(c.sourceId, r.raw)]) st st' new := by
  unfold ingestRecord at hok
  split at hok
  · rename_i prior hprior
    split at hok
    · rename_i heq
      obtain rfl := Except.ok.inj hok
      refine ⟨[], ?_, by simp, stored_dup h ?_⟩
      · simp
      · have hkey : prior.key = (c.sourceId, r.raw.eventId) := Table.find?_key hprior
        exact ⟨prior, Table.mem_of_find? hprior, congrArg Prod.fst hkey, heq⟩
    · cases hok
  · dsimp only at hok
    split at hok
    · rename_i receipts events hreceipts hevents
      obtain rfl := Except.ok.inj hok
      have hrow : rowOf c.sourceId r = rowFor lib c.sourceId r.raw := by
        rw [rowFor, ← hr]
      have hrows : events.rows.map StoredEvent.row =
          st.db.events.rows.map StoredEvent.row ++ [rowOf c.sourceId r] := by
        rw [Table.rows_of_insert hevents, List.map_append]
        rfl
      refine ⟨[rowOf c.sourceId r], ?_, ?_, ⟨fun s raw => ?_, fun row => ?_⟩⟩
      · exact View.ext hrows rfl rfl rfl rfl rfl
      · show (if detectable (rowOf c.sourceId r) = true then st.detectionRows ++ [rowOf c.sourceId r]
          else st.detectionRows) = _
        by_cases hd : detectable (rowOf c.sourceId r) = true
        · rw [List.filter_cons_of_pos hd, if_pos hd]
          rfl
        · rw [List.filter_cons_of_neg hd, if_neg hd]
          simp
      · show _ ↔ ∃ x ∈ receipts, x.sourceId = s ∧ x.record = raw
        rw [List.mem_append, List.mem_singleton, h.receipts s raw]
        constructor
        · rintro (⟨x, hx, hs⟩ | heq)
          · exact ⟨x, (Table.mem_of_insert hreceipts).mpr (Or.inl hx), hs⟩
          · obtain ⟨rfl, rfl⟩ := Prod.mk.inj heq
            exact ⟨_, (Table.mem_of_insert hreceipts).mpr (Or.inr rfl), rfl, rfl⟩
        · rintro ⟨x, hx, rfl, rfl⟩
          rcases (Table.mem_of_insert hreceipts).mp hx with hx | rfl
          · exact Or.inl ⟨x, hx, rfl, rfl⟩
          · exact Or.inr rfl
      · show row ∈ events.rows.map StoredEvent.row ↔ ∃ x ∈ receipts, row = rowFor lib x.sourceId x.record
        rw [hrows, List.mem_append, List.mem_singleton, hrow]
        constructor
        · rintro (hrow' | rfl)
          · obtain ⟨x, hx, heq⟩ := (h.rows row).mp hrow'
            exact ⟨x, (Table.mem_of_insert hreceipts).mpr (Or.inl hx), heq⟩
          · exact ⟨_, (Table.mem_of_insert hreceipts).mpr (Or.inr rfl), rfl⟩
        · rintro ⟨x, hx, heq⟩
          rcases (Table.mem_of_insert hreceipts).mp hx with hx | rfl
          · exact Or.inl ((h.rows row).mpr ⟨x, hx, heq⟩)
          · exact Or.inr heq
    · cases hok

theorem ingestRecords_took {rs : List Normalized} (hr : ∀ r ∈ rs, r = Raw.classified lib r.raw)
    (h : Stored lib D st.db.view) (hok : ingestRecords c st rs = .ok st') :
    ∃ new, Took lib (D ++ rs.map fun r => (c.sourceId, r.raw)) st st' new := by
  induction rs generalizing st D with
  | nil =>
    obtain rfl := Except.ok.inj hok
    refine ⟨[], by simp, by simp, ?_⟩
    rwa [List.map_nil, List.append_nil]
  | cons r rs ih =>
    rw [ingestRecords, bind_eq_ok] at hok
    obtain ⟨st₁, hfirst, hrest⟩ := hok
    obtain ⟨new, htook⟩ := ingestRecord_took (hr r List.mem_cons_self) h hfirst
    obtain ⟨new', htook'⟩ := ih (fun r' hr' => hr r' (List.mem_cons_of_mem _ hr')) htook.stored hrest
    refine ⟨new ++ new', ?_, ?_, ?_⟩
    · rw [htook'.view, htook.view, List.append_assoc]
    · rw [htook'.detected, htook.detected, List.filter_append, List.append_assoc]
    · rw [List.map_cons, List.append_cons]
      exact htook'.stored

end Loop

/-! ### One call -/

/-- What holds of the store after the records `D` were delivered. -/
structure Inv (lib : Library) (D : List (List Char × Raw)) (db : Db) : Prop where
  stored : Stored lib D db.view
  keeps : db.view.Keeps (edges (eventsOf db.view.rows) Set.univ)
  batches : ∀ b ∈ db.batches, ∀ raw ∈ b.payload.records, (b.sourceId, raw) ∈ D

theorem inv_init (lib : Library) : Inv lib [] Db.init where
  stored := by
    have hnone : ∀ r, r ∉ Db.init.view.receipts := Table.not_mem_empty
    have hrows : Db.init.view.rows = [] := rfl
    exact ⟨fun s raw => by simp [hnone], fun row => by simp [hnone, hrows]⟩
  keeps := by
    have hempty : edges (eventsOf Db.init.view.rows) Set.univ = ∅ := by
      ext p
      simp only [Set.mem_empty_iff_false, iff_false]
      rintro ⟨w, hw, ⟨e, he, -⟩, -⟩
      have hin := hw.subset he
      simp [eventsOf, Db.view, Db.init, Table.empty] at hin
    rw [hempty]
    refine ⟨⟨?_, ?_, ?_, ?_, ?_⟩, represents_empty _⟩
    · intro k i h
      simp [View.owner, Db.view, Db.init] at h
    · intro i c h
      simp [Db.view, Db.init] at h
    · intro i r h
      simp [Db.view, Db.init] at h
    · intro k row i h
      simp [Db.view, Db.init] at h
    · intro i c t h
      simp [Db.view, Db.init] at h
  batches := by
    intro b hb
    simp [Db.init] at hb

/-- New rows alone change nothing about the incidents. -/
theorem View.Keeps.moreRows {H : Set (RuleId × Set Key)} (h : v.Keeps H) (new : List Row)
    (receipts : Table Receipt.key) :
    View.Keeps { v with rows := v.rows ++ new, receipts := receipts } H := by
  obtain ⟨⟨h1, h2, h3, h4, h5⟩, hholds⟩ := h
  refine ⟨⟨h1, h2, h3, fun k row i hk => ?_, h5⟩, hholds⟩
  obtain ⟨hmem, hkey⟩ := h4 k row i hk
  exact ⟨List.mem_append_left _ hmem, hkey⟩

/-- **Detection after new rows.** The windows of the old rows and the matches of the new
ones are the windows of all rows. -/
theorem detection_step {rows new : List Row} (h : Sound (rows ++ new)) :
    Equivalent (edges (eventsOf rows) Set.univ ∪
        queryEdges (rows ++ new) (queries (new.filter detectable)))
      (edges (eventsOf (rows ++ new)) Set.univ) := by
  have htriggers : ∀ row ∈ new.filter detectable, row ∈ rows ++ new := fun row hrow =>
    List.mem_append_right _ (List.mem_of_mem_filter hrow)
  have hquery := queryEdges_equivalent h htriggers
  have hgrow : eventsOf rows ⊆ eventsOf (rows ++ new) :=
    eventsOf_mono fun row hrow => List.mem_append_left _ hrow
  have hfresh : ∀ e ∈ eventsOf (rows ++ new), detectedType e.kind = true → e ∉ eventsOf rows →
      e.key ∈ {k | k ∈ (new.filter detectable).map Row.key} := by
    intro e he hkind hnot
    obtain ⟨row, hrow, hev, hreads⟩ := h.reads he
    have hnew : row ∈ new := by
      refine (List.mem_append.mp hrow).resolve_left fun hold => hnot ?_
      exact mem_eventsOf.mpr ⟨row, hold, hev⟩
    refine List.mem_map.mpr ⟨row, List.mem_filter.mpr ⟨hnew, ?_⟩, hreads.key_eq.symm⟩
    rw [detectable, Bool.and_eq_true]
    exact ⟨hreads.kind_eq ▸ hkind, by rw [hreads.peer_eq]; rfl⟩
  have hstep := edges_step hgrow hfresh
  refine Equivalent.trans ⟨?_, ?_⟩ hstep
  · exact Refines.union_mono (refines_of_subset subset_rfl) hquery.1
  · exact Refines.union_mono (refines_of_subset subset_rfl) hquery.2

section Call

variable {lib : Library} {D : List (List Char × Raw)} {db db' : Db} {c : Call} {k : Checked}
  {response : Response}

theorem Inv.commit (h : Inv lib D db) (hk : checkCall lib c = .ok k)
    (htrim : TrimmedIds (D ++ k.records.map fun r => (c.sourceId, r.raw)))
    (hok : commitBatch db c k = .ok (db', response)) :
    Inv lib (D ++ k.records.map fun r => (c.sourceId, r.raw)) db' := by
  rw [commitBatch, bind_eq_ok] at hok
  obtain ⟨st, hloop, hok⟩ := hok
  obtain ⟨⟨db₁, changed⟩, hdetect, hok⟩ := bind_eq_ok.mp hok
  obtain ⟨new, htook⟩ := ingestRecords_took (checkCall_classified hk)
    (show Stored lib D (touchSource db c k.error).view from h.stored) hloop
  rw [detectAdvanced, bind_eq_ok] at hdetect
  obtain ⟨⟨db₂, changed₂⟩, hqueries, heq⟩ := hdetect
  obtain ⟨rfl, -⟩ := Prod.mk.inj (Except.ok.inj heq)
  have hview : st.db.view = { db.view with rows := db.view.rows ++ new, receipts := st.db.view.receipts } :=
    htook.view
  have hrows : st.db.view.rows = db.view.rows ++ new := congrArg View.rows hview
  have hsound : Sound (db.view.rows ++ new) := hrows ▸ htook.stored.sound htrim
  have hdet : st.detectionRows = new.filter detectable := htook.detected.trans (List.nil_append _)
  rw [hdet] at hqueries
  have hkeeps : st.db.view.Keeps (edges (eventsOf db.view.rows) Set.univ) := by
    rw [hview]
    exact h.keeps.moreRows new _
  obtain ⟨hk₁, hsame⟩ := runQueries_keeps hkeeps hqueries
  rw [hrows] at hk₁
  have hrows₁ : db₂.view.rows = db.view.rows ++ new := hsame.rows.trans hrows
  have hk₂ : db₂.view.Keeps (edges (eventsOf db₂.view.rows) Set.univ) := by
    rw [hrows₁]
    exact hk₁.congr (detection_step hsound)
  have hrefresh := view_refreshAll (hrows₁ ▸ hsound) hk₂
  dsimp only at hok
  split at hok
  · rename_i batches hbatches
    obtain ⟨rfl, -⟩ := Prod.mk.inj (Except.ok.inj hok)
    have hfinal := hrefresh ((changed.map (canonicalIncident db₂)).dedup)
    have hstored : Stored lib (D ++ k.records.map fun r => (c.sourceId, r.raw)) db₂.view :=
      ⟨fun s raw => by rw [hsame.receipts]; exact htook.stored.receipts s raw,
        fun row => by rw [hsame.receipts, hsame.rows]; exact htook.stored.rows row⟩
    have hbatchesEq : (((changed.map (canonicalIncident db₂)).dedup).foldl refreshIncident db₂).batches
        = db.batches := by
      have h1 := congrArg View.batches hfinal
      have h2 : st.db.view.batches = db.view.batches := by rw [hview]
      exact (h1.trans hsame.batches).trans h2
    refine ⟨?_, ?_, ?_⟩
    · exact ⟨fun s raw => by
          rw [hstored.receipts s raw, ← congrArg View.receipts hfinal]
          rfl,
        fun row => by
          have := hstored.rows row
          rw [← hfinal] at this
          exact this⟩
    · have := hk₂
      rw [← hfinal] at this
      exact ⟨⟨this.wellFormed.owner_open, this.wellFormed.open_owner, this.wellFormed.label_known,
        this.wellFormed.held_row, this.wellFormed.merged_older⟩, this.holds⟩
    · intro b hb raw hraw
      rcases (Table.mem_of_insert hbatches).mp hb with hb | rfl
      · have hb' : b ∈ db.batches := hbatchesEq ▸ hb
        exact List.mem_append_left _ (h.batches b hb' raw hraw)
      · refine List.mem_append_right _ ?_
        obtain ⟨r, hr, rfl⟩ := List.mem_map.mp hraw
        exact List.mem_map.mpr ⟨r, hr, rfl⟩
  · cases hok

/-- A committed batch delivers nothing new. -/
theorem Inv.replay (h : Inv lib D db) {batch : Batch}
    (hbatch : db.batches.find? (c.sourceId, c.batchId) = some batch)
    (hpayload : batch.payload = payloadOf c k) :
    Inv lib (D ++ k.records.map fun r => (c.sourceId, r.raw)) (replayBatch db c k batch).1 := by
  have hold : ∀ p ∈ k.records.map fun r => (c.sourceId, r.raw), p ∈ D := by
    intro p hp
    obtain ⟨r, hr, rfl⟩ := List.mem_map.mp hp
    have hkey : batch.key = (c.sourceId, c.batchId) := Table.find?_key hbatch
    have hsource : batch.sourceId = c.sourceId := congrArg Prod.fst hkey
    rw [← hsource]
    refine h.batches batch (Table.mem_of_find? hbatch) _ ?_
    rw [hpayload]
    exact List.mem_map_of_mem hr
  have hiff : ∀ p, p ∈ D ++ k.records.map (fun r => (c.sourceId, r.raw)) ↔ p ∈ D := fun p => by
    rw [List.mem_append]
    exact or_iff_left_of_imp (hold p)
  exact ⟨⟨fun s raw => (hiff _).trans (h.stored.receipts s raw), h.stored.rows⟩, h.keeps,
    fun b hb raw hraw => (hiff _).mpr (h.batches b hb raw hraw)⟩

/-- **One call.** -/
theorem Inv.ingest (h : Inv lib D db) (hk : checkCall lib c = .ok k)
    (htrim : TrimmedIds (D ++ k.records.map fun r => (c.sourceId, r.raw)))
    (hok : ingest lib db c = .ok (db', response)) :
    Inv lib (D ++ k.records.map fun r => (c.sourceId, r.raw)) db' := by
  rw [Store.ingest, hk] at hok
  simp only [bind, Except.bind] at hok
  split at hok
  · rename_i batch hbatch
    split at hok
    · rename_i hpayload
      obtain ⟨rfl, -⟩ := Prod.mk.inj (Except.ok.inj hok)
      exact h.replay hbatch hpayload
    · cases hok
  · exact h.commit hk htrim hok

end Call

/-! ### Runs -/

/-- A call that raises changes nothing. -/
def deliver (lib : Library) (db : Db) (c : Call) : Db :=
  match ingest lib db c with
  | .ok (db', _) => db'
  | .error _ => db

/-- The records of a call that returned, with their source. -/
def deliveredBy (lib : Library) (db : Db) (c : Call) : List (List Char × Raw) :=
  match checkCall lib c, ingest lib db c with
  | .ok k, .ok _ => k.records.map fun r => (c.sourceId, r.raw)
  | _, _ => []

/-- The store after a run. -/
def storeAfter (lib : Library) (calls : List Call) : Db := run (deliver lib) Db.init calls

/-- What a run delivered. -/
def delivered (lib : Library) (calls : List Call) : List (List Char × Raw) :=
  trace (deliver lib) (deliveredBy lib) Db.init calls

theorem Inv.deliver {D : List (List Char × Raw)} {db : Db} (c : Call) (h : Inv lib D db)
    (htrim : TrimmedIds (D ++ deliveredBy lib db c)) :
    Inv lib (D ++ deliveredBy lib db c) (deliver lib db c) := by
  unfold Store.deliver deliveredBy at *
  cases hk : checkCall lib c with
  | error e =>
    have herr : Store.ingest lib db c = .error e := by
      rw [Store.ingest, hk]
      rfl
    rw [herr, List.append_nil]
    exact h
  | ok k =>
    rw [hk] at htrim
    cases hok : Store.ingest lib db c with
    | error e =>
      rw [List.append_nil]
      exact h
    | ok out =>
      rw [hok] at htrim
      exact h.ingest hk htrim hok

/-- **The invariant of every run.** -/
theorem inv_run {calls : List Call} (htrim : TrimmedIds (delivered lib calls)) :
    Inv lib (delivered lib calls) (storeAfter lib calls) := by
  have hstep : ∀ D db c, True → (TrimmedIds D → Inv lib D db) →
      TrimmedIds (D ++ deliveredBy lib db c) →
      Inv lib (D ++ deliveredBy lib db c) (Store.deliver lib db c) :=
    fun D db c _ hR ht => (hR fun p hp => ht p (List.mem_append_left _ hp)).deliver c ht
  exact trace_invariant (R := fun D db => TrimmedIds D → Inv lib D db) hstep
    (h := []) (fun _ _ => trivial) (fun _ => inv_init lib) htrim

/-! ### Two stores with the same records -/

/-- The incidents that were not merged into another. -/
def openIncidents (db : Db) : Set Id :=
  {i | ∃ x ∈ db.incidents, x.incidentId = i ∧ x.mergedInto = none}

/-- The evidence keys of an incident. -/
def evidenceKeys (db : Db) (i : Id) : Set Key := {k | ∃ e ∈ db.evidence, e.key = k ∧ e.incidentId = i}

/-- The rule ids of an incident. -/
def ruleIds (db : Db) (i : Id) : Set RuleId := {r | ∃ x ∈ db.rules, x.incidentId = i ∧ x.ruleId = r}

/-- The open incidents of two stores are the same but for their ids, and they hold all the
evidence. -/
structure SameIncidents (db db' : Db) : Prop where
  renamed : ∃ f : Id → Id, Set.BijOn f (openIncidents db) (openIncidents db') ∧
    ∀ i ∈ openIncidents db, evidenceKeys db' (f i) = evidenceKeys db i ∧
      ruleIds db' (f i) = ruleIds db i
  partitioned : ∀ e ∈ db.evidence, e.incidentId ∈ openIncidents db
  partitioned' : ∀ e ∈ db'.evidence, e.incidentId ∈ openIncidents db'

variable {i : Id}

section Same

variable {db : Db}

theorem mem_openIncidents : i ∈ openIncidents db ↔ ∃ c, db.view.incident i = some (c, none) := by
  constructor
  · rintro ⟨x, hx, rfl, hnone⟩
    exact ⟨x.createdAt, by simp [Db.view, Table.find?_of_mem hx, hnone]⟩
  · rintro ⟨c, hc⟩
    obtain ⟨x, hx, heq⟩ := Option.map_eq_some_iff.mp hc
    exact ⟨x, Table.mem_of_find? hx, Table.find?_key hx, congrArg Prod.snd heq⟩

theorem mem_evidenceKeys {k : Key} : k ∈ evidenceKeys db i ↔ db.view.owner k = some i := by
  constructor
  · rintro ⟨e, he, rfl, rfl⟩
    simp [View.owner, Db.view, Table.find?_of_mem he]
  · intro h
    obtain ⟨row, hrow⟩ := View.held_of_owner h
    obtain ⟨e, he, heq⟩ := Option.map_eq_some_iff.mp hrow
    exact ⟨e, Table.mem_of_find? he, Table.find?_key he, congrArg Prod.snd heq⟩

theorem mem_ruleIds {r : RuleId} : r ∈ ruleIds db i ↔ db.view.label i r = true := by
  constructor
  · rintro ⟨x, hx, rfl, rfl⟩
    exact Option.isSome_iff_exists.mpr ⟨x, Table.find?_of_mem hx⟩
  · intro h
    obtain ⟨x, hx⟩ := Option.isSome_iff_exists.mp h
    have hkey : x.key = (i, r) := Table.find?_key hx
    exact ⟨x, Table.mem_of_find? hx, congrArg Prod.fst hkey, congrArg Prod.snd hkey⟩

theorem openIncidents_eq (h : db.view.WellFormed) : openIncidents db = owners db.view.owner := by
  ext i
  rw [mem_openIncidents]
  constructor
  · rintro ⟨c, hc⟩
    exact h.open_owner i c hc
  · rintro ⟨k, hk⟩
    exact h.owner_open k i hk

theorem evidence_open (h : db.view.WellFormed) : ∀ e ∈ db.evidence, e.incidentId ∈ openIncidents db := by
  intro e he
  rw [openIncidents_eq h]
  exact ⟨e.key, by simp [View.owner, Db.view, Table.find?_of_mem he]⟩

end Same

variable {db' : Db}

/-- The same components make the same incidents. -/
theorem sameIncidents_of_keeps {db : Db} {H : Set (RuleId × Set Key)} (h : db.view.Keeps H)
    (h' : db'.view.Keeps H) : SameIncidents db db' := by
  obtain ⟨f, hbij, hf⟩ := Represents.rename h.holds h'.holds
  refine ⟨⟨f, ?_, fun i hi => ?_⟩, evidence_open h.wellFormed, evidence_open h'.wellFormed⟩
  · rwa [openIncidents_eq h.wellFormed, openIncidents_eq h'.wellFormed]
  · rw [openIncidents_eq h.wellFormed] at hi
    obtain ⟨hkeys, hlabels⟩ := hf i hi
    refine ⟨Set.ext fun k => ?_, Set.ext fun r => ?_⟩
    · rw [mem_evidenceKeys, mem_evidenceKeys, hkeys]
    · rw [mem_ruleIds, mem_ruleIds, hlabels]

theorem eventsOf_congr {rows rows' : List Row} (h : ∀ row, row ∈ rows ↔ row ∈ rows') :
    eventsOf rows = eventsOf rows' :=
  Finset.Subset.antisymm (eventsOf_mono fun row => (h row).mp) (eventsOf_mono fun row => (h row).mpr)

/-! ### Rebuilding -/

/-- The evidence is untouched and no incident was added or merged. -/
structure Idle (db db' : Db) : Prop where
  evidence : db'.evidence = db.evidence
  incidents : db'.incidents.rows.map Incident.mergedInto = db.incidents.rows.map Incident.mergedInto

theorem Idle.refl (db : Db) : Idle db db := ⟨rfl, rfl⟩

theorem Idle.trans {db db'' : Db} (h : Idle db db') (h' : Idle db' db'') : Idle db db'' :=
  ⟨h'.evidence.trans h.evidence, h'.incidents.trans h.incidents⟩

theorem map_mergedInto {l : List Incident} {f : Incident → Incident}
    (h : ∀ x, (f x).mergedInto = x.mergedInto) :
    (l.map f).map Incident.mergedInto = l.map Incident.mergedInto := by
  rw [List.map_map]
  exact List.map_congr_left fun x _ => h x

theorem idle_touchIncident (db : Db) (i : Id) (now : ℚ) : Idle db (touchIncident db i now) :=
  ⟨rfl, map_mergedInto fun x => by split <;> rfl⟩

theorem idle_setTriage (db : Db) (i : Id) (state : TriageState) (now : ℚ) (actor : String)
    (cause : TriageCause) (note : Option (List Char)) (reference : Option Reference) :
    Idle db (setTriage db i state now actor cause note reference) := by
  rw [setTriage]
  split
  · exact Idle.refl db
  · exact ⟨rfl, (idle_touchIncident _ i now).incidents⟩

theorem idle_reopen (db : Db) (i : Id) (newest : Option Row) (now : ℚ) :
    Idle db (reopen db i newest now) := by
  unfold reopen
  split
  · split
    · exact idle_setTriage _ _ _ _ _ _ _ _
    · exact Idle.refl db
  · exact Idle.refl db

theorem idle_refreshIncident (db : Db) (i : Id) : Idle db (refreshIncident db i) := by
  unfold refreshIncident
  dsimp only
  split
  · rename_i first last _ _
    have hcount : Idle db (countIncident (insertSources
        { db with details := db.details.replace (detailsOf i ((evidenceOf db i).map Evidence.row)) }
        i (evidenceOf db i)) i ((evidenceOf db i).map Evidence.row) first last) :=
      ⟨rfl, map_mergedInto fun x => by split <;> rfl⟩
    refine hcount.trans ?_
    unfold refreshScore
    split
    · exact ⟨rfl, rfl⟩
    · exact Idle.refl _
  · split
    · exact ⟨rfl, rfl⟩
    · exact Idle.refl db

theorem idle_refreshAll (db : Db) (ids : List Id) : Idle db (ids.foldl refreshIncident db) := by
  induction ids generalizing db with
  | nil => exact Idle.refl db
  | cons i ids ih => exact (idle_refreshIncident db i).trans (ih _)

section Rebuild

variable (uuid : Nat → List Char) (now : ℚ) {db : Db}

theorem attachRows_known (id : Id) {rows : List Row} (st : Attach)
    (h : ∀ row ∈ rows, (st.db.evidence.find? row.key).isSome) :
    (rows.foldl (attachRow id) st).db.evidence = st.db.evidence ∧
      (rows.foldl (attachRow id) st).db.incidents = st.db.incidents := by
  induction rows generalizing st with
  | nil => exact ⟨rfl, rfl⟩
  | cons row rows ih =>
    have hsame : (attachRow id st row).db.evidence = st.db.evidence := by
      show st.db.evidence.insertOrIgnore _ = st.db.evidence
      rw [Table.insertOrIgnore, Table.insert_eq_none_iff.mpr (h row List.mem_cons_self)]
      rfl
    obtain ⟨hev, hinc⟩ := ih (attachRow id st row) fun r hr => by
      rw [hsame]
      exact h r (List.mem_cons_of_mem _ hr)
    exact ⟨hev.trans hsame, hinc⟩

/-- A match whose evidence one incident holds already only records its rule. -/
theorem applyMatch_recorded (hopen : db.view.OwnersOpen) {m : RuleMatch} (hne : m.evidence ≠ [])
    (howner : ∀ row ∈ m.evidence, db.view.owner row.key = some i) :
    ∃ db', applyMatch uuid now db m = .ok (db', i) ∧ db'.view = db.view.record i m.ruleId ∧
      Idle db db' := by
  have hlinked : ∀ j, j ∈ linkedIncidents db m.evidence ↔ j = i := by
    intro j
    rw [mem_linkedIncidents hopen]
    constructor
    · rintro ⟨row, hrow, hj⟩
      exact Option.some.inj (hj.symm.trans (howner row hrow))
    · rintro rfl
      obtain ⟨row, hrow⟩ := List.exists_mem_of_ne_nil _ hne
      exact ⟨row, hrow, howner row hrow⟩
  have holdest : oldest db (linkedIncidents db m.evidence) = some i := by
    cases hold : oldest db (linkedIncidents db m.evidence) with
    | none =>
      have hnil := oldest_eq_none hold
      have := (hlinked i).mpr rfl
      simp [hnil] at this
    | some j => rw [(hlinked j).mp (oldest_spec hold).1]
  have hothers : (linkedIncidents db m.evidence).filter (· ≠ i) = [] := by
    refine List.filter_eq_nil_iff.mpr fun j hj => ?_
    simp [(hlinked j).mp hj]
  obtain ⟨first, hfirst⟩ : ∃ first, (orderRows m.evidence).head? = some first := by
    cases horder : orderRows m.evidence with
    | nil =>
      obtain ⟨row, hrow⟩ := List.exists_mem_of_ne_nil _ hne
      have := mem_orderRows.mpr hrow
      simp [horder] at this
    | cons row rows => exact ⟨row, rfl⟩
  have hknown : ∀ row ∈ m.evidence, (db.evidence.find? row.key).isSome := by
    intro row hrow
    have := howner row hrow
    cases hf : db.evidence.find? row.key with
    | none => simp [View.owner, Db.view, hf] at this
    | some e => rfl
  refine ⟨attach db i m now, ?_, ?_, ?_⟩
  · unfold applyMatch
    rw [hfirst]
    simp only [holdest, hothers, List.foldl_nil]
  · rw [view_attach]
    obtain ⟨hrows, hlab, hinc, hrec, hbat⟩ := View.frame_attachRows db.view i m.evidence
    refine View.ext hrows (funext fun k => ?_) ?_ hinc hrec hbat
    · show (m.evidence.foldl (View.attachRow i) db.view).held k = db.view.held k
      rw [View.held_attachRows]
      cases hk : db.view.held k with
      | some p => rfl
      | none =>
        have hnone : (m.evidence.find? fun row => row.key = k) = none := by
          rw [List.find?_eq_none]
          intro row hrow hkey
          have hown := howner row hrow
          rw [of_decide_eq_true hkey, View.owner, hk] at hown
          cases hown
        rw [hnone]
        rfl
    · simp only [View.record, hlab]
  · obtain ⟨hev, hinc⟩ := attachRows_known i ⟨db, none⟩ hknown
    have hrule : Idle db (recordRule (m.evidence.foldl (attachRow i) ⟨db, none⟩).db i m) :=
      ⟨hev, congrArg (fun t : Table Incident.incidentId => t.rows.map Incident.mergedInto) hinc⟩
    exact (hrule.trans (idle_touchIncident _ i now)).trans (idle_reopen _ _ _ _)

/-- With its rule it changes nothing. -/
theorem applyMatch_idle (hwf : db.view.WellFormed) {m : RuleMatch} (hne : m.evidence ≠ [])
    (howner : ∀ row ∈ m.evidence, db.view.owner row.key = some i)
    (hlabel : db.view.label i m.ruleId = true) :
    ∃ db', applyMatch uuid now db m = .ok (db', i) ∧ db'.view = db.view ∧ Idle db db' := by
  obtain ⟨db', hok, hview, hidle⟩ := applyMatch_recorded uuid now hwf.owner_open hne howner
  refine ⟨db', hok, hview.trans (View.ext rfl rfl (funext fun j => funext fun r => ?_) rfl rfl rfl),
    hidle⟩
  simp only [View.record]
  by_cases heq : (j, r) = (i, m.ruleId)
  · obtain ⟨rfl, rfl⟩ := Prod.mk.inj heq
    simp [hlabel]
  · simp [heq]

theorem applyMatches_idle (hwf : db.view.WellFormed) {ms : List RuleMatch}
    (h : ∀ m ∈ ms, m.evidence ≠ [] ∧ ∃ i, (∀ row ∈ m.evidence, db.view.owner row.key = some i) ∧
      db.view.label i m.ruleId = true) (changed : List Id) :
    ∃ db' changed', applyMatches uuid now (db, changed) ms = .ok (db', changed') ∧
      db'.view = db.view ∧ Idle db db' := by
  induction ms generalizing db changed with
  | nil => exact ⟨db, changed, rfl, rfl, Idle.refl db⟩
  | cons m ms ih =>
    obtain ⟨hne, i, howner, hlabel⟩ := h m List.mem_cons_self
    obtain ⟨db₁, hok, hview, hidle⟩ := applyMatch_idle uuid now hwf hne howner hlabel
    have hwf₁ : db₁.view.WellFormed := hview ▸ hwf
    obtain ⟨db₂, changed', hok', hview', hidle'⟩ := ih hwf₁
      (fun m' hm' => by
        rw [hview]
        exact h m' (List.mem_cons_of_mem _ hm')) (i :: changed)
    refine ⟨db₂, changed', ?_, hview'.trans hview, hidle.trans hidle'⟩
    rw [applyMatches, hok]
    exact hok'

/-- What holds before and during a rebuild. -/
structure Settled (db : Db) : Prop where
  sound : Sound db.view.rows
  keeps : db.view.Keeps (edges (eventsOf db.view.rows) Set.univ)

/-- **Nothing to rebuild.** Every match of stored rows lies in an incident with its rule. -/
theorem Settled.found (h : Settled db) {rows : List Row} (hrows : Sound rows)
    (hsub : ∀ row ∈ rows, row ∈ db.view.rows) {triggers : List Key} {m : RuleMatch}
    (hm : m ∈ detectMatches rows triggers true) :
    m.evidence ≠ [] ∧ ∃ i, (∀ row ∈ m.evidence, db.view.owner row.key = some i) ∧
      db.view.label i m.ruleId = true := by
  obtain ⟨hne, -⟩ := detectMatches_evidence hm
  have hrefines := (hrows.detect triggers).1.trans
    (edges_mono (eventsOf_mono hsub) (Set.subset_univ {k | k ∈ triggers}))
  have hedge : matchEdge m ∈ matchEdges (detectMatches rows triggers true) := ⟨m, hm, rfl⟩
  obtain ⟨row₀, hrow₀⟩ := List.exists_mem_of_ne_nil _ hne
  obtain ⟨htouch, hlinked⟩ := hrefines _ _ hedge row₀.key ⟨row₀, hrow₀, rfl⟩
  obtain ⟨i, hi, -⟩ := (h.keeps.holds.same row₀.key row₀.key).mpr (hlinked _ ⟨row₀, hrow₀, rfl⟩)
  refine ⟨hne, i, fun row hrow => ?_, (h.keeps.holds.label _ i hi _).mpr htouch⟩
  obtain ⟨j, hj, hj'⟩ := (h.keeps.holds.same _ _).mpr (hlinked row.key ⟨row, hrow, rfl⟩)
  rw [hj', ← hj, hi]

theorem rebuildPeer_idle (h : Settled db) (peer : List Char) :
    ∃ db', rebuildPeer uuid now db peer = .ok db' ∧ db'.view = db.view ∧ Idle db db' := by
  have hrows : Sound (orderRows (peerRows db peer)) := by
    rw [peerRows_eq]
    refine ⟨nodup_orderRows (h.sound.nodup.sublist (List.filter_sublist.map _)), fun row hrow => ?_⟩
    exact h.sound.trimmed row (List.mem_of_mem_filter (mem_orderRows.mp hrow))
  have hsub : ∀ row ∈ orderRows (peerRows db peer), row ∈ db.view.rows := by
    intro row hrow
    rw [peerRows_eq] at hrow
    exact List.mem_of_mem_filter (mem_orderRows.mp hrow)
  have hfound : ∀ m ∈ detectMatches (orderRows (peerRows db peer))
      ((orderRows (peerRows db peer)).map Row.key) true, m.evidence ≠ [] ∧
      ∃ i, (∀ row ∈ m.evidence, db.view.owner row.key = some i) ∧ db.view.label i m.ruleId = true :=
    fun m hm => h.found hrows hsub hm
  obtain ⟨db₁, changed, hok, hview, hidle⟩ :=
    applyMatches_idle uuid now h.keeps.wellFormed hfound []
  have hsound : Sound db₁.view.rows := hview ▸ h.sound
  have hkeeps : db₁.view.Keeps (edges (eventsOf db₁.view.rows) Set.univ) := hview ▸ h.keeps
  refine ⟨((changed.map (canonicalIncident db₁)).dedup).foldl refreshIncident db₁, ?_, ?_, ?_⟩
  · simp only [rebuildPeer, hok, bind, Except.bind]
  · rw [view_refreshAll hsound hkeeps, hview]
  · exact hidle.trans (idle_refreshAll db₁ _)

theorem rebuildPeers_idle (h : Settled db) (ps : List (List Char)) :
    ∃ db', rebuildPeers uuid now db ps = .ok db' ∧ db'.view = db.view ∧ Idle db db' := by
  induction ps generalizing db with
  | nil => exact ⟨db, rfl, rfl, Idle.refl db⟩
  | cons peer ps ih =>
    obtain ⟨db₁, hok, hview, hidle⟩ := rebuildPeer_idle uuid now h peer
    have h₁ : Settled db₁ := ⟨hview ▸ h.sound, hview ▸ h.keeps⟩
    obtain ⟨db₂, hok', hview', hidle'⟩ := ih h₁
    refine ⟨db₂, ?_, hview'.trans hview, hidle.trans hidle'⟩
    rw [rebuildPeers, hok]
    exact hok'

theorem Idle.counts (h : Idle db db') :
    db'.incidents.rows.length = db.incidents.rows.length ∧ mergedCount db' = mergedCount db := by
  constructor
  · have := congrArg List.length h.incidents
    simpa using this
  · have hcount : ∀ d : Db, mergedCount d =
        (d.incidents.rows.map Incident.mergedInto).countP Option.isSome := fun d => by
      rw [List.countP_map]
      rfl
    rw [hcount, hcount, h.incidents]

/-- A rebuild of a settled store reports that it added nothing. -/
theorem rebuildDetections_idle (h : Settled db) :
    ∃ db' n, rebuildDetections uuid now db = .ok (db', ⟨n, 0, 0, 0⟩) := by
  obtain ⟨db', hok, -, hidle⟩ := rebuildPeers_idle uuid now h (peers db)
  obtain ⟨hlen, hmerged⟩ := hidle.counts
  refine ⟨db', ((peers db).map fun peer => (peerRows db peer).length).sum, ?_⟩
  simp only [rebuildDetections, hok, bind, Except.bind, hlen, hmerged, hidle.evidence, sub_self]

end Rebuild

/-! ### Confluence -/

/-- **Detection is confluent.** Two runs of `ingest` calls that delivered the same records,
however batched, ordered and repeated, end in the same incidents up to their ids, and a
rebuild afterwards creates, merges and adds nothing. -/
theorem detection_confluent (lib : Library) (calls calls' : List Call)
    (htrim : TrimmedIds (delivered lib calls))
    (hsame : ∀ p, p ∈ delivered lib calls ↔ p ∈ delivered lib calls')
    (uuid : Nat → List Char) (now : ℚ) :
    SameIncidents (storeAfter lib calls) (storeAfter lib calls') ∧
      ∃ db' n, rebuildDetections uuid now (storeAfter lib calls) = .ok (db', ⟨n, 0, 0, 0⟩) := by
  have htrim' : TrimmedIds (delivered lib calls') := fun p hp => htrim p ((hsame p).mpr hp)
  have hinv := inv_run htrim
  have hinv' := inv_run htrim'
  have hevents : eventsOf (storeAfter lib calls).view.rows = eventsOf (storeAfter lib calls').view.rows :=
    eventsOf_congr fun row => by
      rw [hinv.stored.mem_rows, hinv'.stored.mem_rows]
      exact exists_congr fun p => and_congr_left fun _ => hsame p
  refine ⟨sameIncidents_of_keeps hinv.keeps (hevents ▸ hinv'.keeps), ?_⟩
  exact rebuildDetections_idle uuid now ⟨hinv.stored.sound htrim, hinv.keeps⟩

/-! A run on three failed logins: as one batch, and as two batches in another order with a
record delivered twice. -/

/-- ASCII classes, and a clock that reads a timestamp as its length. -/
def asciiLibrary : Library where
  isWord c := c.isAlphanum || c = '_'
  isDecimal c := c.isDigit
  instant t := some t.length

/-- A failed login. -/
def failedLogin (eventId timestamp : List Char) : Json :=
  .obj [("event_id".toList, .str eventId), ("timestamp".toList, .str timestamp),
    ("message".toList, .str "Failed password for root from 1.2.3.4 port 22 ssh2".toList),
    ("identifier".toList, .str "sshd".toList)]

/-- A batch of one source. -/
def batchOf (batchId : List Char) (records : List Json) : Call where
  sourceId := ['s']
  hostname := ['h']
  batchId := batchId
  records := records
  error := none
  now := 0
  uuid n := Nat.toDigits 10 n

/-- Three failed logins at once. -/
def oneBatch : List Call :=
  [batchOf ['a'] [failedLogin ['1'] ['t'], failedLogin ['2'] ['t', 't'], failedLogin ['3'] ['t']]]

/-- The last of them first, and again with the others. -/
def twoBatches : List Call :=
  [batchOf ['a'] [failedLogin ['3'] ['t']],
   batchOf ['b'] [failedLogin ['2'] ['t', 't'], failedLogin ['3'] ['t'], failedLogin ['1'] ['t']]]

theorem detection_confluent_three_logins :
    (delivered asciiLibrary oneBatch).length = 3 ∧
      SameIncidents (storeAfter asciiLibrary oneBatch) (storeAfter asciiLibrary twoBatches) := by
  have htrim : ∀ p ∈ delivered asciiLibrary oneBatch,
      strip p.1 = p.1 ∧ strip p.2.eventId = p.2.eventId := by decide +kernel
  have hsub : ∀ p ∈ delivered asciiLibrary oneBatch, p ∈ delivered asciiLibrary twoBatches := by
    decide +kernel
  have hsub' : ∀ p ∈ delivered asciiLibrary twoBatches, p ∈ delivered asciiLibrary oneBatch := by
    decide +kernel
  exact ⟨by decide +kernel, (detection_confluent asciiLibrary oneBatch twoBatches htrim
    (fun p => ⟨hsub p, hsub' p⟩) (fun _ => []) 0).1⟩

end Store

end RiskOps.Telemetry
