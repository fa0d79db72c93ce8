import RiskOps.Telemetry.StoreExactlyOnce

/-!
# RiskOps.Telemetry.StoreRecords — the records of the live store

**Records are append-only.** Detection moves records between incidents and changes nothing else of
them, so that an accepted batch leaves the records of before as they were and puts its own behind
them, each with a receipt behind the receipts of before and the clock of its call. Only retention
removes records; receipts stay.
-/

namespace RiskOps.Telemetry.Store

open RiskOps.Lib

/-- The record without the incident it belongs to. -/
def StoredEvent.content (e : StoredEvent) : StoredEvent := { e with incidentId := none }

/-- What `events` holds, in insertion order. -/
def Db.records (db : Db) : List StoredEvent := db.events.rows.map StoredEvent.content

@[simp] theorem StoredEvent.key_content (e : StoredEvent) : e.content.key = e.key := rfl

/-! ### Detection keeps the records -/

theorem map_content_map (rows : List StoredEvent) (f : StoredEvent → StoredEvent)
    (h : ∀ e, (f e).content = e.content) :
    (rows.map f).map StoredEvent.content = rows.map StoredEvent.content := by
  rw [List.map_map]
  exact List.map_congr_left fun e _ => h e

theorem records_setTriage (db : Db) (i : Id) (state : TriageState) (now : ℚ) (actor : String)
    (cause : TriageCause) (note : Option (List Char)) (reference : Option Reference) :
    (setTriage db i state now actor cause note reference).records = db.records := by
  rw [setTriage]
  split
  · rfl
  · rfl

theorem records_mergeIncident (now : ℚ) (target : Id) (db : Db) (other : Id) :
    (mergeIncident now target db other).records = db.records := by
  have hreparent : (reparent db target other now).records = db.records := by
    refine map_content_map db.events.rows _ fun e => ?_
    split
    · rfl
    · rfl
  rw [mergeIncident]
  split
  · rfl
  · dsimp only
    split
    · rw [records_setTriage, hreparent]
    · exact hreparent

theorem records_mergeAll (now : ℚ) (target : Id) (others : List Id) (db : Db) :
    (others.foldl (mergeIncident now target) db).records = db.records := by
  induction others generalizing db with
  | nil => rfl
  | cons other others ih => rw [List.foldl_cons, ih, records_mergeIncident]

theorem records_attach (db : Db) (i : Id) (m : RuleMatch) (now : ℚ) :
    (attach db i m now).records = db.records := by
  have hrow : ∀ (st : Attach) (row : Row), (attachRow i st row).db.records = st.db.records := by
    intro st row
    refine map_content_map st.db.events.rows _ fun e => ?_
    split
    · rfl
    · rfl
  have hrows : ∀ (rows : List Row) (st : Attach),
      (rows.foldl (attachRow i) st).db.records = st.db.records := by
    intro rows
    induction rows with
    | nil => exact fun _ => rfl
    | cons row rows ih => exact fun st => (ih _).trans (hrow st row)
  have hreopen : ∀ (db : Db) (newest : Option Row), (reopen db i newest now).records = db.records := by
    intro db newest
    unfold reopen
    split
    · split
      · exact records_setTriage ..
      · rfl
    · rfl
  exact (hreopen _ _).trans (hrows m.evidence ⟨db, none⟩)

theorem records_applyMatch {uuid : Nat → List Char} {now : ℚ} {db : Db} {m : RuleMatch}
    {out : Db × Id} (h : applyMatch uuid now db m = .ok out) : out.1.records = db.records := by
  unfold applyMatch at h
  split at h
  · cases h
  · dsimp only at h
    split at h
    · obtain rfl := Except.ok.inj h
      exact (records_attach _ _ _ _).trans (records_mergeAll _ _ _ _)
    · split at h
      · cases h
      · obtain rfl := Except.ok.inj h
        exact records_attach _ _ _ _

theorem records_applyMatches {uuid : Nat → List Char} {now : ℚ} {ms : List RuleMatch}
    {st out : Db × List Id} (h : applyMatches uuid now st ms = .ok out) :
    out.1.records = st.1.records := by
  induction ms generalizing st with
  | nil =>
    obtain rfl := Except.ok.inj h
    rfl
  | cons m ms ih =>
    obtain ⟨db, changed⟩ := st
    rw [applyMatches, bind_eq_ok] at h
    obtain ⟨mid, hone, hrest⟩ := h
    rw [ih hrest]
    exact records_applyMatch hone

theorem records_detectAdvanced {uuid : Nat → List Char} {now : ℚ} {db : Db} {triggers : List Row}
    {out : Db × List Id} (h : detectAdvanced uuid now db triggers = .ok out) :
    out.1.records = db.records := by
  have hqueries : ∀ (qs : List Query) {st out : Db × List Id},
      runQueries uuid now st qs = .ok out → out.1.records = st.1.records := by
    intro qs
    induction qs with
    | nil =>
      intro st out h
      obtain rfl := Except.ok.inj h
      rfl
    | cons q qs ih =>
      intro st out h
      rw [runQueries, bind_eq_ok] at h
      obtain ⟨mid, hone, hrest⟩ := h
      rw [ih hrest]
      exact records_applyMatches hone
  rw [detectAdvanced, bind_eq_ok] at h
  obtain ⟨mid, hrun, heq⟩ := h
  obtain rfl := Except.ok.inj heq
  exact hqueries _ hrun

theorem records_refreshAll (ids : List Id) (db : Db) :
    (ids.foldl refreshIncident db).records = db.records := by
  have hone : ∀ (db : Db) (i : Id), (refreshIncident db i).records = db.records := by
    intro db i
    rw [refreshIncident]
    dsimp only
    split
    · rw [refreshScore]
      split
      · rfl
      · rfl
    · split
      · rfl
      · rfl
  induction ids generalizing db with
  | nil => rfl
  | cons i ids ih => rw [List.foldl_cons, ih, hone]

/-! ### What a call adds -/

/-- The records and receipts a call adds: the same keys in the same order, at the call's clock. -/
structure Adds (now : ℚ) (db db' : Db) (new : List StoredEvent) : Prop where
  records : db'.records = db.records ++ new
  receipts : db'.receipts.rows.map Receipt.key = db.receipts.rows.map Receipt.key ++ new.map StoredEvent.key
  clock : ∀ e ∈ new, e.receivedAt = now

theorem Adds.nothing {now : ℚ} {db db' : Db} (hrecords : db'.records = db.records)
    (hreceipts : db'.receipts = db.receipts) : Adds now db db' [] where
  records := by rw [hrecords, List.append_nil]
  receipts := by rw [hreceipts, List.map_nil, List.append_nil]
  clock := fun _ h => by cases h

/-- The receipt a call stores for a record. -/
def receiptOf (c : Call) (r : Normalized) : Receipt := ⟨c.sourceId, r.raw, c.now⟩

/-- The row it stores. -/
def eventOf (c : Call) (r : Normalized) : StoredEvent :=
  ⟨rowOf c.sourceId r, c.hostname, r.raw.message, c.now, none⟩

/-- A call stores these records behind what was there. -/
structure Stores (c : Call) (db db' : Db) (new : List Normalized) : Prop where
  records : db'.records = db.records ++ new.map (eventOf c)
  receipts : db'.receipts.rows = db.receipts.rows ++ new.map (receiptOf c)

theorem Stores.adds {c : Call} {db db' : Db} {new : List Normalized} (h : Stores c db db' new) :
    Adds c.now db db' (new.map (eventOf c)) where
  records := h.records
  receipts := by
    rw [h.receipts, List.map_append, List.map_map, List.map_map]
    rfl
  clock e he := by
    obtain ⟨r, -, rfl⟩ := List.mem_map.mp he
    rfl

theorem Stores.trans {c : Call} {db₁ db₂ db₃ : Db} {new new' : List Normalized}
    (h : Stores c db₁ db₂ new) (h' : Stores c db₂ db₃ new') : Stores c db₁ db₃ (new ++ new') where
  records := by rw [h'.records, h.records, List.append_assoc, List.map_append]
  receipts := by rw [h'.receipts, h.receipts, List.append_assoc, List.map_append]

/-- The record has its receipt, with what it says. -/
def HasReceipt (db : Db) (sourceId : List Char) (r : Normalized) : Prop :=
  ∃ x, db.receipts.find? (sourceId, r.raw.eventId) = some x ∧ x.record = r.raw

/-- A receipt stays. -/
theorem Stores.hasReceipt {c : Call} {db db' : Db} {new : List Normalized} (h : Stores c db db' new)
    {sourceId : List Char} {r : Normalized} (hr : HasReceipt db sourceId r) :
    HasReceipt db' sourceId r := by
  obtain ⟨x, hx, hrecord⟩ := hr
  obtain ⟨hmem, hkey⟩ := Table.find?_eq_some_iff.mp hx
  refine ⟨x, Table.find?_eq_some_iff.mpr ⟨?_, hkey⟩, hrecord⟩
  rw [Table.mem_def, h.receipts]
  exact List.mem_append_left _ hmem

/-- **One record**: it was received before, with what it says, or it is stored. -/
theorem stores_ingestRecord {c : Call} {st st' : Intake} {r : Normalized}
    (h : ingestRecord c st r = .ok st') :
    HasReceipt st'.db c.sourceId r ∧
      ((st.db.receipts.find? (c.sourceId, r.raw.eventId)).isSome ∧ st'.db = st.db ∨
      st.db.receipts.find? (c.sourceId, r.raw.eventId) = none ∧
        st.db.receipts.insert (receiptOf c r) = some st'.db.receipts ∧ Stores c st.db st'.db [r]) := by
  unfold ingestRecord at h
  split at h
  · rename_i prior hprior
    split at h
    · rename_i hsame
      obtain rfl := Except.ok.inj h
      exact ⟨⟨prior, hprior, hsame⟩, .inl ⟨by rw [hprior]; rfl, rfl⟩⟩
    · cases h
  · rename_i hnone
    dsimp only at h
    split at h
    · rename_i receipts events hreceipts hevents
      obtain rfl := Except.ok.inj h
      refine ⟨⟨receiptOf c r, ?_, rfl⟩, .inr ⟨hnone, hreceipts, ?_, Table.rows_of_insert hreceipts⟩⟩
      · show receipts.find? _ = _
        rw [Table.find?_insert hreceipts]
        exact if_pos rfl
      · show events.rows.map _ = _
        rw [Table.rows_of_insert hevents, List.map_append]
        rfl
    · cases h

/-- **The loop stores the records that come first**, and all of them have their receipt. -/
theorem stores_ingestRecords {c : Call} {rs : List Normalized} {st st' : Intake} {seen : List Key}
    (hseen : ∀ k, k ∈ seen ↔ (st.db.receipts.find? k).isSome)
    (h : ingestRecords c st rs = .ok st') :
    Stores c st.db st'.db (firstRecords c.sourceId seen rs) ∧
      ∀ r ∈ rs, HasReceipt st'.db c.sourceId r := by
  induction rs generalizing st seen with
  | nil =>
    obtain rfl := Except.ok.inj h
    exact ⟨⟨by simp [firstRecords], by simp [firstRecords]⟩, fun _ hr => absurd hr List.not_mem_nil⟩
  | cons r rs ih =>
    rw [ingestRecords, bind_eq_ok] at h
    obtain ⟨mid, hone, hrest⟩ := h
    rw [firstRecords]
    obtain ⟨hreceipt, ⟨hknown, hdb⟩ | ⟨hnone, hinsert, hstores⟩⟩ := stores_ingestRecord hone
    · rw [if_pos ((hseen _).mpr hknown), ← hdb]
      obtain ⟨hmore, hall⟩ := ih (fun k => by rw [hdb]; exact hseen k) hrest
      exact ⟨hmore, List.forall_mem_cons.mpr ⟨hmore.hasReceipt hreceipt, hall⟩⟩
    · have hnot : (c.sourceId, r.raw.eventId) ∉ seen := by
        rw [hseen, hnone]
        exact Bool.false_ne_true
      obtain ⟨hmore, hall⟩ := ih (fun k => by
        rw [Table.find?_insert hinsert, List.mem_cons, hseen]
        split
        · rename_i hkey
          exact iff_of_true (.inl hkey.symm) rfl
        · rename_i hkey
          exact or_iff_right fun h => hkey h.symm) hrest
      rw [if_neg hnot]
      exact ⟨hstores.trans hmore, List.forall_mem_cons.mpr ⟨hmore.hasReceipt hreceipt, hall⟩⟩

theorem stores_commitBatch {db db' : Db} {c : Call} {k : Checked} {r : Response} {seen : List Key}
    (hseen : ∀ key, key ∈ seen ↔ (db.receipts.find? key).isSome)
    (h : commitBatch db c k = .ok (db', r)) :
    Stores c db db' (firstRecords c.sourceId seen k.records) ∧
      ∀ r ∈ k.records, HasReceipt db' c.sourceId r := by
  obtain ⟨st, db₁, changed, batches, hloop, hdetect, hinsert, rfl, rfl⟩ := commitBatch_eq_ok.mp h
  have hreceipts := (countedBatch_tables k hdetect (batchIds db₁ changed)).2
  obtain ⟨hstores, hall⟩ := stores_ingestRecords hseen hloop
  refine ⟨⟨?_, hreceipts ▸ hstores.receipts⟩, fun r hr => ?_⟩
  · exact ((records_refreshAll (batchIds db₁ changed) db₁).trans
      (records_detectAdvanced hdetect)).trans hstores.records
  · obtain ⟨x, hx, hrecord⟩ := hall r hr
    exact ⟨x, hreceipts ▸ hx, hrecord⟩

theorem receipts_seen (db : Db) (key : Key) :
    key ∈ db.receipts.rows.map Receipt.key ↔ (db.receipts.find? key).isSome := by
  rw [Option.isSome_iff_exists, List.mem_map]
  exact exists_congr fun x => Table.find?_eq_some_iff.symm

/-- **An accepted call only adds records**, each with a receipt and the clock of the call. -/
theorem adds_ingest {lib : Library} {db db' : Db} {c : Call} {r : Response}
    (h : ingest lib db c = .ok (db', r)) : ∃ new, Adds c.now db db' new := by
  rw [ingest, bind_eq_ok] at h
  obtain ⟨k, -, h⟩ := h
  split at h
  · split at h
    · obtain ⟨rfl, -⟩ := Prod.mk.inj (Except.ok.inj h)
      exact ⟨[], .nothing rfl rfl⟩
    · cases h
  · exact ⟨_, (stores_commitBatch (receipts_seen db) h).1.adds⟩

/-! ### Exactly once -/

/-- The receipts the records of a delivery ask for. -/
def Delivery.receipts (lib : Library) (d : Delivery) : List Receipt :=
  (d.records lib).map (receiptOf d.call)

/-- The rows they ask for. -/
def Delivery.events (lib : Library) (d : Delivery) : List StoredEvent :=
  (d.records lib).map (eventOf d.call)

/-- Retention removes only rows behind its cutoff. -/
theorem records_dailyCleanup (env : Env) (now : ℚ) (s : Live) :
    (dailyCleanup env now s).db.records.Sublist s.db.records ∧
      ∀ e ∈ s.db.records, e ∈ (dailyCleanup env now s).db.records ∨ e.row.eventTs < env.cutoff now := by
  rw [dailyCleanup]
  split
  · exact ⟨List.Sublist.refl _, fun e he => .inl he⟩
  · refine ⟨List.Sublist.map _ List.filter_sublist, fun e he => ?_⟩
    obtain ⟨row, hrow, rfl⟩ := List.mem_map.mp he
    by_cases hgone : row.key ∈ (expiredKeys (env.cutoff now) s.db).take ingestCleanupLimit
    · obtain ⟨old, hold, hkey⟩ := List.mem_map.mp (List.mem_of_mem_take hgone)
      obtain ⟨hold, hexpired⟩ := Table.mem_select.mp ((List.mem_insertionSort _).mp hold)
      obtain rfl := Table.eq_of_key_eq hold hrow hkey
      exact .inr (of_decide_eq_true hexpired)
    · exact .inl (List.mem_map_of_mem (Table.mem_delete.mpr ⟨hrow, decide_eq_false hgone⟩))

/-- **A delivery that is acknowledged as new stores its first records.** -/
theorem stores_ingestLive {env : Env} {d : Delivery} {s s₁ : Live} {r : Response} {seen : List Key}
    (hseen : ∀ key, key ∈ seen ↔ (s.db.receipts.find? key).isSome)
    (hok : ingestLive env d s = (.ok r, s₁)) (hreplayed : r.replayedBatch = false) :
    s₁.db.receipts.rows = s.db.receipts.rows ++ (d.onlyFirst env.lib seen).receipts env.lib ∧
      s₁.db.records.Sublist (s.db.records ++ (d.onlyFirst env.lib seen).events env.lib) ∧
      (∀ e ∈ s.db.records ++ (d.onlyFirst env.lib seen).events env.lib,
        e ∈ s₁.db.records ∨ e.row.eventTs < env.cutoff d.call.now) ∧
      ∀ n ∈ d.records env.lib, HasReceipt s₁.db d.call.sourceId n := by
  obtain ⟨k, hk, ⟨batch, -, rfl, -⟩ | ⟨-, -, -, db₁, hcommit, rfl⟩⟩ := ingestLive_cases hok
  · cases hreplayed
  · obtain ⟨hstores, hall⟩ := stores_commitBatch hseen hcommit
    obtain ⟨hsub, hkept⟩ := records_dailyCleanup env d.call.now { s with db := db₁ }
    obtain ⟨-, -, hreceipts⟩ := dailyCleanup_tables env d.call.now { s with db := db₁ }
    have hfirst : (d.onlyFirst env.lib seen).records env.lib =
        firstRecords d.call.sourceId seen k.records :=
      records_of_mapM (checkCall_eq_ok.mp (checkCall_onlyFirst seen hk)).2.2.2.2.2
    rw [Delivery.receipts, Delivery.events, hfirst]
    have hrecords := hstores.records
    refine ⟨hreceipts ▸ hstores.receipts, hrecords ▸ hsub, fun e he => hkept e (hrecords ▸ he),
      fun n hn => ?_⟩
    rw [records_of_mapM (checkCall_eq_ok.mp hk).2.2.2.2.2] at hn
    obtain ⟨x, hx, hrecord⟩ := hall n hn
    exact ⟨x, hreceipts ▸ hx, hrecord⟩

/-- The deliveries of the run of first deliveries account for every receipt and every row. -/
theorem once_stores (env : Env) {s : Live} {seen : List Key} (ds : List Delivery)
    (hseen : ∀ key, key ∈ seen ↔ (s.db.receipts.find? key).isSome) :
    (run (afterDelivery env) s ds).db.receipts.rows =
        s.db.receipts.rows ++ (once env seen s ds).flatMap (Delivery.receipts env.lib) ∧
      (run (afterDelivery env) s ds).db.records.Sublist
        (s.db.records ++ (once env seen s ds).flatMap (Delivery.events env.lib)) ∧
      ∀ e ∈ s.db.records ++ (once env seen s ds).flatMap (Delivery.events env.lib),
        e ∈ (run (afterDelivery env) s ds).db.records ∨
          ∃ d ∈ ds, e.row.eventTs < env.cutoff d.call.now := by
  induction ds generalizing s seen with
  | nil => simp [once, run]
  | cons d ds ih =>
    rw [once, run_cons]
    split
    · rename_i r s₁ hok
      have hafter : afterDelivery env s d = s₁ := by rw [afterDelivery, hok]
      rw [hafter]
      split
      · -- A repeated batch stores no record.
        rename_i hreplayed
        obtain ⟨k, -, ⟨batch, -, -, rfl⟩ | ⟨-, -, hnot, -⟩⟩ := ingestLive_cases hok
        · obtain ⟨hreceipts, hsub, hkept⟩ :=
            @ih { s with db := (replayBatch s.db d.call k batch).1 } seen hseen
          exact ⟨hreceipts, hsub, fun e he => (hkept e he).imp_right
            List.exists_mem_cons_of_exists⟩
        · rw [hnot] at hreplayed
          cases hreplayed
      · rename_i hreplayed
        have hnew : r.replayedBatch = false := by simpa using hreplayed
        obtain ⟨hreceipts₁, hsub₁, hkept₁, -⟩ := stores_ingestLive hseen hok hnew
        have hsame : SameRecords s s := ⟨⟨s.db.sources, s.db.batches, rfl⟩, rfl, fun _ => rfl⟩
        obtain ⟨hreceipts, hsub, hkept⟩ := ih (hsame.first hseen hok hnew).2.2
        rw [List.flatMap_cons, List.flatMap_cons, ← List.append_assoc, ← List.append_assoc]
        refine ⟨hreceipts₁ ▸ hreceipts, hsub.trans (hsub₁.append (List.Sublist.refl _)),
          fun e he => ?_⟩
        rcases List.mem_append.mp he with he | he
        · rcases hkept₁ e he with he | he
          · exact (hkept e (List.mem_append_left _ he)).imp_right
              List.exists_mem_cons_of_exists
          · exact .inr ⟨d, List.mem_cons_self, he⟩
        · exact (hkept e (List.mem_append_right _ he)).imp_right
            List.exists_mem_cons_of_exists
    · rename_i e s₁ hok
      have hafter : afterDelivery env s d = s := by
        rw [afterDelivery, hok]
        exact ingestLive_error hok
      rw [hafter]
      obtain ⟨hreceipts, hsub, hkept⟩ := ih hseen
      exact ⟨hreceipts, hsub, fun e he => (hkept e he).imp_right
        List.exists_mem_cons_of_exists⟩

/-- **Ingest is exactly once and atomic.** After every sequence of deliveries: the events and the
receipts are those of the run in which every record is delivered only by the first batch that was
acknowledged with it, where no key comes twice and every batch is accepted without duplicates; the
receipts are those its records ask for, in their order, and the events the same less rows that
retention removed; a batch acknowledged as new leaves each of its records with its receipt; the
counter of a source is the number of its receipts; a batch that is acknowledged is acknowledged
again after any further deliveries, durable, with nothing accepted and the canonical forms of the
same incidents, whenever its arguments pass the checks, as they do unless the clock went back; and
a call that raises leaves everything as it was. -/
theorem ingest_exactly_once (env : Env) (ds : List Delivery) :
    let s := run (afterDelivery env) .init ds
    let first := once env [] .init ds
    let s' := run (afterDelivery env) .init first
    (s.db.events = s'.db.events ∧ s.db.receipts = s'.db.receipts ∧
      (first.flatMap (Delivery.keys env.lib)).Nodup ∧
      StepsSatisfy (afterDelivery env) (AcceptedAsNew env) .init first) ∧
    (s.db.receipts.rows = first.flatMap (Delivery.receipts env.lib) ∧
      s.db.records.Sublist (first.flatMap (Delivery.events env.lib)) ∧
      (∀ e ∈ first.flatMap (Delivery.events env.lib), e ∈ s.db.records ∨
        ∃ d ∈ ds, e.row.eventTs < env.cutoff d.call.now) ∧
      ∀ d r s₁, ingestLive env d s = (.ok r, s₁) → r.replayedBatch = false →
        ∀ n ∈ d.records env.lib, HasReceipt s₁.db d.call.sourceId n) ∧
    ((∀ x ∈ s.db.sources, x.acceptedTotal = receiptsOf s.db x.sourceId) ∧
      ∀ r ∈ s.db.receipts, ∃ x ∈ s.db.sources, x.sourceId = r.sourceId) ∧
    (∀ d r s₁, ingestLive env d s = (.ok r, s₁) → ∀ more d', Redelivers d d' →
      (d.call.now ≤ d'.call.now ∨ ∃ k, checkCall env.lib d'.call = .ok k) →
      ∃ r' s₂, ingestLive env d' (run (afterDelivery env) s₁ more) = (.ok r', s₂) ∧
        r'.durable = true ∧ r'.accepted = 0 ∧
        r'.incidentIds = canonicalForms (run (afterDelivery env) s₁ more).db r.incidentIds) ∧
    ∀ d e s₁, ingestLive env d s = (.error e, s₁) → s₁ = s := by
  intro s first s'
  have hstart : SameRecords Live.init Live.init :=
    ⟨⟨Live.init.db.sources, Live.init.db.batches, rfl⟩, rfl, fun _ => rfl⟩
  have hseen : ∀ key : Key, key ∈ ([] : List Key) ↔ (Live.init.db.receipts.find? key).isSome := by
    intro key
    simp [Live.init, Db.init]
  obtain ⟨hsame, hsteps⟩ := once_simulates env ds hstart hseen
  obtain ⟨sources, batches, hdb⟩ := hsame.db
  have hcounted : Counted s.db := run_preserves (P := fun s : Live => Counted s.db)
    (fun _ d h => h.next d) counted_init
  have hconsistent : Consistent s := (consistent_init.deliveries env ds).1
  obtain ⟨hreceipts, hsub, hkept⟩ := once_stores env ds hseen
  refine ⟨⟨?_, ?_, (nodup_once [] .init ds).1, hsteps⟩, ⟨hreceipts, hsub, hkept, ?_⟩,
    ⟨fun x hx => ?_, fun r hr => ?_⟩, ?_, ?_⟩
  · exact (congrArg Db.events hdb).symm
  · exact (congrArg Db.receipts hdb).symm
  · intro d r s₁ hok hreplayed
    exact (stores_ingestLive (receipts_seen s.db) hok hreplayed).2.2.2
  · have hfind : s.db.sources.find? x.sourceId = some x := Table.find?_of_mem hx
    rw [← hcounted.accepted, acceptedOf, hfind]
    rfl
  · obtain ⟨x, hx⟩ := Option.isSome_iff_exists.mp (hcounted.known r hr)
    exact ⟨x, Table.mem_of_find? hx, Table.find?_key hx⟩
  · intro d r s₁ hok more d' hsame hcheck
    exact hconsistent.replays hok more hsame hcheck
  · intro d e s₁ hok
    exact ingestLive_error hok

end RiskOps.Telemetry.Store
