import RiskOps.Telemetry.NetworkCollector
import RiskOps.Telemetry.NetworkStoreSpec

/-!
# RiskOps.Telemetry.NetworkExactlyOnce — no record is lost, none is counted twice

**Whatever is lost, repeated or interrupted, the receipts of a source are a contiguous run of its
journal.** The invariant `Exact` names that run (`seg`) and says where the collector stands:
either both ends agree, or one batch is on its way. The batch on its way is the pending file. It
is not stored yet and continues the run, or it is stored and ends it; the state file may lag
behind by this one batch and no further.
-/

namespace RiskOps.Telemetry.Network

open RiskOps.Lib

variable {D : Type} [DecidableEq D] {cfg : Setup D} {w : Wire D} {config : StoreConfig}

/-! ### Storing new entries -/

/-- What a receipt keeps of its entry. -/
def Receipt.shape (r : Receipt D) : D × D × Bool × Option RejectionCode × D × List Char :=
  (r.eventId, r.contentHash, r.isEvent, r.code, r.recordHash, r.journalCursor)

/-- The same of an entry. -/
def Entry.shape (w : Wire D) (e : Entry D) : D × D × Bool × Option RejectionCode × D × List Char :=
  (e.eventId, e.contentHash, e.isEvent, e.code, w.record e, e.journalCursor)

omit [DecidableEq D] in
theorem shape_receiptOf (w : Wire D) (b : Batch D) (now : Nat) (e : Entry D) :
    (receiptOf w b now e).shape = e.shape w := by
  cases e <;> rfl

omit [DecidableEq D] in
theorem key_receiptOf (w : Wire D) (b : Batch D) (now : Nat) (e : Entry D) :
    (receiptOf w b now e).key = (b.sourceId, e.eventId) := by
  cases e <;> rfl

/-- The result of an entry that is new. -/
def newResult (e : Entry D) : Result D :=
  resultOf e (if e.isEvent then .accepted else .rejected) e.code

/-- The entry has room and is new. -/
def Room (config : StoreConfig) (st : Progress D) (n : Nat) : Prop :=
  st.receipts.rows.length + n ≤ config.maxReceipts ∧ st.events.length + n ≤ config.maxEvents

variable {b : Batch D} {st st' : Progress D} {e : Entry D}

/-- **A new entry**: the receipt and the result it gets. -/
theorem ingestEntry_new {now : Nat} (hnew : st.receipts.find? (b.sourceId, e.eventId) = none)
    (h : ingestEntry w config b now st e = .ok st') :
    st'.receipts.rows = st.receipts.rows ++ [receiptOf w b now e] ∧
      st'.results = st.results ++ [newResult e] ∧ st'.events.length ≤ st.events.length + 1 := by
  have hrows : (st.receipts.insertOrIgnore (receiptOf w b now e)).rows =
      st.receipts.rows ++ [receiptOf w b now e] :=
    Table.rows_insertOrIgnore (by rw [key_receiptOf]; exact hnew)
  rw [ingestEntry, hnew] at h
  dsimp only at h
  split at h
  · cases h
  · cases e with
    | event e =>
      cases h
      exact ⟨hrows, rfl, by rw [List.length_append]; rfl⟩
    | rejection r =>
      cases h
      exact ⟨hrows, rfl, Nat.le_succ _⟩

theorem ingestEntry_isOk {now : Nat} {n : Nat}
    (hnew : st.receipts.find? (b.sourceId, e.eventId) = none) (hroom : Room config st (n + 1)) :
    ∃ st', ingestEntry w config b now st e = .ok st' := by
  have hfits : ¬ (config.maxReceipts ≤ st.receipts.rows.length
      ∨ (e.isEvent = true ∧ config.maxEvents ≤ st.events.length)) := by
    obtain ⟨hreceipts, hevents⟩ := hroom
    omega
  rw [ingestEntry, hnew]
  dsimp only
  rw [if_neg hfits]
  cases e with
  | event e => exact ⟨_, rfl⟩
  | rejection r => exact ⟨_, rfl⟩

/-- The entries are new and distinct. -/
def AllNew (b : Batch D) (receipts : List (Receipt D)) (entries : List (Entry D)) : Prop :=
  (receipts.map Receipt.key ++ entries.map fun e => (b.sourceId, e.eventId)).Nodup

theorem AllNew.head {entries : List (Entry D)} (h : AllNew b st.receipts.rows (e :: entries)) :
    st.receipts.find? (b.sourceId, e.eventId) = none := by
  rw [Table.find?_eq_none_iff]
  intro r hr hkey
  exact (List.nodup_append.mp h).2.2 r.key (List.mem_map_of_mem hr) _ List.mem_cons_self hkey

omit [DecidableEq D] in
theorem AllNew.tail {receipts receipts' : List (Receipt D)} {now : Nat} {entries : List (Entry D)}
    (h : AllNew b receipts (e :: entries)) (hrows : receipts' = receipts ++ [receiptOf w b now e]) :
    AllNew b receipts' entries := by
  rw [AllNew, hrows, List.map_append, List.map_singleton, key_receiptOf, List.append_assoc,
    List.singleton_append]
  exact h

/-- **A page of new entries.** -/
theorem foldlM_new {now : Nat} {entries : List (Entry D)} (hnew : AllNew b st.receipts.rows entries)
    (h : entries.foldlM (ingestEntry w config b now) st = .ok st') :
    st'.receipts.rows = st.receipts.rows ++ entries.map (receiptOf w b now) ∧
      st'.results = st.results ++ entries.map newResult := by
  induction entries generalizing st with
  | nil =>
    cases h
    exact ⟨(List.append_nil _).symm, (List.append_nil _).symm⟩
  | cons e entries ih =>
    rw [List.foldlM_cons] at h
    obtain ⟨mid, hmid, hrest⟩ := bind_eq_ok.mp h
    obtain ⟨hrows, hresults, -⟩ := ingestEntry_new hnew.head hmid
    obtain ⟨hrows', hresults'⟩ := ih (hnew.tail hrows) hrest
    rw [hrows', hresults', hrows, hresults]
    exact ⟨by simp, by simp⟩

theorem foldlM_isOk {now : Nat} {entries : List (Entry D)}
    (hnew : AllNew b st.receipts.rows entries) (hroom : Room config st entries.length) :
    ∃ st', entries.foldlM (ingestEntry w config b now) st = .ok st' := by
  induction entries generalizing st with
  | nil => exact ⟨st, rfl⟩
  | cons e entries ih =>
    obtain ⟨mid, hmid⟩ := ingestEntry_isOk (w := w) (b := b) hnew.head hroom
    obtain ⟨hrows, -, hevents⟩ := ingestEntry_new hnew.head hmid
    have hroom' : Room config mid entries.length := by
      obtain ⟨hreceipts, hspace⟩ := hroom
      rw [List.length_cons] at hreceipts hspace
      refine ⟨?_, by omega⟩
      rw [hrows, List.length_append, List.length_singleton]
      omega
    obtain ⟨st', hst'⟩ := ih (hnew.tail hrows) hroom'
    exact ⟨st', by rw [List.foldlM_cons]; exact bind_eq_ok.mpr ⟨mid, hmid, hst'⟩⟩

theorem validateAck_new {now : Nat} (hnow : now ≤ maxRealtimeUs) :
    validateAck w (responseOf w b now (b.entries.map newResult)) b = .ok () := by
  have hzip : b.entries.map (fun e => (newResult e, e)) =
      (b.entries.map newResult).zip b.entries :=
    List.zip_of_prod (by simp [Function.comp_def]) (by simp [Function.comp_def])
  refine validateAck_responseOf hnow (List.length_map _) fun p hp => ?_
  rw [← hzip] at hp
  obtain ⟨e, -, rfl⟩ := List.mem_map.mp hp
  exact resultMatches_resultOf e _ (Or.inr rfl)

/-! ### Other sources -/

/-- The store is the same for a source. -/
structure SameSource (sourceId : List Char) (s s' : Store D) : Prop where
  receipts : s'.receiptsOf sourceId = s.receiptsOf sourceId
  checkpoint : s'.checkpoint sourceId = s.checkpoint sourceId
  batches : ∀ id, s'.batches.find? (sourceId, id) = s.batches.find? (sourceId, id)

theorem ingestEntry_rows {now : Nat} (h : ingestEntry w config b now st e = .ok st') :
    ∃ more, st'.receipts.rows = st.receipts.rows ++ more ∧ ∀ r ∈ more, r.sourceId = b.sourceId := by
  cases hfind : st.receipts.find? (b.sourceId, e.eventId) with
  | none =>
    refine ⟨[receiptOf w b now e], (ingestEntry_new hfind h).1, fun r hr => ?_⟩
    rw [List.mem_singleton.mp hr]
    exact congrArg Prod.fst (key_receiptOf w b now e)
  | some previous =>
    rw [ingestEntry, hfind] at h
    dsimp only at h
    split at h
    · cases h
    · cases h
      exact ⟨[], (List.append_nil _).symm, fun r hr => absurd hr List.not_mem_nil⟩

theorem foldlM_rows {now : Nat} {entries : List (Entry D)}
    (h : entries.foldlM (ingestEntry w config b now) st = .ok st') :
    ∃ more, st'.receipts.rows = st.receipts.rows ++ more ∧ ∀ r ∈ more, r.sourceId = b.sourceId := by
  induction entries generalizing st with
  | nil =>
    cases h
    exact ⟨[], (List.append_nil _).symm, fun r hr => absurd hr List.not_mem_nil⟩
  | cons e entries ih =>
    rw [List.foldlM_cons] at h
    obtain ⟨mid, hmid, hrest⟩ := bind_eq_ok.mp h
    obtain ⟨more, hmore, hsource⟩ := ingestEntry_rows hmid
    obtain ⟨more', hmore', hsource'⟩ := ih hrest
    refine ⟨more ++ more', by rw [hmore', hmore, List.append_assoc], fun r hr => ?_⟩
    rcases List.mem_append.mp hr with hr | hr
    · exact hsource r hr
    · exact hsource' r hr

/-- **A delivery of another source leaves this one alone.** -/
theorem sameSource_deliver {sourceId : List Char} {x : Delivery D} (s : Store D)
    (hother : x.batch.sourceId ≠ sourceId) : SameSource sourceId s (deliver w config s x) := by
  rw [deliver]
  split
  · rename_i ack s' hok
    obtain ⟨-, hcases⟩ := ingest_cases hok
    rcases hcases with ⟨previous, -, -, -, rfl⟩ | ⟨-, -, st, hst, -, rfl⟩
    · exact ⟨rfl, rfl, fun _ => rfl⟩
    · obtain ⟨more, hmore, hsource⟩ := foldlM_rows hst
      refine ⟨?_, ?_, fun id => ?_⟩
      · have hnone : more.filter (fun r => decide (r.sourceId = sourceId)) = [] := by
          rw [List.filter_eq_nil_iff]
          intro r hr
          rw [decide_eq_true_iff, hsource r hr]
          exact hother
        show st.receipts.rows.filter _ = _
        rw [hmore, List.filter_append, hnone, List.append_nil]
        rfl
      · have hkey : ∀ old response, (sourceAfter old x.batch x.now response).sourceId ≠ sourceId :=
          fun _ _ => hother
        rw [Store.checkpoint, Table.find?_replace, if_neg (hkey _ _)]
        rfl
      · show (s.batches.insertOrIgnore _).find? _ = _
        rw [Table.find?_insertOrIgnore, if_neg]
        exact fun heq => hother (congrArg Prod.fst heq)
  · exact ⟨rfl, rfl, fun _ => rfl⟩

/-! ### Cursors -/

/-- The cursor of the last entry. -/
def endCursor (l : List (Entry D)) : Option (List Char) := l.getLast?.map Entry.journalCursor

omit [DecidableEq D] in
/-- The cursor after a page that continues a run. -/
theorem lastCursor_eq {done : List (Entry D)} (h : b.cursorBefore = endCursor done) :
    lastCursor b = endCursor (done ++ b.entries) := by
  rw [lastCursor, endCursor, List.getLast?_append]
  cases hlast : b.entries.getLast? with
  | none => exact h
  | some e => rfl

theorem cursorAfter_of_valid {profile : SourceProfile} (h : validateBatch w profile b = .ok ()) :
    b.cursorAfter = lastCursor b := by
  rw [validateBatch] at h
  obtain ⟨_, _, h⟩ := bind_eq_ok.mp h
  obtain ⟨_, _, h⟩ := bind_eq_ok.mp h
  split at h
  · cases h
  · rename_i hsame
    exact not_not.mp hsame

variable {post : List (Entry D)}

omit [DecidableEq D] in
theorem recordsAfter_append {pre : List (Entry D)} {start : Nat}
    (h : ((pre ++ e :: post).map Entry.journalCursor).Nodup) :
    recordsAfter (pre ++ e :: post) start (some e.journalCursor) = post := by
  have hpre : ∀ a ∈ pre, decide (a.journalCursor ≠ e.journalCursor) = true := by
    intro a ha
    rw [List.map_append, List.nodup_append] at h
    exact decide_eq_true (h.2.2 _ (List.mem_map_of_mem ha) _ (by simp))
  rw [recordsAfter, List.dropWhile_append_of_pos hpre, List.dropWhile_cons_of_neg (by simp)]
  rfl

variable {seg : List (Entry D)}

omit [DecidableEq D] in
/-- After the end of a run come the records that follow it. -/
theorem recordsAfter_endCursor {pre : List (Entry D)} {start : Nat} (hne : seg ≠ [])
    (h : ((pre ++ seg ++ post).map Entry.journalCursor).Nodup) :
    recordsAfter (pre ++ seg ++ post) start (endCursor seg) = post := by
  obtain ⟨init, e, rfl⟩ : ∃ init e, seg = init ++ [e] :=
    ⟨seg.dropLast, seg.getLast hne, (List.dropLast_append_getLast hne).symm⟩
  have hcursor : endCursor (init ++ [e]) = some e.journalCursor := by
    rw [endCursor, List.getLast?_append_of_ne_nil _ (List.cons_ne_nil _ _)]
    rfl
  have hsplit : pre ++ (init ++ [e]) ++ post = (pre ++ init) ++ e :: post := by simp
  rw [hcursor, hsplit]
  exact recordsAfter_append (hsplit ▸ h)

/-! ### The invariant -/

/-- The batch is stored, with a response that passes for it. -/
def Stored (cfg : Setup D) (s : Store D) (b : Batch D) : Prop :=
  ∃ row, s.batches.find? (cfg.profile.sourceId, b.batchId) = some row ∧
    row.payloadHash = cfg.wire.payload b ∧ validateAck cfg.wire row.response b = .ok ()

/-- Where the pending batch stands: it continues the run, or it is stored and ends it. -/
inductive Waiting (cfg : Setup D) (s : System D) (seg post : List (Entry D)) (b : Batch D) : Prop where
  | ahead (unknown : s.store.batches.find? (cfg.profile.sourceId, b.batchId) = none)
      (before : b.cursorBefore = endCursor seg) (state : s.state.cursor = endCursor seg)
      (entries : b.entries <+: post)
  | behind (stored : Stored cfg s.store b) (done : List (Entry D)) (run : seg = done ++ b.entries)
      (before : b.cursorBefore = endCursor done)
      (state : s.state.cursor = b.cursorBefore ∨ s.state = nextState cfg.wire b)

/-- Where the collector stands. -/
def Position (cfg : Setup D) (s : System D) (seg post : List (Entry D)) : Prop :=
  match s.pending with
  | none => s.state.cursor = endCursor seg
  | some p => p = pendingOf cfg.wire p.batch ∧ validateBatch cfg.wire cfg.profile p.batch = .ok () ∧
      Waiting cfg s seg post p.batch

/-- What the running collector knows. -/
def PhaseRight (cfg : Setup D) (s : System D) : Prop :=
  match s.phase with
  | .idle => True
  | .sending body => s.pending = some (pendingOf cfg.wire body)
  | .acknowledged body ack => s.pending = some (pendingOf cfg.wire body) ∧
      validateAck cfg.wire ack body = .ok () ∧ Stored cfg s.store body
  | .committed body => s.pending = some (pendingOf cfg.wire body) ∧ Stored cfg s.store body ∧
      s.state = nextState cfg.wire body

/-- The receipts are those of the run `seg` of the journal, and both ends agree on it. -/
structure Placed (cfg : Setup D) (s : System D) (pre seg post : List (Entry D)) : Prop where
  journal : s.journal = pre ++ seg ++ post
  receipts : (s.store.receiptsOf cfg.profile.sourceId).map Receipt.shape =
    seg.map (Entry.shape cfg.wire)
  checkpoint : s.store.checkpoint cfg.profile.sourceId = endCursor seg
  position : Position cfg s seg post

/-- The invariant of the system. -/
structure Exact (cfg : Setup D) (s : System D) : Prop where
  cursors : (s.journal.map Entry.journalCursor).Nodup
  ids : (s.journal.map Entry.eventId).Nodup
  issued : ∀ id row, s.store.batches.find? (cfg.profile.sourceId, id) = some row → id ∈ s.issued
  drawn : ∀ p, s.pending = some p → p.batch.batchId ∈ s.issued
  place : ∃ pre seg post, Placed cfg s pre seg post
  requests : ∀ b ∈ s.requests, Stored cfg s.store b ∨ s.pending = some (pendingOf cfg.wire b)
  acks : ∀ ack ∈ s.acks,
    ∃ row, s.store.batches.find? (cfg.profile.sourceId, ack.batchId) = some row
  phase : PhaseRight cfg s

variable {s : System D}

theorem exact_initial (cfg : Setup D) : Exact cfg .initial where
  cursors := List.nodup_nil
  ids := List.nodup_nil
  issued := fun id row h => by cases h
  drawn := fun p hp => by cases hp
  place := ⟨[], [], [], rfl, rfl, rfl, rfl⟩
  requests := fun b hb => absurd hb List.not_mem_nil
  acks := fun ack hack => absurd hack List.not_mem_nil
  phase := trivial

variable {p : Pending D}

/-- The pending batch has passed every check of the spool. -/
theorem Exact.pending (h : Exact cfg s) (hp : s.pending = some p) :
    p = pendingOf cfg.wire p.batch ∧ validateBatch cfg.wire cfg.profile p.batch = .ok () ∧
      ∃ pre seg post, Placed cfg s pre seg post ∧ Waiting cfg s seg post p.batch := by
  obtain ⟨pre, seg, post, hplace⟩ := h.place
  have hposition := hplace.position
  rw [Position, hp] at hposition
  exact ⟨hposition.1, hposition.2.1, pre, seg, post, hplace, hposition.2.2⟩

/-- A batch in flight that is not stored is the pending one and continues the run. -/
theorem Exact.stored_of_known {row : StoredBatch D} (h : Exact cfg s) (hp : s.pending = some p)
    (hrow : s.store.batches.find? (cfg.profile.sourceId, p.batch.batchId) = some row) :
    Stored cfg s.store p.batch := by
  obtain ⟨-, -, pre, seg, post, -, hwaiting⟩ := h.pending hp
  cases hwaiting with
  | ahead unknown => rw [unknown] at hrow; cases hrow
  | behind stored => exact stored

/-- Only the journal, the files and what the store holds of the source matter. -/
theorem Placed.congr {s' : System D} {pre : List (Entry D)} (h : Placed cfg s pre seg post)
    (hjournal : s'.journal = s.journal) (hpending : s'.pending = s.pending)
    (hstate : s'.state = s.state) (hstore : SameSource cfg.profile.sourceId s.store s'.store) :
    Placed cfg s' pre seg post := by
  refine ⟨hjournal.trans h.journal, by rw [hstore.receipts]; exact h.receipts,
    hstore.checkpoint.trans h.checkpoint, ?_⟩
  have hposition := h.position
  rw [Position] at hposition ⊢
  rw [hpending]
  cases hp : s.pending with
  | none =>
    rw [hp] at hposition
    rw [hstate]
    exact hposition
  | some p =>
    rw [hp] at hposition
    obtain ⟨hself, hvalid, hwaiting⟩ := hposition
    refine ⟨hself, hvalid, ?_⟩
    cases hwaiting with
    | ahead unknown before state entries =>
      exact .ahead (by rw [hstore.batches]; exact unknown) before (hstate ▸ state) entries
    | behind stored done run before state =>
      obtain ⟨row, hrow, hrest⟩ := stored
      exact .behind ⟨row, by rw [hstore.batches]; exact hrow, hrest⟩ done run before
        (hstate ▸ state)

omit [DecidableEq D] in
theorem sameSource_refl (sourceId : List Char) (s : Store D) : SameSource sourceId s s :=
  ⟨rfl, rfl, fun _ => rfl⟩

/-- The stored batches of a source stay. -/
def Keeps (sourceId : List Char) (s s' : Store D) : Prop :=
  ∀ id row, s.batches.find? (sourceId, id) = some row → s'.batches.find? (sourceId, id) = some row

variable {s' : Store D}

omit [DecidableEq D] in
theorem SameSource.keeps {sourceId : List Char} {s : Store D} (h : SameSource sourceId s s') :
    Keeps sourceId s s' :=
  fun id _ hrow => (h.batches id).trans hrow

theorem Stored.mono {s : Store D} (h : Stored cfg s b) (hkeeps : Keeps cfg.profile.sourceId s s') :
    Stored cfg s' b := by
  obtain ⟨row, hrow, hrest⟩ := h
  exact ⟨row, hkeeps _ row hrow, hrest⟩

theorem PhaseRight.store {store : Store D} (h : PhaseRight cfg s)
    (hkeeps : Keeps cfg.profile.sourceId s.store store) :
    PhaseRight cfg { s with store := store } := by
  rw [PhaseRight.eq_def] at h ⊢
  dsimp only
  cases hphase : s.phase with
  | idle => trivial
  | sending body =>
    rw [hphase] at h
    exact h
  | acknowledged body ack =>
    rw [hphase] at h
    exact ⟨h.1, h.2.1, h.2.2.mono hkeeps⟩
  | committed body =>
    rw [hphase] at h
    exact ⟨h.1, h.2.1.mono hkeeps, h.2.2⟩

/-! ### The journal and other sources -/

theorem Position.log {entry : Entry D} (h : Position cfg s seg post) :
    Position cfg { s with journal := s.journal ++ [entry] } seg (post ++ [entry]) := by
  rw [Position] at h ⊢
  dsimp only
  cases hp : s.pending with
  | none =>
    rw [hp] at h
    exact h
  | some p =>
    rw [hp] at h
    obtain ⟨hself, hvalid, hwaiting⟩ := h
    refine ⟨hself, hvalid, ?_⟩
    cases hwaiting with
    | ahead unknown before state entries =>
      exact .ahead unknown before state (entries.trans (List.prefix_append _ _))
    | behind stored done run before state => exact .behind stored done run before state

/-- **A record is logged.** -/
theorem Exact.log {entry : Entry D} (h : Exact cfg s)
    (hcursor : entry.journalCursor ∉ s.journal.map Entry.journalCursor)
    (hid : entry.eventId ∉ s.journal.map Entry.eventId) :
    Exact cfg { s with journal := s.journal ++ [entry] } := by
  obtain ⟨pre, seg, post, hplace⟩ := h.place
  refine ⟨?_, ?_, h.issued, h.drawn, ⟨pre, seg, post ++ [entry], ?_⟩, h.requests, h.acks, h.phase⟩
  · rw [List.map_append, List.map_singleton]
    exact List.nodup_append.mpr ⟨h.cursors, List.nodup_singleton _,
      fun a ha b hb hab => hcursor (List.mem_singleton.mp hb ▸ hab ▸ ha)⟩
  · rw [List.map_append, List.map_singleton]
    exact List.nodup_append.mpr ⟨h.ids, List.nodup_singleton _,
      fun a ha b hb hab => hid (List.mem_singleton.mp hb ▸ hab ▸ ha)⟩
  · refine ⟨?_, hplace.receipts, hplace.checkpoint, hplace.position.log⟩
    show s.journal ++ [entry] = _
    rw [hplace.journal, List.append_assoc]

/-- **Another source delivers.** -/
theorem Exact.other {x : Delivery D} (h : Exact cfg s)
    (hother : x.batch.sourceId ≠ cfg.profile.sourceId) :
    Exact cfg { s with store := deliver cfg.wire cfg.config s.store x } := by
  have hsame : SameSource cfg.profile.sourceId s.store (deliver cfg.wire cfg.config s.store x) :=
    sameSource_deliver s.store hother
  obtain ⟨pre, seg, post, hplace⟩ := h.place
  refine ⟨h.cursors, h.ids, ?_, h.drawn, ⟨pre, seg, post, hplace.congr rfl rfl rfl hsame⟩, ?_, ?_,
    h.phase.store hsame.keeps⟩
  · intro id row hrow
    exact h.issued id row ((hsame.batches id).symm.trans hrow)
  · exact fun b hb => (h.requests b hb).imp_left fun hstored => hstored.mono hsame.keeps
  · intro ack hack
    obtain ⟨row, hrow⟩ := h.acks ack hack
    exact ⟨row, hsame.keeps _ row hrow⟩

/-! ### The store handles a request -/

theorem source_of_valid {profile : SourceProfile} (h : validateBatch w profile b = .ok ()) :
    b.sourceId = profile.sourceId := by
  rw [validateBatch] at h
  obtain ⟨_, hheader, _⟩ := bind_eq_ok.mp h
  rw [validateHeader] at hheader
  split at hheader
  · cases hheader
  · rename_i hsame
    rw [not_or, not_not] at hsame
    exact hsame.1

theorem batchId_of_validateAck {ack : Ack D} (h : validateAck w ack b = .ok ()) :
    ack.batchId = b.batchId := by
  rw [validateAck] at h
  split at h
  · cases h
  · rename_i hecho
    simp only [Bool.or_eq_true, Bool.not_eq_true', not_or, Bool.not_eq_false, echoes,
      Bool.and_eq_true, beq_iff_eq] at hecho
    exact hecho.2.1.1.1.1.1.2

/-- The receipts of the run leave the rest of the journal new. -/
theorem Placed.allNew {pre : List (Entry D)} (h : Exact cfg s) (hplace : Placed cfg s pre seg post)
    (hsource : b.sourceId = cfg.profile.sourceId) (hentries : b.entries <+: post) :
    AllNew b s.store.receipts.rows b.entries := by
  obtain ⟨rest, rfl⟩ := hentries
  have hids := h.ids
  rw [hplace.journal, List.map_append, List.map_append, List.map_append, List.nodup_append] at hids
  obtain ⟨-, hpost, hdisjoint⟩ := hids
  refine List.nodup_append.mpr ⟨s.store.receipts.nodup, ?_, ?_⟩
  · have hmap : b.entries.map (fun e => (b.sourceId, e.eventId)) =
        (b.entries.map Entry.eventId).map fun id => (b.sourceId, id) := by
      rw [List.map_map]
      rfl
    rw [hmap]
    exact (List.nodup_append.mp hpost).1.map fun _ _ heq => (Prod.mk.inj heq).2
  · intro key hkey key' hkey' heq
    obtain ⟨r, hr, rfl⟩ := List.mem_map.mp hkey
    obtain ⟨e, he, rfl⟩ := List.mem_map.mp hkey'
    -- The receipt belongs to the source, so it is one of the run.
    have hmem : r ∈ s.store.receiptsOf cfg.profile.sourceId :=
      List.mem_filter.mpr ⟨hr, decide_eq_true ((congrArg Prod.fst heq).trans hsource)⟩
    have hshape : r.shape ∈ seg.map (Entry.shape cfg.wire) := by
      rw [← hplace.receipts]
      exact List.mem_map_of_mem hmem
    obtain ⟨a, ha, hsame⟩ := List.mem_map.mp hshape
    have hid : a.eventId = e.eventId := (congrArg Prod.fst hsame).trans (congrArg Prod.snd heq)
    exact hdisjoint a.eventId (List.mem_append_right _ (List.mem_map_of_mem ha)) e.eventId
      (List.mem_append_left _ (List.mem_map_of_mem he)) hid

/-- **A new page is stored**: the run grows by its entries. -/
theorem Exact.storePage {pre : List (Entry D)} {now : Nat} {ack : Ack D} {store : Store D}
    (h : Exact cfg s) (hplace : Placed cfg s pre seg post) (hp : s.pending = some p)
    (hself : p = pendingOf cfg.wire p.batch)
    (hvalid : validateBatch cfg.wire cfg.profile p.batch = .ok ())
    (hunknown : s.store.batches.find? (cfg.profile.sourceId, p.batch.batchId) = none)
    (hbefore : p.batch.cursorBefore = endCursor seg) (hstate : s.state.cursor = endCursor seg)
    (hentries : p.batch.entries <+: post)
    (hok : ingest cfg.wire cfg.config cfg.profile now p.batch s.store = .ok (ack, store)) :
    Exact cfg { s with store := store, acks := ack :: s.acks } := by
  have hsource := source_of_valid hvalid
  have hnew := hplace.allNew h hsource hentries
  obtain ⟨hnow, hcases⟩ := ingest_cases hok
  rcases hcases with ⟨previous, hfind, -⟩ | ⟨-, -, st, hst, hack, rfl⟩
  · rw [hsource, hunknown] at hfind
    cases hfind
  · obtain ⟨hrows, hresults⟩ := foldlM_new hnew hst
    have hvalidAck : validateAck cfg.wire ack p.batch = .ok () := by
      rw [hack, hresults, List.nil_append]
      exact validateAck_new hnow
    have hfindNew : ∀ id, ((s.store.batches.insertOrIgnore ⟨p.batch.sourceId, p.batch.batchId,
        cfg.wire.payload p.batch, now, ack⟩).find? (cfg.profile.sourceId, id)) =
        if p.batch.batchId = id then some ⟨p.batch.sourceId, p.batch.batchId,
          cfg.wire.payload p.batch, now, ack⟩
        else s.store.batches.find? (cfg.profile.sourceId, id) := by
      intro id
      have hkey : StoredBatch.key ⟨p.batch.sourceId, p.batch.batchId,
          cfg.wire.payload p.batch, now, ack⟩ = (cfg.profile.sourceId, p.batch.batchId) := by
        rw [StoredBatch.key, hsource]
      rw [Table.find?_insertOrIgnore, hkey]
      by_cases hid : p.batch.batchId = id
      · subst hid
        rw [if_pos rfl, if_pos rfl, hunknown]
        rfl
      · rw [if_neg hid, if_neg fun heq => hid (Prod.mk.inj heq).2]
    have hkeeps : ∀ id row, s.store.batches.find? (cfg.profile.sourceId, id) = some row →
        ((s.store.batches.insertOrIgnore ⟨p.batch.sourceId, p.batch.batchId,
          cfg.wire.payload p.batch, now, ack⟩).find? (cfg.profile.sourceId, id)) = some row := by
      intro id row hrow
      rw [hfindNew id, if_neg]
      · exact hrow
      · rintro rfl
        rw [hunknown] at hrow
        cases hrow
    obtain ⟨rest, rfl⟩ := hentries
    refine ⟨h.cursors, h.ids, ?_, h.drawn, ⟨pre, seg ++ p.batch.entries, rest, ?_⟩, ?_, ?_, ?_⟩
    · intro id row hrow
      rw [hfindNew id] at hrow
      split at hrow
      · rename_i hid
        exact hid ▸ h.drawn p hp
      · exact h.issued id row hrow
    · refine ⟨?_, ?_, ?_, ?_⟩
      · show s.journal = _
        rw [hplace.journal]
        simp
      · show (st.receipts.rows.filter _).map _ = _
        have hall : (p.batch.entries.map (receiptOf cfg.wire p.batch now)).filter
            (fun r => decide (r.sourceId = cfg.profile.sourceId)) =
            p.batch.entries.map (receiptOf cfg.wire p.batch now) := by
          rw [List.filter_eq_self]
          intro r hr
          obtain ⟨e, -, rfl⟩ := List.mem_map.mp hr
          exact decide_eq_true
            ((congrArg Prod.fst (key_receiptOf cfg.wire p.batch now e)).trans hsource)
        have hshapes : (p.batch.entries.map (receiptOf cfg.wire p.batch now)).map Receipt.shape =
            p.batch.entries.map (Entry.shape cfg.wire) := by
          rw [List.map_map]
          exact List.map_congr_left fun e _ => shape_receiptOf cfg.wire p.batch now e
        have hold : (s.store.receipts.rows.filter
            fun r => decide (r.sourceId = cfg.profile.sourceId)).map Receipt.shape =
            seg.map (Entry.shape cfg.wire) := hplace.receipts
        rw [hrows, List.filter_append, hall, List.map_append, hshapes, hold, List.map_append]
      · have hkey : (sourceAfter (s.store.sources.find? p.batch.sourceId) p.batch now ack).sourceId =
            cfg.profile.sourceId := hsource
        show ((s.store.sources.replace _).find? _).bind _ = _
        rw [Table.find?_replace, if_pos hkey]
        exact (cursorAfter_of_valid hvalid).trans (lastCursor_eq hbefore)
      · rw [Position]
        dsimp only
        rw [hp]
        refine ⟨hself, hvalid, .behind ⟨⟨p.batch.sourceId, p.batch.batchId,
          cfg.wire.payload p.batch, now, ack⟩, ?_, rfl, hvalidAck⟩ seg rfl hbefore (Or.inl ?_)⟩
        · exact (hfindNew p.batch.batchId).trans (if_pos rfl)
        · exact hstate.trans hbefore.symm
    · exact fun b hb => (h.requests b hb).imp_left fun hstored => hstored.mono hkeeps
    · intro a ha
      rcases List.mem_cons.mp ha with rfl | ha
      · refine ⟨_, (hfindNew a.batchId).trans (if_pos ?_)⟩
        exact (batchId_of_validateAck hvalidAck).symm
      · obtain ⟨row, hrow⟩ := h.acks a ha
        exact ⟨row, hkeeps _ row hrow⟩
    · exact PhaseRight.store (s := { s with acks := ack :: s.acks }) h.phase hkeeps

/-- A batch that is stored is answered from its response, and nothing changes. -/
theorem ingest_stored {now : Nat} {ack : Ack D} (hsource : b.sourceId = cfg.profile.sourceId)
    (hstored : Stored cfg s.store b)
    (hok : ingest cfg.wire cfg.config cfg.profile now b s.store = .ok (ack, s')) :
    s' = s.store ∧ validateAck cfg.wire ack b = .ok () := by
  obtain ⟨row, hrow, -, hack⟩ := hstored
  obtain ⟨-, hcases⟩ := ingest_cases hok
  rcases hcases with ⟨previous, hfind, -, rfl, rfl⟩ | ⟨hnone, -⟩
  · rw [hsource, hrow] at hfind
    cases hfind
    exact ⟨rfl, hack⟩
  · rw [hsource, hrow] at hnone
    cases hnone

theorem valid_of_ingest {now : Nat} {ack : Ack D} {store store' : Store D}
    (hok : ingest cfg.wire cfg.config cfg.profile now b store = .ok (ack, store')) :
    validateBatch cfg.wire cfg.profile b = .ok () := by
  rw [ingest] at hok
  obtain ⟨_, hvalid, _⟩ := bind_eq_ok.mp hok
  exact hvalid

/-- **The store handles a request in flight**: it is a replay, or the next page. -/
theorem Exact.serve {now : Nat} (h : Exact cfg s) (hb : b ∈ s.requests) :
    Exact cfg (serve cfg now b s) := by
  rw [Network.serve]
  split
  · rename_i ack store hok
    have hsource := source_of_valid (valid_of_ingest hok)
    have hreplay : Stored cfg s.store b → Exact cfg { s with store := store, acks := ack :: s.acks } := by
      intro hstored
      obtain ⟨rfl, hack⟩ := ingest_stored hsource hstored hok
      refine ⟨h.cursors, h.ids, h.issued, h.drawn, ?_, h.requests, ?_, h.phase⟩
      · obtain ⟨pre, seg, post, hplace⟩ := h.place
        exact ⟨pre, seg, post, hplace.congr rfl rfl rfl (sameSource_refl _ _)⟩
      · intro a ha
        rcases List.mem_cons.mp ha with rfl | ha
        · obtain ⟨row, hrow, -⟩ := hstored
          exact ⟨row, by rw [batchId_of_validateAck hack]; exact hrow⟩
        · exact h.acks a ha
    rcases h.requests b hb with hstored | hpending
    · exact hreplay hstored
    · obtain ⟨hself, hvalid, pre, seg, post, hplace, hwaiting⟩ := h.pending hpending
      cases hwaiting with
      | ahead unknown before state entries =>
        exact h.storePage hplace hpending hself hvalid unknown before state entries hok
      | behind stored => exact hreplay stored
  · exact h

/-! ### The collector -/

theorem mapM_ok {α : Type} (l : List α) : l.mapM (.ok : α → Except String α) = .ok l :=
  mapM_eq_ok.mpr (List.forall₂_same.mpr fun _ _ => rfl)

theorem Exact.phase_of {phase : Phase D} (h : Exact cfg s)
    (hphase : PhaseRight cfg { s with phase := phase }) : Exact cfg { s with phase := phase } :=
  ⟨h.cursors, h.ids, h.issued, h.drawn,
    let ⟨pre, seg, post, hplace⟩ := h.place
    ⟨pre, seg, post, hplace.congr rfl rfl rfl (sameSource_refl _ _)⟩, h.requests, h.acks, hphase⟩

/-- **A page is fetched**: it continues the run, wherever the run starts. -/
theorem Exact.fetch {obs : Observed} {recent : Nat} (h : Exact cfg s) (hnone : s.pending = none)
    (hpage : exportPage cfg.wire cfg.profile cfg.validFromUs obs s.state.cursor .ok
      (recordsAfter s.journal recent s.state.cursor) = .ok b) (hfresh : obs.batchId ∉ s.issued) :
    Exact cfg { s with
      pending := some (pendingOf cfg.wire b)
      phase := .sending b
      issued := obs.batchId :: s.issued } := by
  have hexported := exportPage_exported hpage
  obtain ⟨read, hread, hmap⟩ := hexported.entries
  obtain rfl : read = b.entries := Except.ok.inj ((mapM_ok read).symm.trans hmap)
  obtain ⟨pre, seg, post, hplace⟩ := h.place
  have hposition := hplace.position
  rw [Position, hnone] at hposition
  dsimp only at hposition
  have hunknown : s.store.batches.find? (cfg.profile.sourceId, b.batchId) = none := by
    cases hfind : s.store.batches.find? (cfg.profile.sourceId, b.batchId) with
    | none => rfl
    | some row =>
      have := h.issued b.batchId row hfind
      rw [hexported.batchId] at this
      exact absurd this hfresh
  -- Before the first entry the run can start where the page starts.
  obtain ⟨pre', post', hjournal, hnext⟩ : ∃ pre' post', s.journal = pre' ++ seg ++ post' ∧
      b.entries <+: post' := by
    by_cases hne : seg = []
    · subst hne
      rw [hposition] at hread
      refine ⟨s.journal.take recent, s.journal.drop recent, ?_, hread⟩
      rw [List.append_nil, List.take_append_drop]
    · refine ⟨pre, post, hplace.journal, ?_⟩
      have hcursors := h.cursors
      rw [hplace.journal] at hcursors
      rw [hposition, hplace.journal, recordsAfter_endCursor hne hcursors] at hread
      exact hread
  refine ⟨h.cursors, h.ids, ?_, ?_, ⟨pre', seg, post', hjournal, hplace.receipts,
    hplace.checkpoint, rfl, hexported.valid, ?_⟩, ?_, h.acks, rfl⟩
  · exact fun id row hrow => List.mem_cons_of_mem _ (h.issued id row hrow)
  · intro p hp
    obtain rfl : pendingOf cfg.wire b = p := Option.some.inj hp
    exact hexported.batchId ▸ List.mem_cons_self
  · exact .ahead hunknown (hexported.before.trans hposition) hposition hnext
  · intro b' hb'
    rcases h.requests b' hb' with hstored | hpending
    · exact Or.inl hstored
    · rw [hnone] at hpending
      cases hpending

theorem Exact.start {obs : Observed} {recent : Nat} {s' : System D} (h : Exact cfg s)
    (hfresh : obs.batchId ∉ s.issued) (hstart : startPage cfg obs recent s = .ok s') :
    Exact cfg s' := by
  rw [startPage] at hstart
  cases hp : s.pending with
  | some p =>
    rw [hp] at hstart
    dsimp only at hstart
    obtain ⟨body, hbody, hdone⟩ := bind_eq_ok.mp hstart
    cases hdone
    obtain ⟨hself, -⟩ := h.pending hp
    have heq : body = p.batch := by
      rw [validatePending] at hbody
      split at hbody
      · cases hbody
      · split at hbody
        · cases hbody
        · split at hbody
          · cases hbody
          · exact (Except.ok.inj hbody).symm
    have hphase : Exact cfg { s with phase := .sending body } := by
      refine h.phase_of ?_
      show s.pending = some (pendingOf cfg.wire body)
      rw [hp, heq, ← hself]
    rw [hp] at hphase
    exact hphase
  | none =>
    rw [hp] at hstart
    dsimp only at hstart
    obtain ⟨page, hpage, hrest⟩ := bind_eq_ok.mp hstart
    obtain ⟨body, hbody, hdone⟩ := bind_eq_ok.mp hrest
    cases hdone
    have heq : page = body := by
      rw [validateFetched] at hbody
      split at hbody
      · cases hbody
      · split at hbody
        · cases hbody
        · exact Except.ok.inj hbody
    rw [heq] at hpage
    have hnext := h.fetch hp hpage hfresh
    exact hnext

/-- **The state file is written** for a batch that the store has acknowledged. -/
theorem Exact.writeState {body : Batch D} {ack : Ack D} (h : Exact cfg s)
    (hphase : s.phase = .acknowledged body ack) :
    Exact cfg { s with state := nextState cfg.wire body, phase := .committed body } := by
  have hright := h.phase
  rw [PhaseRight.eq_def, hphase] at hright
  obtain ⟨hpending, -, hstored⟩ := hright
  obtain ⟨hself, hvalid, pre, seg, post, hplace, hwaiting⟩ := h.pending hpending
  refine ⟨h.cursors, h.ids, h.issued, h.drawn, ⟨pre, seg, post, hplace.journal, hplace.receipts,
    hplace.checkpoint, ?_⟩, h.requests, h.acks, hpending, hstored, rfl⟩
  rw [Position]
  dsimp only
  rw [hpending]
  refine ⟨hself, hvalid, ?_⟩
  cases hwaiting with
  | ahead unknown =>
    obtain ⟨row, hrow, -⟩ := hstored
    have hnone : s.store.batches.find? (cfg.profile.sourceId, body.batchId) = none := unknown
    rw [hnone] at hrow
    cases hrow
  | behind stored done run before => exact .behind stored done run before (Or.inr rfl)

/-- **The pending file is removed.** -/
theorem Exact.unlink {body : Batch D} (h : Exact cfg s) (hphase : s.phase = .committed body) :
    Exact cfg { s with pending := none, phase := .idle } := by
  have hright := h.phase
  rw [PhaseRight.eq_def, hphase] at hright
  obtain ⟨hpending, hstored, hstate⟩ := hright
  obtain ⟨-, hvalid, pre, seg, post, hplace, hwaiting⟩ := h.pending hpending
  refine ⟨h.cursors, h.ids, h.issued, fun p hp => (by cases hp), ⟨pre, seg, post, hplace.journal,
    hplace.receipts, hplace.checkpoint, ?_⟩, ?_, h.acks, trivial⟩
  · show s.state.cursor = endCursor seg
    cases hwaiting with
    | ahead unknown before state => exact state
    | behind stored done run before =>
      have hafter : body.cursorAfter = endCursor (done ++ body.entries) :=
        (cursorAfter_of_valid hvalid).trans (lastCursor_eq before)
      rw [hstate, run]
      exact hafter
  · intro b hb
    rcases h.requests b hb with hb | hb
    · exact Or.inl hb
    · rw [hpending] at hb
      have heq : body = b := congrArg Pending.batch (Option.some.inj hb)
      exact Or.inl (heq ▸ hstored)

/-- **Every event keeps the invariant.** -/
theorem Exact.next (h : Exact cfg s) (a : Action D) : Exact cfg (s.next cfg a) := by
  cases a with
  | log entry =>
    rw [System.next]
    split
    · exact h
    · rename_i hnew
      rw [not_or] at hnew
      exact h.log hnew.1 hnew.2
  | start obs recent =>
    rw [System.next]
    split
    · split
      · exact h
      · rename_i hfresh
        split
        · rename_i s' hstart
          exact h.start hfresh hstart
        · exact h
    · exact h
  | send =>
    rw [System.next]
    split
    · rename_i body hphase
      have hright := h.phase
      rw [PhaseRight.eq_def, hphase] at hright
      refine ⟨h.cursors, h.ids, h.issued, h.drawn, ?_, ?_, h.acks, h.phase⟩
      · obtain ⟨pre, seg, post, hplace⟩ := h.place
        exact ⟨pre, seg, post, hplace.congr rfl rfl rfl (sameSource_refl _ _)⟩
      · intro b hb
        rcases List.mem_cons.mp hb with rfl | hb
        · exact Or.inr hright
        · exact h.requests b hb
    · exact h
  | serve now b =>
    rw [System.next]
    split
    · rename_i hb
      exact h.serve hb
    · exact h
  | other x =>
    rw [System.next]
    split
    · exact h
    · rename_i hother
      exact h.other hother
  | receive ack =>
    rw [System.next]
    split
    · rename_i body hphase
      have hright := h.phase
      rw [PhaseRight.eq_def, hphase] at hright
      split
      · rename_i hack
        split
        · rename_i hok
          obtain ⟨row, hrow⟩ := h.acks ack hack
          rw [batchId_of_validateAck hok] at hrow
          exact h.phase_of ⟨hright, hok, h.stored_of_known hright hrow⟩
        · exact h.phase_of trivial
      · exact h
    · exact h
  | writeState =>
    rw [System.next]
    split
    · rename_i body ack hphase
      exact h.writeState hphase
    · exact h
  | unlink =>
    rw [System.next]
    split
    · rename_i body hphase
      exact h.unlink hphase
    · exact h
  | crash => exact h.phase_of trivial

/-- **Every run keeps the invariant.** -/
theorem exact_run (cfg : Setup D) (actions : List (Action D)) :
    Exact cfg (run (System.next cfg) .initial actions) :=
  run_preserves (fun _ a h => h.next a) (exact_initial cfg)

/-! ### Nothing is stuck -/

/-- The store has room for the batch, and its clock is not behind. -/
structure Fits (cfg : Setup D) (store : Store D) (now : Nat) (b : Batch D) : Prop where
  received : now ≤ maxRealtimeUs
  collected : b.collectedAtUs ≤ now + 300000000
  batches : store.batches.rows.length < cfg.config.maxBatches
  receipts : store.receipts.rows.length + b.entries.length ≤ cfg.config.maxReceipts
  events : store.events.length + b.entries.length ≤ cfg.config.maxEvents

/-- **The next page is accepted** wherever it fits. -/
theorem ingest_next {store : Store D} {now : Nat}
    (hvalid : validateBatch cfg.wire cfg.profile b = .ok ())
    (hunknown : store.batches.find? (cfg.profile.sourceId, b.batchId) = none)
    (hbefore : b.cursorBefore = store.checkpoint cfg.profile.sourceId)
    (hnew : AllNew b store.receipts.rows b.entries) (hfits : Fits cfg store now b) :
    ∃ ack store', ingest cfg.wire cfg.config cfg.profile now b store = .ok (ack, store') ∧
      validateAck cfg.wire ack b = .ok () := by
  have hsource := source_of_valid hvalid
  have hroom : Room cfg.config ⟨store.receipts, deleteExpired cfg.config now store.events,
      store.eventSeq, []⟩ b.entries.length :=
    ⟨hfits.receipts, (Nat.add_le_add_right (List.length_filter_le _ _) _).trans hfits.events⟩
  obtain ⟨st, hst⟩ : ∃ st, b.entries.foldlM (ingestEntry cfg.wire cfg.config b now)
      ⟨store.receipts, deleteExpired cfg.config now store.events, store.eventSeq, []⟩ = .ok st :=
    foldlM_isOk hnew hroom
  have hfresh : ∃ p, ingestFresh cfg.wire cfg.config b now store = .ok p ∧
      p.1 = responseOf cfg.wire b now st.results := by
    rw [ingestFresh, if_neg (not_lt.mpr hfits.collected), hsource,
      if_neg (not_not.mpr hbefore), if_neg (not_le.mpr hfits.batches), hst]
    exact ⟨_, rfl, rfl⟩
  obtain ⟨⟨ack, store'⟩, hok, hack⟩ := hfresh
  refine ⟨ack, store', ?_, ?_⟩
  · rw [ingest, hvalid]
    show (if _ then _ else _) = _
    rw [if_neg (not_lt.mpr hfits.received), hsource, hunknown]
    exact hok
  · have hresults := (foldlM_new hnew hst).2
    dsimp only at hack
    rw [hack, hresults, List.nil_append]
    exact validateAck_new hfits.received

/-- **A stored batch is answered by replay.** -/
theorem ingest_replay {store : Store D} {now : Nat} {row : StoredBatch D}
    (hvalid : validateBatch cfg.wire cfg.profile b = .ok ()) (hstored : Stored cfg store b)
    (hrow : store.batches.find? (cfg.profile.sourceId, b.batchId) = some row)
    (hnow : now ≤ maxRealtimeUs) :
    ingest cfg.wire cfg.config cfg.profile now b store = .ok (row.response, store) ∧
      validateAck cfg.wire row.response b = .ok () := by
  obtain ⟨row', hrow', hhash, hack⟩ := hstored
  rw [hrow] at hrow'
  obtain rfl : row = row' := Option.some.inj hrow'
  refine ⟨?_, hack⟩
  rw [ingest, hvalid]
  show (if _ then _ else _) = _
  rw [if_neg (not_lt.mpr hnow), source_of_valid hvalid, hrow]
  exact if_neg (not_not.mpr hhash)

theorem validatePending_ok (h : Exact cfg s) (hp : s.pending = some p) :
    validatePending cfg.wire cfg.profile s.state p = .ok p.batch := by
  obtain ⟨hself, hvalid, pre, seg, post, -, hwaiting⟩ := h.pending hp
  have hhash : p.payloadHash = cfg.wire.payload p.batch := congrArg Pending.payloadHash hself
  have hplaced : ¬ (s.state.cursor ≠ p.batch.cursorBefore ∧ afterStateCommit s.state p = false) := by
    rintro ⟨hcursor, hcommit⟩
    cases hwaiting with
    | ahead unknown before state => exact hcursor (state.trans before.symm)
    | behind stored done run before state =>
      rcases state with state | state
      · exact hcursor state
      · rw [state] at hcommit
        simp [afterStateCommit, nextState, hhash] at hcommit
  rw [validatePending, if_neg (not_not.mpr hhash), hvalid]
  dsimp only
  rw [if_neg hplaced]

/-- The state file moves only when an acknowledged page is committed. -/
theorem cursor_moves (h : Exact cfg s) (a : Action D)
    (hmoves : (s.next cfg a).state.cursor ≠ s.state.cursor) :
    ∃ body ack, s.phase = .acknowledged body ack ∧ s.pending = some (pendingOf cfg.wire body) ∧
      validateAck cfg.wire ack body = .ok () ∧ (s.next cfg a).state.cursor = body.cursorAfter := by
  cases a with
  | writeState =>
    rw [System.next] at hmoves ⊢
    cases hphase : s.phase with
    | acknowledged body ack =>
      have hright := h.phase
      rw [PhaseRight.eq_def, hphase] at hright
      exact ⟨body, ack, rfl, hright.1, hright.2.1, rfl⟩
    | idle => rw [hphase] at hmoves; exact absurd rfl hmoves
    | sending body => rw [hphase] at hmoves; exact absurd rfl hmoves
    | committed body => rw [hphase] at hmoves; exact absurd rfl hmoves
  | start obs recent =>
    refine absurd ?_ hmoves
    rw [System.next]
    split
    · split
      · rfl
      · split
        · rename_i s' hstart
          rw [startPage] at hstart
          split at hstart
          · obtain ⟨_, _, hdone⟩ := bind_eq_ok.mp hstart
            cases hdone
            rfl
          · obtain ⟨_, _, hrest⟩ := bind_eq_ok.mp hstart
            obtain ⟨_, _, hdone⟩ := bind_eq_ok.mp hrest
            cases hdone
            rfl
        · rfl
    · rfl
  | log entry =>
    refine absurd ?_ hmoves
    rw [System.next]
    split <;> rfl
  | send =>
    refine absurd ?_ hmoves
    rw [System.next]
    split <;> rfl
  | serve now b =>
    refine absurd ?_ hmoves
    rw [System.next]
    split
    · rw [serve]
      split <;> rfl
    · rfl
  | other x =>
    refine absurd ?_ hmoves
    rw [System.next]
    split <;> rfl
  | receive ack =>
    refine absurd ?_ hmoves
    rw [System.next]
    split
    · split
      · split <;> rfl
      · rfl
    · rfl
  | unlink =>
    refine absurd ?_ hmoves
    rw [System.next]
    split <;> rfl
  | crash => exact absurd rfl hmoves

/-- The state file names the end of a part of the run. -/
theorem Exact.run_of_state (h : Exact cfg s) : ∃ pre done rest post,
    s.journal = pre ++ (done ++ rest) ++ post ∧
      (s.store.receiptsOf cfg.profile.sourceId).map Receipt.shape =
        (done ++ rest).map (Entry.shape cfg.wire) ∧
      ((done ++ rest).map Entry.eventId).Nodup ∧
      s.store.checkpoint cfg.profile.sourceId = endCursor (done ++ rest) ∧
      s.state.cursor = endCursor done := by
  obtain ⟨pre, seg, post, hplace⟩ := h.place
  have hnodup : (seg.map Entry.eventId).Nodup := by
    have hids := h.ids
    rw [hplace.journal, List.map_append, List.map_append] at hids
    exact (List.nodup_append.mp (List.nodup_append.mp hids).1).2.1
  have hwhole : s.state.cursor = endCursor seg → ∃ pre done rest post,
      s.journal = pre ++ (done ++ rest) ++ post ∧
        (s.store.receiptsOf cfg.profile.sourceId).map Receipt.shape =
          (done ++ rest).map (Entry.shape cfg.wire) ∧
        ((done ++ rest).map Entry.eventId).Nodup ∧
        s.store.checkpoint cfg.profile.sourceId = endCursor (done ++ rest) ∧
        s.state.cursor = endCursor done := by
    intro hstate
    refine ⟨pre, seg, [], post, ?_⟩
    rw [List.append_nil]
    exact ⟨hplace.journal, hplace.receipts, hnodup, hplace.checkpoint, hstate⟩
  have hposition := hplace.position
  rw [Position] at hposition
  cases hp : s.pending with
  | none =>
    rw [hp] at hposition
    exact hwhole hposition
  | some p =>
    rw [hp] at hposition
    obtain ⟨-, hvalid, hwaiting⟩ := hposition
    cases hwaiting with
    | ahead unknown before state => exact hwhole state
    | behind stored done run before state =>
      rcases state with state | state
      · subst run
        exact ⟨pre, done, p.batch.entries, post, hplace.journal, hplace.receipts, hnodup,
          hplace.checkpoint, state.trans before⟩
      · refine hwhole ?_
        rw [state, run]
        exact (cursorAfter_of_valid hvalid).trans (lastCursor_eq before)

/-- **Exactly-once delivery of network records.** After every run of the journal, the collector,
the network and the store, with crashes between any two steps of the collector:

* the receipts of the source are those of a contiguous run of the journal, each entry once and in
  order; the checkpoint is the end of the run and the collector's cursor the end of a part of it;
* the pending file passes its checks; if the store has its batch, the answer is a replay that
  changes nothing and passes; otherwise the store accepts it as soon as it fits;
* without a pending file the next page, whatever it is, is accepted as soon as it fits;
* the cursor moves only when a page is committed whose acknowledgement has passed. -/
theorem records_delivered_exactly_once (cfg : Setup D) (actions : List (Action D)) :
    (∃ pre done rest post,
      (run (System.next cfg) .initial actions).journal = pre ++ (done ++ rest) ++ post ∧
      ((run (System.next cfg) .initial actions).store.receiptsOf cfg.profile.sourceId).map
        Receipt.shape = (done ++ rest).map (Entry.shape cfg.wire) ∧
      ((done ++ rest).map Entry.eventId).Nodup ∧
      (run (System.next cfg) .initial actions).store.checkpoint cfg.profile.sourceId =
        endCursor (done ++ rest) ∧
      (run (System.next cfg) .initial actions).state.cursor = endCursor done) ∧
    (∀ p, (run (System.next cfg) .initial actions).pending = some p →
      validatePending cfg.wire cfg.profile (run (System.next cfg) .initial actions).state p =
          .ok p.batch ∧
        (∀ row now, (run (System.next cfg) .initial actions).store.batches.find?
              (cfg.profile.sourceId, p.batch.batchId) = some row → now ≤ maxRealtimeUs →
            ingest cfg.wire cfg.config cfg.profile now p.batch
                (run (System.next cfg) .initial actions).store =
              .ok (row.response, (run (System.next cfg) .initial actions).store) ∧
            validateAck cfg.wire row.response p.batch = .ok ()) ∧
        (∀ now, Fits cfg (run (System.next cfg) .initial actions).store now p.batch →
          ∃ ack store, ingest cfg.wire cfg.config cfg.profile now p.batch
              (run (System.next cfg) .initial actions).store = .ok (ack, store) ∧
            validateAck cfg.wire ack p.batch = .ok ())) ∧
    ((run (System.next cfg) .initial actions).pending = none →
      ∀ obs recent b, obs.batchId ∉ (run (System.next cfg) .initial actions).issued →
        exportPage cfg.wire cfg.profile cfg.validFromUs obs
            (run (System.next cfg) .initial actions).state.cursor .ok
            (recordsAfter (run (System.next cfg) .initial actions).journal recent
              (run (System.next cfg) .initial actions).state.cursor) = .ok b →
        ∀ now, Fits cfg (run (System.next cfg) .initial actions).store now b →
          ∃ ack store, ingest cfg.wire cfg.config cfg.profile now b
              (run (System.next cfg) .initial actions).store = .ok (ack, store) ∧
            validateAck cfg.wire ack b = .ok ()) ∧
    (∀ a, ((run (System.next cfg) .initial actions).next cfg a).state.cursor ≠
        (run (System.next cfg) .initial actions).state.cursor →
      ∃ body ack, (run (System.next cfg) .initial actions).phase = .acknowledged body ack ∧
        (run (System.next cfg) .initial actions).pending = some (pendingOf cfg.wire body) ∧
        validateAck cfg.wire ack body = .ok () ∧
        ((run (System.next cfg) .initial actions).next cfg a).state.cursor = body.cursorAfter) := by
  have h : Exact cfg (run (System.next cfg) .initial actions) := exact_run cfg actions
  obtain ⟨s, hs⟩ : ∃ s, s = run (System.next cfg) .initial actions := ⟨_, rfl⟩
  rw [← hs] at h ⊢
  have hpending : ∀ {s : System D} {p : Pending D}, Exact cfg s → s.pending = some p → ∀ now,
      Fits cfg s.store now p.batch → ∃ ack store,
        ingest cfg.wire cfg.config cfg.profile now p.batch s.store = .ok (ack, store) ∧
          validateAck cfg.wire ack p.batch = .ok () := by
    intro s p h hp now hfits
    obtain ⟨-, hvalid, pre, seg, post, hplace, hwaiting⟩ := h.pending hp
    cases hwaiting with
    | ahead unknown before state entries =>
      exact ingest_next hvalid unknown (before.trans hplace.checkpoint.symm)
        (hplace.allNew h (source_of_valid hvalid) entries) hfits
    | behind stored =>
      obtain ⟨row, hrow, -⟩ := id stored
      obtain ⟨hok, hack⟩ := ingest_replay hvalid stored hrow hfits.received
      exact ⟨_, _, hok, hack⟩
  refine ⟨h.run_of_state, fun p hp => ⟨validatePending_ok h hp, ?_, hpending h hp⟩, ?_,
    cursor_moves h⟩
  · intro row now hrow hnow
    obtain ⟨-, hvalid, -⟩ := h.pending hp
    exact ingest_replay hvalid (h.stored_of_known hp hrow) hrow hnow
  · intro hnone obs recent b hfresh hpage now hfits
    exact hpending (h.fetch hnone hpage hfresh) rfl now hfits

end RiskOps.Telemetry.Network
