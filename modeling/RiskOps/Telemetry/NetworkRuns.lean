import RiskOps.Telemetry.NetworkCases
import RiskOps.Telemetry.NetworkStoreSpec

/-!
# RiskOps.Telemetry.NetworkRuns — incremental network analysis is batch analysis

**Whatever the order of deliveries, intakes and analyses, a settled store without losses holds
the cases of the whole history.** The invariant has three parts, over the observations accepted
so far. `Recorded`: each has its receipt. `Tracked`: those before the cursor are in the context,
unless a loss is recorded. `CasesRight`: a clean window that reached no limit has the evidence
its present context yields, because an observation that enters the context of a window marks it.
-/

namespace RiskOps.Telemetry.Network

open RiskOps.Lib

variable {D : Type} [LinearOrder D] {env : Env D} {log : List (NetworkEvent D)} {s : Store D}
  {A : Analysis D} {now : ℚ}

/-! ### Receipts -/

/-- The accepted observations, in the order of their receipts. -/
structure Recorded (env : Env D) (log : List (NetworkEvent D)) (s : Store D) : Prop where
  keys : (s.receipts.rows.filter Receipt.isEvent).map Receipt.key = log.map NetworkEvent.key
  events : ∀ row ∈ s.events, row.event ∈ log ∧ row.sourceId = row.event.sourceId
  seqs : ∀ row ∈ s.events, row.seq ≤ s.eventSeq
  valid : ∀ e ∈ log, validateEvent env.wire.toEventDigests e = .ok ()

theorem Recorded.distinct (h : Recorded env log s) : Distinct log := by
  rw [Distinct, ← h.keys]
  exact s.receipts.nodup.sublist (List.filter_sublist.map _)

/-- What the rows of a batch must satisfy. -/
def EntriesOf (env : Env D) (b : Batch D) : Prop :=
  ∀ e, .event e ∈ b.entries → e.sourceId = b.sourceId ∧
    validateEvent env.wire.toEventDigests e = .ok ()

variable {b : Batch D}

theorem entriesOf_of_valid {profile : SourceProfile} (h : validateBatch env.wire profile b = .ok ()) :
    EntriesOf env b := by
  rw [validateBatch] at h
  obtain ⟨_, hheader, h⟩ := bind_eq_ok.mp h
  obtain ⟨_, hentries, _⟩ := bind_eq_ok.mp h
  have hsource : b.sourceId = profile.sourceId := by
    rw [validateHeader] at hheader
    split at hheader
    · cases hheader
    · rename_i hsame
      rw [not_or, not_not] at hsame
      exact hsame.1
  intro e he
  have hevent : validateBatchEvent env.wire profile e = .ok () := forM_eq_ok.mp hentries _ he
  rw [validateBatchEvent] at hevent
  obtain ⟨_, hvalid, hrest⟩ := bind_eq_ok.mp hevent
  refine ⟨?_, hvalid⟩
  split at hrest
  · cases hrest
  · rename_i hsame
    rw [not_or, not_not] at hsame
    exact hsame.1.trans hsource.symm

/-- A batch in progress: what it has stored so far, after the receipts and rows it found. -/
structure Accepting (env : Env D) (receipts : List (Receipt D)) (rows : List (StoredEvent D)) (seq : Nat)
    (st : Progress D) (new : List (StoredEvent D)) : Prop where
  receipts : ∃ more, st.receipts.rows = receipts ++ more ∧
    (more.filter Receipt.isEvent).map Receipt.key = new.map fun row => row.event.key
  events : st.events = rows ++ new
  seqs : ∀ row ∈ new, seq < row.seq ∧ row.seq ≤ st.eventSeq
  eventSeq : seq ≤ st.eventSeq
  source : ∀ row ∈ new, row.sourceId = row.event.sourceId ∧
    validateEvent env.wire.toEventDigests row.event = .ok ()

variable {received : Nat}

theorem Accepting.entry {receipts : List (Receipt D)} {rows new : List (StoredEvent D)} {seq : Nat}
    {st st' : Progress D} {entry : Entry D} (h : Accepting env receipts rows seq st new)
    (hentry : ∀ e, entry = .event e → e.sourceId = b.sourceId ∧
      validateEvent env.wire.toEventDigests e = .ok ())
    (hstep : ingestEntry env.wire env.config b received st entry = .ok st') :
    ∃ new', Accepting env receipts rows seq st' new' := by
  obtain ⟨more, hmore, hkeys⟩ := h.receipts
  rw [ingestEntry] at hstep
  cases hfind : st.receipts.find? (b.sourceId, entry.eventId) with
  | some previous =>
    rw [hfind] at hstep
    dsimp only at hstep
    split at hstep
    · cases hstep
    · cases hstep
      exact ⟨new, h.receipts, h.events, h.seqs, h.eventSeq, h.source⟩
  | none =>
    rw [hfind] at hstep
    dsimp only at hstep
    split at hstep
    · cases hstep
    · have hkey : (receiptOf env.wire b received entry).key = (b.sourceId, entry.eventId) := by
        cases entry <;> rfl
      have hrows : (st.receipts.insertOrIgnore (receiptOf env.wire b received entry)).rows =
          receipts ++ (more ++ [receiptOf env.wire b received entry]) := by
        rw [Table.rows_insertOrIgnore (by rw [hkey]; exact hfind), hmore, List.append_assoc]
      cases entry with
      | rejection r =>
        cases hstep
        refine ⟨new, ⟨_, hrows, ?_⟩, h.events, h.seqs, h.eventSeq, h.source⟩
        rw [List.filter_append, List.map_append, hkeys]
        exact List.append_nil _
      | event e =>
        cases hstep
        obtain ⟨hsource, hvalid⟩ := hentry e rfl
        refine ⟨new ++ [⟨st.eventSeq + 1, b.sourceId, b.collectedAtUs, received, e⟩],
          ⟨_, hrows, ?_⟩, ?_, ?_, ?_, ?_⟩
        · have hlast : (receiptOf env.wire b received (.event e)).key = e.key :=
            Prod.ext hsource.symm rfl
          have hfilter : [receiptOf env.wire b received (.event e)].filter Receipt.isEvent =
              [receiptOf env.wire b received (.event e)] := rfl
          rw [List.filter_append, List.map_append, hkeys, List.map_append, hfilter,
            List.map_singleton, hlast]
          rfl
        · rw [h.events, List.append_assoc]
        · intro row hrow
          rcases List.mem_append.mp hrow with hrow | hrow
          · exact ⟨(h.seqs row hrow).1, (h.seqs row hrow).2.trans (Nat.le_succ _)⟩
          · rw [List.mem_singleton.mp hrow]
            exact ⟨Nat.lt_succ_of_le h.eventSeq, le_rfl⟩
        · exact h.eventSeq.trans (Nat.le_succ _)
        · intro row hrow
          rcases List.mem_append.mp hrow with hrow | hrow
          · exact h.source row hrow
          · rw [List.mem_singleton.mp hrow]
            exact ⟨hsource.symm, hvalid⟩

theorem Accepting.entries {receipts : List (Receipt D)} {rows new : List (StoredEvent D)}
    {seq : Nat} {st st' : Progress D} {entries : List (Entry D)}
    (h : Accepting env receipts rows seq st new)
    (hentries : ∀ e, .event e ∈ entries → e.sourceId = b.sourceId ∧
      validateEvent env.wire.toEventDigests e = .ok ())
    (hfold : entries.foldlM (ingestEntry env.wire env.config b received) st = .ok st') :
    ∃ new', Accepting env receipts rows seq st' new' := by
  induction entries generalizing st new with
  | nil =>
    cases hfold
    exact ⟨new, h⟩
  | cons entry entries ih =>
    rw [List.foldlM_cons] at hfold
    obtain ⟨mid, hmid, hrest⟩ := bind_eq_ok.mp hfold
    obtain ⟨new', hnew'⟩ := h.entry (fun e he => hentries e (he ▸ List.mem_cons_self)) hmid
    exact ih hnew' (fun e he => hentries e (List.mem_cons_of_mem _ he)) hrest

/-- What a delivery does: it adds receipts, and an observation for each that has one. -/
structure Delivered (env : Env D) (s s' : Store D) (new : List (NetworkEvent D)) : Prop where
  receipts : ∃ more, s'.receipts.rows = s.receipts.rows ++ more ∧
    (more.filter Receipt.isEvent).map Receipt.key = new.map NetworkEvent.key
  accepted : (s'.events.filter fun row => decide (s.eventSeq < row.seq)).map StoredEvent.event = new
  events : ∀ row ∈ s'.events, row ∈ s.events ∨
    row.event ∈ new ∧ row.sourceId = row.event.sourceId
  seqs : ∀ row ∈ s'.events, row.seq ≤ s'.eventSeq
  valid : ∀ e ∈ new, validateEvent env.wire.toEventDigests e = .ok ()

theorem delivered_refl (hseqs : ∀ row ∈ s.events, row.seq ≤ s.eventSeq) : Delivered env s s [] := by
  refine ⟨⟨[], (List.append_nil _).symm, rfl⟩, ?_, fun row hrow => Or.inl hrow, hseqs,
    fun e he => absurd he List.not_mem_nil⟩
  rw [List.map_eq_nil_iff, List.filter_eq_nil_iff]
  intro row hrow
  rw [decide_eq_true_iff, not_lt]
  exact hseqs row hrow

omit [LinearOrder D] in
theorem mem_of_mem_deleteExpired {cfg : StoreConfig} {events : List (StoredEvent D)}
    {row : StoredEvent D} (h : row ∈ deleteExpired cfg received events) : row ∈ events :=
  (List.mem_filter.mp h).1

/-- **One delivery.** -/
theorem delivered_deliver (hseqs : ∀ row ∈ s.events, row.seq ≤ s.eventSeq) (x : Delivery D) :
    ∃ new, Delivered env s (deliver env.wire env.config s x) new := by
  rw [deliver]
  split
  · rename_i ack s' hok
    have hvalid : validateBatch env.wire x.profile x.batch = .ok () := by
      rw [ingest] at hok
      obtain ⟨_, hvalid, _⟩ := bind_eq_ok.mp hok
      exact hvalid
    obtain ⟨-, hcases⟩ := ingest_cases hok
    rcases hcases with ⟨previous, -, -, -, rfl⟩ | ⟨-, -, st, hst, -, rfl⟩
    · exact ⟨[], delivered_refl hseqs⟩
    · have hstart : Accepting env s.receipts.rows (deleteExpired env.config x.now s.events) s.eventSeq
          ⟨s.receipts, deleteExpired env.config x.now s.events, s.eventSeq, []⟩ [] :=
        ⟨⟨[], (List.append_nil _).symm, rfl⟩, (List.append_nil _).symm,
          fun row hrow => absurd hrow List.not_mem_nil, le_rfl,
          fun row hrow => absurd hrow List.not_mem_nil⟩
      obtain ⟨new, hnew⟩ := hstart.entries (entriesOf_of_valid hvalid) hst
      obtain ⟨more, hmore, hkeys⟩ := hnew.receipts
      refine ⟨new.map StoredEvent.event, ⟨more, hmore, by rw [hkeys, List.map_map]; rfl⟩, ?_, ?_, ?_, ?_⟩
      · have hold : (deleteExpired env.config x.now s.events).filter
            (fun row => decide (s.eventSeq < row.seq)) = [] := by
          rw [List.filter_eq_nil_iff]
          intro row hrow
          rw [decide_eq_true_iff, not_lt]
          exact hseqs row (mem_of_mem_deleteExpired hrow)
        have hall : new.filter (fun row => decide (s.eventSeq < row.seq)) = new :=
          List.filter_eq_self.mpr fun row hrow => decide_eq_true (hnew.seqs row hrow).1
        show ((st.events.filter _).map _) = _
        rw [hnew.events, List.filter_append, hold, hall, List.nil_append]
      · intro row hrow
        have hrow' : row ∈ st.events := hrow
        rw [hnew.events, List.mem_append] at hrow'
        rcases hrow' with hrow' | hrow'
        · exact Or.inl (mem_of_mem_deleteExpired hrow')
        · exact Or.inr ⟨List.mem_map_of_mem hrow', (hnew.source row hrow').1⟩
      · intro row hrow
        have hrow' : row ∈ st.events := hrow
        rw [hnew.events, List.mem_append] at hrow'
        rcases hrow' with hrow' | hrow'
        · exact (hseqs row (mem_of_mem_deleteExpired hrow')).trans hnew.eventSeq
        · exact (hnew.seqs row hrow').2
      · intro e he
        obtain ⟨row, hrow, rfl⟩ := List.mem_map.mp he
        exact (hnew.source row hrow).2
  · exact ⟨[], delivered_refl hseqs⟩

theorem Recorded.delivered {s' : Store D} {new : List (NetworkEvent D)} (h : Recorded env log s)
    (hd : Delivered env s s' new) : Recorded env (log ++ new) s' := by
  obtain ⟨more, hmore, hkeys⟩ := hd.receipts
  refine ⟨?_, fun row hrow => ?_, hd.seqs, fun e he => ?_⟩
  · rw [hmore, List.filter_append, List.map_append, h.keys, hkeys, List.map_append]
  · rcases hd.events row hrow with hrow | ⟨hnew, hsource⟩
    · exact ⟨List.mem_append_left _ (h.events row hrow).1, (h.events row hrow).2⟩
    · exact ⟨List.mem_append_right _ hnew, hsource⟩
  · rcases List.mem_append.mp he with he | he
    · exact h.valid e he
    · exact hd.valid e he

/-! ### Observations in the context -/

/-- The observations before the cursor: those of the context have their receipt, and none is
missing unless a loss is recorded. -/
structure Tracked (log : List (NetworkEvent D)) (s : Store D) (A : Analysis D) : Prop where
  cursor : A.cursor ≤ s.receipts.rows.length
  context : ∀ row ∈ A.context, row.event ∈ log ∧ ∃ i r, row.receiptSeq = i + 1 ∧ i < A.cursor ∧
    s.receipts.rows[i]? = some r ∧ r.key = row.event.key
  nodup : (A.context.map ContextRow.receiptSeq).Nodup
  taken : A.losses.rows = [] → ∀ i r, s.receipts.rows[i]? = some r → i < A.cursor →
    r.isEvent = true → ∃ row ∈ A.context, row.receiptSeq = i + 1

theorem getElem?_append_of_some {α : Type} {l l' : List α} {i : Nat} {a : α} (h : l[i]? = some a) :
    (l ++ l')[i]? = some a := by
  rw [List.getElem?_append_left (List.getElem?_eq_some_iff.mp h).1]
  exact h

theorem Tracked.delivered {s' : Store D} {new : List (NetworkEvent D)} (h : Tracked log s A)
    (hd : Delivered env s s' new) : Tracked (log ++ new) s' A := by
  obtain ⟨more, hmore, -⟩ := hd.receipts
  refine ⟨?_, ?_, h.nodup, ?_⟩
  · rw [hmore, List.length_append]
    exact h.cursor.trans (Nat.le_add_right _ _)
  · intro row hrow
    obtain ⟨hlog, i, r, hseq, hlt, hget, hkey⟩ := h.context row hrow
    refine ⟨List.mem_append_left _ hlog, i, r, hseq, hlt, ?_, hkey⟩
    rw [hmore]
    exact getElem?_append_of_some hget
  · intro hloss i r hget hlt hevent
    rw [hmore, List.getElem?_append_left (hlt.trans_le h.cursor)] at hget
    exact h.taken hloss i r hget hlt hevent

variable {B : Analysis D}

omit [LinearOrder D] in
/-- Only these columns matter. -/
theorem Tracked.congr (h : Tracked log s A) (hcursor : B.cursor = A.cursor)
    (hcontext : B.context = A.context) (hloss : B.losses = A.losses) : Tracked log s B := by
  refine ⟨?_, ?_, ?_, ?_⟩
  · rw [hcursor]
    exact h.cursor
  · rw [hcontext, hcursor]
    exact h.context
  · rw [hcontext]
    exact h.nodup
  · rw [hcontext, hcursor, hloss]
    exact h.taken

omit [LinearOrder D] in
/-- Two rows of the context with one key are one row. -/
theorem Tracked.seq_eq (h : Tracked log s A) {a b : ContextRow D} (ha : a ∈ A.context)
    (hb : b ∈ A.context) (hkey : a.event.key = b.event.key) : a.receiptSeq = b.receiptSeq := by
  obtain ⟨-, i, r, hi, -, hgi, hri⟩ := h.context a ha
  obtain ⟨-, j, q, hj, -, hgj, hqj⟩ := h.context b hb
  have hij : i = j := Table.index_eq hgi hgj (by rw [hri, hqj, hkey])
  omega

variable {e : NetworkEvent D}

theorem mem_contextRows {key : WindowKey D} :
    e ∈ contextRows A key ↔ ∃ row ∈ A.context, row.event = e ∧ inContext key e = true := by
  simp only [contextRows, List.mem_map, List.mem_insertionSort, List.mem_filter]
  constructor
  · intro ⟨row, ⟨hrow, hin⟩, he⟩
    exact ⟨row, hrow, he, he ▸ hin⟩
  · intro ⟨row, hrow, he, hin⟩
    exact ⟨row, ⟨hrow, he ▸ hin⟩, he⟩

theorem peer_of_mem_contextRows {key : WindowKey D} : ∀ e ∈ contextRows A key, e.peer = key.1 := by
  intro e he
  obtain ⟨row, -, -, hin⟩ := Iff.mp mem_contextRows he
  exact (inContext_iff.mp hin).1

theorem distinct_contextRows (h : Tracked log s A) (key : WindowKey D) :
    Distinct (contextRows A key) := by
  obtain ⟨rows, hrows⟩ : ∃ rows, rows = (A.context.filter fun row =>
      inContext key row.event).insertionSort fun a b => a.order ≤ b.order := ⟨_, rfl⟩
  have hperm : rows.Perm (A.context.filter fun row => inContext key row.event) :=
    hrows ▸ List.perm_insertionSort _ _
  have hnodup : (rows.map ContextRow.receiptSeq).Nodup :=
    (hperm.map ContextRow.receiptSeq).nodup_iff.mpr
      (h.nodup.sublist (List.filter_sublist.map _))
  have heq : (contextRows A key).map NetworkEvent.key = rows.map fun row => row.event.key := by
    rw [contextRows, ← hrows, List.map_map]
    rfl
  rw [Distinct, heq]
  refine List.pairwise_map.mpr ((List.pairwise_map.mp hnodup).imp_of_mem ?_)
  intro a b ha hb hab hkey
  have hmem : ∀ row ∈ rows, row ∈ A.context := fun row hrow =>
    (List.mem_filter.mp (hperm.mem_iff.mp hrow)).1
  exact hab (h.seq_eq (hmem a ha) (hmem b hb) hkey)

/-! ### Cases -/

/-- The case holds what its context yields. -/
def CaseRight (env : Env D) (A : Analysis D) (key : WindowKey D) : Prop :=
  ∃ report, detectNetwork env.detector inputLimits (contextRows A key) = .ok report ∧
    ∀ id, id ∈ A.book.holds key ↔ id ∈ selectedIds (contextRows A key) key.2 report.findings

/-- Every observation of the context has marked its hours, every case has a window, and clean
windows have the right case. -/
structure CasesRight (env : Env D) (A : Analysis D) : Prop where
  hours : ∀ key w, A.windows.find? key = some w → hourUs ∣ key.2 ∧ key.2 ≤ maxMonotonicUs
  marked : ∀ row ∈ A.context, ∀ key ∈ windowsOf row.event, (A.windows.find? key).isSome
  cased : ∀ key, (A.book.payload? key).isSome → (A.windows.find? key).isSome
  book : BookRight A.book
  clean : A.losses.rows = [] → ∀ key w, A.windows.find? key = some w → w.dirty = false →
    .contextLimit ∉ w.coverage → CaseRight env A key

theorem CaseRight.congr {key : WindowKey D} (h : CaseRight env A key)
    (hrows : contextRows B key = contextRows A key)
    (hholds : ∀ id, id ∈ B.book.holds key ↔ id ∈ A.book.holds key) : CaseRight env B key := by
  obtain ⟨report, hreport, hids⟩ := h
  refine ⟨report, by rw [hrows]; exact hreport, fun id => ?_⟩
  rw [hholds id, hrows]
  exact hids id

theorem mem_windowsOf {key : WindowKey D} (hdvd : hourUs ∣ key.2) (hmax : key.2 ≤ maxMonotonicUs)
    (hin : inContext key e = true) : key ∈ windowsOf e := by
  obtain ⟨hpeer, hlow, hhigh⟩ := inContext_iff.mp hin
  exact List.mem_map.mpr ⟨key.2, mem_buckets hdvd hmax hlow hhigh, Prod.ext hpeer rfl⟩

/-! ### Intake -/

omit [LinearOrder D] in
/-- The cursor passes a receipt without an observation, or loses its observation. -/
theorem Tracked.skip {r : Receipt D} (h : Tracked log s A)
    (hget : s.receipts.rows[A.cursor]? = some r) (hcursor : B.cursor = A.cursor + 1)
    (hcontext : B.context = A.context)
    (hloss : B.losses.rows = [] → A.losses.rows = [] ∧ r.isEvent = false) : Tracked log s B := by
  have hlt : A.cursor < s.receipts.rows.length := (List.getElem?_eq_some_iff.mp hget).1
  refine ⟨by omega, ?_, by rw [hcontext]; exact h.nodup, ?_⟩
  · intro row hrow
    rw [hcontext] at hrow
    obtain ⟨hlog, i, q, hseq, hi, hrest⟩ := h.context row hrow
    exact ⟨hlog, i, q, hseq, by omega, hrest⟩
  · intro hnone i q hq hi hevent
    obtain ⟨hold, hother⟩ := hloss hnone
    rw [hcontext]
    by_cases hlast : i = A.cursor
    · rw [hlast, hget] at hq
      cases hq
      rw [hother] at hevent
      cases hevent
    · exact h.taken hold i q hq (by omega) hevent

omit [LinearOrder D] in
/-- The observation of the next receipt enters the context. -/
theorem Tracked.enter {r : Receipt D} (h : Tracked log s A)
    (hget : s.receipts.rows[A.cursor]? = some r) (he : e ∈ log) (hkey : r.key = e.key)
    (hcursor : B.cursor = A.cursor + 1)
    (hcontext : B.context = A.context ++ [⟨A.cursor + 1, received, e⟩])
    (hloss : B.losses = A.losses) : Tracked log s B := by
  have hlt : A.cursor < s.receipts.rows.length := (List.getElem?_eq_some_iff.mp hget).1
  refine ⟨by omega, ?_, ?_, ?_⟩
  · intro row hrow
    rw [hcontext, List.mem_append, List.mem_singleton] at hrow
    rcases hrow with hrow | rfl
    · obtain ⟨hlog, i, q, hseq, hi, hrest⟩ := h.context row hrow
      exact ⟨hlog, i, q, hseq, by omega, hrest⟩
    · exact ⟨he, A.cursor, r, rfl, by omega, hget, hkey⟩
  · rw [hcontext, List.map_append, List.map_singleton]
    refine List.nodup_append.mpr ⟨h.nodup, List.nodup_singleton _, ?_⟩
    intro a ha b hb hab
    obtain ⟨row, hrow, rfl⟩ := List.mem_map.mp ha
    obtain ⟨-, i, q, hseq, hi, -⟩ := h.context row hrow
    have hlast : b = A.cursor + 1 := List.mem_singleton.mp hb
    omega
  · intro hnone i q hq hi hevent
    rw [hcontext]
    by_cases hlast : i = A.cursor
    · exact ⟨_, List.mem_append_right _ (List.mem_singleton_self _), by rw [hlast]⟩
    · obtain ⟨row, hrow, hseq⟩ := h.taken (hloss ▸ hnone) i q hq (by omega) hevent
      exact ⟨row, List.mem_append_left _ hrow, hseq⟩

/-- Only these columns matter. -/
theorem CasesRight.congr (h : CasesRight env A) (hcontext : B.context = A.context)
    (hloss : B.losses = A.losses) (hwindows : B.windows = A.windows) (hbook : B.book = A.book) :
    CasesRight env B := by
  refine ⟨by rw [hwindows]; exact h.hours, by rw [hcontext, hwindows]; exact h.marked,
    by rw [hbook, hwindows]; exact h.cased, by rw [hbook]; exact h.book, ?_⟩
  intro hnone key w hw hclean hlimit
  rw [hwindows] at hw
  refine (h.clean (hloss ▸ hnone) key w hw hclean hlimit).congr ?_ fun id => by rw [hbook]
  rw [contextRows, contextRows, hcontext]

/-- A loss is recorded: nothing is claimed of clean windows any more. -/
theorem CasesRight.lost (h : CasesRight env A) (hcontext : ∀ row ∈ B.context, row ∈ A.context)
    (hloss : B.losses.rows ≠ [])
    (hwindows : ∀ key, (B.windows.find? key).isSome = (A.windows.find? key).isSome)
    (hbook : B.book = A.book) : CasesRight env B := by
  refine ⟨?_, ?_, ?_, by rw [hbook]; exact h.book, fun hnone => absurd hnone hloss⟩
  · intro key w hw
    have hsome : (A.windows.find? key).isSome = true := by
      rw [← hwindows key, hw]
      rfl
    obtain ⟨w₀, hw₀⟩ := Option.isSome_iff_exists.mp hsome
    exact h.hours key w₀ hw₀
  · intro row hrow key hkey
    rw [hwindows key]
    exact h.marked row (hcontext row hrow) key hkey
  · intro key hkey
    rw [hwindows key]
    exact h.cased key (hbook ▸ hkey)

/-- **An observation that enters the context marks its windows.** -/
theorem CasesRight.enter {row : ContextRow D} (h : CasesRight env A)
    (hvalid : row.event.journalMonotonicUs ≤ maxMonotonicUs)
    (hcontext : B.context = A.context ++ [row]) (hloss : B.losses = A.losses)
    (hwindows : B.windows = (windowsOf row.event).foldl (DirtyWindow.mark ∅ now) A.windows)
    (hbook : B.book = A.book) : CasesRight env B := by
  have hfind := DirtyWindow.find?_foldl_mark (∅ : Finset Note) now (windowsOf row.event) A.windows
  rw [← hwindows] at hfind
  have hkept : ∀ key, (A.windows.find? key).isSome → (B.windows.find? key).isSome := by
    intro key hsome
    by_cases hk : key ∈ windowsOf row.event
    · obtain ⟨w, hw, -⟩ := (hfind key).1 hk
      rw [hw]
      rfl
    · rw [(hfind key).2 hk]
      exact hsome
  refine ⟨?_, ?_, ?_, by rw [hbook]; exact h.book, ?_⟩
  · intro key w hw
    by_cases hk : key ∈ windowsOf row.event
    · obtain ⟨hour, hhour, rfl⟩ := List.mem_map.mp hk
      exact dvd_of_mem_buckets hvalid hhour
    · rw [(hfind key).2 hk] at hw
      exact h.hours key w hw
  · intro c hc key hkey
    rw [hcontext, List.mem_append, List.mem_singleton] at hc
    rcases hc with hc | rfl
    · exact hkept key (h.marked c hc key hkey)
    · obtain ⟨w, hw, -⟩ := (hfind key).1 hkey
      rw [hw]
      rfl
  · intro key hkey
    rw [hbook] at hkey
    exact hkept key (h.cased key hkey)
  · intro hnone key w hw hclean hlimit
    by_cases hk : key ∈ windowsOf row.event
    · obtain ⟨w', hw', hdirty⟩ := (hfind key).1 hk
      rw [hw'] at hw
      rw [Option.some.inj hw, hclean] at hdirty
      cases hdirty
    · rw [(hfind key).2 hk] at hw
      obtain ⟨hdvd, hmax⟩ := h.hours key w hw
      -- The observation is outside the context of an unmarked window.
      have houtside : inContext key row.event = false := by
        rw [Bool.eq_false_iff]
        exact fun hin => hk (mem_windowsOf hdvd hmax hin)
      have hrows : contextRows B key = contextRows A key := by
        rw [contextRows, contextRows, hcontext, List.filter_append]
        rw [List.filter_cons_of_neg (by rw [houtside]; exact Bool.false_ne_true),
          List.filter_nil, List.append_nil]
      exact (h.clean (hloss ▸ hnone) key w hw hclean hlimit).congr hrows fun id => by rw [hbook]

theorem find?_foldl_dirtyClock (now : ℚ) (sourceId bootId : List Char) (hours : List Nat)
    (windows : DirtyWindow.Windows (WindowKey D) (Finset Note)) (key : WindowKey D) :
    ((hours.foldl (dirtyClock now sourceId bootId) windows).find? key).isSome =
      (windows.find? key).isSome := by
  induction hours generalizing windows with
  | nil => rfl
  | cons hour hours ih =>
    rw [List.foldl_cons, ih, dirtyClock, Table.find?_update, Option.isSome_map]

theorem CasesRight.recordLoss (h : CasesRight env A) (loss : Loss D) :
    CasesRight env (recordLoss now loss A) :=
  h.lost (fun _ hrow => hrow) (Table.insertOrIgnore_ne_nil _ _)
    (fun key => find?_foldl_dirtyClock _ _ _ _ _ key) rfl

/-- What the analysis knows between two transactions. -/
structure Analysed (env : Env D) (log : List (NetworkEvent D)) (s : Store D) (A : Analysis D) :
    Prop where
  tracked : Tracked log s A
  cases : CasesRight env A

theorem Recorded.event_of_receipt (h : Recorded env log s) {key : List Char × D}
    (hfind : s.event? key = some e) : e ∈ log ∧ e.key = key := by
  rw [Store.event?, Option.map_eq_some_iff] at hfind
  obtain ⟨row, hrow, rfl⟩ := hfind
  obtain ⟨hlog, hsource⟩ := h.events row (List.mem_of_find?_eq_some hrow)
  have hkey : (row.sourceId, row.event.eventId) = key := by simpa using List.find?_some hrow
  rw [hsource] at hkey
  exact ⟨hlog, hkey⟩

/-- **One receipt of an intake.** -/
theorem Analysed.intakeReceipt (hs : Recorded env log s) (h : Analysed env log s A) {r : Receipt D}
    (hget : s.receipts.rows[A.cursor]? = some r) :
    Analysed env log s (intakeReceipt s now A (r, A.cursor + 1)) ∧
      (intakeReceipt s now A (r, A.cursor + 1)).cursor = A.cursor + 1 := by
  rw [Network.intakeReceipt]
  dsimp only
  split
  · split
    · refine ⟨⟨h.tracked.skip hget rfl rfl ?_, ?_⟩, rfl⟩
      · exact fun hnone => absurd hnone (Table.insertOrIgnore_ne_nil _ _)
      · exact (h.cases.recordLoss _).congr rfl rfl rfl rfl
    · rename_i e hfind
      obtain ⟨hlog, hkey⟩ := hs.event_of_receipt hfind
      refine ⟨⟨h.tracked.enter hget hlog hkey.symm rfl rfl rfl, ?_⟩, rfl⟩
      exact h.cases.enter (monotonic_of_valid (hs.valid e hlog)) rfl rfl rfl rfl
  · rename_i hevent
    refine ⟨⟨h.tracked.skip hget rfl rfl fun hnone => ⟨hnone, ?_⟩, ?_⟩, rfl⟩
    · exact Bool.not_eq_true _ ▸ hevent
    · exact h.cases.congr rfl rfl rfl rfl

/-- The rows from position `cursor` on, with their numbers. -/
def NumberedFrom {ρ : Type} (rows : List ρ) (cursor : Nat) (next : List (ρ × Nat)) : Prop :=
  ∀ j p, next[j]? = some p → p.2 = cursor + j + 1 ∧ rows[cursor + j]? = some p.1

theorem numberedFrom_numbered {ρ : Type} (rows : List ρ) (cursor target limit : Nat) :
    NumberedFrom rows cursor (numbered rows cursor target limit) := by
  intro j p hp
  rw [numbered, List.getElem?_take] at hp
  split at hp
  · rw [List.getElem?_drop, List.getElem?_take] at hp
    split at hp
    · rw [List.getElem?_zipIdx, Option.map_eq_some_iff] at hp
      obtain ⟨r, hr, rfl⟩ := hp
      exact ⟨by dsimp only; omega, hr⟩
    · cases hp
  · cases hp

theorem NumberedFrom.tail {ρ : Type} {rows : List ρ} {cursor : Nat} {p : ρ × Nat}
    {next : List (ρ × Nat)} (h : NumberedFrom rows cursor (p :: next)) :
    NumberedFrom rows (cursor + 1) next := by
  intro j q hq
  obtain ⟨hnumber, hget⟩ := h (j + 1) q (by rw [List.getElem?_cons_succ]; exact hq)
  refine ⟨by omega, ?_⟩
  rw [Nat.add_assoc, Nat.add_comm 1 j]
  exact hget

theorem Analysed.intakeReceipts (hs : Recorded env log s) {next : List (Receipt D × Nat)}
    (h : Analysed env log s A) (hnext : NumberedFrom s.receipts.rows A.cursor next) :
    Analysed env log s (next.foldl (Network.intakeReceipt s now) A) := by
  induction next generalizing A with
  | nil => exact h
  | cons p next ih =>
    obtain ⟨r, number⟩ := p
    obtain ⟨hnumber, hget⟩ := hnext 0 (r, number) rfl
    obtain rfl : number = A.cursor + 1 := hnumber
    obtain ⟨hstep, hcursor⟩ :
        Analysed env log s (Network.intakeReceipt s now A (r, A.cursor + 1)) ∧
          (Network.intakeReceipt s now A (r, A.cursor + 1)).cursor = A.cursor + 1 :=
      h.intakeReceipt hs hget
    exact ih hstep (by rw [hcursor]; exact hnext.tail)

theorem Analysed.congr (h : Analysed env log s A) (hcursor : B.cursor = A.cursor)
    (hcontext : B.context = A.context) (hloss : B.losses = A.losses)
    (hwindows : B.windows = A.windows) (hbook : B.book = A.book) : Analysed env log s B :=
  ⟨h.tracked.congr hcursor hcontext hloss, h.cases.congr hcontext hloss hwindows hbook⟩

theorem Analysed.intakeBatches (h : Analysed env log s A) (next : List (StoredBatch D × Nat)) :
    Analysed env log s (next.foldl intakeBatch A) := by
  induction next generalizing A with
  | nil => exact h
  | cons p next ih =>
    have hstep : Analysed env log s (intakeBatch A p) := h.congr rfl rfl rfl rfl rfl
    exact ih hstep

/-- **An intake.** -/
theorem Analysed.intake (hs : Recorded env log s) (h : Analysed env log s A) (limit : Nat) :
    Analysed env log s (intake s now limit A) := by
  rw [Network.intake]
  refine Analysed.intakeBatches (Analysed.intakeReceipts hs ?_ ?_) _
  · exact h.congr rfl rfl rfl rfl rfl
  · exact numberedFrom_numbered _ _ _ _

/-- **A row of the context expires.** -/
theorem Analysed.pruneRow (h : Analysed env log s A) (row : ContextRow D) :
    Analysed env log s (pruneRow now A row) := by
  have hsub : ∀ r ∈ (Network.pruneRow now A row).context, r ∈ A.context :=
    fun r hr => (List.mem_filter.mp hr).1
  refine ⟨⟨h.tracked.cursor, fun r hr => h.tracked.context r (hsub r hr), ?_, ?_⟩, ?_⟩
  · exact h.tracked.nodup.sublist (List.filter_sublist.map _)
  · exact fun hnone => absurd hnone (Table.insertOrIgnore_ne_nil _ _)
  · exact (h.cases.recordLoss _).lost hsub (Table.insertOrIgnore_ne_nil _ _) (fun _ => rfl) rfl

theorem Analysed.prune (h : Analysed env log s A) (rows : List (ContextRow D)) :
    Analysed env log s (rows.foldl (Network.pruneRow now) A) := by
  induction rows generalizing A with
  | nil => exact h
  | cons row rows ih => exact ih (h.pruneRow row)

/-! ### Analysing a window -/

/-- **Analysing a window makes its case right**, and leaves the others as they are. -/
theorem Analysed.analyze {key : WindowKey D} (h : Analysed env log s A)
    (hdirty : DirtyWindow.isDirty A.windows key = true)
    (hanalyze : analyzeWindow env A key now = .ok B) : Analysed env log s B := by
  -- What each branch leaves: a saved case, and a clean window.
  obtain ⟨C, coverage, hB, hsaved, hright⟩ : ∃ C coverage, B = cleanWindow C key coverage now ∧
      Saved A C key ∧ (A.losses.rows = [] → .contextLimit ∉ coverage →
        ∃ report, detectNetwork env.detector inputLimits (contextRows A key) = .ok report ∧
          ∀ id, id ∈ C.book.holds key ↔
            id ∈ selectedIds (contextRows A key) key.2 report.findings) := by
    rw [analyzeWindow] at hanalyze
    dsimp only at hanalyze
    split at hanalyze
    · rename_i hlosses
      refine ⟨_, _, (Except.ok.inj hanalyze).symm, saveStale_saved h.cases.book key _ now, ?_⟩
      intro hnone
      refine absurd ?_ hlosses
      rw [lossesOf, hnone]
      rfl
    · split at hanalyze
      · refine ⟨_, _, (Except.ok.inj hanalyze).symm, saveStale_saved h.cases.book key _ now, ?_⟩
        exact fun _ hlimit => absurd (Finset.mem_insert_self _ _) hlimit
      · rename_i hread
        rw [readContext_take (Bool.not_eq_true _ ▸ hread)] at hanalyze
        obtain ⟨report, hreport, hdone⟩ := bind_eq_ok.mp hanalyze
        obtain ⟨hsaved, hholds⟩ := saveCase_saved h.cases.book
          (distinct_contextRows h.tracked key) peer_of_mem_contextRows hreport
          (windowCoverage ∪ caseNotes report.coverage ∪
            findingNotes (contextRows A key) key.2 report.findings) now
        exact ⟨_, _, (Except.ok.inj hdone).symm, hsaved, fun _ _ => ⟨report, hreport, hholds⟩⟩
  have hsame := hsaved.same
  have hrows : ∀ k, contextRows B k = contextRows A k := by
    intro k
    rw [contextRows, contextRows, hB]
    show List.map _ (List.insertionSort _ (C.context.filter _)) = _
    rw [hsame.context]
  have hwindows : B.windows = DirtyWindow.clean now coverage key A.windows := by
    rw [hB, ← hsame.windows]
    rfl
  have hsome : ∀ k, (B.windows.find? k).isSome = (A.windows.find? k).isSome := by
    intro k
    rw [hwindows, DirtyWindow.find?_clean, Option.isSome_map]
  have hkey : (A.windows.find? key).isSome := by
    rw [DirtyWindow.isDirty] at hdirty
    obtain ⟨w, hw, -⟩ := (Option.any_eq_true _ _).mp hdirty
    rw [hw]
    rfl
  have hbook : B.book = C.book := by rw [hB]; rfl
  have hlosses : B.losses = A.losses := by
    rw [hB]
    exact hsame.losses
  have hcontext : B.context = A.context := by
    rw [hB]
    exact hsame.context
  refine ⟨h.tracked.congr (by rw [hB]; exact hsame.cursor) hcontext hlosses, ?_, ?_, ?_, ?_, ?_⟩
  · intro k w hw
    rw [hwindows] at hw
    obtain ⟨w₀, hw₀, -⟩ := DirtyWindow.find?_of_clean hw
    exact h.cases.hours k w₀ hw₀
  · intro row hrow k hk
    rw [hcontext] at hrow
    rw [hsome k]
    exact h.cases.marked row hrow k hk
  · intro k hk
    rw [hsome k]
    rw [hbook] at hk
    rcases hsaved.keys k hk with rfl | hk
    · exact hkey
    · exact h.cases.cased k hk
  · rw [hbook]
    exact hsaved.right
  · intro hnone k w hw hclean hlimit
    rw [hlosses] at hnone
    by_cases hk : k = key
    · subst hk
      have hcoverage : w.coverage = coverage := by
        rw [hwindows, DirtyWindow.find?_clean, Option.map_eq_some_iff] at hw
        obtain ⟨w₀, hw₀, rfl⟩ := hw
        rw [if_pos (Table.find?_key hw₀)]
      obtain ⟨report, hreport, hholds⟩ := hright hnone (hcoverage ▸ hlimit)
      refine ⟨report, by rw [hrows]; exact hreport, fun id => ?_⟩
      rw [hbook, hrows]
      exact hholds id
    · rw [hwindows] at hw
      obtain ⟨w₀, hw₀, heq⟩ := DirtyWindow.find?_of_clean hw
      rw [heq hk] at hw₀
      refine (h.cases.clean hnone k w hw₀ hclean hlimit).congr (hrows k) fun id => ?_
      rw [hbook]
      exact hsaved.others k hk id

/-! ### Runs -/

/-- The store and the analysis, over the observations accepted so far. -/
structure Inv (env : Env D) (log : List (NetworkEvent D)) (db : Db D) : Prop where
  recorded : Recorded env log db.store
  analysed : Analysed env log db.store db.analysis

theorem inv_empty (env : Env D) : Inv env [] .empty := by
  refine ⟨⟨rfl, ?_, ?_, ?_⟩, ⟨le_rfl, ?_, List.nodup_nil, ?_⟩, ⟨?_, ?_, ?_, ?_, ?_⟩⟩
  · exact fun row hrow => absurd hrow List.not_mem_nil
  · exact fun row hrow => absurd hrow List.not_mem_nil
  · exact fun e he => absurd he List.not_mem_nil
  · exact fun row hrow => absurd hrow List.not_mem_nil
  · exact fun _ i r hget => by simp [Db.empty, Store.empty, Table.empty] at hget
  · exact fun key w hw => by simp [Db.empty, Analysis.empty] at hw
  · exact fun row hrow => absurd hrow List.not_mem_nil
  · exact fun key hkey => by
      simp [Db.empty, Analysis.empty, CaseBook.empty, CaseBook.payload?] at hkey
  · exact ⟨CaseBook.members_empty, fun key payload hkey => by
      simp [Db.empty, Analysis.empty, CaseBook.empty, CaseBook.payload?] at hkey⟩
  · exact fun _ key w hw => by simp [Db.empty, Analysis.empty] at hw

/-- **One transaction.** -/
theorem Inv.next {db : Db D} (h : Inv env log db) (op : Op D) :
    Inv env (log ++ acceptedBy env db op) (next env db op) := by
  cases op with
  | ingest delivery =>
    obtain ⟨new, hnew⟩ := delivered_deliver h.recorded.seqs delivery
    have haccepted : acceptedBy env db (.ingest delivery) = new := hnew.accepted
    rw [haccepted]
    exact ⟨h.recorded.delivered hnew, h.analysed.tracked.delivered hnew, h.analysed.cases⟩
  | takeIn now limit =>
    have hnone : acceptedBy env db (.takeIn now limit) = [] := rfl
    rw [hnone, List.append_nil]
    exact ⟨h.recorded, (h.analysed.intake h.recorded limit).prune _⟩
  | analyze now key =>
    have hnone : acceptedBy env db (.analyze now key) = [] := rfl
    rw [hnone, List.append_nil, Network.next]
    split
    · rename_i hguard
      split
      · rename_i B hB
        exact ⟨h.recorded, h.analysed.analyze (Bool.and_eq_true_iff.mp hguard).2 hB⟩
      · exact h
    · exact h

/-- The observations a run accepts. -/
def accepted (env : Env D) (ops : List (Op D)) : List (NetworkEvent D) :=
  trace (next env) (acceptedBy env) .empty ops

/-- The accepted observations of a group. -/
def acceptedOf (env : Env D) (ops : List (Op D)) (p : Peer D) : List (NetworkEvent D) :=
  (accepted env ops).filter fun e => e.peer = p

/-- **Every run.** -/
theorem inv_run (env : Env D) (ops : List (Op D)) :
    Inv env (accepted env ops) (run (next env) .empty ops) := by
  have h : Inv env ([] ++ trace (next env) (acceptedBy env) .empty ops)
      (run (next env) .empty ops) :=
    trace_invariant (R := Inv env) (Q := fun _ => True) (fun _ _ op _ h => h.next op)
      (fun _ _ => trivial) (inv_empty env)
  rw [List.nil_append] at h
  exact h

/-- In a settled store without losses the context of a window is that of the whole history. -/
theorem Inv.contextRows_perm {db : Db D} (h : Inv env log db) (hsettled : Settled db)
    (hloss : db.analysis.losses.rows = []) (key : WindowKey D) :
    (contextRows db.analysis key).Perm
      ((log.filter fun e => e.peer = key.1).filter (inContext key)) := by
  have hdistinct := h.recorded.distinct
  refine (List.perm_ext_iff_of_nodup
    (List.Nodup.of_map _ (distinct_contextRows h.analysed.tracked key))
    (List.Nodup.of_map _ ((hdistinct.filter _).filter _))).mpr fun e => ?_
  rw [mem_contextRows, List.mem_filter, List.mem_filter, decide_eq_true_iff]
  constructor
  · intro ⟨row, hrow, he, hin⟩
    subst he
    exact ⟨⟨(h.analysed.tracked.context row hrow).1, (inContext_iff.mp hin).1⟩, hin⟩
  · intro ⟨⟨he, _⟩, hin⟩
    -- Its receipt is before the cursor, so it is in the context.
    have hmem : e.key ∈ (db.store.receipts.rows.filter Receipt.isEvent).map Receipt.key := by
      rw [h.recorded.keys]
      exact List.mem_map_of_mem he
    obtain ⟨r, hr, hkey⟩ := List.mem_map.mp hmem
    obtain ⟨hr, hevent⟩ := List.mem_filter.mp hr
    obtain ⟨i, hi⟩ := List.mem_iff_getElem?.mp hr
    have hlt : i < db.analysis.cursor :=
      (List.getElem?_eq_some_iff.mp hi).1.trans_le hsettled.1
    obtain ⟨row, hrow, hseq⟩ := h.analysed.tracked.taken hloss i r hi hlt hevent
    obtain ⟨hlog, j, q, hj, -, hq, hqkey⟩ := h.analysed.tracked.context row hrow
    obtain rfl : i = j := by omega
    rw [hi] at hq
    obtain rfl : r = q := Option.some.inj hq
    exact ⟨row, hrow, hdistinct.eq_of_key hlog he (hqkey.symm.trans hkey), hin⟩

theorem near_inContext {a : NetworkEvent D} {key : WindowKey D} (hpeer : a.peer = key.1)
    (hhour : inHour key.2 e = true) (hmax : a.journalMonotonicUs ≤ maxMonotonicUs)
    (hafter : a.journalMonotonicUs ≤ e.journalMonotonicUs + 300000000)
    (hbefore : e.journalMonotonicUs ≤ a.journalMonotonicUs + 300000000) :
    inContext key a = true := by
  simp only [inHour, Bool.and_eq_true, decide_eq_true_eq] at hhour
  refine inContext_iff.mpr ⟨hpeer, ?_, le_min hmax ?_⟩
  · simp only [contextStart, windowUs]
    omega
  · simp only [hourUs, windowUs] at hhour ⊢
    omega

/-- **Incremental network analysis equals batch analysis.** After every run of deliveries,
intakes and analyses, in a settled store that recorded no loss and whose windows reached no
limit: for every group, the rule over all its accepted observations returns a report, and for
every hour an observation of the hour is in the current evidence of its case exactly when it is
in a finding of the report, everything a case cites is in one, and a case is active exactly when
it cites something. -/
theorem settled_cases_eq_detected (env : Env D) (ops : List (Op D)) (p : Peer D)
    (hsettled : Settled (run (next env) .empty ops))
    (hloss : (run (next env) .empty ops).analysis.losses.rows = [])
    (hlimits : ∀ w ∈ (run (next env) .empty ops).analysis.windows, .contextLimit ∉ w.coverage) :
    ∃ report, detectNetwork env.detector noLimits (acceptedOf env ops p) = .ok report ∧
      ∀ hour, hourUs ∣ hour →
        (∀ e ∈ acceptedOf env ops p, inHour hour e = true →
          (e.eventId ∈ (run (next env) .empty ops).analysis.book.holds (p, hour) ↔
            ∃ f ∈ report.findings, e.eventId ∈ f.evidenceIds)) ∧
        (∀ id ∈ (run (next env) .empty ops).analysis.book.holds (p, hour),
          ∃ f ∈ report.findings, id ∈ f.evidenceIds) ∧
        (∀ payload, (run (next env) .empty ops).analysis.book.payload? (p, hour) = some payload →
          (payload.active = true ↔
            (run (next env) .empty ops).analysis.book.holds (p, hour) ≠ [])) := by
  have h : Inv env (accepted env ops) (run (next env) .empty ops) := inv_run env ops
  obtain ⟨db, hdb⟩ : ∃ db, db = run (next env) .empty ops := ⟨_, rfl⟩
  rw [← hdb] at h hsettled hloss hlimits ⊢
  have hpeer : ∀ e ∈ acceptedOf env ops p, e.peer = p :=
    fun e he => of_decide_eq_true (List.mem_filter.mp he).2
  have hd : Distinct (acceptedOf env ops p) := h.recorded.distinct.filter _
  have hvalid : ∀ e ∈ acceptedOf env ops p, validateEvent env.detector.digests e = .ok () :=
    fun e he => h.recorded.valid e (List.mem_filter.mp he).1
  obtain ⟨report, hreport⟩ := detectNetwork_isOk hd hvalid
  refine ⟨report, hreport, fun hour hdvd => ?_⟩
  have hcontext := h.contextRows_perm hsettled hloss (p, hour)
  have hsub : contextRows db.analysis (p, hour) ⊆ acceptedOf env ops p :=
    fun e he => (List.mem_filter.mp (hcontext.subset he)).1
  have hdc : Distinct (contextRows db.analysis (p, hour)) := distinct_contextRows h.analysed.tracked _
  have hright : ∀ w, db.analysis.windows.find? (p, hour) = some w →
      CaseRight env db.analysis (p, hour) := fun w hw =>
    h.analysed.cases.clean hloss (p, hour) w hw (hsettled.2 w (Table.mem_of_find? hw))
      (hlimits w (Table.mem_of_find? hw))
  refine ⟨fun e he hhour => ?_, fun id hid => ?_, fun payload hpayload => ?_⟩
  · -- The observation has marked its hour, and the window is clean.
    have hmax : e.journalMonotonicUs ≤ maxMonotonicUs := monotonic_of_valid (hvalid e he)
    have hin : inContext (p, hour) e = true :=
      near_inContext (hpeer e he) hhour hmax (by omega) (by omega)
    have hec : e ∈ contextRows db.analysis (p, hour) :=
      hcontext.mem_iff.mpr (List.mem_filter.mpr ⟨he, hin⟩)
    obtain ⟨row, hrow, hevent, -⟩ := mem_contextRows.mp hec
    have hhourmax : hour ≤ maxMonotonicUs := by
      simp only [inHour, Bool.and_eq_true, decide_eq_true_eq] at hhour
      omega
    have hmarked := h.analysed.cases.marked row hrow (p, hour)
      (hevent ▸ mem_windowsOf hdvd hhourmax hin)
    obtain ⟨w, hw⟩ := Option.isSome_iff_exists.mp hmarked
    obtain ⟨found, hfound, hids⟩ := hright w hw
    rw [hids, mem_selected_of_hour hdc peer_of_mem_contextRows hfound hec hhour,
      detectNetwork_findings hd hpeer hreport]
    constructor
    · exact fun hprobed => ⟨e, he, rfl, hprobed.mono hsub⟩
    · intro ⟨a, ha, hid, hprobed⟩
      rw [hd.eq_of_eventId hpeer ha he hid] at hprobed
      refine hprobed.of_near hpeer fun b hb hafter hbefore => ?_
      refine hcontext.mem_iff.mpr (List.mem_filter.mpr ⟨hb, ?_⟩)
      exact near_inContext (hpeer b hb) hhour (monotonic_of_valid (hvalid b hb)) hafter hbefore
  · obtain ⟨payload, hpayload, -⟩ := (h.analysed.cases.book.members (p, hour) id).mp hid
    obtain ⟨w, hw⟩ := Option.isSome_iff_exists.mp
      (h.analysed.cases.cased (p, hour) (by rw [hpayload]; rfl))
    obtain ⟨found, hfound, hids⟩ := hright w hw
    obtain ⟨e, he, hide, hprobed⟩ :=
      probed_of_selected hdc peer_of_mem_contextRows hfound ((hids id).mp hid)
    exact (detectNetwork_findings hd hpeer hreport).mpr ⟨e, hsub he, hide, hprobed.mono hsub⟩
  · have hsound : payload.active = true ↔ payload.ids ≠ [] :=
      h.analysed.cases.book.sound (p, hour) payload hpayload
    rw [hsound, Ne, Ne, List.eq_nil_iff_forall_not_mem, List.eq_nil_iff_forall_not_mem]
    simp only [h.analysed.cases.book.members.of_payload hpayload]

/-! #### Ten packets around the end of an hour -/

/-- The sample host with its outward interface. -/
def gatewayProfile : SourceProfile :=
  { sampleProfile with
    localInputLabels := ["[UFW BLOCK]".toList]
    localInputInterfaces := ["eth0".toList] }

/-- The digests of the sample, and short records. -/
def sampleEnv : Env Nat := ⟨sampleWire, ⟨14, 100, 100, 100⟩, fun _ => 400, fun _ => 400⟩

/-- A rejected packet to a port of the gateway. -/
def probeEvent (port : Nat) : NetworkEvent Nat :=
  let content : Content Nat :=
    { sampleContent [Char.ofNat (65 + port)] port with
      journalMonotonicUs := 3500000000 + port * 20000000
      direction := .localInput
      observationPoint := .localInput
      coverage := ∅ }
  { content with
    eventId := sampleWire.identity "edge-1".toList (List.replicate 32 'b') [Char.ofNat (65 + port)]
    contentHash := sampleWire.content content }

/-- Ten packets to ten ports, across the end of the first hour. -/
def probeBatch : Batch Nat :=
  sampleBatch "b1".toList none (some [Char.ofNat 74])
    ((List.range 10).map fun port => .event (probeEvent port))

/-- The group of the packets. -/
def probePeer : Peer Nat :=
  ⟨"edge-1".toList, List.replicate 32 'b', textNumber "edge-1".toList, "10.0.0.9".toList, "10.0.0.1".toList⟩

/-- The packets arrive and both hours are analysed. -/
def probeOps : List (Op Nat) :=
  [.ingest ⟨gatewayProfile, 1000000, probeBatch⟩, .takeIn 1 200, .analyze 1 (probePeer, 0),
    .analyze 1 (probePeer, 3600000000)]

theorem settled_cases_eq_detected_probe :
    ((run (next sampleEnv) .empty probeOps).analysis.book.holds (probePeer, hourUs)).length = 10 ∧
    ∃ report, detectNetwork sampleEnv.detector noLimits (acceptedOf sampleEnv probeOps probePeer) =
        .ok report ∧
      ∀ hour, hourUs ∣ hour →
        (∀ e ∈ acceptedOf sampleEnv probeOps probePeer, inHour hour e = true →
          (e.eventId ∈ (run (next sampleEnv) .empty probeOps).analysis.book.holds (probePeer, hour) ↔
            ∃ f ∈ report.findings, e.eventId ∈ f.evidenceIds)) ∧
        (∀ id ∈ (run (next sampleEnv) .empty probeOps).analysis.book.holds (probePeer, hour),
          ∃ f ∈ report.findings, id ∈ f.evidenceIds) ∧
        (∀ payload, (run (next sampleEnv) .empty probeOps).analysis.book.payload?
            (probePeer, hour) = some payload →
          (payload.active = true ↔ (run (next sampleEnv) .empty probeOps).analysis.book.holds
            (probePeer, hour) ≠ [])) := by
  have hclean : ∀ w ∈ (run (next sampleEnv) .empty probeOps).analysis.windows.rows,
      w.dirty = false ∧ .contextLimit ∉ w.coverage := by
    decide +kernel
  have hsettled : Settled (run (next sampleEnv) .empty probeOps) :=
    ⟨by decide +kernel, fun w hw => (hclean w hw).1⟩
  have hloss : (run (next sampleEnv) .empty probeOps).analysis.losses.rows.length = 0 := by
    decide +kernel
  have hheld : ((run (next sampleEnv) .empty probeOps).analysis.book.holds
      (probePeer, hourUs)).length = 10 := by
    decide +kernel
  exact ⟨hheld, settled_cases_eq_detected sampleEnv probeOps probePeer hsettled
    (List.eq_nil_of_length_eq_zero hloss) fun w hw => (hclean w hw).2⟩

/-! ### `process` is a run -/

theorem analyzeWindows_eq_run {limit : Nat} (db : Db D)
    (h : analyzeWindows env now limit db.analysis = .ok B) :
    ∃ ops, run (next env) db ops = { db with analysis := B } := by
  induction limit generalizing db with
  | zero =>
    cases h
    exact ⟨[], rfl⟩
  | succ limit ih =>
    rw [analyzeWindows] at h
    split at h
    · cases h
      exact ⟨[], rfl⟩
    · rename_i hdrained
      split at h
      · cases h
        exact ⟨[], rfl⟩
      · rename_i key hkey
        obtain ⟨C, hC, hrest⟩ := bind_eq_ok.mp h
        obtain ⟨ops, hrun⟩ := ih { db with analysis := C } hrest
        refine ⟨.analyze now key :: ops, ?_⟩
        have hguard : (drained db.analysis && DirtyWindow.isDirty db.analysis.windows key) = true := by
          rw [DirtyWindow.isDirty_of_next? hkey, Bool.and_true]
          simpa using hdrained
        have hstep : next env db (.analyze now key) = { db with analysis := C } := by
          rw [next, if_pos hguard, hC]
        rw [run_cons, hstep, hrun]

/-- **`process` takes its transactions one after the other.** -/
theorem process_eq_run {intakeLimit windowLimit : Nat} {db db' : Db D}
    (h : process env now intakeLimit windowLimit db = .ok db') :
    ∃ ops, run (next env) db ops = db' := by
  rw [process] at h
  split at h
  · cases h
  · obtain ⟨B, hB, hend⟩ := bind_eq_ok.mp h
    obtain ⟨ops, hrun⟩ :=
      analyzeWindows_eq_run { db with analysis := takeIn env now intakeLimit db } hB
    refine ⟨.takeIn now intakeLimit :: ops, ?_⟩
    rw [run_cons]
    show run (next env) { db with analysis := takeIn env now intakeLimit db } ops = db'
    rw [hrun]
    exact Except.ok.inj hend

end RiskOps.Telemetry.Network
