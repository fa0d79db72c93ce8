import RiskOps.Lib.CaseHistory
import RiskOps.Telemetry.HttpDelivery
import RiskOps.Telemetry.NetworkRuns

/-!
# RiskOps.Telemetry.CaseRevisions — case revisions are immutable history

Model of `evidence` of `telemetry/network_incidents.py` and `telemetry/http_incidents.py`: **every
revision of a case can be read back as it was written.** The rows whose stay contains the revision
are as many as the payload says, and their content in evidence order is the evidence the payload
was computed from, whatever was analysed since.

Content is never overwritten, so a row that leaves a case and comes back could only be wrong if a
second observation had the same id; receipts exclude that.
-/

namespace RiskOps.Telemetry.Network

open RiskOps.Lib

variable {D : Type} [LinearOrder D] {env : Env D} {log : List (NetworkEvent D)} {s : Store D}
  {A : Analysis D} {now : ℚ}

/-- The content of `network_evidence`. -/
def Analysis.content (A : Analysis D) (key : WindowKey D) (id : D) : Option (NetworkEvent D) :=
  (A.evidence.find? (key, id)).map Evidence.event

/-- `total` of `evidence`: the rows whose stay contains the revision. -/
def evidenceTotal (A : Analysis D) (key : WindowKey D) (revision : Nat) : Nat :=
  (Member.heldAt A.book.membership key revision).length

/-- All `items` of `evidence`, `ORDER BY e.monotonic_us,e.event_id`. -/
def evidenceItems (A : Analysis D) (key : WindowKey D) (revision : Nat) : List (NetworkEvent D) :=
  ((Member.heldAt A.book.membership key revision).filterMap (A.content key)).insertionSort
    fun a b => a.caseOrder ≤ b.caseOrder

/-- An accepted observation of the group. -/
def Possible (log : List (NetworkEvent D)) (key : WindowKey D) (e : NetworkEvent D) : Prop :=
  e ∈ log ∧ e.peer = key.1

/-- Every revision held what its payload lists, in evidence order, and counts it. -/
structure Revised (log : List (NetworkEvent D)) (A : Analysis D) : Prop where
  history : A.book.History NetworkEvent.eventId Payload.evidence A.content
  possible : ∀ row ∈ A.evidence, Possible log row.key row.event
  counted : ∀ x ∈ A.book.revisions, x.2.2.evidenceCount = x.2.2.evidence.length
  sorted : ∀ x ∈ A.book.revisions, x.2.2.evidence.Pairwise fun a b => a.caseOrder ≤ b.caseOrder

omit [LinearOrder D] in
theorem Possible.unique (hd : Distinct log) (key : WindowKey D) (a b : NetworkEvent D)
    (ha : Possible log key a) (hb : Possible log key b) (hid : a.eventId = b.eventId) : a = b := by
  have hpeer : a.peer = b.peer := ha.2.trans hb.2.symm
  exact hd.eq_of_key ha.1 hb.1 (Prod.ext (congrArg Peer.sourceId hpeer) hid)

theorem Revised.of_log {more : List (NetworkEvent D)} (h : Revised log A) :
    Revised (log ++ more) A :=
  ⟨h.history, fun row hrow => (h.possible row hrow).imp_left (List.mem_append_left _), h.counted,
    h.sorted⟩

omit [LinearOrder D] in
/-- Only these columns matter. -/
theorem Revised.congr [LinearOrder D] {B : Analysis D} (h : Revised log A)
    (hbook : B.book = A.book) (hevidence : B.evidence = A.evidence) : Revised log B := by
  have hcontent : B.content = A.content := by
    funext key id
    rw [Analysis.content, Analysis.content, hevidence]
  exact ⟨by rw [hbook, hcontent]; exact h.history, by rw [hevidence]; exact h.possible,
    by rw [hbook]; exact h.counted, by rw [hbook]; exact h.sorted⟩

/-! ### Saving a case -/

theorem Revised.saveCase {key : WindowKey D} {events : List (NetworkEvent D)} {det : Detector D}
    {limits : InputLimits} {report : NetworkReport D} (h : Revised log A) (hlog : Distinct log)
    (hmem : ∀ e ∈ events, e ∈ log) (hd : Distinct events) (hpeer : ∀ e ∈ events, e.peer = key.1)
    (hreport : detectNetwork det limits events = .ok report) (coverage : Finset Note) (now : ℚ) :
    Revised log (saveCase A key coverage events report.findings now) := by
  rw [Network.saveCase]
  split
  · exact h
  · rw [storeCase]
    split
    · exact h
    · have hlookup : ∀ id ∈ selectedIds events key.2 report.findings,
          ∃ e, lookup events id = some e ∧ e.eventId = id ∧ Possible log key e := by
        intro id hid
        obtain ⟨e, he, rfl, -⟩ := probed_of_selected hd hpeer hreport hid
        exact ⟨e, lookup_eventId hd hpeer he, rfl, hmem e he, hpeer e he⟩
      have hnodup : (selectedIds events key.2 report.findings).Nodup := List.nodup_dedup _
      have hlisted : (completePayload key coverage events report.findings
          (A.book.payload? key)).evidence.Perm
            ((selectedIds events key.2 report.findings).filterMap (lookup events)) :=
        List.perm_insertionSort _ _
      have hfresh : ∀ id, id ∈ (selectedIds events key.2 report.findings).filter
          (fun id => id ∉ A.book.holds key) ↔
            id ∈ selectedIds events key.2 report.findings ∧ id ∉ A.book.holds key := by
        simp
      obtain ⟨hhistory, hpossible⟩ := CaseBook.History.storeLookup (Evidence.mk key)
        h.history (Possible.unique hlog) h.possible (fun _ => ⟨rfl, rfl⟩) hnodup hlookup hlisted
        hfresh now
      have hnew := (CaseBook.revisions_revise A.book key (completePayload key coverage events
        report.findings (A.book.payload? key)) (some (selectedIds events key.2 report.findings)) now).2
      refine ⟨hhistory, hpossible, fun x hx => ?_, fun x hx => ?_⟩
      · rcases hnew x hx with hx | hx
        · exact h.counted x hx
        · have hnames := CaseBook.map_filterMap_lookup fun id hid =>
            (hlookup id hid).imp fun _ he => ⟨he.1, he.2.1⟩
          rw [hx, hlisted.length_eq, ← List.length_map NetworkEvent.eventId, hnames]
          rfl
      · rcases hnew x hx with hx | hx
        · exact h.sorted x hx
        · rw [hx]
          exact List.pairwise_insertionSort _ _

theorem Revised.saveStale (h : Revised log A) (key : WindowKey D) (coverage : Finset Note)
    (now : ℚ) : Revised log (saveStale A key coverage now) := by
  rw [Network.saveStale]
  split
  · exact h
  · rename_i old hold
    rw [storeCase]
    split
    · exact h
    · obtain ⟨last, -, hmem⟩ := h.history.last key old hold
      have hnew := (CaseBook.revisions_revise A.book key (stalePayload coverage old) none now).2
      have hlisted : (stalePayload coverage old).evidence = old.evidence := rfl
      refine ⟨h.history.revise_none hold hlisted now, h.possible, fun x hx => ?_, fun x hx => ?_⟩
      · rcases hnew x hx with hx | hx
        · exact h.counted x hx
        · rw [hx]
          exact h.counted _ hmem
      · rcases hnew x hx with hx | hx
        · exact h.sorted x hx
        · rw [hx]
          exact h.sorted _ hmem

/-! ### Runs -/

theorem Revised.analyze {B : Analysis D} {key : WindowKey D} (h : Revised log A)
    (hs : Recorded env log s) (ht : Tracked log s A)
    (hanalyze : analyzeWindow env A key now = .ok B) : Revised log B := by
  rw [analyzeWindow] at hanalyze
  dsimp only at hanalyze
  split at hanalyze
  · rw [← Except.ok.inj hanalyze]
    exact (h.saveStale key _ now).congr rfl rfl
  · split at hanalyze
    · rw [← Except.ok.inj hanalyze]
      exact (h.saveStale key _ now).congr rfl rfl
    · rename_i hread
      rw [readContext_take (Bool.not_eq_true _ ▸ hread)] at hanalyze
      obtain ⟨report, hreport, hdone⟩ := bind_eq_ok.mp hanalyze
      rw [← Except.ok.inj hdone]
      refine (h.saveCase hs.distinct (fun e he => ?_) (distinct_contextRows ht key)
        peer_of_mem_contextRows hreport _ now).congr rfl rfl
      obtain ⟨row, hrow, rfl, -⟩ := mem_contextRows.mp he
      exact (ht.context row hrow).1

/-- The cases and their evidence are those of `A`. -/
def SameCases (A B : Analysis D) : Prop := B.book = A.book ∧ B.evidence = A.evidence

theorem intakeReceipt_sameCases {B : Analysis D} (h : SameCases A B) (row : Receipt D × Nat) :
    SameCases A (intakeReceipt s now B row) := by
  rw [intakeReceipt]
  dsimp only
  split
  · split
    · exact h
    · exact h
  · exact h

/-- An intake leaves the cases and their evidence alone. -/
theorem takeIn_sameCases (env : Env D) (now : ℚ) (limit : Nat) (db : Db D) :
    SameCases db.analysis (takeIn env now limit db) := by
  rw [takeIn, pruneContext]
  refine List.foldlRecOn (motive := SameCases db.analysis) _ _ ?_ (fun _ hB _ _ => hB)
  rw [intake]
  refine List.foldlRecOn (motive := SameCases db.analysis) _ _ ?_ (fun _ hB _ _ => hB)
  refine List.foldlRecOn (motive := SameCases db.analysis) _ _ ⟨rfl, rfl⟩ ?_
  exact fun _ hB row _ => intakeReceipt_sameCases hB row

theorem Revised.next {db : Db D} (hinv : Inv env log db) (h : Revised log db.analysis) (op : Op D) :
    Revised (log ++ acceptedBy env db op) (next env db op).analysis := by
  cases op with
  | ingest delivery => exact h.of_log
  | takeIn now limit =>
    obtain ⟨hbook, hevidence⟩ := takeIn_sameCases env now limit db
    exact (h.congr hbook hevidence).of_log
  | analyze now key =>
    refine Revised.of_log ?_
    rw [Network.next]
    split
    · split
      · rename_i B hB
        exact h.analyze hinv.recorded hinv.analysed.tracked hB
      · exact h
    · exact h

theorem storeCase_revisions (A : Analysis D) (key : WindowKey D) (payload : Payload D)
    (events : List (NetworkEvent D)) (selected : Option (List D)) (now : ℚ) :
    A.book.revisions <+: (storeCase A key payload events selected now).book.revisions := by
  rw [storeCase_book]
  exact (CaseBook.revisions_revise _ _ _ _ _).1

theorem saveStale_revisions (A : Analysis D) (key : WindowKey D) (coverage : Finset Note) (now : ℚ) :
    A.book.revisions <+: (saveStale A key coverage now).book.revisions := by
  rw [saveStale]
  split
  · exact List.prefix_rfl
  · exact storeCase_revisions _ _ _ _ _ _

theorem saveCase_revisions (A : Analysis D) (key : WindowKey D) (coverage : Finset Note)
    (events : List (NetworkEvent D)) (findings : List (NetworkFinding D)) (now : ℚ) :
    A.book.revisions <+: (saveCase A key coverage events findings now).book.revisions := by
  rw [saveCase]
  split
  · exact List.prefix_rfl
  · exact storeCase_revisions _ _ _ _ _ _

/-- Revisions are only added. -/
theorem revisions_next (env : Env D) (db : Db D) (op : Op D) :
    db.analysis.book.revisions <+: (next env db op).analysis.book.revisions := by
  cases op with
  | ingest delivery => exact List.prefix_rfl
  | takeIn now limit =>
    show _ <+: (takeIn env now limit db).book.revisions
    rw [(takeIn_sameCases env now limit db).1]
  | analyze now key =>
    rw [next]
    split
    · split
      · rename_i B hB
        rw [analyzeWindow] at hB
        dsimp only at hB
        split at hB
        · rw [← Except.ok.inj hB]
          exact saveStale_revisions _ _ _ _
        · split at hB
          · rw [← Except.ok.inj hB]
            exact saveStale_revisions _ _ _ _
          · obtain ⟨report, -, hdone⟩ := bind_eq_ok.mp hB
            rw [← Except.ok.inj hdone]
            exact saveCase_revisions _ _ _ _ _ _
      · exact List.prefix_rfl
    · exact List.prefix_rfl

theorem revised_empty : Revised [] (Analysis.empty : Analysis D) :=
  ⟨CaseBook.history_empty, fun row hrow => absurd hrow (Table.not_mem_empty row),
    fun _ hx => absurd hx List.not_mem_nil, fun _ hx => absurd hx List.not_mem_nil⟩

theorem revised_run (env : Env D) (ops : List (Op D)) :
    Revised (accepted env ops) (run (next env) .empty ops).analysis := by
  have h : Inv env ([] ++ trace (next env) (acceptedBy env) .empty ops)
      (run (next env) .empty ops) ∧ Revised ([] ++ trace (next env) (acceptedBy env) .empty ops)
        (run (next env) .empty ops).analysis :=
    trace_invariant (R := fun log db => Inv env log db ∧ Revised log db.analysis)
      (Q := fun _ => True) (fun _ _ op _ h => ⟨h.1.next op, h.2.next h.1 op⟩)
      (fun _ _ => trivial) ⟨inv_empty env, revised_empty⟩
  exact h.2

/-- A revision reads back as it was written. -/
theorem Revised.evidenceItems_eq (h : Revised log A) {key : WindowKey D} {r : Nat}
    {payload : Payload D} (hx : (key, r, payload) ∈ A.book.revisions) :
    evidenceItems A key r = payload.evidence := by
  refine h.history.read_eq hx (fun a b hab => ?_) (h.sorted _ hx)
  exact (Prod.ext_iff.mp (toLex.injective hab)).2

/-- Every revision reads back as it was written, now and after every later transaction. -/
theorem revisions_stand (env : Env D) (ops later : List (Op D)) {key : WindowKey D} {r : Nat}
    {payload : Payload D}
    (h : (key, r, payload) ∈ (run (next env) .empty ops).analysis.book.revisions) :
    evidenceTotal (run (next env) .empty ops).analysis key r = payload.evidenceCount ∧
      evidenceItems (run (next env) .empty ops).analysis key r = payload.evidence ∧
      (∀ other, (key, r, other) ∈ (run (next env) .empty (ops ++ later)).analysis.book.revisions ↔
        other = payload) ∧
      (Member.heldAt (run (next env) .empty (ops ++ later)).analysis.book.membership key r).Perm
        (Member.heldAt (run (next env) .empty ops).analysis.book.membership key r) := by
  have hnow := revised_run env ops
  have hlater := revised_run env (ops ++ later)
  have hsub : (run (next env) .empty ops).analysis.book.revisions <+:
      (run (next env) .empty (ops ++ later)).analysis.book.revisions := by
    rw [run_append]
    exact run_preserves (P := fun db : Db D =>
        (run (next env) .empty ops).analysis.book.revisions <+: db.analysis.book.revisions)
      (fun db op hdb => hdb.trans (revisions_next env db op)) List.prefix_rfl
  refine ⟨?_, hnow.evidenceItems_eq h, hnow.history.later hlater.history hsub h⟩
  · have hperm := (hnow.history.held _ h).length_eq
    rw [List.length_map, ← hnow.counted _ h] at hperm
    exact hperm

end RiskOps.Telemetry.Network

namespace RiskOps.Telemetry.Http

open RiskOps.Lib

variable {env : Env} {cutoff : ℚ} {log : List HttpEvent} {A : Analysis} {now : ℚ}

/-- The content of `http_evidence`. -/
def Analysis.content (A : Analysis) (key : WindowKey) (id : List Char) : Option HttpEvent :=
  (A.evidence.find? (key, id)).map Evidence.event

/-- `total` of `evidence`: the rows whose stay contains the revision. -/
def evidenceTotal (A : Analysis) (key : WindowKey) (revision : Nat) : Nat :=
  (Member.heldAt A.book.membership key revision).length

/-- All `items` of `evidence`, `ORDER BY e.event_ts,e.event_id`. -/
def evidenceItems (A : Analysis) (key : WindowKey) (revision : Nat) : List HttpEvent :=
  ((Member.heldAt A.book.membership key revision).filterMap (A.content key)).insertionSort
    fun a b => a.caseOrder ≤ b.caseOrder

/-- An accepted record of the peer. -/
def Possible (log : List HttpEvent) (key : WindowKey) (e : HttpEvent) : Prop :=
  e ∈ log ∧ e.peer = key.1

/-- Every revision held what its payload lists, in evidence order, and counts it. -/
structure Revised (log : List HttpEvent) (A : Analysis) : Prop where
  history : A.book.History HttpEvent.eventId Payload.evidence A.content
  possible : ∀ row ∈ A.evidence, Possible log row.key row.event
  counted : ∀ x ∈ A.book.revisions, x.2.2.assessment.evidenceCount = x.2.2.evidence.length
  sorted : ∀ x ∈ A.book.revisions, x.2.2.evidence.Pairwise fun a b => a.caseOrder ≤ b.caseOrder

theorem Possible.unique (hd : Apart log) (key : WindowKey) (a b : HttpEvent)
    (ha : Possible log key a) (hb : Possible log key b) (hid : a.eventId = b.eventId) : a = b := by
  obtain ⟨i, hi⟩ := List.mem_iff_getElem?.mp ha.1
  obtain ⟨j, hj⟩ := List.mem_iff_getElem?.mp hb.1
  have hpeer : a.peer = b.peer := ha.2.trans hb.2.symm
  have hij := hd.eq_index hi hj hpeer (Prod.ext (Prod.ext_iff.mp hpeer).1 hid)
  rw [hij, hj] at hi
  exact (Option.some.inj hi).symm

theorem Revised.of_log {more : List HttpEvent} (h : Revised log A) : Revised (log ++ more) A :=
  ⟨h.history, fun row hrow => (h.possible row hrow).imp_left (List.mem_append_left _), h.counted,
    h.sorted⟩

/-- Only these columns matter. -/
theorem Revised.congr {B : Analysis} (h : Revised log A) (hbook : B.book = A.book)
    (hevidence : B.evidence = A.evidence) : Revised log B := by
  have hcontent : B.content = A.content := by
    funext key id
    rw [Analysis.content, Analysis.content, hevidence]
  exact ⟨by rw [hbook, hcontent]; exact h.history, by rw [hevidence]; exact h.possible,
    by rw [hbook]; exact h.counted, by rw [hbook]; exact h.sorted⟩

/-! ### Saving a case -/

theorem Revised.saveComplete {key : WindowKey} {events : List HttpEvent} {fs : List WebFinding}
    {casefold : List Char → List Char} (h : Revised log A) (hlog : Apart log)
    (hmem : ∀ e ∈ events, e ∈ log) (hpeer : ∀ e ∈ events, e.peer = key.1) (hd : Distinct events)
    (hfs : detectWeb casefold events = .ok fs) (now : ℚ) :
    Revised log (saveCase A key .complete events fs now) := by
  have hsave : saveCase A key .complete events fs now =
      if (selectedIds events key.2 fs).isEmpty ∧ (A.book.payload? key).isNone then A
      else storeCase A key (completePayload key events fs (A.book.payload? key)) events
        (some (selectedIds events key.2 fs)) now := rfl
  rw [hsave]
  split
  · exact h
  · rw [storeCase]
    split
    · exact h
    · have hlookup : ∀ id ∈ selectedIds events key.2 fs,
          ∃ e, lookup events id = some e ∧ e.eventId = id ∧ Possible log key e := by
        intro id hid
        obtain ⟨rule, hrule⟩ := mem_selectedIds.mp hid
        obtain ⟨g, hg, -, e, he, rfl⟩ := (mem_ruleIds_iff hpeer hd hfs).mp hrule
        have hin : e ∈ events := mem_sortRows.mp (hg.mem_rows he)
        exact ⟨e, lookup_eventId hpeer hd hin, rfl, hmem e hin, hpeer e hin⟩
      have hnodup : (selectedIds events key.2 fs).Nodup := List.nodup_dedup _
      have hlisted : (completePayload key events fs (A.book.payload? key)).evidence.Perm
          ((selectedIds events key.2 fs).filterMap (lookup events)) :=
        List.perm_insertionSort _ _
      have hfresh : ∀ id, id ∈ (selectedIds events key.2 fs).filter
          (fun id => id ∉ A.book.holds key) ↔
            id ∈ selectedIds events key.2 fs ∧ id ∉ A.book.holds key := by
        simp
      obtain ⟨hhistory, hpossible⟩ := CaseBook.History.storeLookup (Evidence.mk key)
        h.history (Possible.unique hlog) h.possible (fun _ => ⟨rfl, rfl⟩) hnodup hlookup hlisted
        hfresh now
      have hnew := (CaseBook.revisions_revise A.book key (completePayload key events fs
        (A.book.payload? key)) (some (selectedIds events key.2 fs)) now).2
      refine ⟨hhistory, hpossible, fun x hx => ?_, fun x hx => ?_⟩
      · rcases hnew x hx with hx | hx
        · exact h.counted x hx
        · have hnames := CaseBook.map_filterMap_lookup fun id hid =>
            (hlookup id hid).imp fun _ he => ⟨he.1, he.2.1⟩
          rw [hx, hlisted.length_eq, ← List.length_map HttpEvent.eventId, hnames]
          rfl
      · rcases hnew x hx with hx | hx
        · exact h.sorted x hx
        · rw [hx]
          exact List.pairwise_insertionSort _ _

theorem Revised.storeStale {key : WindowKey} {old : Payload} (h : Revised log A)
    (hold : A.book.payload? key = some old) (coverage : Coverage) (events : List HttpEvent)
    (now : ℚ) : Revised log (storeCase A key (stalePayload coverage old) events none now) := by
  rw [storeCase]
  split
  · exact h
  · obtain ⟨last, -, hmem⟩ := h.history.last key old hold
    have hnew := (CaseBook.revisions_revise A.book key (stalePayload coverage old) none now).2
    have hlisted : (stalePayload coverage old).evidence = old.evidence := rfl
    refine ⟨h.history.revise_none hold hlisted now, h.possible, fun x hx => ?_, fun x hx => ?_⟩
    · rcases hnew x hx with hx | hx
      · exact h.counted x hx
      · rw [hx]
        exact h.counted _ hmem
    · rcases hnew x hx with hx | hx
      · exact h.sorted x hx
      · rw [hx]
        exact h.sorted _ hmem

theorem Revised.saveStale {key : WindowKey} {coverage : Coverage} (h : Revised log A)
    (hcoverage : coverage ≠ .complete) (events : List HttpEvent) (fs : List WebFinding) (now : ℚ) :
    Revised log (saveCase A key coverage events fs now) := by
  rw [saveCase.eq_def]
  split
  · exact absurd rfl hcoverage
  · exact h
  · rename_i hold
    exact h.storeStale hold _ _ _

theorem Revised.analyze {B : Analysis} {key : WindowKey} (h : Revised log A) (hapart : Apart log)
    (ht : Tracked cutoff log A) (hanalyze : analyzeWindow env A key now = .ok B) :
    Revised log B := by
  rw [analyzeWindow] at hanalyze
  obtain ⟨fs, hfs, hB⟩ := bind_eq_ok.mp hanalyze
  rw [← Except.ok.inj hB]
  by_cases hcomplete : (readWindow env A key now).2 = .complete
  · obtain ⟨hread, -⟩ := readWindow_complete hcomplete
    rw [windowFindings, hcomplete, if_pos rfl, hread] at hfs
    rw [hcomplete, hread]
    refine (h.saveComplete hapart (fun e he => ?_) peer_of_mem_contextRows
      (distinct_contextRows ht hapart key) hfs now).congr rfl rfl
    obtain ⟨row, hrow, rfl⟩ := List.mem_map.mp he
    rw [List.mem_insertionSort, List.mem_filter] at hrow
    obtain ⟨i, -, -, hget⟩ := ht.context row hrow.1
    exact List.mem_of_getElem? hget
  · exact (h.saveStale hcomplete _ fs now).congr rfl rfl

/-! ### Runs -/

/-- The state between two transactions, whatever the clock shows: some cutoff is late enough for
everything retention has dropped. -/
structure Known (db : Db) : Prop where
  streamed : Streamed db.receipts
  tracked : ∃ cutoff, Tracked cutoff (accepted db) db.analysis
  revised : Revised (accepted db) db.analysis

theorem known_empty : Known .empty := by
  refine ⟨(inv_empty ⟨id, fun _ => 0, 0⟩ 0).streamed, ⟨_, (inv_empty ⟨id, fun _ => 0, 0⟩ 0).tracked⟩,
    CaseBook.history_empty, fun row hrow => absurd hrow (Table.not_mem_empty row),
    fun x hx => absurd hx List.not_mem_nil, fun x hx => absurd hx List.not_mem_nil⟩

theorem analyzeWindow_sameInput {B : Analysis} {key : WindowKey}
    (h : analyzeWindow env A key now = .ok B) : B.events = A.events ∧ B.eventSeq = A.eventSeq ∧
      B.cursor = A.cursor ∧ B.context = A.context := by
  rw [analyzeWindow] at h
  obtain ⟨fs, -, hB⟩ := bind_eq_ok.mp h
  have hsame := saveCase_sameInput A key (readWindow env A key now).2 (readWindow env A key now).1
    fs now
  rw [← Except.ok.inj hB]
  exact ⟨hsame.events, hsame.eventSeq, hsame.cursor, hsame.context⟩

/-- An intake leaves the cases and their evidence alone. -/
theorem intake_sameCases (now : ℚ) (limit : Nat) (A : Analysis) :
    (intake now limit A).2.book = A.book ∧ (intake now limit A).2.evidence = A.evidence := by
  have hfold : ((intakeRows A limit).foldl (intakeRow now) A).book = A.book ∧
      ((intakeRows A limit).foldl (intakeRow now) A).evidence = A.evidence :=
    List.foldlRecOn (motive := fun B : Analysis => B.book = A.book ∧ B.evidence = A.evidence) _ _ ⟨rfl, rfl⟩
      (fun _ hB _ _ => hB)
  rw [intake]
  dsimp only
  split
  · exact hfold
  · exact hfold

/-- A batch that is stored extends the log; one that is refused or known changes nothing. -/
theorem Known.ingest {db db' : Db} {batch : HttpBatch} {response : Response} (h : Known db)
    (hok : ingest env now batch db = .ok (response, db')) : Known db' := by
  rw [Http.ingest] at hok
  obtain ⟨-, -, hok⟩ := bind_eq_ok.mp hok
  split at hok
  · split at hok
    · cases hok
      exact h
    · cases hok
  · obtain ⟨cutoff, htracked⟩ := h.tracked
    obtain ⟨hstreamed, htracked', ⟨new, hnew⟩, hsame⟩ :=
      (htracked.mono (le_max_left cutoff (env.cutoff now))).ingestFresh h.streamed
        (le_max_right _ _) hok
    refine ⟨hstreamed, ⟨_, htracked'⟩, ?_⟩
    rw [hnew]
    exact h.revised.of_log.congr (by rw [hsame]) (by rw [hsame])

/-- **One transaction.** -/
theorem Known.next {db : Db} (h : Known db) (env : Env) (s : Step) : Known (next env db s) := by
  obtain ⟨now, op⟩ := s
  obtain ⟨cutoff, htracked⟩ := h.tracked
  cases op with
  | ingest batch =>
    rw [Http.next]
    dsimp only
    split
    · rename_i hok
      exact h.ingest hok
    · exact h
  | intake limit =>
    obtain ⟨hbook, hevidence⟩ := intake_sameCases now limit db.analysis
    exact ⟨h.streamed, ⟨cutoff, htracked.intake limit⟩, h.revised.congr hbook hevidence⟩
  | analyze key =>
    rw [Http.next]
    dsimp only
    split
    · split
      · rename_i B hB
        refine ⟨h.streamed, ⟨cutoff, ?_⟩, h.revised.analyze h.streamed.apart htracked hB⟩
        have hsame := analyzeWindow_sameInput hB
        exact htracked.congr hsame.1 hsame.2.1 hsame.2.2.1 hsame.2.2.2
      · exact h
    · exact h
  | prune =>
    exact ⟨h.streamed, ⟨_, (htracked.mono (le_max_left cutoff (env.cutoff now))).prune
      (le_max_right _ _)⟩, h.revised.congr rfl rfl⟩

theorem known_run (env : Env) (steps : List Step) : Known (run (next env) .empty steps) :=
  run_preserves (fun _ s h => h.next env s) known_empty

theorem storeCase_revisions (A : Analysis) (key : WindowKey) (payload : Payload)
    (events : List HttpEvent) (selected : Option (List (List Char))) (now : ℚ) :
    A.book.revisions <+: (storeCase A key payload events selected now).book.revisions := by
  rw [storeCase_book]
  exact (CaseBook.revisions_revise _ _ _ _ _).1

theorem saveCase_revisions (A : Analysis) (key : WindowKey) (coverage : Coverage)
    (events : List HttpEvent) (findings : List WebFinding) (now : ℚ) :
    A.book.revisions <+: (saveCase A key coverage events findings now).book.revisions := by
  rw [saveCase.eq_def]
  split
  · dsimp only
    split
    · exact List.prefix_rfl
    · exact storeCase_revisions _ _ _ _ _ _
  · exact List.prefix_rfl
  · exact storeCase_revisions _ _ _ _ _ _

theorem ingest_sameCases {db db' : Db} {batch : HttpBatch} {response : Response}
    (h : ingest env now batch db = .ok (response, db')) :
    db'.analysis.book = db.analysis.book := by
  rw [ingest] at h
  obtain ⟨-, -, h⟩ := bind_eq_ok.mp h
  split at h
  · split at h
    · cases h
      rfl
    · cases h
  · rw [ingestFresh] at h
    obtain ⟨st, -, h⟩ := bind_eq_ok.mp h
    cases h
    rfl

/-- Revisions are only added. -/
theorem revisions_next (env : Env) (db : Db) (s : Step) :
    db.analysis.book.revisions <+: (next env db s).analysis.book.revisions := by
  obtain ⟨now, op⟩ := s
  cases op with
  | ingest batch =>
    rw [next]
    dsimp only
    split
    · rename_i hok
      rw [ingest_sameCases hok]
    · exact List.prefix_rfl
  | intake limit =>
    show _ <+: (intake now limit db.analysis).2.book.revisions
    rw [(intake_sameCases now limit db.analysis).1]
  | analyze key =>
    rw [next]
    dsimp only
    split
    · split
      · rename_i B hB
        rw [analyzeWindow] at hB
        obtain ⟨fs, -, hB⟩ := bind_eq_ok.mp hB
        rw [← Except.ok.inj hB]
        exact saveCase_revisions _ _ _ _ _ _
      · exact List.prefix_rfl
    · exact List.prefix_rfl
  | prune => exact List.prefix_rfl

/-- Every revision reads back as it was written, now and after every later transaction. -/
theorem revisions_stand (env : Env) (steps later : List Step) {key : WindowKey} {r : Nat}
    {payload : Payload}
    (h : (key, r, payload) ∈ (run (next env) .empty steps).analysis.book.revisions) :
    evidenceTotal (run (next env) .empty steps).analysis key r =
        payload.assessment.evidenceCount ∧
      evidenceItems (run (next env) .empty steps).analysis key r = payload.evidence ∧
      (∀ other, (key, r, other) ∈ (run (next env) .empty (steps ++ later)).analysis.book.revisions ↔
        other = payload) ∧
      (Member.heldAt (run (next env) .empty (steps ++ later)).analysis.book.membership key r).Perm
        (Member.heldAt (run (next env) .empty steps).analysis.book.membership key r) := by
  have hnow := (known_run env steps).revised
  have hlater := (known_run env (steps ++ later)).revised
  have hsub : (run (next env) .empty steps).analysis.book.revisions <+:
      (run (next env) .empty (steps ++ later)).analysis.book.revisions := by
    rw [run_append]
    exact run_preserves (P := fun db : Db =>
        (run (next env) .empty steps).analysis.book.revisions <+: db.analysis.book.revisions)
      (fun db s hdb => hdb.trans (revisions_next env db s)) List.prefix_rfl
  refine ⟨?_, ?_, hnow.history.later hlater.history hsub h⟩
  · have hperm := (hnow.history.held _ h).length_eq
    rw [List.length_map, ← hnow.counted _ h] at hperm
    exact hperm
  · refine hnow.history.read_eq h (fun a b hab => ?_) (hnow.sorted _ h)
    exact (Prod.ext_iff.mp (toLex.injective hab)).2

end RiskOps.Telemetry.Http

namespace RiskOps.Telemetry

open RiskOps.Lib

/-- **Case revisions are immutable history.** In every state the network and the HTTP store reach,
and for every revision that was written: the rows whose stay contains it are as many as its payload
counts, and their content in evidence order is the evidence of the payload. After any further
transactions the revision has the same payload, the same rows and the same content. -/
theorem case_revisions_immutable :
    (∀ (D : Type) [LinearOrder D] (env : Network.Env D) (ops later : List (Network.Op D)),
      let A := (run (Network.next env) .empty ops).analysis
      let B := (run (Network.next env) .empty (ops ++ later)).analysis
      ∀ key r payload, (key, r, payload) ∈ A.book.revisions →
        Network.evidenceTotal A key r = payload.evidenceCount ∧
        Network.evidenceItems A key r = payload.evidence ∧
        (∀ other, (key, r, other) ∈ B.book.revisions ↔ other = payload) ∧
        (Member.heldAt B.book.membership key r).Perm (Member.heldAt A.book.membership key r) ∧
        Network.evidenceItems B key r = Network.evidenceItems A key r) ∧
    ∀ (env : Http.Env) (steps later : List Http.Step),
      let A := (run (Http.next env) .empty steps).analysis
      let B := (run (Http.next env) .empty (steps ++ later)).analysis
      ∀ key r payload, (key, r, payload) ∈ A.book.revisions →
        Http.evidenceTotal A key r = payload.assessment.evidenceCount ∧
        Http.evidenceItems A key r = payload.evidence ∧
        (∀ other, (key, r, other) ∈ B.book.revisions ↔ other = payload) ∧
        (Member.heldAt B.book.membership key r).Perm (Member.heldAt A.book.membership key r) ∧
        Http.evidenceItems B key r = Http.evidenceItems A key r := by
  refine ⟨?_, ?_⟩
  · intro D _ env ops later A B key r payload h
    obtain ⟨htotal, hitems, hsame, hheld⟩ := Network.revisions_stand env ops later h
    have hB := (Network.revisions_stand env (ops ++ later) [] ((hsame payload).mpr rfl)).2.1
    exact ⟨htotal, hitems, hsame, hheld, hB.trans hitems.symm⟩
  · intro env steps later A B key r payload h
    obtain ⟨htotal, hitems, hsame, hheld⟩ := Http.revisions_stand env steps later h
    have hB := (Http.revisions_stand env (steps ++ later) [] ((hsame payload).mpr rfl)).2.1
    exact ⟨htotal, hitems, hsame, hheld, hB.trans hitems.symm⟩

theorem case_revisions_immutable_probe :
    let A := (run (Network.next Network.sampleEnv) .empty Network.probeOps).analysis
    ∃ key r payload, (key, r, payload) ∈ A.book.revisions ∧
      Network.evidenceTotal A key r = payload.evidenceCount ∧
      Network.evidenceItems A key r = payload.evidence := by
  intro A
  have hpos : 0 < A.book.revisions.length := by decide +kernel
  obtain ⟨⟨key, r, payload⟩, h⟩ := List.exists_mem_of_length_pos hpos
  obtain ⟨htotal, hitems, -⟩ :=
    case_revisions_immutable.1 Nat Network.sampleEnv Network.probeOps [] key r payload h
  exact ⟨key, r, payload, h, htotal, hitems⟩

end RiskOps.Telemetry
