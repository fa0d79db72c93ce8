import RiskOps.Telemetry.HttpCases

/-!
# RiskOps.Telemetry.HttpDelivery — incremental analysis is batch analysis

**Whatever the order of batches, intakes and analyses, a settled store holds the cases of the
whole history.** The invariant has two halves. `Tracked`: every accepted record is in the
table, then in the context, unless retention has expired it. `CasesRight`: a window that is
not dirty has the evidence its present context yields, because a record that enters the
context of a window marks it.

Retention bounds both: what has expired is gone, and a window whose context may have lost
records is no longer analysed.
-/

namespace RiskOps.Telemetry.Http

open RiskOps.Lib

variable {env : Env} {cutoff cutoff' : ℚ} {log : List HttpEvent} {A : Analysis} {now : ℚ}

/-! ### Hours -/

theorem hourOf_le (ts : ℚ) : (hourOf ts : ℚ) ≤ ts ∧ ts < hourOf ts + 3600 := by
  have hle := Int.floor_le (ts / 3600)
  have hlt := Int.lt_floor_add_one (ts / 3600)
  rw [le_div_iff₀ (by norm_num)] at hle
  rw [div_lt_iff₀ (by norm_num)] at hlt
  rw [hourOf]
  push_cast
  constructor <;> linarith

theorem dvd_of_mem_hoursOf {ts : ℚ} {hour : ℤ} (h : hour ∈ hoursOf ts) : 3600 ∣ hour := by
  have hbase : (3600 : ℤ) ∣ hourOf ts := Dvd.intro_left _ rfl
  rw [hoursOf, List.mem_cons, List.mem_append] at h
  rcases h with rfl | h | h
  · exact hbase
  · split at h
    · rw [List.mem_singleton.mp h]
      exact dvd_sub hbase (dvd_refl _)
    · exact absurd h List.not_mem_nil
  · split at h
    · rw [List.mem_singleton.mp h]
      exact dvd_add hbase (dvd_refl _)
    · exact absurd h List.not_mem_nil

/-- **A record marks every hour whose context holds it.** -/
theorem mem_hoursOf {ts : ℚ} {hour : ℤ} (hdvd : 3600 ∣ hour) (hlow : (hour : ℚ) - 300 ≤ ts)
    (hhigh : ts ≤ hour + 3900) : hour ∈ hoursOf ts := by
  obtain ⟨m, rfl⟩ := hdvd
  obtain ⟨hle, hlt⟩ := hourOf_le ts
  have hbase : hourOf ts = 3600 * ⌊ts / 3600⌋ := by rw [hourOf, mul_comm]
  obtain ⟨k, hk⟩ : ∃ k : ℤ, hourOf ts = 3600 * k := ⟨_, hbase⟩
  rw [hk] at hle hlt
  push_cast at hle hlt hlow hhigh
  have hupper : m < k + 2 := by
    have : (m : ℚ) < k + 2 := by linarith
    exact_mod_cast this
  have hlower : k < m + 2 := by
    have : (k : ℚ) < m + 2 := by linarith
    exact_mod_cast this
  rw [hoursOf, hk, List.mem_cons, List.mem_append]
  rcases (by omega : m = k ∨ m = k - 1 ∨ m = k + 1) with rfl | rfl | rfl
  · exact Or.inl rfl
  · refine Or.inr (Or.inl ?_)
    push_cast at hhigh ⊢
    rw [if_pos (by linarith)]
    exact List.mem_singleton.mpr (by ring)
  · refine Or.inr (Or.inr ?_)
    push_cast at hlow ⊢
    rw [if_pos (by linarith)]
    exact List.mem_singleton.mpr (by ring)

variable {e : HttpEvent}

theorem InHour.inContext {hour : ℤ} (hin : InHour hour e) :
    (hour : ℚ) - 300 ≤ e.eventTs ∧ e.eventTs ≤ hour + 3900 :=
  ⟨by linarith [hin.1], by linarith [hin.2]⟩

/-! ### Records on their way -/

/-- Where the accepted records are: record `i` of the log has the sequence number `i + 1`. -/
structure Tracked (cutoff : ℚ) (log : List HttpEvent) (A : Analysis) : Prop where
  seq : A.eventSeq = log.length
  cursor : A.cursor ≤ A.eventSeq
  events : ∀ row ∈ A.events, ∃ i, row.1 = i + 1 ∧ log[i]? = some row.2
  eventsNodup : (A.events.map Prod.fst).Nodup
  context : ∀ row ∈ A.context, ∃ i, row.1 = i + 1 ∧ i < A.cursor ∧ log[i]? = some row.2
  contextNodup : (A.context.map Prod.fst).Nodup
  waiting : ∀ i e, log[i]? = some e → A.cursor ≤ i → (i + 1, e) ∈ A.events ∨ e.eventTs < cutoff
  taken : ∀ i e, log[i]? = some e → i < A.cursor → (i + 1, e) ∈ A.context ∨ e.eventTs < cutoff

theorem Tracked.mono (h : Tracked cutoff log A) (hle : cutoff ≤ cutoff') : Tracked cutoff' log A where
  seq := h.seq
  cursor := h.cursor
  events := h.events
  eventsNodup := h.eventsNodup
  context := h.context
  contextNodup := h.contextNodup
  waiting := fun i e hi hc => (h.waiting i e hi hc).imp_right fun hlt => hlt.trans_le hle
  taken := fun i e hi hc => (h.taken i e hi hc).imp_right fun hlt => hlt.trans_le hle

theorem Tracked.fst_inj (h : Tracked cutoff log A) {a b : Stored} (ha : a ∈ A.events)
    (hb : b ∈ A.events) (hab : a.1 = b.1) : a = b :=
  List.inj_on_of_nodup_map h.eventsNodup ha hb hab

/-- **One record of an intake**, the first that waits. -/
theorem Tracked.intakeRow (h : Tracked cutoff log A) {row : Stored} (hrow : row ∈ A.events)
    (hnew : A.cursor < row.1) (hfirst : ∀ r ∈ A.events, A.cursor < r.1 → row.1 ≤ r.1) :
    Tracked cutoff log (intakeRow now A row) := by
  obtain ⟨k, hk, hlog⟩ := h.events row hrow
  have hfresh : A.context.any (fun c => c.1 == row.1) = false := by
    rw [List.any_eq_false]
    intro c hc
    obtain ⟨i, hi, hlt, -⟩ := h.context c hc
    rw [beq_iff_eq]
    omega
  have hcontext : (Http.intakeRow now A row).context = A.context ++ [row] := by
    show (if _ then _ else _) = _
    rw [hfresh]
    rfl
  refine ⟨h.seq, ?_, h.events, h.eventsNodup, ?_, ?_, ?_, ?_⟩
  · show row.1 ≤ A.eventSeq
    have := (List.getElem?_eq_some_iff.mp hlog).1
    rw [h.seq]
    omega
  · intro c hc
    rw [hcontext, List.mem_append, List.mem_singleton] at hc
    rcases hc with hc | rfl
    · obtain ⟨i, hi, hlt, hget⟩ := h.context c hc
      exact ⟨i, hi, hlt.trans hnew, hget⟩
    · exact ⟨k, hk, by show k < c.1; omega, hlog⟩
  · rw [hcontext, List.map_append, List.map_singleton]
    refine List.nodup_append.mpr ⟨h.contextNodup, List.nodup_singleton _, ?_⟩
    intro a ha b hb hab
    obtain ⟨c, hc, rfl⟩ := List.mem_map.mp ha
    obtain ⟨i, hi, hlt, -⟩ := h.context c hc
    rw [List.mem_singleton] at hb
    omega
  · intro i e hi hc
    have hc' : row.1 ≤ i := hc
    exact h.waiting i e hi (by omega)
  · intro i e hi hc
    have hc' : i < row.1 := hc
    rw [hcontext]
    by_cases hold : i < A.cursor
    · exact (h.taken i e hi hold).imp_left fun hmem => List.mem_append_left _ hmem
    · -- Between the cursor and this record nothing is left in the table.
      refine (h.waiting i e hi (by omega)).imp_left fun hmem => ?_
      have hle := hfirst (i + 1, e) hmem (by show A.cursor < i + 1; omega)
      have heq : (i + 1, e) = row := h.fst_inj hmem hrow (by show i + 1 = row.1; omega)
      rw [heq]
      exact List.mem_append_right _ (List.mem_singleton_self _)

/-- The records `rows` are the first that wait. -/
structure NextRows (A : Analysis) (rows : List Stored) : Prop where
  mem : ∀ r ∈ rows, r ∈ A.events
  sorted : rows.Pairwise fun a b => a.1 < b.1
  new : ∀ r ∈ rows, A.cursor < r.1
  first : ∀ r ∈ A.events, A.cursor < r.1 → r ∈ rows ∨ ∀ x ∈ rows, x.1 < r.1

theorem nextRows_intakeRows (h : Tracked cutoff log A) (limit : Nat) :
    NextRows A (intakeRows A limit) := by
  obtain ⟨sorted, hsorted⟩ : ∃ sorted, sorted = (A.events.filter fun row =>
      decide (A.cursor < row.1)).insertionSort fun a b => a.1 ≤ b.1 := ⟨_, rfl⟩
  have hmem : ∀ r, r ∈ sorted ↔ r ∈ A.events ∧ A.cursor < r.1 := by
    intro r
    rw [hsorted, List.mem_insertionSort, List.mem_filter, decide_eq_true_iff]
  have hstrict : sorted.Pairwise fun a b => a.1 < b.1 := by
    have hle : sorted.Pairwise fun a b => a.1 ≤ b.1 := hsorted ▸ List.pairwise_insertionSort _ _
    have hnodup : (sorted.map Prod.fst).Nodup := by
      have hperm : sorted.Perm (A.events.filter fun row => decide (A.cursor < row.1)) :=
        hsorted ▸ List.perm_insertionSort _ _
      exact (hperm.map Prod.fst).nodup_iff.mpr
        (h.eventsNodup.sublist (List.filter_sublist.map _))
    exact (hle.and (List.pairwise_map.mp hnodup)).imp fun ⟨hab, hne⟩ => lt_of_le_of_ne hab hne
  have htake : intakeRows A limit = sorted.take limit := by rw [intakeRows, hsorted]
  rw [htake]
  refine ⟨fun r hr => ((hmem r).mp (List.mem_of_mem_take hr)).1,
    hstrict.sublist (List.take_sublist _ _),
    fun r hr => ((hmem r).mp (List.mem_of_mem_take hr)).2, ?_⟩
  intro r hr hnew
  have hin : r ∈ sorted := (hmem r).mpr ⟨hr, hnew⟩
  rw [← List.take_append_drop limit sorted] at hin hstrict
  rcases List.mem_append.mp hin with hin | hin
  · exact Or.inl hin
  · exact Or.inr fun x hx => (List.pairwise_append.mp hstrict).2.2 x hx r hin

theorem NextRows.tail (now : ℚ) {row : Stored} {rows : List Stored}
    (h : NextRows A (row :: rows)) : NextRows (intakeRow now A row) rows where
  mem := fun r hr => h.mem r (List.mem_cons_of_mem _ hr)
  sorted := (List.pairwise_cons.mp h.sorted).2
  new := fun r hr => (List.pairwise_cons.mp h.sorted).1 r hr
  first := by
    intro r hr hnew
    have hnew' : row.1 < r.1 := hnew
    have hrow := h.new row List.mem_cons_self
    rcases h.first r hr (hrow.trans hnew') with hin | hafter
    · rcases List.mem_cons.mp hin with rfl | hin
      · exact absurd hnew' (lt_irrefl _)
      · exact Or.inl hin
    · exact Or.inr fun x hx => hafter x (List.mem_cons_of_mem _ hx)

theorem NextRows.head_le {row : Stored} {rows : List Stored} (h : NextRows A (row :: rows)) :
    ∀ r ∈ A.events, A.cursor < r.1 → row.1 ≤ r.1 := by
  intro r hr hnew
  rcases h.first r hr hnew with hin | hafter
  · rcases List.mem_cons.mp hin with rfl | hin
    · exact le_rfl
    · exact ((List.pairwise_cons.mp h.sorted).1 r hin).le
  · exact (hafter row List.mem_cons_self).le

/-- **Induction over an intake.** What each first waiting record preserves, the loop does. -/
theorem foldl_intakeRow_induction {P : Analysis → Prop} (rows : List Stored)
    (hstep : ∀ B row, P B → row ∈ B.events → B.cursor < row.1 →
      (∀ r ∈ B.events, B.cursor < r.1 → row.1 ≤ r.1) → P (intakeRow now B row))
    (hrows : NextRows A rows) (h : P A) : P (rows.foldl (intakeRow now) A) := by
  induction rows generalizing A with
  | nil => exact h
  | cons row rows ih =>
    exact ih (hrows.tail now) (hstep A row h (hrows.mem row List.mem_cons_self)
      (hrows.new row List.mem_cons_self) hrows.head_le)

theorem foldl_intakeRow_cursor (now : ℚ) (rows : List Stored) (hrows : NextRows A rows) :
    (∀ r ∈ rows, r.1 ≤ (rows.foldl (intakeRow now) A).cursor) ∧
      A.cursor ≤ (rows.foldl (intakeRow now) A).cursor := by
  induction rows generalizing A with
  | nil => exact ⟨fun r hr => absurd hr List.not_mem_nil, le_rfl⟩
  | cons row rows ih =>
    obtain ⟨hall, hle⟩ := ih (hrows.tail now)
    have hrow : row.1 ≤ ((row :: rows).foldl (intakeRow now) A).cursor := hle
    refine ⟨?_, (hrows.new row List.mem_cons_self).le.trans hrow⟩
    intro r hr
    rcases List.mem_cons.mp hr with rfl | hr
    · exact hrow
    · exact hall r hr

theorem foldl_intakeRow_events (now : ℚ) (A : Analysis) (rows : List Stored) :
    (rows.foldl (intakeRow now) A).events = A.events ∧
      (rows.foldl (intakeRow now) A).eventSeq = A.eventSeq := by
  induction rows generalizing A with
  | nil => exact ⟨rfl, rfl⟩
  | cons row rows ih => exact ih (intakeRow now A row)

/-- When the loop has read all records, none waits above its cursor. -/
theorem no_waiting_of_short (now : ℚ) (h : Tracked cutoff log A) {limit : Nat}
    (hshort : (intakeRows A limit).length < limit) :
    ∀ r ∈ A.events, r.1 ≤ ((intakeRows A limit).foldl (intakeRow now) A).cursor := by
  have hrows := nextRows_intakeRows h limit
  obtain ⟨hall, hle⟩ := foldl_intakeRow_cursor now _ hrows
  intro r hr
  by_cases hnew : A.cursor < r.1
  · refine hall r ?_
    rw [intakeRows, List.length_take] at hshort
    have hfull : intakeRows A limit = (A.events.filter fun row =>
        decide (A.cursor < row.1)).insertionSort fun a b => a.1 ≤ b.1 :=
      List.take_of_length_le (by omega)
    rw [hfull, List.mem_insertionSort, List.mem_filter, decide_eq_true_iff]
    exact ⟨hr, hnew⟩
  · omega

/-- **An intake.** -/
theorem Tracked.intake (h : Tracked cutoff log A) (limit : Nat) :
    Tracked cutoff log (intake now limit A).2 := by
  have hrows := nextRows_intakeRows h limit
  have hfold : Tracked cutoff log ((intakeRows A limit).foldl (Http.intakeRow now) A) :=
    foldl_intakeRow_induction _ (fun B row hB hrow hnew hfirst => hB.intakeRow hrow hnew hfirst)
      hrows h
  obtain ⟨hevents, hseq⟩ := foldl_intakeRow_events now A (intakeRows A limit)
  rw [Http.intake]
  dsimp only
  split
  · rename_i hcaught
    refine ⟨hfold.seq, hseq.ge, hfold.events, hfold.eventsNodup, ?_, hfold.contextNodup, ?_, ?_⟩
    · intro row hrow
      obtain ⟨i, hi, hlt, hget⟩ := hfold.context row hrow
      exact ⟨i, hi, hlt.trans_le (hseq ▸ hfold.cursor), hget⟩
    · intro i e hi hc
      have hlt := (List.getElem?_eq_some_iff.mp hi).1
      have hc' : A.eventSeq ≤ i := hc
      rw [h.seq] at hc'
      omega
    · intro i e hi hc
      by_cases hold : i < ((intakeRows A limit).foldl (Http.intakeRow now) A).cursor
      · exact hfold.taken i e hi hold
      · refine Or.inr ((hfold.waiting i e hi (not_lt.mp hold)).resolve_left fun hmem => ?_)
        rcases hcaught with hshort | hdone
        · have hle := no_waiting_of_short now h hshort (i + 1, e) (hevents ▸ hmem)
          dsimp only at hle
          omega
        · have hc' : i < A.eventSeq := hc
          omega
  · exact ⟨hfold.seq, hfold.cursor, hfold.events, hfold.eventsNodup, hfold.context,
      hfold.contextNodup, hfold.waiting, hfold.taken⟩

theorem mem_deleteExpired {rows : List Stored} {row : Stored} :
    (row ∈ deleteExpired cutoff rows → row ∈ rows) ∧
      (row ∈ rows → ¬ row.2.eventTs < cutoff → row ∈ deleteExpired cutoff rows) := by
  rw [deleteExpired]
  refine ⟨fun h => (List.mem_filter.mp h).1, fun h hlive => List.mem_filter.mpr ⟨h, ?_⟩⟩
  rw [decide_eq_true_iff]
  intro hmem
  have hexpired := List.mem_of_mem_take hmem
  rw [List.mem_insertionSort, List.mem_filter, decide_eq_true_iff] at hexpired
  exact hlive hexpired.2

theorem deleteExpired_sublist (rows : List Stored) : (deleteExpired cutoff rows).Sublist rows :=
  List.filter_sublist

/-- A row leaves a table only when it has expired. -/
theorem mem_deleteExpired_or {rows : List Stored} {row : Stored} (h : row ∈ rows) :
    row ∈ deleteExpired cutoff rows ∨ row.2.eventTs < cutoff := by
  by_cases hlive : row.2.eventTs < cutoff
  · exact Or.inr hlive
  · exact Or.inl (mem_deleteExpired.2 h hlive)

theorem Tracked.prune (h : Tracked cutoff log A) (hle : env.cutoff now ≤ cutoff) :
    Tracked cutoff log (pruneContext env now A) where
  seq := h.seq
  cursor := h.cursor
  events := h.events
  eventsNodup := h.eventsNodup
  context := fun row hrow => h.context row (mem_deleteExpired.1 hrow)
  contextNodup := h.contextNodup.sublist ((deleteExpired_sublist _).map _)
  waiting := h.waiting
  taken := fun i e hi hc => (h.taken i e hi hc).elim
    (fun hmem => (mem_deleteExpired_or hmem).imp_right fun hlt => hlt.trans_le hle) Or.inr

variable {B : Analysis}

/-- Analysing changes cases only. -/
theorem Tracked.congr (h : Tracked cutoff log A) (hevents : B.events = A.events)
    (hseq : B.eventSeq = A.eventSeq) (hcursor : B.cursor = A.cursor)
    (hcontext : B.context = A.context) : Tracked cutoff log B := by
  refine ⟨hseq ▸ h.seq, ?_, ?_, ?_, ?_, ?_, ?_, ?_⟩
  · rw [hcursor, hseq]
    exact h.cursor
  · rw [hevents]
    exact h.events
  · rw [hevents]
    exact h.eventsNodup
  · rw [hcontext, hcursor]
    exact h.context
  · rw [hcontext]
    exact h.contextNodup
  · rw [hevents, hcursor]
    exact h.waiting
  · rw [hcontext, hcursor]
    exact h.taken

/-! ### Reading a window -/

/-- Two records of one peer never share a key. -/
def Apart (log : List HttpEvent) : Prop := log.Pairwise fun a b => a.peer = b.peer → a.key ≠ b.key

theorem Apart.eq_index (h : Apart log) {i j : Nat} {a b : HttpEvent} (hi : log[i]? = some a)
    (hj : log[j]? = some b) (hpeer : a.peer = b.peer) (hkey : a.key = b.key) : i = j := by
  obtain ⟨hi', rfl⟩ := List.getElem?_eq_some_iff.mp hi
  obtain ⟨hj', rfl⟩ := List.getElem?_eq_some_iff.mp hj
  rcases Nat.lt_trichotomy i j with hlt | heq | hlt
  · exact absurd hkey (List.pairwise_iff_getElem.mp h i j hi' hj' hlt hpeer)
  · exact heq
  · exact absurd hkey.symm (List.pairwise_iff_getElem.mp h j i hj' hi' hlt hpeer.symm)

theorem Apart.distinct (h : Apart log) (p : Peer) : Distinct (log.filter fun e => decide (e.peer = p)) := by
  refine List.pairwise_map.mpr ?_
  have hmem : (log.filter fun e => decide (e.peer = p)).Pairwise
      fun a b => a.peer = b.peer → a.key ≠ b.key := h.filter _
  refine hmem.imp_of_mem fun {a b} ha hb hab => hab ?_
  rw [of_decide_eq_true (List.mem_filter.mp ha).2, of_decide_eq_true (List.mem_filter.mp hb).2]

/-- **What a window reads**: the records up to the cursor that have not expired. -/
theorem mem_contextRows_iff (h : Tracked cutoff log A) {key : WindowKey}
    (hfresh : cutoff ≤ (key.2 : ℚ) - 300) :
    e ∈ contextRows A key ↔
      ∃ i < A.cursor, log[i]? = some e ∧ inContext key e = true := by
  rw [contextRows, List.mem_map]
  constructor
  · intro ⟨row, hrow, he⟩
    rw [List.mem_insertionSort, List.mem_filter] at hrow
    obtain ⟨i, -, hlt, hget⟩ := h.context row hrow.1
    subst he
    exact ⟨i, hlt, hget, hrow.2⟩
  · intro ⟨i, hlt, hget, hin⟩
    have hlive : ¬ e.eventTs < cutoff := by
      have := (inContext_iff.mp hin).2.1
      linarith
    refine ⟨(i + 1, e), ?_, rfl⟩
    rw [List.mem_insertionSort, List.mem_filter]
    exact ⟨(h.taken i e hget hlt).resolve_right hlive, hin⟩

theorem peer_of_mem_contextRows {key : WindowKey} : ∀ e ∈ contextRows A key, e.peer = key.1 := by
  intro e he
  obtain ⟨row, hrow, rfl⟩ := List.mem_map.mp he
  rw [List.mem_insertionSort, List.mem_filter] at hrow
  exact (inContext_iff.mp hrow.2).1

theorem distinct_contextRows (h : Tracked cutoff log A) (hapart : Apart log) (key : WindowKey) :
    Distinct (contextRows A key) := by
  obtain ⟨rows, hrows⟩ : ∃ rows, rows = (A.context.filter fun row => inContext key row.2).insertionSort
      fun a b => storedOrder a ≤ storedOrder b := ⟨_, rfl⟩
  have hmem : ∀ row, row ∈ rows ↔ row ∈ A.context ∧ inContext key row.2 = true := by
    intro row
    rw [hrows, List.mem_insertionSort, List.mem_filter]
  have hnodup : (rows.map Prod.fst).Nodup := by
    have hperm : rows.Perm (A.context.filter fun row => inContext key row.2) :=
      hrows ▸ List.perm_insertionSort _ _
    exact (hperm.map Prod.fst).nodup_iff.mpr
      (h.contextNodup.sublist (List.filter_sublist.map _))
  have heq : (contextRows A key).map HttpEvent.key = rows.map fun row => row.2.key := by
    rw [contextRows, ← hrows, List.map_map]
    rfl
  rw [Distinct, heq]
  refine List.pairwise_map.mpr ((List.pairwise_map.mp hnodup).imp_of_mem ?_)
  intro a b ha hb hab hkey
  obtain ⟨haC, hain⟩ := (hmem a).mp ha
  obtain ⟨hbC, hbin⟩ := (hmem b).mp hb
  obtain ⟨i, hi, -, hgi⟩ := h.context a haC
  obtain ⟨j, hj, -, hgj⟩ := h.context b hbC
  have hpeer : a.2.peer = b.2.peer :=
    (inContext_iff.mp hain).1.trans (inContext_iff.mp hbin).1.symm
  have := hapart.eq_index hgi hgj hpeer hkey
  exact hab (by omega)

/-! ### Cases -/

/-- The ids a payload lists. -/
def Payload.ids (payload : Payload) : List (List Char) := payload.evidence.map HttpEvent.eventId

/-- What a case holds now is what its last revision lists. -/
def Members (A : Analysis) : Prop := A.book.Members Payload.ids

/-- The ids of the evidence of a complete case. -/
theorem mem_evidence_iff {casefold : List Char → List Char} {events : List HttpEvent} {p : Peer}
    {hour : ℤ} {fs : List WebFinding} (hpeer : ∀ e ∈ events, e.peer = p) (hd : Distinct events)
    (hfs : detectWeb casefold events = .ok fs) {id : List Char} :
    id ∈ (selectedRows events hour fs).map HttpEvent.eventId ↔ id ∈ selectedIds events hour fs := by
  simp only [selectedRows, List.mem_map, List.mem_insertionSort, List.mem_filterMap]
  constructor
  · intro ⟨e, ⟨id', hid', hlookup⟩, hid⟩
    have hsame : e.eventId = id' := by simpa using List.find?_some hlookup
    rw [← hid, hsame]
    exact hid'
  · intro hid
    obtain ⟨rule, hrule⟩ := mem_selectedIds.mp hid
    obtain ⟨g, hg, -, e, he, rfl⟩ := (mem_ruleIds_iff hpeer hd hfs).mp hrule
    exact ⟨e, ⟨e.eventId, hid, lookup_eventId hpeer hd (mem_sortRows.mp (hg.mem_rows he))⟩, rfl⟩

/-- What saving a case leaves alone. -/
structure SameInput (A B : Analysis) : Prop where
  events : B.events = A.events
  eventSeq : B.eventSeq = A.eventSeq
  cursor : B.cursor = A.cursor
  context : B.context = A.context
  windows : B.windows = A.windows

theorem SameInput.refl (A : Analysis) : SameInput A A := ⟨rfl, rfl, rfl, rfl, rfl⟩

theorem storeCase_sameInput (A : Analysis) (key : WindowKey) (payload : Payload)
    (events : List HttpEvent) (selected : Option (List (List Char))) (now : ℚ) :
    SameInput A (storeCase A key payload events selected now) := by
  rw [storeCase]
  split
  · exact SameInput.refl A
  · exact ⟨rfl, rfl, rfl, rfl, rfl⟩

theorem storeCase_book (A : Analysis) (key : WindowKey) (payload : Payload)
    (events : List HttpEvent) (selected : Option (List (List Char))) (now : ℚ) :
    (storeCase A key payload events selected now).book = A.book.revise key payload selected now := by
  rw [storeCase]
  split
  · rename_i hsame
    rw [CaseBook.revise.eq_def, if_pos hsame]
  · rfl

theorem saveCase_sameInput (A : Analysis) (key : WindowKey) (coverage : Coverage)
    (events : List HttpEvent) (fs : List WebFinding) (now : ℚ) :
    SameInput A (saveCase A key coverage events fs now) := by
  rw [saveCase.eq_def]
  split
  · dsimp only
    split
    · exact SameInput.refl A
    · exact storeCase_sameInput A key _ events _ now
  · exact SameInput.refl A
  · exact storeCase_sameInput A key _ events none now

/-- A complete case holds exactly what was selected. -/
theorem saveCase_complete {casefold : List Char → List Char} {key : WindowKey}
    {events : List HttpEvent} {fs : List WebFinding} (hm : Members A)
    (hpeer : ∀ e ∈ events, e.peer = key.1) (hd : Distinct events)
    (hfs : detectWeb casefold events = .ok fs) (now : ℚ) :
    Members (saveCase A key .complete events fs now) ∧
      ∀ key' id, id ∈ (saveCase A key .complete events fs now).book.holds key' ↔
        if key' = key then id ∈ selectedIds events key.2 fs else id ∈ A.book.holds key' := by
  have hsave : saveCase A key .complete events fs now =
      if (selectedIds events key.2 fs).isEmpty ∧ (A.book.payload? key).isNone then A
      else storeCase A key (completePayload key events fs (A.book.payload? key)) events
        (some (selectedIds events key.2 fs)) now := rfl
  rw [hsave]
  split
  · rename_i hempty
    refine ⟨hm, fun key' id => ?_⟩
    split
    · rename_i heq
      have hnone := hm.of_none (Option.isNone_iff_eq_none.mp hempty.2) id
      rw [heq, List.isEmpty_iff.mp hempty.1]
      exact iff_of_false hnone List.not_mem_nil
    · exact Iff.rfl
  · rw [Members, storeCase_book]
    exact CaseBook.Members.revise_some hm (fun _ => mem_evidence_iff hpeer hd hfs) now

/-- A case that could not be analysed keeps what it holds. -/
theorem saveCase_stale (key : WindowKey) {coverage : Coverage} (events : List HttpEvent)
    (fs : List WebFinding) (hm : Members A) (hcoverage : coverage ≠ .complete) (now : ℚ) :
    Members (saveCase A key coverage events fs now) ∧
      ∀ key', (saveCase A key coverage events fs now).book.holds key' = A.book.holds key' := by
  rw [saveCase.eq_def]
  split
  · exact absurd rfl hcoverage
  · exact ⟨hm, fun _ => rfl⟩
  · rename_i old hold hfind
    have hids : ∀ c, (stalePayload c old).ids = old.ids := fun _ => rfl
    rw [Members, storeCase_book]
    exact CaseBook.Members.revise_none hm hfind (hids _) now

/-! ### Windows -/

/-- The records fit in one analysis. -/
def WithinLimits (env : Env) (events : List HttpEvent) : Prop :=
  events.length ≤ maxContextRecords ∧ (events.map env.size).sum ≤ maxContextBytes

theorem WithinLimits.perm {a b : List HttpEvent} (h : a.Perm b) :
    WithinLimits env a ↔ WithinLimits env b := by
  rw [WithinLimits, WithinLimits, h.length_eq, (h.map env.size).sum_eq]

/-- The case holds what its context yields. -/
def CaseRight (env : Env) (A : Analysis) (key : WindowKey) : Prop :=
  WithinLimits env (contextRows A key) → ∀ fs, detectWeb env.casefold (contextRows A key) = .ok fs →
    ∀ id, id ∈ A.book.holds key ↔ id ∈ selectedIds (contextRows A key) key.2 fs

/-- Every record of the context has marked its hours, and clean windows have the right case. -/
structure CasesRight (env : Env) (cutoff : ℚ) (A : Analysis) : Prop where
  hours : ∀ key w, A.windows.find? key = some w → 3600 ∣ key.2
  marked : ∀ row ∈ A.context, ∀ key ∈ windowsOf row.2, ∃ w, A.windows.find? key = some w
  members : Members A
  clean : ∀ key w, A.windows.find? key = some w → w.dirty = false →
    cutoff ≤ (key.2 : ℚ) - 300 → CaseRight env A key

theorem CasesRight.mono (h : CasesRight env cutoff A) (hle : cutoff ≤ cutoff') :
    CasesRight env cutoff' A :=
  ⟨h.hours, h.marked, h.members, fun key w hw hclean hfresh =>
    h.clean key w hw hclean (hle.trans hfresh)⟩

theorem CaseRight.congr {key : WindowKey} (h : CaseRight env A key)
    (hrows : contextRows B key = contextRows A key)
    (hmembers : ∀ id, id ∈ B.book.holds key ↔ id ∈ A.book.holds key) : CaseRight env B key := by
  intro hlimits fs hfs id
  rw [hrows] at hlimits hfs ⊢
  rw [hmembers id]
  exact h hlimits fs hfs id

theorem dvd_of_mem_windowsOf {key : WindowKey} (h : key ∈ windowsOf e) : 3600 ∣ key.2 := by
  obtain ⟨hour, hhour, rfl⟩ := List.mem_map.mp h
  exact dvd_of_mem_hoursOf hhour

theorem mem_windowsOf {key : WindowKey} (hdvd : 3600 ∣ key.2) (hin : inContext key e = true) :
    key ∈ windowsOf e := by
  obtain ⟨hpeer, hlow, hhigh⟩ := inContext_iff.mp hin
  exact List.mem_map.mpr ⟨key.2, mem_hoursOf hdvd hlow hhigh, Prod.ext hpeer rfl⟩

/-- **A record that enters the context marks its windows.** -/
theorem CasesRight.intakeRow (h : CasesRight env cutoff A) (row : Stored) :
    CasesRight env cutoff (intakeRow now A row) := by
  have hfind := DirtyWindow.find?_foldl_mark Coverage.pending now (windowsOf row.2) A.windows
  have hcontext : ∀ c ∈ (Http.intakeRow now A row).context, c ∈ A.context ∨ c = row := by
    intro c hc
    have hc' : c ∈ if A.context.any (fun c => c.1 == row.1) then A.context
      else A.context ++ [row] := hc
    split at hc'
    · exact Or.inl hc'
    · rw [List.mem_append, List.mem_singleton] at hc'
      exact hc'
  refine ⟨?_, ?_, h.members, ?_⟩
  · intro key w hw
    by_cases hk : key ∈ windowsOf row.2
    · exact dvd_of_mem_windowsOf hk
    · exact h.hours key w ((hfind key).2 hk ▸ hw)
  · intro c hc key hkey
    by_cases hk : key ∈ windowsOf row.2
    · obtain ⟨w, hw, -⟩ := (hfind key).1 hk
      exact ⟨w, hw⟩
    · rcases hcontext c hc with hc | rfl
      · obtain ⟨w, hw⟩ := h.marked c hc key hkey
        exact ⟨w, ((hfind key).2 hk).trans hw⟩
      · exact absurd hkey hk
  · intro key w hw hclean hfresh
    by_cases hk : key ∈ windowsOf row.2
    · obtain ⟨w', hw', hdirty⟩ := (hfind key).1 hk
      rw [show (Http.intakeRow now A row).windows.find? key = some w' from hw'] at hw
      rw [Option.some.inj hw, hclean] at hdirty
      cases hdirty
    · have hold : A.windows.find? key = some w := (hfind key).2 hk ▸ hw
      -- The record is outside the context of an unmarked window.
      have houtside : inContext key row.2 = false := by
        rw [Bool.eq_false_iff]
        exact fun hin => hk (mem_windowsOf (h.hours key w hold) hin)
      have hrows : contextRows (Http.intakeRow now A row) key = contextRows A key := by
        have hfilter : (Http.intakeRow now A row).context.filter (fun row => inContext key row.2) =
            A.context.filter fun row => inContext key row.2 := by
          show (if A.context.any (fun c => c.1 == row.1) then A.context
            else A.context ++ [row]).filter _ = _
          split
          · rfl
          · rw [List.filter_append, List.filter_singleton, houtside]
            simp
        rw [contextRows, hfilter, contextRows]
      exact (h.clean key w hold hclean hfresh).congr hrows fun _ => Iff.rfl

theorem CasesRight.intake (ht : Tracked cutoff log A) (h : CasesRight env cutoff A) (limit : Nat) :
    CasesRight env cutoff (intake now limit A).2 := by
  have hfold : CasesRight env cutoff ((intakeRows A limit).foldl (Http.intakeRow now) A) :=
    foldl_intakeRow_induction _ (fun B row hB _ _ _ => hB.intakeRow row)
      (nextRows_intakeRows ht limit) h
  rw [Http.intake]
  dsimp only
  split
  · exact ⟨hfold.hours, hfold.marked, hfold.members, hfold.clean⟩
  · exact ⟨hfold.hours, hfold.marked, hfold.members, hfold.clean⟩

/-- **Analysing a window makes its case right**, and leaves the others as they are. -/
theorem CasesRight.analyze {key : WindowKey} (hapart : Apart log)
    (ht : Tracked (env.cutoff now) log A) (h : CasesRight env (env.cutoff now) A)
    (hanalyze : analyzeWindow env A key now = .ok B) :
    CasesRight env (env.cutoff now) B ∧ Tracked (env.cutoff now) log B := by
  rw [analyzeWindow] at hanalyze
  obtain ⟨fs, hfs, hB⟩ := bind_eq_ok.mp hanalyze
  obtain ⟨C, hC⟩ : ∃ C, C = saveCase A key (readWindow env A key now).2
      (readWindow env A key now).1 fs now := ⟨_, rfl⟩
  have hB' : B = { C with windows := DirtyWindow.clean now (readWindow env A key now).2 key C.windows } := by
    rw [hC]
    exact (Except.ok.inj hB).symm
  have hsame : SameInput A C := hC ▸ saveCase_sameInput A key _ _ _ now
  have hrows : ∀ k, contextRows B k = contextRows A k := by
    intro k
    rw [contextRows, contextRows, hB']
    dsimp only
    rw [hsame.context]
  have hmembers : Members C ∧ (∀ k, k ≠ key → ∀ id, id ∈ C.book.holds k ↔ id ∈ A.book.holds k) ∧
      (env.cutoff now ≤ (key.2 : ℚ) - 300 → CaseRight env B key) := by
    by_cases hcomplete : (readWindow env A key now).2 = .complete
    · obtain ⟨hread, -⟩ := readWindow_complete hcomplete
      rw [windowFindings, hcomplete, if_pos rfl, hread] at hfs
      rw [hcomplete, hread] at hC
      obtain ⟨hm, hcurrent⟩ := saveCase_complete h.members peer_of_mem_contextRows
        (distinct_contextRows ht hapart key) hfs now
      rw [← hC] at hm hcurrent
      refine ⟨hm, fun k hk id => ?_, fun _ _ fs' hfs' id => ?_⟩
      · rw [hcurrent k id, if_neg hk]
      · rw [hrows key] at hfs' ⊢
        obtain rfl : fs = fs' := Except.ok.inj (hfs.symm.trans hfs')
        rw [hB']
        show id ∈ C.book.holds key ↔ _
        rw [hcurrent key id, if_pos rfl]
    · obtain ⟨hm, hkept⟩ := saveCase_stale key (readWindow env A key now).1 fs h.members
        hcomplete now
      rw [← hC] at hm hkept
      refine ⟨hm, fun k _ id => by rw [hkept], fun hfresh hlimits => ?_⟩
      rw [hrows key] at hlimits
      exact absurd (congrArg Prod.snd (readWindow_of_limits hfresh hlimits.1 hlimits.2)) hcomplete
  obtain ⟨hm, hothers, hright⟩ := hmembers
  have hwindows : B.windows = DirtyWindow.clean now (readWindow env A key now).2 key A.windows := by
    rw [hB', ← hsame.windows]
  refine ⟨⟨?_, ?_, ?_, ?_⟩, ?_⟩
  · intro k w hw
    rw [hwindows] at hw
    obtain ⟨w₀, hw₀, -⟩ := DirtyWindow.find?_of_clean hw
    exact h.hours k w₀ hw₀
  · intro row hrow k hk
    rw [hB'] at hrow
    dsimp only at hrow
    rw [hsame.context] at hrow
    obtain ⟨w, hw⟩ := h.marked row hrow k hk
    rw [hwindows, DirtyWindow.find?_clean, hw]
    exact ⟨_, rfl⟩
  · rw [hB']
    exact hm
  · intro k w hw hclean hfresh
    by_cases hk : k = key
    · rw [hk] at hfresh ⊢
      exact hright hfresh
    · rw [hwindows] at hw
      obtain ⟨w₀, hw₀, hsame₀⟩ := DirtyWindow.find?_of_clean hw
      rw [hsame₀ hk] at hw₀
      refine (h.clean k w hw₀ hclean hfresh).congr (hrows k) fun id => ?_
      rw [hB']
      exact hothers k hk id
  · rw [hB']
    exact ht.congr hsame.events hsame.eventSeq hsame.cursor hsame.context

/-- **Pruning** takes nothing from a window that may still be analysed. -/
theorem CasesRight.prune (h : CasesRight env (env.cutoff now) A) :
    CasesRight env (env.cutoff now) (pruneContext env now A) := by
  refine ⟨h.hours, fun row hrow => h.marked row (mem_deleteExpired.1 hrow), h.members, ?_⟩
  intro key w hw hclean hfresh
  have hrows : contextRows (pruneContext env now A) key = contextRows A key := by
    have hfilter : (pruneContext env now A).context.filter (fun row => inContext key row.2) =
        A.context.filter fun row => inContext key row.2 := by
      show (List.filter _ A.context).filter _ = _
      rw [List.filter_filter]
      refine List.filter_congr fun row hrow => ?_
      by_cases hin : inContext key row.2 = true
      · have hlive : ¬ row.2.eventTs < env.cutoff now := by
          have := (inContext_iff.mp hin).2.1
          linarith
        have hkept := (List.mem_filter.mp (mem_deleteExpired.2 hrow hlive)).2
        rw [hkept, Bool.and_true]
      · rw [Bool.not_eq_true] at hin
        rw [hin, Bool.false_and]
    rw [contextRows, hfilter, contextRows]
  exact (h.clean key w hw hclean hfresh).congr hrows fun _ => Iff.rfl

/-! ### Batches -/

/-- Accepted records carry the stream they were received in. -/
def Streamed (receipts : Table Receipt.key) : Prop :=
  ∀ r ∈ receipts, ∀ e, r.item = .valid e → r.stream = (e.sourceId, e.serviceId)

theorem getElem?_append_of_some {l l' : List HttpEvent} {i : Nat} (h : l[i]? = some e) :
    (l ++ l')[i]? = some e := by
  rw [List.getElem?_append_left (List.getElem?_eq_some_iff.mp h).1]
  exact h

/-- A batch in progress: what it has stored so far extends the log. -/
structure Progressing (cutoff : ℚ) (cursor : Nat) (base : List HttpEvent) (st : Progress) : Prop where
  streamed : Streamed st.receipts
  extended : ∃ new, st.receipts.rows.filterMap (fun r => r.item.event?) = base ++ new
  seq : st.eventSeq = (st.receipts.rows.filterMap fun r => r.item.event?).length
  events : ∀ row ∈ st.events, ∃ i, row.1 = i + 1 ∧
    (st.receipts.rows.filterMap fun r => r.item.event?)[i]? = some row.2
  eventsNodup : (st.events.map Prod.fst).Nodup
  waiting : ∀ i e, (st.receipts.rows.filterMap fun r => r.item.event?)[i]? = some e → cursor ≤ i →
    (i + 1, e) ∈ st.events ∨ e.eventTs < cutoff

theorem Progressing.item {cursor : Nat} {base : List HttpEvent} {st st' : Progress} {stream : Stream}
    {item : Item} (h : Progressing cutoff cursor base st)
    (hstream : ∀ e, item = .valid e → stream = (e.sourceId, e.serviceId))
    (hstep : ingestItem stream st item = .ok st') : Progressing cutoff cursor base st' := by
  rw [ingestItem] at hstep
  cases hfind : st.receipts.find? (stream, item.eventId) with
  | some previous =>
    rw [hfind] at hstep
    dsimp only at hstep
    split at hstep
    · cases hstep
      exact ⟨h.streamed, h.extended, h.seq, h.events, h.eventsNodup, h.waiting⟩
    · cases hstep
  | none =>
    rw [hfind] at hstep
    have hrows : (st.receipts.insertOrIgnore ⟨stream, item⟩).rows = st.receipts.rows ++
        [⟨stream, item⟩] := Table.rows_insertOrIgnore hfind
    have hstreamed : Streamed (st.receipts.insertOrIgnore ⟨stream, item⟩) := by
      intro r hr e he
      rw [Table.mem_def, hrows, List.mem_append, List.mem_singleton] at hr
      rcases hr with hr | rfl
      · exact h.streamed r hr e he
      · exact hstream e he
    have hlog : (st.receipts.insertOrIgnore ⟨stream, item⟩).rows.filterMap
        (fun r => r.item.event?) = st.receipts.rows.filterMap (fun r => r.item.event?) ++
          item.event?.toList := by
      rw [hrows, List.filterMap_append]
      cases item <;> rfl
    obtain ⟨new, hnew⟩ := h.extended
    cases item with
    | rejected id =>
      cases hstep
      rw [show (Item.rejected id).event?.toList = [] from rfl, List.append_nil] at hlog
      refine ⟨hstreamed, ⟨new, hlog.trans hnew⟩, ?_, ?_, h.eventsNodup, ?_⟩
      · dsimp only
        rw [hlog]
        exact h.seq
      · dsimp only
        rw [hlog]
        exact h.events
      · dsimp only
        rw [hlog]
        exact h.waiting
    | valid event =>
      cases hstep
      rw [show (Item.valid event).event?.toList = [event] from rfl] at hlog
      refine ⟨hstreamed, ⟨new ++ [event], by rw [hlog, hnew, List.append_assoc]⟩, ?_, ?_, ?_, ?_⟩
      · dsimp only
        rw [hlog, List.length_append, List.length_singleton, h.seq]
      · intro row hrow
        dsimp only at hrow ⊢
        rw [hlog]
        rcases List.mem_append.mp hrow with hrow | hrow
        · obtain ⟨i, hi, hget⟩ := h.events row hrow
          exact ⟨i, hi, getElem?_append_of_some hget⟩
        · rw [List.mem_singleton] at hrow
          refine ⟨st.eventSeq, by rw [hrow], ?_⟩
          rw [hrow, h.seq]
          exact List.getElem?_concat_length
      · dsimp only
        rw [List.map_append, List.map_singleton]
        refine List.nodup_append.mpr ⟨h.eventsNodup, List.nodup_singleton _, ?_⟩
        intro a ha b hb hab
        obtain ⟨row, hrow, rfl⟩ := List.mem_map.mp ha
        obtain ⟨i, hi, hget⟩ := h.events row hrow
        have hlt := (List.getElem?_eq_some_iff.mp hget).1
        rw [List.mem_singleton] at hb
        rw [← h.seq] at hlt
        omega
      · intro i e hget hc
        dsimp only at hget ⊢
        rw [hlog] at hget
        by_cases hlt : i < (st.receipts.rows.filterMap fun r => r.item.event?).length
        · rw [List.getElem?_append_left hlt] at hget
          exact (h.waiting i e hget hc).imp_left fun hmem => List.mem_append_left _ hmem
        · have hi : i = (st.receipts.rows.filterMap fun r => r.item.event?).length := by
            have hle := (List.getElem?_eq_some_iff.mp hget).1
            rw [List.length_append, List.length_singleton] at hle
            omega
          rw [hi, List.getElem?_concat_length] at hget
          rw [hi, ← h.seq, ← Option.some.inj hget]
          exact Or.inl (List.mem_append_right _ (List.mem_singleton_self _))

theorem Progressing.items {cursor : Nat} {base : List HttpEvent} {stream : Stream}
    {items : List Item} {st st' : Progress} (h : Progressing cutoff cursor base st)
    (hstream : ∀ item ∈ items, ∀ e, item = .valid e → stream = (e.sourceId, e.serviceId))
    (hfold : items.foldlM (ingestItem stream) st = .ok st') :
    Progressing cutoff cursor base st' := by
  induction items generalizing st with
  | nil =>
    cases hfold
    exact h
  | cons item items ih =>
    rw [List.foldlM_cons] at hfold
    obtain ⟨mid, hmid, hrest⟩ := bind_eq_ok.mp hfold
    exact ih (h.item (hstream item List.mem_cons_self) hmid)
      (fun i hi => hstream i (List.mem_cons_of_mem _ hi)) hrest

theorem HttpBatch.items_streamed (batch : HttpBatch) : ∀ item ∈ batch.items, ∀ e,
    item = .valid e → batch.stream = (e.sourceId, e.serviceId) := by
  intro item hitem e he
  rw [HttpBatch.items, List.mem_append] at hitem
  rcases hitem with hitem | hitem
  · obtain ⟨r, -, rfl⟩ := List.mem_map.mp hitem
    cases he
    rfl
  · obtain ⟨id, -, rfl⟩ := List.mem_map.mp hitem
    cases he

/-- Receipts have distinct keys, so records of one peer have distinct ids. -/
theorem Streamed.apart {db : Db} (h : Streamed db.receipts) : Apart (accepted db) := by
  have hkeys : db.receipts.rows.Pairwise fun r r' => r.key ≠ r'.key :=
    List.pairwise_map.mp db.receipts.nodup
  refine List.pairwise_filterMap.mpr (hkeys.imp_of_mem ?_)
  intro r r' hr hr' hne a ha b hb hpeer hkey
  have hitem : ∀ {r : Receipt} {e : HttpEvent}, r.item.event? = some e → r.item = .valid e := by
    intro r e he
    cases hcase : r.item with
    | valid event =>
      rw [hcase] at he
      rw [Option.some.inj he]
    | rejected id =>
      rw [hcase] at he
      cases he
  have hra := hitem ha
  have hrb := hitem hb
  refine hne (Prod.ext ?_ ?_)
  · show r.stream = r'.stream
    rw [h r hr a hra, h r' hr' b hrb]
    have hpeer' := Prod.ext_iff.mp hpeer
    exact Prod.ext hpeer'.1 (congrArg Prod.fst hpeer'.2)
  · show r.item.eventId = r'.item.eventId
    rw [hra, hrb]
    exact congrArg Prod.snd hkey

/-- **A new batch** adds receipts and records, and drops expired records. -/
theorem Tracked.ingestFresh {db db' : Db} {batch : HttpBatch} {response : Response}
    (h : Tracked cutoff (accepted db) db.analysis) (hstreamed : Streamed db.receipts)
    (hle : env.cutoff now ≤ cutoff)
    (hok : ingestFresh env now batch db = .ok (response, db')) :
    Streamed db'.receipts ∧ Tracked cutoff (accepted db') db'.analysis ∧
      (∃ new, accepted db' = accepted db ++ new) ∧
      db'.analysis = { db.analysis with
        events := db'.analysis.events, eventSeq := db'.analysis.eventSeq } := by
  rw [Http.ingestFresh] at hok
  obtain ⟨st, hst, hdb⟩ := bind_eq_ok.mp hok
  have hstart : Progressing cutoff db.analysis.cursor (accepted db)
      ⟨db.receipts, db.analysis.events, db.analysis.eventSeq, 0, 0, 0⟩ :=
    ⟨hstreamed, ⟨[], by rw [List.append_nil]; rfl⟩, h.seq, h.events, h.eventsNodup, h.waiting⟩
  have hend := hstart.items batch.items_streamed hst
  cases hdb
  obtain ⟨new, hnew⟩ := hend.extended
  have hlog : st.receipts.rows.filterMap (fun r => r.item.event?) = accepted db ++ new := hnew
  refine ⟨hend.streamed, ⟨hend.seq, ?_, ?_, ?_, ?_, h.contextNodup, ?_, ?_⟩, ⟨new, hnew⟩, rfl⟩
  · show db.analysis.cursor ≤ st.eventSeq
    have hold := h.cursor
    rw [h.seq] at hold
    rw [hend.seq, hlog, List.length_append]
    omega
  · intro row hrow
    exact hend.events row (mem_deleteExpired.1 hrow)
  · exact hend.eventsNodup.sublist ((deleteExpired_sublist _).map _)
  · intro row hrow
    obtain ⟨i, hi, hlt, hget⟩ := h.context row hrow
    refine ⟨i, hi, hlt, ?_⟩
    show (st.receipts.rows.filterMap fun r => r.item.event?)[i]? = _
    rw [hlog]
    exact getElem?_append_of_some hget
  · intro i e hget hc
    exact (hend.waiting i e hget hc).elim
      (fun hmem => (mem_deleteExpired_or hmem).imp_right fun hlt => hlt.trans_le hle) Or.inr
  · intro i e hget hc
    have hlt : i < (accepted db).length := by
      have := h.cursor
      rw [h.seq] at this
      exact lt_of_lt_of_le hc this
    have hget' : (accepted db ++ new)[i]? = some e := hlog ▸ hget
    rw [List.getElem?_append_left hlt] at hget'
    exact h.taken i e hget' hc

/-- The invariant of the store at a time. -/
structure Inv (env : Env) (now : ℚ) (db : Db) : Prop where
  streamed : Streamed db.receipts
  tracked : Tracked (env.cutoff now) (accepted db) db.analysis
  cases : CasesRight env (env.cutoff now) db.analysis

theorem cutoff_mono {now' : ℚ} (h : now ≤ now') : env.cutoff now ≤ env.cutoff now' :=
  sub_le_sub_right h _

theorem Inv.mono {db : Db} {now' : ℚ} (h : Inv env now db) (hle : now ≤ now') : Inv env now' db :=
  ⟨h.streamed, h.tracked.mono (cutoff_mono hle), h.cases.mono (cutoff_mono hle)⟩

theorem Inv.ingest {db db' : Db} {batch : HttpBatch} {response : Response} (h : Inv env now db)
    (hok : ingest env now batch db = .ok (response, db')) : Inv env now db' := by
  rw [Http.ingest] at hok
  obtain ⟨-, -, hok⟩ := bind_eq_ok.mp hok
  split at hok
  · split at hok
    · cases hok
      exact h
    · cases hok
  · obtain ⟨hstreamed, htracked, -, hsame⟩ := h.tracked.ingestFresh h.streamed le_rfl hok
    refine ⟨hstreamed, htracked, ?_⟩
    rw [hsame]
    exact ⟨h.cases.hours, h.cases.marked, h.cases.members, h.cases.clean⟩

/-! ### Runs -/

theorem inv_empty (env : Env) (now : ℚ) : Inv env now .empty := by
  refine ⟨fun r hr => absurd hr (Table.not_mem_empty r), ⟨rfl, le_rfl, ?_, List.nodup_nil, ?_,
    List.nodup_nil, ?_, ?_⟩, ⟨?_, ?_, ?_, ?_⟩⟩
  · exact fun row hrow => absurd hrow List.not_mem_nil
  · exact fun row hrow => absurd hrow List.not_mem_nil
  · exact fun i e hi => absurd hi (by simp [accepted, Db.empty, Table.empty])
  · exact fun i e hi => absurd hi (by simp [accepted, Db.empty, Table.empty])
  · exact fun key w hw => absurd hw (by simp [Db.empty, Analysis.empty])
  · exact fun row hrow => absurd hrow List.not_mem_nil
  · exact CaseBook.members_empty
  · exact fun key w hw => absurd hw (by simp [Db.empty, Analysis.empty])

/-- **One transaction.** -/
theorem Inv.next {db : Db} {s : Step} (h : Inv env s.now db) : Inv env s.now (next env db s) := by
  obtain ⟨now, op⟩ := s
  cases op with
  | ingest batch =>
    rw [Http.next]
    dsimp only
    split
    · rename_i db' hok
      exact h.ingest hok
    · exact h
  | intake limit => exact ⟨h.streamed, h.tracked.intake limit, h.cases.intake h.tracked limit⟩
  | analyze key =>
    rw [Http.next]
    dsimp only
    split
    · split
      · rename_i B hB
        obtain ⟨hcases, htracked⟩ := h.cases.analyze h.streamed.apart h.tracked hB
        exact ⟨h.streamed, htracked, hcases⟩
      · exact h
    · exact h
  | prune => exact ⟨h.streamed, h.tracked.prune le_rfl, h.cases.prune⟩

/-- **Every run.** -/
theorem inv_run {steps : List Step} (hclock : Clocked steps) (hnow : ∀ s ∈ steps, s.now ≤ now) :
    Inv env now (run (next env) .empty steps) := by
  suffices hgen : ∀ (steps : List Step) (db : Db) (start : ℚ), Inv env start db →
      Clocked steps → (∀ s ∈ steps, start ≤ s.now) → start ≤ now → (∀ s ∈ steps, s.now ≤ now) →
        Inv env now (run (next env) db steps) by
    cases steps with
    | nil => exact inv_empty env now
    | cons s rest =>
      refine hgen (s :: rest) .empty s.now (inv_empty env s.now) hclock ?_
        (hnow s List.mem_cons_self) hnow
      intro s' hs'
      rcases List.mem_cons.mp hs' with rfl | hs'
      · exact le_rfl
      · exact (List.pairwise_cons.mp hclock).1 s'.now (List.mem_map_of_mem hs')
  intro steps
  induction steps with
  | nil =>
    intro db start h _ _ hle _
    exact h.mono hle
  | cons s rest ih =>
    intro db start h hclock hstart _ hnow
    have hcons := List.pairwise_cons.mp hclock
    rw [run_cons]
    refine ih _ s.now (h.mono (hstart s List.mem_cons_self)).next hcons.2 ?_
      (hnow s List.mem_cons_self) fun s' hs' => hnow s' (List.mem_cons_of_mem _ hs')
    intro s' hs'
    exact hcons.1 s'.now (List.mem_map_of_mem hs')

/-- In a settled store the context of a fresh window is that of the whole history. -/
theorem Inv.contextOf {db : Db} {p : Peer} {hour : ℤ} (h : Inv env now db) (hsettled : Settled db)
    (hfresh : env.cutoff now ≤ (hour : ℚ) - 300) :
    ContextOf (acceptedOf db p) (p, hour) (contextRows db.analysis (p, hour)) := by
  have hd := h.streamed.apart.distinct p
  have hleft : (contextRows db.analysis (p, hour)).Nodup :=
    List.Nodup.of_map _ (distinct_contextRows h.tracked h.streamed.apart (p, hour))
  have hright : ((acceptedOf db p).filter (inContext (p, hour))).Nodup :=
    (List.Nodup.of_map _ hd).filter _
  refine (List.perm_ext_iff_of_nodup hleft hright).mpr fun e => ?_
  rw [mem_contextRows_iff h.tracked hfresh, List.mem_filter]
  constructor
  · intro ⟨i, _, hget, hin⟩
    refine ⟨List.mem_filter.mpr ⟨List.mem_of_getElem? hget, ?_⟩, hin⟩
    exact decide_eq_true (inContext_iff.mp hin).1
  · intro ⟨hmem, hin⟩
    obtain ⟨i, hget⟩ := List.mem_iff_getElem?.mp (List.mem_filter.mp hmem).1
    have hlt : i < (accepted db).length := (List.getElem?_eq_some_iff.mp hget).1
    rw [← h.tracked.seq] at hlt
    exact ⟨i, hlt.trans_le hsettled.1, hget, hin⟩

/-- **Incremental HTTP analysis equals batch analysis.** For every run of batches, intakes,
analyses and prunings under a clock that does not go back: a window read as complete holds
exactly the records up to the cursor in its context; and in a settled store, for an hour that
retention has not reached and whose context fits in one analysis, a record of the hour is in
the evidence of its case exactly when it lies in a finding over all records of its peer. -/
theorem incremental_eq_batch (env : Env) (steps : List Step) (hclock : Clocked steps) (now : ℚ)
    (hnow : ∀ s ∈ steps, s.now ≤ now) :
    (∀ key, (readWindow env (run (next env) .empty steps).analysis key now).2 = .complete →
      ∀ e, e ∈ (readWindow env (run (next env) .empty steps).analysis key now).1 ↔
        ∃ i < (run (next env) .empty steps).analysis.cursor,
          (accepted (run (next env) .empty steps))[i]? = some e ∧ inContext key e = true) ∧
    (Settled (run (next env) .empty steps) → ∀ (p : Peer) (hour : ℤ), 3600 ∣ hour →
      env.cutoff now ≤ (hour : ℚ) - 300 →
      WithinLimits env ((acceptedOf (run (next env) .empty steps) p).filter (inContext (p, hour))) →
      ∃ findings, detectWeb env.casefold (acceptedOf (run (next env) .empty steps) p) = .ok findings ∧
        ∀ e ∈ acceptedOf (run (next env) .empty steps) p, InHour hour e →
          (e.eventId ∈ (run (next env) .empty steps).analysis.book.holds (p, hour) ↔
            ∃ f ∈ findings, e.eventId ∈ f.evidenceIds)) := by
  have h : Inv env now (run (next env) .empty steps) := inv_run hclock hnow
  obtain ⟨db, hdb⟩ : ∃ db, db = run (next env) .empty steps := ⟨_, rfl⟩
  rw [← hdb] at h ⊢
  refine ⟨?_, ?_⟩
  · intro key hcomplete e
    obtain ⟨hread, hfresh⟩ := readWindow_complete hcomplete
    rw [hread]
    exact mem_contextRows_iff h.tracked hfresh
  · intro hsettled p hour hdvd hfresh hlimits
    have hpeer : ∀ e ∈ acceptedOf db p, e.peer = p :=
      fun e he => of_decide_eq_true (List.mem_filter.mp he).2
    have hd : Distinct (acceptedOf db p) := h.streamed.apart.distinct p
    have hcontext := h.contextOf (p := p) hsettled hfresh
    obtain ⟨findings, hfindings, -⟩ := detectWeb_spec env.casefold hpeer hd
    obtain ⟨fs, hfs, -⟩ := detectWeb_spec env.casefold hcontext.peer (hcontext.distinct hd)
    refine ⟨findings, hfindings, fun e he hin => ?_⟩
    have hine : inContext (p, hour) e = true :=
      inContext_iff.mpr ⟨hpeer e he, hin.inContext⟩
    have hec : e ∈ contextRows db.analysis (p, hour) := hcontext.mem.mpr ⟨he, hine⟩
    -- The record has marked its hour, and nothing is dirty.
    obtain ⟨row, hrow, hsnd⟩ : ∃ row ∈ db.analysis.context, row.2 = e := by
      obtain ⟨row, hrow, hsnd⟩ := List.mem_map.mp hec
      rw [List.mem_insertionSort, List.mem_filter] at hrow
      exact ⟨row, hrow.1, hsnd⟩
    obtain ⟨w, hw⟩ := h.cases.marked row hrow (p, hour) (hsnd ▸ mem_windowsOf hdvd hine)
    have hright := h.cases.clean (p, hour) w hw (hsettled.2 w (Table.mem_of_find? hw)) hfresh
      ((WithinLimits.perm hcontext).mpr hlimits) fs hfs e.eventId
    rw [hright, mem_selectedIds_iff hcontext.peer (hcontext.distinct hd) hfs hec hin,
      cited_context_iff hcontext hpeer hin, mem_finding_iff hpeer hd hfindings he]

/-! #### A request for a known resource -/

/-- One request for `/.git`. -/
def probeBatch (ts : ℚ) : HttpBatch :=
  ⟨"web".toList, "site".toList, "b0".toList,
    [⟨['1'], ['1'], ts, "192.0.2.1".toList, "GET".toList, "/.git".toList, "/.git".toList, 404⟩],
    [], [], true, "1970-02-01T00:00:00Z".toList⟩

/-- The request arrives and is analysed. -/
def probeSteps (ts now : ℚ) (hour : ℤ) : List Step :=
  [⟨now, .ingest (probeBatch ts)⟩, ⟨now, .intake 200⟩, ⟨now, .analyze (samplePeer, hour)⟩,
    ⟨now, .prune⟩]

theorem incremental_eq_batch_probe :
    Settled (run (next sampleEnv) .empty (probeSteps 9000 9010 7200)) ∧
      ['1'] ∈ (run (next sampleEnv) .empty (probeSteps 9000 9010 7200)).analysis.book.holds
        (samplePeer, 7200) ∧
      ∃ findings, detectWeb sampleEnv.casefold
          (acceptedOf (run (next sampleEnv) .empty (probeSteps 9000 9010 7200)) samplePeer) =
            .ok findings ∧
        ∀ e ∈ acceptedOf (run (next sampleEnv) .empty (probeSteps 9000 9010 7200)) samplePeer,
          InHour 7200 e →
          (e.eventId ∈ (run (next sampleEnv) .empty
              (probeSteps 9000 9010 7200)).analysis.book.holds (samplePeer, 7200) ↔ ∃ f ∈ findings, e.eventId ∈ f.evidenceIds) := by
  have hsettled : Settled (run (next sampleEnv) .empty (probeSteps 9000 9010 7200)) := by
    refine ⟨by decide +kernel, ?_⟩
    show ∀ w ∈ (run (next sampleEnv) .empty (probeSteps 9000 9010 7200)).analysis.windows.rows, _
    decide +kernel
  have hclock : Clocked (probeSteps 9000 9010 7200) := by
    simp [Clocked, probeSteps]
  have hlimits : WithinLimits sampleEnv
      ((acceptedOf (run (next sampleEnv) .empty (probeSteps 9000 9010 7200)) samplePeer).filter
        (inContext (samplePeer, 7200))) :=
    ⟨by decide +kernel, by decide +kernel⟩
  refine ⟨hsettled, by decide +kernel, ?_⟩
  exact (incremental_eq_batch sampleEnv (probeSteps 9000 9010 7200) hclock 9010
    (by simp [probeSteps])).2 hsettled samplePeer 7200 (by norm_num)
    (by norm_num [Env.cutoff, sampleEnv]) hlimits

/-- **A request that is older than the retention is never analysed.** It is accepted fifteen
days late: nothing waits, no case cites it, and the rules over all records of the peer find it. -/
theorem expired_request_not_cited :
    Clocked (probeSteps 9000 1305000 7200) ∧
      Settled (run (next sampleEnv) .empty (probeSteps 9000 1305000 7200)) ∧
      ∃ e ∈ acceptedOf (run (next sampleEnv) .empty (probeSteps 9000 1305000 7200)) samplePeer,
        InHour 7200 e ∧
        e.eventId ∉ (run (next sampleEnv) .empty
          (probeSteps 9000 1305000 7200)).analysis.book.holds (samplePeer, 7200) ∧
        ∃ findings, detectWeb sampleEnv.casefold
            (acceptedOf (run (next sampleEnv) .empty (probeSteps 9000 1305000 7200)) samplePeer) =
              .ok findings ∧ ∃ f ∈ findings, e.eventId ∈ f.evidenceIds := by
  have hrecords : acceptedOf (run (next sampleEnv) .empty (probeSteps 9000 1305000 7200)) samplePeer =
      (probeBatch 9000).records.map (probeBatch 9000).event := by
    decide +kernel
  have hcited : ((detectWeb sampleEnv.casefold ((probeBatch 9000).records.map
      (probeBatch 9000).event)).toOption.any fun findings =>
        findings.any fun f => decide (['1'] ∈ f.evidenceIds)) = true := by
    decide +kernel
  obtain ⟨findings, hfindings, hmem⟩ := (Option.any_eq_true _ _).mp hcited
  obtain ⟨f, hf, hid⟩ := List.any_eq_true.mp hmem
  refine ⟨by simp [Clocked, probeSteps], ⟨by decide +kernel, ?_⟩, ?_⟩
  · show ∀ w ∈ (run (next sampleEnv) .empty (probeSteps 9000 1305000 7200)).analysis.windows.rows, _
    decide +kernel
  · rw [hrecords]
    refine ⟨_, List.mem_cons_self, ⟨?_, ?_⟩, ?_, findings, eq_ok_of_toOption hfindings, f, hf,
      of_decide_eq_true hid⟩
    · norm_num [HttpBatch.event]
    · norm_num [HttpBatch.event]
    · show ['1'] ∉ _
      decide +kernel

/-! ### `process` is a run -/

theorem analyzeWindows_eq_run {limit : Nat} (db : Db)
    (h : analyzeWindows env now limit db.analysis = .ok B) :
    ∃ steps, (∀ s ∈ steps, s.now = now) ∧
      run (next env) db steps = { db with analysis := B } := by
  induction limit generalizing db with
  | zero =>
    cases h
    exact ⟨[], by simp, rfl⟩
  | succ limit ih =>
    rw [analyzeWindows] at h
    split at h
    · cases h
      exact ⟨[], by simp, rfl⟩
    · rename_i key hkey
      obtain ⟨C, hC, hrest⟩ := bind_eq_ok.mp h
      obtain ⟨steps, hsteps, hrun⟩ := ih { db with analysis := C } hrest
      refine ⟨⟨now, .analyze key⟩ :: steps, ?_, ?_⟩
      · intro s hs
        rcases List.mem_cons.mp hs with rfl | hs
        · rfl
        · exact hsteps s hs
      · have hstep : next env db ⟨now, .analyze key⟩ = { db with analysis := C } := by
          rw [next]
          dsimp only
          rw [if_pos (DirtyWindow.isDirty_of_next? hkey), hC]
        rw [run_cons, hstep, hrun]

/-- **`process` takes its transactions one after the other.** -/
theorem process_eq_run {intakeLimit windowLimit : Nat} {db : Db} {caughtUp : Bool}
    (h : process env now intakeLimit windowLimit db.analysis = .ok (caughtUp, B)) :
    ∃ steps, (∀ s ∈ steps, s.now = now) ∧
      run (next env) db steps = { db with analysis := B } := by
  rw [process] at h
  split at h
  · cases h
  · dsimp only at h
    obtain ⟨C, hC, hend⟩ := bind_eq_ok.mp h
    have hanalysed : ∃ steps, (∀ s ∈ steps, s.now = now) ∧
        run (next env) { db with analysis := (intake now intakeLimit db.analysis).2 } steps =
          { db with analysis := C } := by
      rw [analyzeCaughtUp] at hC
      split at hC
      · exact analyzeWindows_eq_run { db with analysis := (intake now intakeLimit db.analysis).2 } hC
      · cases hC
        exact ⟨[], by simp, rfl⟩
    obtain ⟨steps, hsteps, hrun⟩ := hanalysed
    refine ⟨⟨now, .intake intakeLimit⟩ :: (steps ++ [⟨now, .prune⟩]), ?_, ?_⟩
    · intro s hs
      rw [List.mem_cons, List.mem_append, List.mem_singleton] at hs
      rcases hs with rfl | hs | rfl
      · rfl
      · exact hsteps s hs
      · rfl
    · rw [run_cons, run_append]
      show run (next env) (run (next env)
        { db with analysis := (intake now intakeLimit db.analysis).2 } steps) [⟨now, .prune⟩] = _
      rw [hrun]
      cases hend
      rfl

end RiskOps.Telemetry.Http
