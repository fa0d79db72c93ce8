import RiskOps.Telemetry.NetworkDetection

/-!
# RiskOps.Telemetry.NetworkDetectionSpec — what a probe finding holds

**An observation of one peer is in a finding exactly when it lies in a window that qualifies.**
Windows are stated over the observations in any order (`Probed`). The test only counts distinct
ports, so a window that loses observations can only stop qualifying: what a part of the history
finds, the whole history finds (`Probed.mono`).
-/

namespace RiskOps.Telemetry.Network

open RiskOps.Lib RiskOps.Lib.Sliding

variable {D : Type} {events : List (NetworkEvent D)} {p : Peer D}

/-! ### Distinct observations -/

/-- Observations whose keys are distinct. -/
def Distinct (events : List (NetworkEvent D)) : Prop := (events.map NetworkEvent.key).Nodup

theorem Distinct.filter (h : Distinct events) (q : NetworkEvent D → Bool) :
    Distinct (events.filter q) :=
  h.sublist (List.filter_sublist.map _)

theorem Distinct.perm {events' : List (NetworkEvent D)} (h : Distinct events)
    (hperm : events'.Perm events) : Distinct events' :=
  (hperm.map NetworkEvent.key).nodup_iff.mpr h

variable {a b : NetworkEvent D}

theorem Distinct.eq_of_key (h : Distinct events) (ha : a ∈ events) (hb : b ∈ events)
    (hk : a.key = b.key) : a = b :=
  List.inj_on_of_nodup_map h ha hb hk

/-- In one group the identifier alone tells observations apart. -/
theorem Distinct.eq_of_eventId (h : Distinct events) (hpeer : ∀ e ∈ events, e.peer = p)
    (ha : a ∈ events) (hb : b ∈ events) (hid : a.eventId = b.eventId) : a = b := by
  have hsame : a.peer = b.peer := (hpeer a ha).trans (hpeer b hb).symm
  have hsource : a.sourceId = b.sourceId := congrArg Peer.sourceId hsame
  exact h.eq_of_key ha hb (Prod.ext hsource hid)

/-! ### Ports -/

/-- The distinct ports of some observations. -/
def portCount (seg : List (NetworkEvent D)) : Nat := (seg.map fun e => e.dstPort).dedup.length

/-- At least ten distinct ports. -/
def Qualifies (seg : List (NetworkEvent D)) : Prop := minDistinctPorts ≤ portCount seg

theorem portCount_mono {a b : List (NetworkEvent D)} (h : a ⊆ b) : portCount a ≤ portCount b := by
  rw [portCount, portCount, ← List.card_toFinset, ← List.card_toFinset]
  refine Finset.card_le_card fun port hport => ?_
  obtain ⟨e, he, rfl⟩ := List.mem_map.mp (List.mem_toFinset.mp hport)
  exact List.mem_toFinset.mpr (List.mem_map_of_mem (h he))

/-- **More observations never stop a window from qualifying.** -/
theorem Qualifies.mono {a b : List (NetworkEvent D)} (hq : Qualifies a) (h : a ⊆ b) : Qualifies b :=
  Nat.le_trans hq (portCount_mono h)

/-- The counter of the scan. -/
def CountsPorts (ports : List (Option Nat)) (seg : List (NetworkEvent D)) : Prop :=
  ports.Perm (seg.map fun e => e.dstPort)

theorem probeRule_counts : (probeRule (D := D)).Counts CountsPorts Qualifies where
  width := by
    show (0 : ℚ) ≤ ((300 : ℕ) : ℚ) * 1000000
    norm_num
  init := List.Perm.refl _
  enter := by
    intro ports seg x h
    rw [CountsPorts, List.map_append]
    exact h.append_right _
  leave := by
    intro ports e seg h
    have herase := h.erase e.dstPort
    rw [List.map_cons, List.erase_cons_head] at herase
    exact herase
  live := by
    intro ports seg h
    show (!decide _) = true ↔ _
    rw [h.dedup.length_eq, Qualifies, portCount]
    simp

/-! ### The order of observations -/

theorem eventId_eq_of_order_eq (h : a.order = b.order) : a.key = b.key := by
  simp only [NetworkEvent.order, toLex_inj, Prod.mk.injEq] at h
  exact Prod.ext h.1 h.2.2.2

variable [LinearOrder D]

theorem sortRows_perm (events : List (NetworkEvent D)) : (sortRows events).Perm events :=
  List.perm_insertionSort _ _

variable {e : NetworkEvent D}

@[simp] theorem mem_sortRows : e ∈ sortRows events ↔ e ∈ events :=
  (sortRows_perm events).mem_iff

/-- Within one clock the order is by time, then by identifier. -/
theorem order_le_iff (hpeer : a.peer = b.peer) :
    a.order ≤ b.order ↔ a.journalMonotonicUs < b.journalMonotonicUs ∨
      a.journalMonotonicUs = b.journalMonotonicUs ∧ a.eventId ≤ b.eventId := by
  have hsource : a.sourceId = b.sourceId := congrArg Peer.sourceId hpeer
  have hboot : a.bootId = b.bootId := congrArg Peer.bootId hpeer
  simp only [NetworkEvent.order, Prod.Lex.toLex_le_toLex, hsource, hboot, lt_irrefl, false_or,
    true_and]

/-- Distinct observations of one group are strictly sorted, and sorted by time. -/
theorem sorted_sortRows (h : Distinct events) (hpeer : ∀ e ∈ events, e.peer = p) :
    Sorted probeRule NetworkEvent.order (sortRows events) := by
  have hle : (sortRows events).Pairwise fun a b => a.order ≤ b.order :=
    List.pairwise_insertionSort _ _
  have hkeys : (sortRows events).Pairwise fun a b => a.key ≠ b.key :=
    List.pairwise_map.mp (h.perm (sortRows_perm events))
  refine ⟨(hle.and hkeys).imp ?_, hle.imp_of_mem ?_⟩
  · intro a b ⟨hab, hne⟩
    exact lt_of_le_of_ne hab fun heq => hne (eventId_eq_of_order_eq heq)
  · intro a b ha hb hab
    have hsame : a.peer = b.peer :=
      (hpeer a (Iff.mp mem_sortRows ha)).trans (hpeer b (Iff.mp mem_sortRows hb)).symm
    have htime : a.journalMonotonicUs ≤ b.journalMonotonicUs := by
      rcases (order_le_iff hsame).mp hab with hlt | ⟨heq, -⟩
      · exact hlt.le
      · exact heq.le
    show (a.journalMonotonicUs : ℚ) ≤ b.journalMonotonicUs
    exact_mod_cast htime

/-! ### Windows that qualify -/

/-- The observations of the five minutes that end in `x`. -/
def window (events : List (NetworkEvent D)) (x : NetworkEvent D) : List (NetworkEvent D) :=
  windowOf probeRule NetworkEvent.order events x

theorem mem_window {x : NetworkEvent D} :
    e ∈ window events x ↔ e ∈ events ∧ e.order ≤ x.order ∧
      x.journalMonotonicUs ≤ e.journalMonotonicUs + 300000000 := by
  have hexpired : ¬ probeRule.Expired x e ↔
      x.journalMonotonicUs ≤ e.journalMonotonicUs + 300000000 := by
    rw [Rule.Expired, not_lt]
    show (x.journalMonotonicUs : ℚ) - e.journalMonotonicUs ≤ ((300 : ℕ) : ℚ) * 1000000 ↔ _
    rw [sub_le_iff_le_add']
    norm_num
    exact_mod_cast Iff.rfl
  rw [window, mem_windowOf, hexpired]

/-- **The observation is part of a probe.** Some window of eligible observations holds it and
qualifies. -/
def Probed (events : List (NetworkEvent D)) (e : NetworkEvent D) : Prop :=
  ∃ x ∈ events.filter eligible, Qualifies (window (events.filter eligible) x) ∧
    e ∈ window (events.filter eligible) x

/-- **What a part of the history finds, the whole history finds.** -/
theorem Probed.mono {part : List (NetworkEvent D)} (h : Probed part e) (hsub : part ⊆ events) :
    Probed events e := by
  obtain ⟨x, hx, hq, he⟩ := h
  have helig : part.filter eligible ⊆ events.filter eligible := List.filter_subset _ hsub
  have hwindow : window (part.filter eligible) x ⊆ window (events.filter eligible) x :=
    List.filter_subset _ helig
  exact ⟨x, helig hx, hq.mono hwindow, hwindow he⟩

/-- **A probe of the whole history is a probe of any part that holds its neighbours.** -/
theorem Probed.of_near {part : List (NetworkEvent D)} (hpeer : ∀ a ∈ events, a.peer = p)
    (h : Probed events e)
    (hnear : ∀ a ∈ events, a.journalMonotonicUs ≤ e.journalMonotonicUs + 300000000 →
      e.journalMonotonicUs ≤ a.journalMonotonicUs + 300000000 → a ∈ part) : Probed part e := by
  obtain ⟨x, hx, hq, he⟩ := h
  obtain ⟨heligible, hbefore, hrecent⟩ := Iff.mp mem_window he
  have hmono : ∀ {a b : NetworkEvent D}, a ∈ events.filter eligible → b ∈ events.filter eligible →
      a.order ≤ b.order → a.journalMonotonicUs ≤ b.journalMonotonicUs := by
    intro a b ha hb hab
    have hsame : a.peer = b.peer :=
      (hpeer a (List.mem_filter.mp ha).1).trans (hpeer b (List.mem_filter.mp hb).1).symm
    rcases (order_le_iff hsame).mp hab with hlt | ⟨heq, -⟩
    · exact hlt.le
    · exact heq.le
  have hex := hmono heligible hx hbefore
  have hpart : ∀ a ∈ events.filter eligible, a.journalMonotonicUs ≤ x.journalMonotonicUs →
      x.journalMonotonicUs ≤ a.journalMonotonicUs + 300000000 → a ∈ part.filter eligible := by
    intro a ha hle hrec
    obtain ⟨hmem, helig⟩ := List.mem_filter.mp ha
    exact List.mem_filter.mpr ⟨hnear a hmem (by omega) (by omega), helig⟩
  have hwindow : window (events.filter eligible) x ⊆ window (part.filter eligible) x := by
    intro a ha
    obtain ⟨hmem, hle, hrec⟩ := Iff.mp mem_window ha
    exact Iff.mpr mem_window ⟨hpart a hmem (hmono hmem hx hle) hrec, hle, hrec⟩
  exact ⟨x, hpart x hx le_rfl (by omega), hq.mono hwindow, hwindow he⟩

theorem Probed.mem (h : Probed events e) : e ∈ events := by
  obtain ⟨x, -, -, he⟩ := h
  exact (List.mem_filter.mp (Iff.mp mem_window he).1).1

theorem Probed.perm {events' : List (NetworkEvent D)} (hperm : events'.Perm events) :
    Probed events' e ↔ Probed events e :=
  ⟨fun h => h.mono hperm.subset, fun h => h.mono hperm.symm.subset⟩

/-! ### Gathering the input -/

omit [LinearOrder D] in
theorem Distinct.not_mem_key {unique : List (NetworkEvent D)} (h : Distinct (unique ++ e :: events)) :
    ∀ u ∈ unique, u.key ≠ e.key := by
  intro u hu hkey
  rw [Distinct, List.map_append, List.nodup_append] at h
  exact h.2.2 u.key (List.mem_map_of_mem hu) e.key (by simp) hkey

theorem addUnique_eq {unique : List (NetworkEvent D)} (h : ∀ u ∈ unique, u.key ≠ e.key) :
    addUnique unique e = .ok (unique ++ [e]) := by
  have hnone : unique.find? (fun before => decide (before.key = e.key)) = none := by
    rw [List.find?_eq_none]
    intro u hu
    simpa using h u hu
  rw [addUnique, hnone]

variable {det : Detector D} {limits : InputLimits}

/-- Distinct observations are all kept. -/
theorem unique_of_gathered {st st' : Gathered D} (hd : Distinct (st.unique ++ events))
    (h : events.foldlM (gather det limits) st = .ok st') : st'.unique = st.unique ++ events := by
  induction events generalizing st with
  | nil =>
    cases h
    rw [List.append_nil]
  | cons e events ih =>
    rw [List.foldlM_cons] at h
    obtain ⟨mid, hmid, hrest⟩ := bind_eq_ok.mp h
    have hunique : mid.unique = st.unique ++ [e] := by
      rw [gather] at hmid
      split at hmid
      · cases hmid
      · obtain ⟨-, -, hmid⟩ := bind_eq_ok.mp hmid
        split at hmid
        · cases hmid
        · rw [addUnique_eq hd.not_mem_key] at hmid
          cases hmid
          rfl
    rw [ih (by rw [hunique]; simpa using hd) hrest, hunique, List.append_assoc,
      List.singleton_append]

/-- Without limits every list of distinct valid observations is gathered. -/
theorem gathered_of_valid (det : Detector D) (st : Gathered D)
    (hd : Distinct (st.unique ++ events))
    (hvalid : ∀ e ∈ events, validateEvent det.digests e = .ok ()) :
    ∃ st', events.foldlM (gather det noLimits) st = .ok st' := by
  induction events generalizing st with
  | nil => exact ⟨st, rfl⟩
  | cons e events ih =>
    have hstep : gather det noLimits st e = .ok ⟨st.unique ++ [e], st.inputCount + 1,
        st.byteCount + det.size e, st.coverage ∪ e.notes⟩ := by
      rw [gather, hvalid e List.mem_cons_self, addUnique_eq hd.not_mem_key]
      rfl
    obtain ⟨st', hst'⟩ := ih ⟨st.unique ++ [e], st.inputCount + 1,
      st.byteCount + det.size e, st.coverage ∪ e.notes⟩ (by simpa using hd)
      fun e' he' => hvalid e' (List.mem_cons_of_mem _ he')
    refine ⟨st', ?_⟩
    rw [List.foldlM_cons, hstep]
    exact hst'

/-! ### Findings -/

omit [LinearOrder D] in
theorem finding?_eq_some {uncertain : Bool} {count : Nat} {rows : List (NetworkEvent D)}
    {f : NetworkFinding D} (h : finding? uncertain count rows = some f) :
    f.evidenceIds = rows.map NetworkEvent.eventId := by
  rw [finding?] at h
  cases rows with
  | nil => simp at h
  | cons e rows =>
    simp only [List.head?_cons, Option.bind_eq_bind, Option.bind_some, List.getLast?_cons,
      Option.some.injEq] at h
    subst h
    rfl

omit [LinearOrder D] in
theorem finding?_isSome (uncertain : Bool) (count : Nat) {rows : List (NetworkEvent D)}
    (h : rows ≠ []) : ∃ f, finding? uncertain count rows = some f := by
  cases rows with
  | nil => exact absurd rfl h
  | cons e rows => exact ⟨_, by rw [finding?, List.head?_cons, List.getLast?_cons]; rfl⟩

/-- **The findings of one group hold exactly its probes.** -/
theorem mem_findings_iff {st : Gathered D} (hunique : st.unique = events) (hd : Distinct events)
    (hpeer : ∀ e ∈ events, e.peer = p) {id : D} :
    (∃ f ∈ (reportOf st).findings, id ∈ f.evidenceIds) ↔
      ∃ e ∈ events, e.eventId = id ∧ Probed events e := by
  obtain ⟨rows, hrows⟩ : ∃ rows, rows = (sortRows events).filter eligible := ⟨_, rfl⟩
  have hmem : ∀ e ∈ rows, e ∈ events := fun e he =>
    mem_sortRows.mp (List.mem_filter.mp (hrows ▸ he)).1
  have hsorted : Sorted probeRule NetworkEvent.order rows :=
    hrows ▸ (sorted_sortRows hd hpeer).filter eligible
  have hfindings : (reportOf st).findings = (peers rows).flatMap fun q =>
      scanRows ((clockWarnings (sortRows events)).contains (q.sourceId, q.bootId))
        (rows.filter fun e => e.peer = q) := by
    rw [reportOf, hunique, hrows]
  have hgroup : ∀ q ∈ peers rows, rows.filter (fun e => decide (e.peer = q)) = rows := by
    intro q hq
    rw [peers, List.mem_insertionSort, List.mem_dedup] at hq
    obtain ⟨a, ha, rfl⟩ := List.mem_map.mp hq
    refine List.filter_eq_self.mpr fun e he => decide_eq_true ?_
    exact (hpeer e (hmem e he)).trans (hpeer a (hmem a ha)).symm
  have hprobed : ∀ e, Probed events e ↔
      ∃ x ∈ rows, Qualifies (window rows x) ∧ e ∈ window rows x := by
    intro e
    rw [← Probed.perm (sortRows_perm events), Probed, ← hrows]
  constructor
  · intro ⟨f, hf, hid⟩
    rw [hfindings, List.mem_flatMap] at hf
    obtain ⟨q, hq, hf⟩ := hf
    rw [hgroup q hq] at hf
    obtain ⟨iv, hiv, hfinding⟩ := List.mem_filterMap.mp hf
    rw [finding?_eq_some hfinding] at hid
    obtain ⟨e, he, rfl⟩ := List.mem_map.mp hid
    have hwindow := scan_sound probeRule_counts hsorted hiv he
    have hin : Probed events e := (hprobed e).mpr hwindow
    exact ⟨e, hin.mem, rfl, hin⟩
  · intro ⟨e, he, hid, hin⟩
    obtain ⟨x, hx, hq, hew⟩ := (hprobed e).mp hin
    obtain ⟨iv, hiv, hall⟩ := scan_complete probeRule_counts hsorted hx hq
    obtain ⟨f, hf⟩ := finding?_isSome
      ((clockWarnings (sortRows events)).contains (x.peer.sourceId, x.peer.bootId)) iv.count
      (List.ne_nil_of_mem (hall e hew))
    have hxpeer : x.peer ∈ peers rows := by
      rw [peers, List.mem_insertionSort, List.mem_dedup]
      exact List.mem_map_of_mem hx
    refine ⟨f, ?_, ?_⟩
    · rw [hfindings, List.mem_flatMap]
      refine ⟨x.peer, hxpeer, ?_⟩
      rw [hgroup x.peer hxpeer]
      exact List.mem_filterMap.mpr ⟨iv, hiv, hf⟩
    · rw [finding?_eq_some hf, ← hid]
      exact List.mem_map_of_mem (hall e hew)

/-- **The findings of `detect_network` over one group.** -/
theorem detectNetwork_findings {report : NetworkReport D} (hd : Distinct events)
    (hpeer : ∀ e ∈ events, e.peer = p) (h : detectNetwork det limits events = .ok report) {id : D} :
    (∃ f ∈ report.findings, id ∈ f.evidenceIds) ↔
      ∃ e ∈ events, e.eventId = id ∧ Probed events e := by
  obtain ⟨st, hst, hreport⟩ := bind_eq_ok.mp h
  cases hreport
  have hunique : st.unique = [] ++ events := unique_of_gathered (by simpa using hd) hst
  rw [List.nil_append] at hunique
  exact mem_findings_iff hunique hd hpeer

theorem detectNetwork_isOk (hd : Distinct events)
    (hvalid : ∀ e ∈ events, validateEvent det.digests e = .ok ()) :
    ∃ report, detectNetwork det noLimits events = .ok report := by
  obtain ⟨st, hst⟩ := gathered_of_valid det ⟨[], 0, 0, baseCoverage⟩
    (by simpa using hd) hvalid
  exact ⟨reportOf st, bind_eq_ok.mpr ⟨st, hst, rfl⟩⟩

end RiskOps.Telemetry.Network
