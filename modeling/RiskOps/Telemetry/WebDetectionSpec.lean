import RiskOps.Telemetry.WebDetection

/-!
# RiskOps.Telemetry.WebDetectionSpec — what a finding of one peer holds

**Findings are groups of rows, and groups are described by the rows alone.** For the point
rules a row is in a group exactly when it matches. For the scan rule a row is in a group
exactly when it lies in a window that qualifies; windows are stated over the records in any
order, since sorting only arranges them.
-/

namespace RiskOps.Telemetry.Http

open RiskOps.Lib RiskOps.Lib.Sliding

/-! ### The order of records -/

/-- Records whose keys are distinct. -/
def Distinct (events : List HttpEvent) : Prop := (events.map HttpEvent.key).Nodup

/-- Records in the order of `unique_events`. -/
def sortRows (events : List HttpEvent) : List HttpEvent :=
  events.insertionSort fun a b => a.order ≤ b.order

theorem sortRows_perm (events : List HttpEvent) : (sortRows events).Perm events :=
  List.perm_insertionSort _ _

@[simp] theorem mem_sortRows {events : List HttpEvent} {e : HttpEvent} :
    e ∈ sortRows events ↔ e ∈ events := (sortRows_perm events).mem_iff

variable {a b : HttpEvent}

theorem order_le_iff :
    a.order ≤ b.order ↔ a.eventTs < b.eventTs ∨ a.eventTs = b.eventTs ∧ toLex a.key ≤ toLex b.key :=
  Prod.Lex.le_iff

theorem eventTs_le_of_order_le (h : a.order ≤ b.order) : a.eventTs ≤ b.eventTs := by
  rcases (Iff.mp order_le_iff) h with h | ⟨h, -⟩
  · exact h.le
  · exact h.le

theorem key_eq_of_order_eq (h : a.order = b.order) : a.key = b.key := by
  have hpair : (a.eventTs, toLex a.key) = (b.eventTs, toLex b.key) := toLex.injective h
  exact toLex.injective (Prod.mk.inj hpair).2

theorem Distinct.eq_of_key {events : List HttpEvent} (h : Distinct events) (ha : a ∈ events)
    (hb : b ∈ events) (hk : a.key = b.key) : a = b :=
  List.inj_on_of_nodup_map h ha hb hk

theorem Distinct.filter {events : List HttpEvent} (h : Distinct events) (p : HttpEvent → Bool) :
    Distinct (events.filter p) :=
  h.sublist (List.filter_sublist.map _)

/-- Distinct records are strictly sorted, and sorted by time. -/
theorem sorted_sortRows {events : List HttpEvent} (h : Distinct events) :
    Sorted scanRule HttpEvent.order (sortRows events) := by
  have hle : (sortRows events).Pairwise fun a b => a.order ≤ b.order :=
    List.pairwise_insertionSort _ _
  have hkeys : (sortRows events).Pairwise fun a b => a.key ≠ b.key := by
    have hnodup : ((sortRows events).map HttpEvent.key).Nodup :=
      ((sortRows_perm events).map HttpEvent.key).nodup_iff.mpr h
    exact List.pairwise_map.mp hnodup
  refine ⟨(hle.and hkeys).imp ?_, hle.imp ?_⟩
  · intro a b ⟨hab, hne⟩
    exact lt_of_le_of_ne hab fun heq => hne (key_eq_of_order_eq heq)
  · intro a b hab
    exact eventTs_le_of_order_le hab

theorem foldlM_addUnique {events unique : List HttpEvent} (h : Distinct (unique ++ events)) :
    events.foldlM addUnique unique = .ok (unique ++ events) := by
  induction events generalizing unique with
  | nil => simp [List.foldlM_nil]; rfl
  | cons e events ih =>
    have hnone : unique.find? (fun u => decide (u.key = e.key)) = none := by
      rw [List.find?_eq_none]
      intro u hu
      have hne : u.key ≠ e.key := by
        intro hk
        rw [Distinct, List.map_append, List.nodup_append] at h
        exact h.2.2 u.key (List.mem_map_of_mem hu) e.key (by simp) hk
      simpa using hne
    have hstep : addUnique unique e = .ok (unique ++ [e]) := by
      rw [addUnique, hnone]
    rw [List.foldlM_cons, hstep]
    have hnext : events.foldlM addUnique (unique ++ [e]) = .ok (unique ++ [e] ++ events) :=
      ih (by simpa using h)
    rw [List.append_assoc, List.singleton_append] at hnext
    exact hnext

theorem uniqueEvents_eq {events : List HttpEvent} (h : Distinct events) :
    uniqueEvents events = .ok (sortRows events) := by
  have hfold : events.foldlM addUnique [] = .ok ([] ++ events) :=
    foldlM_addUnique (by simpa using h)
  rw [List.nil_append] at hfold
  rw [uniqueEvents, hfold]
  rfl

/-! ### Windows that qualify -/

/-- At least 20 records, 10 distinct paths and 80 percent denied. -/
def Qualifies (seg : List HttpEvent) : Prop :=
  scanMinRecords ≤ seg.length ∧ scanMinPaths ≤ (seg.map HttpEvent.decodedPath).dedup.length ∧
    scanDeniedPercent * seg.length ≤ seg.countP denied * 100

instance (seg : List HttpEvent) : Decidable (Qualifies seg) := inferInstanceAs (Decidable (_ ∧ _ ∧ _))

/-- The records of the 300 seconds that end in `x`. -/
def window (events : List HttpEvent) (x : HttpEvent) : List HttpEvent :=
  windowOf scanRule HttpEvent.order events x

theorem mem_window {events : List HttpEvent} {x e : HttpEvent} :
    e ∈ window events x ↔ e ∈ events ∧ e.order ≤ x.order ∧ x.eventTs - e.eventTs ≤ 300 := by
  rw [window, Sliding.mem_windowOf]
  simp only [Rule.Expired, not_lt, gt_iff_lt]
  rfl

theorem Qualifies.perm {a b : List HttpEvent} (h : a.Perm b) : Qualifies a ↔ Qualifies b := by
  rw [Qualifies, Qualifies, h.length_eq, (h.map HttpEvent.decodedPath).dedup.length_eq,
    h.countP_eq]

theorem window_perm {a b : List HttpEvent} (h : a.Perm b) (x : HttpEvent) :
    (window a x).Perm (window b x) := h.filter _

/-- The counters of the scan. -/
structure CountsRows (c : ScanCounts) (seg : List HttpEvent) : Prop where
  paths : c.paths.Perm (seg.map HttpEvent.decodedPath)
  denied : c.denied = seg.countP denied

theorem scanRule_counts : scanRule.Counts CountsRows Qualifies where
  width := by
    show (0 : ℚ) ≤ ((300 : Nat) : ℚ)
    exact Nat.cast_nonneg _
  init := ⟨List.Perm.refl _, rfl⟩
  enter := by
    intro c seg x h
    refine ⟨?_, ?_⟩
    · rw [List.map_append]
      exact h.paths.append_right _
    · show c.denied + (Http.denied x).toNat = _
      rw [List.countP_append, h.denied]
      cases hx : Http.denied x <;> simp [hx]
  leave := by
    intro c e seg h
    refine ⟨?_, ?_⟩
    · have herase := h.paths.erase e.decodedPath
      rw [List.map_cons, List.erase_cons_head] at herase
      exact herase
    · show c.denied - (Http.denied e).toNat = _
      rw [h.denied]
      cases he : Http.denied e <;> simp [he]
  live := by
    intro c seg h
    show (!(_ || _ || _)) = true ↔ _
    rw [h.paths.dedup.length_eq, h.denied, Qualifies]
    simp only [Bool.not_eq_true', Bool.or_eq_false_iff, decide_eq_false_iff_not, not_lt, and_assoc]

/-! ### Groups -/

/-- A group of rows that one finding of the rule reports. -/
def Grouped (casefold : List Char → List Char) (rows : List HttpEvent) :
    RuleId → List HttpEvent → Prop
  | .sensitiveResource, g => g ∈ pointGroups (sensitive casefold) rows
  | .pathTraversal, g => g ∈ pointGroups traversal rows
  | .multiPathScan, g => ∃ iv ∈ scanRule.scan rows, g = iv.rows rows

theorem mem_addPoint {p : HttpEvent → Bool} {groups : List (List HttpEvent)} {e : HttpEvent} :
    (∃ g ∈ addPoint p groups e, a ∈ g) ↔ (∃ g ∈ groups, a ∈ g) ∨ (a = e ∧ p e = true) := by
  by_cases hp : p e = true
  · match groups with
    | [] => simp [addPoint, hp]
    | [] :: older => simp [addPoint, hp, or_comm]
    | (last :: group) :: older =>
      by_cases ht : e.eventTs - last.eventTs > windowSeconds
      · rw [addPoint, if_pos hp]
        rw [if_pos ht]
        simp [hp, or_comm]
      · rw [addPoint, if_pos hp]
        rw [if_neg ht]
        simp only [List.mem_cons, exists_eq_or_imp, hp, and_true]
        rw [or_assoc, or_comm]
  · have hkeep : addPoint p groups e = groups := by
      unfold addPoint
      rw [if_neg hp]
    rw [hkeep]
    simp [hp]

theorem mem_foldl_addPoint {p : HttpEvent → Bool} {rows : List HttpEvent}
    {groups : List (List HttpEvent)} :
    (∃ g ∈ rows.foldl (addPoint p) groups, a ∈ g) ↔
      (∃ g ∈ groups, a ∈ g) ∨ (a ∈ rows ∧ p a = true) := by
  induction rows generalizing groups with
  | nil => simp
  | cons e rows ih =>
    rw [List.foldl_cons, ih, mem_addPoint, or_assoc, List.mem_cons]
    constructor
    · rintro (h | ⟨rfl, h⟩ | ⟨h, h'⟩)
      · exact Or.inl h
      · exact Or.inr ⟨Or.inl rfl, h⟩
      · exact Or.inr ⟨Or.inr h, h'⟩
    · rintro (h | ⟨rfl | h, h'⟩)
      · exact Or.inl h
      · exact Or.inr (Or.inl ⟨rfl, h'⟩)
      · exact Or.inr (Or.inr ⟨h, h'⟩)

/-- **A point rule groups exactly the rows that match.** -/
theorem mem_pointGroups {p : HttpEvent → Bool} {rows : List HttpEvent} :
    (∃ g ∈ pointGroups p rows, a ∈ g) ↔ a ∈ rows ∧ p a = true := by
  have h : (∃ g ∈ rows.foldl (addPoint p) [], a ∈ g) ↔
      (∃ g ∈ ([] : List (List HttpEvent)), a ∈ g) ∨ (a ∈ rows ∧ p a = true) := mem_foldl_addPoint
  simp only [List.not_mem_nil, false_and, exists_false, false_or] at h
  rw [← h, pointGroups]
  constructor
  · intro ⟨g, hg, ha⟩
    obtain ⟨g', hg', rfl⟩ := List.mem_map.mp (List.mem_reverse.mp hg)
    exact ⟨g', hg', List.mem_reverse.mp ha⟩
  · intro ⟨g, hg, ha⟩
    exact ⟨g.reverse, List.mem_reverse.mpr (List.mem_map_of_mem hg), List.mem_reverse.mpr ha⟩

/-! ### Findings -/

theorem finding?_eq_some {rule : RuleId} {rows : List HttpEvent} {reason : String} {f : WebFinding}
    (h : finding? rule rows reason = some f) :
    rows ≠ [] ∧ f.ruleId = rule ∧ f.evidenceIds = rows.map HttpEvent.eventId := by
  rw [finding?] at h
  cases rows with
  | nil => simp at h
  | cons e rows =>
    simp only [List.head?_cons, Option.bind_eq_bind, Option.bind_some,
      List.getLast?_cons, Option.some.injEq] at h
    subst h
    exact ⟨List.cons_ne_nil _ _, rfl, rfl⟩

theorem finding?_isSome (rule : RuleId) {rows : List HttpEvent} (reason : String) (h : rows ≠ []) :
    ∃ f, finding? rule rows reason = some f := by
  cases rows with
  | nil => exact absurd rfl h
  | cons e rows => exact ⟨_, by rw [finding?, List.head?_cons, List.getLast?_cons]; rfl⟩

theorem mem_peerFindings {casefold : List Char → List Char} {rows : List HttpEvent}
    {f : WebFinding} (h : f ∈ peerFindings casefold rows) :
    ∃ g, g ≠ [] ∧ Grouped casefold rows f.ruleId g ∧ f.evidenceIds = g.map HttpEvent.eventId := by
  rw [peerFindings, List.mem_append, List.mem_append] at h
  rcases h with h | h | h
  · obtain ⟨g, hg, hf⟩ := List.mem_filterMap.mp h
    obtain ⟨hne, hrule, hids⟩ := finding?_eq_some hf
    exact ⟨g, hne, by rw [hrule]; exact hg, hids⟩
  · obtain ⟨g, hg, hf⟩ := List.mem_filterMap.mp h
    obtain ⟨hne, hrule, hids⟩ := finding?_eq_some hf
    exact ⟨g, hne, by rw [hrule]; exact hg, hids⟩
  · obtain ⟨iv, hiv, hf⟩ := List.mem_filterMap.mp h
    obtain ⟨hne, hrule, hids⟩ := finding?_eq_some hf
    exact ⟨_, hne, by rw [hrule]; exact ⟨iv, hiv, rfl⟩, hids⟩

theorem exists_peerFinding {casefold : List Char → List Char} {rows g : List HttpEvent}
    {rule : RuleId} (hg : Grouped casefold rows rule g) (hne : g ≠ []) :
    ∃ f ∈ peerFindings casefold rows, f.ruleId = rule ∧ f.evidenceIds = g.map HttpEvent.eventId := by
  have hpoint : ∀ {p : HttpEvent → Bool} {description : String}, g ∈ pointGroups p rows →
      ∃ f ∈ pointFindings rows rule p description,
        f.ruleId = rule ∧ f.evidenceIds = g.map HttpEvent.eventId := by
    intro p description hmem
    obtain ⟨f, hf⟩ := finding?_isSome rule _ hne
    obtain ⟨-, hrule, hids⟩ := finding?_eq_some hf
    exact ⟨f, List.mem_filterMap.mpr ⟨g, hmem, hf⟩, hrule, hids⟩
  cases rule with
  | sensitiveResource =>
    obtain ⟨f, hf, hrule⟩ := hpoint hg
    exact ⟨f, List.mem_append_left _ hf, hrule⟩
  | pathTraversal =>
    obtain ⟨f, hf, hrule⟩ := hpoint hg
    exact ⟨f, List.mem_append_right _ (List.mem_append_left _ hf), hrule⟩
  | multiPathScan =>
    obtain ⟨iv, hiv, rfl⟩ := hg
    obtain ⟨f, hf⟩ := finding?_isSome .multiPathScan _ hne
    obtain ⟨-, hrule, hids⟩ := finding?_eq_some hf
    exact ⟨f, List.mem_append_right _ (List.mem_append_right _
      (List.mem_filterMap.mpr ⟨iv, hiv, hf⟩)), hrule, hids⟩

/-- **The findings of one peer are its groups.** -/
theorem detectWeb_spec (casefold : List Char → List Char) {events : List HttpEvent} {p : Peer}
    (hpeer : ∀ e ∈ events, e.peer = p) (h : Distinct events) :
    ∃ fs, detectWeb casefold events = .ok fs ∧ fs.Perm (peerFindings casefold (sortRows events)) := by
  refine ⟨_, by rw [detectWeb, uniqueEvents_eq h]; rfl, (List.perm_insertionSort _ _).trans ?_⟩
  have hrows : ∀ e ∈ sortRows events, e.peer = p := fun e he => hpeer e (mem_sortRows.mp he)
  have hfilter : (sortRows events).filter (fun e => decide (e.peer = p)) = sortRows events :=
    List.filter_eq_self.mpr fun e he => decide_eq_true (hrows e he)
  cases hcase : sortRows events with
  | nil =>
    exact List.Perm.refl _
  | cons e rows =>
    have hpeers : peers (sortRows events) = [p] := by
      have hmap : (sortRows events).map HttpEvent.peer = List.replicate (rows.length + 1) p := by
        rw [List.eq_replicate_iff]
        refine ⟨by rw [List.length_map, hcase]; rfl, ?_⟩
        intro q hq
        obtain ⟨e', he', rfl⟩ := List.mem_map.mp hq
        exact hrows e' he'
      rw [peers, hmap, List.replicate_dedup (Nat.succ_ne_zero _)]
      rfl
    rw [← hcase, hpeers, List.flatMap_cons, List.flatMap_nil, List.append_nil, hfilter]

end RiskOps.Telemetry.Http
