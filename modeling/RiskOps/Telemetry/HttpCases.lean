import RiskOps.Telemetry.HttpStore
import RiskOps.Telemetry.WebDetectionSpec

/-!
# RiskOps.Telemetry.HttpCases — what one window puts in its case

**The evidence of a case by its context.** A case takes every finding of the context with a
record in its hour. For a record of the hour that means its own windows, and these lie wholly
in the context (`mem_selected_of_hour`). For a record before the hour it does not: a window
that ends before the hour is cut at the start of the context, may qualify only because of
the cut, and reaches the case when a real finding shares a record with it. When that happens
is stated by `CutsAreBacked`.
-/

namespace RiskOps.Telemetry.Http

open RiskOps.Lib RiskOps.Lib.Sliding

variable {env : Env} {casefold : List Char → List Char} {events history : List HttpEvent}
  {p : Peer} {hour : ℤ} {fs : List WebFinding}

/-- The record is in the hour. -/
def InHour (hour : ℤ) (e : HttpEvent) : Prop := (hour : ℚ) ≤ e.eventTs ∧ e.eventTs < hour + 3600

/-! ### Reading the context -/

theorem readContext_eq {size : HttpEvent → Nat} {acc rest : List HttpEvent} {total : Nat}
    (h : (readContext size acc total rest).2 = .complete) :
    (readContext size acc total rest).1 = acc ++ rest ∧
      (rest ≠ [] → (acc ++ rest).length ≤ maxContextRecords) := by
  induction rest generalizing acc total with
  | nil => exact ⟨by rw [readContext, List.append_nil], fun hne => absurd rfl hne⟩
  | cons e rest ih =>
    rw [readContext] at h ⊢
    split at h
    · cases h
    · rename_i hlimit
      rw [if_neg hlimit]
      obtain ⟨hread, hlen⟩ := ih h
      refine ⟨by rw [hread, List.append_assoc, List.singleton_append], fun _ => ?_⟩
      cases rest with
      | nil =>
        rw [List.length_append, List.length_singleton]
        omega
      | cons e' rest =>
        have := hlen (List.cons_ne_nil _ _)
        simpa using this

theorem readContext_complete {size : HttpEvent → Nat} {acc rest : List HttpEvent} {total : Nat}
    (hlen : (acc ++ rest).length ≤ maxContextRecords)
    (hsize : total + (rest.map size).sum ≤ maxContextBytes) :
    readContext size acc total rest = (acc ++ rest, .complete) := by
  induction rest generalizing acc total with
  | nil => rw [readContext, List.append_nil]
  | cons e rest ih =>
    rw [List.map_cons, List.sum_cons] at hsize
    rw [readContext, if_neg]
    · rw [ih (by simpa using hlen) (by omega), List.append_assoc, List.singleton_append]
    · rw [List.length_append, List.length_cons] at hlen
      omega

/-- **A complete window has read its whole context.** -/
theorem readWindow_complete {db : Analysis} {key : WindowKey} {now : ℚ}
    (h : (readWindow env db key now).2 = .complete) :
    (readWindow env db key now).1 = contextRows db key ∧ env.cutoff now ≤ (key.2 : ℚ) - 300 := by
  rw [readWindow] at h ⊢
  split at h
  · cases h
  · rename_i hfresh
    rw [if_neg hfresh]
    obtain ⟨hread, hlen⟩ := readContext_eq h
    rw [List.nil_append] at hread hlen
    refine ⟨hread.trans (List.take_of_length_le ?_), not_lt.mp hfresh⟩
    by_contra hlong
    have htake : ((contextRows db key).take (maxContextRecords + 1)).length =
        maxContextRecords + 1 := List.length_take_of_le (by omega)
    have hne : (contextRows db key).take (maxContextRecords + 1) ≠ [] := by
      intro hnil
      rw [hnil] at htake
      cases htake
    have := hlen hne
    omega

theorem readWindow_of_limits {db : Analysis} {key : WindowKey} {now : ℚ}
    (hfresh : env.cutoff now ≤ (key.2 : ℚ) - 300)
    (hlen : (contextRows db key).length ≤ maxContextRecords)
    (hsize : ((contextRows db key).map env.size).sum ≤ maxContextBytes) :
    readWindow env db key now = (contextRows db key, .complete) := by
  rw [readWindow, if_neg (not_lt.mpr hfresh),
    List.take_of_length_le (hlen.trans (Nat.le_succ _)),
    readContext_complete (by simpa using hlen) (by simpa using hsize), List.nil_append]

/-! ### Findings of the context -/

variable {e : HttpEvent}

theorem Grouped.mem_rows {rows g : List HttpEvent} {rule : RuleId}
    (h : Grouped casefold rows rule g) (he : e ∈ g) : e ∈ rows := by
  cases rule with
  | sensitiveResource => exact (mem_pointGroups.mp ⟨g, h, he⟩).1
  | pathTraversal => exact (mem_pointGroups.mp ⟨g, h, he⟩).1
  | multiPathScan =>
    obtain ⟨iv, -, rfl⟩ := h
    obtain ⟨q, -, -, hq⟩ := mem_slice_iff.mp he
    exact List.mem_of_getElem? hq

theorem eq_of_eventId (hpeer : ∀ e ∈ events, e.peer = p) (hd : Distinct events) {a b : HttpEvent}
    (ha : a ∈ events) (hb : b ∈ events) (h : a.eventId = b.eventId) : a = b := by
  refine hd.eq_of_key ha hb ?_
  have hsource : a.sourceId = b.sourceId :=
    congrArg Prod.fst ((hpeer a ha).trans (hpeer b hb).symm)
  rw [HttpEvent.key, HttpEvent.key, hsource, h]

theorem lookup_eventId (hpeer : ∀ e ∈ events, e.peer = p) (hd : Distinct events) (he : e ∈ events) :
    lookup events e.eventId = some e := by
  rw [lookup]
  cases hfind : events.reverse.find? fun e' => decide (e'.eventId = e.eventId) with
  | none =>
    have := List.find?_eq_none.mp hfind e (List.mem_reverse.mpr he)
    simp at this
  | some e' =>
    have hid : e'.eventId = e.eventId := by simpa using List.find?_some hfind
    have hmem : e' ∈ events := List.mem_reverse.mp (List.mem_of_find?_eq_some hfind)
    rw [eq_of_eventId hpeer hd hmem he hid]

theorem touches_iff (hpeer : ∀ e ∈ events, e.peer = p) (hd : Distinct events) {f : WebFinding}
    {g : List HttpEvent} (hg : ∀ e ∈ g, e ∈ events) (hids : f.evidenceIds = g.map HttpEvent.eventId) :
    touches events hour f = true ↔ ∃ b ∈ g, InHour hour b := by
  rw [touches, hids, List.any_map, List.any_eq_true]
  refine exists_congr fun b => and_congr_right fun hb => ?_
  rw [Function.comp_apply, lookup_eventId hpeer hd (hg b hb), Option.any_some, Bool.and_eq_true,
    decide_eq_true_iff, decide_eq_true_iff]
  rfl

/-- **The ids a rule contributes to the case.** -/
theorem mem_ruleIds_iff (hpeer : ∀ e ∈ events, e.peer = p) (hd : Distinct events)
    (hfs : detectWeb casefold events = .ok fs) {rule : RuleId} {id : List Char} :
    id ∈ ruleIds events hour fs rule ↔ ∃ g, Grouped casefold (sortRows events) rule g ∧
      (∃ b ∈ g, InHour hour b) ∧ ∃ e ∈ g, e.eventId = id := by
  obtain ⟨fs', hok, hperm⟩ := detectWeb_spec casefold hpeer hd
  obtain rfl : fs = fs' := Except.ok.inj (hfs.symm.trans hok)
  have hrows : ∀ {r : RuleId} {g : List HttpEvent}, Grouped casefold (sortRows events) r g →
      ∀ e ∈ g, e ∈ events := fun hg e he => mem_sortRows.mp (hg.mem_rows he)
  rw [ruleIds, List.mem_dedup, List.mem_flatMap]
  constructor
  · intro ⟨f, hf, hid⟩
    rw [List.mem_filter, Bool.and_eq_true, beq_iff_eq] at hf
    obtain ⟨hf, htouch, hrule⟩ := hf
    obtain ⟨g, -, hg, hids⟩ := mem_peerFindings (hperm.mem_iff.mp hf)
    rw [hrule] at hg
    rw [hids] at hid
    obtain ⟨e, he, rfl⟩ := List.mem_map.mp hid
    exact ⟨g, hg, (touches_iff hpeer hd (hrows hg) hids).mp htouch, e, he, rfl⟩
  · intro ⟨g, hg, htouch, e, he, hid⟩
    obtain ⟨f, hf, hrule, hids⟩ := exists_peerFinding hg (List.ne_nil_of_mem he)
    refine ⟨f, List.mem_filter.mpr ⟨hperm.mem_iff.mpr hf, ?_⟩, ?_⟩
    · rw [Bool.and_eq_true, beq_iff_eq]
      exact ⟨(touches_iff hpeer hd (hrows hg) hids).mpr htouch, hrule⟩
    · rw [hids, ← hid]
      exact List.mem_map_of_mem he

theorem mem_selectedIds {id : List Char} :
    id ∈ selectedIds events hour fs ↔ ∃ rule, id ∈ ruleIds events hour fs rule := by
  simp only [selectedIds, ruleIds, List.mem_dedup, List.mem_flatMap, List.mem_filter,
    Bool.and_eq_true, beq_iff_eq]
  constructor
  · intro ⟨f, ⟨hf, htouch⟩, hid⟩
    exact ⟨f.ruleId, f, ⟨hf, htouch, rfl⟩, hid⟩
  · intro ⟨rule, f, ⟨hf, htouch, _⟩, hid⟩
    exact ⟨f, ⟨hf, htouch⟩, hid⟩

/-! ### Records of the hour -/

/-- The record matches a point rule, or lies in a window that qualifies. -/
def Cited (casefold : List Char → List Char) (events : List HttpEvent) (e : HttpEvent) : Prop :=
  sensitive casefold e = true ∨ traversal e = true ∨
    ∃ x ∈ events, Qualifies (window events x) ∧ e ∈ window events x

variable {x : HttpEvent}

theorem qualifies_sortRows :
    Qualifies (windowOf scanRule HttpEvent.order (sortRows events) x) ↔ Qualifies (window events x) :=
  Qualifies.perm (window_perm (sortRows_perm events) x)

theorem mem_window_sortRows :
    e ∈ windowOf scanRule HttpEvent.order (sortRows events) x ↔ e ∈ window events x :=
  (window_perm (sortRows_perm events) x).mem_iff

/-- The groups of a rule that hold a record. -/
theorem exists_group_iff (hd : Distinct events) (he : e ∈ events) :
    (∃ rule g, Grouped casefold (sortRows events) rule g ∧ e ∈ g) ↔ Cited casefold events e := by
  constructor
  · intro ⟨rule, g, hg, heg⟩
    cases rule with
    | sensitiveResource => exact Or.inl (mem_pointGroups.mp ⟨g, hg, heg⟩).2
    | pathTraversal => exact Or.inr (Or.inl (mem_pointGroups.mp ⟨g, hg, heg⟩).2)
    | multiPathScan =>
      obtain ⟨iv, hiv, rfl⟩ := hg
      obtain ⟨x, hx, hq, hex⟩ := scan_sound scanRule_counts (sorted_sortRows hd) hiv heg
      exact Or.inr (Or.inr ⟨x, mem_sortRows.mp hx, Iff.mp qualifies_sortRows hq,
        Iff.mp mem_window_sortRows hex⟩)
  · intro h
    rcases h with h | h | ⟨x, hx, hq, hex⟩
    · obtain ⟨g, hg, heg⟩ := mem_pointGroups.mpr ⟨mem_sortRows.mpr he, h⟩
      exact ⟨.sensitiveResource, g, hg, heg⟩
    · obtain ⟨g, hg, heg⟩ := mem_pointGroups.mpr ⟨mem_sortRows.mpr he, h⟩
      exact ⟨.pathTraversal, g, hg, heg⟩
    · obtain ⟨iv, hiv, hsub⟩ := scan_complete scanRule_counts (sorted_sortRows hd)
        (mem_sortRows.mpr hx) (Iff.mpr qualifies_sortRows hq)
      exact ⟨.multiPathScan, _, ⟨iv, hiv, rfl⟩, hsub e (Iff.mpr mem_window_sortRows hex)⟩

/-- **A record lies in a finding of a peer exactly when it is cited.** -/
theorem mem_finding_iff (hpeer : ∀ e ∈ events, e.peer = p) (hd : Distinct events)
    (hfs : detectWeb casefold events = .ok fs) (he : e ∈ events) :
    (∃ f ∈ fs, e.eventId ∈ f.evidenceIds) ↔ Cited casefold events e := by
  obtain ⟨fs', hok, hperm⟩ := detectWeb_spec casefold hpeer hd
  obtain rfl : fs = fs' := Except.ok.inj (hfs.symm.trans hok)
  rw [← exists_group_iff hd he]
  constructor
  · intro ⟨f, hf, hid⟩
    obtain ⟨g, -, hg, hids⟩ := mem_peerFindings (hperm.mem_iff.mp hf)
    rw [hids] at hid
    obtain ⟨e', he', hid'⟩ := List.mem_map.mp hid
    have hmem : e' ∈ events := mem_sortRows.mp (hg.mem_rows he')
    rw [eq_of_eventId hpeer hd hmem he hid'] at he'
    exact ⟨_, g, hg, he'⟩
  · intro ⟨rule, g, hg, heg⟩
    obtain ⟨f, hf, -, hids⟩ := exists_peerFinding hg (List.ne_nil_of_mem heg)
    exact ⟨f, hperm.mem_iff.mpr hf, hids ▸ List.mem_map_of_mem heg⟩

/-- A record of the hour is selected exactly when it is cited in the context. -/
theorem mem_selectedIds_iff (hpeer : ∀ e ∈ events, e.peer = p) (hd : Distinct events)
    (hfs : detectWeb casefold events = .ok fs) (he : e ∈ events) (hin : InHour hour e) :
    e.eventId ∈ selectedIds events hour fs ↔ Cited casefold events e := by
  rw [mem_selectedIds, ← exists_group_iff hd he]
  refine exists_congr fun rule => ?_
  rw [mem_ruleIds_iff hpeer hd hfs]
  constructor
  · intro ⟨g, hg, _, e', he', hid⟩
    have hmem : e' ∈ events := mem_sortRows.mp (hg.mem_rows he')
    rw [eq_of_eventId hpeer hd hmem he hid] at he'
    exact ⟨g, hg, he'⟩
  · intro ⟨g, hg, heg⟩
    exact ⟨g, hg, ⟨e, heg, hin⟩, e, heg, rfl⟩

/-! ### The context of a history

`history` are all records of the peer, `events` those in the context of the hour. -/

/-- The records are the part of the history that lies in the context. -/
def ContextOf (history : List HttpEvent) (key : WindowKey) (events : List HttpEvent) : Prop :=
  events.Perm (history.filter (inContext key))

theorem inContext_iff {key : WindowKey} : inContext key e = true ↔
    e.peer = key.1 ∧ (key.2 : ℚ) - 300 ≤ e.eventTs ∧ e.eventTs ≤ key.2 + 3900 := by
  rw [inContext, Bool.and_eq_true, Bool.and_eq_true, beq_iff_eq, decide_eq_true_iff,
    decide_eq_true_iff, and_assoc]

theorem ContextOf.mem (h : ContextOf history (p, hour) events) :
    e ∈ events ↔ e ∈ history ∧ inContext (p, hour) e = true := by
  rw [h.mem_iff, List.mem_filter]

theorem ContextOf.distinct (h : ContextOf history (p, hour) events) (hd : Distinct history) :
    Distinct events :=
  (h.map HttpEvent.key).nodup_iff.mpr (hd.filter _)

theorem ContextOf.peer (h : ContextOf history (p, hour) events) : ∀ e ∈ events, e.peer = p :=
  fun _ he => (Iff.mp inContext_iff (h.mem.mp he).2).1

theorem ContextOf.window_perm (h : ContextOf history (p, hour) events) (x : HttpEvent) :
    (window events x).Perm ((window history x).filter (inContext (p, hour))) := by
  have hfilter : window (history.filter (inContext (p, hour))) x =
      (window history x).filter (inContext (p, hour)) := windowOf_filter _ _
  rw [← hfilter]
  exact Http.window_perm h x

/-- A window that ends in the hour or in the five minutes after it is not cut. -/
theorem ContextOf.window_uncut (h : ContextOf history (p, hour) events)
    (hpeer : ∀ e ∈ history, e.peer = p) (hlow : (hour : ℚ) ≤ x.eventTs)
    (hhigh : x.eventTs ≤ hour + 3900) : (window events x).Perm (window history x) := by
  have hkeep : (window history x).filter (inContext (p, hour)) = window history x := by
    refine List.filter_eq_self.mpr fun e he => Iff.mpr inContext_iff ?_
    obtain ⟨hmem, horder, hwidth⟩ := mem_window.mp he
    have hle := eventTs_le_of_order_le horder
    dsimp only
    exact ⟨hpeer e hmem, by linarith, by linarith⟩
  have hperm := h.window_perm x
  rw [hkeep] at hperm
  exact hperm

/-- **In the hour, the context decides as the whole history does.** -/
theorem cited_context_iff (h : ContextOf history (p, hour) events)
    (hpeer : ∀ e ∈ history, e.peer = p) (hin : InHour hour e) :
    Cited casefold events e ↔ Cited casefold history e := by
  refine or_congr_right (or_congr_right ?_)
  have hrange : ∀ {l : List HttpEvent} {x : HttpEvent}, e ∈ window l x →
      (hour : ℚ) ≤ x.eventTs ∧ x.eventTs ≤ hour + 3900 := by
    intro l x hex
    obtain ⟨-, horder, hwidth⟩ := mem_window.mp hex
    have hle := eventTs_le_of_order_le horder
    exact ⟨hin.1.trans hle, by linarith [hin.2]⟩
  constructor
  · intro ⟨x, hx, hq, hex⟩
    have hperm := h.window_uncut hpeer (hrange hex).1 (hrange hex).2
    exact ⟨x, (h.mem.mp hx).1, (Qualifies.perm hperm).mp hq, hperm.mem_iff.mp hex⟩
  · intro ⟨x, hx, hq, hex⟩
    obtain ⟨hlow, hhigh⟩ := hrange hex
    have hperm := h.window_uncut hpeer hlow hhigh
    have hxe : x ∈ events := by
      refine h.mem.mpr ⟨hx, Iff.mpr inContext_iff ⟨hpeer x hx, ?_, hhigh⟩⟩
      dsimp only
      linarith
    exact ⟨x, hxe, (Qualifies.perm hperm).mpr hq, hperm.mem_iff.mpr hex⟩

/-! ### Records before the hour -/

/-- The window of `x` without what lies before the context. -/
def cutWindow (history : List HttpEvent) (hour : ℤ) (x : HttpEvent) : List HttpEvent :=
  (window history x).filter fun e => decide ((hour : ℚ) - 300 ≤ e.eventTs)

/-- The record lies in a window of the whole history that qualifies. -/
def InQualifying (history : List HttpEvent) (e : HttpEvent) : Prop :=
  ∃ x ∈ history, Qualifies (window history x) ∧ e ∈ window history x

instance (history : List HttpEvent) (e : HttpEvent) : Decidable (InQualifying history e) :=
  inferInstanceAs (Decidable (∃ x ∈ history, Qualifies (window history x) ∧ e ∈ window history x))

/-- **When cutting does no harm.** A window that ends before the hour, qualifies once it is
cut, and shares its last record with a window that qualifies and ends in the hour, holds only
records that lie in uncut windows that qualify. -/
def CutsAreBacked (history : List HttpEvent) (hour : ℤ) : Prop :=
  ∀ x ∈ history, (hour : ℚ) - 300 ≤ x.eventTs → x.eventTs < hour →
    Qualifies (cutWindow history hour x) →
    ∀ y ∈ history, (hour : ℚ) ≤ y.eventTs → Qualifies (window history y) → x ∈ window history y →
      ∀ e ∈ cutWindow history hour x, InQualifying history e

theorem ContextOf.window_cut (h : ContextOf history (p, hour) events)
    (hpeer : ∀ e ∈ history, e.peer = p) (hhigh : x.eventTs ≤ hour + 3900) :
    (window events x).Perm (cutWindow history hour x) := by
  have heq : (window history x).filter (inContext (p, hour)) = cutWindow history hour x := by
    refine List.filter_congr fun e he => ?_
    obtain ⟨hmem, horder, -⟩ := mem_window.mp he
    have hle := eventTs_le_of_order_le horder
    rw [inContext, hpeer e hmem, decide_eq_true (hle.trans hhigh), Bool.and_true, beq_self_eq_true,
      Bool.true_and]
  have hperm := h.window_perm x
  rw [heq] at hperm
  exact hperm

section Scan

variable (h : ContextOf history (p, hour) events) (hd : Distinct history)

/-- The context's scan, in terms of its windows. -/
abbrev ContextScan (events : List HttpEvent) (iv : Sliding.Interval) : Prop :=
  iv ∈ scanRule.scan (sortRows events)

include h hd in
theorem mem_scan_of_window (hx : x ∈ events) (hq : Qualifies (window events x))
    (he : e ∈ window events x) {iv : Sliding.Interval} (hiv : ContextScan events iv)
    (hshared : e ∈ iv.rows (sortRows events)) :
    ∀ e' ∈ window events x, e' ∈ iv.rows (sortRows events) := by
  have hsorted := sorted_sortRows (h.distinct hd)
  obtain ⟨iv', hiv', hsub⟩ := scan_complete scanRule_counts hsorted (mem_sortRows.mpr hx)
    (qualifies_sortRows.mpr hq)
  have hsame := scan_unique scanRule_counts hsorted hiv hiv' hshared
    (hsub e (mem_window_sortRows.mpr he))
  intro e' he'
  rw [hsame]
  exact hsub e' (mem_window_sortRows.mpr he')

include h in
/-- Windows that end before the hour start with the context, so a later one holds an earlier
one. -/
theorem window_mono {x' : HttpEvent} (hx' : x'.eventTs < hour) (hle : x.order ≤ x'.order)
    (he : e ∈ window events x) : e ∈ window events x' := by
  obtain ⟨hmem, horder, -⟩ := mem_window.mp he
  have hlow := (inContext_iff.mp (h.mem.mp hmem).2).2.1
  dsimp only at hlow
  exact mem_window.mpr ⟨hmem, horder.trans hle, by linarith⟩

include h hd in
/-- A finding that reaches the hour from a window before it was joined by a window that ends
in the hour: the last window before the hour shares its last record with one. -/
theorem exists_bridge {iv : Sliding.Interval} (hiv : ContextScan events iv) {b : HttpEvent}
    (hb : b ∈ iv.rows (sortRows events)) (hhour : (hour : ℚ) ≤ b.eventTs) (hx : x ∈ events)
    (hxiv : x ∈ iv.rows (sortRows events)) (hq : Qualifies (window events x))
    (hbefore : x.eventTs < hour) :
    ∃ x' ∈ events, x.order ≤ x'.order ∧ x'.eventTs < hour ∧ Qualifies (window events x') ∧
      ∃ y ∈ events, (hour : ℚ) ≤ y.eventTs ∧ Qualifies (window events y) ∧ x' ∈ window events y := by
  have hsorted := sorted_sortRows (h.distinct hd)
  -- The last window of the finding that ends before the hour.
  let ends : List HttpEvent := events.filter fun z => decide (z ∈ iv.rows (sortRows events)) &&
    decide (Qualifies (window events z)) && decide (z.eventTs < hour) && decide (x.order ≤ z.order)
  have hmem : ∀ z, z ∈ ends ↔ z ∈ events ∧ z ∈ iv.rows (sortRows events) ∧
      Qualifies (window events z) ∧ z.eventTs < hour ∧ x.order ≤ z.order := by
    intro z
    simp only [ends, List.mem_filter, Bool.and_eq_true, decide_eq_true_eq, and_assoc]
  have hxends : x ∈ ends := (hmem x).mpr ⟨hx, hxiv, hq, hbefore, le_rfl⟩
  obtain ⟨x', hx', hmax⟩ := Finset.exists_max_image ends.toFinset HttpEvent.order
    ⟨x, List.mem_toFinset.mpr hxends⟩
  obtain ⟨hx'e, hx'iv, hq', hbefore', hle⟩ := (hmem x').mp (List.mem_toFinset.mp hx')
  have hlt : x'.order < b.order := by
    by_contra hnot
    have := eventTs_le_of_order_le (not_lt.mp hnot)
    linarith
  obtain ⟨y, hy, hqy, hx'y, hlty⟩ := scan_joined scanRule_counts hsorted hiv hx'iv hb hlt
  have hye : y ∈ events := mem_sortRows.mp hy
  have hqy' := qualifies_sortRows.mp hqy
  have hx'y' := mem_window_sortRows.mp hx'y
  refine ⟨x', hx'e, hle, hbefore', hq', y, hye, ?_, hqy', hx'y'⟩
  by_contra hybefore
  have hyiv := mem_scan_of_window h hd hye hqy' hx'y' hiv hx'iv y
    (mem_window_sortRows.mp (Sliding.self_mem_windowOf scanRule_counts.width hy))
  have hyends := (hmem y).mpr ⟨hye, hyiv, hqy', not_le.mp hybefore, hle.trans hlty.le⟩
  exact absurd (hmax y (List.mem_toFinset.mpr hyends)) (not_le.mpr hlty)

include h hd in
/-- Where the cuts are backed, a record of a finding that reaches the hour qualifies. -/
theorem inQualifying_of_backed (hpeer : ∀ e ∈ history, e.peer = p)
    (hbacked : CutsAreBacked history hour) {iv : Sliding.Interval} (hiv : ContextScan events iv)
    {b : HttpEvent} (hb : b ∈ iv.rows (sortRows events)) (hhour : (hour : ℚ) ≤ b.eventTs)
    (he : e ∈ iv.rows (sortRows events)) : InQualifying history e := by
  obtain ⟨x, hx, hq, hex⟩ := scan_sound scanRule_counts (sorted_sortRows (h.distinct hd)) hiv he
  have hxe : x ∈ events := mem_sortRows.mp hx
  have hq' := qualifies_sortRows.mp hq
  have hex' := mem_window_sortRows.mp hex
  have hbounds : ∀ {z : HttpEvent}, z ∈ events → z ∈ history ∧ (hour : ℚ) - 300 ≤ z.eventTs ∧
      z.eventTs ≤ hour + 3900 := by
    intro z hz
    obtain ⟨hzh, hzc⟩ := h.mem.mp hz
    exact ⟨hzh, (inContext_iff.mp hzc).2⟩
  by_cases hafter : (hour : ℚ) ≤ x.eventTs
  · have hperm := h.window_uncut hpeer hafter (hbounds hxe).2.2
    exact ⟨x, (hbounds hxe).1, (Qualifies.perm hperm).mp hq', hperm.mem_iff.mp hex'⟩
  · have hxiv := mem_scan_of_window h hd hxe hq' hex' hiv he x
      (mem_window_sortRows.mp (Sliding.self_mem_windowOf scanRule_counts.width hx))
    obtain ⟨x', hx'e, hle, hbefore, hqx', y, hye, hyhour, hqy, hx'y⟩ :=
      exists_bridge h hd hiv hb hhour hxe hxiv hq' (not_le.mp hafter)
    have hcut := h.window_cut hpeer (hbounds hx'e).2.2
    have huncut := h.window_uncut hpeer hyhour (hbounds hye).2.2
    exact hbacked x' (hbounds hx'e).1 (hbounds hx'e).2.1 hbefore ((Qualifies.perm hcut).mp hqx')
      y (hbounds hye).1 hyhour ((Qualifies.perm huncut).mp hqy) (huncut.mem_iff.mp hx'y) e
      (hcut.mem_iff.mp (window_mono h hbefore hle hex'))

include h hd in
/-- A cut window that qualifies and shares its last record with a window of the hour is in a
finding that reaches the hour. -/
theorem exists_scan_of_cut (hpeer : ∀ e ∈ history, e.peer = p) {y : HttpEvent} (hx : x ∈ history)
    (hlow : (hour : ℚ) - 300 ≤ x.eventTs) (hbefore : x.eventTs < hour)
    (hqx : Qualifies (cutWindow history hour x)) (hy : y ∈ history)
    (hyhour : (hour : ℚ) ≤ y.eventTs) (hqy : Qualifies (window history y))
    (hxy : x ∈ window history y) :
    ∃ iv, ContextScan events iv ∧ (∃ b ∈ iv.rows (sortRows events), InHour hour b) ∧
      ∀ e ∈ cutWindow history hour x, e ∈ iv.rows (sortRows events) := by
  have hyhigh : y.eventTs ≤ x.eventTs + 300 := by
    have := (mem_window.mp hxy).2.2
    linarith
  have hxe : x ∈ events := by
    refine h.mem.mpr ⟨hx, inContext_iff.mpr ⟨hpeer x hx, hlow, ?_⟩⟩
    dsimp only
    linarith
  have hye : y ∈ events := by
    refine h.mem.mpr ⟨hy, inContext_iff.mpr ⟨hpeer y hy, ?_, ?_⟩⟩
    · dsimp only
      linarith
    · dsimp only
      linarith
  have hcut := h.window_cut hpeer (x := x) (by linarith)
  have huncut := h.window_uncut hpeer hyhour (x := y) (by linarith)
  have hqx' := (Qualifies.perm hcut).mpr hqx
  obtain ⟨iv, hiv, hsub⟩ := scan_complete scanRule_counts (sorted_sortRows (h.distinct hd))
    (mem_sortRows.mpr hxe) (qualifies_sortRows.mpr hqx')
  have hself : x ∈ iv.rows (sortRows events) :=
    hsub x (Sliding.self_mem_windowOf scanRule_counts.width (mem_sortRows.mpr hxe))
  have hyiv := mem_scan_of_window h hd hye ((Qualifies.perm huncut).mpr hqy)
    (huncut.mem_iff.mpr hxy) hiv hself y
    (mem_window_sortRows.mp (Sliding.self_mem_windowOf scanRule_counts.width (mem_sortRows.mpr hye)))
  refine ⟨iv, hiv, ⟨y, hyiv, hyhour, by linarith⟩, ?_⟩
  intro e he
  exact hsub e (mem_window_sortRows.mpr (hcut.mem_iff.mpr he))

end Scan

/-- **Exactly when the scan evidence of a case qualifies.** A complete analysis of an hour puts
only records in the evidence of the scan rule that lie in a window of the whole history that
qualifies, if and only if the cuts are backed. -/
theorem scan_evidence_qualifies_iff {db : Analysis} {now : ℚ} (hpeer : ∀ e ∈ history, e.peer = p)
    (hd : Distinct history) (hcontext : ContextOf history (p, hour) (contextRows db (p, hour)))
    (hcomplete : (readWindow env db (p, hour) now).2 = .complete) :
    ∃ findings, windowFindings env (readWindow env db (p, hour) now).1
        (readWindow env db (p, hour) now).2 = .ok findings ∧
      ((∀ id ∈ ruleIds (readWindow env db (p, hour) now).1 hour findings .multiPathScan,
        ∃ e ∈ history, e.eventId = id ∧ InQualifying history e) ↔ CutsAreBacked history hour) := by
  obtain ⟨hread, -⟩ := readWindow_complete hcomplete
  have hdc := hcontext.distinct hd
  obtain ⟨findings, hok, -⟩ := detectWeb_spec env.casefold hcontext.peer hdc
  refine ⟨findings, by rw [hread, hcomplete, windowFindings, if_pos rfl, hok], ?_⟩
  rw [hread]
  constructor
  · intro hall x hx hlow hbefore hqx y hy hyhour hqy hxy e he
    obtain ⟨iv, hiv, hreach, hsub⟩ :=
      exists_scan_of_cut hcontext hd hpeer hx hlow hbefore hqx hy hyhour hqy hxy
    obtain ⟨e', he', hid, hqual⟩ := hall e.eventId
      ((mem_ruleIds_iff hcontext.peer hdc hok).mpr ⟨_, ⟨iv, hiv, rfl⟩, hreach, e, hsub e he, rfl⟩)
    have hmem : e ∈ history := (mem_window.mp (List.mem_filter.mp he).1).1
    rw [← eq_of_eventId hpeer hd he' hmem hid]
    exact hqual
  · intro hbacked id hid
    obtain ⟨g, ⟨iv, hiv, rfl⟩, ⟨b, hb, hhour, -⟩, e, he, hide⟩ :=
      (mem_ruleIds_iff hcontext.peer hdc hok).mp hid
    have hgroup : Grouped env.casefold (sortRows (contextRows db (p, hour))) .multiPathScan
        (iv.rows (sortRows (contextRows db (p, hour)))) := ⟨iv, hiv, rfl⟩
    have hmem := hgroup.mem_rows he
    exact ⟨e, (hcontext.mem.mp (mem_sortRows.mp hmem)).1, hide,
      inQualifying_of_backed hcontext hd hpeer hbacked hiv hb hhour he⟩

/-- A request from one peer; the path is one of ten. -/
def sampleRecord (n : Nat) (ts : ℚ) (status : Nat) : Record :=
  ⟨Nat.toDigits 10 n, Nat.toDigits 10 n, ts, "192.0.2.1".toList, "GET".toList,
    '/' :: Nat.toDigits 10 (n % 10), '/' :: Nat.toDigits 10 (n % 10), status⟩

/-- Requests `first`, `first + 1`, … at one second. -/
def burst (first count : Nat) (ts : ℚ) (status : Nat) : List Record :=
  (List.range count).map fun i => sampleRecord (first + i) ts status

/-- Fourteen days of retention. -/
def sampleEnv : Env := ⟨id, fun _ => 300, 14⟩

/-- The peer of the requests. -/
def samplePeer : Peer := ("web".toList, "site".toList, "192.0.2.1".toList)

/-! #### A cut that is not backed

Six requests are answered just before the context starts. Twenty denied ones follow, ten at
its first second; cut there they are a scan, with the six before them they are not. Fourteen
denied requests after the hour make a window that qualifies with the later ten of them. -/

/-- The requests around the hour 7200. -/
def cutBatch : HttpBatch :=
  ⟨"web".toList, "site".toList, "b1".toList,
    burst 0 6 6899 200 ++ burst 6 10 6900 404 ++ burst 16 10 6910 404 ++ burst 26 6 7195 200 ++
      burst 32 14 7210 404, [], [], true, "1970-01-01T02:00:20Z".toList⟩

/-- The store after the batch and one intake. -/
def cutDb : Db := run (next sampleEnv) .empty [⟨7220, .ingest cutBatch⟩, ⟨7220, .intake 200⟩]

/-- What the analysis of the hour reads. -/
def cutRead : List HttpEvent × Coverage := readWindow sampleEnv cutDb.analysis (samplePeer, 7200) 7220

/-- The records of the 300 seconds from `a` on. -/
def span (history : List HttpEvent) (a : ℚ) : List HttpEvent :=
  history.filter fun e => decide (a ≤ e.eventTs) && decide (e.eventTs ≤ a + 300)

/-- The requests as they are stored. -/
def cutHistory : List HttpEvent := cutBatch.records.map cutBatch.event

theorem accepted_cutDb : acceptedOf cutDb samplePeer = cutHistory := by decide +kernel

theorem cutRead_eq : cutRead = (cutHistory.filter fun e => decide (6900 ≤ e.eventTs), .complete) := by
  decide +kernel

/-- The condition read at the requests around the hour. -/
theorem scan_evidence_qualifies_iff_cut :
    ∃ findings, windowFindings sampleEnv cutRead.1 cutRead.2 = .ok findings ∧
      ((∀ id ∈ ruleIds cutRead.1 7200 findings .multiPathScan,
        ∃ e ∈ acceptedOf cutDb samplePeer, e.eventId = id ∧
          InQualifying (acceptedOf cutDb samplePeer) e) ↔
        CutsAreBacked (acceptedOf cutDb samplePeer) 7200) :=
  scan_evidence_qualifies_iff (by rw [accepted_cutDb]; decide)
    (show ((acceptedOf cutDb samplePeer).map HttpEvent.key).Nodup by rw [accepted_cutDb]; decide)
    (show (contextRows cutDb.analysis (samplePeer, 7200)).Perm
      ((acceptedOf cutDb samplePeer).filter (inContext (samplePeer, 7200))) by decide +kernel)
    (show cutRead.2 = .complete by rw [cutRead_eq])

theorem cutHistory_times : ∀ e ∈ cutHistory, e.eventTs = 6899 ∨ e.eventTs = 6900 ∨
    e.eventTs = 6910 ∨ e.eventTs = 7195 ∨ e.eventTs = 7210 := by
  decide

theorem cutHistory_early_spans : ∀ b c : Bool, ¬ Qualifies (cutHistory.filter fun e =>
    decide (e.eventTs ≤ 6900) || (decide (e.eventTs = 6910) && b) ||
      (decide (e.eventTs = 7195) && c)) := by
  decide

theorem cutHistory_late_span : ¬ Qualifies (cutHistory.filter fun e =>
    decide (6900 ≤ e.eventTs) && decide (e.eventTs ≤ 7195)) := by
  decide

/-- No 300 seconds that hold the first second of the context qualify. -/
theorem cutHistory_spans {a : ℚ} (hlow : a ≤ 6900) (hhigh : 6900 ≤ a + 300) :
    ¬ Qualifies (span cutHistory a) := by
  by_cases hearly : a ≤ 6899
  · have hspan : span cutHistory a = cutHistory.filter fun e =>
        decide (e.eventTs ≤ 6900) || (decide (e.eventTs = 6910) && decide (6910 ≤ a + 300)) ||
          (decide (e.eventTs = 7195) && decide (7195 ≤ a + 300)) := by
      refine List.filter_congr fun e he => ?_
      rw [Bool.eq_iff_iff]
      simp only [Bool.and_eq_true, Bool.or_eq_true, decide_eq_true_eq]
      rcases cutHistory_times e he with h | h | h | h | h <;> rw [h]
      · exact ⟨fun _ => Or.inl (Or.inl (by norm_num)), fun _ => ⟨hearly, by linarith⟩⟩
      · exact ⟨fun _ => Or.inl (Or.inl (by norm_num)), fun _ => ⟨hlow, hhigh⟩⟩
      · constructor
        · intro ⟨_, hb⟩
          exact Or.inl (Or.inr ⟨rfl, hb⟩)
        · intro hb
          norm_num at hb
          exact ⟨by linarith, hb⟩
      · constructor
        · intro ⟨_, hc⟩
          exact Or.inr ⟨rfl, hc⟩
        · intro hc
          norm_num at hc
          exact ⟨by linarith, hc⟩
      · constructor
        · intro ⟨_, hd⟩
          linarith
        · intro hd
          norm_num at hd
    rw [hspan]
    exact cutHistory_early_spans _ _
  · have hspan : span cutHistory a = cutHistory.filter fun e =>
        decide (6900 ≤ e.eventTs) && decide (e.eventTs ≤ 7195) := by
      refine List.filter_congr fun e he => ?_
      rw [Bool.eq_iff_iff]
      simp only [Bool.and_eq_true, decide_eq_true_eq]
      rcases cutHistory_times e he with h | h | h | h | h <;> rw [h]
      all_goals
        constructor
        · intro ⟨h1, h2⟩
          constructor <;> linarith
        · intro ⟨h1, h2⟩
          constructor <;> linarith
    rw [hspan]
    exact cutHistory_late_span

/-- **A case cites a request outside every window that qualifies.** Request 6 is in the
evidence of the scan rule, but neither a window that ends in a request nor any 300 seconds
that hold it qualify. -/
theorem scan_evidence_outside_windows :
    cutRead.2 = .complete ∧
    (∃ findings, windowFindings sampleEnv cutRead.1 cutRead.2 = .ok findings ∧
      ['6'] ∈ ruleIds cutRead.1 7200 findings .multiPathScan) ∧
    ∀ e ∈ acceptedOf cutDb samplePeer, e.eventId = ['6'] →
      ¬ InQualifying (acceptedOf cutDb samplePeer) e ∧
      ∀ a : ℚ, e ∈ span (acceptedOf cutDb samplePeer) a →
        ¬ Qualifies (span (acceptedOf cutDb samplePeer) a) := by
  rw [accepted_cutDb, cutRead_eq]
  have hcited : ((windowFindings sampleEnv (cutHistory.filter fun e => decide (6900 ≤ e.eventTs))
      .complete).toOption.any fun findings => decide (['6'] ∈ ruleIds
        (cutHistory.filter fun e => decide (6900 ≤ e.eventTs)) 7200 findings .multiPathScan)) =
          true := by
    decide +kernel
  obtain ⟨findings, hfindings, hmem⟩ := (Option.any_eq_true _ _).mp hcited
  refine ⟨rfl, ⟨findings, ?_, of_decide_eq_true hmem⟩, ?_⟩
  · exact eq_ok_of_toOption hfindings
  · intro e he hid
    have htime : ∀ e ∈ cutHistory, e.eventId = ['6'] → e.eventTs = 6900 := by
      decide
    have hout : ∀ e ∈ cutHistory, e.eventId = ['6'] → ¬ InQualifying cutHistory e := by
      decide +kernel
    refine ⟨hout e he hid, ?_⟩
    intro a ha
    have hspan := (List.mem_filter.mp ha).2
    rw [htime e he hid, Bool.and_eq_true, decide_eq_true_iff, decide_eq_true_iff] at hspan
    exact cutHistory_spans hspan.1 hspan.2

end RiskOps.Telemetry.Http
