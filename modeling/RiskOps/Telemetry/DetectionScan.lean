import RiskOps.Telemetry.DetectionSpec

/-!
# RiskOps.Telemetry.DetectionScan — the windows the scans slide over

**What the front of each two-pointer loop knows.** The loops keep counters for the events between
two positions. `Front` ties the counters of the failure scan to that segment, and `SuccessFront`
those of the success scan; one step makes the segment the window of the event it ends in.
`scanEdges` and `successEdges` are the windows that qualify, as edges between the keys of their
events.
-/

namespace RiskOps.Telemetry

open RiskOps.Lib RiskOps.Lib.Components

/-! ### Sorted events and slices -/

/-- Strictly ordered events. -/
def Ordered (es : List Event) : Prop := es.Pairwise fun a b => a.order < b.order

/-- Events in order of time. -/
def Timed (es : List Event) : Prop := es.Pairwise fun a b => a.at ≤ b.at

variable {es : List Event}

theorem Ordered.timed (h : Ordered es) : Timed es :=
  h.imp fun hlt => at_le_of_order_le hlt.le

theorem mem_slice {α : Type} {l : List α} {start stop : Nat} {a : α} :
    a ∈ slice l start stop ↔ ∃ i, start ≤ i ∧ i < stop ∧ l[i]? = some a := by
  rw [slice, List.mem_iff_getElem?]
  constructor
  · rintro ⟨i, hi⟩
    rw [List.getElem?_drop, List.getElem?_take] at hi
    split at hi
    · exact ⟨start + i, by omega, by assumption, hi⟩
    · simp at hi
  · rintro ⟨i, hstart, hstop, hi⟩
    refine ⟨i - start, ?_⟩
    rw [List.getElem?_drop, List.getElem?_take, Nat.add_sub_cancel' hstart, if_pos hstop]
    exact hi

/-- The keys of a list of events. -/
def keysIn (es : List Event) : Set Key := {k | ∃ e ∈ es, e.key = k}

/-- Matches as labelled edges between the keys of their evidence. -/
def matchEdges (ms : List RuleMatch) : Set (RuleId × Set Key) :=
  {p | ∃ m ∈ ms, p = (m.ruleId, {k | ∃ row ∈ m.evidence, row.key = k})}

/-! ### The counters of a segment -/

/-- The counters of a scan describe a segment. -/
structure Counts (triggers : List Key) (st : Scan) (seg : List Event) : Prop where
  users : st.users.Perm (seg.filterMap Event.user)
  sources : st.sources.Perm (seg.map Event.source)
  triggered : st.triggered = seg.countP fun e => decide (e.key ∈ triggers)

variable {x : Event}

section Counters

variable {triggers : List Key} {st : Scan} {seg : List Event}

theorem Counts.enter (h : Counts triggers st seg) (x : Event) :
    Counts triggers (st.enter triggers x) (seg ++ [x]) where
  users := by
    have hx : [x].filterMap Event.user = x.user.toList := by
      cases hu : x.user <;> simp [hu]
    rw [List.filterMap_append, hx]
    exact (List.perm_append_comm).trans (h.users.append_right _)
  sources := by
    rw [List.map_append]
    show ([x.source] ++ st.sources).Perm _
    exact (List.perm_append_comm).trans (h.sources.append_right _)
  triggered := by
    rw [List.countP_append, ← h.triggered]
    by_cases hx : x.key ∈ triggers <;> simp [Scan.enter, hx]

theorem Counts.leave {e : Event} (h : Counts triggers st (e :: seg)) :
    Counts triggers (st.leave triggers e) seg where
  users := by
    have husers := h.users
    cases hu : e.user with
    | none => simpa [Scan.leave, hu] using husers
    | some u =>
      rw [List.filterMap_cons_some hu] at husers
      simpa [Scan.leave, hu] using husers.erase u
  sources := by
    have hsources := h.sources.erase e.source
    simpa [Scan.leave] using hsources
  triggered := by
    have htriggered := h.triggered
    by_cases he : e.key ∈ triggers
    · simp only [Scan.leave, he, if_true, htriggered]
      simp [he]
    · simp only [Scan.leave, he, if_false, htriggered]
      simp [he]

@[simp] theorem leave_left (e : Event) : (st.leave triggers e).left = st.left + 1 := rfl

/-- The `while` loop drops the expired events at the front of the segment and stops within
it, since the event at its right end has not expired. -/
theorem expire_spec {window : Nat} {now : ℚ} (tail : List Event) (h : Counts triggers st seg)
    (hx : x ∈ seg) (hlive : ¬ now - x.at > window) :
    ∃ k, k < seg.length ∧
      (Scan.expire triggers window now (seg ++ tail) st).left = st.left + k ∧
      (Scan.expire triggers window now (seg ++ tail) st).intervals = st.intervals ∧
      Counts triggers (Scan.expire triggers window now (seg ++ tail) st) (seg.drop k) ∧
      (∀ e ∈ seg.take k, now - e.at > window) ∧
      ∀ e, (seg.drop k).head? = some e → ¬ now - e.at > window := by
  induction seg generalizing st with
  | nil => simp at hx
  | cons e seg ih =>
    rw [List.cons_append, Scan.expire]
    by_cases hexp : now - e.at > window
    · rw [if_pos hexp]
      have hx' : x ∈ seg := by
        rcases List.mem_cons.mp hx with rfl | hx
        · exact absurd hexp hlive
        · exact hx
      obtain ⟨k, hk, hleft, hiv, hcounts, hdropped, hhead⟩ := ih h.leave hx'
      refine ⟨k + 1, by simpa using hk, by rw [hleft, leave_left]; omega, hiv, by simpa using hcounts,
        ?_, by simpa using hhead⟩
      intro e' he'
      rw [List.take_succ_cons] at he'
      rcases List.mem_cons.mp he' with rfl | he'
      · exact hexp
      · exact hdropped e' he'
    · rw [if_neg hexp]
      exact ⟨0, by simp, by simp, rfl, by simpa using h, by simp, by simpa using hexp⟩

end Counters

/-! ### The window at the right end -/

/-- The events up to `x` that are recent enough. -/
def windowList (window : Nat) (es : List Event) (x : Event) : List Event :=
  es.filter fun e => decide (e.order ≤ x.order) && decide (x.at - e.at ≤ window)

theorem mem_windowList {window : Nat} {e : Event} :
    e ∈ windowList window es x ↔ e ∈ es ∧ e.order ≤ x.order ∧ x.at - e.at ≤ window := by
  simp [windowList]

/-- The part of the state that follows the window: what came before it has expired, and the
counters describe it. -/
structure Front (triggers : List Key) (rule : FailureRule) (pre rest : List Event) (st : Scan) :
    Prop where
  left_le : st.left ≤ pre.length
  expired : ∀ e ∈ pre.take st.left, ∀ x ∈ rest, x.at - e.at > rule.window
  counts : Counts triggers st (pre.drop st.left)

/-- **The next event enters, and what is too old for its window leaves.** -/
theorem Front.step {triggers : List Key} {rule : FailureRule} {pre rest : List Event} {st : Scan}
    (hes : es = pre ++ x :: rest) (htimed : Timed es) (h : Front triggers rule pre (x :: rest) st) :
    ∃ st', st' = Scan.expire triggers rule.window x.at (es.drop st.left) (st.enter triggers x) ∧
      st.left ≤ st'.left ∧ st'.left ≤ pre.length ∧ st'.intervals = st.intervals ∧
      Counts triggers st' (slice es st'.left (pre.length + 1)) ∧
      (∀ e ∈ es.take st'.left, x.at - e.at > rule.window) ∧
      (∀ e ∈ slice es st'.left (pre.length + 1), ¬ x.at - e.at > rule.window) ∧
      Front triggers rule (pre ++ [x]) rest st' := by
  have hleft := h.left_le
  -- The segment the counters describe once the new event has entered.
  obtain ⟨seg, hseg⟩ : ∃ seg, seg = pre.drop st.left := ⟨_, rfl⟩
  have hdrop : es.drop st.left = (seg ++ [x]) ++ rest := by
    rw [hes, List.drop_append_of_le_length hleft, hseg, List.append_assoc]
    rfl
  have hself : ¬ x.at - x.at > (rule.window : ℚ) := by
    rw [sub_self, gt_iff_lt, not_lt]
    exact Nat.cast_nonneg _
  obtain ⟨k, hk, hkleft, hkiv, hkcounts, hkdropped, hkhead⟩ :=
    expire_spec rest (hseg ▸ h.counts.enter x) (by simp) hself
  rw [← hdrop] at hkleft hkiv hkcounts
  obtain ⟨st', hst'⟩ : ∃ st', st' = Scan.expire triggers rule.window x.at (es.drop st.left)
      (st.enter triggers x) := ⟨_, rfl⟩
  rw [← hst'] at hkleft hkiv hkcounts
  have hleft' : st'.left = st.left + k := hkleft
  have hseglen : seg.length = pre.length - st.left := by rw [hseg, List.length_drop]
  rw [List.length_append, List.length_singleton] at hk
  have htake : es.take (pre.length + 1) = pre ++ [x] := by
    rw [hes, ← List.singleton_append, ← List.append_assoc, List.take_left' (by simp)]
  have hpre : (pre ++ [x]).drop (st.left + k) = (seg ++ [x]).drop k := by
    rw [← List.drop_drop, List.drop_append_of_le_length hleft, hseg]
  have hslice : slice es st'.left (pre.length + 1) = (seg ++ [x]).drop k := by
    rw [slice, htake, hleft', hpre]
  have hdropped : ∀ e ∈ (pre ++ [x]).take (st.left + k), x.at - e.at > rule.window := by
    intro e he
    rw [List.take_add, List.take_append_of_le_length hleft,
      List.drop_append_of_le_length hleft, ← hseg] at he
    rcases List.mem_append.mp he with he | he
    · exact h.expired e he x List.mem_cons_self
    · exact hkdropped e he
  -- The first event kept is recent, and the ones behind it are later.
  have hrecent : ∀ e ∈ (seg ++ [x]).drop k, ¬ x.at - e.at > rule.window := by
    have hsorted : Timed ((seg ++ [x]).drop k) := by
      rw [← hslice, slice]
      exact htimed.sublist ((List.drop_sublist _ _).trans (List.take_sublist _ _))
    intro e he
    cases hd : (seg ++ [x]).drop k with
    | nil =>
      rw [hd] at he
      exact absurd he List.not_mem_nil
    | cons d ds =>
      have hd' := hkhead d (by rw [hd]; rfl)
      rw [hd] at he hsorted
      rcases List.mem_cons.mp he with rfl | he
      · exact hd'
      · have hle : d.at ≤ e.at := (List.pairwise_cons.mp hsorted).1 e he
        rw [gt_iff_lt, not_lt] at hd' ⊢
        linarith
  have hfuture : ∀ y ∈ rest, x.at ≤ y.at := by
    rw [hes] at htimed
    exact (List.pairwise_cons.mp (List.pairwise_append.mp htimed).2.1).1
  refine ⟨st', hst', by omega, by omega, hkiv, hslice ▸ hkcounts, fun e he => ?_, ?_, ?_, ?_, ?_⟩
  · refine hdropped e ?_
    rw [← htake, List.take_take, min_eq_left (by omega), ← hleft']
    exact he
  · rw [hslice]
    exact hrecent
  · rw [List.length_append, List.length_singleton]
    omega
  · intro e he y hy
    rw [hleft'] at he
    have hxe := hdropped e he
    have hxy := hfuture y hy
    linarith
  · rw [hleft', hpre]
    exact hkcounts

/-! ### The intervals -/

/-- The thresholds of a rule on a segment that holds a trigger. -/
structure LiveWindow (triggers : List Key) (rule : FailureRule) (w : List Event) : Prop where
  triggered : ∃ e ∈ w, e.key ∈ triggers
  records : rule.records ≤ w.length
  users : rule.users ≤ distinct (w.filterMap Event.user)
  sources : rule.sources ≤ distinct (w.map Event.source)

theorem distinct_perm {l l' : List (List Char)} (h : l.Perm l') : distinct l = distinct l' :=
  h.dedup.length_eq

/-- The test of the scan, in terms of the segment its counters describe. -/
theorem Counts.liveWindow_iff {triggers : List Key} {st : Scan} {w : List Event} {right : Nat}
    (h : Counts triggers st w) (rule : FailureRule) (hlen : w.length = right - st.left + 1) :
    ¬ (st.triggered = 0 ∨ right - st.left + 1 < rule.records ∨ distinct st.users < rule.users ∨
      distinct st.sources < rule.sources) ↔ LiveWindow triggers rule w := by
  rw [h.triggered, ← hlen, distinct_perm h.users, distinct_perm h.sources, List.countP_eq_zero]
  constructor
  · intro hnot
    simp only [not_or, not_forall, not_lt, decide_eq_true_eq, not_not] at hnot
    obtain ⟨⟨e, he, hkey⟩, hrecords, husers, hsources⟩ := hnot
    exact ⟨⟨e, he, hkey⟩, hrecords, husers, hsources⟩
  · rintro ⟨⟨e, he, hkey⟩, hrecords, husers, hsources⟩ hor
    rcases hor with hnone | hlt | hlt | hlt
    · exact hnone e he (by simpa using hkey)
    · omega
    · omega
    · omega

/-- The windows of one scan that satisfy the rule and hold a trigger. -/
def scanEdges (triggers : List Key) (rule : FailureRule) (es : List Event) :
    Set (RuleId × Set Key) :=
  {p | ∃ x ∈ es, LiveWindow triggers rule (windowList rule.window es x) ∧
    p = (rule.ruleId, keysIn (windowList rule.window es x))}

/-! ### Successes -/

/-- The failures in the half hour strictly before a success. -/
def priorList (fs : List Event) (s : Event) : List Event :=
  fs.filter fun f => decide (s.at - successWindowSeconds ≤ f.at) && decide (f.at < s.at)

section SuccessScan

variable {triggers : List Key} {fs : List Event} {st : SuccessScan}

/-- The failures that enter are those before the success, counted from where the scan is. -/
theorem enter_spec (triggers : List Key) (now : ℚ) {fs : List Event} (st : SuccessScan)
    (hsorted : Timed fs) :
    ∃ k, k ≤ fs.length ∧ SuccessScan.enter triggers now fs st =
        { st with
          triggered := st.triggered + (fs.take k).countP (fun e => decide (e.key ∈ triggers))
          right := st.right + k } ∧
      (∀ f ∈ fs.take k, f.at < now) ∧ ∀ f ∈ fs.drop k, ¬ f.at < now := by
  induction fs generalizing st with
  | nil => exact ⟨0, by simp, by simp [SuccessScan.enter], by simp, by simp⟩
  | cons f fs ih =>
    obtain ⟨hhead, htail⟩ := List.pairwise_cons.mp hsorted
    by_cases hf : f.at < now
    · obtain ⟨k, hk, heq, htake, hdrop⟩ := ih
        { st with
          triggered := st.triggered + (if f.key ∈ triggers then 1 else 0)
          right := st.right + 1 } htail
      refine ⟨k + 1, by simpa using hk, ?_, ?_, by simpa using hdrop⟩
      · rw [SuccessScan.enter, if_pos hf, heq]
        by_cases hkey : f.key ∈ triggers <;> simp [hkey] <;> omega
      · intro f' hf'
        rw [List.take_succ_cons] at hf'
        rcases List.mem_cons.mp hf' with rfl | hf'
        · exact hf
        · exact htake f' hf'
    · refine ⟨0, by simp, by simp [SuccessScan.enter, hf], by simp, ?_⟩
      intro f' hf'
      rcases List.mem_cons.mp hf' with rfl | hf'
      · exact hf
      · exact fun hlt => hf (lt_of_le_of_lt (hhead f' hf') hlt)

/-- Of the failures inside, those before the window leave it. -/
theorem successExpire_spec (now : ℚ) {seg : List Event} (tail : List Event) (st : SuccessScan)
    (hsorted : Timed seg) (hlen : seg.length = st.right - st.left) (hle : st.left ≤ st.right)
    (hcount : st.triggered = seg.countP fun e => decide (e.key ∈ triggers)) :
    ∃ k, k ≤ seg.length ∧ SuccessScan.expire triggers now (seg ++ tail) st =
        { st with
          triggered := (seg.drop k).countP (fun e => decide (e.key ∈ triggers))
          left := st.left + k } ∧
      (∀ f ∈ seg.take k, f.at < now - successWindowSeconds) ∧
      ∀ f ∈ seg.drop k, ¬ f.at < now - successWindowSeconds := by
  induction seg generalizing st with
  | nil =>
    refine ⟨0, by simp, ?_, by simp, by simp⟩
    have hend : ¬ st.left < st.right := by
      simp only [List.length_nil] at hlen
      omega
    have hstop : SuccessScan.expire triggers now ([] ++ tail) st = st := by
      cases tail with
      | nil => rfl
      | cons f tail => simp [SuccessScan.expire, hend]
    rw [hstop]
    simp [← hcount]
  | cons f seg ih =>
    obtain ⟨hhead, htail⟩ := List.pairwise_cons.mp hsorted
    have hlt : st.left < st.right := by
      simp only [List.length_cons] at hlen
      omega
    by_cases hf : f.at < now - successWindowSeconds
    · have hcount' : st.triggered - (if f.key ∈ triggers then 1 else 0)
          = seg.countP fun e => decide (e.key ∈ triggers) := by
        by_cases hkey : f.key ∈ triggers <;> simp [hcount, hkey]
      obtain ⟨k, hk, heq, htake, hdrop⟩ := ih
        { st with
          triggered := st.triggered - (if f.key ∈ triggers then 1 else 0)
          left := st.left + 1 } htail
        (by simp only [List.length_cons] at hlen ⊢; omega) hlt hcount'
      refine ⟨k + 1, by simpa using hk, ?_, ?_, by simpa using hdrop⟩
      · rw [List.cons_append, SuccessScan.expire, if_pos ⟨hlt, hf⟩, heq]
        simp
        omega
      · intro f' hf'
        rw [List.take_succ_cons] at hf'
        rcases List.mem_cons.mp hf' with rfl | hf'
        · exact hf
        · exact htake f' hf'
    · refine ⟨0, by simp, ?_, by simp, ?_⟩
      · rw [List.cons_append, SuccessScan.expire, if_neg (fun h => hf h.2)]
        simp [← hcount]
      · intro f' hf'
        rcases List.mem_cons.mp hf' with rfl | hf'
        · exact hf
        · exact fun hlt' => hf (lt_of_le_of_lt (hhead f' hf') hlt')

/-- A success after enough failures, with a trigger among them. -/
structure LiveSuccess (triggers : List Key) (fs : List Event) (s : Event) : Prop where
  failures : successMinFailures ≤ (priorList fs s).length
  triggered : (∃ f ∈ priorList fs s, f.key ∈ triggers) ∨ s.key ∈ triggers

/-- The part of the state that follows the windows: what is behind the window is before it, and
what is not yet in it is not before the successes so far. -/
structure SuccessFront (triggers : List Key) (fs rest : List Event) (st : SuccessScan) : Prop where
  left_le : st.left ≤ st.right
  right_le : st.right ≤ fs.length
  entered : ∀ f ∈ fs.take st.right, ∀ s ∈ rest, f.at < s.at
  expired : ∀ f ∈ fs.take st.left, ∀ s ∈ rest, f.at < s.at - successWindowSeconds
  triggered : st.triggered = (slice fs st.left st.right).countP fun e => decide (e.key ∈ triggers)

variable {s : Event}

/-- The failures of the window are those of a segment, when those before it are too old and those
behind it are not before the success. -/
theorem priorList_eq {left right : Nat} (hle : left ≤ right)
    (hold : ∀ f ∈ fs.take left, f.at < s.at - successWindowSeconds)
    (hin : ∀ f ∈ slice fs left right, s.at - successWindowSeconds ≤ f.at ∧ f.at < s.at)
    (hlater : ∀ f ∈ fs.drop right, ¬ f.at < s.at) : priorList fs s = slice fs left right := by
  have hparts : fs = fs.take left ++ (slice fs left right ++ fs.drop right) := by
    rw [slice, ← List.append_assoc]
    conv_lhs => rw [← List.take_append_drop right fs, ← List.take_append_drop left (fs.take right)]
    rw [List.take_take, min_eq_left hle]
  have hbefore : priorList (fs.take left) s = [] := by
    refine List.filter_eq_nil_iff.mpr fun f hf => ?_
    simp [not_le.mpr (hold f hf)]
  have hbehind : priorList (fs.drop right) s = [] := by
    refine List.filter_eq_nil_iff.mpr fun f hf => ?_
    simp [hlater f hf]
  have hkept : priorList (slice fs left right) s = slice fs left right := by
    refine List.filter_eq_self.mpr fun f hf => ?_
    simp [hin f hf]
  conv_lhs => rw [hparts, priorList, List.filter_append, List.filter_append]
  change priorList _ s ++ (priorList _ s ++ priorList _ s) = _
  rw [hbefore, hkept, hbehind, List.nil_append, List.append_nil]

/-- The test of the scan decides whether the window qualifies. -/
theorem liveSuccess_iff {left right : Nat} (hprior : priorList fs s = slice fs left right)
    (hin : right ≤ fs.length) :
    ¬ (right - left < successMinFailures ∨
      ¬ ((slice fs left right).countP (fun e => decide (e.key ∈ triggers)) ≠ 0 ∨
        s.key ∈ triggers)) ↔ LiveSuccess triggers fs s := by
  have hlen : (slice fs left right).length = right - left := by
    rw [slice, List.length_drop, List.length_take, min_eq_left hin]
  have hcountP : (slice fs left right).countP (fun e => decide (e.key ∈ triggers)) ≠ 0 ↔
      ∃ f ∈ slice fs left right, f.key ∈ triggers := by
    rw [← Nat.pos_iff_ne_zero, List.countP_pos_iff]
    simp
  rw [hcountP, ← hlen, not_or, not_not, not_lt, ← hprior]
  exact ⟨fun ⟨h₁, h₂⟩ => ⟨h₁, h₂⟩, fun ⟨h₁, h₂⟩ => ⟨h₁, h₂⟩⟩

/-- **The next success**: the failures before it enter, and those too old for it leave. -/
theorem SuccessFront.step {rest : List Event} (hfs : Timed fs) (hfuture : ∀ s' ∈ rest, s.at ≤ s'.at)
    (h : SuccessFront triggers fs (s :: rest) st) :
    ∃ st', st' = SuccessScan.expire triggers s.at (fs.drop
        (SuccessScan.enter triggers s.at (fs.drop st.right) st).left)
        (SuccessScan.enter triggers s.at (fs.drop st.right) st) ∧
      st.left ≤ st'.left ∧ st.right ≤ st'.right ∧ st'.components = st.components ∧
      (∀ f ∈ fs.take st'.left, f.at < s.at - successWindowSeconds) ∧
      (∀ f ∈ fs.take st'.right, f.at < s.at) ∧ (∀ f ∈ fs.drop st'.right, ¬ f.at < s.at) ∧
      priorList fs s = slice fs st'.left st'.right ∧
      (¬ (st'.right - st'.left < successMinFailures ∨
        ¬ (st'.triggered ≠ 0 ∨ s.key ∈ triggers)) ↔ LiveSuccess triggers fs s) ∧
      SuccessFront triggers fs rest st' := by
  have hleft := h.left_le
  have hright := h.right_le
  -- First the failures before the success enter.
  obtain ⟨k₁, hk₁, henter, hentered, hnot⟩ := enter_spec triggers s.at st
    (hfs.sublist (List.drop_sublist st.right fs))
  rw [List.length_drop] at hk₁
  obtain ⟨right, hrightdef⟩ : ∃ right, right = st.right + k₁ := ⟨_, rfl⟩
  have hin : right ≤ fs.length := by omega
  have hnotEntered : ∀ f ∈ fs.drop right, ¬ f.at < s.at := by
    rw [hrightdef, ← List.drop_drop]
    exact hnot
  have hallEntered : ∀ f ∈ fs.take right, f.at < s.at := by
    rw [hrightdef, List.take_add]
    intro f hf
    rcases List.mem_append.mp hf with hf | hf
    · exact h.entered f hf s List.mem_cons_self
    · exact hentered f hf
  -- Then those before the window leave.
  obtain ⟨seg, hseg⟩ : ∃ seg, seg = slice fs st.left right := ⟨_, rfl⟩
  have hdrop : fs.drop st.left = seg ++ fs.drop right := by
    have hsplit : fs.drop st.left = (fs.take right ++ fs.drop right).drop st.left := by
      rw [List.take_append_drop]
    rw [hsplit, List.drop_append_of_le_length (by simp; omega), hseg, slice]
  have hcount : st.triggered + ((fs.drop st.right).take k₁).countP (fun e => decide (e.key ∈ triggers))
      = seg.countP fun e => decide (e.key ∈ triggers) := by
    have hparts : seg = slice fs st.left st.right ++ (fs.drop st.right).take k₁ := by
      rw [hseg, slice, slice, hrightdef, List.take_add,
        List.drop_append_of_le_length (by simp; omega)]
    rw [hparts, List.countP_append, ← h.triggered]
  have hseglen : seg.length = right - st.left := by
    rw [hseg, slice, List.length_drop, List.length_take]
    omega
  have hsegTimed : Timed seg := by
    rw [hseg, slice]
    exact hfs.sublist ((List.drop_sublist _ _).trans (List.take_sublist _ _))
  obtain ⟨k₂, hk₂, hexpire, hleave, hstay⟩ := successExpire_spec s.at (fs.drop right)
    ⟨st.left, right, st.triggered +
      ((fs.drop st.right).take k₁).countP (fun e => decide (e.key ∈ triggers)), st.components⟩
    hsegTimed hseglen (by simp only; omega) hcount
  obtain ⟨left, hleftdef⟩ : ∃ left, left = st.left + k₂ := ⟨_, rfl⟩
  have hleftright : left ≤ right := by omega
  have hslice : slice fs left right = seg.drop k₂ := by
    rw [hseg, slice, slice, List.drop_drop, hleftdef]
  have hallExpired : ∀ f ∈ fs.take left, f.at < s.at - successWindowSeconds := by
    intro f hf
    rw [hleftdef, List.take_add] at hf
    rcases List.mem_append.mp hf with hf | hf
    · exact h.expired f hf s List.mem_cons_self
    · rw [hdrop, List.take_append_of_le_length hk₂] at hf
      exact hleave f hf
  have hprior : priorList fs s = slice fs left right := by
    refine priorList_eq hleftright hallExpired (fun f hf => ⟨?_, ?_⟩) hnotEntered
    · rw [hslice] at hf
      exact not_lt.mp (hstay f hf)
    · exact hallEntered f (List.mem_of_mem_drop hf)
  have hstate : SuccessScan.expire triggers s.at (fs.drop st.left)
      (SuccessScan.enter triggers s.at (fs.drop st.right) st)
        = ⟨left, right, (slice fs left right).countP (fun e => decide (e.key ∈ triggers)),
          st.components⟩ := by
    rw [henter, hdrop, hslice, hleftdef, hrightdef]
    rw [hrightdef] at hexpire
    exact hexpire
  have hentered' : ∀ f ∈ fs.take right, ∀ s' ∈ rest, f.at < s'.at := fun f hf s' hs' =>
    lt_of_lt_of_le (hallEntered f hf) (hfuture s' hs')
  have hexpired' : ∀ f ∈ fs.take left, ∀ s' ∈ rest, f.at < s'.at - successWindowSeconds := by
    intro f hf s' hs'
    have h₁ := hallExpired f hf
    have h₂ := hfuture s' hs'
    linarith
  refine ⟨⟨left, right, (slice fs left right).countP (fun e => decide (e.key ∈ triggers)),
    st.components⟩, ?_, hleftdef ▸ Nat.le_add_right _ _, hrightdef ▸ Nat.le_add_right _ _, rfl,
    hallExpired, hallEntered, hnotEntered, hprior, liveSuccess_iff hprior hin,
    ⟨hleftright, hin, hentered', hexpired', rfl⟩⟩
  rw [← hstate, henter]

/-- The windows of the success scan. -/
def successEdges (triggers : List Key) (fs ss : List Event) : Set (RuleId × Set Key) :=
  {p | ∃ s ∈ ss, LiveSuccess triggers fs s ∧
    p = (.successAfterFailures, keysIn (priorList fs s ++ [s]))}

end SuccessScan

end RiskOps.Telemetry
