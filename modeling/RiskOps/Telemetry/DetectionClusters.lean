import RiskOps.Lib.Clusters
import RiskOps.Telemetry.DetectionScan

/-!
# RiskOps.Telemetry.DetectionClusters — the scans return the maximal clusters

**By position.** The events only have to be in order of time; ties and repeated keys are allowed.
The window of a failure are the positions up to it that are recent enough. The window of a success
are the authentication failures strictly before it that are recent enough. Both scans see each
window that qualifies once, from left to right, with its exact ends; joining them is `Cluster.join`,
so what they return are the maximal clusters (`Cluster.Law`).
-/

namespace RiskOps.Telemetry

open RiskOps.Lib RiskOps.Lib.Components Sshd

/-! ### Positions in order of time -/

/-- How many events, from the first on, are before an instant. -/
def countBefore (es : List Event) (t : ℚ) : Nat :=
  (es.takeWhile fun e => decide (e.at < t)).length

variable {i : Nat} {x : Event}

section Positions

variable {es : List Event} {t : ℚ}

theorem countBefore_le_length : countBefore es t ≤ es.length :=
  (List.takeWhile_prefix _).length_le

/-- **The events before an instant are the first ones.** -/
theorem lt_countBefore_iff (htimed : Timed es) {p : Nat} {e : Event} (he : es[p]? = some e) :
    p < countBefore es t ↔ e.at < t := by
  induction es generalizing p with
  | nil => cases he
  | cons d es ih =>
    obtain ⟨hd, htimed⟩ := List.pairwise_cons.mp htimed
    rw [countBefore, List.takeWhile_cons]
    by_cases hlt : d.at < t
    · rw [if_pos (decide_eq_true hlt), List.length_cons]
      cases p with
      | zero =>
        obtain rfl := Option.some.inj he
        exact iff_of_true (Nat.succ_pos _) hlt
      | succ p => exact Nat.succ_lt_succ_iff.trans (ih htimed he)
    · rw [if_neg (by simpa using hlt), List.length_nil]
      refine iff_of_false (Nat.not_lt_zero _) fun hlt' => hlt ?_
      cases p with
      | zero =>
        obtain rfl := Option.some.inj he
        exact hlt'
      | succ p => exact (hd e (List.mem_of_getElem? he)).trans_lt hlt'

theorem countBefore_mono (htimed : Timed es) {t' : ℚ} (h : t ≤ t') :
    countBefore es t ≤ countBefore es t' := by
  by_contra hlt
  have hin : countBefore es t' < es.length := (not_le.mp hlt).trans_le countBefore_le_length
  have he := List.getElem?_eq_getElem hin
  have hbefore := (lt_countBefore_iff htimed he).mp (not_le.mp hlt)
  exact lt_irrefl _ ((lt_countBefore_iff htimed he).mpr (hbefore.trans_le h))

theorem Timed.at_le (htimed : Timed es) {j : Nat} {y : Event} (hx : es[i]? = some x)
    (hy : es[j]? = some y) (hij : i < j) : x.at ≤ y.at := by
  obtain ⟨hi, rfl⟩ := List.getElem?_eq_some_iff.mp hx
  obtain ⟨hj, rfl⟩ := List.getElem?_eq_some_iff.mp hy
  exact List.pairwise_iff_getElem.mp htimed i j hi hj hij

/-- Where a scan stands when it has passed exactly the events before an instant. -/
theorem countBefore_eq {n : Nat} (hn : n ≤ es.length) (hbefore : ∀ e ∈ es.take n, e.at < t)
    (hnext : ∀ e, es[n]? = some e → ¬ e.at < t) : countBefore es t = n := by
  conv_lhs => rw [countBefore, ← List.take_append_drop n es]
  rw [List.takeWhile_append_of_pos fun e he => decide_eq_true (hbefore e he)]
  have hnone : (es.drop n).takeWhile (fun e => decide (e.at < t)) = [] := by
    cases hd : es.drop n with
    | nil => rfl
    | cons d ds =>
      have hget : es[n]? = some d := by
        rw [← Nat.add_zero n, ← List.getElem?_drop, hd]
        rfl
      rw [List.takeWhile_cons_of_neg (by simpa using hnext d hget)]
  rw [hnone, List.append_nil, List.length_take, min_eq_left hn]

end Positions

/-! ### Windows of failures -/

/-- The positions of the window of position `i`: those up to `i` that are recent enough. -/
def InWindow (window : Nat) (es : List Event) (i j : Nat) : Prop :=
  ∃ x y, es[i]? = some x ∧ es[j]? = some y ∧ j ≤ i ∧ x.at - window ≤ y.at

/-- The events at those positions. -/
def windowAt (window : Nat) (es : List Event) (i : Nat) (x : Event) : List Event :=
  (es.take (i + 1)).filter fun e => decide (x.at - window ≤ e.at)

/-- The window of position `i` holds a trigger and meets the minimums. -/
def Qualifies (triggers : List Key) (rule : FailureRule) (es : List Event) (i : Nat) : Prop :=
  ∃ x, es[i]? = some x ∧ LiveWindow triggers rule (windowAt rule.window es i x)

instance (triggers : List Key) (rule : FailureRule) (w : List Event) :
    Decidable (LiveWindow triggers rule w) :=
  decidable_of_iff ((∃ e ∈ w, e.key ∈ triggers) ∧ rule.records ≤ w.length ∧
      rule.users ≤ distinct (w.filterMap Event.user) ∧ rule.sources ≤ distinct (w.map Event.source))
    ⟨fun ⟨h₁, h₂, h₃, h₄⟩ => ⟨h₁, h₂, h₃, h₄⟩, fun ⟨h₁, h₂, h₃, h₄⟩ => ⟨h₁, h₂, h₃, h₄⟩⟩

/-- The window of position `i`, when it qualifies. -/
def failureWindow? (triggers : List Key) (rule : FailureRule) (es : List Event) (i : Nat) :
    Option (Window Nat) :=
  es[i]?.bind fun x =>
    if LiveWindow triggers rule (windowAt rule.window es i x) then
      some ⟨countBefore es (x.at - rule.window), i + 1, i⟩ else none

/-- The match of a span of failures. -/
def failureMatch (es : List Event) (rule : FailureRule) (s : Cluster.Span) : RuleMatch where
  ruleId := rule.ruleId
  ruleVersion := ruleVersion
  windowSeconds := rule.window
  evidence := (slice es s.start s.stop).map Event.row
  reason := rule.condition ++ " " ++ toString s.members.length ++
    " qualifying window(s) linked by shared evidence; " ++
    toString (s.stop - s.start) ++ " log records retained."

variable {w : Window Nat}

section Failures

variable {triggers : List Key} {rule : FailureRule} {es : List Event}

theorem failureWindow?_eq_some :
    failureWindow? triggers rule es i = some w ↔ ∃ x, es[i]? = some x ∧
      LiveWindow triggers rule (windowAt rule.window es i x) ∧
      w = ⟨countBefore es (x.at - rule.window), i + 1, i⟩ := by
  rw [failureWindow?, Option.bind_eq_some_iff]
  refine exists_congr fun x => and_congr_right fun _ => ?_
  split
  · rename_i hlive
    rw [Option.some.injEq, eq_comm]
    exact (and_iff_right hlive).symm
  · rename_i hnot
    exact iff_of_false (fun h => nomatch h) fun h => hnot h.1

/-- The last position of a window is in it. -/
theorem countBefore_le_self (htimed : Timed es) (hx : es[i]? = some x) :
    countBefore es (x.at - rule.window) ≤ i := by
  by_contra hlt
  have hself := (lt_countBefore_iff htimed hx).mp (not_le.mp hlt)
  have hwindow : (0 : ℚ) ≤ rule.window := Nat.cast_nonneg _
  linarith

theorem indexed_failureWindow? (htimed : Timed es) :
    Cluster.Indexed (failureWindow? triggers rule es) where
  tag i w hi := by
    obtain ⟨x, -, -, rfl⟩ := Iff.mp failureWindow?_eq_some hi
    rfl
  nonempty i w hi := by
    obtain ⟨x, hx, -, rfl⟩ := Iff.mp failureWindow?_eq_some hi
    exact Nat.lt_succ_of_le (countBefore_le_self htimed hx)
  ordered i j w w' hij hi hj := by
    obtain ⟨x, hx, -, rfl⟩ := Iff.mp failureWindow?_eq_some hi
    obtain ⟨x', hx', -, rfl⟩ := Iff.mp failureWindow?_eq_some hj
    have hle := htimed.at_le hx hx' hij
    exact ⟨countBefore_mono htimed (by linarith), Nat.succ_le_succ hij.le⟩

theorem qualifies_iff (i : Nat) :
    Qualifies triggers rule es i ↔ ∃ w, failureWindow? triggers rule es i = some w := by
  constructor
  · intro ⟨x, hx, hlive⟩
    exact ⟨_, Iff.mpr failureWindow?_eq_some ⟨x, hx, hlive, rfl⟩⟩
  · intro ⟨w, hw⟩
    obtain ⟨x, hx, hlive, -⟩ := Iff.mp failureWindow?_eq_some hw
    exact ⟨x, hx, hlive⟩

theorem inWindow_iff (htimed : Timed es) (hi : failureWindow? triggers rule es i = some w) (p : Nat)
    :
    InWindow rule.window es i p ↔ w.Holds p := by
  obtain ⟨x, hx, -, rfl⟩ := Iff.mp failureWindow?_eq_some hi
  constructor
  · intro ⟨x', y, hx', hy, hle, hrecent⟩
    obtain rfl : x = x' := Option.some.inj (hx.symm.trans hx')
    refine ⟨not_lt.mp fun hlt => ?_, Nat.lt_succ_of_le hle⟩
    exact absurd ((lt_countBefore_iff htimed hy).mp hlt) (not_lt.mpr hrecent)
  · intro ⟨hstart, hstop⟩
    have hp : p < es.length :=
      (Nat.le_of_lt_succ hstop).trans_lt (List.getElem?_eq_some_iff.mp hx).1
    have hy := List.getElem?_eq_getElem hp
    refine ⟨x, es[p], hx, hy, Nat.le_of_lt_succ hstop, not_lt.mp fun hlt => ?_⟩
    exact absurd ((lt_countBefore_iff htimed hy).mpr hlt) (not_lt.mpr hstart)

/-- **The failure matches are maximal clusters.** -/
theorem failure_law (htimed : Timed es) :
    Cluster.Law (InWindow rule.window es) (Qualifies triggers rule es)
      ((Cluster.ofWindows (Cluster.windowsOf (failureWindow? triggers rule es) es.length)).map
        Cluster.span) := by
  refine (indexed_failureWindow? htimed).law (fun i w hi => ?_) qualifies_iff fun i w hi p =>
    inWindow_iff htimed hi p
  obtain ⟨x, hx, -⟩ := Iff.mp failureWindow?_eq_some hi
  exact (List.getElem?_eq_some_iff.mp hx).1

/-- The interval of a cluster of failures. -/
def intervalOf (c : Cluster Nat) : Interval := ⟨c.start, c.stop - 1, c.members.length⟩

theorem extendIntervals_map {cs : List (Cluster Nat)} (hcs : ∀ c ∈ cs, 0 < c.stop)
    (w : Window Nat) :
    extendIntervals w.start (w.stop - 1) (cs.map intervalOf) =
      (Cluster.join cs w).map intervalOf := by
  cases cs with
  | nil => rfl
  | cons c older =>
    have hpos := hcs c List.mem_cons_self
    have hiff : w.start ≤ c.stop - 1 ↔ w.start < c.stop := by omega
    rw [List.map_cons, extendIntervals, Cluster.join]
    simp only [intervalOf, hiff]
    split
    · simp [intervalOf]
    · simp [intervalOf]

/-- The scan has joined the windows of the events `pre`. -/
structure Joins (triggers : List Key) (rule : FailureRule) (es pre rest : List Event) (st : Scan) :
    Prop where
  front : Front triggers rule pre rest st
  intervals : st.intervals =
    (Cluster.joinAll (Cluster.windowsOf (failureWindow? triggers rule es) pre.length)).map
      intervalOf

theorem Joins.step {pre rest : List Event} {st : Scan} (hes : es = pre ++ x :: rest)
    (htimed : Timed es) (h : Joins triggers rule es pre (x :: rest) st) :
    Joins triggers rule es (pre ++ [x]) rest (st.step es triggers rule pre.length x) := by
  obtain ⟨st', hst', -, hle, hiv, hcounts, hexpired, hrecent, hfront⟩ :=
    Front.step hes htimed h.front
  have hx : es[pre.length]? = some x := by simp [hes]
  have hin : pre.length < es.length := by simp [hes]
  have hleft : countBefore es (x.at - rule.window) = st'.left := by
    refine countBefore_eq (by omega) (fun e he => ?_) fun e he => ?_
    · have := hexpired e he
      linarith
    · have := hrecent e (mem_slice.mpr ⟨st'.left, le_rfl, by omega, he⟩)
      linarith
  have hwindow : windowAt rule.window es pre.length x = slice es st'.left (pre.length + 1) := by
    have hparts : es.take (pre.length + 1) =
        es.take st'.left ++ slice es st'.left (pre.length + 1) := by
      rw [slice]
      conv_lhs => rw [← List.take_append_drop st'.left (es.take (pre.length + 1)), List.take_take,
        min_eq_left (by omega)]
    rw [windowAt, hparts, List.filter_append, List.filter_eq_nil_iff.mpr, List.nil_append,
      List.filter_eq_self]
    · intro e he
      have := hrecent e he
      exact decide_eq_true (by linarith)
    · intro e he
      have := hexpired e he
      simp only [decide_eq_true_eq, not_le]
      linarith
  have hlen : (slice es st'.left (pre.length + 1)).length = pre.length - st'.left + 1 := by
    rw [slice, List.length_drop, List.length_take, min_eq_left hin]
    omega
  have hlive := hcounts.liveWindow_iff rule hlen
  rw [← hwindow] at hlive
  have hlength : (pre ++ [x]).length = pre.length + 1 := by simp
  have hstep : st.step es triggers rule pre.length x = if st'.triggered = 0 ∨
      pre.length - st'.left + 1 < rule.records ∨ distinct st'.users < rule.users ∨
      distinct st'.sources < rule.sources then st'
      else { st' with intervals := extendIntervals st'.left pre.length st'.intervals } := by
    rw [hst']
    rfl
  rw [hstep]
  split
  · rename_i hno
    have hnone : failureWindow? triggers rule es pre.length = none := by
      rw [failureWindow?, hx, Option.bind_some, if_neg fun hlivex => absurd hno (hlive.mpr hlivex)]
    refine ⟨hfront, ?_⟩
    rw [hlength, Cluster.windowsOf_succ, hnone, Option.toList_none, List.append_nil, hiv]
    exact h.intervals
  · rename_i hyes
    have hsome : failureWindow? triggers rule es pre.length =
        some ⟨st'.left, pre.length + 1, pre.length⟩ := by
      rw [failureWindow?, hx, Option.bind_some, if_pos (hlive.mp hyes), hleft]
    refine ⟨⟨hfront.left_le, hfront.expired, ⟨hfront.counts.users, hfront.counts.sources,
      hfront.counts.triggered⟩⟩, ?_⟩
    rw [hlength, Cluster.windowsOf_succ, hsome, Option.toList_some, Cluster.joinAll_snoc,
      ← extendIntervals_map, hiv, h.intervals]
    · rfl
    · exact fun c hc => Nat.zero_lt_of_lt ((indexed_failureWindow? htimed).stop_pos c hc)

theorem Joins.run {pre rest : List Event} {st : Scan} (hes : es = pre ++ rest) (htimed : Timed es)
    (h : Joins triggers rule es pre rest st) :
    Joins triggers rule es es [] (Scan.run es triggers rule pre.length rest st) := by
  induction rest generalizing pre st with
  | nil =>
    rw [List.append_nil] at hes
    subst hes
    exact h
  | cons x rest ih =>
    have hrun := ih (by rw [hes, List.append_assoc]; rfl) (h.step hes htimed)
    rw [List.length_append, List.length_singleton] at hrun
    exact hrun

/-- **The failure scan joins the windows that qualify.** -/
theorem failureMatches_eq (htimed : Timed es) : failureMatches es triggers rule =
    ((Cluster.ofWindows (Cluster.windowsOf (failureWindow? triggers rule es) es.length)).map
      Cluster.span).map (failureMatch es rule) := by
  have hjoins : Joins triggers rule es es [] (Scan.run es triggers rule 0 es ⟨0, 0, [], [], []⟩) :=
    Joins.run (show es = [] ++ es from rfl) htimed
      ⟨⟨le_rfl, by simp, ⟨by simp, by simp, by simp⟩⟩, rfl⟩
  rw [failureMatches, hjoins.intervals, ← List.map_reverse, ← Cluster.ofWindows, List.map_map,
    List.map_map]
  refine List.map_congr_left fun c hc => ?_
  have hlt := (indexed_failureWindow? htimed).stop_pos c (List.mem_reverse.mp hc)
  have hstop : c.stop - 1 + 1 = c.stop := by omega
  have hcount : c.stop - 1 - c.start + 1 = c.stop - c.start := by omega
  simp only [Function.comp_apply, intervalOf, failureMatch, Cluster.span, List.length_map, hstop,
    hcount]

end Failures

/-! ### Windows of successes -/

/-- The positions of the window of success `k`: the failures strictly before it that are recent
enough. -/
def InPrior (fs ss : List Event) (k j : Nat) : Prop :=
  ∃ s f, ss[k]? = some s ∧ fs[j]? = some f ∧ s.at - successWindowSeconds ≤ f.at ∧ f.at < s.at

/-- There are enough failures in the window, and one of them or the success is a trigger. -/
def QualifiesPrior (triggers : List Key) (fs ss : List Event) (k : Nat) : Prop :=
  ∃ s, ss[k]? = some s ∧ LiveSuccess triggers fs s

instance (triggers : List Key) (fs : List Event) (s : Event) :
    Decidable (LiveSuccess triggers fs s) :=
  decidable_of_iff (successMinFailures ≤ (priorList fs s).length ∧
      ((∃ f ∈ priorList fs s, f.key ∈ triggers) ∨ s.key ∈ triggers))
    ⟨fun ⟨h₁, h₂⟩ => ⟨h₁, h₂⟩, fun ⟨h₁, h₂⟩ => ⟨h₁, h₂⟩⟩

/-- The window of success `k`, when it qualifies. -/
def successWindow? (triggers : List Key) (fs ss : List Event) (k : Nat) : Option (Window Nat) :=
  ss[k]?.bind fun s =>
    if LiveSuccess triggers fs s then
      some ⟨countBefore fs (s.at - successWindowSeconds), countBefore fs s.at, k⟩ else none

/-- The match of a span of failures, with the successes whose windows it joins. -/
def successMatch (fs ss : List Event) (s : Cluster.Span) : RuleMatch :=
  let successes := s.members.filterMap (ss[·]?)
  let evidence := (slice fs s.start s.stop ++ successes).insertionSort
    (fun a b => a.order ≤ b.order)
  { ruleId := .successAfterFailures
    ruleVersion := successRuleVersion
    windowSeconds := successWindowSeconds
    evidence := evidence.map Event.row
    reason := "Authentication succeeded strictly after at least " ++ toString successMinFailures ++
      " failed SSH authentication records (excluding pre-authentication disconnects) in the " ++
      "preceding " ++ toString (successWindowSeconds / 60) ++ " minutes on the same source. " ++
      toString successes.length ++ " qualifying window(s) linked by shared evidence; " ++
      toString evidence.length ++ " log records retained." }

section Successes

variable {triggers : List Key} {fs ss : List Event}

theorem successWindow?_eq_some {k : Nat} :
    successWindow? triggers fs ss k = some w ↔ ∃ s, ss[k]? = some s ∧ LiveSuccess triggers fs s ∧
      w = ⟨countBefore fs (s.at - successWindowSeconds), countBefore fs s.at, k⟩ := by
  rw [successWindow?, Option.bind_eq_some_iff]
  refine exists_congr fun s => and_congr_right fun _ => ?_
  split
  · rename_i hlive
    rw [Option.some.injEq, eq_comm]
    exact (and_iff_right hlive).symm
  · rename_i hnot
    exact iff_of_false (fun h => nomatch h) fun h => hnot h.1

variable {s : Event}

theorem mem_priorList {f : Event} : f ∈ priorList fs s ↔
    f ∈ fs ∧ s.at - successWindowSeconds ≤ f.at ∧ f.at < s.at := by
  simp [priorList]

theorem indexed_successWindow? (hfs : Timed fs) (hss : Timed ss) :
    Cluster.Indexed (successWindow? triggers fs ss) where
  tag k w hk := by
    obtain ⟨s, -, -, rfl⟩ := Iff.mp successWindow?_eq_some hk
    rfl
  nonempty k w hk := by
    obtain ⟨s, -, hlive, rfl⟩ := Iff.mp successWindow?_eq_some hk
    -- There is a failure in the window, since it has at least three.
    have hpos : 0 < (priorList fs s).length := Nat.lt_of_lt_of_le (by decide) hlive.failures
    obtain ⟨f, hf⟩ := List.exists_mem_of_length_pos hpos
    obtain ⟨hmem, hrecent, hbefore⟩ := Iff.mp mem_priorList hf
    obtain ⟨p, hp⟩ := List.mem_iff_getElem?.mp hmem
    have hstart := not_lt.mp fun hlt => absurd ((lt_countBefore_iff hfs hp).mp hlt) hrecent.not_gt
    exact lt_of_le_of_lt hstart ((lt_countBefore_iff hfs hp).mpr hbefore)
  ordered i j w w' hij hi hj := by
    obtain ⟨s, hs, -, rfl⟩ := Iff.mp successWindow?_eq_some hi
    obtain ⟨s', hs', -, rfl⟩ := Iff.mp successWindow?_eq_some hj
    have hle := hss.at_le hs hs' hij
    exact ⟨countBefore_mono hfs (by linarith), countBefore_mono hfs hle⟩

theorem qualifiesPrior_iff (k : Nat) :
    QualifiesPrior triggers fs ss k ↔ ∃ w, successWindow? triggers fs ss k = some w := by
  constructor
  · intro ⟨s, hs, hlive⟩
    exact ⟨_, Iff.mpr successWindow?_eq_some ⟨s, hs, hlive, rfl⟩⟩
  · intro ⟨w, hw⟩
    obtain ⟨s, hs, hlive, -⟩ := Iff.mp successWindow?_eq_some hw
    exact ⟨s, hs, hlive⟩

theorem inPrior_iff (hfs : Timed fs) {k : Nat} (hk : successWindow? triggers fs ss k = some w)
    (p : Nat) : InPrior fs ss k p ↔ w.Holds p := by
  obtain ⟨s, hs, -, rfl⟩ := Iff.mp successWindow?_eq_some hk
  constructor
  · intro ⟨s', f, hs', hf, hrecent, hbefore⟩
    obtain rfl : s = s' := Option.some.inj (hs.symm.trans hs')
    exact ⟨not_lt.mp fun hlt => absurd ((lt_countBefore_iff hfs hf).mp hlt) hrecent.not_gt,
      (lt_countBefore_iff hfs hf).mpr hbefore⟩
  · intro ⟨hstart, hstop⟩
    have hf := List.getElem?_eq_getElem (hstop.trans_le countBefore_le_length)
    exact ⟨s, _, hs, hf,
      not_lt.mp fun hlt => absurd ((lt_countBefore_iff hfs hf).mpr hlt) hstart.not_gt,
      (lt_countBefore_iff hfs hf).mp hstop⟩

/-- **The success matches are maximal clusters**, linked by the failures they share. -/
theorem success_law (hfs : Timed fs) (hss : Timed ss) :
    Cluster.Law (InPrior fs ss) (QualifiesPrior triggers fs ss)
      ((Cluster.ofWindows (Cluster.windowsOf (successWindow? triggers fs ss) ss.length)).map
        Cluster.span) := by
  refine (indexed_successWindow? hfs hss).law (fun k w hk => ?_) qualifiesPrior_iff
    fun k w hk p => inPrior_iff hfs hk p
  obtain ⟨s, hs, -⟩ := Iff.mp successWindow?_eq_some hk
  exact (List.getElem?_eq_some_iff.mp hs).1

/-- The component of a cluster of successes. -/
def componentOf (ss : List Event) (c : Cluster Nat) : SuccessComponent :=
  ⟨c.start, c.stop, c.members.filterMap fun w => ss[w.tag]?⟩

theorem extendComponents_map {cs : List (Cluster Nat)} (hs : ss[w.tag]? = some s) :
    extendComponents w.start w.stop s (cs.map (componentOf ss)) =
      (Cluster.join cs w).map (componentOf ss) := by
  cases cs with
  | nil => simp [extendComponents, Cluster.join, componentOf, hs]
  | cons c older =>
    rw [List.map_cons, extendComponents, Cluster.join]
    simp only [componentOf]
    split
    · rename_i hjoin
      simp [componentOf, hs, hjoin]
    · rename_i hjoin
      simp [componentOf, hs, hjoin]

/-- The scan has joined the windows of the successes `pre`. -/
structure JoinsPrior (triggers : List Key) (fs ss pre rest : List Event) (st : SuccessScan) :
    Prop where
  front : SuccessFront triggers fs rest st
  components : st.components =
    (Cluster.joinAll (Cluster.windowsOf (successWindow? triggers fs ss) pre.length)).map
      (componentOf ss)

theorem JoinsPrior.step {pre rest : List Event} {st : SuccessScan} (hes : ss = pre ++ s :: rest)
    (hfs : Timed fs) (hss : Timed ss) (h : JoinsPrior triggers fs ss pre (s :: rest) st) :
    JoinsPrior triggers fs ss (pre ++ [s]) rest (st.step fs triggers s) := by
  have hfuture : ∀ s' ∈ rest, s.at ≤ s'.at := by
    rw [hes] at hss
    exact (List.pairwise_cons.mp (List.pairwise_append.mp hss).2.1).1
  obtain ⟨st', hst', -, -, hcs, hexpired, hentered, hahead, hprior, hlive, hfront⟩ :=
    SuccessFront.step hfs hfuture h.front
  have hs : ss[pre.length]? = some s := by simp [hes]
  have hlength : (pre ++ [s]).length = pre.length + 1 := by simp
  have hstep : st.step fs triggers s = if st'.right - st'.left < successMinFailures ∨
      ¬ (st'.triggered ≠ 0 ∨ s.key ∈ triggers) then st'
      else { st' with
        components := extendComponents st'.left st'.right s st'.components } := by
    rw [hst']
    rfl
  rw [hstep]
  split
  · rename_i hno
    have hnone : successWindow? triggers fs ss pre.length = none := by
      rw [successWindow?, hs, Option.bind_some, if_neg fun hlives => absurd hno (hlive.mpr hlives)]
    refine ⟨hfront, ?_⟩
    rw [hlength, Cluster.windowsOf_succ, hnone, Option.toList_none, List.append_nil, hcs]
    exact h.components
  · rename_i hyes
    have hlt : st'.left < st'.right := by
      have h₁ : ¬ st'.right - st'.left < successMinFailures := fun hlt => hyes (Or.inl hlt)
      have h₂ : 0 < successMinFailures := by decide
      omega
    have hstop : countBefore fs s.at = st'.right := by
      refine countBefore_eq hfront.right_le hentered fun f hf => hahead f ?_
      exact List.mem_iff_getElem?.mpr ⟨0, by rwa [List.getElem?_drop]⟩
    have hstart : countBefore fs (s.at - successWindowSeconds) = st'.left := by
      refine countBefore_eq (hlt.le.trans hfront.right_le) hexpired fun f hf => ?_
      have hmem : f ∈ priorList fs s := by
        rw [hprior]
        exact mem_slice.mpr ⟨st'.left, le_rfl, hlt, hf⟩
      exact not_lt.mpr (mem_priorList.mp hmem).2.1
    have hsome : successWindow? triggers fs ss pre.length =
        some ⟨st'.left, st'.right, pre.length⟩ := by
      rw [successWindow?, hs, Option.bind_some, if_pos (hlive.mp hyes), hstart, hstop]
    refine ⟨⟨hfront.left_le, hfront.right_le, hfront.entered, hfront.expired, hfront.triggered⟩, ?_⟩
    rw [hlength, Cluster.windowsOf_succ, hsome, Option.toList_some, Cluster.joinAll_snoc,
      ← extendComponents_map hs, hcs, h.components]

theorem JoinsPrior.run {pre rest : List Event} {st : SuccessScan} (hes : ss = pre ++ rest)
    (hfs : Timed fs) (hss : Timed ss) (h : JoinsPrior triggers fs ss pre rest st) :
    JoinsPrior triggers fs ss ss [] (rest.foldl (SuccessScan.step fs triggers) st) := by
  induction rest generalizing pre st with
  | nil =>
    rw [List.append_nil] at hes
    subst hes
    exact h
  | cons s rest ih => exact ih (by rw [hes, List.append_assoc]; rfl) (h.step hes hfs hss)

end Successes

/-- **The success scan joins the windows that qualify.** -/
theorem successMatches_eq {triggers : List Key} {es fs ss : List Event} (htimed : Timed es)
    (hfs : fs = es.filter fun e => authenticationFailureType e.kind)
    (hss : ss = es.filter fun e => successType e.kind) :
    successMatches es triggers =
      ((Cluster.ofWindows (Cluster.windowsOf (successWindow? triggers fs ss) ss.length)).map
        Cluster.span).map (successMatch fs ss) := by
  have hfsTimed : Timed fs := hfs ▸ htimed.filter _
  have hssTimed : Timed ss := hss ▸ htimed.filter _
  have hjoins : JoinsPrior triggers fs ss ss []
      (ss.foldl (SuccessScan.step fs triggers) ⟨0, 0, 0, []⟩) :=
    JoinsPrior.run (show ss = [] ++ ss from rfl) hfsTimed hssTimed
      ⟨⟨le_rfl, Nat.zero_le _, by simp, by simp, by simp [slice]⟩, rfl⟩
  rw [successMatches, ← hfs, ← hss]
  dsimp only
  rw [hjoins.components, ← List.map_reverse, ← Cluster.ofWindows, List.map_map, List.map_map]
  refine List.map_congr_left fun c _ => ?_
  simp only [Function.comp_apply, componentOf, successMatch, Cluster.span, List.filterMap_map]

/-! ### The evidence of a match -/

section Evidence

variable {triggers : List Key} {rule : FailureRule} {es : List Event} {m : RuleMatch}

/-- A failure match holds events, and only events of its scan. -/
theorem failureMatches_evidence (htimed : Timed es) (hm : m ∈ failureMatches es triggers rule) :
    m.evidence ≠ [] ∧ ∀ row ∈ m.evidence, ∃ e ∈ es, e.row = row := by
  rw [failureMatches_eq htimed] at hm
  obtain ⟨s, hs, rfl⟩ := List.mem_map.mp hm
  obtain ⟨hlt, hsound⟩ := (failure_law htimed).sound s hs
  obtain ⟨i, -, -, e, -, he, -⟩ := hsound s.start le_rfl hlt
  have hfirst := Iff.mpr mem_slice ⟨s.start, le_rfl, hlt, he⟩
  refine ⟨List.ne_nil_of_mem (List.mem_map_of_mem hfirst), fun row hrow => ?_⟩
  obtain ⟨e, he, rfl⟩ := List.mem_map.mp hrow
  obtain ⟨j, -, -, hj⟩ := Iff.mp mem_slice he
  exact ⟨e, List.mem_of_getElem? hj, rfl⟩

/-- The events of a success match: the failures of its span, and its successes. -/
theorem mem_evidence_successMatch {fs ss : List Event} {s : Cluster.Span} {row : Row} :
    row ∈ (successMatch fs ss s).evidence ↔ ∃ e, e.row = row ∧
      (e ∈ slice fs s.start s.stop ∨ ∃ k ∈ s.members, ss[k]? = some e) := by
  simp only [successMatch, List.mem_map, List.mem_insertionSort, List.mem_append,
    List.mem_filterMap]
  exact exists_congr fun e => and_comm

/-- A success match holds events, and only events of its scan. -/
theorem successMatches_evidence (htimed : Timed es) (hm : m ∈ successMatches es triggers) :
    m.evidence ≠ [] ∧ ∀ row ∈ m.evidence, ∃ e ∈ es, e.row = row := by
  rw [successMatches_eq htimed rfl rfl] at hm
  obtain ⟨s, hs, rfl⟩ := List.mem_map.mp hm
  obtain ⟨hlt, hsound⟩ := (success_law (htimed.filter _) (htimed.filter _)).sound s hs
  obtain ⟨k, -, -, f, -, hf, -⟩ := hsound s.start le_rfl hlt
  have hfirst := Iff.mpr mem_slice ⟨s.start, le_rfl, hlt, hf⟩
  refine ⟨List.ne_nil_of_mem (Iff.mpr mem_evidence_successMatch ⟨f, rfl, .inl hfirst⟩),
    fun row hrow => ?_⟩
  obtain ⟨e, rfl, he | ⟨k, -, hk⟩⟩ := Iff.mp mem_evidence_successMatch hrow
  · obtain ⟨j, -, -, hj⟩ := Iff.mp mem_slice he
    exact ⟨e, List.mem_of_mem_filter (List.mem_of_getElem? hj), rfl⟩
  · exact ⟨e, List.mem_of_mem_filter (List.mem_of_getElem? hk), rfl⟩

end Evidence

/-! ### The components of the matches -/

section Components

variable {window : Nat → Nat → Prop} {qualifies : Nat → Prop} {spans : List Cluster.Span}
  {H : Set (RuleId × Set Key)} {ruleId : RuleId} (keys : Nat → Set Key)

/-- The windows that a span joins are linked by the positions they share. -/
theorem law_linked (h : Cluster.Law window qualifies spans)
    (hedge : ∀ i, qualifies i → (ruleId, keys i) ∈ H)
    (hshare : ∀ i j p, window i p → window j p → ∃ k, k ∈ keys i ∧ k ∈ keys j)
    {s : Cluster.Span} (hs : s ∈ spans) {i j : Nat} (hi : i ∈ s.members) (hj : j ∈ s.members)
    {a b : Key} (ha : a ∈ keys i) (hb : b ∈ keys j) : Linked H a b := by
  obtain ⟨hqi, hci⟩ := ((h.members s hs).2 i).mp hi
  obtain ⟨hqj, hcj⟩ := ((h.members s hs).2 j).mp hj
  have hchain : ∀ {j : Nat}, Relation.ReflTransGen
      (fun a b => (qualifies a ∧ qualifies b) ∧ ∃ p, window a p ∧ window b p) i j →
      ∀ b ∈ keys j, Linked H a b := by
    intro j hij
    induction hij with
    | refl => exact fun b hb => linked_of_mem (hedge i hqi) ha hb
    | tail _ hstep ih =>
      obtain ⟨⟨-, hq⟩, p, hp, hp'⟩ := hstep
      obtain ⟨k, hk, hk'⟩ := hshare _ _ p hp hp'
      exact fun b hb => (ih k hk).trans (linked_of_mem (hedge _ hq) hk' hb)
  exact hchain ((h.linked i j hqi hqj).mp ⟨s, hs, hci, hcj⟩) b hb

/-- **Maximal clusters have the components of their windows**, when a match holds the keys of the
windows its span joins. -/
theorem law_equivalent (h : Cluster.Law window qualifies spans)
    (hH : H = {p | ∃ i, qualifies i ∧ p = (ruleId, keys i)})
    (hshare : ∀ i j p, window i p → window j p → ∃ k, k ∈ keys i ∧ k ∈ keys j)
    {f : Cluster.Span → RuleMatch} (hrule : ∀ s, (f s).ruleId = ruleId)
    (hkeys : ∀ s ∈ spans, {k | ∃ row ∈ (f s).evidence, row.key = k} =
      {k | ∃ i ∈ s.members, k ∈ keys i}) : Equivalent (matchEdges (spans.map f)) H := by
  have hedge : ∀ i, qualifies i → (ruleId, keys i) ∈ H := fun i hi => hH ▸ ⟨i, hi, rfl⟩
  constructor
  · rintro r ks ⟨m, hm, heq⟩
    obtain ⟨s, hs, rfl⟩ := List.mem_map.mp hm
    rw [hrule, hkeys s hs, Prod.mk.injEq] at heq
    obtain ⟨rfl, rfl⟩ := heq
    rintro a ⟨i, hi, ha⟩
    refine ⟨touches_of_mem (hedge i (((h.members s hs).2 i).mp hi).1) ha, ?_⟩
    rintro b ⟨j, hj, hb⟩
    exact law_linked keys h hedge hshare hs hi hj ha hb
  · refine refines_of_covered fun r ks hks => ?_
    obtain ⟨i, hq, heq⟩ := hH ▸ hks
    obtain ⟨rfl, rfl⟩ := Prod.mk.inj heq
    obtain ⟨s, ⟨hs, hcontains⟩, -⟩ := h.complete i hq
    refine ⟨_, ⟨f s, List.mem_map_of_mem hs, by rw [hrule]⟩, fun k hk => ?_⟩
    rw [hkeys s hs]
    exact ⟨i, ((h.members s hs).2 i).mpr ⟨hq, hcontains⟩, hk⟩

/-- The keys of the events at these positions. -/
def keysAt (es : List Event) (P : Nat → Prop) : Set Key :=
  {k | ∃ j e, P j ∧ es[j]? = some e ∧ e.key = k}

variable {triggers : List Key} {rule : FailureRule} {es fs ss : List Event}

theorem Ordered.order_lt (hsorted : Ordered es) {j : Nat} {y : Event} (hx : es[i]? = some x)
    (hy : es[j]? = some y) (hij : i < j) : x.order < y.order := by
  obtain ⟨hi, rfl⟩ := List.getElem?_eq_some_iff.mp hx
  obtain ⟨hj, rfl⟩ := List.getElem?_eq_some_iff.mp hy
  exact List.pairwise_iff_getElem.mp hsorted i j hi hj hij

/-- Of strictly ordered events, those up to position `i` are those up to its event. -/
theorem windowAt_eq (hsorted : Ordered es) (window : Nat) (hx : es[i]? = some x) :
    windowAt window es i x = windowList window es x := by
  have hlater : (es.drop (i + 1)).filter
      (fun e => decide (e.order ≤ x.order) && decide (x.at - e.at ≤ window)) = [] := by
    refine List.filter_eq_nil_iff.mpr fun e he => ?_
    obtain ⟨j, hj⟩ := List.mem_iff_getElem?.mp he
    rw [List.getElem?_drop] at hj
    simp [not_le.mpr (hsorted.order_lt hx hj (by omega))]
  conv_rhs => rw [windowList, ← List.take_append_drop (i + 1) es, List.filter_append, hlater,
    List.append_nil]
  refine List.filter_congr fun e he => ?_
  obtain ⟨j, -, hlt, hj⟩ := Iff.mp mem_slice (show e ∈ slice es 0 (i + 1) from he)
  have hle : e.order ≤ x.order := by
    rcases Nat.lt_succ_iff_lt_or_eq.mp hlt with hlt | rfl
    · exact (hsorted.order_lt hj hx hlt).le
    · rw [Option.some.inj (hj.symm.trans hx)]
  simp [hle, add_comm]

theorem keysIn_windowList (hsorted : Ordered es) (hx : es[i]? = some x) :
    keysIn (windowList rule.window es x) = keysAt es (InWindow rule.window es i) := by
  ext k
  constructor
  · rintro ⟨e, he, rfl⟩
    obtain ⟨hmem, horder, hrecent⟩ := mem_windowList.mp he
    obtain ⟨j, hj⟩ := List.mem_iff_getElem?.mp hmem
    have hle : j ≤ i := not_lt.mp fun hlt => absurd (hsorted.order_lt hx hj hlt) (not_lt.mpr horder)
    exact ⟨j, e, ⟨x, e, hx, hj, hle, sub_le_comm.mp hrecent⟩, hj, rfl⟩
  · rintro ⟨j, e, ⟨x', e', hx', he', hle, hrecent⟩, hj, rfl⟩
    obtain rfl : x' = x := Option.some.inj (hx'.symm.trans hx)
    obtain rfl : e' = e := Option.some.inj (he'.symm.trans hj)
    refine ⟨e', mem_windowList.mpr ⟨List.mem_of_getElem? hj, ?_, sub_le_comm.mp hrecent⟩, rfl⟩
    rcases hle.lt_or_eq with hlt | rfl
    · exact (hsorted.order_lt hj hx hlt).le
    · rw [Option.some.inj (hj.symm.trans hx)]

/-- **The failure scan.** Its matches have the components of the windows it slides over. -/
theorem failureMatches_edges (hsorted : Ordered es) (hkey : ∀ e ∈ es, e.row.key = e.key) :
    Equivalent (matchEdges (failureMatches es triggers rule)) (scanEdges triggers rule es) := by
  rw [failureMatches_eq hsorted.timed]
  have hlaw : Cluster.Law (InWindow rule.window es) (Qualifies triggers rule es) _ :=
    failure_law hsorted.timed
  refine law_equivalent (fun i => keysAt es (InWindow rule.window es i)) hlaw ?_ ?_
    (fun _ => rfl) fun s hs => ?_
  · ext p
    constructor
    · rintro ⟨x, hx, hlive, rfl⟩
      obtain ⟨i, hi⟩ := List.mem_iff_getElem?.mp hx
      exact ⟨i, ⟨x, hi, (windowAt_eq hsorted rule.window hi).symm ▸ hlive⟩,
        by rw [keysIn_windowList hsorted hi]⟩
    · rintro ⟨i, ⟨x, hi, hlive⟩, rfl⟩
      exact ⟨x, List.mem_of_getElem? hi, windowAt_eq hsorted rule.window hi ▸ hlive,
        by rw [keysIn_windowList hsorted hi]⟩
  · rintro i j p hi hj
    obtain ⟨-, y, -, hy, -⟩ := id hi
    exact ⟨y.key, ⟨p, y, hi, hy, rfl⟩, ⟨p, y, hj, hy, rfl⟩⟩
  · ext k
    constructor
    · rintro ⟨row, hrow, rfl⟩
      obtain ⟨e, he, rfl⟩ := List.mem_map.mp hrow
      obtain ⟨p, hstart, hstop, hp⟩ := Iff.mp mem_slice he
      obtain ⟨i, hi, hwindow⟩ := (hlaw.sound s hs).2 p hstart hstop
      exact ⟨i, hi, p, e, hwindow, hp, (hkey e (List.mem_of_getElem? hp)).symm⟩
    · rintro ⟨i, hi, p, e, hwindow, hp, rfl⟩
      obtain ⟨hstart, hstop⟩ := (((hlaw.members s hs).2 i).mp hi).2 p hwindow
      exact ⟨e.row, List.mem_map_of_mem (Iff.mpr mem_slice ⟨p, hstart, hstop, hp⟩),
        hkey e (List.mem_of_getElem? hp)⟩

/-- The keys of the window of success `k`, and its own. -/
def priorKeys (fs ss : List Event) (k : Nat) : Set Key :=
  keysAt fs (InPrior fs ss k) ∪ keysAt ss (· = k)

theorem keysIn_priorList {s : Event} {k : Nat} (hs : ss[k]? = some s) :
    keysIn (priorList fs s ++ [s]) = priorKeys fs ss k := by
  ext key
  constructor
  · rintro ⟨e, he, rfl⟩
    rcases List.mem_append.mp he with he | he
    · obtain ⟨hmem, hrecent, hbefore⟩ := Iff.mp mem_priorList he
      obtain ⟨p, hp⟩ := List.mem_iff_getElem?.mp hmem
      exact .inl ⟨p, e, ⟨s, e, hs, hp, hrecent, hbefore⟩, hp, rfl⟩
    · rw [List.mem_singleton.mp he]
      exact .inr ⟨k, s, rfl, hs, rfl⟩
  · rintro (⟨p, f, ⟨s', f', hs', hf', hrecent, hbefore⟩, hp, rfl⟩ | ⟨_, s', rfl, hs', rfl⟩)
    · obtain rfl : s' = s := Option.some.inj (hs'.symm.trans hs)
      obtain rfl : f' = f := Option.some.inj (hf'.symm.trans hp)
      exact ⟨f', List.mem_append_left _
        (Iff.mpr mem_priorList ⟨List.mem_of_getElem? hp, hrecent, hbefore⟩), rfl⟩
    · obtain rfl : s' = s := Option.some.inj (hs'.symm.trans hs)
      exact ⟨s', List.mem_append_right _ (List.mem_singleton_self s'), rfl⟩

/-- **The success scan.** Its matches have the components of the windows of the successes. -/
theorem successMatches_edges (hsorted : Ordered es) (hkey : ∀ e ∈ es, e.row.key = e.key) :
    Equivalent (matchEdges (successMatches es triggers))
      (successEdges triggers (es.filter fun e => authenticationFailureType e.kind)
        (es.filter fun e => successType e.kind)) := by
  obtain ⟨fs, hfs⟩ : ∃ fs, fs = es.filter fun e => authenticationFailureType e.kind := ⟨_, rfl⟩
  obtain ⟨ss, hss⟩ : ∃ ss, ss = es.filter fun e => successType e.kind := ⟨_, rfl⟩
  rw [successMatches_eq hsorted.timed hfs hss, ← hfs, ← hss]
  have hlaw : Cluster.Law (InPrior fs ss) (QualifiesPrior triggers fs ss) _ :=
    success_law (hfs ▸ hsorted.timed.filter _) (hss ▸ hsorted.timed.filter _)
  have hkeyF : ∀ {p : Nat} {e : Event}, fs[p]? = some e → e.row.key = e.key := fun hp =>
    hkey _ (List.mem_of_mem_filter (hfs ▸ List.mem_of_getElem? hp))
  have hkeyS : ∀ {k : Nat} {e : Event}, ss[k]? = some e → e.row.key = e.key := fun hk =>
    hkey _ (List.mem_of_mem_filter (hss ▸ List.mem_of_getElem? hk))
  refine law_equivalent (priorKeys fs ss) hlaw ?_ ?_ (fun _ => rfl) fun s hs => ?_
  · ext p
    constructor
    · rintro ⟨s, hs, hlive, rfl⟩
      obtain ⟨k, hk⟩ := List.mem_iff_getElem?.mp hs
      exact ⟨k, ⟨s, hk, hlive⟩, by rw [keysIn_priorList hk]⟩
    · rintro ⟨k, ⟨s, hk, hlive⟩, rfl⟩
      exact ⟨s, List.mem_of_getElem? hk, hlive, by rw [keysIn_priorList hk]⟩
  · rintro i j p hi hj
    obtain ⟨-, f, -, hf, -⟩ := id hi
    exact ⟨f.key, .inl ⟨p, f, hi, hf, rfl⟩, .inl ⟨p, f, hj, hf, rfl⟩⟩
  · ext key
    constructor
    · rintro ⟨row, hrow, rfl⟩
      obtain ⟨e, rfl, he | ⟨k, hk, he⟩⟩ := Iff.mp mem_evidence_successMatch hrow
      · obtain ⟨p, hstart, hstop, hp⟩ := Iff.mp mem_slice he
        obtain ⟨k, hk, hwindow⟩ := (hlaw.sound s hs).2 p hstart hstop
        exact ⟨k, hk, .inl ⟨p, e, hwindow, hp, (hkeyF hp).symm⟩⟩
      · exact ⟨k, hk, .inr ⟨k, e, rfl, he, (hkeyS he).symm⟩⟩
    · rintro ⟨k, hk, ⟨p, f, hwindow, hp, rfl⟩ | ⟨_, e, rfl, he, rfl⟩⟩
      · obtain ⟨hstart, hstop⟩ := (((hlaw.members s hs).2 k).mp hk).2 p hwindow
        exact ⟨f.row, Iff.mpr mem_evidence_successMatch
          ⟨f, rfl, .inl (Iff.mpr mem_slice ⟨p, hstart, hstop, hp⟩)⟩, hkeyF hp⟩
      · exact ⟨e.row, Iff.mpr mem_evidence_successMatch ⟨e, rfl, .inr ⟨_, hk, he⟩⟩, hkeyS he⟩

end Components

/-! ### Both scans -/

/-- **The window rules find exactly the maximal clusters.** Of any events in order of time, any
triggers and any rule: the failure scan returns one match for each maximal cluster of windows that
hold a trigger and meet the minimums, and the success scan one for each maximal cluster of windows
of successes, linked by the authentication failures they share. -/
theorem window_rules_find_clusters (es : List Event) (htimed : Timed es) (triggers : List Key) :
    (∀ rule : FailureRule, ∃ spans,
      Cluster.Law (InWindow rule.window es) (Qualifies triggers rule es) spans ∧
      failureMatches es triggers rule = spans.map (failureMatch es rule)) ∧
    ∃ spans,
      let fs := es.filter fun e => authenticationFailureType e.kind
      let ss := es.filter fun e => successType e.kind
      Cluster.Law (InPrior fs ss) (QualifiesPrior triggers fs ss) spans ∧
      successMatches es triggers = spans.map (successMatch fs ss) :=
  ⟨fun _ => ⟨_, failure_law htimed, failureMatches_eq htimed⟩,
    _, success_law (htimed.filter _) (htimed.filter _), successMatches_eq htimed rfl rfl⟩

/-- A record of one peer on one host. -/
def attempt (kind : EventKind) (eventId : Char) (eventTs : ℚ) : Event :=
  ⟨⟨['h'], [eventId], eventTs, kind, some ['p'], none⟩, (['h'], [eventId]), ['h'], ['p'], eventTs,
    kind, none⟩

/-- Three failures, two of them at one instant, and a success. -/
def attempts : List Event :=
  [attempt .authFailure 'a' 0, attempt .authFailure 'b' 300, attempt .authFailure 'c' 300,
    attempt .authSuccess 'd' 400]

theorem window_rules_of_attempts :
    ∃ spans, Cluster.Law (InWindow 300 attempts)
      (Qualifies [(['h'], ['c'])] burstRule attempts) spans ∧
      failureMatches attempts [(['h'], ['c'])] burstRule =
        spans.map (failureMatch attempts burstRule) := by
  have htimed : Timed attempts := by
    simp [Timed, attempts, attempt]
    norm_num
  exact (window_rules_find_clusters attempts htimed [(['h'], ['c'])]).1 burstRule

end RiskOps.Telemetry
