import RiskOps.Lib.Components
import RiskOps.Telemetry.Detection

/-!
# RiskOps.Telemetry.DetectionSpec — the windows a set of events has

**What detection is for, with no scan and no order of arrival.** A set of events has,
for each rule, one window per anchor event: the related events up to the anchor that
are recent enough. The qualifying windows are the labelled edges whose components are
the incidents.

Three facts about windows carry everything else: they only grow with the set
(`windows_grow`), a window that lies in a smaller set is a window of that set
(`windows_shrink`), and the events of a window are close to each other and share a peer
(`windows_near`).
-/

namespace RiskOps.Telemetry

open RiskOps.Lib RiskOps.Lib.Components

/-! ### Windows of failures -/

/-- The rules `detect_matches` evaluates with `include_burst`. -/
def failureRules : List FailureRule := burstRule :: localRules ++ [crossSourceRule]

/-- Events a rule correlates: the same peer, and the same source unless the rule crosses
sources. -/
def FailureRule.Related (rule : FailureRule) (e r : Event) : Prop :=
  e.peer = r.peer ∧ (rule.ruleId ≠ .crossSource → e.source = r.source)

instance (rule : FailureRule) (e r : Event) : Decidable (rule.Related e r) :=
  inferInstanceAs (Decidable (_ ∧ _))

/-- The window of a rule that ends in `r`. -/
def FailureRule.windowOf (rule : FailureRule) (E : Finset Event) (r : Event) : Finset Event :=
  E.filter fun e => failureType e.kind = true ∧ rule.Related e r ∧ e.order ≤ r.order ∧
    r.at - e.at ≤ rule.window

/-- The user names in a set of events. -/
def usersOf (w : Finset Event) : Finset (List Char) := w.biUnion fun e => e.user.toFinset

/-- The thresholds of a rule. -/
structure FailureRule.Qualifies (rule : FailureRule) (w : Finset Event) : Prop where
  records : rule.records ≤ w.card
  users : rule.users ≤ (usersOf w).card
  sources : rule.sources ≤ (w.image Event.source).card

variable {rule : FailureRule} {w : Finset Event}

theorem FailureRule.Qualifies.mono {w' : Finset Event} (h : rule.Qualifies w) (hsub : w ⊆ w') :
    rule.Qualifies w' where
  records := h.records.trans (Finset.card_le_card hsub)
  users := h.users.trans (Finset.card_le_card (Finset.biUnion_subset_biUnion_of_subset_left _ hsub))
  sources := h.sources.trans (Finset.card_le_card (Finset.image_subset_image hsub))

/-! ### Windows of a success -/

/-- The authentication failures in the half hour strictly before a success. -/
def priorFailures (E : Finset Event) (s : Event) : Finset Event :=
  E.filter fun e => authenticationFailureType e.kind = true ∧ e.group = s.group ∧ e.at < s.at ∧
    s.at - successWindowSeconds ≤ e.at

/-! ### All windows -/

/-- The qualifying windows of a set of events, each with the id of its rule. -/
inductive IsWindow (E : Finset Event) : RuleId → Finset Event → Prop where
  | failures {rule : FailureRule} {r : Event} (hrule : rule ∈ failureRules) (hr : r ∈ E)
      (hkind : failureType r.kind = true) (hq : rule.Qualifies (rule.windowOf E r)) :
      IsWindow E rule.ruleId (rule.windowOf E r)
  | success {s : Event} (hs : s ∈ E) (hkind : successType s.kind = true)
      (hq : successMinFailures ≤ (priorFailures E s).card) :
      IsWindow E .successAfterFailures (insert s (priorFailures E s))

/-- The keys of a set of events. -/
def keysOf (w : Finset Event) : Set Key := {k | ∃ e ∈ w, e.key = k}

/-- The qualifying windows that hold a trigger, as labelled edges between keys. -/
def edges (E : Finset Event) (T : Set Key) : Set (RuleId × Set Key) :=
  {p | ∃ w, IsWindow E p.1 w ∧ (∃ e ∈ w, e.key ∈ T) ∧ p.2 = keysOf w}

/-- Is the kind one that detection looks at? -/
def detectedType (kind : Sshd.EventKind) : Bool := failureType kind || successType kind

/-! ### What windows are like -/

theorem authentication_le_failure {kind : Sshd.EventKind}
    (h : authenticationFailureType kind = true) : failureType kind = true := by
  cases kind <;> simp_all [authenticationFailureType, failureType]

variable {E : Finset Event} {ruleId : RuleId}

theorem IsWindow.subset (h : IsWindow E ruleId w) : w ⊆ E := by
  cases h with
  | failures => exact Finset.filter_subset _ _
  | success hs => exact Finset.insert_subset hs (Finset.filter_subset _ _)

variable {e : Event}

theorem mem_windowOf {r : Event} :
    e ∈ rule.windowOf E r ↔ e ∈ E ∧ failureType e.kind = true ∧ rule.Related e r ∧
      e.order ≤ r.order ∧ r.at - e.at ≤ rule.window := Finset.mem_filter

theorem mem_priorFailures {s : Event} :
    e ∈ priorFailures E s ↔ e ∈ E ∧ authenticationFailureType e.kind = true ∧
      e.group = s.group ∧ e.at < s.at ∧ s.at - successWindowSeconds ≤ e.at := Finset.mem_filter

/-- The anchor is in its own window. -/
theorem anchor_mem {r : Event} (hr : r ∈ E) (hkind : failureType r.kind = true) :
    r ∈ rule.windowOf E r :=
  Iff.mpr mem_windowOf ⟨hr, hkind, ⟨rfl, fun _ => rfl⟩, le_rfl, by
    rw [sub_self]
    exact Nat.cast_nonneg _⟩

variable {E' : Finset Event}

theorem windowOf_mono (h : E ⊆ E') (r : Event) :
    rule.windowOf E r ⊆ rule.windowOf E' r := Finset.filter_subset_filter _ h

theorem priorFailures_mono (h : E ⊆ E') (s : Event) :
    priorFailures E s ⊆ priorFailures E' s := Finset.filter_subset_filter _ h

/-- **Windows grow.** More events make every qualifying window larger, never invalid. -/
theorem windows_grow (h : E ⊆ E') (hw : IsWindow E ruleId w) :
    ∃ w', IsWindow E' ruleId w' ∧ w ⊆ w' := by
  cases hw with
  | @failures rule r hrule hr hkind hq =>
    exact ⟨_, .failures hrule (h hr) hkind (hq.mono (windowOf_mono h r)), windowOf_mono h r⟩
  | @success s hs hkind hq =>
    exact ⟨_, .success (h hs) hkind (hq.trans (Finset.card_le_card (priorFailures_mono h s))),
      Finset.insert_subset_insert s (priorFailures_mono h s)⟩

/-- **Windows shrink.** A window whose events all lie in a smaller set is a window of it. -/
theorem windows_shrink (h : E ⊆ E') (hw : IsWindow E' ruleId w) (hsub : w ⊆ E) :
    IsWindow E ruleId w := by
  cases hw with
  | @failures rule r hrule hr hkind hq =>
    have heq : rule.windowOf E' r = rule.windowOf E r := by
      refine Finset.Subset.antisymm (fun e he => ?_) (windowOf_mono h r)
      exact Iff.mpr mem_windowOf ⟨hsub he, (Iff.mp mem_windowOf he).2⟩
    rw [heq] at hq ⊢
    exact .failures hrule (hsub (anchor_mem hr hkind)) hkind hq
  | @success s hs hkind hq =>
    have heq : priorFailures E' s = priorFailures E s := by
      refine Finset.Subset.antisymm (fun e he => ?_) (priorFailures_mono h s)
      exact Iff.mpr mem_priorFailures
        ⟨hsub (Finset.mem_insert_of_mem he), (Iff.mp mem_priorFailures he).2⟩
    rw [heq] at hq ⊢
    exact .success (hsub (Finset.mem_insert_self _ _)) hkind hq

theorem window_le_max (h : rule ∈ failureRules) : rule.window ≤ maxWindowSeconds := by
  simp only [failureRules, localRules, List.cons_append, List.nil_append, List.mem_cons,
    List.not_mem_nil, or_false] at h
  rcases h with rfl | rfl | rfl | rfl <;> decide

/-- Events in order are in order of time. -/
theorem at_le_of_order_le {e' : Event} (h : e.order ≤ e'.order) : e.at ≤ e'.at := by
  rcases (Prod.Lex.le_iff).mp h with h | ⟨h, -⟩
  · exact h.le
  · exact h.le

/-- **Windows are near.** Their events are of a detected kind, share a peer and lie within
the largest window of each other. -/
theorem windows_near (hw : IsWindow E ruleId w) :
    ∀ e ∈ w, detectedType e.kind = true ∧
      ∀ e' ∈ w, e.peer = e'.peer ∧ e.at - e'.at ≤ maxWindowSeconds := by
  cases hw with
  | @failures rule r hrule hr hkind hq =>
    intro e he
    obtain ⟨-, hfail, ⟨hpeer, -⟩, horder, -⟩ := Iff.mp mem_windowOf he
    refine ⟨by simp [detectedType, hfail], fun e' he' => ?_⟩
    obtain ⟨-, -, ⟨hpeer', -⟩, -, hwin⟩ := Iff.mp mem_windowOf he'
    refine ⟨hpeer.trans hpeer'.symm, ?_⟩
    have hmax : (rule.window : ℚ) ≤ maxWindowSeconds := by exact_mod_cast window_le_max hrule
    have hat := at_le_of_order_le horder
    linarith
  | @success s hs hkind hq =>
    -- Every member lies in the half hour that ends in the success.
    have hmember : ∀ e ∈ insert s (priorFailures E s), detectedType e.kind = true ∧
        e.peer = s.peer ∧ e.at ≤ s.at ∧ s.at - successWindowSeconds ≤ e.at := by
      intro e he
      rcases Finset.mem_insert.mp he with rfl | he
      · have hnonneg : (0 : ℚ) ≤ successWindowSeconds := Nat.cast_nonneg _
        exact ⟨by simp [detectedType, hkind], rfl, le_rfl, by linarith⟩
      · obtain ⟨-, hauth, hgroup, hlt, hge⟩ := Iff.mp mem_priorFailures he
        refine ⟨by simp [detectedType, authentication_le_failure hauth], ?_, hlt.le, hge⟩
        exact congrArg (fun p => (ofLex p).2) hgroup
    intro e he
    obtain ⟨hdet, hpeer, hle, -⟩ := hmember e he
    refine ⟨hdet, fun e' he' => ?_⟩
    obtain ⟨-, hpeer', -, hge'⟩ := hmember e' he'
    refine ⟨hpeer.trans hpeer'.symm, ?_⟩
    have hmax : (successWindowSeconds : ℚ) ≤ maxWindowSeconds := by
      exact_mod_cast (by decide : successWindowSeconds ≤ maxWindowSeconds)
    linarith

/-! ### New events -/

theorem edges_mono {T T' : Set Key} (hE : E ⊆ E') (hT : T ⊆ T') :
    Refines (edges E T) (edges E' T') := by
  refine refines_of_covered ?_
  rintro ruleId ks ⟨w, hw, ⟨e, he, hkey⟩, rfl⟩
  obtain ⟨w', hw', hsub⟩ := windows_grow hE hw
  refine ⟨keysOf w', ⟨w', hw', ⟨e, hsub he, hT hkey⟩, rfl⟩, ?_⟩
  rintro k ⟨e', he', rfl⟩
  exact ⟨e', hsub he', rfl⟩

/-- **One step.** After new events arrive, the windows that hold one of them, together with
the components there were, make up the components there are. -/
theorem edges_step {T : Set Key} (hE : E ⊆ E')
    (hnew : ∀ e ∈ E', detectedType e.kind = true → e ∉ E → e.key ∈ T) :
    Equivalent (edges E Set.univ ∪ edges E' T) (edges E' Set.univ) := by
  constructor
  · exact (edges_mono hE subset_rfl).union (edges_mono subset_rfl (Set.subset_univ T))
  · refine refines_of_covered ?_
    rintro ruleId ks ⟨w, hw, ⟨e, he, -⟩, rfl⟩
    by_cases htrigger : ∃ e' ∈ w, e'.key ∈ T
    · exact ⟨keysOf w, Or.inr ⟨w, hw, htrigger, rfl⟩, subset_rfl⟩
    · -- A window without a new event was there before.
      have hold : w ⊆ E := by
        intro e' he'
        by_contra hnot
        exact htrigger ⟨e', he', hnew e' (hw.subset he') (windows_near hw e' he').1 hnot⟩
      exact ⟨keysOf w, Or.inl ⟨w, windows_shrink hE hw hold, ⟨e, he, trivial⟩, rfl⟩, subset_rfl⟩

end RiskOps.Telemetry
