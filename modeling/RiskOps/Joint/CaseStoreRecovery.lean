import RiskOps.Joint.CaseStoreCycles

/-!
# RiskOps.Joint.CaseStoreRecovery — recovery is declared after a clean re-read

A recorded failure sets `revalidation_pending`; `_recover_if_complete` clears it. The flags in
between are set and cleared by six operations, so the statement is about the order of events in a
run: `recoveryEvents` names them, and `Recovery` relates what was emitted so far to the flags.
-/

namespace RiskOps.Joint

open RiskOps.Lib

inductive RecoveryEvent
  | failureRecorded
  | discoveryBegun (cycleId : String)
  | discoveryCompleted (cycleId : String)
  | refreshBegun (cycleId : String)
  | recovered
  deriving Repr, DecidableEq

/-- What a successful call did to the discovery or the refresh cycle. -/
def Op.events (op : Op) (s : Store) (reply : Reply) : List RecoveryEvent :=
  match op, reply with
  | .beginDiscovery _ _ identity, .discovery d =>
    if s.discovery.all Discovery.complete then
      .discoveryBegun identity :: if d.complete then [.discoveryCompleted identity] else []
    else []
  | .applyDiscoveryPage cycleId _ page, .applied =>
    if page.complete then [.discoveryCompleted cycleId] else []
  | .beginCycle identity, .cycle _ =>
    if s.cycle.all Cycle.attemptedComplete then [.refreshBegun identity] else []
  | _, .recorded => [.failureRecorded]
  | _, _ => []

/-- `revalidation_pending` went from 1 to 0. -/
def recoveredEvent (s s' : Store) : List RecoveryEvent :=
  if s.runtime.revalidationPending && !s'.runtime.revalidationPending then [.recovered] else []

def recoveryEvents (env : Env) (s : Store) (op : Op) : List RecoveryEvent :=
  match step env s op with
  | .error _ => []
  | .ok (s', reply) => op.events s reply ++ recoveredEvent s s'

/-! ### Histories -/

/-- No failure is recorded and no discovery begun. -/
def RecoveryEvent.quiet : RecoveryEvent → Bool
  | .failureRecorded => false
  | .discoveryBegun _ => false
  | _ => true

/-- No refresh cycle is begun either. -/
def RecoveryEvent.still : RecoveryEvent → Bool
  | .refreshBegun _ => false
  | e => e.quiet

/-- The discovery was the last to begin, after the last failure. -/
def Began (t : List RecoveryEvent) (d : String) : Prop :=
  ∃ t₁ t₂, t = t₁ ++ .discoveryBegun d :: t₂ ∧ ∀ e ∈ t₂, e.quiet = true

/-- It was completed since. -/
def Discovered (t : List RecoveryEvent) (d : String) : Prop :=
  ∃ t₁ t₂, t = t₁ ++ .discoveryCompleted d :: t₂ ∧ Began t₁ d ∧ ∀ e ∈ t₂, e.quiet = true

/-- The refresh cycle was begun after that, and is the last one begun. -/
def Refreshed (t : List RecoveryEvent) (d r : String) : Prop :=
  ∃ t₁ t₂, t = t₁ ++ .refreshBegun r :: t₂ ∧ Discovered t₁ d ∧ ∀ e ∈ t₂, e.still = true

theorem RecoveryEvent.quiet_of_still {e : RecoveryEvent} (h : e.still = true) : e.quiet = true := by
  cases e <;> simp_all [RecoveryEvent.still, RecoveryEvent.quiet]

variable {t es : List RecoveryEvent} {d : String}

theorem Began.append (h : Began t d) (hes : ∀ e ∈ es, e.quiet = true) : Began (t ++ es) d := by
  obtain ⟨t₁, t₂, rfl, hquiet⟩ := h
  exact ⟨t₁, t₂ ++ es, by simp, by simpa [or_imp, forall_and] using ⟨hquiet, hes⟩⟩

theorem Discovered.append (h : Discovered t d) (hes : ∀ e ∈ es, e.quiet = true) :
    Discovered (t ++ es) d := by
  obtain ⟨t₁, t₂, rfl, hbegan, hquiet⟩ := h
  exact ⟨t₁, t₂ ++ es, by simp, hbegan, by simpa [or_imp, forall_and] using ⟨hquiet, hes⟩⟩

theorem Refreshed.append {r : String} (h : Refreshed t d r) (hes : ∀ e ∈ es, e.still = true) :
    Refreshed (t ++ es) d r := by
  obtain ⟨t₁, t₂, rfl, hdiscovered, hstill⟩ := h
  exact ⟨t₁, t₂ ++ es, by simp, hdiscovered, by simpa [or_imp, forall_and] using ⟨hstill, hes⟩⟩

/-! ### The flags and the history -/

/-- The flags of the recovery say what happened since the last failure. -/
structure Recovery (t : List RecoveryEvent) (s : Store) : Prop where
  began : ∀ d, s.runtime.recoveryDiscoveryCycle = some d →
    s.discovery.map Discovery.cycleId = some d ∧ Began t d
  /-- When no recovery is pending, the current discovery is the one that is tracked. -/
  idle : s.runtime.revalidationPending = false → ∀ d, s.discovery.map Discovery.cycleId = some d →
    s.runtime.recoveryDiscoveryCycle = some d
  done : s.runtime.recoveryDiscoveryDone = true →
    ∃ d, s.runtime.recoveryDiscoveryCycle = some d ∧ Discovered t d
  refreshDone : ∀ r, s.runtime.recoveryRefreshCycle = some r →
    s.runtime.recoveryDiscoveryDone = true
  refreshed : s.runtime.revalidationPending = true → ∀ r, s.runtime.recoveryRefreshCycle = some r →
    ∃ d, s.runtime.recoveryDiscoveryCycle = some d ∧ Refreshed t d r

theorem recovery_create (catalogMinSeq : Nat) : Recovery [] (Store.create catalogMinSeq) := by
  constructor <;> simp [Store.create]

variable {s : Store}

/-- A call that leaves the flags and the discovery alone. -/
theorem Recovery.congr {s' : Store} (h : Recovery t s) (hes : ∀ e ∈ es, e.still = true)
    (hruntime : s'.runtime = s.runtime)
    (hdiscovery : s'.discovery.map Discovery.cycleId = s.discovery.map Discovery.cycleId) :
    Recovery (t ++ es) s' := by
  have hquiet : ∀ e ∈ es, e.quiet = true := fun e he => RecoveryEvent.quiet_of_still (hes e he)
  refine ⟨?_, ?_, ?_, ?_, ?_⟩ <;> rw [hruntime]
  · intro d hd
    obtain ⟨hcurrent, hbegan⟩ := h.began d hd
    exact ⟨by rw [hdiscovery]; exact hcurrent, hbegan.append hquiet⟩
  · intro hpending d hd
    rw [hdiscovery] at hd
    exact h.idle hpending d hd
  · intro hdone
    obtain ⟨d, hd, hdiscovered⟩ := h.done hdone
    exact ⟨d, hd, hdiscovered.append hquiet⟩
  · exact h.refreshDone
  · intro hpending r hr
    obtain ⟨d, hd, hrefreshed⟩ := h.refreshed hpending r hr
    exact ⟨d, hd, hrefreshed.append hes⟩

theorem Recovery.failed {t es : List RecoveryEvent} {s : Store} (code : String)
    (d : Option Discovery) :
    Recovery (t ++ es) { s with discovery := d, runtime := s.runtime.fail code } := by
  constructor <;> simp [Runtime.fail]

theorem Recovery.discoveryBegun {t : List RecoveryEvent} {s : Store} {d : Discovery}
    {identity : String} (hd : d.cycleId = identity) :
    Recovery (t ++ .discoveryBegun identity ::
      if d.complete then [.discoveryCompleted identity] else [])
      { s with
        discovery := some d
        runtime := { s.runtime with
          recoveryDiscoveryDone := d.complete
          recoveryRefreshCycle := none
          recoveryDiscoveryCycle := some identity
          discoveryError := if d.complete then none else s.runtime.discoveryError } } := by
  constructor
  · intro d' hd'
    obtain rfl := Option.some.inj hd'
    refine ⟨by simp [hd], t, _, rfl, ?_⟩
    split <;> simp [RecoveryEvent.quiet]
  · intro _ d' hd'
    simp only [Option.map_some, hd] at hd'
    exact hd'
  · intro hdone
    simp only at hdone
    refine ⟨identity, rfl, t ++ [.discoveryBegun identity], [], by simp [hdone], ?_, by simp⟩
    exact ⟨t, [], rfl, by simp⟩
  · simp
  · simp

theorem currentDiscovery_some {cycleId : String} {cursor : Nat} {d : Discovery}
    (h : currentDiscovery s cycleId cursor = some d) :
    s.discovery = some d ∧ d.cycleId = cycleId := by
  unfold currentDiscovery at h
  obtain ⟨hd, hcond⟩ := Option.filter_eq_some_iff.mp h
  simp only [Bool.and_eq_true, decide_eq_true_eq] at hcond
  exact ⟨hd, hcond.1.1⟩

/-- A completed page of the tracked discovery, or of any discovery while no recovery is pending. -/
theorem Recovery.discoveryCompleted {d current : Discovery} {cycleId : String}
    {rows : List Registration} (h : Recovery t s) (hcurrent : s.discovery = some current)
    (hid : current.cycleId = cycleId) (hd : d.cycleId = current.cycleId) :
    Recovery (t ++ [.discoveryCompleted cycleId])
      { s with registrations := rows, discovery := some d,
               runtime := s.runtime.discovered cycleId } := by
  have hstill : ∀ e ∈ [RecoveryEvent.discoveryCompleted cycleId], e.still = true := by
    simp [RecoveryEvent.still, RecoveryEvent.quiet]
  have hsame : Recovery (t ++ [.discoveryCompleted cycleId])
      { s with registrations := rows, discovery := some d } := by
    refine h.congr hstill rfl ?_
    simp [hcurrent, hd]
  unfold Runtime.discovered
  split
  · rename_i htracked
    simp only [Bool.or_eq_true, Bool.not_eq_true', decide_eq_true_eq] at htracked
    have hcycle : s.runtime.recoveryDiscoveryCycle = some cycleId := by
      rcases htracked with hidle | hcycle
      · exact h.idle hidle cycleId (by rw [hcurrent, ← hid]; rfl)
      · exact hcycle
    refine ⟨hsame.began, hsame.idle, fun _ => ⟨cycleId, hcycle, t, [], rfl, ?_, by simp⟩, ?_,
      hsame.refreshed⟩
    · exact (h.began cycleId hcycle).2
    · exact fun _ _ => rfl
  · exact hsame

theorem Recovery.withCycle (h : Recovery t s) (identity : String) :
    Recovery (t ++ [.refreshBegun identity]) (s.withCycle identity) := by
  have hquiet : ∀ e ∈ [RecoveryEvent.refreshBegun identity], e.quiet = true := by
    simp [RecoveryEvent.quiet]
  have hbegan : ∀ d, s.runtime.recoveryDiscoveryCycle = some d →
      s.discovery.map Discovery.cycleId = some d ∧ Began (t ++ [.refreshBegun identity]) d :=
    fun d hd => ⟨(h.began d hd).1, (h.began d hd).2.append hquiet⟩
  have hdone : s.runtime.recoveryDiscoveryDone = true → ∃ d,
      s.runtime.recoveryDiscoveryCycle = some d ∧ Discovered (t ++ [.refreshBegun identity]) d := by
    intro hdone
    obtain ⟨d, hd, hdiscovered⟩ := h.done hdone
    exact ⟨d, hd, hdiscovered.append hquiet⟩
  simp only [Store.withCycle]
  split
  · rename_i hflags
    rw [Bool.and_eq_true] at hflags
    refine ⟨hbegan, h.idle, hdone, fun _ _ => hflags.2, ?_⟩
    intro _ r hr
    obtain rfl := Option.some.inj hr
    obtain ⟨d, hd, hdiscovered⟩ := h.done hflags.2
    exact ⟨d, hd, t, [], rfl, hdiscovered, by simp⟩
  · rename_i hflags
    refine ⟨hbegan, h.idle, hdone, h.refreshDone, ?_⟩
    intro hpending r hr
    -- A tracked refresh cycle means the discovery was done, so both flags were set.
    exact absurd (by rw [Bool.and_eq_true]; exact ⟨hpending, h.refreshDone r hr⟩) hflags

theorem Recovery.recoverIfComplete (h : Recovery t s) : Recovery t s.recoverIfComplete := by
  unfold Store.recoverIfComplete
  split
  · rename_i hcomplete
    simp only [Bool.and_eq_true, Store.discoveryRecovered, Option.any_eq_true, decide_eq_true_eq]
      at hcomplete
    obtain ⟨⟨-, current, hcurrent, -, hcycle⟩, -⟩ := hcomplete
    refine ⟨h.began, ?_, h.done, h.refreshDone, by simp⟩
    intro _ d hd
    obtain rfl := Option.some.inj ((congrArg (Option.map Discovery.cycleId) hcurrent).symm.trans hd)
    exact hcycle
  · exact h

theorem recoveredEvent_still (s s' : Store) : ∀ e ∈ recoveredEvent s s', e.still = true := by
  unfold recoveredEvent
  split <;> simp [RecoveryEvent.still, RecoveryEvent.quiet]

/-- **One call, before the recovery check.** -/
theorem Recovery.effect {env : Env} {s' : Store} {op : Op} {reply : Reply} (h : Recovery t s)
    (heffect : Effect env s op s' reply) :
    ∃ x, Recovery (t ++ op.events s reply) x ∧
      (s.runtime.revalidationPending = true → x.runtime.revalidationPending = true) ∧
      (s' = x ∨ s' = x.recoverIfComplete) := by
  cases heffect with
  | @discoveryRunning target producer identity d hd hrunning =>
    have hno : s.discovery.all Discovery.complete = false := by simp [hd, hrunning]
    refine ⟨s, ?_, id, Or.inl rfl⟩
    simp only [Op.events, hno]
    exact h.congr (by simp) rfl rfl
  | @cycleRunning identity c hc hrunning =>
    have hno : s.cycle.all Cycle.attemptedComplete = false := by simp [hc, hrunning]
    refine ⟨s, ?_, id, Or.inl rfl⟩
    simp only [Op.events, hno]
    exact h.congr (by simp) rfl rfl
  | ignored hreply =>
    refine ⟨s, ?_, id, Or.inl rfl⟩
    have hnone : op.events s reply = [] := by
      rcases hreply with rfl | rfl <;> cases op <;> rfl
    rw [hnone]
    exact h.congr (by simp) rfl rfl
  | registered hrows =>
    refine ⟨_, ?_, ?_, Or.inl rfl⟩
    · exact h.congr (by simp [Op.events]) rfl rfl
    · exact id
  | @discoveryBegun target producer identity d hprev hd herror =>
    have hall : s.discovery.all Discovery.complete = true := by
      cases hdiscovery : s.discovery with
      | none => rfl
      | some d => exact hprev d hdiscovery
    refine ⟨_, ?_, ?_, Or.inl rfl⟩
    · simp only [Op.events, hall, if_true]
      exact Recovery.discoveryBegun hd
    · exact id
  | @pageApplied cycleId cursor page current d rows summary hcurrent hrows hd =>
    obtain ⟨hdiscovery, hid⟩ := currentDiscovery_some hcurrent
    refine ⟨_, ?_, ?_, Or.inl rfl⟩
    · by_cases hpage : page.complete = true
      · simp only [Op.events, hpage, if_true]
        exact h.discoveryCompleted hdiscovery hid hd.1
      · simp only [Op.events, hpage]
        refine h.congr (by simp) rfl ?_
        simp [hdiscovery, hd.1]
    · simp only [Runtime.discovered]
      intro hpending
      split
      · split <;> exact hpending
      · exact hpending
  | @discoveryFailed _ code d hop =>
    have hevents : op.events s .recorded = [.failureRecorded] := by
      cases op <;> simp [Op.reportsFailure] at hop <;> rfl
    refine ⟨_, ?_, fun _ => rfl, Or.inl rfl⟩
    rw [hevents]
    exact Recovery.failed code d
  | @cycleBegun identity c hprev =>
    have hall : s.cycle.all Cycle.attemptedComplete = true := by
      cases hc : s.cycle with
      | none => rfl
      | some c => exact hprev c hc
    refine ⟨s.withCycle identity, ?_, ?_, Or.inr rfl⟩
    · simp only [Op.events, hall, if_true]
      exact h.withCycle identity
    · intro hpending
      simp only [Store.withCycle]
      split <;> exact hpending
  | @finished _ item o e i r s₁ rows hop hawaits hs₁ hrows =>
    have hevents : op.events s (.outcome o) = [] := by
      cases op <;> simp [Op.item?] at hop <;> rfl
    have hframe : s₁.runtime = s.runtime ∧ s₁.discovery = s.discovery := by
      rcases hs₁ with rfl | ⟨value, caseId, now, -, -, hadd⟩
      · exact ⟨rfl, rfl⟩
      · exact (addRevision_frame hadd).2.2
    refine ⟨_, ?_, ?_, Or.inr rfl⟩
    · rw [hevents]
      refine h.congr (by simp) hframe.1 ?_
      simp only [hframe.2]
    · intro hpending
      simp only [hframe.1]
      exact hpending

/-- **One call.** -/
theorem Recovery.next {env : Env} (h : Recovery t s) (op : Op) :
    Recovery (t ++ recoveryEvents env s op) (next env s op) := by
  unfold recoveryEvents Joint.next
  cases hstep : step env s op with
  | error e => exact h.congr (by simp) rfl rfl
  | ok x =>
    obtain ⟨s', reply⟩ := x
    obtain ⟨x, hx, -, hs'⟩ := h.effect (step_effect hstep)
    have hnext : Recovery (t ++ op.events s reply) s' := by
      rcases hs' with rfl | rfl
      · exact hx
      · exact hx.recoverIfComplete
    simp only
    rw [← List.append_assoc]
    exact hnext.congr (recoveredEvent_still s s') rfl rfl

theorem recovery_run (env : Env) (catalogMinSeq : Nat) (ops : List Op) :
    Recovery (trace (next env) (recoveryEvents env) (Store.create catalogMinSeq) ops)
      (run (next env) (Store.create catalogMinSeq) ops) :=
  trace_invariant (Q := fun _ => True) (R := Recovery) (h := [])
    (fun _ _ op _ h => h.next op) (fun _ _ => trivial) (recovery_create catalogMinSeq)

/-! ### The moment of recovery -/

/-- A cycle whose items were all refreshed has no pending, failed or superseded item. -/
theorem Settled.refreshed (h : Settled s) {c : Cycle} (hc : s.cycle = some c)
    (hall : c.allItemsRefreshed = true) {i : Item} (hi : i ∈ s.items) :
    i.outcome = some .published ∨ i.outcome = some .unchanged := by
  simp only [Cycle.allItemsRefreshed, Cycle.attemptedComplete, Bool.and_eq_true,
    decide_eq_true_eq] at hall
  obtain ⟨⟨⟨hattempted, hfailed⟩, hsuperseded⟩, hnotEligible⟩ := hall
  have hnone : ∀ o, c.counter o = 0 → i.outcome ≠ some o := by
    intro o ho hi'
    rw [(h.counted c hc).2 o, Store.settledCount, List.countP_eq_zero] at ho
    simpa [hi'] using ho i hi
  have hpending : i.outcome ≠ none := by
    have hcount := h.attempted hc
    have hzero : s.pendingCount = 0 := by omega
    rw [Store.pendingCount, List.countP_eq_zero] at hzero
    simpa [Item.isPending] using hzero i hi
  cases ho : i.outcome with
  | none => exact absurd ho hpending
  | some o =>
    cases o with
    | published => exact Or.inl rfl
    | unchanged => exact Or.inr rfl
    | failed => exact absurd ho (hnone .failed hfailed)
    | notEligible => exact absurd ho (hnone .notEligible hnotEligible)
    | superseded => exact absurd ho (hnone .superseded hsuperseded)

/-- **Recovery is declared only after a clean re-read.** Whenever a call clears
`revalidation_pending`, the history ends with a discovery that was begun and completed, the begin
of a refresh cycle and the recovery, with no failure and no other discovery begun in between; that
refresh cycle is the last one begun and the current one, its items ended as published or unchanged,
and every registration is fresh. -/
theorem recovery_after_clean_reread (env : Env) (catalogMinSeq : Nat) (ops : List Op) (op : Op)
    (hpending : (run (next env) (Store.create catalogMinSeq) ops).runtime.revalidationPending = true)
    (hcleared : (run (next env) (Store.create catalogMinSeq)
      (ops ++ [op])).runtime.revalidationPending = false) :
    let s' := run (next env) (Store.create catalogMinSeq) (ops ++ [op])
    ∃ d r t₁ t₂ t₃ t₄,
      trace (next env) (recoveryEvents env) (Store.create catalogMinSeq) (ops ++ [op]) =
        t₁ ++ [.discoveryBegun d] ++ t₂ ++ [.discoveryCompleted d] ++ t₃ ++ [.refreshBegun r] ++ t₄
          ++ [.recovered] ∧
      (∀ e ∈ t₂ ++ t₃ ++ t₄, e.quiet = true) ∧ (∀ e ∈ t₄, e.still = true) ∧
      (∃ c, s'.cycle = some c ∧ c.cycleId = r ∧ c.itemCount = s'.items.length) ∧
      (∀ i ∈ s'.items, i.cycleId = r ∧
        (i.outcome = some .published ∨ i.outcome = some .unchanged)) ∧
      ∀ reg ∈ s'.registrations, reg.refreshState = .fresh := by
  intro s'
  have hs' : s' = next env (run (next env) (Store.create catalogMinSeq) ops) op := by
    simp only [s', run_append]
    rfl
  have hrecovery := recovery_run env catalogMinSeq ops
  have hsettled : Settled s' := settled_run env catalogMinSeq (ops ++ [op])
  change s'.runtime.revalidationPending = false at hcleared
  rw [trace_snoc]
  generalize run (next env) (Store.create catalogMinSeq) ops = s at *
  generalize trace (next env) (recoveryEvents env) (Store.create catalogMinSeq) ops = t at *
  generalize s' = s' at *
  cases hstep : step env s op with
  | error e =>
    rw [hs', next, hstep, hpending] at hcleared
    exact absurd hcleared (by simp)
  | ok y =>
    obtain ⟨s'', reply⟩ := y
    obtain rfl : s' = s'' := by rw [hs', next, hstep]
    obtain ⟨x, hx, hxpending, hcheck⟩ := hrecovery.effect (step_effect hstep)
    have hxtrue := hxpending hpending
    -- The flag was cleared by the recovery check.
    have hdone : x.discoveryRecovered = true ∧ x.refreshRecovered = true ∧
        s' = { x with runtime := { x.runtime with revalidationPending := false } } := by
      rcases hcheck with rfl | hcheck
      · exact absurd hcleared (by simp [hxtrue])
      · unfold Store.recoverIfComplete at hcheck
        split at hcheck
        · rename_i hboth
          rw [Bool.and_eq_true] at hboth
          exact ⟨hboth.1, hboth.2, hcheck⟩
        · rw [hcheck, hxtrue] at hcleared
          exact absurd hcleared (by simp)
    obtain ⟨-, hrefresh, heq⟩ := hdone
    simp only [Store.refreshRecovered, Bool.and_eq_true, Option.any_eq_true, List.all_eq_true,
      decide_eq_true_eq] at hrefresh
    obtain ⟨⟨c, hc, hcycle, hall⟩, hfresh⟩ := hrefresh
    obtain ⟨d, -, u₁, t₄, hu, ⟨u₂, t₃, hu₂, ⟨t₁, t₂, hu₃, hquiet₂⟩, hquiet₃⟩, hstill⟩ :=
      hx.refreshed hxtrue c.cycleId hcycle
    have hc' : s'.cycle = some c := by rw [heq]; exact hc
    refine ⟨d, c.cycleId, t₁, t₂, t₃, t₄, ?_, ?_, hstill, ⟨c, hc', rfl, ?_⟩, ?_, ?_⟩
    · have hevent : recoveredEvent s s' = [.recovered] := by
        simp [recoveredEvent, hpending, hcleared]
      rw [recoveryEvents, hstep]
      simp only
      rw [hevent, ← List.append_assoc, hu, hu₂, hu₃]
      simp
    · intro e he
      simp only [List.mem_append] at he
      rcases he with (he | he) | he
      · exact hquiet₂ e he
      · exact hquiet₃ e he
      · exact RecoveryEvent.quiet_of_still (hstill e he)
    · exact (hsettled.counted c hc').1
    · intro i hi
      obtain ⟨c', hc'', hid⟩ := hsettled.owned i hi
      obtain rfl := Option.some.inj (hc'.symm.trans hc'')
      exact ⟨hid.symm, hsettled.refreshed hc' hall hi⟩
    · rw [heq]
      exact hfresh

/-- A failure is recorded, a discovery completes, and the one registration is read again. -/
theorem recovery_after_clean_reread_one :
    let env : Env := ⟨⟨5, 5, 1000⟩, "producer", fun _ value => .ok value, ["unavailable"]⟩
    let value : ValidatedRead := ⟨.accepted "case-1", "sha", "text", "metadata", "anchor"⟩
    let ops : List Op := [.register [⟨"network-1", 1⟩],
      .recordDiscoveryFailure "unavailable" ⟨none, none, none⟩,
      .beginDiscovery 0 "producer" "discovery-1", .beginCycle "refresh-1"]
    let op : Op := .publish ⟨"refresh-1", 1, 1, 1, "network-1"⟩ value "now"
    (run (next env) (Store.create 1) ops).runtime.revalidationPending = true ∧
    (run (next env) (Store.create 1) (ops ++ [op])).runtime.revalidationPending = false ∧
    ∀ reg ∈ (run (next env) (Store.create 1) (ops ++ [op])).registrations,
      reg.refreshState = .fresh := by
  intro env value ops op
  have hpending : (run (next env) (Store.create 1) ops).runtime.revalidationPending = true := by
    decide
  have hcleared :
      (run (next env) (Store.create 1) (ops ++ [op])).runtime.revalidationPending = false := by
    decide
  obtain ⟨d, r, t₁, t₂, t₃, t₄, -, -, -, -, -, hfresh⟩ :=
    recovery_after_clean_reread env 1 ops op hpending hcleared
  exact ⟨hpending, hcleared, hfresh⟩

end RiskOps.Joint
