import RiskOps.Pipeline.Remediation

/-!
# RiskOps.Pipeline.RemediationSound — which decision authorises execution

**The decision in force over whole runs of the stage.** A run is any sequence of
`record_approval` and `execute_plan` calls on one set of services. The repository
holds exactly the decisions recorded so far, numbered in the order of the calls
(`history_run`); `valid_approval` takes the one whose identifier is greatest *as
text*. As long as identifiers sort in the order they were issued, that is the latest
decision, and nothing runs that it did not approve.

The identifiers stop sorting that way at the ten-thousandth one, and a rejection
recorded then is overlooked (`rejection_overlooked`).
-/

namespace RiskOps.Pipeline

open RiskOps.Core RiskOps.Lib RiskOps.Policy RiskOps.Schemas

variable {H Change : Type}

/-! ### Runs of the stage -/

/-- One call on the stage. -/
inductive Op (H Change : Type) where
  | record (plan : ActionPlan) (scope : AssessmentScope) (approver decision now : String)
  | execute (plan : ActionPlan) (scope : AssessmentScope) (actor at_ now : String)
      (executor : Executor H Change) (host : H)

/-- A `record_approval` call that recorded its decision. -/
structure Call where
  plan : ActionPlan
  scope : AssessmentScope
  verdict : Decision
  approver : String
  now : String

/-- The decision a call records; a call that raises records none. -/
def Op.recorded : Op H Change → Option Call
  | .record plan scope approver decision now =>
    match readDecision decision with
    | some verdict =>
      if approver ∈ scope.allowedActors then some ⟨plan, scope, verdict, approver, now⟩
      else none
    | none => none
  | .execute .. => none

/-- The call is about this plan identifier under this policy hash. -/
def Call.concerns (plan : ActionPlan) (scope : AssessmentScope) (c : Call) : Bool :=
  c.plan.actionPlanId = plan.actionPlanId && c.scope.policyHash = scope.policyHash

section Runs

variable (sha256 : List Char → List Char) (fromisoformat : String → Option (Option Int))

/-- The row the `n`-th recorded decision is stored as. -/
def Call.approval (n : Nat) (c : Call) : Approval :=
  { approvalId := formatId "APR" n
    subjectRef := c.plan.actionPlanId
    decision := c.verdict
    approver := c.approver
    planHash := planHash sha256 c.plan
    policyHash := c.scope.policyHash
    decidedAt := c.now }

/-- The services after a call. -/
def next (svc : Services) : Op H Change → Services
  | .record plan scope approver decision now =>
    match recordApproval sha256 svc plan scope approver decision now with
    | .ok (svc', _) => svc'
    | .error _ => svc
  | .execute plan scope actor at_ now executor host =>
    (executePlan sha256 fromisoformat svc plan scope actor at_ now executor host).1

/-- The approval number the services issue next. -/
def nextNumber (svc : Services) : Nat := svc.ids.counters "APR" + 1

/-! ### What each call does to the recorded decisions -/

theorem evaluateExecution_approvals (svc : Services) (plan : ActionPlan) (scope : AssessmentScope)
    (actor at_ now : String) :
    (evaluateExecution sha256 fromisoformat svc plan scope actor at_ now).1.approvals
        = svc.approvals ∧
      nextNumber (evaluateExecution sha256 fromisoformat svc plan scope actor at_ now).1
        = nextNumber svc := by
  unfold evaluateExecution
  split
  · exact ⟨rfl, rfl⟩
  · exact ⟨rfl, rfl⟩

theorem executePlan_approvals (svc : Services) (plan : ActionPlan) (scope : AssessmentScope)
    (actor at_ now : String) (executor : Executor H Change) (host : H) :
    (executePlan sha256 fromisoformat svc plan scope actor at_ now executor host).1.approvals
        = svc.approvals ∧
      nextNumber (executePlan sha256 fromisoformat svc plan scope actor at_ now executor host).1
        = nextNumber svc := by
  have hgate := evaluateExecution_approvals sha256 fromisoformat svc plan scope actor at_ now
  unfold executePlan
  cases hev : evaluateExecution sha256 fromisoformat svc plan scope actor at_ now with
  | mk svc' result =>
    rw [hev] at hgate
    cases result with
    | error e => exact hgate
    | ok out =>
      -- After the gate only plan statuses are saved.
      simp only
      split
      · exact hgate
      · split
        · exact hgate
        · split
          · exact hgate
          · split
            · exact hgate
            · split
              · exact hgate
              · exact hgate

/-- A call either records a decision under the next number or leaves the recorded
decisions and the number alone. -/
theorem next_cases (svc : Services) (op : Op H Change) :
    (op.recorded = none ∧ (next sha256 fromisoformat svc op).approvals = svc.approvals ∧
      nextNumber (next sha256 fromisoformat svc op) = nextNumber svc) ∨
    ∃ c, op.recorded = some c ∧
      (next sha256 fromisoformat svc op).approvals
        = svc.approvals.replace (c.approval sha256 (nextNumber svc)) ∧
      nextNumber (next sha256 fromisoformat svc op) = nextNumber svc + 1 := by
  cases op with
  | execute plan scope actor at_ now executor host =>
    exact Or.inl ⟨rfl, executePlan_approvals sha256 fromisoformat svc plan scope actor at_ now
      executor host⟩
  | record plan scope approver decision now =>
    cases hd : readDecision decision with
    | none => exact Or.inl (by simp [Op.recorded, next, recordApproval, hd])
    | some verdict =>
      by_cases hmem : approver ∈ scope.allowedActors
      · refine Or.inr ⟨⟨plan, scope, verdict, approver, now⟩, by simp [Op.recorded, hd, hmem], ?_⟩
        simp [next, recordApproval, hd, hmem, Call.approval, nextNumber]
      · exact Or.inl (by simp [Op.recorded, next, recordApproval, hd, hmem])

/-! ### The repository is the history of recorded decisions -/

/-- The repository holds exactly the recorded decisions, numbered from one. -/
def History (calls : List Call) (svc : Services) : Prop :=
  svc.approvals.rows = calls.mapIdx (fun i c => c.approval sha256 (i + 1)) ∧
    nextNumber svc = calls.length + 1

variable {calls : List Call} {svc : Services}

theorem history_step (op : Op H Change) (h : History sha256 calls svc) :
    History sha256 (calls ++ op.recorded.toList) (next sha256 fromisoformat svc op) := by
  obtain ⟨hrows, hnum⟩ := h
  rcases next_cases sha256 fromisoformat svc op with ⟨hrec, happ, hn⟩ | ⟨c, hrec, happ, hn⟩
  · refine ⟨?_, ?_⟩
    · rw [hrec, happ, hrows]
      simp
    · rw [hrec, hn, hnum]
      simp
  · have hfresh : ∀ r ∈ svc.approvals, r.approvalId ≠ (c.approval sha256 (nextNumber svc)).approvalId := by
      intro r hr heq
      rw [Table.mem_def, hrows, List.mem_mapIdx] at hr
      obtain ⟨i, hi, rfl⟩ := hr
      have := formatId_injective heq
      omega
    refine ⟨?_, ?_⟩
    · rw [happ, Table.rows_replace_of_fresh hfresh, hrows, hrec, hnum]
      simp [List.mapIdx_append]
    · rw [hn, hnum, hrec]
      simp

/-- After any run the repository holds the recorded decisions of the run. -/
theorem history_run (ops : List (Op H Change)) :
    History sha256 (ops.filterMap Op.recorded)
      (run (next sha256 fromisoformat) Services.create ops) := by
  have hinit : History sha256 [] Services.create := ⟨rfl, rfl⟩
  suffices h : ∀ (ops : List (Op H Change)) (calls : List Call) (svc : Services),
      History sha256 calls svc →
        History sha256 (calls ++ ops.filterMap Op.recorded)
          (run (next sha256 fromisoformat) svc ops) by
    simpa using h ops [] Services.create hinit
  intro ops
  induction ops with
  | nil => intro calls svc h; simpa using h
  | cons op ops ih =>
    intro calls svc h
    have := ih _ _ (history_step sha256 fromisoformat op h)
    cases hrec : op.recorded with
    | none => simpa [hrec] using this
    | some c => simpa [hrec] using this

/-! ### Identifiers that sort as issued -/

/-- The identifier a recording call is given sorts after those of the decisions
already recorded on its plan and policy. -/
def InOrder (svc : Services) (op : Op H Change) : Prop :=
  ∀ c, op.recorded = some c → ∀ row ∈ svc.approvals,
    row.subjectRef = c.plan.actionPlanId → row.policyHash = c.scope.policyHash →
      row.approvalId < formatId "APR" (nextNumber svc)

/-- Decisions on one plan and policy are stored in the order of their identifiers. -/
def Ordered (svc : Services) : Prop :=
  svc.approvals.rows.Pairwise fun a b =>
    a.subjectRef = b.subjectRef → a.policyHash = b.policyHash → a.approvalId < b.approvalId

theorem ordered_step {op : Op H Change} (hhist : History sha256 calls svc) (hop : InOrder svc op)
    (h : Ordered svc) : Ordered (next sha256 fromisoformat svc op) := by
  unfold Ordered
  rw [(history_step sha256 fromisoformat op hhist).1]
  cases hrec : op.recorded with
  | none => simpa [Ordered, hhist.1] using h
  | some c =>
    rw [Option.toList_some, List.mapIdx_append, List.pairwise_append, ← hhist.1]
    refine ⟨h, by simp, ?_⟩
    intro row hrow new hnew hsub hpol
    simp only [List.mapIdx_cons, List.mapIdx_nil, List.mem_singleton] at hnew
    subst hnew
    have hlt := hop c hrec row hrow hsub hpol
    have hn : nextNumber svc = 0 + calls.length + 1 := by rw [hhist.2]; omega
    rw [hn] at hlt
    exact hlt

theorem ordered_run {ops : List (Op H Change)} (hhist : History sha256 calls svc)
    (hord : Ordered svc) (hops : StepsSatisfy (next sha256 fromisoformat) InOrder svc ops) :
    Ordered (run (next sha256 fromisoformat) svc ops) := by
  induction ops generalizing calls svc with
  | nil => exact hord
  | cons op ops ih =>
    exact ih (history_step sha256 fromisoformat op hhist)
      (ordered_step sha256 fromisoformat hhist hops.1 hord) hops.2

/-- While fewer than 9999 decisions have been recorded every call is in order. -/
theorem inOrder_of_lt (hhist : History sha256 calls svc) (hlt : calls.length < 9999)
    (op : Op H Change) : InOrder svc op := by
  intro c _ row hrow _ _
  rw [Table.mem_def, hhist.1, List.mem_mapIdx] at hrow
  obtain ⟨i, hi, rfl⟩ := hrow
  exact formatId_lt (by rw [hhist.2]; omega) (by rw [hhist.2]; omega)

/-- Every run of at most 9999 calls is in order throughout. -/
theorem stepsInOrder_of_le {ops : List (Op H Change)} (hhist : History sha256 calls svc)
    (hle : calls.length + ops.length ≤ 9999) :
    StepsSatisfy (next sha256 fromisoformat) InOrder svc ops := by
  induction ops generalizing calls svc with
  | nil => trivial
  | cons op ops ih =>
    rw [List.length_cons] at hle
    have hlen : (calls ++ op.recorded.toList).length ≤ calls.length + 1 := by
      cases op.recorded <;> simp
    exact ⟨inOrder_of_lt sha256 hhist (by omega) op,
      ih (history_step sha256 fromisoformat op hhist) (by omega)⟩

/-! ### The latest decision -/

/-- On decisions stored in the order of their identifiers the greatest is the last. -/
theorem maxById_eq_getLast? {rows : List Approval}
    (h : rows.Pairwise fun a b => a.approvalId < b.approvalId) : maxById rows = rows.getLast? := by
  cases rows with
  | nil => rfl
  | cons first rest =>
    have hfold : ∀ (rest : List Approval) (best : Approval),
        (best :: rest).Pairwise (fun a b => a.approvalId < b.approvalId) →
          some (rest.foldl
            (fun best a => if best.approvalId < a.approvalId then a else best) best)
            = (best :: rest).getLast? := by
      intro rest
      induction rest with
      | nil => intro best _; rfl
      | cons a rest ih =>
        intro best hp
        obtain ⟨hbest, htail⟩ := List.pairwise_cons.mp hp
        rw [List.foldl_cons, if_pos (hbest a List.mem_cons_self), ih a htail,
          List.getLast?_cons_cons]
    exact hfold rest first h

/-- The last recorded decision on the plan under the scope approves the plan as it
is now. -/
def LatestApproves (plan : ActionPlan) (scope : AssessmentScope) (ops : List (Op H Change)) : Prop :=
  ∃ c, ((ops.filterMap Op.recorded).filter (Call.concerns plan scope)).getLast? = some c ∧
    c.verdict = .approved ∧ planHash sha256 c.plan = planHash sha256 plan

/-- What `valid_approval` and the latest decision agree on, row by row. -/
theorem getLast?_decisionsOn (hhist : History sha256 calls svc) (plan : ActionPlan)
    (scope : AssessmentScope) :
    ((decisionsOn svc plan scope).getLast?).map (fun a => (a.decision, a.planHash))
      = ((calls.filter (Call.concerns plan scope)).getLast?).map
          (fun c => (c.verdict, planHash sha256 c.plan)) := by
  have hmap : ∀ (calls : List Call) (k : Nat),
      ((calls.mapIdx (fun i c => c.approval sha256 (i + k))).filter (concerns plan scope)).map
          (fun a => (a.decision, a.planHash))
        = (calls.filter (Call.concerns plan scope)).map
            (fun c => (c.verdict, planHash sha256 c.plan)) := by
    intro calls
    induction calls with
    | nil => intro k; rfl
    | cons c calls ih =>
      intro k
      have htail := ih (k + 1)
      have hshift : ∀ i, i + 1 + k = i + (k + 1) := by omega
      rw [List.mapIdx_cons]
      simp only [hshift]
      have hrow : concerns plan scope (c.approval sha256 (0 + k)) = c.concerns plan scope := rfl
      by_cases hc : c.concerns plan scope = true
      · rw [List.filter_cons_of_pos hc, List.filter_cons_of_pos (hrow.trans hc), List.map_cons,
          List.map_cons, htail]
        rfl
      · rw [List.filter_cons_of_neg hc, List.filter_cons_of_neg (hrow ▸ hc), htail]
  rw [← List.getLast?_map, ← List.getLast?_map, decisionsOn, Table.select, hhist.1, hmap calls 1]

theorem validApproval_iff (hhist : History sha256 calls svc) (hord : Ordered svc)
    (plan : ActionPlan) (scope : AssessmentScope) :
    (validApproval sha256 svc plan scope).isSome ↔
      ∃ c, (calls.filter (Call.concerns plan scope)).getLast? = some c ∧
        c.verdict = .approved ∧ planHash sha256 c.plan = planHash sha256 plan := by
  have hsorted : (decisionsOn svc plan scope).Pairwise fun a b => a.approvalId < b.approvalId := by
    refine (hord.filter _).imp_of_mem ?_
    intro a b ha hb hab
    simp only [List.mem_filter, concerns, Bool.and_eq_true, decide_eq_true_eq] at ha hb
    exact hab (ha.2.1.trans hb.2.1.symm) (ha.2.2.trans hb.2.2.symm)
  have hlast := getLast?_decisionsOn sha256 hhist plan scope
  unfold validApproval
  rw [maxById_eq_getLast? hsorted]
  cases hd : (decisionsOn svc plan scope).getLast? with
  | none =>
    rw [hd, Option.map_none, eq_comm, Option.map_eq_none_iff] at hlast
    simp [hlast]
  | some latest =>
    rw [hd, Option.map_some, eq_comm, Option.map_eq_some_iff] at hlast
    obtain ⟨c, hc, heq⟩ := hlast
    obtain ⟨hv, hp⟩ := Prod.mk.inj heq
    by_cases happ : latest.decision ≠ .approved ∨ latest.planHash ≠ planHash sha256 plan
    · simp only [if_pos happ, hc, Option.isSome_none, Bool.false_eq_true, false_iff]
      rintro ⟨c', hc', hv', hp'⟩
      obtain rfl := Option.some.inj hc'
      rcases happ with happ | happ
      · exact happ (hv.symm.trans hv')
      · exact happ (hp.symm.trans hp')
    · rw [not_or, not_not, not_not] at happ
      simp only [happ, ne_eq, not_true_eq_false, or_self, if_false, Option.isSome_some, true_iff]
      exact ⟨c, hc, hv.trans happ.1, hp.trans happ.2⟩

/-! ### Execution -/

/-- The gate allows a plan that needs approval only under a valid one. -/
theorem validApproval_of_allow {svc' : Services} {plan plan' : ActionPlan} {scope : AssessmentScope}
    {actor at_ now : String} {decision : PolicyDecision}
    (h : evaluateExecution sha256 fromisoformat svc plan scope actor at_ now
      = (svc', .ok (decision, plan'))) (hallow : decision.effect = .allow)
    (hrisk : requiresApproval plan.riskLevel = true) :
    (validApproval sha256 svc plan scope).isSome := by
  unfold evaluateExecution at h
  split at h
  · obtain ⟨-, hout⟩ := Prod.mk.inj h
    obtain ⟨rfl, -⟩ := Prod.mk.inj (Except.ok.inj hout)
    exact hasApproval_of_decide fromisoformat ((evaluate_allow_iff _).mp hallow) hrisk
  · exact absurd (Prod.mk.inj h).2 (by simp)

/-- An executor is applied only after the gate allowed the plan. -/
theorem allow_of_apply {svc' : Services} {plan : ActionPlan} {scope : AssessmentScope}
    {actor at_ now planId : String} {executor : Executor H Change} {host : H} {out : Execution H}
    {parameters : List (List Char × Json)}
    (h : executePlan sha256 fromisoformat svc plan scope actor at_ now executor host
      = (svc', .ok out)) (hcall : .apply planId parameters ∈ out.calls) :
    ∃ svc₁ decision plan', evaluateExecution sha256 fromisoformat svc plan scope actor at_ now
      = (svc₁, .ok (decision, plan')) ∧ decision.effect = .allow := by
  unfold executePlan at h
  cases hev : evaluateExecution sha256 fromisoformat svc plan scope actor at_ now with
  | mk svc₁ result =>
    rw [hev] at h
    cases result with
    | error e => exact absurd (Prod.mk.inj h).2 (by simp)
    | ok pair =>
      refine ⟨svc₁, pair.1, pair.2, rfl, ?_⟩
      by_contra hdeny
      simp only [ne_eq, hdeny, not_false_eq_true, if_true] at h
      obtain ⟨-, hout⟩ := Prod.mk.inj h
      rw [← Except.ok.inj hout] at hcall
      simp at hcall

/-- **Only the latest decision authorises execution.** In every run in which each
recorded decision's identifier sorts after those of the earlier decisions on the same
plan and policy, `valid_approval` returns an approval exactly when the last recorded
decision approves the plan as it is now, and an executor is applied to a plan whose
risk needs approval only then. -/
theorem only_latest_decision_authorises (ops : List (Op H Change))
    (hops : StepsSatisfy (next sha256 fromisoformat) InOrder Services.create ops)
    (plan : ActionPlan) (scope : AssessmentScope) :
    ((validApproval sha256 (run (next sha256 fromisoformat) Services.create ops) plan scope).isSome
        ↔ LatestApproves sha256 plan scope ops) ∧
    ∀ (actor at_ now planId : String) (executor : Executor H Change) (host : H) svc' out parameters,
      executePlan sha256 fromisoformat (run (next sha256 fromisoformat) Services.create ops)
          plan scope actor at_ now executor host = (svc', .ok out) →
        .apply planId parameters ∈ out.calls → requiresApproval plan.riskLevel = true →
          LatestApproves sha256 plan scope ops := by
  have hhist := history_run sha256 fromisoformat ops
  have hinit : History sha256 [] Services.create := ⟨rfl, rfl⟩
  have hord := ordered_run sha256 fromisoformat hinit List.Pairwise.nil hops
  have hvalid := validApproval_iff sha256 hhist hord plan scope
  refine ⟨hvalid, ?_⟩
  intro actor at_ now planId executor host svc' out parameters hexec hcall hrisk
  obtain ⟨svc₁, decision, plan', hev, hallow⟩ :=
    allow_of_apply sha256 fromisoformat hexec hcall
  exact hvalid.mp (validApproval_of_allow sha256 fromisoformat hev hallow hrisk)

/-! ### The ten-thousandth decision -/

/-- Of two matching decisions the earlier one counts when the later one's identifier
does not sort after its own. -/
theorem maxById_of_not_lt {n : Nat} {other approve reject : Call}
    (hhist : History sha256 (List.replicate n other ++ [approve, reject]) svc) (plan : ActionPlan)
    (scope : AssessmentScope) (hother : other.concerns plan scope = false)
    (happrove : approve.concerns plan scope = true) (hreject : reject.concerns plan scope = true)
    (hsort : ¬ formatId "APR" (n + 1) < formatId "APR" (n + 2)) :
    maxById (decisionsOn svc plan scope) = some (approve.approval sha256 (n + 1)) := by
  have hnone : ((List.replicate n other).mapIdx fun i c => c.approval sha256 (i + 1)).filter
      (concerns plan scope) = [] := by
    refine List.filter_eq_nil_iff.mpr fun row hrow => ?_
    obtain ⟨i, hi, rfl⟩ := List.mem_mapIdx.mp hrow
    rw [List.getElem_replicate]
    have hrow : concerns plan scope (other.approval sha256 (i + 1)) = other.concerns plan scope := rfl
    simp [hrow, hother]
  have hrows : decisionsOn svc plan scope
      = [approve.approval sha256 (n + 1), reject.approval sha256 (n + 2)] := by
    have ha : concerns plan scope (approve.approval sha256 (n + 1)) = true := happrove
    have hr : concerns plan scope (reject.approval sha256 (n + 2)) = true := hreject
    have hlen : 1 + n + 1 = n + 2 := by omega
    rw [decisionsOn, Table.select, hhist.1, List.mapIdx_append, List.filter_append, hnone]
    simp [ha, hr, hlen]
  rw [hrows]
  simp only [maxById, List.foldl_cons, List.foldl_nil, Call.approval, if_neg hsort]

end Runs

/-- A plan as `draft_plan` makes it for `harden_ssh_access`. -/
def hardenPlan (planId asset : String) : ActionPlan :=
  { actionPlanId := planId
    actionType := "harden_ssh_access"
    riskLevel := .medium
    status := .proposed
    target := [("asset_id".toList, .str asset.toList)]
    parameters := [("disable_root_login".toList, .bool true), ("enforce_key_auth".toList, .bool true)]
    rollback := "Restore the previous sshd_config from the pre-change backup and reload sshd." }

/-- A lab scope with one operator. -/
def labScope : AssessmentScope :=
  { scopeId := "SCOPE-LAB"
    scopeVersion := 1
    policyHash := "sha256:lab"
    approved := true
    autonomyLevel := .executeAfterApproval
    allowedActors := ["operator"]
    targetAllowlist := ["bastion-01", "web-02"]
    validFrom := none
    validUntil := none }

/-- SHA-256 on the canonical texts of `hardenPlan "AP-0001" "bastion-01"` and
`hardenPlan "AP-0002" "web-02"`, told apart by the last digit of the plan's id. -/
def planDigest (text : List Char) : List Char :=
  if "\x7b\"action_plan_id\":\"AP-0001\"".toList.isPrefixOf text then
    "0db9b055592d3b41c438748e97da9f1da5fbd13d4a1ace778eb948e1de888178".toList
  else "3843fffda63b7b30f499bea311b133bba27ad4da0d718c75b8cc02063a5ae016".toList

/-- An operator's decision on a plan in the lab scope. -/
def decideOn (plan : ActionPlan) (decision : String) : Op Unit Unit :=
  .record plan labScope "operator" decision "2026-01-01T00:00:00Z"

/-- Two decisions on one plan. -/
def twoDecisions (first second : String) : List (Op Unit Unit) :=
  [decideOn (hardenPlan "AP-0001" "bastion-01") first,
    decideOn (hardenPlan "AP-0001" "bastion-01") second]

/-- An approval after a rejection stands, and one before a rejection does not. -/
theorem twoDecisions_approved :
    (validApproval planDigest
        (run (next planDigest fun _ => none) Services.create (twoDecisions "rejected" "approved"))
        (hardenPlan "AP-0001" "bastion-01") labScope).isSome ∧
      ¬ (validApproval planDigest
        (run (next planDigest fun _ => none) Services.create (twoDecisions "approved" "rejected"))
        (hardenPlan "AP-0001" "bastion-01") labScope).isSome := by
  have hinit : History planDigest [] Services.create := ⟨rfl, rfl⟩
  have hops : ∀ first second, StepsSatisfy (next planDigest fun _ => none) InOrder Services.create
      (twoDecisions first second) := fun first second =>
    stepsInOrder_of_le planDigest _ hinit (show 2 ≤ 9999 by decide)
  constructor
  · refine (only_latest_decision_authorises planDigest (fun _ => none) _ (hops _ _)
      (hardenPlan "AP-0001" "bastion-01") labScope).1.mpr ?_
    exact ⟨_, rfl, rfl, rfl⟩
  · intro happroved
    obtain ⟨c, hlast, happ, -⟩ := (only_latest_decision_authorises planDigest (fun _ => none) _
      (hops _ _) (hardenPlan "AP-0001" "bastion-01") labScope).1.mp happroved
    obtain rfl := Option.some.inj hlast
    cases happ

/-- `n` decisions on one plan, then an approval and a rejection of another. -/
def lateRejection (n : Nat) : List (Op Unit Unit) :=
  List.replicate n (decideOn (hardenPlan "AP-0002" "web-02") "approved") ++
    [decideOn (hardenPlan "AP-0001" "bastion-01") "approved",
      decideOn (hardenPlan "AP-0001" "bastion-01") "rejected"]

/-- The call a decision in the lab scope records. -/
def labCall (plan : ActionPlan) (verdict : Decision) : Call :=
  ⟨plan, labScope, verdict, "operator", "2026-01-01T00:00:00Z"⟩

theorem lateRejection_calls (n : Nat) :
    (lateRejection n).filterMap Op.recorded
      = List.replicate n (labCall (hardenPlan "AP-0002" "web-02") .approved) ++
        [labCall (hardenPlan "AP-0001" "bastion-01") .approved,
          labCall (hardenPlan "AP-0001" "bastion-01") .rejected] := by
  have hrec : (decideOn (hardenPlan "AP-0002" "web-02") "approved").recorded
      = some (labCall (hardenPlan "AP-0002" "web-02") .approved) := rfl
  rw [lateRejection, List.filterMap_append, List.filterMap_replicate_of_some hrec]
  rfl

theorem lateRejection_overlooked {n : Nat}
    (hsort : ¬ formatId "APR" (n + 1) < formatId "APR" (n + 2)) :
    (validApproval planDigest
        (run (next planDigest fun _ => none) Services.create (lateRejection n))
        (hardenPlan "AP-0001" "bastion-01") labScope).isSome ∧
      ¬ LatestApproves planDigest (hardenPlan "AP-0001" "bastion-01") labScope
        (lateRejection n) := by
  constructor
  · have hhist := history_run planDigest (fun _ => none) (lateRejection n)
    rw [lateRejection_calls] at hhist
    have hmax := maxById_of_not_lt planDigest hhist (hardenPlan "AP-0001" "bastion-01") labScope
      rfl rfl rfl hsort
    simp [validApproval, hmax, Call.approval, labCall]
  · rintro ⟨c, hlast, happ, -⟩
    rw [lateRejection_calls, List.filter_append, List.getLast?_append] at hlast
    obtain rfl := Option.some.inj hlast
    exact absurd happ (by decide)

/-- **A late rejection is overlooked.** The rejection is `APR-10000`, which sorts
before the approval `APR-9999`: the plan stays approved. -/
theorem rejection_overlooked :
    (validApproval planDigest
        (run (next planDigest fun _ => none) Services.create (lateRejection 9998))
        (hardenPlan "AP-0001" "bastion-01") labScope).isSome ∧
      ¬ LatestApproves planDigest (hardenPlan "AP-0001" "bastion-01") labScope
        (lateRejection 9998) :=
  lateRejection_overlooked (by decide +kernel)

end RiskOps.Pipeline
