import RiskOps.Core.Ids
import RiskOps.Lib.Run
import RiskOps.Lib.Table
import RiskOps.Policy.Engine

/-!
# RiskOps.Pipeline.Remediation — approvals, the policy gate and execution

Model of `pipeline/remediation.py`: recording a decision on a plan, looking up the
decision in force, asking the policy engine, and running a typed executor behind it.

Parameters stand for what the stage calls into: `sha256` (the hex digest of a text's
UTF-8 bytes), `fromisoformat` (see `RiskOps.Policy.Engine`), and the executor, a
record of its own behaviour over an arbitrary host state. Clock readings are
arguments. The audit chain and the evidence vault only receive copies and are left
out.
-/

namespace RiskOps.Pipeline

open RiskOps.Core RiskOps.Lib RiskOps.Policy RiskOps.Schemas

/-- `Services`: the collections and the identifier factory this stage uses. -/
structure Services where
  approvals : Table Approval.approvalId
  actionPlans : Table ActionPlan.actionPlanId
  policyDecisions : Table PolicyDecision.requestRef
  ids : IdFactory

/-- `Services.create`. -/
def Services.create : Services := ⟨.empty, .empty, .empty, .init⟩

/-- What this stage raises. -/
inductive StageError where
  | unknownDecision (decision : String)
  | notPermitted (approver scopeId : String)
  | invalidRequest
  deriving DecidableEq, Repr

/-- The text of a `ValueError` of `record_approval`; `repr` is Python's. -/
def StageError.message (repr : String → String) : StageError → String
  | .unknownDecision decision => "unknown decision " ++ repr decision
  | .notPermitted approver scopeId => repr approver ++ " is not a permitted actor in " ++ scopeId
  | .invalidRequest => "Input should be a valid string"

section Hashing

variable (sha256 : List Char → List Char)

/-- `core/hashing.py` `policy_hash`: the digest of the canonical JSON text. -/
def policyHash (policy : List (List Char × Json)) : String :=
  "sha256:" ++ String.ofList (sha256 ((Json.obj policy).sortKeys.dumps .compact))

/-- `plan_hash`: digest of what a plan would do; its status is not part of it. -/
def planHash (plan : ActionPlan) : String :=
  policyHash sha256
    [("action_plan_id".toList, .str plan.actionPlanId.toList),
      ("action_type".toList, .str plan.actionType.toList),
      ("risk_level".toList, .str plan.riskLevel.value.toList),
      ("target".toList, .obj plan.target),
      ("parameters".toList, .obj plan.parameters),
      ("rollback".toList, .str plan.rollback.toList)]

/-! ### Recording a decision -/

/-- The decisions `record_approval` knows. -/
def readDecision (decision : String) : Option Decision :=
  if decision = "approved" then some .approved
  else if decision = "rejected" then some .rejected
  else none

/-- `record_approval`. -/
def recordApproval (svc : Services) (plan : ActionPlan) (scope : AssessmentScope)
    (approver decision now : String) : Except StageError (Services × Approval) :=
  match readDecision decision with
  | none => .error (.unknownDecision decision)
  | some verdict =>
    if approver ∉ scope.allowedActors then .error (.notPermitted approver scope.scopeId)
    else
      let issued := svc.ids.next "APR"
      let approval : Approval :=
        { approvalId := issued.1
          subjectRef := plan.actionPlanId
          decision := verdict
          approver := approver
          planHash := planHash sha256 plan
          policyHash := scope.policyHash
          decidedAt := now }
      .ok ({ svc with approvals := svc.approvals.replace approval, ids := issued.2 }, approval)

/-- `max(decisions, key=lambda approval: approval.approval_id)`: the first of the
greatest. -/
def maxById : List Approval → Option Approval
  | [] => none
  | first :: rest =>
    some (rest.foldl (fun best a => if best.approvalId < a.approvalId then a else best) first)

/-- The stored decision is on this plan under this scope. -/
def concerns (plan : ActionPlan) (scope : AssessmentScope) (row : Approval) : Bool :=
  row.subjectRef = plan.actionPlanId && row.policyHash = scope.policyHash

/-- The decisions on this plan under this scope. -/
def decisionsOn (svc : Services) (plan : ActionPlan) (scope : AssessmentScope) : List Approval :=
  svc.approvals.select (concerns plan scope)

/-- `valid_approval`: the latest decision on this plan under this scope, if it
approves the plan as it is now. -/
def validApproval (svc : Services) (plan : ActionPlan) (scope : AssessmentScope) :
    Option Approval :=
  match maxById (decisionsOn svc plan scope) with
  | none => none
  | some latest =>
    if latest.decision ≠ .approved ∨ latest.planHash ≠ planHash sha256 plan then none
    else some latest

/-! ### The gate -/

variable (fromisoformat : String → Option (Option Int))

/-- `evaluate_execution`; `at_` and `now` are the two clock readings. A plan whose
`asset_id` is no text makes no valid request. -/
def evaluateExecution (svc : Services) (plan : ActionPlan) (scope : AssessmentScope)
    (actor at_ now : String) : Services × Except StageError (PolicyDecision × ActionPlan) :=
  let approval := validApproval sha256 svc plan scope
  let issued := svc.ids.next "REQ"
  match (Json.get? plan.target "asset_id".toList).getD (.str []) with
  | .str target =>
    let request : ActionRequest :=
      { requestId := issued.1
        actor := actor
        actionType := plan.actionType
        riskLevel := plan.riskLevel
        target := String.ofList target
        actionPlanId := some plan.actionPlanId
        hasApproval := approval.isSome
        at_ := some at_
        claimed :=
          [("note".toList, .str "auto-remediation suggested by triage agent".toList),
           ("pre_approved".toList, .bool true)] }
    let decision := evaluate fromisoformat now request scope
    let status : ActionPlanStatus := if decision.effect = .allow then .approved else .proposed
    let plan := { plan with status := status }
    ({ svc with
        policyDecisions := svc.policyDecisions.replace decision
        actionPlans := svc.actionPlans.replace plan
        ids := issued.2 }, .ok (decision, plan))
  | _ => ({ svc with ids := issued.2 }, .error .invalidRequest)

/-! ### Execution -/

/-- A typed executor over a host of type `H`. A refusal is its reason. -/
structure Executor (H Change : Type) where
  actionType : String
  assetId : String
  state : H → Except String Json
  apply : H → String → List (List Char × Json) → Except String (Change × H)
  verify : H → List (List Char × Json) → Bool
  rollback : H → Change → H

/-- The executor methods `execute_plan` called, in order. -/
inductive ExecutorCall where
  | state
  | apply (planId : String) (parameters : List (List Char × Json))
  | verify (parameters : List (List Char × Json))
  | rollback

/-- `Execution`, with the executor calls made and the host they left. -/
structure Execution (H : Type) where
  plan : ActionPlan
  decision : PolicyDecision
  approval : Option Approval
  refused : Option String
  verified : Option Bool
  calls : List ExecutorCall
  host : H

/-- `plan.target.get("asset_id")` when it is a text. -/
def assetOf (plan : ActionPlan) : Option String :=
  match Json.get? plan.target "asset_id".toList with
  | some (.str asset) => some (String.ofList asset)
  | _ => none

/-- Why an executor made for another action or host does not start. -/
def mismatch (actionType assetId : String) (plan : ActionPlan) : String :=
  "executor for " ++ actionType ++ " on " ++ assetId ++ " cannot run " ++ plan.actionType
    ++ " on " ++ (assetOf plan).getD "None"

/-- `_set_status`. -/
def setStatus (svc : Services) (plan : ActionPlan) (status : ActionPlanStatus) :
    Services × ActionPlan :=
  let plan := { plan with status := status }
  ({ svc with actionPlans := svc.actionPlans.replace plan }, plan)

variable {H Change : Type}

/-- `execute_plan`: policy gate, then execute, verify, and roll back on a failed
verification. -/
def executePlan (svc : Services) (plan : ActionPlan) (scope : AssessmentScope) (actor at_ now : String)
    (executor : Executor H Change) (host : H) :
    Services × Except StageError (Execution H) :=
  match evaluateExecution sha256 fromisoformat svc plan scope actor at_ now with
  | (svc, .error e) => (svc, .error e)
  | (svc, .ok (decision, plan)) =>
    let outcome : Execution H :=
      ⟨plan, decision, validApproval sha256 svc plan scope, none, none, [], host⟩
    if decision.effect ≠ .allow then (svc, .ok outcome)
    else if executor.actionType ≠ plan.actionType ∨ assetOf plan ≠ some executor.assetId then
      (svc, .ok { outcome with
        refused := some (mismatch executor.actionType executor.assetId plan) })
    else match executor.state host with
      | .error reason => (svc, .ok { outcome with refused := some reason, calls := [.state] })
      | .ok _ =>
        match executor.apply host plan.actionPlanId plan.parameters with
        | .error reason =>
          (svc, .ok { outcome with
            refused := some reason
            calls := [.state, .apply plan.actionPlanId plan.parameters] })
        | .ok (change, host) =>
          let calls := [.state, .apply plan.actionPlanId plan.parameters, .state,
            .verify plan.parameters]
          let (svc, executed) := setStatus svc plan .executed
          if executor.verify host plan.parameters then
            let (svc, plan) := setStatus svc executed .verified
            (svc, .ok { outcome with
              plan := plan, verified := some true, calls := calls, host := host })
          else
            let (svc, plan) := setStatus svc executed .rolledBack
            (svc, .ok { outcome with
              plan := plan, verified := some false, calls := calls ++ [.rollback, .state]
              host := executor.rollback host change })

end Hashing

end RiskOps.Pipeline
