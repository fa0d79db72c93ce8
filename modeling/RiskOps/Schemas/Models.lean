import RiskOps.Lib.Json

/-!
# RiskOps.Schemas.Models — domain records of the remediation pipeline

The enumerations of `schemas/enums.py` and the records of `schemas/models.py` that
the policy engine and the remediation stage read. A plan keeps every field that
enters its hash or that the executor receives; its title, origin, evidence list and
creation time are only displayed and are left out.
-/

namespace RiskOps.Schemas

open RiskOps.Lib (Json)

/-- `RiskLevel`: risk class of a remediation action. -/
inductive RiskLevel where
  | low
  | medium
  | high
  deriving DecidableEq, Repr

/-- The enumeration's text. -/
def RiskLevel.value : RiskLevel → String
  | .low => "low"
  | .medium => "medium"
  | .high => "high"

/-- `AutonomyLevel`. -/
inductive AutonomyLevel where
  | reportOnly
  | suggestOnly
  | createPatch
  | executeAfterApproval
  | autoFixLowRisk
  | labFullAutonomy
  deriving DecidableEq, Repr

/-- The enumeration's number, which orders it. -/
def AutonomyLevel.toNat : AutonomyLevel → Nat
  | .reportOnly => 0
  | .suggestOnly => 1
  | .createPatch => 2
  | .executeAfterApproval => 3
  | .autoFixLowRisk => 4
  | .labFullAutonomy => 5

/-- `ActionPlanStatus`. -/
inductive ActionPlanStatus where
  | draft
  | proposed
  | approved
  | rejected
  | executed
  | verified
  | rolledBack
  deriving DecidableEq, Repr

/-- `PolicyEffect`. -/
inductive PolicyEffect where
  | allow
  | deny
  deriving DecidableEq, Repr

/-- `ActionPlan`. -/
structure ActionPlan where
  actionPlanId : String
  actionType : String
  riskLevel : RiskLevel
  status : ActionPlanStatus
  target : List (List Char × Json)
  parameters : List (List Char × Json)
  rollback : String

/-- What a recorded decision says. -/
inductive Decision where
  | approved
  | rejected
  deriving DecidableEq, Repr

/-- `Approval`: a recorded decision on one exact plan under one exact scope. -/
structure Approval where
  approvalId : String
  subjectRef : String
  decision : Decision
  approver : String
  planHash : String
  policyHash : String
  decidedAt : String
  deriving DecidableEq, Repr

/-- `AssessmentScope`. -/
structure AssessmentScope where
  scopeId : String
  scopeVersion : Int
  policyHash : String
  approved : Bool
  autonomyLevel : AutonomyLevel
  allowedActors : List String
  targetAllowlist : List String
  validFrom : Option String
  validUntil : Option String

/-- `ActionRequest`. `claimed` is what model output or other untrusted content asserts,
kept for the audit trail. -/
structure ActionRequest where
  requestId : String
  actor : String
  actionType : String
  riskLevel : RiskLevel
  target : String
  actionPlanId : Option String
  hasApproval : Bool
  at_ : Option String
  claimed : List (List Char × Json)

/-- `ReasonCode`: stable policy decision reason codes, in evaluation order. -/
inductive ReasonCode where
  | allowOk
  | scopeNotApproved
  | scopeUnbound
  | scopeEmpty
  | scopeAmbiguous
  | scopeWindowInvalid
  | scopeExpired
  | actorNotPermitted
  | targetNotInScope
  | approvalRequired
  | autonomyLevelInsufficient
  deriving DecidableEq, Repr

/-- `PolicyDecision`. -/
structure PolicyDecision where
  effect : PolicyEffect
  reasonCode : ReasonCode
  message : String
  requestRef : String
  policyHash : String
  evaluatedAt : String
  deriving DecidableEq, Repr

end RiskOps.Schemas
