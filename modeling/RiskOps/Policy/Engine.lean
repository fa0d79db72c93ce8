import RiskOps.Lib.Regex
import RiskOps.Schemas.Models

/-!
# RiskOps.Policy.Engine — the policy engine

Model of `policy/engine.py`: **a pure decision function, a fixed sequence of gates
with deny precedence.** The first failing gate gives the reason code; only a request
that passes all of them is allowed.

`datetime.fromisoformat` is the parameter `fromisoformat`: it reads a text as an
instant, with `none` inside when the text names no zone.
-/

namespace RiskOps.Policy

open RiskOps.Lib RiskOps.Schemas

/-! ### Names -/

/-- `[a-z0-9]`. -/
def labelEdge (c : Char) : Bool := ('a' ≤ c && c ≤ 'z') || ('0' ≤ c && c ≤ '9')

/-- `[a-z0-9-]`. -/
def labelInner (c : Char) : Bool := labelEdge c || c = '-'

/-- `_LABEL`. -/
def label : Regex :=
  .seq (.cls labelEdge) (.opt (.seq (.rep labelInner 0 (some 61) true) (.cls labelEdge)))

/-- `_HOSTNAME`. -/
def hostnamePattern : Regex := .seq label (.star (.seq (.lit ['.']) label))

/-- `_WILDCARD`: `*.example.internal`, never `*.internal`. -/
def wildcardPattern : Regex :=
  .seq (.lit ['*', '.']) (.seq label
    (.seq (.seq (.lit ['.']) label) (.star (.seq (.lit ['.']) label))))

/-- `[A-Za-z0-9]`. -/
def actorEdge (c : Char) : Bool := labelEdge c || ('A' ≤ c && c ≤ 'Z')

/-- `[A-Za-z0-9._@:-]`. -/
def actorInner (c : Char) : Bool :=
  actorEdge c || c = '.' || c = '_' || c = '@' || c = ':' || c = '-'

/-- `_ACTOR`. -/
def actorPattern : Regex := .seq (.cls actorEdge) (.rep actorInner 0 (some 127) true)

/-- `_hostname`. -/
def hostname (value : String) : Bool :=
  value.length ≤ 253 && (hostnamePattern.fullmatch value.toList).isSome

/-- An entry of a target allowlist: a host name or a `*.` wildcard. -/
def targetEntry (value : String) : Bool :=
  hostname value || (wildcardPattern.fullmatch value.toList).isSome

/-! ### Scopes -/

/-- Why a scope cannot be read one way only. -/
inductive ScopeProblem where
  | actor (entry : String)
  | target (entry : String)
  | validFrom (value : String)
  | validUntil (value : String)
  | window
  deriving DecidableEq, Repr

/-- The problem's text; `repr` is Python's. -/
def ScopeProblem.message (repr : String → String) : ScopeProblem → String
  | .actor entry => "actor " ++ repr entry ++ " is not a plain name"
  | .target entry =>
    "target " ++ repr entry ++ " is not a host name or a '*.' wildcard over two or more labels"
  | .validFrom value => "valid_from " ++ repr value ++ " is not a timestamp with a zone"
  | .validUntil value => "valid_until " ++ repr value ++ " is not a timestamp with a zone"
  | .window => "valid_from is not before valid_until"

section Engine

variable (fromisoformat : String → Option (Option Int))

/-- `_instant`: an ISO-8601 timestamp with a zone. -/
def instant (value : Option String) : Option Int :=
  value.bind fun text => (fromisoformat text).join

/-- `scope_problems`. -/
def scopeProblems (scope : AssessmentScope) : List ScopeProblem :=
  (scope.allowedActors.filter fun entry => (actorPattern.fullmatch entry.toList).isNone).map .actor
    ++ (scope.targetAllowlist.filter fun entry => !targetEntry entry).map .target
    ++ (match scope.validFrom with
        | some start => if (instant fromisoformat (some start)).isNone then [.validFrom start] else []
        | none => [])
    ++ (match scope.validUntil with
        | some stop => if (instant fromisoformat (some stop)).isNone then [.validUntil stop] else []
        | none => [])
    ++ (match instant fromisoformat scope.validFrom, instant fromisoformat scope.validUntil with
        | some start, some stop => if start ≥ stop then [.window] else []
        | _, _ => [])

/-- `_target_allowed`: exact match, or a single leading `*.` wildcard. -/
def targetAllowed (target : String) (allowlist : List String) : Bool :=
  hostname target && allowlist.any fun entry =>
    entry = target ||
      (['*', '.'].isPrefixOf entry.toList && (entry.toList.drop 1).isSuffixOf target.toList
        && target.toList != entry.toList.drop 2)

/-- `_min_autonomy`: lowest autonomy level that may execute this action. -/
def minAutonomy (riskLevel : RiskLevel) (hasApproval : Bool) : AutonomyLevel :=
  if riskLevel = .low && !hasApproval then .autoFixLowRisk else .executeAfterApproval

/-- A window bound that is set: Python takes `None` and the empty text for unset. -/
def boundSet (value : Option String) : Bool := value.any (· ≠ "")

/-- `requires_approval` of gate 9. -/
def requiresApproval (riskLevel : RiskLevel) : Bool :=
  riskLevel = .medium || riskLevel = .high

/-- `PolicyEngine._decide`. -/
def decide (request : ActionRequest) (scope : AssessmentScope) : ReasonCode :=
  if !scope.approved then .scopeNotApproved
  else if scope.policyHash = "" then .scopeUnbound
  else if scope.allowedActors = [] || scope.targetAllowlist = [] then .scopeEmpty
  else if scopeProblems fromisoformat scope ≠ [] then .scopeAmbiguous
  else match instant fromisoformat request.at_ with
    | none => .scopeWindowInvalid
    | some at_ =>
      if boundSet scope.validFrom && (instant fromisoformat scope.validFrom).any (at_ < ·) then
        .scopeWindowInvalid
      else if boundSet scope.validUntil && (instant fromisoformat scope.validUntil).any (· < at_) then
        .scopeExpired
      else if !scope.allowedActors.contains request.actor then .actorNotPermitted
      else if !targetAllowed request.target scope.targetAllowlist then .targetNotInScope
      else if requiresApproval request.riskLevel && !request.hasApproval then .approvalRequired
      else if scope.autonomyLevel.toNat
          < (minAutonomy request.riskLevel request.hasApproval).toNat then
        .autonomyLevelInsufficient
      else .allowOk

/-- `_MESSAGES`. -/
def messages : ReasonCode → String
  | .allowOk => "Action permitted by policy."
  | .scopeNotApproved => "Scope is not approved."
  | .scopeUnbound => "Scope is not bound to a canonical policy hash."
  | .scopeEmpty => "Scope names no actor or no target; a blank scope never means unrestricted."
  | .scopeAmbiguous => "Scope has an entry that can be read more than one way; it fails closed."
  | .scopeWindowInvalid => "No valid decision time or before the scope validity window."
  | .scopeExpired => "Authorization window has expired."
  | .actorNotPermitted => "Actor is not on the scope actor allowlist."
  | .targetNotInScope => "Target is not covered by the scope allowlist."
  | .approvalRequired => "Action risk requires an explicit approval record."
  | .autonomyLevelInsufficient => "Configured autonomy level is below what this action requires."

/-- `PolicyEngine.evaluate`; `now` is the engine's clock reading. -/
def evaluate (now : String) (request : ActionRequest) (scope : AssessmentScope) : PolicyDecision :=
  let code := decide fromisoformat request scope
  { effect := if code = .allowOk then .allow else .deny
    reasonCode := code
    message := messages code
    requestRef := request.requestId
    policyHash := scope.policyHash
    evaluatedAt := now }

/-! ### What an ALLOW commits to -/

/-- Gate 9: an allowed request whose risk needs approval carries one. -/
theorem hasApproval_of_decide {request : ActionRequest} {scope : AssessmentScope}
    (h : decide fromisoformat request scope = .allowOk)
    (hrisk : requiresApproval request.riskLevel = true) : request.hasApproval = true := by
  by_contra hno
  unfold decide at h
  -- Every gate before the ninth answers with a denial of its own.
  simp only [hrisk, Bool.eq_false_iff.mpr hno, Bool.not_false, Bool.and_self, if_true] at h
  repeat' split at h
  all_goals simp at h

theorem evaluate_allow_iff {now : String} {request : ActionRequest} {scope : AssessmentScope} :
    (evaluate fromisoformat now request scope).effect = .allow
      ↔ decide fromisoformat request scope = .allowOk := by
  by_cases h : decide fromisoformat request scope = .allowOk
  · simp [evaluate, h]
  · simp [evaluate, h]

end Engine

end RiskOps.Policy
