import RiskOps.Lib.PyJson

/-!
# RiskOps.Triage.Evidence — dossiers and the checks on a model's answer

**What `triage_evidence` accepts.** A `Case` is the dossier a model reads: observed events and
typed context from trusted inventories. `Case.accepts` is `Dossier.model_validate`.

**What a validated answer is.** `validate` reads the model's text as JSON, checks it against the
answer schema, and then checks every claim and the dismissal basis against the cited evidence.
Anything that does not hold becomes a reason, and one reason is enough for the verdict to be
`abstain`.
-/

namespace RiskOps.Triage

open RiskOps.Lib

/-! ### Records -/

inductive AuthKind
  | authFailure | invalidUser | authSuccess | appAuthSuccess
  deriving Repr, DecidableEq

structure AuthRecord where
  eventId : Str
  kind : AuthKind
  time : Int
  source : Str
  host : Str
  account : Str
  deriving Repr, DecidableEq

structure HTTPRecord where
  eventId : Str
  time : Int
  source : Str
  host : Str
  method : Str
  path : Str
  status : Int
  userAgent : Str
  deriving Repr, DecidableEq

structure ExploitRecord where
  eventId : Str
  time : Int
  source : Str
  host : Str
  finding : Str
  deriving Repr, DecidableEq

/-- An observed event. -/
inductive Observation
  | auth (r : AuthRecord)
  | http (r : HTTPRecord)
  | exploit (r : ExploitRecord)
  deriving Repr, DecidableEq

inductive Classification
  | organisation | generic | unknown
  deriving Repr, DecidableEq

inductive Familiarity
  | familiar | unfamiliar | unknown
  deriving Repr, DecidableEq

structure AccountContext where
  eventId : Str
  host : Str
  account : Str
  classification : Classification
  deriving Repr, DecidableEq

structure SourceHistory where
  eventId : Str
  source : Str
  host : Str
  account : Str
  familiarity : Familiarity
  windowStart : Int
  windowEnd : Int
  deriving Repr, DecidableEq

structure Authorization where
  eventId : Str
  source : Str
  host : Str
  accounts : List Str
  paths : List Str
  methods : List Str
  validFrom : Int
  validUntil : Int
  deriving Repr, DecidableEq

structure Route where
  method : Str
  path : Str
  status : Int
  deriving Repr, DecidableEq

structure ServiceContext where
  eventId : Str
  host : Str
  expectedRoutes : List Route
  deriving Repr, DecidableEq

/-- A typed context record of a trusted inventory. -/
inductive Context
  | account (r : AccountContext)
  | history (r : SourceHistory)
  | authorization (r : Authorization)
  | service (r : ServiceContext)
  deriving Repr, DecidableEq

inductive Evidence
  | observed (o : Observation)
  | context (c : Context)
  deriving Repr, DecidableEq

inductive CaseKind
  | ssh | http
  deriving Repr, DecidableEq

inductive EvidenceStatus
  | complete | gapped | truncated | stale | unknown
  deriving Repr, DecidableEq

/-- The dossier of one incident. -/
structure Case where
  incidentId : Str
  revision : Str
  kind : CaseKind
  evidenceStatus : EvidenceStatus
  evidence : List Evidence
  deriving DecidableEq

namespace Observation

def eventId : Observation → Str
  | auth r => r.eventId
  | http r => r.eventId
  | exploit r => r.eventId

def time : Observation → Int
  | auth r => r.time
  | http r => r.time
  | exploit r => r.time

def source : Observation → Str
  | auth r => r.source
  | http r => r.source
  | exploit r => r.source

def host : Observation → Str
  | auth r => r.host
  | http r => r.host
  | exploit r => r.host

def auth? : Observation → Option AuthRecord
  | auth r => some r
  | _ => none

end Observation

namespace Context

def eventId : Context → Str
  | account r => r.eventId
  | history r => r.eventId
  | authorization r => r.eventId
  | service r => r.eventId

def host : Context → Str
  | account r => r.host
  | history r => r.host
  | authorization r => r.host
  | service r => r.host

end Context

namespace Evidence

def eventId : Evidence → Str
  | observed o => o.eventId
  | context c => c.eventId

def observed? : Evidence → Option Observation
  | observed o => some o
  | context _ => none

def context? : Evidence → Option Context
  | observed _ => none
  | context c => some c

end Evidence

/-- `_observed(rows)`. -/
def observed (rows : List Evidence) : List Observation := rows.filterMap Evidence.observed?

/-- The context records among `rows`. -/
def contexts (rows : List Evidence) : List Context := rows.filterMap Evidence.context?

def AuthRecord.key (r : AuthRecord) : Str × Str × Str := (r.source, r.host, r.account)

def SourceHistory.key (r : SourceHistory) : Str × Str × Str := (r.source, r.host, r.account)

/-! ### `Dossier.model_validate` -/

/-- A string of 1 to `n` characters. A validated string holds no lone surrogate. -/
def boundedText (n : Nat) (s : Str) : Bool := 1 ≤ s.length && s.length ≤ n && Str.encodable s

/-- The `Text` annotation. -/
def isText : Str → Bool := boundedText 256

/-- The `Instant` annotation. -/
def isInstant (t : Int) : Bool := 0 ≤ t && t ≤ 10000000000

def isStatus (n : Int) : Bool := 100 ≤ n && n ≤ 599

def httpMethods : List Str :=
  ["GET", "HEAD", "POST", "PUT", "DELETE", "OPTIONS", "PATCH"].map Str.ofString

def Observation.fieldsOk : Observation → Bool
  | .auth r => isText r.eventId && isInstant r.time && isText r.source && isText r.host
      && isText r.account
  | .http r => isText r.eventId && isInstant r.time && isText r.source && isText r.host
      && httpMethods.contains r.method && boundedText 2048 r.path && isStatus r.status
      && (r.userAgent.length ≤ 512 && Str.encodable r.userAgent)
  | .exploit r => isText r.eventId && isInstant r.time && isText r.source && isText r.host
      && isText r.finding

def Route.fieldsOk (r : Route) : Bool := isText r.method && isText r.path && isStatus r.status

def Context.fieldsOk : Context → Bool
  | .account r => isText r.eventId && isText r.host && isText r.account
  | .history r => isText r.eventId && isText r.source && isText r.host && isText r.account
      && isInstant r.windowStart && isInstant r.windowEnd && r.windowStart < r.windowEnd
  | .authorization r => isText r.eventId && isText r.source && isText r.host
      && (r.accounts.length ≤ 30 && r.accounts.all isText)
      && (r.paths.length ≤ 30 && r.paths.all isText)
      && (r.methods.length ≤ 10 && r.methods.all isText)
      && isInstant r.validFrom && isInstant r.validUntil && r.validFrom < r.validUntil
  | .service r => isText r.eventId && isText r.host
      && (1 ≤ r.expectedRoutes.length && r.expectedRoutes.length ≤ 30
        && r.expectedRoutes.all Route.fieldsOk)

def Evidence.fieldsOk : Evidence → Bool
  | .observed o => o.fieldsOk
  | .context c => c.fieldsOk

/-- HTTP evidence stays out of an SSH dossier and SSH evidence out of an HTTP one. -/
def CaseKind.admits : CaseKind → Observation → Bool
  | .ssh, .http _ => false
  | .ssh, .auth r => r.kind ≠ .appAuthSuccess
  | .http, .auth r => r.kind = .appAuthSuccess
  | _, _ => true

/-- Two context records do not contradict each other. -/
def Context.agrees : Context → Context → Bool
  | .account r, .account r' =>
    !((r.host, r.account) = (r'.host, r'.account)) || r.classification = r'.classification
  | .history r, .history r' => !(r.key = r'.key) || r.familiarity = r'.familiarity
  | _, _ => true

/-- A history ends before the first login event it is about. -/
def Context.precedes (events : List Observation) : Context → Bool
  | .history r => (events.filterMap Observation.auth?).all fun e =>
    !(e.key = r.key) || r.windowEnd ≤ e.time
  | _ => true

/-- `Dossier.model_validate(case)` raises no `ValidationError`. -/
def Case.accepts (c : Case) : Bool :=
  isText c.incidentId && isText c.revision
    && (1 ≤ c.evidence.length && c.evidence.length ≤ 100)
    && c.evidence.all Evidence.fieldsOk
    && decide (c.evidence.map Evidence.eventId).Nodup
    && !(observed c.evidence).isEmpty
    && (observed c.evidence).all c.kind.admits
    && (contexts c.evidence).all (fun r => (contexts c.evidence).all r.agrees)
    && (contexts c.evidence).all (Context.precedes (observed c.evidence))

/-! ### The answer schema -/

inductive Verdict
  | escalate | dismiss | abstain
  deriving Repr, DecidableEq

inductive Confidence
  | low | medium | high
  deriving Repr, DecidableEq

/-- `BASES`. -/
inductive Basis
  | none | genericScan | knownUserRetry | authorizedActivity | expectedHttpOperation
  deriving Repr, DecidableEq

/-- `KINDS`. -/
inductive ClaimKind
  | authenticationSucceeded | exploitationConfirmed | sourceFamiliar | sourceUnfamiliar
  | accountOwned | genericAccount | activityAuthorized | httpOperationExpected
  deriving Repr, DecidableEq

structure Claim where
  kind : ClaimKind
  evidenceIds : List Str
  deriving Repr, DecidableEq

/-- An answer that meets the schema. -/
structure Proposal where
  verdict : Verdict
  confidence : Confidence
  rationale : Str
  evidenceIds : List Str
  attackTechniques : List Str
  revision : Str
  dismissalBasis : Basis
  claims : List Claim
  deriving Repr, DecidableEq

def Verdict.text : Verdict → String
  | .escalate => "escalate"
  | .dismiss => "dismiss"
  | .abstain => "abstain"

def Confidence.text : Confidence → String
  | .low => "low"
  | .medium => "medium"
  | .high => "high"

def Basis.text : Basis → String
  | .none => "none"
  | .genericScan => "generic_scan"
  | .knownUserRetry => "known_user_retry"
  | .authorizedActivity => "authorized_activity"
  | .expectedHttpOperation => "expected_http_operation"

def ClaimKind.text : ClaimKind → String
  | .authenticationSucceeded => "authentication_succeeded"
  | .exploitationConfirmed => "exploitation_confirmed"
  | .sourceFamiliar => "source_familiar"
  | .sourceUnfamiliar => "source_unfamiliar"
  | .accountOwned => "account_owned"
  | .genericAccount => "generic_account"
  | .activityAuthorized => "activity_authorized"
  | .httpOperationExpected => "http_operation_expected"

def Verdict.all : List Verdict := [.escalate, .dismiss, .abstain]

def Confidence.all : List Confidence := [.low, .medium, .high]

def Basis.all : List Basis :=
  [.none, .genericScan, .knownUserRetry, .authorizedActivity, .expectedHttpOperation]

def ClaimKind.all : List ClaimKind :=
  [.authenticationSucceeded, .exploitationConfirmed, .sourceFamiliar, .sourceUnfamiliar,
    .accountOwned, .genericAccount, .activityAuthorized, .httpOperationExpected]

/-- The member of an enumeration a value names. -/
def oneOf {α : Type} (all : List α) (text : α → String) : PyJson.Value → Option α
  | .str s => all.find? fun a => Str.ofString (text a) = s
  | _ => none

/-- A list of at least `least` and at most 100 strings of 1 to 256 characters. -/
def stringList (least : Nat) : PyJson.Value → Option (List Str)
  | .arr vs =>
    if least ≤ vs.length ∧ vs.length ≤ 100 then
      vs.mapM fun
        | .str s => if 1 ≤ s.length ∧ s.length ≤ 256 then some s else none
        | _ => none
    else none
  | _ => none

/-- The members of an object whose keys are exactly `keys`. -/
def exactly (keys : List Str) : PyJson.Value → Option (List (Str × PyJson.Value))
  | .obj ms =>
    if (ms.map Prod.fst).all keys.contains && keys.all (ms.map Prod.fst).contains then some ms
    else none
  | _ => none

def claimKeys : List Str := ["kind", "evidence_ids"].map Str.ofString

/-- `SCHEMA["required"]`. -/
def requiredKeys : List Str :=
  ["verdict", "confidence", "rationale", "evidence_ids", "attack_techniques", "revision",
    "dismissal_basis", "claims"].map Str.ofString

def field (ms : List (Str × PyJson.Value)) (key : String) : Option PyJson.Value :=
  ms.lookup (Str.ofString key)

def readClaim (v : PyJson.Value) : Option Claim := do
  let ms ← exactly claimKeys v
  let kind ← (field ms "kind").bind (oneOf ClaimKind.all ClaimKind.text)
  let ids ← (field ms "evidence_ids").bind (stringList 1)
  return ⟨kind, ids⟩

def readClaims : PyJson.Value → Option (List Claim)
  | .arr vs => if vs.length ≤ 20 then vs.mapM readClaim else none
  | _ => none

def readRevision : PyJson.Value → Option Str
  | .str s => if s.length ≤ 256 then some s else none
  | _ => none

def readRationale : PyJson.Value → Option Str
  | .str s => if !Str.blank s ∧ s.length ≤ 16000 then some s else none
  | _ => none

/-- The schema checks of `validate`; `none` is `invalid_schema`. -/
def readProposal (v : PyJson.Value) : Option Proposal := do
  let ms ← exactly requiredKeys v
  let verdict ← (field ms "verdict").bind (oneOf Verdict.all Verdict.text)
  let confidence ← (field ms "confidence").bind (oneOf Confidence.all Confidence.text)
  let basis ← (field ms "dismissal_basis").bind (oneOf Basis.all Basis.text)
  let revision ← (field ms "revision").bind readRevision
  let rationale ← (field ms "rationale").bind readRationale
  let evidenceIds ← (field ms "evidence_ids").bind (stringList 0)
  let attackTechniques ← (field ms "attack_techniques").bind (stringList 0)
  let claims ← (field ms "claims").bind readClaims
  return ⟨verdict, confidence, rationale, evidenceIds, attackTechniques, revision, basis, claims⟩

/-- Every evidence id the answer names. -/
def Proposal.referenced (p : Proposal) : List Str :=
  p.evidenceIds ++ p.claims.flatMap Claim.evidenceIds

/-! ### Typed claims -/

/-- `_covers(approval, event)`. -/
def covers (approval : Authorization) (event : Observation) : Bool :=
  event.source = approval.source && event.host = approval.host
    && (approval.validFrom ≤ event.time && event.time ≤ approval.validUntil)
    && match event with
      | .http r => approval.methods.contains r.method && approval.paths.contains r.path
      | .auth r => approval.accounts.contains r.account
      | .exploit _ => false

/-- `_expected(context, event)`. -/
def expected (context : ServiceContext) : Observation → Bool
  | .http r => r.host = context.host && context.expectedRoutes.any fun route =>
    (route.method, route.path, route.status) = (r.method, r.path, r.status)
  | _ => false

/-- The `checks` of `_supports`: records that prove a claim of this kind. -/
def ClaimKind.proves : ClaimKind → Evidence → Bool
  | .authenticationSucceeded, .observed (.auth r) =>
    r.kind = .authSuccess || r.kind = .appAuthSuccess
  | .exploitationConfirmed, .observed (.exploit _) => true
  | .sourceFamiliar, .context (.history r) => r.familiarity = .familiar
  | .sourceUnfamiliar, .context (.history r) => r.familiarity = .unfamiliar
  | .accountOwned, .context (.account r) => r.classification = .organisation
  | .genericAccount, .context (.account r) => r.classification = .generic
  | .activityAuthorized, .context (.authorization _) => true
  | .httpOperationExpected, .context (.service _) => true
  | _, _ => false

/-- What a record proving a scoped claim says about an event. -/
def Evidence.explains : Evidence → Observation → Bool
  | .context (.authorization a), event => covers a event
  | .context (.service c), event => expected c event
  | _, _ => false

/-- `_supports(kind, proof, observations)`. -/
def supports (kind : ClaimKind) (proof : List Evidence) (observations : List Observation) : Bool :=
  let direct := proof.filter kind.proves
  !direct.isEmpty
    && proof.all (fun r => kind.proves r || r.observed?.isSome)
    && match kind with
      | .activityAuthorized | .httpOperationExpected =>
        let events := if (observed proof).isEmpty then observations else observed proof
        !events.isEmpty && events.all fun e => direct.any fun r => r.explains e
      | _ => true

/-! ### Dismissals -/

def Observation.isExploit : Observation → Bool
  | .exploit _ => true
  | _ => false

def Observation.isSuccess : Observation → Bool
  | .auth r => r.kind = .authSuccess || r.kind = .appAuthSuccess
  | _ => false

/-- An `AuthRecord` of one of `kinds`. -/
def Observation.isAuth (kinds : List AuthKind) : Observation → Bool
  | .auth r => kinds.contains r.kind
  | _ => false

def classifiedAs (cls : Classification) (context : List Context) : List (Str × Str) :=
  context.filterMap fun
    | .account r => if r.classification = cls then some (r.host, r.account) else none
    | _ => none

def familiarTo (context : List Context) : List (Str × Str × Str) :=
  context.filterMap fun
    | .history r => if r.familiarity = .familiar then some r.key else none
    | _ => none

def ofKind (kind : AuthKind) (events : List AuthRecord) : List AuthRecord :=
  events.filter fun r => r.kind = kind

/-- `basis == "known_user_retry"`. -/
def retrySupported (events : List Observation) (context : List Context) (asserted : List ClaimKind) :
    Bool :=
  events.all (Observation.isAuth [.authFailure, .authSuccess])
    && let rows := events.filterMap Observation.auth?
      let failures := ofKind .authFailure rows
      let successes := ofKind .authSuccess rows
      (rows.map AuthRecord.key).dedup.length = 1
        && rows.all (fun r => (familiarTo context).contains r.key)
        && rows.all (fun r => (classifiedAs .organisation context).contains (r.host, r.account))
        && (1 ≤ failures.length && failures.length ≤ 3)
        && successes.length = 1
        -- `min` over the successes is above `max` over the failures.
        && successes.all (fun s => failures.all fun f => f.time < s.time)
        -- `max` minus `min` over all events.
        && rows.all (fun r => rows.all fun r' => r.time - r'.time ≤ 300)
        && [ClaimKind.accountOwned, .sourceFamiliar, .authenticationSucceeded].all asserted.contains

/-- `basis == "generic_scan"`. -/
def scanSupported (events : List Observation) (context : List Context) (asserted : List ClaimKind) :
    Bool :=
  events.all (Observation.isAuth [.authFailure, .invalidUser])
    && let rows := events.filterMap Observation.auth?
      let invalid := (ofKind .invalidUser rows).map fun r => (r.host, r.account)
      rows.all (fun r => (classifiedAs .generic context).contains (r.host, r.account))
        && rows.all (fun r => invalid.contains (r.host, r.account))
        && asserted.contains .genericAccount

/-- `basis == "authorized_activity"` and `basis == "expected_http_operation"`: every event is
explained by a cited record that proves `kind`. -/
def scopeSupported (kind : ClaimKind) (events : List Observation) (context : List Context)
    (asserted : List ClaimKind) : Bool :=
  asserted.contains kind
    && events.all fun e => context.any fun c =>
      kind.proves (.context c) && (Evidence.context c).explains e

/-- `_dismiss_supported(basis, rows, cited, claims)`. -/
def dismissSupported (basis : Basis) (rows : List Evidence) (cited : List Str)
    (claims : List Claim) : Bool :=
  let events := observed rows
  -- Proof context must be cited, not merely present somewhere in the dossier.
  let context := (contexts rows).filter fun c => cited.contains c.eventId
  let asserted := claims.map Claim.kind
  if events.any Observation.isExploit then false
  else if basis = .knownUserRetry then retrySupported events context asserted
  else if events.any Observation.isSuccess then false
  else
    match basis with
    | .genericScan => scanSupported events context asserted
    | .authorizedActivity => scopeSupported .activityAuthorized events context asserted
    | .expectedHttpOperation => scopeSupported .httpOperationExpected events context asserted
    | _ => false

/-! ### `validate` -/

/-- The machine-readable reasons. -/
inductive Reason
  | invalidJson
  | invalidSchema
  | unknownEvidence (evidenceIds : List Str)
  | staleRevision
  | staleEvidence
  | missingObservedEvidence
  | unsupportedClaim (claimIndex : Nat) (claim : ClaimKind) (evidenceIds : List Str)
  | incompleteEvidence
  | uncertainDismissal
  | unsupportedDismissal (basis : Basis)
  | unexpectedDismissalBasis
  deriving Repr, DecidableEq

def Reason.code : Reason → String
  | .invalidJson => "invalid_json"
  | .invalidSchema => "invalid_schema"
  | .unknownEvidence _ => "unknown_evidence"
  | .staleRevision => "stale_revision"
  | .staleEvidence => "stale_evidence"
  | .missingObservedEvidence => "missing_observed_evidence"
  | .unsupportedClaim _ _ _ => "unsupported_claim"
  | .incompleteEvidence => "incomplete_evidence"
  | .uncertainDismissal => "uncertain_dismissal"
  | .unsupportedDismissal _ => "unsupported_dismissal"
  | .unexpectedDismissalBasis => "unexpected_dismissal_basis"

/-- `sorted(set(ids))`. -/
def sortedSet (ids : List Str) : List Str := ids.dedup.insertionSort fun a b => a ≤ b

/-- The record of an id. -/
def byId (rows : List Evidence) (id : Str) : Option Evidence :=
  rows.find? fun r => r.eventId = id

/-- The reasons a claim gives: none when one of its ids is unknown. -/
def claimReasons (rows : List Evidence) (index : Nat) (claim : Claim) : List Reason :=
  match claim.evidenceIds.mapM (byId rows) with
  | none => []
  | some proof =>
    if supports claim.kind proof (observed rows) then []
    else [.unsupportedClaim index claim.kind claim.evidenceIds]

/-- The checks that only a dismissal has to pass. -/
def dismissalReasons (c : Case) (p : Proposal) : List Reason :=
  (if c.evidenceStatus ≠ .complete then [.incompleteEvidence] else [])
    ++ (if p.confidence = .low then [.uncertainDismissal] else [])
    ++ (if dismissSupported p.dismissalBasis c.evidence p.referenced p.claims then []
      else [.unsupportedDismissal p.dismissalBasis])

/-- The reasons against a proposal that meets the schema. -/
def proposalReasons (c : Case) (p : Proposal) : List Reason :=
  let ids := c.evidence.map Evidence.eventId
  let unknown := p.referenced.filter fun i => !ids.contains i
  (if unknown.isEmpty then [] else [.unknownEvidence (sortedSet unknown)])
    ++ (if p.revision ≠ c.revision then [.staleRevision] else [])
    ++ (if c.evidenceStatus = .stale ∧ p.verdict ≠ .abstain then [.staleEvidence] else [])
    ++ (if p.verdict ≠ .abstain
        ∧ !((observed c.evidence).any fun o => p.referenced.contains o.eventId) then
          [.missingObservedEvidence] else [])
    ++ (p.claims.zipIdx.flatMap fun x => claimReasons c.evidence x.2 x.1)
    ++ (if p.verdict = .dismiss then dismissalReasons c p
      else if p.dismissalBasis ≠ .none then [.unexpectedDismissalBasis] else [])

/-- What `validate` publishes. -/
structure Published where
  verdict : Verdict
  confidence : Confidence
  rationale : Str
  evidenceIds : List Str
  attackTechniques : List Str
  deriving Repr, DecidableEq

/-- The `details` that vary: the constants of the version are in `Call.toRecord`. -/
structure Details where
  dossierSha : Str
  revision : Str
  reasons : List Reason
  proposal : Option Proposal
  deriving Repr, DecidableEq

/-- `", ".join(dict.fromkeys(codes))`. -/
def joinCodes (reasons : List Reason) : String :=
  ", ".intercalate (reasons.map Reason.code).reverse.dedup.reverse

def reviewVerdict (reasons : List Reason) : Published :=
  ⟨.abstain, .low, Str.ofString ("Requires review: " ++ joinCodes reasons), [], []⟩

def Verdict.message : Verdict → String
  | .escalate => "The model recommends analyst review."
  | .dismiss => "Possible noise; the configured dismissal preconditions are satisfied."
  | .abstain => "The model could not reach a supported decision; analyst review is required."

/-- Unrestricted prose is never published: the message is the validator's. -/
def supportedVerdict (p : Proposal) : Published where
  verdict := p.verdict
  confidence := p.confidence
  rationale := Str.ofString (p.verdict.message ++
    " Typed evidence checks passed; the original narrative still requires human review.")
  evidenceIds := sortedSet p.referenced
  attackTechniques := p.attackTechniques

/-- What `validate` raises. -/
inductive Failure
  | invalidDossier
  | recursion
  deriving Repr, DecidableEq

/-- The answer of a text that is read without an uncaught exception. -/
def judge (digest : Case → Str) (c : Case) : Option Proposal ⊕ Unit → Published × Details
  | .inr () => (reviewVerdict [.invalidJson], ⟨digest c, c.revision, [.invalidJson], none⟩)
  | .inl none => (reviewVerdict [.invalidSchema], ⟨digest c, c.revision, [.invalidSchema], none⟩)
  | .inl (some p) =>
    let reasons := proposalReasons c p
    (if reasons.isEmpty then supportedVerdict p else reviewVerdict reasons,
      ⟨digest c, c.revision, reasons, some p⟩)

/-- `validate(text, case)`. Only `ValueError` and `TypeError` are turned into a reason. -/
def validate (limit : Nat) (digest : Case → Str) (text : Str) (c : Case) :
    Except Failure (Published × Details) :=
  if !c.accepts then .error .invalidDossier
  else
    match PyJson.loads limit text with
    | .error .recursion => .error .recursion
    | .error .value => .ok (judge digest c (.inr ()))
    | .ok v => .ok (judge digest c (.inl (readProposal v)))

end RiskOps.Triage
