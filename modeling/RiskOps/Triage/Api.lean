import RiskOps.Lib.Decimal
import RiskOps.Triage.Evidence
import RiskOps.Telemetry.AiJobs

/-!
# RiskOps.Triage.Api — one paid call to the triage model

Model of `triage_api.APITriage.triage` on dossiers, over the ledger of
`RiskOps.Telemetry.AiJobs`. After the reservation the provider's payload is normalized, its text is
validated against the dossier, the tokens are priced and the call is recorded with
`Ledger.complete`. Whatever is raised on the way ends in `Ledger.fail`: the reservation stays and
the answer is lost.

**The runtime.** What Python computes and this module does not define is in `Runtime`: which code
points `\d` matches, when a float is zero, how a float prints, and the two digests. Prices are
exact rationals.
-/

namespace RiskOps.Triage

open RiskOps.Lib.PyJson
open RiskOps.Lib (Str)

/-! ### Configuration -/

inductive ApiFormat
  | openaiResponses | openaiChat
  deriving Repr, DecidableEq

/-- `Prices`: dollars for a million tokens. -/
structure Prices where
  input : ℚ
  output : ℚ
  cacheRead : ℚ
  cacheWrite : ℚ
  input_range : 0 < input ∧ input ≤ 1000
  output_range : 0 < output ∧ output ≤ 1000
  cacheRead_range : 0 ≤ cacheRead ∧ cacheRead ≤ 1000
  cacheWrite_range : 0 ≤ cacheWrite ∧ cacheWrite ≤ 1000

/-- A validated `APIConfig`. `dump` is `model_dump(mode="json")`. -/
structure Config where
  apiFormat : ApiFormat
  model : Str
  maxInputTokens : Nat
  maxOutputTokens : Nat
  prices : Prices
  dump : Value
  model_text : Str.encodable model = true
  maxInput_le : maxInputTokens ≤ 131072
  maxOutput_le : maxOutputTokens ≤ 32768
  dump_text : dump.encodable = true

structure Runtime where
  /-- `\d`. -/
  isDecimal : Nat → Bool
  /-- `float(literal) == 0`. -/
  isZero : Str → Bool
  /-- `repr` of a float. -/
  repr : ℚ → Str
  /-- `triage_evidence.digest`. -/
  digest : Case → Str
  /-- `config.fingerprint`. -/
  fingerprint : Config → Case → Str
  isDecimal_scalar : ∀ c, isDecimal c = true → Str.isSurrogate c = false
  repr_text : ∀ x, Str.encodable (repr x) = true
  digest_text : ∀ c, Str.encodable (digest c) = true
  fingerprint_text : ∀ cfg c, Str.encodable (fingerprint cfg c) = true

/-! ### `normalize` -/

/-- What is raised after the reservation: an `APIError` with its code, or anything else. -/
inductive ApiFailure
  | api (code : String)
  | other
  deriving Repr, DecidableEq

structure Usage where
  inputTokens : Nat
  outputTokens : Nat
  cacheRead : Nat
  cacheCreation : Nat
  reasoning : Nat
  deriving Repr, DecidableEq

structure Normalized where
  served : Str
  stop : Str
  text : Str
  usage : Usage
  deriving Repr, DecidableEq

abbrev Members := List (Str × Value)

/-- `_count(usage, key, optional=…)`. -/
def count (usage : Members) (key : String) (optional : Bool) : Except ApiFailure Nat :=
  match field usage key with
  | some (.int n) => if n < 0 then .error (.api "invalid_usage") else .ok n.toNat
  | some _ => .error (.api "invalid_usage")
  | none => if optional then .ok 0 else .error (.api "invalid_usage")

/-- `_details(usage, key)`. -/
def details (usage : Members) (key : String) : Except ApiFailure Members :=
  match field usage key with
  | some (.obj ms) => .ok ms
  | some _ => .error (.api "invalid_usage")
  | none => .ok []

/-- `-(?:\d{8}|\d{4}-\d{2}-\d{2})`. -/
def isDateSuffix (isDecimal : Nat → Bool) (s : Str) : Bool :=
  match s with
  | [45, a, b, c, d, e, f, g, h] => [a, b, c, d, e, f, g, h].all isDecimal
  | [45, a, b, c, d, 45, e, f, 45, g, h] => [a, b, c, d, e, f, g, h].all isDecimal
  | _ => false

/-- The requested model or a dated snapshot of it. -/
def isServed (isDecimal : Nat → Bool) (model served : Str) : Bool :=
  served = model || (served.take model.length = model
    && isDateSuffix isDecimal (served.drop model.length))

/-- `[a-z_]{1,64}`. -/
def isStop (s : Str) : Bool :=
  1 ≤ s.length && s.length ≤ 64 && s.all fun c => (97 ≤ c && c ≤ 122) || c = 95

/-- `bool(value)`. -/
def truthy (isZero : Str → Bool) : Value → Bool
  | .null => false
  | .bool b => b
  | .int n => n ≠ 0
  | .float l => !isZero l
  | .str s => !s.isEmpty
  | .arr vs => !vs.isEmpty
  | .obj ms => !ms.isEmpty

/-- `for x in value`: a dict gives its keys, a string its characters. -/
def iterate : Value → Except ApiFailure (List Value)
  | .arr vs => .ok vs
  | .obj ms => .ok (ms.map fun m => .str m.1)
  | .str s => .ok (s.map fun c => .str [c])
  | _ => .error .other

/-- The members of a dict. Other values have no `get` and no string keys. -/
def membersOf : Value → Except ApiFailure Members
  | .obj ms => .ok ms
  | _ => .error .other

/-- `d[key]`. -/
def index (ms : Members) (key : String) : Except ApiFailure Value :=
  match field ms key with
  | some v => .ok v
  | none => .error .other

def isStr (text : String) : Option Value → Bool
  | some (.str s) => s = Str.ofString text
  | _ => false

/-- The text of one content block. -/
def blockText (block : Value) : Except ApiFailure Str := do
  let ms ← membersOf block
  if isStr "output_text" (field ms "type") then
    match ← index ms "text" with
    | .str s => return s
    | _ => throw .other
  else return []

/-- The text of one output item. -/
def itemText (item : Value) : Except ApiFailure Str := do
  let ms ← membersOf item
  if isStr "message" (field ms "type") then
    let blocks ← iterate (← index ms "content")
    return (← blocks.mapM blockText).flatten
  else return []

/-- The last checks of `normalize`. -/
def normalized (served : Str) (stop : Option Value) (text : Value) (accepted : Bool) (inputs : Int)
    (outputs cached written reasoning : Nat) : Except ApiFailure Normalized :=
  if inputs < 0 ∨ outputs < reasoning then .error (.api "invalid_usage")
  else
    match stop, text with
    | some (.str stop), .str text =>
      if isStop stop then
        .ok ⟨served, stop, if accepted then text else [],
          ⟨inputs.toNat, outputs, cached, written, reasoning⟩⟩
      else .error (.api "invalid_response")
    | _, _ => .error (.api "invalid_response")

/-- `normalize` for `openai-responses`. -/
def normalizeResponses (payload usage : Members) (served : Str) : Except ApiFailure Normalized := do
  if (field payload "service_tier").isSome && !isStr "default" (field payload "service_tier") then
    throw (.api "unpriced_service_tier")
  let inputs ← count usage "input_tokens" false
  let outputs ← count usage "output_tokens" false
  let cached ← count (← details usage "input_tokens_details") "cached_tokens" true
  let written ← count (← details usage "input_tokens_details") "cache_write_tokens" true
  let reasoning ← count (← details usage "output_tokens_details") "reasoning_tokens" true
  let items ← iterate (← index payload "output")
  let text := (← items.mapM itemText).flatten
  normalized served (field payload "status") (.str text) (isStr "completed" (field payload "status"))
    ((inputs : Int) - (cached + written)) outputs cached written reasoning

/-- `choices[0]` when there is one choice. -/
def onlyChoice : Value → Except ApiFailure Value
  | .arr [v] => .ok v
  | .arr _ => .error (.api "invalid_choices")
  | .obj [_] => .error .other
  | .obj _ => .error (.api "invalid_choices")
  | .str [c] => .ok (.str [c])
  | .str _ => .error (.api "invalid_choices")
  | _ => .error .other

/-- `normalize` for `openai-chat`. -/
def normalizeChat (isZero : Str → Bool) (payload usage : Members) (served : Str) :
    Except ApiFailure Normalized := do
  let inputs ← count usage "prompt_tokens" false
  let outputs ← count usage "completion_tokens" false
  let cached ← if (field usage "prompt_cache_hit_tokens").isSome then
      count usage "prompt_cache_hit_tokens" false
    else count (← details usage "prompt_tokens_details") "cached_tokens" true
  let reasoning ← count (← details usage "completion_tokens_details") "reasoning_tokens" true
  let choice ← membersOf (← onlyChoice (← index payload "choices"))
  let message ← membersOf (← index choice "message")
  let content := (field message "content").getD .null
  let text := if truthy isZero content then content else .str []
  let accepted := isStr "stop" (field choice "finish_reason")
    && !truthy isZero ((field message "refusal").getD .null)
  normalized served (field choice "finish_reason") text accepted ((inputs : Int) - cached) outputs
    cached 0 reasoning

/-- `normalize(config, payload)`. -/
def normalize (rt : Runtime) (cfg : Config) (payload : Value) : Except ApiFailure Normalized :=
  match payload with
  | .obj ms =>
    match field ms "usage" with
    | some (.obj usage) =>
      match field ms "model" with
      | some (.str served) =>
        if isServed rt.isDecimal cfg.model served then
          match cfg.apiFormat with
          | .openaiResponses => normalizeResponses ms usage served
          | .openaiChat => normalizeChat rt.isZero ms usage served
        else .error (.api "unpriced_served_model")
      | _ => .error (.api "unpriced_served_model")
    | _ => .error (.api "missing_usage")
  | _ => .error (.api "missing_usage")

/-! ### The record of a call -/

/-- What an operation of `Decimal` returns in the default context. -/
def decimal (x : ℚ) : ℚ := Lib.Decimal.roundTo 28 (-1000026) x

/-- `micro_usd`. -/
def microUsd (amount : ℚ) : Int := (decimal (amount * 1000000)).ceil

/-- `micro_usd` of the priced tokens. -/
def charge (p : Prices) (u : Usage) : Int :=
  let input := decimal (u.inputTokens * p.input)
  let output := decimal (u.outputTokens * p.output)
  let cacheRead := decimal (u.cacheRead * p.cacheRead)
  let cacheWrite := decimal (u.cacheCreation * p.cacheWrite)
  microUsd (decimal (decimal (decimal (decimal (input + output) + cacheRead) + cacheWrite)
    / 1000000))

structure TriageCall where
  incidentId : Str
  promptSha : Str
  published : Published
  model : Str
  stopReason : Str
  usage : Usage
  usd : ℚ
  latencySeconds : ℚ
  config : Value
  validation : String
  details : Details

def text (s : String) : Value := .str (Str.ofString s)

def members (ms : List (String × Value)) : Value := .obj (ms.map fun m => (Str.ofString m.1, m.2))

def strings (ss : List Str) : Value := .arr (ss.map .str)

def Reason.toValue (r : Reason) : Value :=
  members (("code", text r.code) :: match r with
    | .unknownEvidence ids => [("evidence_ids", strings ids)]
    | .unsupportedClaim i kind ids =>
      [("claim_index", .int i), ("claim", text kind.text), ("evidence_ids", strings ids)]
    | .unsupportedDismissal basis => [("basis", text basis.text)]
    | _ => [])

def Claim.toValue (c : Claim) : Value :=
  members [("kind", text c.kind.text), ("evidence_ids", strings c.evidenceIds)]

def Proposal.toValue (p : Proposal) : Value :=
  members [("verdict", text p.verdict.text), ("confidence", text p.confidence.text),
    ("rationale", .str p.rationale), ("evidence_ids", strings p.evidenceIds),
    ("attack_techniques", strings p.attackTechniques), ("revision", .str p.revision),
    ("dismissal_basis", text p.dismissalBasis.text), ("claims", .arr (p.claims.map Claim.toValue))]

def Details.toValue (d : Details) : Value :=
  members [("validator_version", .int 3), ("dossier_version", .int 3),
    ("dossier_sha256", .str d.dossierSha), ("revision", .str d.revision),
    ("status", text (if d.reasons.isEmpty then "valid" else "requires_review")),
    ("reasons", .arr (d.reasons.map Reason.toValue)),
    ("proposal", (d.proposal.map Proposal.toValue).getD .null),
    ("free_text_requires_review", .bool true)]

/-- `TriageCall.to_record()`. -/
def TriageCall.toRecord (rt : Runtime) (c : TriageCall) : Value :=
  members [("incident_id", .str c.incidentId), ("prompt_sha256", .str c.promptSha),
    ("verdict", text c.published.verdict.text), ("confidence", text c.published.confidence.text),
    ("rationale", .str c.published.rationale), ("evidence_ids", strings c.published.evidenceIds),
    ("attack_techniques", strings c.published.attackTechniques), ("model", .str c.model),
    ("stop_reason", .str c.stopReason), ("input_tokens", .int c.usage.inputTokens),
    ("output_tokens", .int c.usage.outputTokens),
    ("cache_creation_input_tokens", .int c.usage.cacheCreation),
    ("cache_read_input_tokens", .int c.usage.cacheRead), ("usd", .float (rt.repr c.usd)),
    ("latency_seconds", .float (rt.repr c.latencySeconds)),
    ("metadata", members [("format_version", .int 3), ("config", c.config),
      ("validation", text c.validation), ("reasoning_tokens", .int c.usage.reasoning),
      ("evidence_validation", c.details.toValue)])]

/-- The JSON text `Ledger.complete` stores, `none` when it cannot be encoded. -/
def encodeRecord (record : Value) : Option String := Str.encode (dumps (sortKeys record))

/-! ### `triage` after its reservation -/

/-- The code `Ledger.fail` is called with. -/
def ApiFailure.code : ApiFailure → String
  | .api code => code
  | .other => "invalid_response_or_local_failure"

/-- The call of a payload, with its charge. -/
def answer (rt : Runtime) (limit : Nat) (cfg : Config) (c : Case) (payload : Value) (latency : ℚ) :
    Except ApiFailure (Int × TriageCall) := do
  let n ← normalize rt cfg payload
  match validate limit rt.digest n.text c with
  | .error _ => throw .other
  | .ok (published, details) =>
    let charged := charge cfg.prices n.usage
    return (charged,
      { incidentId := c.incidentId
        promptSha := rt.fingerprint cfg c
        published := published
        model := n.served
        stopReason := n.stop
        usage := n.usage
        usd := charged / 1000000
        latencySeconds := latency
        config := cfg.dump
        validation := (details.reasons.head?.map Reason.code).getD "valid"
        details := details })

/-- What the caller of `triage` gets. -/
inductive Outcome
  | returned (call : TriageCall)
  | raised (code : String)

/-- `except Exception`: the call is marked uncertain and an `APIError` is raised. -/
def giveUp (db : Telemetry.AiJobs.Queue) (acc : Telemetry.AiJobs.Account)
    (job : Telemetry.AiJobs.Job) (callId code : String) : Telemetry.AiJobs.Account × Outcome :=
  match Telemetry.AiJobs.fail db acc job callId code with
  | .ok acc' => (acc', .raised code)
  | .error _ => (acc, .raised code)

/-- `APITriage.triage` once the payload is there: settle the call or give it up. -/
def settle (rt : Runtime) (limit : Nat) (cfg : Config) (db : Telemetry.AiJobs.Queue)
    (acc : Telemetry.AiJobs.Account) (job : Telemetry.AiJobs.Job) (callId : String) (c : Case)
    (payload : Value) (latency : ℚ) : Telemetry.AiJobs.Account × Outcome :=
  match answer rt limit cfg c payload latency with
  | .error e => giveUp db acc job callId e.code
  | .ok (charged, call) =>
    match Telemetry.AiJobs.complete db acc job callId charged (encodeRecord (call.toRecord rt)) with
    | .ok acc' => (acc', .returned call)
    | .error _ => giveUp db acc job callId ApiFailure.other.code

end RiskOps.Triage
