import RiskOps.Triage.Api
import RiskOps.Telemetry.AiJobsOpen
import RiskOps.Telemetry.AiJobsPaid

/-!
# RiskOps.Triage.Settlement — when a priced answer is settled

**A charge is known and the answer is there: is it recorded?** After a reservation
`APITriage.triage` validates the text of the payload and records the call. Two things go wrong on
the way. `validate` catches `ValueError` and `TypeError`, but a text nested too deeply raises
`RecursionError`. And `Ledger.complete` encodes the record, which holds the proposal as the model
wrote it: a lone surrogate in one of its strings cannot be encoded. Everything else is settled, as
a review verdict when the proposal is not supported.
-/

namespace RiskOps.Triage

open RiskOps.Lib.PyJson
open RiskOps.Lib (Str bind_eq_ok run)
open Telemetry.AiJobs (Open Op QueueRef Job World maxAmount step next open_of_permitted
  paidRun paidCopy)

/-! ### Which strings a record holds -/

/-- Every string of the proposal can be encoded. -/
def Proposal.encodable (p : Proposal) : Bool :=
  Str.encodable p.rationale && p.evidenceIds.all Str.encodable
    && p.attackTechniques.all Str.encodable && Str.encodable p.revision
    && p.claims.all fun c => c.evidenceIds.all Str.encodable

@[simp] theorem encodable_text (s : String) : (text s).encodable = true :=
  Str.encodable_ofString s

@[simp] theorem encodable_members (ms : List (String × Value)) :
    (members ms).encodable = ms.all fun m => m.2.encodable := by
  rw [members, Value.encodable, encodableMembers_eq_all, List.all_map]
  refine congrArg ms.all (funext fun m => ?_)
  simp [Str.encodable_ofString]

@[simp] theorem encodable_strings (ss : List Str) :
    (strings ss).encodable = ss.all Str.encodable := by
  rw [strings, Value.encodable, encodableItems_eq_all, List.all_map]
  rfl

@[simp] theorem encodable_arr (vs : List Value) :
    (Value.arr vs).encodable = vs.all Value.encodable := by
  rw [Value.encodable, encodableItems_eq_all]

@[simp] theorem encodable_str (s : Str) : (Value.str s).encodable = Str.encodable s := rfl

@[simp] theorem encodable_int (n : Int) : (Value.int n).encodable = true := rfl

@[simp] theorem encodable_bool (b : Bool) : (Value.bool b).encodable = true := rfl

@[simp] theorem encodable_float (l : Str) : (Value.float l).encodable = Str.encodable l := rfl

theorem Claim.encodable_toValue (c : Claim) :
    c.toValue.encodable = c.evidenceIds.all Str.encodable := by
  simp [Claim.toValue]

theorem Proposal.encodable_toValue (p : Proposal) : p.toValue.encodable = p.encodable := by
  have hclaims : (p.claims.map Claim.toValue).all Value.encodable =
      p.claims.all fun c => c.evidenceIds.all Str.encodable := by
    rw [List.all_map]
    exact congrArg p.claims.all (funext fun c => c.encodable_toValue)
  simp only [Proposal.toValue, encodable_members, List.all_cons, List.all_nil, encodable_text,
    encodable_str, encodable_strings, encodable_arr, hclaims, Proposal.encodable, Bool.true_and,
    Bool.and_true, Bool.and_assoc]

/-! ### What the validator adds -/

section Validate

variable {c : Case} {p : Proposal}

theorem Proposal.encodable_referenced (h : p.encodable = true) :
    ∀ i ∈ p.referenced, Str.encodable i = true := by
  simp only [Proposal.encodable, Bool.and_eq_true, List.all_eq_true] at h
  intro i hi
  rcases List.mem_append.mp hi with hi | hi
  · exact h.1.1.1.2 i hi
  · obtain ⟨claim, hclaim, hi⟩ := List.mem_flatMap.mp hi
    exact h.2 claim hclaim i hi

theorem mem_sortedSet {ids : List Str} {i : Str} : i ∈ sortedSet ids ↔ i ∈ ids := by
  rw [sortedSet, List.mem_insertionSort, List.mem_dedup]

theorem encodable_claimReasons {rows : List Evidence} {index : Nat} {claim : Claim}
    (h : claim.evidenceIds.all Str.encodable = true) :
    ∀ r ∈ claimReasons rows index claim, r.toValue.encodable = true := by
  intro r hr
  unfold claimReasons at hr
  split at hr
  · cases hr
  · split at hr
    · cases hr
    · obtain rfl := List.mem_singleton.mp hr
      simpa [Reason.toValue] using h

/-- The reasons name only ids of the proposal. -/
theorem encodable_proposalReasons (h : p.encodable = true) :
    ∀ r ∈ proposalReasons c p, r.toValue.encodable = true := by
  have hreferenced := Proposal.encodable_referenced h
  intro r hr
  simp only [proposalReasons, List.mem_append] at hr
  rcases hr with ((((hr | hr) | hr) | hr) | hr) | hr
  · split at hr
    · cases hr
    · obtain rfl := List.mem_singleton.mp hr
      simp only [Reason.toValue, encodable_members, List.all_cons, List.all_nil, encodable_text,
        encodable_strings, Bool.true_and, Bool.and_true, List.all_eq_true]
      intro i hi
      exact hreferenced i (List.mem_of_mem_filter (Iff.mp mem_sortedSet hi))
  · split at hr
    · obtain rfl := List.mem_singleton.mp hr
      simp [Reason.toValue]
    · cases hr
  · split at hr
    · obtain rfl := List.mem_singleton.mp hr
      simp [Reason.toValue]
    · cases hr
  · split at hr
    · obtain rfl := List.mem_singleton.mp hr
      simp [Reason.toValue]
    · cases hr
  · obtain ⟨⟨claim, index⟩, hclaim, hr⟩ := List.mem_flatMap.mp hr
    refine encodable_claimReasons ?_ r hr
    simp only [Proposal.encodable, Bool.and_eq_true, List.all_eq_true] at h
    have hmem : claim ∈ p.claims := (List.mem_zipIdx hclaim).2.2 ▸ List.getElem_mem _
    simpa only [List.all_eq_true] using h.2 claim hmem
  · split at hr
    · simp only [dismissalReasons, List.mem_append] at hr
      rcases hr with (hr | hr) | hr
      · split at hr
        · obtain rfl := List.mem_singleton.mp hr
          simp [Reason.toValue]
        · cases hr
      · split at hr
        · obtain rfl := List.mem_singleton.mp hr
          simp [Reason.toValue]
        · cases hr
      · split at hr
        · cases hr
        · obtain rfl := List.mem_singleton.mp hr
          simp [Reason.toValue]
    · split at hr
      · obtain rfl := List.mem_singleton.mp hr
        simp [Reason.toValue]
      · cases hr

/-- The part of a record that the validator writes. -/
def Judged.encodable (out : Published × Details) : Bool :=
  Str.encodable out.1.rationale && out.1.evidenceIds.all Str.encodable
    && out.1.attackTechniques.all Str.encodable && out.2.toValue.encodable

theorem Details.encodable_toValue (d : Details) :
    d.toValue.encodable = (Str.encodable d.dossierSha && Str.encodable d.revision
      && d.reasons.all (fun r => r.toValue.encodable) && d.proposal.all Proposal.encodable) := by
  have hproposal : ((d.proposal.map Proposal.toValue).getD .null).encodable =
      d.proposal.all Proposal.encodable := by
    cases d.proposal with
    | none => rfl
    | some p => exact p.encodable_toValue
  simp only [Details.toValue, encodable_members, List.all_cons, List.all_nil, encodable_int,
    encodable_str, encodable_text, encodable_arr, hproposal, encodable_bool, List.all_map,
    Bool.true_and, Bool.and_true, Bool.and_assoc, Function.comp_def]

/-- **A judged answer can be encoded exactly when its proposal can**: the rest of it is the
validator's. -/
theorem encodable_judge {digest : Case → Str} (hdigest : Str.encodable (digest c) = true)
    (hrevision : Str.encodable c.revision = true) (read : Option Proposal ⊕ Unit) :
    Judged.encodable (judge digest c read) = true ↔
      ∀ p, read = .inl (some p) → p.encodable = true := by
  have hnil : ∀ reasons : List Reason, (∀ r ∈ reasons, r.toValue.encodable = true) →
      Judged.encodable (reviewVerdict reasons, ⟨digest c, c.revision, reasons, none⟩) = true := by
    intro reasons hreasons
    simp only [Judged.encodable, reviewVerdict, Details.encodable_toValue, Str.encodable_ofString,
      hdigest, hrevision, List.all_nil, Option.all_none, Bool.and_true, Bool.true_and,
      List.all_eq_true]
    exact hreasons
  match read with
  | .inr () =>
    refine iff_of_true (hnil [.invalidJson] ?_) (fun p hp => by cases hp)
    simp [Reason.toValue]
  | .inl none =>
    refine iff_of_true (hnil [.invalidSchema] ?_) (fun p hp => by cases hp)
    simp [Reason.toValue]
  | .inl (some p) =>
    have hiff : (∀ q, (Sum.inl (some p) : Option Proposal ⊕ Unit) = .inl (some q) →
        q.encodable = true) ↔ p.encodable = true := by
      constructor
      · intro h
        exact h p rfl
      · rintro h q hq
        cases hq
        exact h
    rw [hiff]
    simp only [judge, Judged.encodable, Details.encodable_toValue, hdigest, hrevision,
      Option.all_some, Bool.true_and, Bool.and_eq_true]
    constructor
    · intro h
      exact h.2.2
    · intro h
      have hreasons : (proposalReasons c p).all (fun r => r.toValue.encodable) = true :=
        List.all_eq_true.mpr (encodable_proposalReasons h)
      refine ⟨?_, hreasons, h⟩
      split
      · have htechniques : p.attackTechniques.all Str.encodable = true := by
          simp only [Proposal.encodable, Bool.and_eq_true] at h
          exact h.1.1.2
        refine ⟨⟨Str.encodable_ofString _, ?_⟩, htechniques⟩
        exact List.all_eq_true.mpr fun i hi =>
          Proposal.encodable_referenced h i (mem_sortedSet.mp hi)
      · exact ⟨⟨Str.encodable_ofString _, rfl⟩, rfl⟩

end Validate

/-! ### What `normalize` returns -/

variable {s : Str}

theorem encodable_dateSuffix {isDecimal : Nat → Bool}
    (hscalar : ∀ c, isDecimal c = true → Str.isSurrogate c = false)
    (h : isDateSuffix isDecimal s = true) : Str.encodable s = true := by
  have hdash : Str.isSurrogate 45 = false := rfl
  unfold isDateSuffix at h
  split at h
  · simp only [List.all_cons, List.all_nil, Bool.and_true, Bool.and_eq_true] at h
    simp [Str.encodable, hdash, hscalar _ h.1, hscalar _ h.2.1, hscalar _ h.2.2.1,
      hscalar _ h.2.2.2.1, hscalar _ h.2.2.2.2.1, hscalar _ h.2.2.2.2.2.1,
      hscalar _ h.2.2.2.2.2.2.1, hscalar _ h.2.2.2.2.2.2.2]
  · simp only [List.all_cons, List.all_nil, Bool.and_true, Bool.and_eq_true] at h
    simp [Str.encodable, hdash, hscalar _ h.1, hscalar _ h.2.1, hscalar _ h.2.2.1,
      hscalar _ h.2.2.2.1, hscalar _ h.2.2.2.2.1, hscalar _ h.2.2.2.2.2.1,
      hscalar _ h.2.2.2.2.2.2.1, hscalar _ h.2.2.2.2.2.2.2]
  · cases h

theorem encodable_served (rt : Runtime) (cfg : Config) {served : Str}
    (h : isServed rt.isDecimal cfg.model served = true) : Str.encodable served = true := by
  simp only [isServed, Bool.or_eq_true, Bool.and_eq_true, decide_eq_true_eq] at h
  rcases h with rfl | ⟨htake, hsuffix⟩
  · exact cfg.model_text
  · rw [← List.take_append_drop cfg.model.length served, Str.encodable_append, htake,
      cfg.model_text, encodable_dateSuffix rt.isDecimal_scalar hsuffix]
    rfl

theorem encodable_stop (h : isStop s = true) : Str.encodable s = true := by
  simp only [isStop, Bool.and_eq_true, List.all_eq_true, Bool.or_eq_true, decide_eq_true_eq] at h
  refine Str.encodable_of_lt fun c hc => ?_
  rcases h.2 c hc with h | h
  · omega
  · omega

theorem normalized_ok {served : Str} {stop : Option Value} {text : Value} {accepted : Bool}
    {inputs : Int} {outputs cached written reasoning : Nat} {n : Normalized}
    (h : normalized served stop text accepted inputs outputs cached written reasoning = .ok n) :
    n.served = served ∧ isStop n.stop = true := by
  unfold normalized at h
  split at h
  · cases h
  · split at h
    · split at h
      · rename_i hstop
        obtain rfl := Except.ok.inj h
        exact ⟨rfl, hstop⟩
      · cases h
    · cases h

variable {rt : Runtime} {cfg : Config}

/-- What was served and why it stopped can be encoded. -/
theorem normalize_encodable {payload : Value} {n : Normalized}
    (h : normalize rt cfg payload = .ok n) :
    Str.encodable n.served = true ∧ Str.encodable n.stop = true := by
  unfold normalize at h
  split at h
  · split at h
    · split at h
      · rename_i served _
        split at h
        · rename_i hserved
          have hlast : n.served = served ∧ isStop n.stop = true := by
            split at h
            · unfold normalizeResponses at h
              split at h
              · cases h
              · simp only [bind_eq_ok] at h
                obtain ⟨_, -, _, -, _, -, _, -, _, -, _, -, _, -, _, -, _, -, _, -, _, -, h⟩ := h
                exact normalized_ok h
            · unfold normalizeChat at h
              obtain ⟨_, -, h⟩ := bind_eq_ok.mp h
              obtain ⟨_, -, h⟩ := bind_eq_ok.mp h
              split at h
              · simp only [bind_eq_ok] at h
                obtain ⟨_, -, _, -, _, -, _, -, _, -, _, -, _, -, _, -, h⟩ := h
                exact normalized_ok h
              · simp only [bind_eq_ok] at h
                obtain ⟨_, -, _, -, _, -, _, -, _, -, _, -, _, -, _, -, _, -, h⟩ := h
                exact normalized_ok h
          exact ⟨hlast.1 ▸ encodable_served rt cfg hserved, encodable_stop hlast.2⟩
        · cases h
      · cases h
    · cases h
  · cases h

/-! ### The charge -/

/-- The counts are within the configured limits. -/
structure Usage.Within (u : Usage) (cfg : Config) : Prop where
  input : u.inputTokens ≤ cfg.maxInputTokens
  cacheRead : u.cacheRead ≤ cfg.maxInputTokens
  cacheCreation : u.cacheCreation ≤ cfg.maxInputTokens
  output : u.outputTokens ≤ cfg.maxOutputTokens

theorem decimal_range {x most : ℚ} (h : 0 ≤ x ∧ x ≤ most) :
    0 ≤ decimal x ∧ decimal x ≤ 2 * most := by
  obtain ⟨hnonneg, hle⟩ := @Lib.Decimal.roundTo_range 28 (-1000026) x h.1
  exact ⟨hnonneg, hle.trans (by linarith)⟩

theorem tokens_price {tokens most : Nat} {price : ℚ} (htokens : tokens ≤ most)
    (hprice : 0 ≤ price ∧ price ≤ 1000) :
    0 ≤ decimal ((tokens : ℚ) * price) ∧ decimal ((tokens : ℚ) * price) ≤ 2 * (most * 1000) := by
  have htokens' : (tokens : ℚ) ≤ most := by exact_mod_cast htokens
  have hnonneg : (0 : ℚ) ≤ tokens := Nat.cast_nonneg tokens
  exact decimal_range ⟨mul_nonneg hnonneg hprice.1,
    mul_le_mul htokens' hprice.2 hprice.1 (hnonneg.trans htokens')⟩

/-- **A charge fits its column.** Each of the six operations after the products at most doubles. -/
theorem charge_range {u : Usage} (h : u.Within cfg) :
    0 ≤ charge cfg.prices u ∧ charge cfg.prices u ≤ maxAmount := by
  have hin : (cfg.maxInputTokens : ℚ) ≤ 131072 := by exact_mod_cast cfg.maxInput_le
  have hout : (cfg.maxOutputTokens : ℚ) ≤ 32768 := by exact_mod_cast cfg.maxOutput_le
  have h₁ := tokens_price h.input ⟨cfg.prices.input_range.1.le, cfg.prices.input_range.2⟩
  have h₂ := tokens_price h.output ⟨cfg.prices.output_range.1.le, cfg.prices.output_range.2⟩
  have h₃ := tokens_price h.cacheRead cfg.prices.cacheRead_range
  have h₄ := tokens_price h.cacheCreation cfg.prices.cacheWrite_range
  have hfresh := decimal_range ⟨add_nonneg h₁.1 h₂.1, add_le_add h₁.2 h₂.2⟩
  have hread := decimal_range ⟨add_nonneg hfresh.1 h₃.1, add_le_add hfresh.2 h₃.2⟩
  have hsum := decimal_range ⟨add_nonneg hread.1 h₄.1, add_le_add hread.2 h₄.2⟩
  have husd := decimal_range ⟨div_nonneg hsum.1 (by norm_num : (0 : ℚ) ≤ 1000000),
    div_le_div_of_nonneg_right hsum.2 (by norm_num : (0 : ℚ) ≤ 1000000)⟩
  obtain ⟨hnonneg, hle⟩ := decimal_range ⟨mul_nonneg husd.1 (by norm_num : (0 : ℚ) ≤ 1000000),
    mul_le_mul_of_nonneg_right husd.2 (by norm_num : (0 : ℚ) ≤ 1000000)⟩
  unfold charge microUsd
  dsimp only at hnonneg hle ⊢
  constructor
  · have hceil := le_trans hnonneg Rat.le_ceil
    exact_mod_cast hceil
  · rw [Rat.ceil_le_iff, maxAmount]
    push_cast
    linarith

/-! ### The record -/

theorem isText_encodable (h : isText s = true) : Str.encodable s = true := by
  simp only [isText, boundedText, Bool.and_eq_true] at h
  exact h.2

variable {c : Case}

theorem Case.accepts_text (h : c.accepts = true) :
    Str.encodable c.incidentId = true ∧ Str.encodable c.revision = true := by
  simp only [Case.accepts, Bool.and_eq_true] at h
  obtain ⟨⟨⟨⟨⟨⟨⟨⟨hid, hrevision⟩, -⟩, -⟩, -⟩, -⟩, -⟩, -⟩, -⟩ := h
  exact ⟨isText_encodable hid, isText_encodable hrevision⟩

/-- **A record can be encoded exactly when the judged answer in it can.** -/
theorem encodable_toRecord {call : TriageCall} (hid : Str.encodable call.incidentId = true)
    (hsha : Str.encodable call.promptSha = true) (hmodel : Str.encodable call.model = true)
    (hstop : Str.encodable call.stopReason = true) (hconfig : call.config.encodable = true) :
    (call.toRecord rt).encodable = Judged.encodable (call.published, call.details) := by
  simp only [TriageCall.toRecord, encodable_members, List.all_cons, List.all_nil, encodable_str,
    encodable_text, encodable_strings, encodable_int, encodable_float, rt.repr_text, hid, hsha,
    hmodel, hstop, hconfig, Judged.encodable, Bool.true_and, Bool.and_true, Bool.and_assoc]

/-- What the text of a payload is read as: `none` when reading it raises `RecursionError`. -/
def readText (limit : Nat) (text : Str) : Option (Option Proposal ⊕ Unit) :=
  match loads limit text with
  | .error .recursion => none
  | .error .value => some (.inr ())
  | .ok v => some (.inl (readProposal v))

theorem validate_eq {limit : Nat} {digest : Case → Str} {text : Str} (h : c.accepts = true) :
    validate limit digest text c = match readText limit text with
      | none => .error .recursion
      | some read => .ok (judge digest c read) := by
  unfold validate readText
  rw [h]
  simp only [Bool.not_true, Bool.false_eq_true, if_false]
  cases loads limit text with
  | error e =>
    cases e with
    | recursion => rfl
    | value => rfl
  | ok v => rfl

/-- The call of a judged answer. -/
def judgedCall (rt : Runtime) (cfg : Config) (c : Case) (n : Normalized) (latency : ℚ)
    (out : Published × Details) : TriageCall where
  incidentId := c.incidentId
  promptSha := rt.fingerprint cfg c
  published := out.1
  model := n.served
  stopReason := n.stop
  usage := n.usage
  usd := charge cfg.prices n.usage / 1000000
  latencySeconds := latency
  config := cfg.dump
  validation := (out.2.reasons.head?.map Reason.code).getD "valid"
  details := out.2

theorem answer_eq {rt : Runtime} {limit : Nat} {cfg : Config} {c : Case} {payload : Value}
    {latency : ℚ} {n : Normalized} (hcase : c.accepts = true)
    (hn : normalize rt cfg payload = .ok n) :
    answer rt limit cfg c payload latency = match readText limit n.text with
      | none => .error .other
      | some read => .ok (charge cfg.prices n.usage,
          judgedCall rt cfg c n latency (judge rt.digest c read)) := by
  unfold answer
  rw [hn]
  simp only [bind, Except.bind]
  rw [validate_eq hcase]
  cases readText limit n.text with
  | none => rfl
  | some read => rfl

/-! ### Settling -/

/-- The text can be kept: it is not nested too deeply for the decoder, and when it meets the schema
of a proposal every string of the proposal can be encoded. -/
def Keepable (limit : Nat) (text : Str) : Prop :=
  loads limit text ≠ .error .recursion ∧
    ∀ v p, loads limit text = .ok v → readProposal v = some p → p.encodable = true

/-- The text is a proposal that the dossier supports. -/
def Supported (limit : Nat) (c : Case) (text : Str) : Prop :=
  ∃ v p, loads limit text = .ok v ∧ readProposal v = some p ∧ proposalReasons c p = []

/-- The call is recorded with its charge and returned, and abstains unless the text is a supported
proposal. -/
def Settled (rt : Runtime) (limit : Nat) (cfg : Config) (w : World) (q : QueueRef) (job : Job)
    (callId : String) (c : Case) (payload : Value) (latency : ℚ) (n : Normalized) : Prop :=
  ∃ acc call row, settle rt limit cfg (w.queue q) w.account job callId c payload latency =
      (acc, .returned call) ∧
    acc.calls.find? callId = some row ∧ row.charged = some (charge cfg.prices n.usage) ∧
    row.record = encodeRecord (call.toRecord rt) ∧
    (¬ Supported limit c n.text → call.published.verdict = .abstain)

theorem keepable_iff {limit : Nat} {text : Str} :
    Keepable limit text ↔ ∃ read, readText limit text = some read ∧
      ∀ p, read = .inl (some p) → p.encodable = true := by
  unfold Keepable readText
  cases loads limit text with
  | error e =>
    cases e with
    | recursion => simp
    | value => simp
  | ok v =>
    simp only [ne_eq, reduceCtorEq, not_false_eq_true, true_and, Except.ok.injEq,
      Option.some.injEq, exists_eq_left', Sum.inl.injEq]
    constructor
    · intro h p hp
      exact h v p rfl hp
    · rintro h _ p rfl hp
      exact h p hp

theorem judge_abstains {limit : Nat} {digest : Case → Str} {text : Str}
    {read : Option Proposal ⊕ Unit} (hread : readText limit text = some read)
    (h : ¬ Supported limit c text) : (judge digest c read).1.verdict = .abstain := by
  match read with
  | .inr () => rfl
  | .inl none => rfl
  | .inl (some p) =>
    have hv : ∃ v, loads limit text = .ok v ∧ readProposal v = some p := by
      unfold readText at hread
      split at hread
      · cases hread
      · cases hread
      · rename_i v hv
        exact ⟨v, hv, Sum.inl.inj (Option.some.inj hread)⟩
    obtain ⟨v, hv, hp⟩ := hv
    have hreasons : (proposalReasons c p).isEmpty = false := by
      cases hempty : (proposalReasons c p).isEmpty with
      | false => rfl
      | true => exact absurd ⟨v, p, hv, hp, List.isEmpty_iff.mp hempty⟩ h
    simp only [judge, hreasons]
    rfl

/-- **A priced answer to an open reservation is settled exactly when its text can be kept.** -/
theorem settled_iff_of_open {limit : Nat} {w : World} {q : QueueRef} {job : Job} {callId : String}
    {payload : Value} {latency : ℚ} {n : Normalized} (hopen : Open q job callId w)
    (hcase : c.accepts = true) (hn : normalize rt cfg payload = .ok n)
    (hlimits : n.usage.Within cfg) :
    Settled rt limit cfg w q job callId c payload latency n ↔ Keepable limit n.text := by
  obtain ⟨hserved, hstop⟩ := normalize_encodable hn
  obtain ⟨hid, hrevision⟩ := c.accepts_text hcase
  rw [keepable_iff]
  have hanswer := @answer_eq rt limit cfg c payload latency n hcase hn
  cases hread : readText limit n.text with
  | none =>
    rw [hread] at hanswer
    refine iff_of_false ?_ (by simp)
    rintro ⟨acc, call, row, hsettle, -⟩
    unfold settle at hsettle
    rw [hanswer] at hsettle
    dsimp only [giveUp] at hsettle
    split at hsettle
    · cases (Prod.mk.inj hsettle).2
    · cases (Prod.mk.inj hsettle).2
  | some read =>
    rw [hread] at hanswer
    dsimp only at hanswer
    have hrecord : ((judgedCall rt cfg c n latency
        (judge rt.digest c read)).toRecord rt).encodable =
        Judged.encodable (judge rt.digest c read) :=
      encodable_toRecord hid (rt.fingerprint_text cfg c) hserved hstop cfg.dump_text
    have hencode : (encodeRecord ((judgedCall rt cfg c n latency
        (judge rt.digest c read)).toRecord rt)).isSome =
        Judged.encodable (judge rt.digest c read) := by
      rw [encodeRecord, Str.encode_isSome, encodable_dumps, encodable_sortKeys, hrecord]
    have hjudge := encodable_judge (rt.digest_text c) hrevision read
    simp only [Option.some.injEq, exists_eq_left']
    rw [← hjudge, ← hencode]
    cases hsome : encodeRecord ((judgedCall rt cfg c n latency
        (judge rt.digest c read)).toRecord rt) with
    | none =>
      refine iff_of_false ?_ (by simp)
      rintro ⟨acc, call, row, hsettle, -⟩
      obtain ⟨e, he⟩ := Telemetry.AiJobs.complete_none (w.queue q) w.account job callId
        (charge cfg.prices n.usage)
      unfold settle at hsettle
      rw [hanswer] at hsettle
      simp only [hsome, he, giveUp] at hsettle
      split at hsettle
      · cases (Prod.mk.inj hsettle).2
      · cases (Prod.mk.inj hsettle).2
    | some record =>
      refine iff_of_true ?_ rfl
      obtain ⟨acc, row, hcomplete, hfind, hcharged, hrow⟩ :=
        @Open.complete q job callId w hopen _ (charge_range hlimits) record
      refine ⟨acc, _, row, ?_, hfind, hcharged, hrow.trans hsome.symm, judge_abstains hread⟩
      unfold settle
      rw [hanswer]
      simp only [hsome, hcomplete]

/-- **A priced answer is settled exactly when its text can be kept**, whatever the workers do
between the reservation and the answer, short of completing the same call. -/
theorem priced_answer_settled_iff {callHash : String → String → String}
    {attemptPath : QueueRef → String → Nat → String} {utcDay : ℚ → String} {rt : Runtime}
    {limit : Nat} {cfg : Config} {w₀ w₁ : World} {q : QueueRef} {job : Job} {callId : String}
    {amount : Int} {now ownerNow : ℚ} {lost : Bool}
    (hreserve : step callHash attemptPath utcDay w₀
      (.reserve q job callId amount now ownerNow lost) = .ok (w₁, .permitted))
    {ops : List Op} (hops : ∀ op ∈ ops, op.completes callId = false) {c : Case} {payload : Value}
    {latency : ℚ} {n : Normalized} (hcase : c.accepts = true)
    (hn : normalize rt cfg payload = .ok n) (hlimits : n.usage.Within cfg) :
    Settled rt limit cfg (run (next callHash attemptPath utcDay) w₁ ops) q job callId c payload
      latency n ↔ Keepable limit n.text :=
  settled_iff_of_open (Open.run callHash attemptPath utcDay (open_of_permitted hreserve) hops)
    hcase hn hlimits

/-! ### An answer that is settled and one that is lost -/

/-- A failed login is the whole evidence. -/
def loginCase : Case where
  incidentId := Str.ofString "i"
  revision := Str.ofString "r"
  kind := .ssh
  evidenceStatus := .complete
  evidence := [.observed (.auth ⟨Str.ofString "e", .authFailure, 0, Str.ofString "203.0.113.9",
    Str.ofString "h", Str.ofString "root"⟩)]

/-- One dollar for a million tokens. -/
def chatConfig : Config where
  apiFormat := .openaiChat
  model := Str.ofString "m"
  maxInputTokens := 1000
  maxOutputTokens := 1000
  prices := ⟨1, 1, 0, 0, by norm_num, by norm_num, by norm_num, by norm_num⟩
  dump := .obj []
  model_text := Str.encodable_ofString _
  maxInput_le := by decide
  maxOutput_le := by decide
  dump_text := rfl

def chatRuntime : Runtime where
  isDecimal := isDigit
  isZero := fun l => l.all fun c => !(49 ≤ c && c ≤ 57)
  repr := fun x => Str.ofString (if x.den = 1 then toString x.num ++ ".0" else "2e-06")
  digest := fun _ => Str.ofString "0000000000000000000000000000000000000000000000000000000000000000"
  fingerprint := fun _ _ =>
    Str.ofString "0000000000000000000000000000000000000000000000000000000000000000"
  isDecimal_scalar := by
    intro c hc
    simp only [isDigit, Bool.and_eq_true, decide_eq_true_eq] at hc
    simp only [Str.isSurrogate, Bool.and_eq_false_iff, decide_eq_false_iff_not]
    omega
  repr_text := fun _ => Str.encodable_ofString _
  digest_text := fun _ => Str.encodable_ofString _
  fingerprint_text := fun _ _ => Str.encodable_ofString _

def chatPayload (content : Str) : Value :=
  members [("model", text "m"),
    ("usage", members [("prompt_tokens", .int 1), ("completion_tokens", .int 1)]),
    ("choices", .arr [members [("finish_reason", text "stop"),
      ("message", members [("content", .str content)])]])]

/-- An abstaining proposal whose rationale is written `rationale` in the JSON text. -/
def proposalText (rationale : String) : Str :=
  (dumps (Proposal.toValue
    ⟨.abstain, .low, Str.ofString "?", [], [], Str.ofString "r", .none, []⟩)).flatMap
      fun c => if c = 63 then Str.ofString rationale else [c]

def chatNormalized (content : Str) : Normalized :=
  ⟨Str.ofString "m", Str.ofString "stop", content, ⟨1, 1, 0, 0, 0⟩⟩

theorem chatNormalized_within (content : Str) : (chatNormalized content).usage.Within chatConfig :=
  ⟨(by decide : 1 ≤ 1000), Nat.zero_le _, Nat.zero_le _, (by decide : 1 ≤ 1000)⟩

def chatHash (run sha : String) : String := run ++ ":" ++ sha

def chatPath (_ : QueueRef) (id : String) (number : Nat) : String := id ++ "/" ++ toString number

def chatDay (_ : ℚ) : String := "day"

/-- The job is claimed. -/
def claimed : World := run (next chatHash chatPath chatDay) .init (paidRun.take 3)

theorem claimed_reserves : ∃ w, step chatHash chatPath chatDay claimed
    (.reserve .ssh paidCopy "a/1:s" 40 10 10 false) = .ok (w, .permitted) := by
  have hreply : (step chatHash chatPath chatDay claimed
      (.reserve .ssh paidCopy "a/1:s" 40 10 10 false)).toOption.map Prod.snd = some .permitted := by
    decide +kernel
  revert hreply
  cases step chatHash chatPath chatDay claimed
      (.reserve .ssh paidCopy "a/1:s" 40 10 10 false) with
  | error e =>
    intro h
    cases h
  | ok out =>
    obtain ⟨w, reply⟩ := out
    intro h
    have hpermitted : reply = .permitted := Option.some.inj h
    exact ⟨w, by rw [hpermitted]⟩

/-- The proposal a text is read as, and whether it can be encoded. -/
theorem proposalText_read :
    ((loads 1000 (proposalText "x")).toOption.bind readProposal).map Proposal.encodable =
      some true ∧
    ((loads 1000 (proposalText "\\ud800")).toOption.bind readProposal).map Proposal.encodable =
      some false := by
  constructor
  · decide +kernel
  · decide +kernel

theorem proposalText_keepable : Keepable 1000 (proposalText "x") := by
  have hread := proposalText_read.1
  unfold Keepable
  revert hread
  cases loads 1000 (proposalText "x") with
  | error e =>
    intro h
    cases h
  | ok v =>
    intro h
    refine ⟨by simp, fun v' p hv hp => ?_⟩
    obtain rfl := Except.ok.inj hv
    simpa [Except.toOption, hp] using h

theorem proposalText_not_keepable : ¬ Keepable 1000 (proposalText "\\ud800") := by
  have hread := proposalText_read.2
  unfold Keepable
  revert hread
  cases loads 1000 (proposalText "\\ud800") with
  | error e =>
    intro h
    cases h
  | ok v =>
    rintro h ⟨-, hkeep⟩
    cases hp : readProposal v with
    | none => simp [Except.toOption, hp] at h
    | some p => simp [Except.toOption, hp, hkeep v p rfl hp] at h

/-- A plain answer to a call of `claimed` is settled. -/
theorem plain_answer_settled : ∃ w, Settled chatRuntime 1000 chatConfig w .ssh paidCopy "a/1:s"
    loginCase (chatPayload (proposalText "x")) 1 (chatNormalized (proposalText "x")) := by
  obtain ⟨w, hreserve⟩ := claimed_reserves
  refine ⟨run (next chatHash chatPath chatDay) w [.setBudget 200 100],
    (priced_answer_settled_iff hreserve ?_ (by decide +kernel) (by decide +kernel)
      (chatNormalized_within _)).mpr proposalText_keepable⟩
  intro op hop
  obtain rfl := List.mem_singleton.mp hop
  rfl

/-- An answer whose rationale escapes a lone surrogate is lost, though `normalize` accepts the
payload and the reservation has just been made. -/
theorem surrogate_answer_lost : ∃ w, step chatHash chatPath chatDay claimed
      (.reserve .ssh paidCopy "a/1:s" 40 10 10 false) = .ok (w, .permitted) ∧
    loginCase.accepts = true ∧
    normalize chatRuntime chatConfig (chatPayload (proposalText "\\ud800")) =
      .ok (chatNormalized (proposalText "\\ud800")) ∧
    (chatNormalized (proposalText "\\ud800")).usage.Within chatConfig ∧
    ¬ Settled chatRuntime 1000 chatConfig w .ssh paidCopy "a/1:s" loginCase
      (chatPayload (proposalText "\\ud800")) 1 (chatNormalized (proposalText "\\ud800")) := by
  obtain ⟨w, hreserve⟩ := claimed_reserves
  have hcase : loginCase.accepts = true := by decide
  have hn : normalize chatRuntime chatConfig (chatPayload (proposalText "\\ud800")) =
      .ok (chatNormalized (proposalText "\\ud800")) := by decide +kernel
  refine ⟨w, hreserve, hcase, hn, chatNormalized_within _, fun h => ?_⟩
  exact proposalText_not_keepable
    ((settled_iff_of_open (open_of_permitted hreserve) hcase hn (chatNormalized_within _)).mp h)

end RiskOps.Triage
