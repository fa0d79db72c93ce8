import RiskOps.Joint.Reader
import RiskOps.Lib.PyJsonCanonical

/-!
# RiskOps.Joint.Scope — the scope of a joint store and its text

Model of the constructors of `joint_evidence` (`NetworkBinding`, `AssetMapping`) and of `CaseScope`
and `StoreLimits` in `joint_case_contract`, with the text they are stored as. **What is built is
sorted**: a `NetworkBinding`, an `AssetMapping` and a `CaseScope` hold their tuples in order, each
item once, and the constructors here take the tuples as they come. A text is decoded, built again by
the same constructors, and refused unless it is the text of what was built.

A text with half of a surrogate pair in it passes none of the checks, so the constructors take
strings without.
-/

namespace RiskOps.JointEvidence

open RiskOps.Lib
open RiskOps.Lib.PyJson (canonicalLoads dumpsAscii sortKeys)

/-- What a failure raises: its code. -/
def orRefuse {α : Type} (code : String) : Option α → Except String α
  | some a => .ok a
  | none => .error code

/-- A tuple whose items are read one by one, the first failure first. -/
def readAll {α : Type} (read : String → Except String α) :
    (values : List String) → Except String { items : List α // items.length = values.length }
  | [] => .ok ⟨[], rfl⟩
  | value :: values =>
    match read value with
    | .error code => .error code
    | .ok item =>
      match readAll read values with
      | .error code => .error code
      | .ok items => .ok ⟨item :: items.val, congrArg (· + 1) items.property⟩

/-! ### Sorting -/

/-- `tuple(sorted(values, key=key))`. -/
def sortBy {α : Type} (key : α → String) (values : List α) : List α :=
  values.insertionSort fun a b => key a ≤ key b

section Sorting

variable {α : Type} {key : α → String} {values values' : List α}

theorem perm_sortBy (key : α → String) (values : List α) : (sortBy key values).Perm values :=
  List.perm_insertionSort _ _

theorem length_sortBy : (sortBy key values).length = values.length :=
  (perm_sortBy key values).length_eq

theorem pairwise_sortBy (key : α → String) (values : List α) :
    (sortBy key values).Pairwise fun a b => key a ≤ key b :=
  haveI : Std.Total fun a b : α => key a ≤ key b := ⟨fun a b => le_total (key a) (key b)⟩
  haveI : IsTrans α fun a b : α => key a ≤ key b := ⟨fun _ _ _ => le_trans⟩
  List.pairwise_insertionSort _ _

/-- With distinct keys the order they come in does not matter. -/
theorem sortBy_perm (hkeys : (values.map key).Nodup) (h : values.Perm values') :
    sortBy key values = sortBy key values' := by
  refine List.Perm.eq_of_pairwise (fun a b ha hb hab hba => ?_) (pairwise_sortBy key values)
    (pairwise_sortBy key values')
    (((perm_sortBy key values).trans h).trans (perm_sortBy key values').symm)
  have ha' : a ∈ values := (perm_sortBy key values).mem_iff.mp ha
  have hb' : b ∈ values := h.mem_iff.mpr ((perm_sortBy key values').mem_iff.mp hb)
  exact List.inj_on_of_nodup_map hkeys ha' hb' (le_antisymm hab hba)

theorem sortBy_eq_self (h : sortedSet (values.map key) = values.map key) :
    sortBy key values = values := by
  have hpairwise : (values.map key).Pairwise (· ≤ ·) := h ▸ pairwise_sortedSet _
  exact List.Pairwise.insertionSort_eq (List.pairwise_map.mp hpairwise)

theorem nodup_of_sorted (h : sortedSet (values.map key) = values.map key) :
    (values.map key).Nodup :=
  h ▸ nodup_sortedSet _

/-- What is sorted is a sorted set. -/
theorem sortedSet_sortBy (hkeys : (values.map key).Nodup) :
    sortedSet ((sortBy key values).map key) = (sortBy key values).map key :=
  sortedSet_eq_self (List.pairwise_map.mpr (pairwise_sortBy key values))
    (((perm_sortBy key values).map key).nodup_iff.mpr hkeys)

end Sorting

/-- The texts of checked items. -/
def texts {p : String → Bool} (items : List (Checked p)) : List String := items.map fun x => x.val

/-- Checked items in the order of their texts. -/
def sortTexts {p : String → Bool} (items : List (Checked p)) : List (Checked p) :=
  sortBy (fun x => x.val) items

theorem length_sortTexts {p : String → Bool} (items : List (Checked p)) :
    (sortTexts items).length = items.length := length_sortBy

theorem sortedSet_sortTexts {p : String → Bool} {items : List (Checked p)}
    (h : (texts items).Nodup) : sortedSet (texts (sortTexts items)) = texts (sortTexts items) :=
  sortedSet_sortBy h

/-! ### Constructors -/

/-- `_identifier(value)`. -/
def identifier (value : String) : Except String Identifier :=
  orRefuse "invalid_joint_identity" (Checked.of? isIdentifier value)

/-- `_ip(value)`. -/
def address (value : String) : Except String Ip := orRefuse "invalid_joint_ip" (Ip.read value)

/-- `_profile(value)`. -/
def profile (value : String) : Except String Digest :=
  orRefuse "invalid_joint_profile" (Checked.of? isDigest value)

/-- `NetworkBinding(source_id, destination_ips, profile_revisions)`. -/
def NetworkBinding.init (sourceId : String) (destinationIps profileRevisions : List String) :
    Except String NetworkBinding := do
  let source ← identifier sourceId
  if hd : 1 ≤ destinationIps.length ∧ destinationIps.length ≤ 32 then
    let destinations ← readAll address destinationIps
    if hp : 1 ≤ profileRevisions.length ∧ profileRevisions.length ≤ 32 then
      let profiles ← readAll profile profileRevisions
      if hn : (texts destinations.val).Nodup ∧ (texts profiles.val).Nodup then
        return {
          sourceId := source
          destinationIps := sortTexts destinations.val
          profileRevisions := sortTexts profiles.val
          destinations_length := by rwa [length_sortTexts, destinations.property]
          profiles_length := by rwa [length_sortTexts, profiles.property]
          destinations_sorted := sortedSet_sortTexts hn.1
          profiles_sorted := sortedSet_sortTexts hn.2 }
      else throw "duplicate_joint_binding"
    else throw "invalid_joint_profiles"
  else throw "invalid_joint_destinations"

/-- `AssetMapping(asset_id, ssh_source_ids, network_bindings)`. -/
def AssetMapping.init (assetId : String) (sshSourceIds : List String)
    (networkBindings : List NetworkBinding) : Except String AssetMapping := do
  let asset ← identifier assetId
  if hs : 1 ≤ sshSourceIds.length ∧ sshSourceIds.length ≤ 16 then
    let sources ← readAll identifier sshSourceIds
    if hb : 1 ≤ networkBindings.length ∧ networkBindings.length ≤ 16 then
      if hn : (texts sources.val).Nodup ∧
          (networkBindings.map fun b => b.sourceId.val).Nodup then
        return {
          assetId := asset
          sshSourceIds := sortTexts sources.val
          networkBindings := sortBy (fun b => b.sourceId.val) networkBindings
          sources_length := by rwa [length_sortTexts, sources.property]
          bindings_length := by rwa [length_sortBy]
          sources_sorted := sortedSet_sortTexts hn.1
          bindings_sorted := sortedSet_sortBy hn.2 }
      else throw "duplicate_joint_source"
    else throw "invalid_joint_network_bindings"
  else throw "invalid_joint_ssh_sources"

theorem AssetMapping.disjoint_comm (a b : AssetMapping) : a.disjoint b = b.disjoint a := by
  rw [Bool.eq_iff_iff]
  simp only [AssetMapping.disjoint, Bool.and_eq_true, decide_eq_true_eq, List.all_eq_true,
    List.contains_eq_mem, Bool.not_eq_true', decide_eq_false_iff_not, ne_eq]
  constructor
  · rintro ⟨⟨hasset, hssh⟩, hnet⟩
    exact ⟨⟨fun h => hasset h.symm, fun s hs hs' => hssh s hs' hs⟩,
      fun x hx y hy h => hnet y hy x hx h.symm⟩
  · rintro ⟨⟨hasset, hssh⟩, hnet⟩
    exact ⟨⟨fun h => hasset h.symm, fun s hs hs' => hssh s hs' hs⟩,
      fun x hx y hy h => hnet y hy x hx h.symm⟩

theorem AssetMapping.assets_nodup {mappings : List AssetMapping}
    (h : mappings.Pairwise fun a b => a.disjoint b = true) :
    (mappings.map fun m => m.assetId.val).Nodup := by
  refine List.pairwise_map.mpr (h.imp fun {a b} hab heq => ?_)
  simp only [AssetMapping.disjoint, Bool.and_eq_true, decide_eq_true_eq] at hab
  exact hab.1.1 (Checked.ext heq)

/-- Mappings are accepted in any order, and sorted. -/
theorem validateMappings_perm {mappings mappings' : List AssetMapping}
    (h : mappings.Perm mappings') : validateMappings mappings = validateMappings mappings' := by
  have hpairwise := h.pairwise_iff (R := fun a b : AssetMapping => a.disjoint b = true)
    fun {a b} hab => (AssetMapping.disjoint_comm a b) ▸ hab
  unfold validateMappings
  rw [h.length_eq]
  by_cases hdisjoint : mappings.Pairwise fun a b => a.disjoint b = true
  · have hsort := sortBy_perm (AssetMapping.assets_nodup hdisjoint) h
    simp only [hdisjoint, hpairwise.mp hdisjoint, and_true]
    split
    · exact congrArg some hsort
    · rfl
  · rw [if_neg fun hall => hdisjoint hall.2.2,
      if_neg fun hall => hdisjoint (hpairwise.mpr hall.2.2)]

/-- What was accepted is accepted again as it is. -/
theorem validateMappings_sorted {mappings sorted : List AssetMapping}
    (h : validateMappings mappings = some sorted) : validateMappings sorted = some sorted := by
  have hperm : sorted.Perm mappings := by
    unfold validateMappings at h
    split at h
    · exact Option.some.inj h ▸ List.perm_insertionSort _ _
    · cases h
  rw [validateMappings_perm hperm, h]

/-! ### Texts -/

/-- A text as JSON. -/
def textValue (s : String) : PyJson.Value := .str (Str.ofString s)

def textsValue (ss : List String) : PyJson.Value := .arr (ss.map textValue)

/-- A member under a key. -/
def member (key : String) (v : PyJson.Value) : Str × PyJson.Value := (Str.ofString key, v)

def NetworkBinding.members (b : NetworkBinding) : List (Str × PyJson.Value) :=
  [member "source_id" (textValue b.sourceId.val),
    member "destination_ips" (textsValue (texts b.destinationIps)),
    member "profile_revisions" (textsValue (texts b.profileRevisions))]

/-- `asdict(binding)`. -/
def NetworkBinding.asDict (b : NetworkBinding) : PyJson.Value := .obj b.members

def AssetMapping.members (m : AssetMapping) : List (Str × PyJson.Value) :=
  [member "asset_id" (textValue m.assetId.val),
    member "ssh_source_ids" (textsValue (texts m.sshSourceIds)),
    member "network_bindings" (.arr (m.networkBindings.map NetworkBinding.asDict))]

/-- `asdict(mapping)`. -/
def AssetMapping.asDict (m : AssetMapping) : PyJson.Value := .obj m.members

structure CaseScope where
  mappings : List AssetMapping
  producerId : Identifier
  windowSeconds : Nat
  maxTimelineRecords : Nat
  sshCoverage : List String
  mappings_valid : validateMappings mappings = some mappings
  window_le : windowSeconds ≤ 3600
  timeline_range : 1 ≤ maxTimelineRecords ∧ maxTimelineRecords ≤ 1000
  coverage_length : sshCoverage.length ≤ 60
  coverage_codes : ∀ c ∈ sshCoverage, isCode c = true
  coverage_sorted : sortedSet sshCoverage = sshCoverage

/-- The members of `to_dict`. -/
def CaseScope.members (s : CaseScope) : List (Str × PyJson.Value) :=
  [member "version" (textValue "joint-case-scope-v1"),
    member "transformation_version" (textValue "joint-case-retained-observation-v1"),
    member "projection_version" (textValue "joint-evidence-v1"),
    member "policy_version" (textValue "explicit-asset-peer-window-v1"),
    member "reader_version" (textValue "joint-retained-reader-v1"),
    member "scope" (textValue "explicit_registered_anchors_only"),
    member "ssh_evidence_scope" (textValue "retained_incident_evidence_only"),
    member "producer_id" (textValue s.producerId.val),
    member "mappings" (.arr (s.mappings.map AssetMapping.asDict)),
    member "window_seconds" (.int s.windowSeconds),
    member "max_timeline_records" (.int s.maxTimelineRecords),
    member "ssh_coverage" (textsValue s.sshCoverage)]

/-- `to_dict()`. -/
def CaseScope.toDict (s : CaseScope) : PyJson.Value := .obj s.members

/-- `to_json()`. -/
def CaseScope.toJson (s : CaseScope) : Str := dumpsAscii (sortKeys s.toDict)

/-- `sha256`, by the digest of a text. -/
def CaseScope.sha256 (digest : Str → String) (s : CaseScope) : String := digest s.toJson

def scopeBytes : Nat := 4 * 1024 * 1024

def invalidRequest : String := "joint_invalid_request"

/-- What `CaseScope` is built from, with the defaults; `μ` is the type of a mapping. -/
structure ScopeFields (μ : Type) where
  mappings : List μ
  producerId : String
  windowSeconds : Int := 1800
  maxTimelineRecords : Int := 500
  sshCoverage : List String := []

/-- The fields of a scope with its tuples in order. -/
def CaseScope.checked (f : ScopeFields AssetMapping) : Option CaseScope :=
  match hmappings : validateMappings f.mappings with
  | none => none
  | some mappings =>
    match Checked.of? isIdentifier f.producerId with
    | none => none
    | some producer =>
      if h : (0 ≤ f.windowSeconds ∧ f.windowSeconds ≤ 3600) ∧
          (1 ≤ f.maxTimelineRecords ∧ f.maxTimelineRecords ≤ 1000) ∧
          f.sshCoverage.length ≤ 60 ∧ ∀ c ∈ f.sshCoverage, isCode c = true then
        some {
          mappings
          producerId := producer
          windowSeconds := f.windowSeconds.toNat
          maxTimelineRecords := f.maxTimelineRecords.toNat
          sshCoverage := sortedSet f.sshCoverage
          mappings_valid := validateMappings_sorted hmappings
          window_le := by omega
          timeline_range := by omega
          coverage_length := (length_sortedSet_le _).trans h.2.2.1
          coverage_codes := fun c hc => h.2.2.2 c (mem_sortedSet.mp hc)
          coverage_sorted := sortedSet_sortedSet _ }
      else none

/-- `CaseScope(mappings, producer_id, …)`. -/
def CaseScope.init (f : ScopeFields AssetMapping) : Except String CaseScope :=
  orRefuse invalidRequest
    ((CaseScope.checked f).filter fun s => s.toJson.length ≤ scopeBytes)

/-! ### Decoding -/

/-- `sys.getrecursionlimit()`. -/
def recursionLimit : Nat := 1000

/-- `_decode(raw, maximum, code, capacity)`. -/
def decode (repr : Str → Option Str) (raw : Str) (maximum : Nat) (code capacity : String) :
    Except String PyJson.Value :=
  if raw = [] then .error code
  else if maximum < raw.length then .error capacity
  else orRefuse code (canonicalLoads repr recursionLimit raw)

/-- `type(value) is str`. -/
def textOf : PyJson.Value → Option String
  | .str s => Str.encode s
  | _ => none

/-- `type(value) is list`. -/
def listOf : PyJson.Value → Option (List PyJson.Value)
  | .arr vs => some vs
  | _ => none

/-- A list of texts. -/
def textsOf (v : PyJson.Value) : Option (List String) := (listOf v).bind fun vs => vs.mapM textOf

/-- `type(value) is int`. -/
def intOf : PyJson.Value → Option Int
  | .int n => some n
  | _ => none

/-- `type(value) is dict and set(value) == set(expected)`. -/
def keysAre (expected : List String) : PyJson.Value → Option (List (Str × PyJson.Value))
  | .obj ms =>
    if (∀ m ∈ ms, m.1 ∈ expected.map Str.ofString) ∧
        ∀ key ∈ expected.map Str.ofString, key ∈ ms.map Prod.fst then some ms
    else none
  | _ => none

/-- `value[key]`. -/
def memberAt (ms : List (Str × PyJson.Value)) (key : String) : Option PyJson.Value :=
  ms.lookup (Str.ofString key)

def bindingNames : List String := ["source_id", "destination_ips", "profile_revisions"]

/-- A binding of `from_json`. -/
def readBinding (v : PyJson.Value) : Option NetworkBinding := do
  let ms ← keysAre bindingNames v
  let destinationIps ← (memberAt ms "destination_ips").bind textsOf
  let profileRevisions ← (memberAt ms "profile_revisions").bind textsOf
  let sourceId ← (memberAt ms "source_id").bind textOf
  (NetworkBinding.init sourceId destinationIps profileRevisions).toOption

def mappingNames : List String := ["asset_id", "ssh_source_ids", "network_bindings"]

/-- A mapping of `from_json`. -/
def readMapping (v : PyJson.Value) : Option AssetMapping := do
  let ms ← keysAre mappingNames v
  let sshSourceIds ← (memberAt ms "ssh_source_ids").bind textsOf
  let bindings ← (memberAt ms "network_bindings").bind listOf
  let networkBindings ← bindings.mapM readBinding
  let assetId ← (memberAt ms "asset_id").bind textOf
  (AssetMapping.init assetId sshSourceIds networkBindings).toOption

/-- The fields `from_json` builds a scope from. -/
def readFields (v : PyJson.Value) : Option (ScopeFields AssetMapping) := do
  let .obj ms := v | none
  let items ← (memberAt ms "mappings").bind listOf
  let mappings ← items.mapM readMapping
  let sshCoverage ← (memberAt ms "ssh_coverage").bind textsOf
  let producerId ← (memberAt ms "producer_id").bind textOf
  let windowSeconds ← (memberAt ms "window_seconds").bind intOf
  let maxTimelineRecords ← (memberAt ms "max_timeline_records").bind intOf
  return { mappings, producerId, windowSeconds, maxTimelineRecords, sshCoverage }

/-- `CaseScope.from_json(raw)`. Whatever fails behind the decoder, the code is the same. -/
def CaseScope.fromJson (repr : Str → Option Str) (raw : Str) : Except String CaseScope :=
  match decode repr raw scopeBytes invalidRequest invalidRequest with
  | .error code => .error code
  | .ok v =>
    orRefuse invalidRequest (((readFields v).bind fun f => (CaseScope.init f).toOption).filter
      fun s => s.toJson = raw)

/-! ### Limits of a store -/

/-- `StoreLimits`. -/
structure StoreLimits where
  registrationLimit : Bounded 1 1000
  revisionLimit : Bounded 1 10000
  payloadByteLimit : Bounded 1 (256 * 1024 * 1024)
  projectionByteLimit : Bounded 1 (4 * 1024 * 1024)
  metadataByteLimit : Bounded 1 (32 * 1024)
  deriving DecidableEq

/-- What `StoreLimits` is built from, with the defaults. -/
structure LimitFields where
  registrationLimit : Int := 1000
  revisionLimit : Int := 10000
  payloadByteLimit : Int := 256 * 1024 * 1024
  projectionByteLimit : Int := 4 * 1024 * 1024
  metadataByteLimit : Int := 32 * 1024

/-- `StoreLimits(registration_limit, …)`. -/
def StoreLimits.init (f : LimitFields) : Except String StoreLimits :=
  orRefuse invalidRequest do
    let registrationLimit ← Bounded.of? 1 1000 f.registrationLimit
    let revisionLimit ← Bounded.of? 1 10000 f.revisionLimit
    let payloadByteLimit ← Bounded.of? 1 (256 * 1024 * 1024) f.payloadByteLimit
    let projectionByteLimit ← Bounded.of? 1 (4 * 1024 * 1024) f.projectionByteLimit
    let metadataByteLimit ← Bounded.of? 1 (32 * 1024) f.metadataByteLimit
    return { registrationLimit, revisionLimit, payloadByteLimit, projectionByteLimit,
             metadataByteLimit }

/-- The members of `asdict(limits)`. -/
def StoreLimits.members (l : StoreLimits) : List (Str × PyJson.Value) :=
  [member "registration_limit" (.int l.registrationLimit.val),
    member "revision_limit" (.int l.revisionLimit.val),
    member "payload_byte_limit" (.int l.payloadByteLimit.val),
    member "projection_byte_limit" (.int l.projectionByteLimit.val),
    member "metadata_byte_limit" (.int l.metadataByteLimit.val)]

/-- `to_json()`. -/
def StoreLimits.toJson (l : StoreLimits) : Str := dumpsAscii (sortKeys (.obj l.members))

/-- `fields(cls)`. -/
def limitNames : List String :=
  ["registration_limit", "revision_limit", "payload_byte_limit", "projection_byte_limit",
    "metadata_byte_limit"]

/-- The fields `from_json` builds limits from; `_integer` refuses what is no number. -/
def readLimitFields (v : PyJson.Value) : Option LimitFields := do
  let ms ← keysAre limitNames v
  let registrationLimit ← (memberAt ms "registration_limit").bind intOf
  let revisionLimit ← (memberAt ms "revision_limit").bind intOf
  let payloadByteLimit ← (memberAt ms "payload_byte_limit").bind intOf
  let projectionByteLimit ← (memberAt ms "projection_byte_limit").bind intOf
  let metadataByteLimit ← (memberAt ms "metadata_byte_limit").bind intOf
  return { registrationLimit, revisionLimit, payloadByteLimit, projectionByteLimit,
           metadataByteLimit }

/-- `StoreLimits.from_json(raw)`. -/
def StoreLimits.fromJson (repr : Str → Option Str) (raw : Str) : Except String StoreLimits :=
  match decode repr raw 1024 invalidRequest invalidRequest with
  | .error code => .error code
  | .ok v =>
    match readLimitFields v with
    | none => .error invalidRequest
    | some f => StoreLimits.init f

end RiskOps.JointEvidence
