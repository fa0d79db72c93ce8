import RiskOps.Lib.PyJson

/-!
# RiskOps.Telemetry.AiSummary — bounded cases from a snapshot and a trusted inventory

Model of `telemetry/ai_summary.py` and of the `Dossier` it must satisfy
(`agents/triage_evidence.py`): **what is known of an incident, moved to a synthetic epoch.** Records
of a snapshot and trusted context about them become the evidence of a case; names are replaced by
aliases, and every time is moved by what brings the first record to second 10⁹. Inventory and
dossier check their records with the same classes.

An alias is what it was computed from. A timestamp is the whole second `_timestamp` makes of it.
Every check but those of the times passes (`build_ok_iff`).
-/

namespace RiskOps.Telemetry.AiSummary

open RiskOps.Lib

/-! ### Records -/

/-- How an account is classified. -/
inductive Classification where
  | organisation
  | generic
  | unknown
  deriving DecidableEq

/-- How well a source is known. -/
inductive Familiarity where
  | familiar
  | unfamiliar
  | unknown
  deriving DecidableEq

/-- `Route`. -/
structure Route (τ : Type) where
  method : Str
  path : τ
  status : Int
  deriving DecidableEq

/-- The kinds of `AuthRecord`. -/
inductive AuthKind where
  | authFailure
  | invalidUser
  | authSuccess
  | appAuthSuccess
  deriving DecidableEq

/-- The records of an inventory and of a dossier, over a type of texts. -/
inductive Record (τ : Type) where
  | auth (eventId : τ) (kind : AuthKind) (time : Int) (source host account : τ)
  | http (eventId : τ) (time : Int) (source host : τ) (method : Str) (path : τ) (status : Int)
      (userAgent : Str)
  | account (eventId host account : τ) (classification : Classification)
  | history (eventId source host account : τ) (familiarity : Familiarity)
      (windowStart windowEnd : Int)
  | authorization (eventId source host : τ) (accounts paths : List τ) (methods : List Str)
      (validFrom validUntil : Int)
  | service (eventId host : τ) (expectedRoutes : List (Route τ))
  deriving DecidableEq

namespace Record

variable {τ : Type}

/-- `event_id`. -/
def eventId : Record τ → τ
  | auth id .. => id
  | http id .. => id
  | account id .. => id
  | history id .. => id
  | authorization id .. => id
  | service id .. => id

/-- The record is an observation. -/
def isObservation : Record τ → Bool
  | auth .. => true
  | http .. => true
  | _ => false

end Record

/-! ### The checks of the classes -/

/-- `Text` of a string. -/
def isText (s : Str) : Bool := 1 ≤ s.length && s.length ≤ 256

/-- `Instant`. -/
def isInstant (t : Int) : Bool := 0 ≤ t && t ≤ 10000000000

/-- A status. -/
def isStatus (n : Int) : Bool := 100 ≤ n && n ≤ 599

/-- The methods of `HTTPRecord`. -/
def methods : List Str :=
  ["GET", "HEAD", "POST", "PUT", "DELETE", "OPTIONS", "PATCH"].map Str.ofString

section Valid

variable {τ : Type} (text path : τ → Bool)

/-- The checks of `Route`. -/
def Route.valid (r : Route τ) : Bool := isText r.method && text r.path && isStatus r.status

/-- The checks of a record, given those of its texts and of a request path. -/
def Record.valid : Record τ → Bool
  | .auth id _ time source host user =>
    text id && isInstant time && text source && text host && text user
  | .http id time source host method target status userAgent =>
    text id && isInstant time && text source && text host && method ∈ methods && path target &&
      isStatus status && userAgent.length ≤ 512
  | .account id host user _ => text id && text host && text user
  | .history id source host user _ start stop =>
    text id && text source && text host && text user && isInstant start && isInstant stop &&
      start < stop
  | .authorization id source host accounts paths methods start stop =>
    text id && text source && text host && accounts.length ≤ 30 && accounts.all text &&
      paths.length ≤ 30 && paths.all text && methods.length ≤ 10 && methods.all isText &&
      isInstant start && isInstant stop && start < stop
  | .service id host routes =>
    text id && text host && 1 ≤ routes.length && routes.length ≤ 30 &&
      routes.all (Route.valid text)

end Valid

/-! ### Inventory -/

/-- The record is one of `ContextRecord`. -/
def isContext (r : Record Str) : Bool := !r.isObservation

/-- `inventory` accepts the records of a file. -/
def inventory (records : List (Record Str)) : Bool :=
  records.length ≤ 500 &&
    records.all (fun r => isContext r && r.valid isText fun s => 1 ≤ s.length && s.length ≤ 2048) &&
    decide (records.map Record.eventId).Nodup

/-! ### Snapshots -/

/-- `ssh` or `http`. -/
inductive Kind where
  | ssh
  | http
  deriving DecidableEq

/-- A record of a snapshot; a missing field is none. -/
structure Row where
  eventType : Str
  eventId : Str
  sourceId : Option Str
  srcIp : Option Str
  sshUser : Option Str
  time : Int
  method : Str
  path : Option Str
  status : Int

/-- What `build` reads of a snapshot. -/
structure Snapshot where
  kind : Kind
  firstSeen : Int
  records : List Row
  evidenceCount : Nat
  completenessReasons : List String

/-! ### Aliases -/

/-- What is replaced by an alias. -/
inductive Alias where
  | event (host eventId : Str)
  | peer (s : Str)
  | host (s : Str)
  | account (s : Str)
  | path (s : Str)
  | context (raw : Record Str)
  | unknownAccount (host account : Str)
  deriving DecidableEq

/-- A text of a case. -/
inductive Shown where
  | plain (s : Str)
  | alias (a : Alias)
  deriving DecidableEq

/-- `Text` of a text of a case; an alias has 26 to 30 characters. -/
def Shown.isText : Shown → Bool
  | .plain s => AiSummary.isText s
  | .alias _ => true

/-- The bounds of a request path. -/
def Shown.isPath : Shown → Bool
  | .plain s => 1 ≤ s.length && s.length ≤ 2048
  | .alias _ => true

/-! ### The dossier -/

/-- The kinds of the observations fit the kind of the dossier. -/
def Record.fits {τ : Type} (kind : Kind) : Record τ → Bool
  | .http .. => kind = .http
  | .auth _ .appAuthSuccess .. => kind = .http
  | .auth .. => kind = .ssh
  | _ => true

/-- Two records do not contradict each other. -/
def Record.agrees : Record Shown → Record Shown → Bool
  | .account _ host user c, .account _ host' user' c' =>
    host ≠ host' || user ≠ user' || c = c'
  | .history _ source host user f _ _, .history _ source' host' user' f' _ _ =>
    source ≠ source' || host ≠ host' || user ≠ user' || f = f'
  | .history _ source host user _ _ stop, .auth _ _ time source' host' user' =>
    source ≠ source' || host ≠ host' || user ≠ user' || stop ≤ time
  | _, _ => true

/-- `Dossier.model_validate` of the evidence. -/
def dossierAccepts (kind : Kind) (evidence : List (Record Shown)) : Bool :=
  1 ≤ evidence.length && evidence.length ≤ 100 &&
    evidence.all (Record.valid Shown.isText Shown.isPath) &&
    decide (evidence.map Record.eventId).Nodup &&
    evidence.any Record.isObservation &&
    evidence.all (Record.fits kind) &&
    evidence.all fun r => evidence.all fun r' => r.agrees r'

/-! ### Building a case -/

/-- What is supported of a record: its host, peer and kind, with the account of an SSH record. -/
inductive Supported where
  | auth (host peer user : Str) (kind : AuthKind)
  | http (host peer path : Str)

/-- The kind of an SSH record. -/
def authKind (eventType : Str) : Option AuthKind :=
  if eventType = Str.ofString "auth_failure" then some .authFailure
  else if eventType = Str.ofString "invalid_user" then some .invalidUser
  else if eventType = Str.ofString "auth_success" then some .authSuccess
  else none

/-- A field that is there and not empty. -/
def present (field : Option Str) : Option Str := field.filter (· ≠ [])

/-- The record is supported. -/
def supported (kind : Kind) (row : Row) : Option Supported := do
  let host ← present row.sourceId
  let peer ← present row.srcIp
  match kind with
  | .http =>
    if row.eventType = Str.ofString "http_request" then
      return .http host peer (← row.path)
    else none
  | .ssh =>
    let user ← present row.sshUser
    return .auth host peer user (← authKind row.eventType)

section Build

variable (httpPaths : List Str) (kind : Kind) (shift : Int)

/-- `path(value)`: approved paths stay readable. -/
def shownPath (path : Str) : Shown := if path ∈ httpPaths then .plain path else .alias (.path path)

/-- The event of a record. -/
def eventOf (row : Row) : Option (Record Shown) :=
  (supported kind row).map fun
    | .auth host peer user authKind =>
      .auth (.alias (.event host row.eventId)) authKind (row.time + shift) (.alias (.peer peer))
        (.alias (.host host)) (.alias (.account user))
    | .http host peer path =>
      .http (.alias (.event host row.eventId)) (row.time + shift) (.alias (.peer peer))
        (.alias (.host host)) row.method (shownPath httpPaths path) row.status []

/-- The records that are sampled. -/
def sample (snapshot : Snapshot) : List Row := snapshot.records.take 40

/-- `observed_hosts`, `observed_accounts` and `observed_peers`. -/
structure Observed where
  hosts : List Str
  accounts : List (Str × Str)
  peers : List (Str × Str)

/-- What the sampled records are about. -/
def observed (rows : List Supported) : Observed where
  hosts := rows.map fun
    | .auth host .. => host
    | .http host .. => host
  accounts := rows.filterMap fun
    | .auth host _ user _ => some (host, user)
    | .http .. => none
  peers := rows.map fun
    | .auth host peer .. => (host, peer)
    | .http host peer .. => (host, peer)

/-- The context is about what was observed. -/
def relevant (seen : Observed) : Record Str → Bool
  | .account _ host account _ => host ∈ seen.hosts && (host, account) ∈ seen.accounts
  | .history _ source host account .. =>
    host ∈ seen.hosts && (host, account) ∈ seen.accounts && (host, source) ∈ seen.peers
  | .authorization _ source host .. => host ∈ seen.hosts && (host, source) ∈ seen.peers
  | .service _ host _ => host ∈ seen.hosts
  | _ => false

/-- A context record of the case: its names are aliases, its times are moved. -/
def disclose (raw : Record Str) : Record Shown :=
  match raw with
  | .account _ host account c =>
    .account (.alias (.context raw)) (.alias (.host host)) (.alias (.account account)) c
  | .history _ source host account f start stop =>
    .history (.alias (.context raw)) (.alias (.peer source)) (.alias (.host host))
      (.alias (.account account)) f (start + shift) (stop + shift)
  | .authorization _ source host accounts paths methods start stop =>
    .authorization (.alias (.context raw)) (.alias (.peer source)) (.alias (.host host))
      (accounts.map fun a => .alias (.account a)) (paths.map (shownPath httpPaths)) methods
      (start + shift) (stop + shift)
  | .service _ host routes =>
    .service (.alias (.context raw)) (.alias (.host host))
      (routes.map fun r => ⟨r.method, shownPath httpPaths r.path, r.status⟩)
  | .auth _ k time source host account =>
    .auth (.alias (.context raw)) k time (.plain source) (.alias (.host host)) (.plain account)
  | .http _ time source host method path status userAgent =>
    .http (.alias (.context raw)) time (.plain source) (.alias (.host host)) method (.plain path)
      status userAgent

/-- The row of an account nothing is known about. -/
def unknownAccount (key : Str × Str) : Record Shown :=
  .account (.alias (.unknownAccount key.1 key.2)) (.alias (.host key.1)) (.alias (.account key.2))
    .unknown

/-- The accounts a context classifies. -/
def classified (contexts : List (Record Str)) : List (Str × Str) :=
  contexts.filterMap fun
    | .account _ host account _ => some (host, account)
    | _ => none

end Build

/-- `evidence_status`. -/
inductive Status where
  | complete
  | gapped
  | truncated
  | unknown
  deriving DecidableEq

/-- The status the reasons amount to. -/
def statusOf (reasons : List String) : Status :=
  if reasons = [] then .complete
  else if "collection_gap" ∈ reasons then .gapped
  else if reasons.any fun r => decide ("truncated".toList <:+: r.toList) then .truncated
  else .unknown

/-- A case; its incident id and its revision are aliases. -/
structure Case where
  kind : Kind
  evidenceStatus : Status
  evidence : List (Record Shown)
  deriving DecidableEq

/-- Why no case is built. -/
inductive BuildError where
  | noEvidence
  | invalid
  deriving DecidableEq

section Build

variable (httpPaths : List Str) (snapshot : Snapshot) (context : List (Record Str))

/-- What every time is moved by. -/
def shift : Int := 1000000000 - snapshot.firstSeen

/-- The observations of the case. -/
def events : List (Record Shown) :=
  (sample snapshot).filterMap (eventOf httpPaths snapshot.kind (shift snapshot))

/-- What is supported of the sampled records. -/
def supportedRows : List Supported := (sample snapshot).filterMap (supported snapshot.kind)

/-- The context about what was observed. -/
def about : List (Record Str) := context.filter (relevant (observed (supportedRows snapshot)))

/-- The context of the case, while there are fewer than 95 records. -/
def included : List (Record Str) :=
  (about snapshot context).take (95 - (events httpPaths snapshot).length)

/-- The observed accounts that are not classified. -/
def unclassified : List (Str × Str) :=
  ((observed (supportedRows snapshot)).accounts.dedup.filter
    (· ∉ classified (included httpPaths snapshot context))).insertionSort
      fun a b => toLex a ≤ toLex b

/-- The accounts nothing is known about, while there are fewer than 100 records. -/
def unknowns : List (Str × Str) :=
  (unclassified httpPaths snapshot context).take
    (100 - ((events httpPaths snapshot).length + (included httpPaths snapshot context).length))

/-- The evidence of the case. -/
def evidence : List (Record Shown) :=
  events httpPaths snapshot ++
    ((included httpPaths snapshot context).map (disclose httpPaths (shift snapshot)) ++
      (unknowns httpPaths snapshot context).map unknownAccount)

/-- `reasons`. -/
def reasons : List String :=
  snapshot.completenessReasons ++
    (if (sample snapshot).any fun row => (supported snapshot.kind row).isNone then
      ["unsupported_or_incomplete_record"] else []) ++
    (if (supportedRows snapshot).any fun
        | .http _ _ path => path ∉ httpPaths
        | .auth .. => false then ["http_path_withheld"] else []) ++
    (if (included httpPaths snapshot context).length < (about snapshot context).length ∨
        (unknowns httpPaths snapshot context).length
          < (unclassified httpPaths snapshot context).length then ["context_truncated"] else []) ++
    (if snapshot.records.length < snapshot.evidenceCount ∨ 40 < snapshot.records.length then
      ["sample_truncated"] else [])

/-- `build`. -/
def build : Except BuildError Case :=
  if events httpPaths snapshot = [] then .error .noEvidence
  else if dossierAccepts snapshot.kind (evidence httpPaths snapshot context) then
    .ok { kind := snapshot.kind
          evidenceStatus := statusOf (reasons httpPaths snapshot context)
          evidence := evidence httpPaths snapshot context }
  else .error .invalid

end Build

/-! ### What the inventory and the snapshot promise -/

/-- An account is classified one way, and a source is known one way. -/
def Consistent (context : List (Record Str)) : Prop :=
  (∀ id host account c id' c', .account id host account c ∈ context →
    .account id' host account c' ∈ context → c = c') ∧
  ∀ id source host account f start stop id' f' start' stop',
    .history id source host account f start stop ∈ context →
    .history id' source host account f' start' stop' ∈ context → f = f'

/-- Histories end before what was observed of the same source and account. -/
def PriorTo (snapshot : Snapshot) (context : List (Record Str)) : Prop :=
  ∀ id source host account f start stop, .history id source host account f start stop ∈ context →
    ∀ row ∈ snapshot.records, ∀ k,
      supported snapshot.kind row = some (.auth host source account k) → stop ≤ row.time

/-- The key of a record. -/
def Row.key (row : Row) : Option Str × Str := (row.sourceId, row.eventId)

/-- The times of a context record stay instants when they are moved. -/
def Record.staysInstant (shift : Int) : Record Str → Bool
  | .history _ _ _ _ _ start stop => isInstant (start + shift) && isInstant (stop + shift)
  | .authorization _ _ _ _ _ _ start stop => isInstant (start + shift) && isInstant (stop + shift)
  | _ => true

/-- Every time of the case stays an instant when it is moved to the synthetic epoch. -/
structure InEpoch (httpPaths : List Str) (snapshot : Snapshot) (context : List (Record Str)) :
    Prop where
  rows : ∀ row ∈ sample snapshot, (supported snapshot.kind row).isSome = true →
    isInstant (row.time + shift snapshot) = true
  windows : ∀ raw ∈ included httpPaths snapshot context,
    raw.staysInstant (shift snapshot) = true

/-! ### What the evidence consists of -/

section Evidence

variable {httpPaths : List Str} {snapshot : Snapshot} {context : List (Record Str)}

/-- A supported SSH record has its host, its peer and its account. -/
theorem supported_ssh {row : Row} {s : Supported} (h : supported .ssh row = some s) :
    ∃ host peer user k, s = .auth host peer user k ∧ row.sourceId = some host ∧
      k ≠ .appAuthSuccess := by
  simp only [supported, Option.bind_eq_bind, Option.bind_eq_some_iff] at h
  obtain ⟨host, hhost, peer, -, user, -, k, hk, h⟩ := h
  refine ⟨host, peer, user, k, (Option.some.inj h).symm, (Option.filter_eq_some_iff.mp hhost).1, ?_⟩
  rintro rfl
  unfold authKind at hk
  split_ifs at hk <;> cases hk

variable {r : Record Shown}

/-- An event of an SSH record. -/
theorem eventOf_ssh {shift : Int} {row : Row} (h : eventOf httpPaths .ssh shift row = some r) :
    ∃ host peer user k, supported .ssh row = some (.auth host peer user k) ∧
      row.sourceId = some host ∧ k ≠ .appAuthSuccess ∧
      r = .auth (.alias (.event host row.eventId)) k (row.time + shift) (.alias (.peer peer))
        (.alias (.host host)) (.alias (.account user)) := by
  obtain ⟨s, hs, hr⟩ := Option.map_eq_some_iff.mp h
  obtain ⟨host, peer, user, k, rfl, hhost, hk⟩ := supported_ssh hs
  exact ⟨host, peer, user, k, hs, hhost, hk, hr.symm⟩

theorem exists_eventOf {kind : Kind} {shift : Int} {row : Row}
    (h : (supported kind row).isSome = true) : ∃ r, eventOf httpPaths kind shift row = some r := by
  obtain ⟨s, hs⟩ := Option.isSome_iff_exists.mp h
  rw [eventOf, hs]
  exact ⟨_, rfl⟩

/-- What is included comes from the context. -/
theorem mem_of_included {raw : Record Str} (h : raw ∈ included httpPaths snapshot context) :
    raw ∈ context := List.mem_of_mem_filter (List.mem_of_mem_take h)

theorem mem_evidence : r ∈ evidence httpPaths snapshot context ↔
    r ∈ events httpPaths snapshot ∨
      (∃ raw ∈ included httpPaths snapshot context,
        disclose httpPaths (shift snapshot) raw = r) ∨
      ∃ key ∈ unknowns httpPaths snapshot context, unknownAccount key = r := by
  simp only [evidence, List.mem_append, List.mem_map]

theorem length_events_le : (events httpPaths snapshot).length ≤ 40 := by
  refine (List.length_filterMap_le _ _).trans ?_
  rw [sample, List.length_take]
  exact Nat.min_le_left _ _

theorem length_evidence_le : (evidence httpPaths snapshot context).length ≤ 100 := by
  have hevents : (events httpPaths snapshot).length ≤ 40 := length_events_le
  have hincluded : (included httpPaths snapshot context).length
      ≤ 95 - (events httpPaths snapshot).length := by
    rw [included, List.length_take]
    exact Nat.min_le_left _ _
  have hunknowns : (unknowns httpPaths snapshot context).length
      ≤ 100 - ((events httpPaths snapshot).length
        + (included httpPaths snapshot context).length) := by
    rw [unknowns, List.length_take]
    exact Nat.min_le_left _ _
  simp only [evidence, List.length_append, List.length_map]
  omega

/-- An account is not called unknown when it is classified. -/
theorem not_classified_of_unknown {key : Str × Str}
    (h : key ∈ unknowns httpPaths snapshot context) :
    key ∉ classified (included httpPaths snapshot context) := by
  have hmem := List.mem_of_mem_take h
  rw [unclassified, List.mem_insertionSort] at hmem
  simpa using (List.mem_filter.mp hmem).2

theorem nodup_unknowns : (unknowns httpPaths snapshot context).Nodup := by
  refine List.Nodup.sublist (List.take_sublist _ _) ?_
  rw [unclassified]
  exact (List.perm_insertionSort _ _).nodup_iff.mpr ((List.nodup_dedup _).filter _)

/-! ### The checks of the dossier -/

/-- The ids of the evidence are distinct. -/
theorem nodup_eventIds (hkind : snapshot.kind = .ssh)
    (hkeys : (snapshot.records.map Row.key).Nodup) (hinventory : inventory context = true) :
    ((evidence httpPaths snapshot context).map Record.eventId).Nodup := by
  simp only [inventory, Bool.and_eq_true, decide_eq_true_eq] at hinventory
  have hcontext : context.Nodup := hinventory.2.of_map
  have hdisclose : ∀ raw, (disclose httpPaths (shift snapshot) raw).eventId
      = .alias (.context raw) := by
    intro raw
    cases raw <;> rfl
  have hevent : ∀ r ∈ events httpPaths snapshot,
      ∃ host id, r.eventId = .alias (.event host id) := by
    intro r hr
    obtain ⟨row, -, hrow⟩ := List.mem_filterMap.mp hr
    rw [hkind] at hrow
    obtain ⟨host, peer, user, k, -, -, -, rfl⟩ := eventOf_ssh hrow
    exact ⟨host, row.eventId, rfl⟩
  rw [evidence, List.map_append, List.map_append, List.nodup_append, List.nodup_append]
  refine ⟨?_, ⟨?_, ?_, ?_⟩, ?_⟩
  · -- Two events with one id are of one record.
    rw [events, List.Nodup, List.pairwise_map, List.pairwise_filterMap]
    have hsample : ((sample snapshot).map Row.key).Nodup :=
      hkeys.sublist ((List.take_sublist _ _).map _)
    refine (List.pairwise_map.mp hsample).imp fun {row row'} hne r hr r' hr' heq => hne ?_
    rw [hkind] at hr hr'
    obtain ⟨host, peer, user, k, -, hhost, -, rfl⟩ := eventOf_ssh hr
    obtain ⟨host', peer', user', k', -, hhost', -, rfl⟩ := eventOf_ssh hr'
    obtain ⟨rfl, hid⟩ := Alias.event.inj (Shown.alias.inj heq)
    rw [Row.key, Row.key, hhost, hhost', hid]
  · rw [List.map_map]
    refine (List.Nodup.map_on ?_ ((hcontext.filter _).sublist (List.take_sublist _ _)))
    intro raw _ raw' _ heq
    rw [Function.comp_apply, Function.comp_apply, hdisclose, hdisclose] at heq
    exact Alias.context.inj (Shown.alias.inj heq)
  · rw [List.map_map]
    refine List.Nodup.map_on ?_ nodup_unknowns
    intro key _ key' _ heq
    obtain ⟨hhost, huser⟩ := Alias.unknownAccount.inj (Shown.alias.inj heq)
    exact Prod.ext hhost huser
  · intro id hid id' hid' heq
    obtain ⟨r, hr, rfl⟩ := List.mem_map.mp hid
    obtain ⟨raw, -, rfl⟩ := List.mem_map.mp hr
    obtain ⟨r', hr', rfl⟩ := List.mem_map.mp hid'
    obtain ⟨key, -, rfl⟩ := List.mem_map.mp hr'
    rw [hdisclose] at heq
    cases Shown.alias.inj heq
  · intro id hid id' hid' heq
    obtain ⟨r, hr, rfl⟩ := List.mem_map.mp hid
    obtain ⟨host, eventId, hr⟩ := hevent r hr
    rw [hr] at heq
    rcases List.mem_append.mp hid' with hid' | hid'
    · obtain ⟨r', hr', rfl⟩ := List.mem_map.mp hid'
      obtain ⟨raw, -, rfl⟩ := List.mem_map.mp hr'
      rw [hdisclose] at heq
      cases Shown.alias.inj heq
    · obtain ⟨r', hr', rfl⟩ := List.mem_map.mp hid'
      obtain ⟨key, -, rfl⟩ := List.mem_map.mp hr'
      cases Shown.alias.inj heq

/-- Every record of the case fits an SSH dossier. -/
theorem fits_evidence (hkind : snapshot.kind = .ssh) (hinventory : inventory context = true)
    (hr : r ∈ evidence httpPaths snapshot context) : r.fits .ssh = true := by
  simp only [inventory, Bool.and_eq_true, List.all_eq_true] at hinventory
  rcases (Iff.mp mem_evidence) hr with hr | ⟨raw, hraw, rfl⟩ | ⟨key, -, rfl⟩
  · obtain ⟨row, -, hrow⟩ := List.mem_filterMap.mp hr
    rw [hkind] at hrow
    obtain ⟨host, peer, user, k, -, -, hk, rfl⟩ := eventOf_ssh hrow
    cases k with
    | appAuthSuccess => exact absurd rfl hk
    | _ => rfl
  · have hcontext := (hinventory.1.2 raw (mem_of_included hraw)).1
    cases raw with
    | auth => cases hcontext
    | http => cases hcontext
    | _ => rfl
  · rfl

variable {id id' host' user' : Shown}

theorem agrees_account {host user : Shown} {c c' : Classification}
    (h : host = host' → user = user' → c = c') :
    (Record.account id host user c).agrees (.account id' host' user' c') = true := by
  simp only [Record.agrees, Bool.or_eq_true, decide_eq_true_eq]
  by_cases hhost : host = host'
  · by_cases huser : user = user'
    · exact Or.inr (h hhost huser)
    · exact Or.inl (Or.inr huser)
  · exact Or.inl (Or.inl hhost)

theorem agrees_history {source source' host user : Shown} {f f' : Familiarity}
    {start stop start' stop' : Int} (h : source = source' → host = host' → user = user' → f = f') :
    (Record.history id source host user f start stop).agrees
      (.history id' source' host' user' f' start' stop') = true := by
  simp only [Record.agrees, Bool.or_eq_true, decide_eq_true_eq]
  by_cases hsource : source = source'
  · by_cases hhost : host = host'
    · by_cases huser : user = user'
      · exact Or.inr (h hsource hhost huser)
      · exact Or.inl (Or.inr huser)
    · exact Or.inl (Or.inl (Or.inr hhost))
  · exact Or.inl (Or.inl (Or.inl hsource))

theorem agrees_observed {source source' host user : Shown} {f : Familiarity} {k : AuthKind}
    {start stop time : Int} (h : source = source' → host = host' → user = user' → stop ≤ time) :
    (Record.history id source host user f start stop).agrees
      (.auth id' k time source' host' user') = true := by
  simp only [Record.agrees, Bool.or_eq_true, decide_eq_true_eq]
  by_cases hsource : source = source'
  · by_cases hhost : host = host'
    · by_cases huser : user = user'
      · exact Or.inr (h hsource hhost huser)
      · exact Or.inl (Or.inr huser)
    · exact Or.inl (Or.inl (Or.inr hhost))
  · exact Or.inl (Or.inl (Or.inl hsource))

/-- The account rows of a case: classified by the context, or unknown. -/
theorem account_of_evidence (hkind : snapshot.kind = .ssh) {host user : Shown} {c : Classification}
    (hr : Record.account id host user c ∈ evidence httpPaths snapshot context) :
    ∃ h u, host = .alias (.host h) ∧ user = .alias (.account u) ∧
      ((∃ id', .account id' h u c ∈ included httpPaths snapshot context) ∨
        c = .unknown ∧ (h, u) ∉ classified (included httpPaths snapshot context)) := by
  rcases mem_evidence.mp hr with hr | ⟨raw, hraw, heq⟩ | ⟨key, hkey, heq⟩
  · obtain ⟨row, -, hrow⟩ := List.mem_filterMap.mp hr
    rw [hkind] at hrow
    obtain ⟨_, _, _, _, -, -, -, heq⟩ := eventOf_ssh hrow
    cases heq
  · cases raw with
    | account id' h u c' =>
      obtain ⟨-, rfl, rfl, rfl⟩ := Record.account.inj heq
      exact ⟨h, u, rfl, rfl, Or.inl ⟨id', hraw⟩⟩
    | _ => cases heq
  · obtain ⟨-, rfl, rfl, rfl⟩ := Record.account.inj heq
    exact ⟨key.1, key.2, rfl, rfl, Or.inr ⟨rfl, not_classified_of_unknown hkey⟩⟩

/-- The histories of a case come from the context. -/
theorem history_of_evidence (hkind : snapshot.kind = .ssh) {source host user : Shown}
    {f : Familiarity} {start stop : Int}
    (hr : Record.history id source host user f start stop ∈ evidence httpPaths snapshot context) :
    ∃ id' p h u start' stop', source = .alias (.peer p) ∧ host = .alias (.host h) ∧
      user = .alias (.account u) ∧ stop = stop' + shift snapshot ∧
      .history id' p h u f start' stop' ∈ included httpPaths snapshot context := by
  rcases mem_evidence.mp hr with hr | ⟨raw, hraw, heq⟩ | ⟨key, -, heq⟩
  · obtain ⟨row, -, hrow⟩ := List.mem_filterMap.mp hr
    rw [hkind] at hrow
    obtain ⟨_, _, _, _, -, -, -, heq⟩ := eventOf_ssh hrow
    cases heq
  · cases raw with
    | history id' p h u f' start' stop' =>
      obtain ⟨-, rfl, rfl, rfl, rfl, -, rfl⟩ := Record.history.inj heq
      exact ⟨id', p, h, u, start', stop', rfl, rfl, rfl, rfl, hraw⟩
    | _ => cases heq
  · cases heq

/-- The observations of a case come from the snapshot. -/
theorem auth_of_evidence (hkind : snapshot.kind = .ssh) (hinventory : inventory context = true)
    {source host user : Shown} {k : AuthKind} {time : Int}
    (hr : Record.auth id k time source host user ∈ evidence httpPaths snapshot context) :
    ∃ row ∈ snapshot.records, ∃ p h u k', supported .ssh row = some (.auth h p u k') ∧
      source = .alias (.peer p) ∧ host = .alias (.host h) ∧ user = .alias (.account u) ∧
      time = row.time + shift snapshot := by
  rcases mem_evidence.mp hr with hr | ⟨raw, hraw, heq⟩ | ⟨key, -, heq⟩
  · obtain ⟨row, hmem, hrow⟩ := List.mem_filterMap.mp hr
    rw [hkind] at hrow
    obtain ⟨h, p, u, k', hsupported, -, -, heq⟩ := eventOf_ssh hrow
    obtain ⟨-, -, rfl, rfl, rfl, rfl⟩ := Record.auth.inj heq
    exact ⟨row, List.mem_of_mem_take hmem, p, h, u, k', hsupported, rfl, rfl, rfl, rfl⟩
  · simp only [inventory, Bool.and_eq_true, List.all_eq_true] at hinventory
    have hcontext := (hinventory.1.2 raw (mem_of_included hraw)).1
    cases raw with
    | auth => cases hcontext
    | _ => cases heq
  · cases heq

/-- No two records of the case contradict each other. -/
theorem agrees_evidence (hkind : snapshot.kind = .ssh) (hinventory : inventory context = true)
    (hconsistent : Consistent context) (hprior : PriorTo snapshot context) {r' : Record Shown}
    (hr : r ∈ evidence httpPaths snapshot context) (hr' : r' ∈ evidence httpPaths snapshot context) :
    r.agrees r' = true := by
  have hclassified : ∀ {id h u c}, .account id h u c ∈ included httpPaths snapshot context →
      (h, u) ∈ classified (included httpPaths snapshot context) := fun hmem =>
    List.mem_filterMap.mpr ⟨_, hmem, rfl⟩
  cases r with
  | account id host user c =>
    cases r' with
    | account id' host' user' c' =>
      refine agrees_account fun hhost huser => ?_
      obtain ⟨h, u, rfl, rfl, hcase⟩ := account_of_evidence hkind hr
      obtain ⟨h', u', rfl, rfl, hcase'⟩ := account_of_evidence hkind hr'
      obtain rfl := Alias.host.inj (Shown.alias.inj hhost)
      obtain rfl := Alias.account.inj (Shown.alias.inj huser)
      rcases hcase with ⟨i, hmem⟩ | ⟨rfl, hout⟩
      · rcases hcase' with ⟨i', hmem'⟩ | ⟨-, hout'⟩
        · exact hconsistent.1 _ _ _ _ _ _ (mem_of_included hmem) (mem_of_included hmem')
        · exact absurd (hclassified hmem) hout'
      · rcases hcase' with ⟨i', hmem'⟩ | ⟨rfl, -⟩
        · exact absurd (hclassified hmem') hout
        · rfl
    | _ => rfl
  | history id source host user f start stop =>
    obtain ⟨i, p, h, u, start, stop, rfl, rfl, rfl, rfl, hmem⟩ := history_of_evidence hkind hr
    cases r' with
    | history id' source' host' user' f' start' stop' =>
      refine agrees_history fun hsource hhost huser => ?_
      obtain ⟨i', p', h', u', _, _, rfl, rfl, rfl, -, hmem'⟩ := history_of_evidence hkind hr'
      obtain rfl := Alias.peer.inj (Shown.alias.inj hsource)
      obtain rfl := Alias.host.inj (Shown.alias.inj hhost)
      obtain rfl := Alias.account.inj (Shown.alias.inj huser)
      exact hconsistent.2 _ _ _ _ _ _ _ _ _ _ _ (mem_of_included hmem)
        (mem_of_included hmem')
    | auth id' k time source' host' user' =>
      refine agrees_observed fun hsource hhost huser => ?_
      obtain ⟨row, hrow, p', h', u', k', hsupported, rfl, rfl, rfl, rfl⟩ :=
        auth_of_evidence hkind hinventory hr'
      obtain rfl := Alias.peer.inj (Shown.alias.inj hsource)
      obtain rfl := Alias.host.inj (Shown.alias.inj hhost)
      obtain rfl := Alias.account.inj (Shown.alias.inj huser)
      have hstop := hprior _ _ _ _ _ _ _ (mem_of_included hmem) row hrow k'
        (by rw [hkind]; exact hsupported)
      omega
    | _ => rfl
  | _ => rfl

/-- A disclosed record is valid when its times stay instants. -/
theorem valid_disclose {shift : Int} {raw : Record Str} (hcontext : isContext raw = true)
    (hvalid : raw.valid isText (fun s => 1 ≤ s.length && s.length ≤ 2048) = true) :
    (disclose httpPaths shift raw).valid Shown.isText Shown.isPath = raw.staysInstant shift := by
  have hpath : ∀ path, isText path = true → (shownPath httpPaths path).isText = true := by
    intro path h
    unfold shownPath
    split
    · exact h
    · rfl
  cases raw with
  | auth => cases hcontext
  | http => cases hcontext
  | account id host user c => rfl
  | history id source host user f start stop =>
    simp only [Record.valid, Bool.and_eq_true, decide_eq_true_eq] at hvalid
    have hlt : start + shift < stop + shift := by omega
    simp [disclose, Record.valid, Record.staysInstant, Shown.isText, hlt]
  | authorization id source host accounts paths methods start stop =>
    simp only [Record.valid, Bool.and_eq_true, decide_eq_true_eq, List.all_eq_true] at hvalid
    obtain ⟨⟨⟨⟨⟨⟨⟨⟨⟨-, haccounts⟩, -⟩, hpaths⟩, htexts⟩, hmethods⟩, htext⟩, -⟩, -⟩, hlt⟩ := hvalid
    have hlt : start + shift < stop + shift := by omega
    have hnames : accounts.all (Shown.isText ∘ fun a => .alias (.account a)) = true :=
      List.all_eq_true.mpr fun _ _ => rfl
    have hshown : paths.all (Shown.isText ∘ shownPath httpPaths) = true :=
      List.all_eq_true.mpr fun x hx => hpath x (htexts x hx)
    have hverbs : methods.all isText = true := List.all_eq_true.mpr htext
    simp [disclose, Record.valid, Record.staysInstant, Shown.isText, hlt, haccounts, hpaths,
      hmethods, hnames, hshown, hverbs]
  | service id host routes =>
    simp only [Record.valid, Bool.and_eq_true, decide_eq_true_eq, List.all_eq_true] at hvalid
    obtain ⟨⟨⟨-, hpos⟩, hlen⟩, hroutes⟩ := hvalid
    simp [disclose, Record.valid, Record.staysInstant, Shown.isText, hlen]
    refine ⟨hpos, fun r hr => ?_⟩
    have hroute := hroutes r hr
    simp only [Route.valid, Bool.and_eq_true] at hroute ⊢
    exact ⟨⟨hroute.1.1, hpath _ hroute.1.2⟩, hroute.2⟩

/-- The records of a case are valid when the times stay instants. -/
theorem valid_evidence_iff (hkind : snapshot.kind = .ssh) (hinventory : inventory context = true) :
    (evidence httpPaths snapshot context).all (Record.valid Shown.isText Shown.isPath) = true ↔
      InEpoch httpPaths snapshot context := by
  have hcontext := hinventory
  simp only [inventory, Bool.and_eq_true, List.all_eq_true] at hcontext
  have hraw : ∀ raw ∈ included httpPaths snapshot context,
      (disclose httpPaths (shift snapshot) raw).valid Shown.isText Shown.isPath
        = raw.staysInstant (shift snapshot) := by
    intro raw hmem
    obtain ⟨hkindOf, hvalid⟩ := hcontext.1.2 raw (mem_of_included hmem)
    exact valid_disclose hkindOf hvalid
  rw [List.all_eq_true]
  constructor
  · intro h
    refine ⟨fun row hrow hsome => ?_, fun raw hmem => ?_⟩
    · obtain ⟨r, hr⟩ : ∃ r, eventOf httpPaths snapshot.kind (shift snapshot) row = some r :=
        exists_eventOf hsome
      have hvalid := h r (mem_evidence.mpr (Or.inl (List.mem_filterMap.mpr ⟨row, hrow, hr⟩)))
      rw [hkind] at hr
      obtain ⟨host, peer, user, k, -, -, -, rfl⟩ := eventOf_ssh hr
      simpa [Record.valid, Shown.isText] using hvalid
    · rw [← hraw raw hmem]
      exact h _ (mem_evidence.mpr (Or.inr (Or.inl ⟨raw, hmem, rfl⟩)))
  · intro hepoch r hr
    rcases mem_evidence.mp hr with hr | ⟨raw, hmem, rfl⟩ | ⟨key, -, rfl⟩
    · obtain ⟨row, hrow, hr⟩ := List.mem_filterMap.mp hr
      have hinstant := hepoch.rows row hrow
      rw [hkind] at hr hinstant
      obtain ⟨host, peer, user, k, hs, -, -, rfl⟩ := eventOf_ssh hr
      simpa [Record.valid, Shown.isText] using hinstant (by rw [hs]; rfl)
    · rw [hraw raw hmem]
      exact hepoch.windows raw hmem
    · rfl

/-- A case with an observation is accepted exactly when its times stay instants. -/
theorem dossierAccepts_iff (hkind : snapshot.kind = .ssh)
    (hkeys : (snapshot.records.map Row.key).Nodup) (hinventory : inventory context = true)
    (hconsistent : Consistent context) (hprior : PriorTo snapshot context) {first : Record Shown}
    (hfirst : first ∈ events httpPaths snapshot) :
    dossierAccepts snapshot.kind (evidence httpPaths snapshot context) = true ↔
      InEpoch httpPaths snapshot context := by
  have hevidence : first ∈ evidence httpPaths snapshot context :=
    mem_evidence.mpr (Or.inl hfirst)
  have hobserved : first.isObservation = true := by
    obtain ⟨row, -, hrow⟩ := List.mem_filterMap.mp hfirst
    rw [hkind] at hrow
    obtain ⟨host, peer, user, k, -, -, -, rfl⟩ := eventOf_ssh hrow
    rfl
  have hfits : (evidence httpPaths snapshot context).all (Record.fits snapshot.kind) = true := by
    rw [hkind]
    exact List.all_eq_true.mpr fun r hr => fits_evidence hkind hinventory hr
  have hagrees : ((evidence httpPaths snapshot context).all fun r =>
      (evidence httpPaths snapshot context).all fun r' => r.agrees r') = true :=
    List.all_eq_true.mpr fun r hr => List.all_eq_true.mpr fun r' hr' =>
      agrees_evidence hkind hinventory hconsistent hprior hr hr'
  rw [← valid_evidence_iff hkind hinventory, dossierAccepts, hfits, hagrees,
    List.any_eq_true.mpr ⟨first, hevidence, hobserved⟩]
  simp only [Bool.and_true, Bool.and_eq_true, decide_eq_true_eq]
  constructor
  · exact fun h => h.1.2
  · exact fun hvalid => ⟨⟨⟨List.length_pos_of_mem hevidence, length_evidence_le⟩, hvalid⟩,
      nodup_eventIds hkind hkeys hinventory⟩

/-- A case is built exactly when a record of the sample is supported and every time stays an instant
in the synthetic epoch. -/
theorem build_ok_iff (hkind : snapshot.kind = .ssh)
    (hkeys : (snapshot.records.map Row.key).Nodup) (hinventory : inventory context = true)
    (hconsistent : Consistent context) (hprior : PriorTo snapshot context) :
    (∃ case, build httpPaths snapshot context = .ok case) ↔
      (∃ row ∈ sample snapshot, (supported snapshot.kind row).isSome = true) ∧
        InEpoch httpPaths snapshot context := by
  rw [build]
  cases hevents : events httpPaths snapshot with
  | nil =>
    rw [if_pos rfl]
    constructor
    · rintro ⟨case, h⟩
      cases h
    · rintro ⟨⟨row, hrow, hsome⟩, -⟩
      obtain ⟨r, hr⟩ : ∃ r, eventOf httpPaths snapshot.kind (shift snapshot) row = some r :=
        exists_eventOf hsome
      have hmem : r ∈ events httpPaths snapshot := List.mem_filterMap.mpr ⟨row, hrow, hr⟩
      rw [hevents] at hmem
      cases hmem
  | cons first rest =>
    have hfirst : first ∈ events httpPaths snapshot := hevents ▸ List.mem_cons_self
    have haccepts := dossierAccepts_iff hkind hkeys hinventory hconsistent hprior hfirst
    rw [if_neg (List.cons_ne_nil _ _)]
    constructor
    · rintro ⟨case, h⟩
      split at h
      · rename_i hdossier
        obtain ⟨row, hrow, hr⟩ := List.mem_filterMap.mp hfirst
        obtain ⟨s, hs, -⟩ := Option.map_eq_some_iff.mp hr
        exact ⟨⟨row, hrow, by rw [hs]; rfl⟩, haccepts.mp hdossier⟩
      · cases h
    · rintro ⟨-, hepoch⟩
      rw [if_pos (haccepts.mpr hepoch)]
      exact ⟨_, rfl⟩

end Evidence

section Witness

/-- One failed login, first seen in 2026. -/
def oneFailure : Snapshot where
  kind := .ssh
  firstSeen := 1770000000
  records := [{
    eventType := Str.ofString "auth_failure"
    eventId := Str.ofString "E1"
    sourceId := some (Str.ofString "edge")
    srcIp := some (Str.ofString "192.0.2.7")
    sshUser := some (Str.ofString "deploy")
    time := 1770000000
    method := []
    path := none
    status := 0 }]
  evidenceCount := 1
  completenessReasons := []

/-- A history of the source and account of the login. -/
def historySince (start : Int) : List (Record Str) :=
  [.history (Str.ofString "H1") (Str.ofString "192.0.2.7") (Str.ofString "edge")
    (Str.ofString "deploy") .familiar start 1769000000]

/-- What the claim asks of an inventory and a snapshot holds of the history. -/
theorem historySince_trusted (start : Int) :
    Consistent (historySince start) ∧ PriorTo oneFailure (historySince start) := by
  refine ⟨⟨?_, ?_⟩, ?_⟩
  · intro id host user c id' c' h
    simp [historySince] at h
  · intro id source host user f start stop id' f' start' stop' h h'
    simp only [historySince, List.mem_singleton, Record.history.injEq] at h h'
    rw [h.2.2.2.2.1, h'.2.2.2.2.1]
  · intro id source host user f start stop h row hrow k _
    simp only [historySince, List.mem_singleton, Record.history.injEq] at h
    simp only [oneFailure, List.mem_singleton] at hrow
    rw [h.2.2.2.2.2.2, hrow]
    decide

/-- A history that starts at second 0 is accepted, and no case can be built. -/
theorem history_from_zero_refused :
    inventory (historySince 0) = true ∧ Consistent (historySince 0) ∧
      PriorTo oneFailure (historySince 0) ∧ (oneFailure.records.map Row.key).Nodup ∧
      build [] oneFailure (historySince 0) = .error .invalid := by
  refine ⟨by decide, (historySince_trusted 0).1, (historySince_trusted 0).2,
    by decide, by decide⟩

theorem history_since_2026_accepted :
    ∃ case, build [] oneFailure (historySince 1768000000) = .ok case :=
  (build_ok_iff rfl (by decide) (by decide) (historySince_trusted _).1
    (historySince_trusted _).2).mpr
      ⟨by decide, by decide, by decide⟩

end Witness

end RiskOps.Telemetry.AiSummary
