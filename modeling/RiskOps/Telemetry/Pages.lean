import RiskOps.Telemetry.CollectionSpec
import RiskOps.Telemetry.EventPages

/-!
# RiskOps.Telemetry.Pages — the pages of the console

Model of the paginated reads of the live console: `paginate_incidents`, `paginate_incident_evidence`
and `paginate_collection_issues` of `telemetry/store.py` and `snapshot` of
`telemetry/notifications.py`, beside `paginate_events` (`RiskOps.Telemetry.EventPages`). Each counts
the rows of its query, brings the page number into range and reads one page. **All but one compute
the offset from the page they return**; `paginate_collection_issues` computes it from the page that
was requested.

Left out are the counts by triage state and by score that stand beside the incidents, their
assessments, and the counters beside the notifications.
-/

namespace RiskOps.Telemetry.Store

open RiskOps.Lib Sshd

/-! ### Pages -/

/-- `_pagination`. -/
structure Pagination where
  total : Nat
  totalPages : Nat
  page : Nat
  limit : Nat
  offset : Nat

def pagination (total limit page : Nat) : Pagination :=
  let totalPages := max 1 ((total + limit - 1) / limit)
  let page := min page totalPages
  ⟨total, totalPages, page, limit, (page - 1) * limit⟩

/-- A page of a list. -/
structure Page (α : Type) where
  items : List α
  pagination : Pagination

/-- `LIMIT ? OFFSET ?`. -/
def slice {α : Type} (limit offset : Nat) (rows : List α) : List α := (rows.drop offset).take limit

/-- What a read raises: a `ValueError`, or that SQLite does not take an integer. -/
inductive PageError
  | invalid (text : String)
  | overflow

/-- `_page_number`. -/
def checkPage (limit page : Nat) : Except String Unit :=
  if ¬ (1 ≤ limit ∧ limit ≤ 200) then .error "limit must be between 1 and 200"
  else if page < 1 then .error "page must be a positive integer"
  else .ok ()

/-! ### The tables -/

/-- A row of `incident_scores`. -/
structure Score where
  incidentId : Id
  version : String
  score : Int
  surfaced : Bool
  evidenceCount : Nat

/-- A row of `notification_inbox`. -/
structure InboxRow where
  id : Nat
  kind : String
  payload : Json
  deliveredAt : ℚ
  readAt : Option ℚ

/-- What the console reads. -/
structure Console where
  db : Db
  scores : Table Score.incidentId
  collection : Collection.Tables
  inbox : Table InboxRow.id

/-! ### Incidents -/

/-- The `focus` of a search. -/
inductive Focus
  | all
  | attention
  | low
  | unscored
  deriving DecidableEq, Repr

/-- The `sort` of a search. -/
inductive SortBy
  | recent
  | score
  deriving DecidableEq, Repr

/-- The arguments of a search for incidents. -/
structure IncidentSearch where
  sourceId : Option (List Char)
  triage : Option String
  focus : String
  sort : String
  ip : Option (List Char)
  start : Option (List Char)
  stop : Option (List Char)

/-- The `WHERE` of a search for incidents. -/
structure IncidentClauses where
  sourceId : Option (List Char)
  srcIp : Option (List Char)
  startTs : Option ℚ
  endTs : Option ℚ
  triage : Option TriageState
  focus : Focus

/-- The `triage` of a search. -/
def searchTriage : Option String → Except String (Option TriageState)
  | none => .ok none
  | some text =>
    if text = "all" then .ok none
    else match TriageState.ofText? text with
      | some state => .ok (some state)
      | none => .error "triage must be pending, acknowledged, resolved or all"

def searchFocus (text : String) : Except String Focus :=
  if text = "all" then .ok .all
  else if text = "attention" then .ok .attention
  else if text = "low" then .ok .low
  else if text = "unscored" then .ok .unscored
  else .error "focus must be all, attention, low or unscored"

/-- `_incident_filter`. -/
def incidentFilter (lib : Library) (search : IncidentSearch) : Except String IncidentClauses := do
  let peer ← searchIp search.ip
  let times ← searchTimes lib search.start search.stop
  let triage ← searchTriage search.triage
  let focus ← searchFocus search.focus
  .ok ⟨search.sourceId, peer, times.1, times.2, triage, focus⟩

/-- The `sort` that `_incident_order` knows. -/
def incidentOrder (text : String) : Except String SortBy :=
  if text = "recent" then .ok .recent
  else if text = "score" then .ok .score
  else .error "sort must be recent or score"

/-- `scoring.VERSION`. -/
def scoringVersion : String := "ssh-evidence-v2"

/-- The score of `_INCIDENT_FROM`: of this version, and of the evidence as it is counted. -/
def scoreOf (c : Console) (i : Incident) : Option Score :=
  (c.scores.find? i.incidentId).filter fun s =>
    s.version = scoringVersion ∧
      (c.db.details.find? i.incidentId).map Details.evidenceCount = some s.evidenceCount

/-- The clause of a focus. Unknown is never low. -/
def Focus.selects (focus : Focus) (score : Option Score) : Bool :=
  match focus with
  | .all => true
  | .attention => score.all Score.surfaced
  | .low => score.any fun s => !s.surfaced
  | .unscored => score.isNone

/-- A row the `WHERE` selects. -/
def IncidentClauses.selects (w : IncidentClauses) (c : Console) (i : Incident) : Bool :=
  i.mergedInto.isNone && w.srcIp.all (fun x => i.srcIp = some x)
    && w.startTs.all (fun t => t ≤ i.lastTs) && w.endTs.all (fun t => i.firstTs ≤ t)
    && w.sourceId.all (fun s =>
      i.sourceId = s || (c.db.incidentSources.find? (i.incidentId, s)).isSome)
    && w.triage.all (fun state => triageState c.db i.incidentId = state)
    && w.focus.selects (scoreOf c i)

/-- `last_ts DESC,incident_id`. -/
def recentOrder (i : Incident) : ℚᵒᵈ ×ₗ List Char := toLex (OrderDual.toDual i.lastTs, i.incidentId)

/-- `ORDER BY`; unscored incidents come first. -/
def SortBy.le (sort : SortBy) (c : Console) (i j : Incident) : Bool :=
  let scored (i : Incident) : ℕ ×ₗ (ℤᵒᵈ ×ₗ (ℚᵒᵈ ×ₗ List Char)) :=
    toLex (if (scoreOf c i).isNone then 0 else 1,
      toLex (OrderDual.toDual (((scoreOf c i).map Score.score).getD 0), recentOrder i))
  match sort with
  | .recent => recentOrder i ≤ recentOrder j
  | .score => scored i ≤ scored j

/-- The selected incidents in order. -/
def incidentRows (c : Console) (w : IncidentClauses) (sort : SortBy) : List Incident :=
  (c.db.incidents.select (w.selects c)).insertionSort fun i j => sort.le c i j

/-- `_EVIDENCE_RESPONSE_LIMIT`. -/
def evidenceResponseLimit : Nat := 20

/-- The evidence of an incident, in order. -/
def sortedEvidence (evidence : List Evidence) : List Evidence :=
  evidence.insertionSort fun a b => rowOrder a.row ≤ rowOrder b.row

/-- A value as the column `rule_id` holds it. -/
def ruleText : RuleId → String
  | .burst => "burst"
  | .slowScan => "slow_scan"
  | .multiAccount => "multi_account"
  | .crossSource => "cross_source"
  | .successAfterFailures => "success_after_failures"

/-- What `_incidents` returns for a row. -/
structure IncidentItem where
  incident : Incident
  triage : Option Triage
  high : Bool
  sourceIds : List (List Char)
  hostnames : List (List Char)
  rules : List IncidentRule
  successCount : Nat
  usernameCount : Nat
  usernames : List (List Char)
  usernamesTruncated : Bool
  evidenceCount : Nat
  evidenceTruncated : Bool
  evidence : List Evidence

/-- One row of `_incidents`. -/
def incidentItem (c : Console) (includeEvidence : Bool) (i : Incident) : IncidentItem :=
  let evidence := if includeEvidence then
    (sortedEvidence (evidenceOf c.db i.incidentId)).take evidenceResponseLimit else []
  let sources := (c.db.incidentSources.select fun s => s.incidentId = i.incidentId).insertionSort
    fun a b => a.sourceId ≤ b.sourceId
  let rules := (c.db.rules.select fun r => r.incidentId = i.incidentId).insertionSort
    fun a b => ruleText a.ruleId ≤ ruleText b.ruleId
  let detail := c.db.details.find? i.incidentId
  let count := (detail.map Details.evidenceCount).getD i.failureCount
  { incident := i
    triage := c.db.triage.find? i.incidentId
    high := rules.any fun r => r.ruleId = .successAfterFailures
    sourceIds := if sources = [] then [i.sourceId] else sources.map IncidentSource.sourceId
    hostnames := if sources = [] then [i.hostname] else sources.map IncidentSource.hostname
    rules := rules
    successCount := (detail.map Details.successCount).getD 0
    usernameCount := (detail.map Details.usernameCount).getD 0
    usernames := (detail.map Details.usernames).getD []
    usernamesTruncated := detail.any fun d => d.usernames.length < d.usernameCount
    evidenceCount := count
    evidenceTruncated := evidence.length < count
    evidence := evidence }

/-- `paginate_incidents`. -/
def paginateIncidents (lib : Library) (c : Console) (search : IncidentSearch)
    (includeEvidence : Bool) (limit page : Nat) : Except String (Page IncidentItem) := do
  checkPage limit page
  let w ← incidentFilter lib search
  let total := (c.db.incidents.select (w.selects c)).length
  let shown := pagination total limit page
  let sort ← incidentOrder search.sort
  let rows := slice limit shown.offset (incidentRows c w sort)
  .ok ⟨rows.map (incidentItem c includeEvidence), shown⟩

/-! ### The evidence of an incident -/

/-- The clause of an optional `source_id`, which may be empty. -/
def ofSource (sourceId : Option (List Char)) (s : List Char) : Bool :=
  (sourceId.filter (· ≠ [])).all fun x => s = x

/-- The rows of `incident_evidence`. -/
def evidenceRows (c : Console) (id : Id) (sourceId : Option (List Char)) : List Evidence :=
  (evidenceOf c.db id).filter fun e => ofSource sourceId e.row.sourceId

/-- `paginate_incident_evidence`. -/
def paginateIncidentEvidence (c : Console) (id : Id) (sourceId : Option (List Char))
    (limit page : Nat) : Except String (Option (Page Evidence)) := do
  checkPage limit page
  let canonical := canonicalIncident c.db id
  if (c.db.incidents.find? canonical).isNone then .ok none
  else
    let rows := evidenceRows c canonical sourceId
    let shown := pagination rows.length limit page
    .ok (some ⟨slice limit shown.offset (sortedEvidence rows), shown⟩)

/-! ### Collection issues -/

/-- The largest integer SQLite takes. -/
def maxSqlInteger : Nat := 9223372036854775807

/-- The rows of `collection_issues`, newest first. -/
def issueRows (c : Console) (sourceId : Option (List Char)) : List Collection.Issue :=
  (c.collection.issues.filter fun i => ofSource sourceId i.sourceId).insertionSort
    fun i j => j.issueId ≤ i.issueId

/-- `collection.issues`: the count and the rows behind an offset. -/
def issues (c : Console) (sourceId : Option (List Char)) (limit offset : Nat) :
    Except PageError (Nat × List Collection.Issue) :=
  let total := (c.collection.issues.filter fun i => ofSource sourceId i.sourceId).length
  if maxSqlInteger < offset then .error .overflow
  else .ok (total, slice limit offset (issueRows c sourceId))

/-- `paginate_collection_issues`. -/
def paginateCollectionIssues (c : Console) (sourceId : Option (List Char)) (limit page : Nat) :
    Except PageError (Page Collection.Issue) := do
  (checkPage limit page).mapError .invalid
  -- The offset of the requested page, before it is brought into range.
  let (total, items) ← issues c sourceId limit ((page - 1) * limit)
  .ok ⟨items, pagination total limit page⟩

/-! ### Notifications -/

/-- The kinds of notifications. -/
def notificationKinds : List String :=
  ["incident", "http_incident", "network_incident", "network_collection", "collection", "health",
    "briefing"]

/-- The rows of `notification_inbox` that `snapshot` selects. -/
def inboxRows (c : Console) (unread : Bool) (kind : Option String) : List InboxRow :=
  c.inbox.select fun r => (!unread || r.readAt.isNone) && kind.all fun k => r.kind = k

/-- `notifications.snapshot`. -/
def snapshot (c : Console) (unread : Bool) (kind : Option String) (limit page : Nat) :
    Page InboxRow :=
  let rows := inboxRows c unread kind
  let pages := max 1 ((rows.length + limit - 1) / limit)
  let page := min page pages
  let offset := (page - 1) * limit
  ⟨slice limit offset (rows.insertionSort fun a b => b.id ≤ a.id),
    ⟨rows.length, pages, page, limit, offset⟩⟩

/-- `list_notifications`. -/
def listNotifications (c : Console) (unread : Bool) (kind : Option String) (limit page : Nat) :
    Except String (Page InboxRow) := do
  checkPage limit page
  if kind.all fun k => k ∈ notificationKinds then .ok (snapshot c unread kind limit page)
  else .error "invalid notification kind"

/-! ### Every view -/

/-- A paginated read. -/
inductive Listing
  | events (sourceId : Option (List Char)) (filters : Filters)
  | incidents (search : IncidentSearch) (includeEvidence : Bool)
  | evidence (id : Id) (sourceId : Option (List Char))
  | issues (sourceId : Option (List Char))
  | inbox (unread : Bool) (kind : Option String)

/-- What a page can hold. -/
inductive Item
  | event (e : StoredEvent)
  | incident (i : IncidentItem)
  | evidence (e : Evidence)
  | issue (i : Collection.Issue)
  | notice (r : InboxRow)

def Page.map {α β : Type} (f : α → β) (p : Page α) : Page β := ⟨p.items.map f, p.pagination⟩

/-- A page of records. -/
def EventPage.asPage (r : EventPage) : Page StoredEvent :=
  ⟨r.items, ⟨r.total, r.totalPages, r.page, r.limit, r.offset⟩⟩

/-- A read. There is no page of the evidence of an incident that does not exist. -/
def serve (lib : Library) (c : Console) (v : Listing) (limit page : Nat) :
    Except PageError (Option (Page Item)) :=
  match v with
  | .events sourceId f =>
    ((paginateEvents lib c.db sourceId limit page f).mapError .invalid).map fun r =>
      some (r.asPage.map .event)
  | .incidents search includeEvidence =>
    ((paginateIncidents lib c search includeEvidence limit page).mapError .invalid).map fun p =>
      some (p.map .incident)
  | .evidence id sourceId =>
    ((paginateIncidentEvidence c id sourceId limit page).mapError .invalid).map fun p =>
      p.map (Page.map .evidence)
  | .issues sourceId =>
    (paginateCollectionIssues c sourceId limit page).map fun p => some (p.map .issue)
  | .inbox unread kind =>
    ((listNotifications c unread kind limit page).mapError .invalid).map fun p =>
      some (p.map .notice)

/-- The full ordered result of a read whose arguments are valid. -/
def fullRows (lib : Library) (c : Console) : Listing → List Item
  | .events sourceId f =>
    match eventFilter lib sourceId f with
    | .ok w => ((c.db.events.select (selects c.db w)).insertionSort
        fun a b => pageOrder a ≤ pageOrder b).map .event
    | .error _ => []
  | .incidents search includeEvidence =>
    match incidentFilter lib search, incidentOrder search.sort with
    | .ok w, .ok sort =>
      ((incidentRows c w sort).map (incidentItem c includeEvidence)).map .incident
    | _, _ => []
  | .evidence id sourceId =>
    (sortedEvidence (evidenceRows c (canonicalIncident c.db id) sourceId)).map .evidence
  | .issues sourceId => (issueRows c sourceId).map .issue
  | .inbox unread kind =>
    ((inboxRows c unread kind).insertionSort fun a b => b.id ≤ a.id).map .notice

/-! ### Which pages are what they say -/

/-- A page of a list is the page it says it is: the requested one, or the last. -/
structure IsPage {α : Type} (rows : List α) (limit requested : Nat) (p : Page α) : Prop where
  total : p.pagination.total = rows.length
  totalPages : p.pagination.totalPages = max 1 ((rows.length + limit - 1) / limit)
  page : p.pagination.page = min requested p.pagination.totalPages
  items : p.items = slice limit ((p.pagination.page - 1) * limit) rows

/-- **A read shows what it says.** A request that is refused shows nothing; a failing query is no
answer to a valid request. -/
def ShowsItsPage (lib : Library) (c : Console) (v : Listing) (limit page : Nat) : Prop :=
  match serve lib c v limit page with
  | .ok (some p) => IsPage (fullRows lib c v) limit page p
  | .ok none => True
  | .error e => e ≠ .overflow

/-- Only collection issues have a range: a page that exists, unless there is none to show, and an
offset that SQLite takes. -/
def InRange (c : Console) (v : Listing) (limit page : Nat) : Prop :=
  ∀ sourceId, v = .issues sourceId →
    (page ≤ max 1 (((issueRows c sourceId).length + limit - 1) / limit) ∨
        issueRows c sourceId = []) ∧
      (page - 1) * limit ≤ maxSqlInteger

section

variable {α β : Type}

theorem slice_map (f : α → β) (limit offset : Nat) (rows : List α) :
    (slice limit offset rows).map f = slice limit offset (rows.map f) := by
  rw [slice, slice, List.map_take, List.map_drop]

/-- **The offset of the returned page.** -/
theorem isPage_pagination {rows : List α} {total limit page : Nat} (h : total = rows.length) :
    IsPage rows limit page
      ⟨slice limit (pagination total limit page).offset rows, pagination total limit page⟩ := by
  subst h
  exact ⟨rfl, rfl, rfl, rfl⟩

theorem IsPage.map {rows : List α} {limit page : Nat} {p : Page α} (h : IsPage rows limit page p)
    (f : α → β) : IsPage (rows.map f) limit page (p.map f) where
  total := by rw [List.length_map]; exact h.total
  totalPages := by rw [List.length_map]; exact h.totalPages
  page := h.page
  items := by
    rw [Page.map, h.items]
    exact slice_map f limit _ rows

/-- The offset of a page behind the last one is behind every row. -/
theorem slice_behind {rows : List α} {limit page : Nat} (hlimit : 1 ≤ limit)
    (h : max 1 ((rows.length + limit - 1) / limit) < page) :
    slice limit ((page - 1) * limit) rows = [] := by
  have hdiv := Nat.lt_div_mul_add (a := rows.length + limit - 1) (b := limit) hlimit
  have hmul : (rows.length + limit - 1) / limit * limit ≤ (page - 1) * limit :=
    Nat.mul_le_mul_right _ (by omega)
  rw [slice, List.drop_eq_nil_of_le (by omega), List.take_nil]

/-- The last page of some rows is not empty. -/
theorem slice_last {rows : List α} {limit : Nat} (hlimit : 1 ≤ limit) (hne : rows ≠ []) :
    slice limit ((max 1 ((rows.length + limit - 1) / limit) - 1) * limit) rows ≠ [] := by
  have hpos : 0 < rows.length := List.length_pos_of_ne_nil hne
  have hlt : (max 1 ((rows.length + limit - 1) / limit) - 1) * limit < rows.length := by
    have hle := Nat.div_mul_le_self (rows.length + limit - 1) limit
    have hge : 1 ≤ (rows.length + limit - 1) / limit := (Nat.one_le_div_iff hlimit).mpr (by omega)
    rw [max_eq_right hge, Nat.sub_mul, one_mul]
    omega
  intro hnil
  have hlen := congrArg List.length hnil
  rw [slice, List.length_take, List.length_drop, List.length_nil] at hlen
  omega

end

/-! ### Each read -/

section

variable {lib : Library} {c : Console} {limit page : Nat}

theorem shows_of {v : Listing}
    (hok : ∀ p, serve lib c v limit page = .ok (some p) → IsPage (fullRows lib c v) limit page p)
    (herror : ∀ e, serve lib c v limit page = .error e → e ≠ .overflow) :
    ShowsItsPage lib c v limit page := by
  unfold ShowsItsPage
  split
  · rename_i p hp
    exact hok p hp
  · trivial
  · rename_i e he
    exact herror e he

/-- A `ValueError` is no overflow. -/
theorem invalid_of_mapError {α β : Type} {x : Except String α} {f : α → β} {e : PageError}
    (h : (x.mapError .invalid).map f = .error e) : e ≠ .overflow := by
  cases x with
  | ok a => exact nomatch h
  | error text =>
    obtain rfl := Except.error.inj h
    exact nofun

theorem ok_of_mapError {α β : Type} {x : Except String α} {f : α → β} {b : β}
    (h : (x.mapError PageError.invalid).map f = .ok b) : ∃ a, x = .ok a ∧ f a = b := by
  cases x with
  | ok a => exact ⟨a, rfl, Except.ok.inj h⟩
  | error text => exact nomatch h

/-- Without a token nothing bounds the search. -/
theorem bound_none_of {sourceId : Option (List Char)} {f : Filters} {w : Clauses}
    (hw : eventFilter lib sourceId f = .ok w)
    (hnone : ∀ snapshot bound, f.snapshot = some snapshot → w.bound = some bound → False) :
    w.bound = none := by
  have hbound := bound_of_eventFilter hw
  cases hsnapshot : f.snapshot with
  | none =>
    rw [hsnapshot] at hbound
    exact (Except.ok.inj hbound).symm
  | some snapshot =>
    cases hw' : w.bound with
    | none => rfl
    | some bound => exact (hnone snapshot bound hsnapshot hw').elim

/-- The rows a valid search for records selects. -/
theorem eventRows_page {sourceId : Option (List Char)} {f : Filters} {r : EventPage}
    (hr : Receipted c.db) (h : paginateEvents lib c.db sourceId limit page f = .ok r) :
    ∃ w, eventFilter lib sourceId f = .ok w ∧
      IsPage ((c.db.events.select (selects c.db w)).insertionSort
        fun a b => pageOrder a ≤ pageOrder b) limit page r.asPage := by
  have hview : ∀ {w : Clauses} {bound : Nat} (token : List Char),
      w.bound = some bound ∨ w.bound = none ∧ receiptHead c.db ≤ bound →
      IsPage ((c.db.events.select (selects c.db w)).insertionSort
        fun a b => pageOrder a ≤ pageOrder b) limit page
        (pageOf c.db (countView c.db w bound) limit page token).asPage := by
    intro w bound token hbound
    obtain ⟨htotal, hitems⟩ := countView_spec hr hbound
    have hselect : c.db.events.select (selects c.db w) = viewRows c.db w bound := by
      rcases hbound with hbound | ⟨hnone, hhead⟩
      · exact select_bound hbound
      · rw [select_base hnone, viewRows_head hr w hhead]
    rw [hselect]
    have hlength : (countView c.db w bound).2 = ((viewRows c.db w bound).insertionSort
        fun a b => pageOrder a ≤ pageOrder b).length := by
      rw [List.length_insertionSort, htotal]
    refine ⟨hlength, by rw [← hlength]; rfl, rfl, ?_⟩
    show (if (countView c.db w bound).2 = 0 then [] else _) = _
    split
    · rename_i hzero
      rw [hzero, eq_comm, List.length_eq_zero_iff] at hlength
      rw [hlength, slice, List.drop_nil, List.take_nil]
    · rename_i hpos
      rw [eventRows, hitems.resolve_left hpos]
      rfl
  rw [paginateEvents] at h
  split at h
  · cases h
  · split at h
    · cases h
    · cases hw : eventFilter lib sourceId f with
      | error e =>
        rw [hw] at h
        cases h
      | ok w =>
        rw [hw] at h
        refine ⟨w, rfl, ?_⟩
        dsimp only at h
        split at h
        · rename_i snapshot bound hsnapshot hbound
          obtain rfl := Except.ok.inj h
          exact hview snapshot (.inl hbound)
        · rename_i hnone
          obtain rfl := Except.ok.inj h
          refine hview _ (.inr ⟨bound_none_of hw hnone, le_refl _⟩)

theorem incidentRows_page {search : IncidentSearch} {includeEvidence : Bool} {p : Page IncidentItem}
    (h : paginateIncidents lib c search includeEvidence limit page = .ok p) :
    ∃ w sort, incidentFilter lib search = .ok w ∧ incidentOrder search.sort = .ok sort ∧
      IsPage ((incidentRows c w sort).map (incidentItem c includeEvidence)) limit page p := by
  obtain ⟨-, -, h⟩ := bind_eq_ok.mp h
  obtain ⟨w, hw, h⟩ := bind_eq_ok.mp h
  obtain ⟨sort, hsort, h⟩ := bind_eq_ok.mp h
  obtain rfl := Except.ok.inj h
  have hlength : (c.db.incidents.select (w.selects c)).length = (incidentRows c w sort).length :=
    (List.length_insertionSort _ _).symm
  exact ⟨w, sort, hw, hsort, (isPage_pagination hlength).map _⟩

theorem evidenceRows_page {id : Id} {sourceId : Option (List Char)} {p : Page Evidence}
    (h : paginateIncidentEvidence c id sourceId limit page = .ok (some p)) :
    IsPage (sortedEvidence (evidenceRows c (canonicalIncident c.db id) sourceId)) limit page p := by
  obtain ⟨-, -, h⟩ := bind_eq_ok.mp h
  dsimp only at h
  split at h
  · exact nomatch Except.ok.inj h
  · obtain rfl := Option.some.inj (Except.ok.inj h)
    exact isPage_pagination (List.length_insertionSort _ _).symm

theorem inboxRows_page {unread : Bool} {kind : Option String} {p : Page InboxRow}
    (h : listNotifications c unread kind limit page = .ok p) :
    IsPage ((inboxRows c unread kind).insertionSort fun a b => b.id ≤ a.id) limit page p := by
  obtain ⟨-, -, h⟩ := bind_eq_ok.mp h
  split at h
  · obtain rfl := Except.ok.inj h
    have hlength := List.length_insertionSort (fun a b : InboxRow => b.id ≤ a.id)
      (inboxRows c unread kind)
    exact ⟨hlength.symm, by rw [hlength]; rfl, rfl, rfl⟩
  · exact nomatch h

/-- **Collection issues show their page exactly when it is in range.** -/
theorem issues_shown_iff (sourceId : Option (List Char)) (hlimit : 1 ≤ limit ∧ limit ≤ 200)
    (hpage : 1 ≤ page) :
    ShowsItsPage lib c (.issues sourceId) limit page ↔ InRange c (.issues sourceId) limit page := by
  have hcheck : checkPage limit page = .ok () := by
    rw [checkPage, if_neg (not_not_intro hlimit), if_neg (by omega)]
  have hlength : (issueRows c sourceId).length =
      (c.collection.issues.filter fun i => ofSource sourceId i.sourceId).length :=
    List.length_insertionSort _ _
  have hrange : InRange c (.issues sourceId) limit page ↔
      (page ≤ max 1 (((issueRows c sourceId).length + limit - 1) / limit) ∨
        issueRows c sourceId = []) ∧ (page - 1) * limit ≤ maxSqlInteger :=
    ⟨fun h => h sourceId rfl, fun h s hs => by obtain rfl := Listing.issues.inj hs; exact h⟩
  rw [hrange]
  by_cases hoverflow : maxSqlInteger < (page - 1) * limit
  · have hserve : serve lib c (.issues sourceId) limit page = .error .overflow := by
      rw [serve, paginateCollectionIssues, hcheck, issues, if_pos hoverflow]
      rfl
    rw [ShowsItsPage, hserve]
    exact ⟨fun h => absurd rfl h, fun h => absurd hoverflow (not_lt.mpr h.2)⟩
  · have hserve : serve lib c (.issues sourceId) limit page = .ok (some
        ⟨(slice limit ((page - 1) * limit) (issueRows c sourceId)).map .issue,
          pagination (issueRows c sourceId).length limit page⟩) := by
      rw [serve, paginateCollectionIssues, hcheck, issues, if_neg hoverflow, hlength]
      rfl
    rw [ShowsItsPage, hserve]
    dsimp only [fullRows]
    constructor
    · intro h
      refine ⟨?_, not_lt.mp hoverflow⟩
      by_contra hout
      obtain ⟨hpages, hne⟩ := not_or.mp hout
      -- Behind the last page nothing is read, but the last page is what the number says.
      have hitems := h.items
      rw [← slice_map, slice_behind hlimit.1 (not_le.mp hpages), List.map_nil] at hitems
      have hlast := slice_last hlimit.1 hne
      rw [← min_eq_right (not_le.mp hpages).le] at hlast
      exact hlast (List.map_eq_nil_iff.mp hitems.symm)
    · intro ⟨hin, _⟩
      have hpage' : IsPage (issueRows c sourceId) limit page _ := isPage_pagination rfl
      have hitems : slice limit (pagination (issueRows c sourceId).length limit page).offset
          (issueRows c sourceId) = slice limit ((page - 1) * limit) (issueRows c sourceId) := by
        rcases hin with hle | hnil
        · rw [pagination]
          dsimp only
          rw [min_eq_left hle]
        · rw [hnil, slice, slice, List.drop_nil, List.drop_nil]
      rw [hitems] at hpage'
      exact hpage'.map Item.issue

end

/-- **Every page shown is the page it says it is**, where the offset is the one of the page
returned. A valid request for records, incidents, their evidence or notifications gets the rows of
the requested page or of the last one; a request for collection issues does exactly when its page is
in range. -/
theorem pages_shown (env : Env) (ops : List Op) (c : Console) (hc : c.db = (liveAfter env ops).db)
    (v : Listing) {limit page : Nat} (hlimit : 1 ≤ limit ∧ limit ≤ 200) (hpage : 1 ≤ page) :
    ShowsItsPage env.lib c v limit page ↔ InRange c v limit page := by
  have hr : Receipted c.db := hc ▸ receipted_run env ops
  cases v with
  | issues sourceId => exact issues_shown_iff sourceId hlimit hpage
  | events sourceId f =>
    refine iff_of_true (shows_of (fun p hp => ?_) fun e he => invalid_of_mapError he)
      (fun _ h => nomatch h)
    obtain ⟨r, hok, hp⟩ := ok_of_mapError hp
    obtain rfl := Option.some.inj hp
    obtain ⟨w, hw, hshown⟩ := eventRows_page hr hok
    rw [fullRows, hw]
    exact hshown.map _
  | incidents search includeEvidence =>
    refine iff_of_true (shows_of (fun p hp => ?_) fun e he => invalid_of_mapError he)
      (fun _ h => nomatch h)
    obtain ⟨r, hok, hp⟩ := ok_of_mapError hp
    obtain rfl := Option.some.inj hp
    obtain ⟨w, sort, hw, hsort, hshown⟩ := incidentRows_page hok
    rw [fullRows, hw, hsort]
    exact hshown.map _
  | evidence id sourceId =>
    refine iff_of_true (shows_of (fun p hp => ?_) fun e he => invalid_of_mapError he)
      (fun _ h => nomatch h)
    obtain ⟨r, hok, hp⟩ := ok_of_mapError hp
    obtain ⟨r, rfl, rfl⟩ := Option.map_eq_some_iff.mp hp
    exact (evidenceRows_page hok).map _
  | inbox unread kind =>
    refine iff_of_true (shows_of (fun p hp => ?_) fun e he => invalid_of_mapError he)
      (fun _ h => nomatch h)
    obtain ⟨r, hok, hp⟩ := ok_of_mapError hp
    obtain rfl := Option.some.inj hp
    exact (inboxRows_page hok).map _

/-- A console with one open delay. -/
def oneDelay : Console where
  db := .init
  scores := .empty
  collection := Collection.openIssue .empty ['a'] "source_error" "" ['b'] 0
  inbox := .empty

/-- The second page of one issue shows nothing under the number of the first. -/
theorem second_page_of_one_delay :
    ¬ ShowsItsPage tallyEnv.lib oneDelay (.issues none) 50 2 := by
  intro h
  have hrange := ((issues_shown_iff none (by decide) (by decide)).mp h none rfl).1
  have hone : (issueRows oneDelay none).length = 1 := rfl
  rw [hone] at hrange
  rcases hrange with hle | hnil
  · exact absurd hle (by decide)
  · rw [hnil] at hone
    exact nomatch hone

/-- A console with an open delay of each of three sources. -/
def threeDelays : Console :=
  { oneDelay with
    collection := [['b'], ['c']].foldl
      (fun t s => Collection.openIssue t s "source_error" "" ['b'] 1) oneDelay.collection }

/-- The second page of two holds the third one. -/
theorem last_page_of_three_delays : (issueRows threeDelays none).length = 3 ∧
    ShowsItsPage tallyEnv.lib threeDelays (.issues none) 2 2 := by
  refine ⟨by decide, (pages_shown tallyEnv [] threeDelays rfl (.issues none) (by decide)
    (by decide)).mpr fun sourceId h => ?_⟩
  obtain rfl := Listing.issues.inj h
  decide

end RiskOps.Telemetry.Store
