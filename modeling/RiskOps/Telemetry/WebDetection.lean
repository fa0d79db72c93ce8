import RiskOps.Lib.Sliding

/-!
# RiskOps.Telemetry.WebDetection — request patterns in access records

Model of `telemetry/web_detection.py`: **which requests of a set form which pattern.** Two
rules match single requests and group neighbours; the scan rule slides a window over the
requests of one source, service and peer and joins the windows that qualify.

Times are exact numbers of seconds. A `Counter` is the list of what was counted, so its
length as a dictionary is the number of distinct entries. Case folding is a parameter.
-/

namespace RiskOps.Telemetry.Http

open RiskOps.Lib RiskOps.Lib.Sliding

/-! ### Records and findings -/

/-- `HttpEvent`. -/
structure HttpEvent where
  sourceId : List Char
  serviceId : List Char
  eventId : List Char
  timestamp : List Char
  eventTs : ℚ
  clientIp : List Char
  method : List Char
  path : List Char
  decodedPath : List Char
  status : Nat
  deriving DecidableEq

/-- `(source_id, event_id)`. -/
def HttpEvent.key (e : HttpEvent) : List Char × List Char := (e.sourceId, e.eventId)

/-- The sort key `(event_ts, key)`. -/
def HttpEvent.order (e : HttpEvent) : ℚ ×ₗ (List Char ×ₗ List Char) :=
  toLex (e.eventTs, toLex e.key)

/-- `(source_id, service_id, client_ip)`. -/
abbrev Peer := List Char × List Char × List Char

/-- The group of a record. -/
def HttpEvent.peer (e : HttpEvent) : Peer := (e.sourceId, e.serviceId, e.clientIp)

/-- The rule ids. -/
inductive RuleId where
  | sensitiveResource
  | pathTraversal
  | multiPathScan
  deriving DecidableEq, Repr

/-- The text of a rule id. -/
def RuleId.name : RuleId → String
  | .sensitiveResource => "http_sensitive_resource"
  | .pathTraversal => "http_path_traversal"
  | .multiPathScan => "http_multi_path_scan"

/-- `WebFinding`. -/
structure WebFinding where
  ruleId : RuleId
  ruleVersion : Nat
  sourceId : List Char
  serviceId : List Char
  clientIp : List Char
  firstSeen : List Char
  lastSeen : List Char
  windowSeconds : Nat
  evidenceIds : List (List Char)
  reason : String
  deriving DecidableEq

/-- `RULE_VERSION`. -/
def ruleVersion : Nat := 1

/-- `WINDOW_SECONDS`. -/
def windowSeconds : Nat := 300

/-- `SCAN_MIN_RECORDS`. -/
def scanMinRecords : Nat := 20

/-- `SCAN_MIN_PATHS`. -/
def scanMinPaths : Nat := 10

/-- `SCAN_DENIED_PERCENT`. -/
def scanDeniedPercent : Nat := 80

/-- `status in _DENIED`. -/
def denied (e : HttpEvent) : Bool := e.status == 403 || e.status == 404

/-- One record of `unique_events`: a key that is known must come with the same record. -/
def addUnique (unique : List HttpEvent) (e : HttpEvent) : Except String (List HttpEvent) :=
  match unique.find? fun u => u.key = e.key with
  | some u => if u = e then .ok unique else .error "conflicting HTTP evidence identity"
  | none => .ok (unique ++ [e])

/-- `unique_events`. -/
def uniqueEvents (events : List HttpEvent) : Except String (List HttpEvent) := do
  let unique ← events.foldlM addUnique []
  .ok (unique.insertionSort fun a b => a.order ≤ b.order)

/-! ### Rules for one request -/

/-- `_segments`: a backslash separates as a slash does. -/
def segments (e : HttpEvent) : List (List Char) :=
  (e.decodedPath.map fun c => if c = '\\' then '/' else c).splitOn '/'

/-- `_RESOURCE_NAMES`. -/
def resourceNames : List (List Char) :=
  [".git".toList, ".svn".toList, ".hg".toList, ".htpasswd".toList, "wp-config.php".toList,
    "wp-config.php.bak".toList, "wp-config.php.old".toList]

/-- `_sensitive`. -/
def sensitive (casefold : List Char → List Char) (e : HttpEvent) : Bool :=
  (segments e).any fun part =>
    resourceNames.contains (casefold part) || casefold part == ".env".toList
      || ".env.".toList.isPrefixOf (casefold part)

/-- `_traversal`. -/
def traversal (e : HttpEvent) : Bool := (segments e).contains "..".toList

/-- `_finding`; the rows are never empty. -/
def finding? (rule : RuleId) (rows : List HttpEvent) (reason : String) : Option WebFinding := do
  let first ← rows.head?
  let last ← rows.getLast?
  some ⟨rule, ruleVersion, first.sourceId, first.serviceId, first.clientIp, first.timestamp,
    last.timestamp, windowSeconds, rows.map HttpEvent.eventId, reason⟩

/-- One row of `_point_findings`; the groups and their rows stand newest first. -/
def addPoint (predicate : HttpEvent → Bool) (groups : List (List HttpEvent)) (e : HttpEvent) :
    List (List HttpEvent) :=
  if predicate e then
    match groups with
    | (last :: group) :: older =>
      if e.eventTs - last.eventTs > windowSeconds then [e] :: groups
      else (e :: last :: group) :: older
    | _ => [e] :: groups
  else groups

/-- The groups of `_point_findings`. -/
def pointGroups (predicate : HttpEvent → Bool) (rows : List HttpEvent) : List (List HttpEvent) :=
  ((rows.foldl (addPoint predicate) []).map List.reverse).reverse

/-- `_point_findings`. -/
def pointFindings (rows : List HttpEvent) (rule : RuleId) (predicate : HttpEvent → Bool)
    (description : String) : List WebFinding :=
  (pointGroups predicate rows).filterMap fun group =>
    finding? rule group (description ++ " " ++ toString group.length ++
      " matching request record(s); adjacent matches within 300 seconds grouped. " ++
      "This does not prove compromise.")

/-! ### The scan rule -/

/-- The counters of `_scan_findings`. -/
structure ScanCounts where
  paths : List (List Char)
  denied : Nat

/-- The window of `_scan_findings`. -/
def scanRule : Rule HttpEvent ScanCounts where
  time := HttpEvent.eventTs
  width := windowSeconds
  init := ⟨[], 0⟩
  enter c e := ⟨c.paths ++ [e.decodedPath], c.denied + (denied e).toNat⟩
  leave c e := ⟨c.paths.erase e.decodedPath, c.denied - (denied e).toNat⟩
  live records c := !(decide (records < scanMinRecords) || decide (c.paths.dedup.length < scanMinPaths)
    || decide (c.denied * 100 < scanDeniedPercent * records))

/-- `_scan_findings`. -/
def scanFindings (rows : List HttpEvent) : List WebFinding :=
  (scanRule.scan rows).filterMap fun iv =>
    finding? .multiPathScan (iv.rows rows)
      ("At least " ++ toString scanMinRecords ++ " requests across " ++ toString scanMinPaths ++
        " distinct query-free decoded paths, with at least " ++ toString scanDeniedPercent ++
        "% HTTP 403/404 responses in a " ++ toString windowSeconds ++ "-second window. " ++
        toString iv.count ++ " qualifying window(s) linked by shared evidence; " ++
        "automation or a crawler can also produce this pattern.")

/-! ### All rules -/

/-- The sort key of findings. -/
def WebFinding.order (f : WebFinding) : List Char ×ₗ List Char ×ₗ List Char ×ₗ List Char ×ₗ
    List Char ×ₗ List (List Char) :=
  toLex (f.firstSeen, toLex (f.sourceId, toLex (f.serviceId, toLex (f.clientIp,
    toLex (f.ruleId.name.toList, f.evidenceIds)))))

/-- The findings of one group. -/
def peerFindings (casefold : List Char → List Char) (rows : List HttpEvent) : List WebFinding :=
  pointFindings rows .sensitiveResource (sensitive casefold)
      "A request path names a known sensitive resource." ++
    (pointFindings rows .pathTraversal traversal
      "A request path contains a parent-directory segment after bounded decoding." ++
      scanFindings rows)

/-- The sort key of a group. -/
def peerOrder (p : Peer) : List Char ×ₗ List Char ×ₗ List Char := toLex (p.1, toLex p.2)

/-- The keys of the groups, sorted. -/
def peers (rows : List HttpEvent) : List Peer :=
  (rows.map HttpEvent.peer).dedup.insertionSort fun a b => peerOrder a ≤ peerOrder b

/-- `detect_web`. -/
def detectWeb (casefold : List Char → List Char) (events : List HttpEvent) :
    Except String (List WebFinding) := do
  let rows ← uniqueEvents events
  .ok (((peers rows).flatMap fun p =>
    peerFindings casefold (rows.filter fun e => e.peer = p)).insertionSort
      fun a b => a.order ≤ b.order)

end RiskOps.Telemetry.Http
