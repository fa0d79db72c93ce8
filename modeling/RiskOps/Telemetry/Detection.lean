import RiskOps.Telemetry.SshdParse

/-!
# RiskOps.Telemetry.Detection — rolling windows over SSH records

Model of `telemetry/detection.py`: **which records of a set trip which rule.** Each rule
slides a window over the records of one source and peer (or of one peer across
sources), keeps the windows that satisfy it and hold a trigger record, and returns
windows that overlap as one match.

Times are exact numbers of seconds. A `Counter` is the list of what was counted, so its
length as a dictionary is the number of distinct entries.
-/

namespace RiskOps.Telemetry

open RiskOps.Lib Sshd

/-! ### Records -/

/-- `(source_id, event_id)`. -/
abbrev Key := List Char × List Char

/-- A stored SSH record: the columns of `events` that detection reads. -/
structure Row where
  sourceId : List Char
  eventId : List Char
  eventTs : ℚ
  eventType : EventKind
  srcIp : Option (List Char)
  sshUser : Option (List Char)
  deriving DecidableEq

/-- The primary key of `events` and of `incident_evidence`. -/
def Row.key (row : Row) : Key := (row.sourceId, row.eventId)

/-- `_FAILURE_TYPES`. -/
def failureType : EventKind → Bool
  | .authFailure | .invalidUser | .preauthAbort | .sshFailure => true
  | _ => false

/-- `_SUCCESS_TYPES`. -/
def successType : EventKind → Bool
  | .authSuccess | .sshSuccess => true
  | _ => false

/-- `AUTHENTICATION_FAILURE_TYPES`. -/
def authenticationFailureType : EventKind → Bool
  | .authFailure | .invalidUser | .sshFailure => true
  | _ => false

/-- `_Event`. -/
structure Event where
  row : Row
  key : Key
  source : List Char
  peer : List Char
  «at» : ℚ
  kind : EventKind
  user : Option (List Char)
  deriving DecidableEq

/-- `_text`: a nonblank text, stripped. -/
def text (value : List Char) : Option (List Char) :=
  if strip value = [] then none else some (strip value)

/-- The event a row stands for, when it names a source, an id and a peer. -/
def event? (row : Row) : Option Event := do
  let source ← text row.sourceId
  let eventId ← text row.eventId
  let peer ← row.srcIp.bind text
  some ⟨row, (source, eventId), source, peer, row.eventTs, row.eventType, row.sshUser.bind text⟩

/-- The sort key `(at, key)`. -/
def Event.order (e : Event) : ℚ ×ₗ (List Char ×ₗ List Char) := toLex (e.at, toLex e.key)

/-- Keeps the first event of each key. -/
def dedupe (seen : List Key) : List Event → List Event
  | [] => []
  | e :: es => if e.key ∈ seen then dedupe seen es else e :: dedupe (e.key :: seen) es

/-- `_normalize`. -/
def normalize (rows : List Row) : List Event :=
  (dedupe [] (rows.filterMap event?)).insertionSort (fun a b => a.order ≤ b.order)

/-! ### Rules and matches -/

/-- The rule ids. -/
inductive RuleId where
  | burst
  | slowScan
  | multiAccount
  | successAfterFailures
  | crossSource
  deriving DecidableEq, Repr

/-- `RuleMatch`. -/
structure RuleMatch where
  ruleId : RuleId
  ruleVersion : Nat
  windowSeconds : Nat
  evidence : List Row
  reason : String

/-- `RULE_VERSION`. -/
def ruleVersion : Nat := 1

/-- `SUCCESS_RULE_VERSION`. -/
def successRuleVersion : Nat := 2

/-- `MAX_WINDOW_SECONDS`. -/
def maxWindowSeconds : Nat := 2 * 60 * 60

/-- `SUCCESS_WINDOW_SECONDS`. -/
def successWindowSeconds : Nat := 30 * 60

/-- `SUCCESS_MIN_FAILURES`. -/
def successMinFailures : Nat := 3

/-- `_FailureRule`. -/
structure FailureRule where
  ruleId : RuleId
  window : Nat
  records : Nat
  users : Nat := 0
  sources : Nat := 1

/-- The burst rule of `include_burst`. -/
def burstRule : FailureRule := { ruleId := .burst, window := 300, records := 3 }

/-- `_LOCAL_RULES`. -/
def localRules : List FailureRule :=
  [{ ruleId := .slowScan, window := maxWindowSeconds, records := 12 },
   { ruleId := .multiAccount, window := maxWindowSeconds, records := 6, users := 3 }]

/-- `_CROSS_SOURCE_RULE`. -/
def crossSourceRule : FailureRule :=
  { ruleId := .crossSource, window := 30 * 60, records := 6, sources := 2 }

/-! ### Failure windows -/

/-- A run of overlapping windows: its first and last position and how many windows. -/
structure Interval where
  start : Nat
  stop : Nat
  count : Nat

/-- The state of the scan. `intervals` holds the latest interval first. -/
structure Scan where
  left : Nat
  triggered : Nat
  users : List (List Char)
  sources : List (List Char)
  intervals : List Interval

/-- `len(counter)`. -/
def distinct (counter : List (List Char)) : Nat := counter.dedup.length

/-- Counts the event at the right end of the window. -/
def Scan.enter (triggers : List Key) (st : Scan) (event : Event) : Scan :=
  { st with
    users := event.user.toList ++ st.users
    sources := event.source :: st.sources
    triggered := st.triggered + if event.key ∈ triggers then 1 else 0 }

/-- Takes an event out at the left end of the window. -/
def Scan.leave (triggers : List Key) (st : Scan) (expired : Event) : Scan :=
  { st with
    users := match expired.user with
      | some user => st.users.erase user
      | none => st.users
    sources := st.sources.erase expired.source
    triggered := st.triggered - if expired.key ∈ triggers then 1 else 0
    left := st.left + 1 }

/-- The `while` loop: `rest` are the events from `left` on. -/
def Scan.expire (triggers : List Key) (window : Nat) (now : ℚ) : List Event → Scan → Scan
  | [], st => st
  | e :: rest, st =>
    if now - e.at > window then Scan.expire triggers window now rest (st.leave triggers e) else st

/-- Adds a window to the intervals; it joins the latest one when they share a position. -/
def extendIntervals (left right : Nat) : List Interval → List Interval
  | [] => [⟨left, right, 1⟩]
  | iv :: older =>
    if left ≤ iv.stop then ⟨iv.start, right, iv.count + 1⟩ :: older
    else ⟨left, right, 1⟩ :: iv :: older

/-- One event of the scan. -/
def Scan.step (events : List Event) (triggers : List Key) (rule : FailureRule) (st : Scan)
    (right : Nat) (event : Event) : Scan :=
  let st := st.enter triggers event
  let st := Scan.expire triggers rule.window event.at (events.drop st.left) st
  if st.triggered = 0 ∨ right - st.left + 1 < rule.records ∨ distinct st.users < rule.users ∨
      distinct st.sources < rule.sources then st
  else { st with intervals := extendIntervals st.left right st.intervals }

/-- The scan over the events from position `right` on. -/
def Scan.run (events : List Event) (triggers : List Key) (rule : FailureRule) :
    Nat → List Event → Scan → Scan
  | _, [], st => st
  | right, event :: rest, st =>
    Scan.run events triggers rule (right + 1) rest (st.step events triggers rule right event)

/-- The condition of a rule, in words. -/
def FailureRule.condition (rule : FailureRule) : String :=
  "At least " ++ toString rule.records ++ " failed SSH log records" ++
    (if rule.users = 0 then ""
      else " involving at least " ++ toString rule.users ++ " nonempty usernames") ++
    (if 1 < rule.sources then " across at least " ++ toString rule.sources ++ " sources" else "") ++
    " in a " ++ toString (rule.window / 60) ++ "-minute rolling window."

/-- `events[start:stop]`. -/
def slice {α : Type} (l : List α) (start stop : Nat) : List α := (l.take stop).drop start

/-- `_failure_matches`. -/
def failureMatches (events : List Event) (triggers : List Key) (rule : FailureRule) :
    List RuleMatch :=
  let st := Scan.run events triggers rule 0 events ⟨0, 0, [], [], []⟩
  st.intervals.reverse.map fun iv =>
    { ruleId := rule.ruleId
      ruleVersion := ruleVersion
      windowSeconds := rule.window
      evidence := (slice events iv.start (iv.stop + 1)).map Event.row
      reason := rule.condition ++ " " ++ toString iv.count ++
        " qualifying window(s) linked by shared evidence; " ++
        toString (iv.stop - iv.start + 1) ++ " log records retained." }

/-! ### Successes after failures -/

/-- A run of windows that share a failure: the failures `start..stop` and the successes. -/
structure SuccessComponent where
  start : Nat
  stop : Nat
  successes : List Event

/-- The state of the scan. `components` holds the latest component first. -/
structure SuccessScan where
  left : Nat
  right : Nat
  triggered : Nat
  components : List SuccessComponent

/-- Failures strictly before the success enter the window. -/
def SuccessScan.enter (triggers : List Key) (now : ℚ) : List Event → SuccessScan → SuccessScan
  | [], st => st
  | f :: rest, st =>
    if f.at < now then
      SuccessScan.enter triggers now rest
        { st with
          triggered := st.triggered + (if f.key ∈ triggers then 1 else 0)
          right := st.right + 1 }
    else st

/-- Failures before the window leave it. -/
def SuccessScan.expire (triggers : List Key) (now : ℚ) : List Event → SuccessScan → SuccessScan
  | [], st => st
  | f :: rest, st =>
    if st.left < st.right ∧ f.at < now - successWindowSeconds then
      SuccessScan.expire triggers now rest
        { st with
          triggered := st.triggered - (if f.key ∈ triggers then 1 else 0)
          left := st.left + 1 }
    else st

/-- Adds a success; it joins the latest component when they share a failure. -/
def extendComponents (left right : Nat) (success : Event) :
    List SuccessComponent → List SuccessComponent
  | [] => [⟨left, right, [success]⟩]
  | c :: older =>
    if left < c.stop then ⟨c.start, right, c.successes ++ [success]⟩ :: older
    else ⟨left, right, [success]⟩ :: c :: older

/-- One success of the scan. -/
def SuccessScan.step (failures : List Event) (triggers : List Key) (st : SuccessScan)
    (success : Event) : SuccessScan :=
  let st := SuccessScan.enter triggers success.at (failures.drop st.right) st
  let st := SuccessScan.expire triggers success.at (failures.drop st.left) st
  if st.right - st.left < successMinFailures ∨ ¬ (st.triggered ≠ 0 ∨ success.key ∈ triggers) then st
  else { st with components := extendComponents st.left st.right success st.components }

/-- `_success_matches`. -/
def successMatches (events : List Event) (triggers : List Key) : List RuleMatch :=
  let failures := events.filter fun e => authenticationFailureType e.kind
  let successes := events.filter fun e => successType e.kind
  let st := successes.foldl (SuccessScan.step failures triggers) ⟨0, 0, 0, []⟩
  st.components.reverse.map fun c =>
    let evidence := (slice failures c.start c.stop ++ c.successes).insertionSort
      (fun a b => a.order ≤ b.order)
    { ruleId := .successAfterFailures
      ruleVersion := successRuleVersion
      windowSeconds := successWindowSeconds
      evidence := evidence.map Event.row
      reason := "Authentication succeeded strictly after at least " ++ toString successMinFailures ++
        " failed SSH authentication records (excluding pre-authentication disconnects) in the " ++
        "preceding " ++ toString (successWindowSeconds / 60) ++ " minutes on the same source. " ++
        toString c.successes.length ++ " qualifying window(s) linked by shared evidence; " ++
        toString evidence.length ++ " log records retained." }

/-! ### All rules -/

/-- The groups of a dictionary keyed by `key`, in sorted order. -/
def sortedGroups {κ : Type} [LinearOrder κ] (key : Event → κ) (events : List Event) : List κ :=
  (events.map key).dedup.insertionSort (· ≤ ·)

/-- `(source, peer)`. -/
def Event.group (e : Event) : List Char ×ₗ List Char := toLex (e.source, e.peer)

/-- `detect_matches`. -/
def detectMatches (rows : List Row) (triggers : List Key) (includeBurst : Bool) : List RuleMatch :=
  if triggers = [] then []
  else
    let normalized := normalize rows
    let relevant := normalized.filter fun e => failureType e.kind || successType e.kind
    let failures := normalized.filter fun e => failureType e.kind
    let rules := if includeBurst then burstRule :: localRules else localRules
    let localMatches := (sortedGroups Event.group relevant).flatMap fun group =>
      let records := relevant.filter fun e => e.group = group
      let groupFailures := records.filter fun e => failureType e.kind
      rules.flatMap (failureMatches groupFailures triggers) ++ successMatches records triggers
    let crossMatches := (sortedGroups Event.peer failures).flatMap fun peer =>
      failureMatches (failures.filter fun e => e.peer = peer) triggers crossSourceRule
    localMatches ++ crossMatches

end RiskOps.Telemetry
