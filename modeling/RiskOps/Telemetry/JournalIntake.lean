import RiskOps.Telemetry.JournalCollector
import RiskOps.Telemetry.Store

/-!
# RiskOps.Telemetry.JournalIntake — what becomes of a spooled batch

Model of `TelemetryRecord`, `CollectorReport`, `TelemetryBatch` and `_valid_time` (`live_api.py`).
The body of a spooled batch is read as a `TelemetryBatch`, and its records are given to `_normalize`.

**Three validators.** The API checks the lengths the collector has checked. `_normalize` checks more:
an id that is not blank, no NUL character, a priority between 0 and 7. The collector checks none of
these, so a journal entry that fails one is spooled and refused each time it is sent.
-/

namespace RiskOps.Telemetry.JournalCollector

open RiskOps.Lib.PyJson Store
open RiskOps.Lib (Json Str bind_eq_ok run strip)

/-! ### The API's models -/

/-- The characters of a text without lone surrogates. -/
def text (s : Str) : List Char := s.map Char.ofNat

mutual

/-- A value as the server decodes it. -/
def toJson : Value → Json
  | .null => .null
  | .bool b => .bool b
  | .int n => .int n
  | .float l => .float (text l)
  | .str s => .str (text s)
  | .arr vs => .arr (toJsonItems vs)
  | .obj ms => .obj (toJsonMembers ms)

def toJsonItems : List Value → List Json
  | [] => []
  | v :: vs => toJson v :: toJsonItems vs

def toJsonMembers : List (Str × Value) → List (List Char × Json)
  | [] => []
  | (k, v) :: ms => (text k, toJson v) :: toJsonMembers ms

end

section

variable (lib : Library) (cal : Calendar) (now : ℚ)

/-- `_valid_time`. -/
def validTime (value : List Char) : Option (List Char) :=
  match lib.instant value with
  | none => none
  | some instant => if now + 300 < instant then none else some (text (cal.isoformat instant))

/-- `str = Field(min_length=…, max_length=…)`. -/
def strField (least most : Nat) : Option Json → Option (List Char)
  | some (.str s) => if least ≤ s.length ∧ s.length ≤ most then some s else none
  | _ => none

/-- `str | None = Field(default=None, min_length=…, max_length=…)`. -/
def optionalField (least most : Nat) : Option Json → Option (Option (List Char))
  | none => some none
  | some .null => some none
  | some v => (strField least most (some v)).map some

/-- `StrictInt | Annotated[str, Field(max_length=16)] | None`. -/
def priorityField : Option Json → Option (Option Priority)
  | none => some none
  | some .null => some none
  | some (.int n) => some (some (.level n))
  | some (.str s) => if s.length ≤ 16 then some (some (.text s)) else none
  | _ => none

/-- No key of the object is unknown. -/
def onlyFields (fields : List String) (ms : List (List Char × Json)) : Bool :=
  ms.all fun m => fields.any fun f => m.1 = f.toList

def orNull : Option (List Char) → Json
  | none => .null
  | some s => .str s

def priorityJson : Option Priority → Json
  | none => .null
  | some (.level n) => .int n
  | some (.text s) => .str s

/-- `TelemetryRecord`, and its `model_dump()`. -/
def telemetryRecord : Json → Option Json
  | .obj ms => do
    guard (onlyFields ["event_id", "timestamp", "message", "unit", "priority", "identifier"] ms)
    let eventId ← strField 1 512 (Json.get? ms "event_id".toList)
    let timestamp ← strField 1 64 (Json.get? ms "timestamp".toList)
    let timestamp ← validTime lib cal now timestamp
    let message ← strField 0 16384 (Json.get? ms "message".toList)
    let unit ← optionalField 0 256 (Json.get? ms "unit".toList)
    let priority ← priorityField (Json.get? ms "priority".toList)
    let identifier ← optionalField 0 256 (Json.get? ms "identifier".toList)
    some (.obj [("event_id".toList, .str eventId), ("timestamp".toList, .str timestamp),
      ("message".toList, .str message), ("unit".toList, orNull unit),
      ("priority".toList, priorityJson priority), ("identifier".toList, orNull identifier)])
  | _ => none

/-- `CollectorReport`. -/
def collectorReport : Json → Option (List Char × List Char)
  | .obj ms => do
    guard (onlyFields ["code", "message"] ms)
    let code ← strField 1 64 (Json.get? ms "code".toList)
    let message ← strField 1 1024 (Json.get? ms "message".toList)
    some (code, message)
  | _ => none

/-- `list[…] = Field(max_length=…)`. -/
def listField {α : Type} (most : Nat) (item : Json → Option α) : Option Json → Option (List α)
  | some (.arr vs) => if vs.length ≤ most then vs.mapM item else none
  | _ => none

/-- `TelemetryBatch`. -/
structure TelemetryBatch where
  sourceId : List Char
  batchId : List Char
  hostname : Option (List Char)
  collectedAt : Option (List Char)
  records : List Json
  reports : List (List Char × List Char)
  error : Option (List Char)

/-- `^[A-Za-z0-9][A-Za-z0-9_.-]{0,63}$`. -/
def sourcePattern : List Char → Bool
  | [] => false
  | c :: s => c.isAlphanum && s.length ≤ 63 &&
    s.all fun c => c.isAlphanum || c = '_' || c = '.' || c = '-'

/-- `TelemetryBatch.model_validate_json`. -/
def telemetryBatch : Json → Option TelemetryBatch
  | .obj ms => do
    guard (onlyFields ["source_id", "batch_id", "hostname", "collected_at", "records", "reports",
      "error"] ms)
    let sourceId ← (strField 1 64 (Json.get? ms "source_id".toList)).filter sourcePattern
    let batchId ← strField 1 128 (Json.get? ms "batch_id".toList)
    let hostname ← optionalField 1 253 (Json.get? ms "hostname".toList)
    let collectedAt ← optionalField 0 64 (Json.get? ms "collected_at".toList)
    let collectedAt ← match collectedAt with
      | none => some none
      | some value => (validTime lib cal now value).map some
    let records ← listField 500 (telemetryRecord lib cal now) (Json.get? ms "records".toList)
    let reports ← match Json.get? ms "reports".toList with
      | none => some []
      | some v => listField 5 collectorReport (some v)
    let error ← optionalField 0 2048 (Json.get? ms "error".toList)
    some ⟨sourceId, batchId, hostname, collectedAt, records, reports, error⟩
  | _ => none

/-- A batch is within the API's bounds and none of its records is refused by `_normalize`. -/
def Taken (body : Body) : Prop :=
  ∃ batch, telemetryBatch lib cal now (toJson body.toValue) = some batch ∧
    ∀ r ∈ batch.records, ∃ n, normalizeRecord lib now r = .ok n

end

/-! ### A record on its way -/

theorem text_ofString (s : String) : text (Str.ofString s) = s.toList := by
  simp [text, Str.ofString, Function.comp_def]

theorem length_text (s : Str) : (text s).length = s.length := List.length_map _

/-- The members of a record. -/
def recordMembers (eventId timestamp message : List Char) (unit : Option (List Char))
    (priority : Option Priority) (identifier : Option (List Char)) : List (List Char × Json) :=
  [("event_id".toList, .str eventId), ("timestamp".toList, .str timestamp),
    ("message".toList, .str message), ("unit".toList, orNull unit),
    ("priority".toList, priorityJson priority), ("identifier".toList, orNull identifier)]

/-- A priority as the server decodes it. -/
def PriorityField.sent : PriorityField → Priority
  | .text s => .text (JournalCollector.text s)
  | .level n => .level n

/-- A record as the server decodes it. -/
def Record.sent (r : Record) : List (List Char × Json) :=
  recordMembers (text r.eventId) (text r.timestamp) (text r.message) (r.unit.map text)
    (r.priority.map PriorityField.sent) (r.identifier.map text)

theorem toJson_nullable (o : Option Str) : toJson (nullable o) = orNull (o.map text) := by
  cases o with
  | none => rfl
  | some s => rfl

theorem toJson_priority (o : Option PriorityField) :
    toJson ((o.map PriorityField.toValue).getD .null) =
      priorityJson (o.map PriorityField.sent) := by
  cases o with
  | none => rfl
  | some p => cases p with
    | text s => rfl
    | level n => rfl

theorem toJson_record (r : Record) : toJson r.toValue = .obj r.sent := by
  simp only [Record.toValue, toJson, toJsonMembers, text_ofString, toJson_nullable,
    toJson_priority, Record.sent, recordMembers]

variable {n : Nat}

section

variable {lib : Library} {cal : Calendar} {now : ℚ}

/-- The time a text stands for is not ahead of the clock, and it is written as that text. -/
def Timely (lib : Library) (cal : Calendar) (now : ℚ) (value : Str) : Prop :=
  ∃ instant, lib.instant (text value) = some instant ∧ instant ≤ now ∧
    cal.isoformat instant = value

theorem validTime_timely {value : Str} (h : Timely lib cal now value) :
    validTime lib cal now (text value) = some (text value) := by
  obtain ⟨instant, hread, hle, hiso⟩ := h
  rw [validTime, hread]
  dsimp only
  rw [if_neg (by linarith), hiso]

/-- Within the bounds of `TelemetryRecord`. -/
structure Record.Bounded (lib : Library) (cal : Calendar) (now : ℚ) (r : Record) : Prop where
  eventId : 1 ≤ r.eventId.length ∧ r.eventId.length ≤ 512
  timestamp : 1 ≤ r.timestamp.length ∧ r.timestamp.length ≤ 64
  timely : Timely lib cal now r.timestamp
  message : r.message.length ≤ 4096
  unit : ∀ s, r.unit = some s → s.length ≤ 256
  priority : ∀ s, r.priority = some (.text s) → s.length ≤ 16
  identifier : ∀ s, r.identifier = some s → s.length ≤ 256

variable {most : Nat}

theorem strField_text {least : Nat} {s : Str} (h : least ≤ s.length ∧ s.length ≤ most) :
    strField least most (some (.str (text s))) = some (text s) := by
  rw [strField, length_text, if_pos h]

theorem optionalField_orNull {least : Nat} {o : Option Str}
    (h : ∀ s, o = some s → least ≤ s.length ∧ s.length ≤ most) :
    optionalField least most (some (orNull (o.map text))) = some (o.map text) := by
  cases o with
  | none => rfl
  | some s =>
    show (strField least most (some (.str (text s)))).map some = _
    rw [strField_text (h s rfl)]
    rfl

theorem priorityField_sent {o : Option PriorityField}
    (h : ∀ s, o = some (.text s) → s.length ≤ 16) :
    priorityField (some (priorityJson (o.map PriorityField.sent))) =
      some (o.map PriorityField.sent) := by
  cases o with
  | none => rfl
  | some p => cases p with
    | level n => rfl
    | text s =>
      have hlen : (text s).length ≤ 16 := by
        rw [length_text]
        exact h s rfl
      exact if_pos hlen

variable {r : Record}

/-- The API takes a record within its bounds as it is. -/
theorem telemetryRecord_sent (h : r.Bounded lib cal now) :
    telemetryRecord lib cal now (.obj r.sent) = some (.obj r.sent) := by
  have hstep : telemetryRecord lib cal now (.obj r.sent) = (do
      let eventId ← strField 1 512 (some (.str (text r.eventId)))
      let timestamp ← strField 1 64 (some (.str (text r.timestamp)))
      let timestamp ← validTime lib cal now timestamp
      let message ← strField 0 16384 (some (.str (text r.message)))
      let unit ← optionalField 0 256 (some (orNull (r.unit.map text)))
      let priority ← priorityField (some (priorityJson (r.priority.map PriorityField.sent)))
      let identifier ← optionalField 0 256 (some (orNull (r.identifier.map text)))
      some (.obj (recordMembers eventId timestamp message unit priority identifier))) := rfl
  have hmessage := h.message
  rw [hstep, strField_text h.eventId, strField_text h.timestamp]
  dsimp only [Option.bind_eq_bind, Option.bind_some]
  rw [validTime_timely h.timely, strField_text (by omega),
    optionalField_orNull fun s hs => ⟨Nat.zero_le _, h.unit s hs⟩, priorityField_sent h.priority,
    optionalField_orNull fun s hs => ⟨Nat.zero_le _, h.identifier s hs⟩]
  rfl

/-! ### What `_normalize` refuses -/

/-- No NUL character. -/
def plain (s : Str) : Bool := !decide (Char.ofNat 0 ∈ text s)

/-- `str(priority) in {str(i) for i in range(8)}`. -/
def PriorityField.level07 : PriorityField → Bool
  | .text s => decide (JournalCollector.text s ∈ (List.range 8).map (Nat.toDigits 10))
  | .level n => decide (0 ≤ n ∧ n < 8)

/-- A record `_normalize` does not refuse. -/
def Record.storable (r : Record) : Bool :=
  !(strip (text r.eventId)).isEmpty && plain r.eventId && plain r.message && r.unit.all plain &&
    r.identifier.all plain && r.priority.all PriorityField.level07

theorem orEmpty_orNull (o : Option (List Char)) : orEmpty (orNull o) = .str (o.getD []) := by
  cases o with
  | none => rfl
  | some s => cases s with
    | nil => rfl
    | cons c s => rfl

theorem checkPriority_sent (o : Option PriorityField) :
    (∃ p, checkPriority (priorityJson (o.map PriorityField.sent)) = .ok p) ↔
      o.all PriorityField.level07 = true := by
  cases o with
  | none => exact ⟨fun _ => rfl, fun _ => ⟨none, rfl⟩⟩
  | some p =>
    cases p with
    | text s =>
      rw [Option.all_some, PriorityField.level07, decide_eq_true_eq, Option.map_some,
        PriorityField.sent, priorityJson, checkPriority]
      split
      · rename_i hin
        exact ⟨fun _ => hin, fun _ => ⟨_, rfl⟩⟩
      · rename_i hout
        exact ⟨fun ⟨_, h⟩ => (by cases h), fun hin => absurd hin hout⟩
    | level n =>
      rw [Option.all_some, PriorityField.level07, decide_eq_true_eq, Option.map_some,
        PriorityField.sent, priorityJson, checkPriority]
      split
      · rename_i hin
        exact ⟨fun _ => hin, fun _ => ⟨_, rfl⟩⟩
      · rename_i hout
        exact ⟨fun ⟨_, h⟩ => (by cases h), fun hin => absurd hin hout⟩

/-- A timestamp text that `_normalize` takes. -/
def Legible (value : Str) : Prop := strip (text value) ≠ [] ∧ Char.ofNat 0 ∉ text value

/-- An optional text of a record within the bounds. -/
theorem boundedText_optional {o : Option Str} (h : ∀ s, o = some s → s.length ≤ 256) (name : String) :
    (∃ v, boundedText (orEmpty (orNull (o.map text))) name 256 true = .ok v) ↔ o.all plain = true := by
  rw [orEmpty_orNull]
  simp only [boundedText_eq_ok]
  cases o with
  | none => exact ⟨fun _ => rfl, fun _ => ⟨_, ⟨Nat.zero_le _, fun h => (by cases h), by simp⟩, rfl⟩⟩
  | some s =>
    have hlen : (text s).length ≤ 256 := by
      rw [length_text]
      exact h s rfl
    rw [Option.all_some, plain, Bool.not_eq_true', decide_eq_false_iff_not]
    exact ⟨fun ⟨_, ⟨_, _, hnul⟩, _⟩ => hnul, fun hnul => ⟨_, ⟨hlen, fun h => (by cases h), hnul⟩, rfl⟩⟩

/-- **`_normalize` takes a record within the API's bounds exactly when it is storable.** -/
theorem normalizeRecord_sent (h : r.Bounded lib cal now) (hlegible : Legible r.timestamp) :
    (∃ n, normalizeRecord lib now (.obj r.sent) = .ok n) ↔ r.storable = true := by
  have hstep : normalizeRecord lib now (.obj r.sent) = (do
      let eventId ← boundedText (.str (text r.eventId)) "event_id" 2048 false
      let timestamp ← boundedText (.str (text r.timestamp)) "timestamp" 80 false
      let instant ← checkInstant lib now timestamp
      let message ← boundedText (.str (text r.message)) "message" 65536 true
      let unit ← boundedText (orEmpty (orNull (r.unit.map text))) "unit" 256 true
      let identifier ← boundedText (orEmpty (orNull (r.identifier.map text))) "identifier" 256 true
      let priority ← checkPriority (priorityJson (r.priority.map PriorityField.sent))
      .ok (Raw.classified lib ⟨eventId, instant, message, unit, priority, identifier⟩)) := rfl
  obtain ⟨instant, hread, hle, -⟩ := h.timely
  have hinstant : checkInstant lib now (text r.timestamp) = .ok instant := by
    rw [checkInstant, hread]
    dsimp only
    rw [if_neg (by linarith)]
  have hid := h.eventId
  have htime := h.timestamp
  have hmessage := h.message
  rw [hstep]
  simp only [bind_eq_ok, boundedText_eq_ok, length_text]
  rw [Record.storable]
  simp only [Bool.and_eq_true]
  rw [← boundedText_optional h.unit "unit", ← boundedText_optional h.identifier "identifier",
    ← checkPriority_sent]
  constructor
  · rintro ⟨n, _, ⟨⟨_, hblank, hnul⟩, rfl⟩, _, ⟨_, rfl⟩, _, _, _, ⟨⟨_, _, hplain⟩, rfl⟩, unit, hunit,
      identifier, hidentifier, priority, hpriority, _⟩
    refine ⟨⟨⟨⟨⟨?_, ?_⟩, ?_⟩, unit, hunit⟩, identifier, hidentifier⟩, priority, hpriority⟩
    · simpa using hblank
    · simpa [plain] using hnul
    · simpa [plain] using hplain
  · rintro ⟨⟨⟨⟨⟨hblank, hnul⟩, hplain⟩, unit, hunit⟩, identifier, hidentifier⟩, priority, hpriority⟩
    refine ⟨_, _, ⟨⟨by omega, fun _ => by simpa using hblank, by simpa [plain] using hnul⟩, rfl⟩, _,
      ⟨⟨by omega, fun _ => hlegible.1, hlegible.2⟩, rfl⟩, instant, hinstant, _,
      ⟨⟨by omega, fun h => (by cases h), by simpa [plain] using hplain⟩, rfl⟩, unit, hunit, identifier,
      hidentifier, priority, hpriority, rfl⟩

/-! ### From the journal to a record -/

theorem utf8Size_pos (c : Nat) : 1 ≤ utf8Size c := by
  unfold utf8Size
  split
  · exact le_refl _
  · split
    · decide
    · split <;> decide

theorem length_le_byteLength (s : Str) : s.length ≤ byteLength s := by
  induction s with
  | nil => exact le_refl _
  | cons c s ih =>
    have hpos := utf8Size_pos c
    simp only [byteLength, List.map_cons, List.sum_cons, List.length_cons] at ih ⊢
    omega

theorem byteLength_takeBytes (n : Nat) (s : Str) : byteLength (takeBytes n s) ≤ n := by
  induction s generalizing n with
  | nil => exact Nat.zero_le _
  | cons c s ih =>
    rw [takeBytes]
    split
    · have hrest := ih (n - utf8Size c)
      simp only [byteLength, List.map_cons, List.sum_cons] at hrest ⊢
      omega
    · exact Nat.zero_le _

theorem takeBytes_of_le {s : Str} (h : byteLength s ≤ n) : takeBytes n s = s := by
  induction s generalizing n with
  | nil => rfl
  | cons c s ih =>
    simp only [byteLength, List.map_cons, List.sum_cons] at h
    rw [takeBytes, if_pos (by omega), ih (by simp only [byteLength]; omega)]

/-- What `parse_export` keeps of an entry. -/
structure Parsed (cal : Calendar) (ms : Members) (r : Record) : Prop where
  eventId : asText (member ms "__CURSOR") = some r.eventId ∧ 1 ≤ r.eventId.length ∧
    r.eventId.length ≤ 512
  timestamp : ∃ n t, asDigits cal (member ms "__REALTIME_TIMESTAMP") = some n ∧
    cal.fromtimestamp n = some t ∧ r.timestamp = cal.isoformat t
  message : ∃ m, asText (member ms "MESSAGE") = some m ∧ r.message = takeBytes maxMessageBytes m
  unit : asMetadata (member ms "_SYSTEMD_UNIT") = some r.unit
  identifier : asMetadata (member ms "SYSLOG_IDENTIFIER") = some r.identifier
  priority : asPriority (member ms "PRIORITY") = some r.priority

variable {ms : Members}

theorem parsed_of_parseRecord {cut : Bool} (h : parseRecord cal ms = some (r, cut)) :
    Parsed cal ms r := by
  unfold parseRecord at h
  simp only [Option.bind_eq_bind, Option.bind_eq_some_iff, Option.some.injEq, Prod.mk.injEq] at h
  obtain ⟨eventId, hid, n, hn, t, ht, m, hm, unit, hunit, identifier, hidentifier, priority,
    hpriority, rfl, -⟩ := h
  obtain ⟨hm, -⟩ := Option.filter_eq_some_iff.mp hm
  obtain ⟨hid, hlen⟩ := Option.filter_eq_some_iff.mp hid
  simp only [Bool.and_eq_true, decide_eq_true_eq] at hlen
  refine ⟨⟨hid, hlen⟩, ⟨n, t, hn, ht, rfl⟩, ⟨m, hm, ?_⟩, hunit, hidentifier, hpriority⟩
  dsimp only
  split
  · rfl
  · rename_i hfits
    exact (takeBytes_of_le (Nat.not_lt.mp hfits)).symm

/-- A text the journal has for a field, if it has one, satisfies a check. -/
def textHolds (p : Str → Bool) (v : Option Value) : Bool := (asText v).all p

/-- A priority the journal has is between 0 and 7. -/
def priorityHolds : Option Value → Bool
  | some (.str s) => PriorityField.level07 (.text s)
  | some (.int n) => PriorityField.level07 (.level n)
  | _ => true

/-- A journal entry whose record `_normalize` does not refuse. -/
def storable (ms : Members) : Bool :=
  textHolds (fun s => !(strip (text s)).isEmpty && plain s) (member ms "__CURSOR") &&
    textHolds (fun s => plain (takeBytes maxMessageBytes s)) (member ms "MESSAGE") &&
    textHolds plain (member ms "_SYSTEMD_UNIT") && textHolds plain (member ms "SYSLOG_IDENTIFIER") &&
    priorityHolds (member ms "PRIORITY")

theorem asMetadata_spec {v : Option Value} {o : Option Str} (h : asMetadata v = some o) :
    textHolds plain v = o.all plain ∧ ∀ s, o = some s → s.length ≤ 256 := by
  unfold asMetadata at h
  split at h
  · obtain rfl := Option.some.inj h
    exact ⟨rfl, fun _ hs => by cases hs⟩
  · obtain rfl := Option.some.inj h
    exact ⟨rfl, fun _ hs => by cases hs⟩
  · split at h
    · rename_i hlen
      obtain rfl := Option.some.inj h
      refine ⟨rfl, fun s hs => ?_⟩
      obtain rfl := Option.some.inj hs
      exact hlen
    · cases h
  · cases h

theorem asPriority_spec {v : Option Value} {o : Option PriorityField} (h : asPriority v = some o) :
    priorityHolds v = o.all PriorityField.level07 ∧ ∀ s, o = some (.text s) → s.length ≤ 16 := by
  unfold asPriority at h
  split at h
  · obtain rfl := Option.some.inj h
    exact ⟨rfl, fun _ hs => by cases hs⟩
  · obtain rfl := Option.some.inj h
    exact ⟨rfl, fun _ hs => by cases hs⟩
  · split at h
    · rename_i hlen
      obtain rfl := Option.some.inj h
      refine ⟨rfl, fun s hs => ?_⟩
      obtain rfl := PriorityField.text.inj (Option.some.inj hs)
      exact hlen
    · cases h
  · split at h
    · obtain rfl := Option.some.inj h
      exact ⟨rfl, fun _ hs => by cases hs⟩
    · cases h
  · cases h

theorem Parsed.storable_eq (h : Parsed cal ms r) : storable ms = r.storable := by
  obtain ⟨m, hm, hmessage⟩ := h.message
  rw [storable, Record.storable, (asMetadata_spec h.unit).1, (asMetadata_spec h.identifier).1,
    (asPriority_spec h.priority).1, textHolds, h.eventId.1, textHolds, hm, hmessage]
  rfl

/-- The library reads what it writes: `fromisoformat` inverts `isoformat`, whose texts are short and
hold neither blanks only nor a NUL. -/
def Reads (lib : Library) (cal : Calendar) : Prop :=
  ∀ n t, cal.fromtimestamp n = some t → lib.instant (text (cal.isoformat t)) = some t ∧
    (1 ≤ (cal.isoformat t).length ∧ (cal.isoformat t).length ≤ 64) ∧ Legible (cal.isoformat t)

/-- The time of a journal entry is not ahead of the clock. -/
def NotAhead (cal : Calendar) (now : ℚ) (ms : Members) : Prop :=
  ∀ n t, asDigits cal (member ms "__REALTIME_TIMESTAMP") = some n → cal.fromtimestamp n = some t →
    t ≤ now

theorem Parsed.bounded (h : Parsed cal ms r) (hreads : Reads lib cal) (hclock : NotAhead cal now ms) :
    r.Bounded lib cal now ∧ Legible r.timestamp := by
  obtain ⟨n, t, hn, ht, hiso⟩ := h.timestamp
  obtain ⟨hread, hlen, hlegible⟩ := hreads n t ht
  obtain ⟨m, -, hmessage⟩ := h.message
  rw [← hiso] at hread hlen hlegible
  refine ⟨⟨h.eventId.2, hlen, ⟨t, hread, hclock n t hn ht, hiso.symm⟩, ?_, (asMetadata_spec h.unit).2,
    (asPriority_spec h.priority).2, (asMetadata_spec h.identifier).2⟩, hlegible⟩
  rw [hmessage]
  exact (length_le_byteLength _).trans (byteLength_takeBytes _ _)

variable {previous : Option Str}

theorem parsed_parseRecords {seen : List Str} {objects : List Members} {rs : List Record}
    {truncated : Nat} (h : parseRecords cal previous seen objects = some (rs, truncated)) :
    List.Forall₂ (Parsed cal) objects rs ∧ truncated ≤ objects.length := by
  induction objects generalizing seen rs truncated with
  | nil =>
    obtain ⟨rfl, rfl⟩ := Prod.mk.inj (Option.some.inj h)
    exact ⟨.nil, le_refl _⟩
  | cons ms objects ih =>
    rw [parseRecords] at h
    simp only [Option.bind_eq_bind, Option.bind_eq_some_iff] at h
    obtain ⟨⟨r, cut⟩, hone, h⟩ := h
    dsimp only at h
    split at h
    · cases h
    · simp only [Option.bind_eq_some_iff, Option.some.injEq, Prod.mk.injEq] at h
      obtain ⟨⟨rest, more⟩, hrest, rfl, rfl⟩ := h
      obtain ⟨hall, hle⟩ := ih hrest
      refine ⟨.cons (parsed_of_parseRecord hone) hall, ?_⟩
      rw [List.length_cons]
      split <;> omega

/-! ### The batch -/

/-- Within the bounds of `CollectorReport`. -/
def Report.Bounded (r : Report) : Prop :=
  (1 ≤ r.code.length ∧ r.code.length ≤ 64) ∧ 1 ≤ r.message.length ∧ r.message.length ≤ 1024

theorem collectorReport_sent {r : Report} (h : r.Bounded) :
    collectorReport (toJson r.toValue) = some (text r.code, text r.message) := by
  have hstep : toJson r.toValue = .obj [("code".toList, .str (text r.code)),
      ("message".toList, .str (text r.message))] := by
    simp only [Report.toValue, toJson, toJsonMembers, text_ofString]
  rw [hstep]
  show (do
    let code ← strField 1 64 (some (.str (text r.code)))
    let message ← strField 1 1024 (some (.str (text r.message)))
    some (code, message)) = _
  rw [strField_text h.1, strField_text h.2]
  rfl

theorem toJsonItems_map {α : Type} (f : α → Value) (xs : List α) :
    toJsonItems (xs.map f) = xs.map fun x => toJson (f x) := by
  induction xs with
  | nil => rfl
  | cons x xs ih => rw [List.map_cons, toJsonItems, ih, List.map_cons]

theorem listField_map {α β : Type} {item : Json → Option β} {f : α → Json} {g : α → β} {xs : List α}
    (hlen : xs.length ≤ most) (h : ∀ x ∈ xs, item (f x) = some (g x)) :
    listField most item (some (.arr (xs.map f))) = some (xs.map g) := by
  rw [listField, List.length_map, if_pos hlen, List.mapM_map]
  induction xs with
  | nil => rfl
  | cons x xs ih =>
    rw [List.mapM_cons, Function.comp_apply, h x List.mem_cons_self,
      ih (Nat.le_of_succ_le hlen) fun y hy => h y (List.mem_cons_of_mem _ hy)]
    rfl

/-- What the configuration of the collector and its clock give a batch. -/
structure Ready (lib : Library) (cal : Calendar) (now : ℚ) (source : SourceConfig)
    (batchId collectedAt : Str) : Prop where
  sourceId : sourcePattern (text source.id) = true ∧ source.id.length ≤ 64
  hostname : 1 ≤ source.hostname.length ∧ source.hostname.length ≤ 253
  batchId : 1 ≤ batchId.length ∧ batchId.length ≤ 128
  collectedAt : collectedAt.length ≤ 64 ∧ Timely lib cal now collectedAt

/-- The batch the API makes of a body within its bounds. -/
def Body.sent (b : Body) : TelemetryBatch where
  sourceId := text b.sourceId
  batchId := text b.batchId
  hostname := some (text b.hostname)
  collectedAt := some (text b.collectedAt)
  records := b.records.map fun r => .obj r.sent
  reports := b.reports.map fun r => (text r.code, text r.message)
  error := none

theorem toJson_body (b : Body) : toJson b.toValue = .obj [("batch_id".toList, .str (text b.batchId)),
    ("source_id".toList, .str (text b.sourceId)), ("hostname".toList, .str (text b.hostname)),
    ("collected_at".toList, .str (text b.collectedAt)),
    ("records".toList, .arr (b.records.map fun r => .obj r.sent)),
    ("reports".toList, .arr (b.reports.map fun r => toJson r.toValue))] := by
  simp only [Body.toValue, toJson, toJsonMembers, text_ofString, toJsonItems_map, toJson_record]

theorem telemetryBatch_sent {b : Body} (hready : Ready lib cal now ⟨b.sourceId, b.hostname⟩ b.batchId
    b.collectedAt) (hrecords : b.records.length ≤ 500)
    (hbounded : ∀ r ∈ b.records, r.Bounded lib cal now) (hreports : b.reports.length ≤ 5)
    (hreport : ∀ r ∈ b.reports, r.Bounded) :
    telemetryBatch lib cal now (toJson b.toValue) = some b.sent := by
  have hid : 1 ≤ b.sourceId.length := by
    have hpattern := hready.sourceId.1
    cases hsource : b.sourceId with
    | nil =>
      dsimp only at hpattern
      rw [hsource] at hpattern
      cases hpattern
    | cons c s => exact Nat.succ_le_succ (Nat.zero_le _)
  rw [toJson_body]
  show (do
    let sourceId ← (strField 1 64 (some (.str (text b.sourceId)))).filter sourcePattern
    let batchId ← strField 1 128 (some (.str (text b.batchId)))
    let hostname ← optionalField 1 253 (some (orNull ((some b.hostname).map text)))
    let collectedAt ← optionalField 0 64 (some (orNull ((some b.collectedAt).map text)))
    let collectedAt ← match collectedAt with
      | none => some none
      | some value => (validTime lib cal now value).map some
    let records ← listField 500 (telemetryRecord lib cal now)
      (some (.arr (b.records.map fun r : Record => .obj r.sent)))
    let reports ← listField 5 collectorReport
      (some (.arr (b.reports.map fun r : Report => toJson r.toValue)))
    some (⟨sourceId, batchId, hostname, collectedAt, records, reports, none⟩ : TelemetryBatch)) = _
  rw [strField_text ⟨hid, hready.sourceId.2⟩, Option.filter_some_pos hready.sourceId.1,
    strField_text hready.batchId,
    optionalField_orNull fun s hs => (by obtain rfl := Option.some.inj hs; exact hready.hostname),
    optionalField_orNull fun s hs =>
      ⟨Nat.zero_le _, by obtain rfl := Option.some.inj hs; exact hready.collectedAt.1⟩,
    listField_map hrecords fun r hr => telemetryRecord_sent (hbounded r hr),
    listField_map hreports fun r hr => collectorReport_sent (hreport r hr)]
  dsimp only [Option.bind_eq_bind, Option.bind_some, Option.map_some]
  rw [validTime_timely hready.collectedAt.2]
  rfl

/-- `popRecords` leaves a prefix. -/
theorem popRecords_eq (b : Body) (n : Nat) :
    ∃ k, popRecords b n = { b with records := b.records.take k } := by
  induction n generalizing b with
  | zero => exact ⟨b.records.length, by rw [popRecords, List.take_length]⟩
  | succ n ih =>
    rw [popRecords]
    split
    · obtain ⟨k, hk⟩ := ih { b with records := b.records.dropLast }
      refine ⟨min k (b.records.length - 1), ?_⟩
      rw [hk, List.dropLast_eq_take, List.take_take]
    · exact ⟨b.records.length, by rw [List.take_length]⟩

theorem limitBatch_eq_ok {body : Body} {nextCursor : Option Str} {sourceError : Option String}
    {p : Pending} (h : limitBatch body nextCursor sourceError = .ok p) :
    ∃ k more, p.body = { body with records := body.records.take k, reports := body.reports ++ more } ∧
      (more = [] ∧ body.records.length ≤ k ∧ p.nextCursor = nextCursor ∨
        more = [batchLimited] ∧ p.nextCursor = (body.records.take k).getLast?.map Record.eventId ∧
          p.nextCursor ≠ none) ∧
      p.sourceError = sourceError := by
  unfold limitBatch at h
  split at h
  · cases h
  · split at h
    · obtain rfl := Except.ok.inj h
      refine ⟨body.records.length, [], ?_, .inl ⟨rfl, le_refl _, rfl⟩, rfl⟩
      rw [List.take_length, List.append_nil]
    · obtain ⟨k, hk⟩ := popRecords_eq { body with reports := body.reports ++ [batchLimited] }
        body.records.length
      rw [hk] at h
      dsimp only at h
      split at h
      · cases h
      · rename_i r hr
        obtain rfl := Except.ok.inj h
        refine ⟨k, [batchLimited], rfl, .inr ⟨rfl, ?_, ?_⟩, rfl⟩
        · rw [hr]
          rfl
        · intro hnone
          cases hnone

theorem length_asObjects {values : List Value} {objects : List Members}
    (h : values.mapM asObject = some objects) : objects.length = values.length := by
  induction values generalizing objects with
  | nil =>
    obtain rfl := Option.some.inj h
    rfl
  | cons v values ih =>
    simp only [List.mapM_cons, Option.bind_eq_bind, Option.bind_eq_some_iff, Option.pure_def,
      Option.some.injEq] at h
    obtain ⟨ms, -, rest, hrest, rfl⟩ := h
    rw [List.length_cons, List.length_cons, ih hrest]

theorem length_exportObjects {limit : Nat} {data : List UInt8} {objects : List Members}
    (h : exportObjects limit data = .ok objects) : objects.length ≤ maxRecords + 1 := by
  unfold exportObjects at h
  split at h
  · cases h
  · dsimp only at h
    split at h
    · cases h
    · rename_i hlines
      simp only [Bool.or_eq_true, not_or, decide_eq_true_eq, Nat.not_lt] at hlines
      split at h
      · cases h
      · cases h
      · rename_i values hvalues
        split at h
        · cases h
        · rename_i objects' hobjects
          obtain rfl := Except.ok.inj h
          rw [length_asObjects hobjects, Storage.mapM_length hvalues]
          exact hlines.1.2

/-- What an accepted export says. -/
structure Accepted (cal : Calendar) (previous : Option Str) (objects : List Members) (e : Export) :
    Prop where
  records : ∃ truncated, parseRecords cal previous [] objects.dropLast = some (e.records, truncated) ∧
    ∃ coverage, e.reports = coverage ++ (if truncated = 0 then [] else [messageTruncated truncated]) ∧
      (coverage = [] ∨ coverage = [coverageStart] ∨ coverage = [retentionGap])
  checkpoint : ∃ last status, objects.getLast? = some last ∧
    parseCheckpoint previous last = some ⟨e.nextCursor, status⟩ ∧
    (e.records ≠ [] → e.nextCursor = e.records.getLast?.map Record.eventId) ∧
    (e.records = [] → status ≠ .reset → e.nextCursor = previous)

theorem accepted_of_checkExport {objects : List Members} {e : Export}
    (h : checkExport cal previous objects = some e) : Accepted cal previous objects e := by
  unfold checkExport at h
  simp only [Option.bind_eq_bind, Option.bind_eq_some_iff] at h
  obtain ⟨last, hlast, ⟨cursor, status⟩, hcheckpoint, ⟨records, truncated⟩, hrecords, h⟩ := h
  dsimp only at h
  split at h
  · cases h
  · rename_i hmatch
    split at h
    · cases h
    · rename_i hempty
      obtain rfl := Option.some.inj h
      refine ⟨⟨truncated, hrecords, _, rfl, ?_⟩, last, status, hlast, hcheckpoint, fun hne => ?_,
        fun heq hstatus => ?_⟩
      · split
        · exact .inr (.inr rfl)
        · split
          · exact .inr (.inl rfl)
          · exact .inl rfl
      · by_contra hdiff
        exact hmatch ⟨hne, hdiff⟩
      · by_contra hdiff
        exact hempty ⟨heq, hstatus, hdiff⟩

/-! ### The reports of the collector -/

variable {cs : List Char}

theorem append_eq_ofList {s t : String} {ds : List Char} (hs : s = String.ofList cs)
    (ht : t = String.ofList ds) : s ++ t = String.ofList (cs ++ ds) := by
  rw [hs, ht, String.ofList_append]

theorem length_ofString_of_eq {s : String} (h : s = String.ofList cs) :
    (Str.ofString s).length = cs.length := by
  rw [h, Str.ofString, String.toList_ofList, List.length_map]

-- the characters of a literal are counted as they stand: `String.toList` decodes it first
theorem bounded_report {code message : String} {ms : List Char} (hcode : code = String.ofList cs)
    (hmessage : message = String.ofList ms)
    (h : (1 ≤ cs.length ∧ cs.length ≤ 64) ∧ 1 ≤ ms.length ∧ ms.length ≤ 1024) :
    (report code message).Bounded := by
  rw [Report.Bounded, report]
  dsimp only
  rw [length_ofString_of_eq hcode, length_ofString_of_eq hmessage]
  exact h

theorem bounded_messageTruncated (hn : n ≤ maxRecords) : (messageTruncated n).Bounded := by
  have hdigits : ((Nat.toDigits 10 n).map Char.toNat).length ≤ 3 := by
    rw [List.length_map, Nat.length_toDigits_le_iff (by omega) (by omega)]
    exact hn.trans_lt (by decide)
  have htail : truncatedText.length = _ := length_ofString_of_eq (append_eq_ofList rfl rfl)
  have hbound : 1 ≤ truncatedText.length ∧ truncatedText.length ≤ 1000 := by
    rw [htail]
    decide +kernel
  have hcode : 1 ≤ (Str.ofString "message_truncated").length ∧
      (Str.ofString "message_truncated").length ≤ 64 := by
    rw [length_ofString_of_eq rfl]
    decide
  refine ⟨hcode, ?_⟩
  rw [messageTruncated]
  dsimp only
  rw [List.length_append]
  omega

/-- The reports of the collector are within their bounds. -/
theorem bounded_reports : coverageStart.Bounded ∧ retentionGap.Bounded ∧ pageFull.Bounded ∧
    batchLimited.Bounded ∧ ∀ n ≤ maxRecords, (messageTruncated n).Bounded :=
  ⟨bounded_report rfl (append_eq_ofList (append_eq_ofList rfl rfl) rfl) (by decide +kernel),
    bounded_report rfl (append_eq_ofList rfl rfl) (by decide +kernel),
    bounded_report rfl (append_eq_ofList rfl rfl) (by decide +kernel),
    bounded_report rfl (append_eq_ofList rfl rfl) (by decide +kernel),
    fun _ hn => bounded_messageTruncated hn⟩

/-- At most so many reports, all within their bounds. -/
def FewReports (n : Nat) (rs : List Report) : Prop := rs.length ≤ n ∧ ∀ r ∈ rs, r.Bounded

theorem FewReports.append {m : Nat} {rs rs' : List Report} (h : FewReports m rs)
    (h' : FewReports n rs') : FewReports (m + n) (rs ++ rs') := by
  refine ⟨?_, fun r hr => (List.mem_append.mp hr).elim (h.2 r) (h'.2 r)⟩
  rw [List.length_append]
  exact Nat.add_le_add h.1 h'.1

theorem fewReports_nil : FewReports 1 [] := ⟨Nat.zero_le _, fun _ hr => by cases hr⟩

theorem fewReports_one {r : Report} (h : r.Bounded) : FewReports 1 [r] :=
  ⟨le_refl _, fun _ hr => by rw [List.mem_singleton.mp hr]; exact h⟩

/-- The reports of an accepted export are few and within their bounds. -/
theorem Accepted.reports {objects : List Members} {e : Export} (h : Accepted cal previous objects e)
    (hlen : objects.length ≤ maxRecords + 1) : FewReports 2 e.reports := by
  obtain ⟨hstart, hgap, -, -, hcut⟩ := bounded_reports
  obtain ⟨truncated, hrecords, coverage, hreports, hcoverage⟩ := h.records
  have htruncated : truncated ≤ maxRecords := by
    have hle := (parsed_parseRecords hrecords).2
    rw [List.length_dropLast] at hle
    omega
  have hfirst : FewReports 1 coverage := by
    rcases hcoverage with rfl | rfl | rfl
    · exact fewReports_nil
    · exact fewReports_one hstart
    · exact fewReports_one hgap
  rw [hreports]
  show FewReports (1 + 1) _
  refine hfirst.append ?_
  split
  · exact fewReports_nil
  · exact fewReports_one (hcut truncated htruncated)

theorem bounded_of_parsed (hreads : Reads lib cal) {objects : List Members} {rs : List Record}
    (h : List.Forall₂ (Parsed cal) objects rs) (hclock : ∀ ms ∈ objects, NotAhead cal now ms) :
    ∀ r ∈ rs, r.Bounded lib cal now ∧ Legible r.timestamp := by
  induction h with
  | nil => exact fun _ hr => by cases hr
  | cons hone _ ih =>
    intro r hr
    rcases List.mem_cons.mp hr with rfl | hr
    · exact hone.bounded hreads (hclock _ List.mem_cons_self)
    · exact ih (fun ms hms => hclock ms (List.mem_cons_of_mem _ hms)) r hr

theorem storable_of_parsed {objects : List Members} {rs : List Record}
    (h : List.Forall₂ (Parsed cal) objects rs) :
    (∀ ms ∈ objects, storable ms = true) ↔ ∀ r ∈ rs, r.storable = true := by
  induction h with
  | nil => exact ⟨fun _ _ hr => (by cases hr), fun _ _ hms => (by cases hms)⟩
  | cons hone _ ih => rw [List.forall_mem_cons, List.forall_mem_cons, hone.storable_eq, ih]

/-- The batch of an accepted export of that many bytes, before it is cut. -/
def Export.toBody (e : Export) (source : SourceConfig) (batchId collectedAt : Str) (bytes : Nat) :
    Body :=
  ⟨batchId, source.id, source.hostname, collectedAt, e.records, e.reports ++
    if maxRecords ≤ e.records.length || exportPageBytes ≤ bytes then [pageFull] else []⟩

/-- How many records of a batch fit. -/
def Body.fitting (b : Body) : Nat :=
  if b.size ≤ maxBatchBytes then b.records.length
  else
    (popRecords { b with reports := b.reports ++ [batchLimited] } b.records.length).records.length

theorem length_limitBatch {body : Body} {nextCursor : Option Str} {sourceError : Option String}
    {p : Pending} (h : limitBatch body nextCursor sourceError = .ok p) :
    p.body.records.length = body.fitting := by
  unfold limitBatch at h
  rw [Body.fitting]
  split at h
  · cases h
  · split at h
    · rename_i hsize
      obtain rfl := Except.ok.inj h
      rw [if_pos hsize]
    · rename_i hsize
      rw [if_neg hsize]
      dsimp only at h
      split at h
      · cases h
      · obtain rfl := Except.ok.inj h
        rfl

/-- **A spooled batch is taken exactly when every journal entry that fits is storable.** -/
theorem spooled_taken_iff (hreads : Reads lib cal) {limit : Nat} {source : SourceConfig}
    {batchId collectedAt : Str} (hready : Ready lib cal now source batchId collectedAt)
    {data : List UInt8} {cursor : Option Str} {objects : List Members} {e : Export} {p : Pending}
    (hobjects : exportObjects limit data = .ok objects)
    (hexport : parseExport cal limit data cursor = .ok e)
    (hclock : ∀ ms ∈ objects.dropLast, NotAhead cal now ms)
    (hpending : buildPending cal limit source batchId collectedAt cursor (.ok data) = .ok p) :
    Taken lib cal now p.body ↔
      ∀ ms ∈ objects.dropLast.take (e.toBody source batchId collectedAt data.length).fitting,
        storable ms = true := by
  have haccepted : Accepted cal cursor objects e := by
    rw [parseExport, hobjects] at hexport
    dsimp only at hexport
    split at hexport
    · cases hexport
    · rename_i e' hcheck
      obtain rfl := Except.ok.inj hexport
      exact accepted_of_checkExport hcheck
  have hlen := length_exportObjects hobjects
  have hreports := haccepted.reports hlen
  obtain ⟨truncated, hrecords, -⟩ := haccepted.records
  have hparsed := (parsed_parseRecords hrecords).1
  rw [buildPending] at hpending
  dsimp only at hpending
  rw [hexport] at hpending
  rw [show (e.toBody source batchId collectedAt data.length).fitting = p.body.records.length from
    (length_limitBatch hpending).symm]
  obtain ⟨k, more, hbody, hmore, -⟩ := limitBatch_eq_ok hpending
  dsimp only at hbody
  have hcount : p.body.records = e.records.take p.body.records.length := by
    rw [hbody]
    dsimp only
    rw [List.length_take, List.take_eq_take_min]
  -- the records of the batch come from the entries at the same places
  have hpairs := List.forall₂_take p.body.records.length hparsed
  rw [← hcount] at hpairs
  have hbounded := bounded_of_parsed hreads hpairs fun ms hms => hclock ms (List.mem_of_mem_take hms)
  have hfew : FewReports (2 + 1 + 1) p.body.reports := by
    obtain ⟨-, -, hfull, hlimited, -⟩ := bounded_reports
    rw [hbody]
    refine (hreports.append ?_).append ?_
    · split
      · exact fewReports_one hfull
      · exact fewReports_nil
    · rcases hmore with ⟨rfl, -⟩ | ⟨rfl, -⟩
      · exact fewReports_nil
      · exact fewReports_one hlimited
  have hsent : telemetryBatch lib cal now (toJson p.body.toValue) = some p.body.sent := by
    refine telemetryBatch_sent ?_ ?_ (fun r hr => (hbounded r hr).1) (hfew.1.trans (by decide)) hfew.2
    · rw [hbody]
      exact hready
    · have hle := hparsed.length_eq
      rw [List.length_dropLast] at hle
      rw [hcount, List.length_take]
      have hmax : maxRecords = 200 := rfl
      omega
  rw [storable_of_parsed hpairs]
  constructor
  · rintro ⟨batch, hbatch, hall⟩ r hr
    obtain rfl := Option.some.inj (hsent.symm.trans hbatch)
    exact (normalizeRecord_sent (hbounded r hr).1 (hbounded r hr).2).mp
      (hall _ (List.mem_map_of_mem hr))
  · intro hall
    refine ⟨p.body.sent, hsent, fun j hj => ?_⟩
    obtain ⟨r, hr, rfl⟩ := List.mem_map.mp hj
    exact (normalizeRecord_sent (hbounded r hr).1 (hbounded r hr).2).mpr (hall r hr)

end

/-! ### A journal entry that blocks its source -/

/-- A library that knows the time of one entry. -/
def oneTime : Library := ⟨fun _ => false, fun _ => false, fun t =>
  if t = "2026-01-01T00:00:00Z".toList then some 1767225600 else none⟩

def oneTimeCalendar : Calendar where
  decimal := fun c => if isDigit c then some (c - 48) else none
  fromtimestamp := fun n => if n = 1767225600000000 then some 1767225600 else none
  isoformat := fun _ => Str.ofString "2026-01-01T00:00:00Z"

/-- A journal entry of an SSH daemon. -/
def entryWith (priority : String) : Value :=
  .obj [(Str.ofString "__CURSOR", .str (Str.ofString "s=1;i=2")),
    (Str.ofString "__REALTIME_TIMESTAMP", .str (Str.ofString "1767225600000000")),
    (Str.ofString "MESSAGE", .str (Str.ofString "Connection closed")),
    (Str.ofString "PRIORITY", .str (Str.ofString priority))]

def checkpointAt : Value :=
  .obj [(Str.ofString "__riskops_checkpoint__", .str (Str.ofString "s=1;i=2")),
    (Str.ofString "cursor_status", .str (Str.ofString "initial"))]

/-- An export of one entry. -/
def exportWith (priority : String) : List UInt8 :=
  (dumps (entryWith priority) ++ 10 :: (dumps checkpointAt ++ [10])).map UInt8.ofNat

def edge : SourceConfig := ⟨Str.ofString "edge-1", Str.ofString "edge"⟩

/-- The batch spooled of an export. -/
def spooledWith (priority : String) : Except BuildError Pending :=
  buildPending oneTimeCalendar 100 edge (Str.ofString "b") (Str.ofString "2026-01-01T00:00:00Z") none
    (.ok (exportWith priority))

instance (lib : Library) (cal : Calendar) (now : ℚ) (body : Body) :
    Decidable (Taken lib cal now body) :=
  match h : telemetryBatch lib cal now (toJson body.toValue) with
  | none => .isFalse fun ⟨_, hbatch, _⟩ => by cases h.symm.trans hbatch
  | some batch =>
    decidable_of_iff (∀ r ∈ batch.records, (normalizeRecord lib now r).toOption.isSome = true) <| by
      have hone : ∀ r, (normalizeRecord lib now r).toOption.isSome = true ↔
          ∃ n, normalizeRecord lib now r = .ok n := by
        intro r
        cases normalizeRecord lib now r with
        | error e => exact ⟨fun h => (by cases h), fun ⟨_, h⟩ => (by cases h)⟩
        | ok n => exact ⟨fun _ => ⟨n, rfl⟩, fun _ => rfl⟩
      simp only [hone]
      refine ⟨fun hall => ⟨batch, h, hall⟩, fun ⟨b, hbatch, hall⟩ => ?_⟩
      obtain rfl := Option.some.inj (h.symm.trans hbatch)
      exact hall

/-- An entry with priority 9 is spooled, and its batch is refused. -/
theorem priority_nine_refused :
    ∃ p, spooledWith "9" = .ok p ∧ p.sourceError = none ∧ p.body.records.length = 1 ∧
      ¬ Taken oneTime oneTimeCalendar 1767225600 p.body := by
  have hrun : (spooledWith "9").toOption.any (fun p => p.sourceError = none ∧
      p.body.records.length = 1 ∧ ¬ Taken oneTime oneTimeCalendar 1767225600 p.body) = true := by
    decide +kernel
  cases hspooled : spooledWith "9" with
  | error e =>
    rw [hspooled] at hrun
    cases hrun
  | ok p =>
    rw [hspooled] at hrun
    exact ⟨p, rfl, of_decide_eq_true hrun⟩

theorem fromtimestamp_oneTime {t : ℚ} (h : oneTimeCalendar.fromtimestamp n = some t) :
    t = 1767225600 := by
  change (if n = 1767225600000000 then some (1767225600 : ℚ) else none) = some t at h
  split at h
  · exact (Option.some.inj h).symm
  · cases h

theorem reads_oneTime : Reads oneTime oneTimeCalendar := by
  intro n t h
  rw [fromtimestamp_oneTime h]
  have hlen : 1 ≤ (oneTimeCalendar.isoformat 1767225600).length ∧
      (oneTimeCalendar.isoformat 1767225600).length ≤ 64 := by decide
  exact ⟨by decide, hlen, by decide, by decide⟩

/-- An entry with priority 6 is taken. -/
theorem priority_six_taken :
    ∃ p, spooledWith "6" = .ok p ∧ Taken oneTime oneTimeCalendar 1767225600 p.body := by
  have hready : Ready oneTime oneTimeCalendar 1767225600 edge (Str.ofString "b")
      (Str.ofString "2026-01-01T00:00:00Z") :=
    ⟨by decide, by decide, by decide, by decide, 1767225600,
      by decide, le_refl _, rfl⟩
  have hstorable : (exportObjects 100 (exportWith "6")).toOption.any
      (fun objects => objects.dropLast.all storable) = true := by decide +kernel
  have hparsed : (parseExport oneTimeCalendar 100 (exportWith "6") none).toOption.isSome = true := by
    decide +kernel
  have hbuilt : (spooledWith "6").toOption.isSome = true := by decide +kernel
  cases hobjects : exportObjects 100 (exportWith "6") with
  | error e =>
    rw [hobjects] at hstorable
    cases hstorable
  | ok objects =>
    rw [hobjects] at hstorable
    cases hexport : parseExport oneTimeCalendar 100 (exportWith "6") none with
    | error e =>
      rw [hexport] at hparsed
      cases hparsed
    | ok e =>
      cases hspooled : spooledWith "6" with
      | error err =>
        rw [hspooled] at hbuilt
        cases hbuilt
      | ok p =>
        refine ⟨p, rfl, (spooled_taken_iff reads_oneTime hready hobjects hexport ?_
          hspooled).mpr fun ms hms => ?_⟩
        · intro ms _ n t _ ht
          exact le_of_eq (fromtimestamp_oneTime ht)
        · exact List.all_eq_true.mp hstorable ms (List.mem_of_mem_take hms)

end RiskOps.Telemetry.JournalCollector
