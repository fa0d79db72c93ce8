import RiskOps.Storage.AuditTimeline

/-!
# RiskOps.Telemetry.JournalCollector — the SSH journal collector

Model of `parse_export` and `build_pending` (`scripts/telemetry_collector.py`). An export is bytes: one
JSON object a line and a checkpoint behind them. **`parse_export`** validates all of it or raises;
**`build_pending`** makes the batch that is spooled, cut to the prefix that fits the size limit.

Every error inside `parse_export` is the same `invalid_journal_export`, so the checks of one record
are made here in the order its fields are read. A nesting too deep for the decoder is no such error:
it leaves `build_pending`, and so does a lone surrogate in a field that is not the message.
-/

namespace RiskOps.Telemetry.JournalCollector

open RiskOps.Lib.PyJson
open RiskOps.Lib (Str)

/-! ### Bytes and text -/

/-- A continuation byte of UTF-8. -/
def isTail (b : UInt8) : Bool := 0x80 ≤ b && b ≤ 0xBF

/-- `data.decode("utf-8")`; `none` is `UnicodeDecodeError`. -/
def decodeUtf8 : List UInt8 → Option Str
  | [] => some []
  | a :: rest =>
    if a < 0x80 then (decodeUtf8 rest).map (a.toNat :: ·)
    else match rest with
      | [] => none
      | b :: rest =>
        if 0xC2 ≤ a && a ≤ 0xDF && isTail b then
          (decodeUtf8 rest).map (((a.toNat - 0xC0) * 64 + (b.toNat - 0x80)) :: ·)
        else match rest with
          | [] => none
          | c :: rest =>
            -- no overlong form, no surrogate
            if 0xE0 ≤ a && a ≤ 0xEF && isTail b && isTail c && (a != 0xE0 || 0xA0 ≤ b) &&
                (a != 0xED || b ≤ 0x9F) then
              (decodeUtf8 rest).map
                ((((a.toNat - 0xE0) * 64 + (b.toNat - 0x80)) * 64 + (c.toNat - 0x80)) :: ·)
            else match rest with
              | [] => none
              | d :: rest =>
                if 0xF0 ≤ a && a ≤ 0xF4 && isTail b && isTail c && isTail d &&
                    (a != 0xF0 || 0x90 ≤ b) && (a != 0xF4 || b ≤ 0x8F) then
                  (decodeUtf8 rest).map
                    (((((a.toNat - 0xF0) * 64 + (b.toNat - 0x80)) * 64 + (c.toNat - 0x80)) * 64 +
                      (d.toNat - 0x80)) :: ·)
                else none

/-- The bytes a code point takes. -/
def utf8Size (c : Nat) : Nat :=
  if c < 0x80 then 1 else if c < 0x800 then 2 else if c < 0x10000 then 3 else 4

/-- `len(text.encode("utf-8"))`. -/
def byteLength (s : Str) : Nat := (s.map utf8Size).sum

/-- `encoded[:n].decode("utf-8", errors="ignore")`: the characters that are whole inside the first
`n` bytes. -/
def takeBytes : Nat → Str → Str
  | _, [] => []
  | n, c :: s => if utf8Size c ≤ n then c :: takeBytes (n - utf8Size c) s else []

/-! ### Records -/

/-- What the interpreter's library decides: the value of a decimal digit, the time
`datetime.fromtimestamp(n / 1_000_000, timezone.utc)` (`none` when it raises) and its
`isoformat().replace("+00:00", "Z")`. -/
structure Calendar where
  decimal : Nat → Option Nat
  fromtimestamp : Nat → Option ℚ
  isoformat : ℚ → Str

/-- The `PRIORITY` of a journal entry. -/
inductive PriorityField
  | text (s : Str)
  | level (n : Int)
  deriving DecidableEq

/-- A record of a batch. -/
structure Record where
  eventId : Str
  timestamp : Str
  message : Str
  unit : Option Str
  priority : Option PriorityField
  identifier : Option Str
  deriving DecidableEq

/-- A report of a batch: its code and its text. -/
structure Report where
  code : Str
  message : Str
  deriving DecidableEq

/-- A JSON object. -/
abbrev Members := List (Str × Value)

/-- `value.get(key)`. -/
def member (ms : Members) (key : String) : Option Value := ms.lookup (Str.ofString key)

/-- A string. -/
def asText : Option Value → Option Str
  | some (.str s) => some s
  | _ => none

/-- A cursor: a string of 1 to 512 characters. -/
def asCursor (v : Option Value) : Option Str :=
  (asText v).filter fun s => 1 ≤ s.length && s.length ≤ 512

/-- `int(str(value))` of digits. -/
def asDigits (cal : Calendar) : Option Value → Option Nat
  | some (.int n) => if 0 ≤ n then some n.toNat else none
  | some (.str s) =>
    if s.isEmpty || maxStrDigits < s.length then none
    else (s.mapM cal.decimal).map fun ds => ds.foldl (fun n d => n * 10 + d) 0
  | _ => none

/-- `_SYSTEMD_UNIT` and `SYSLOG_IDENTIFIER`: at most 256 characters, or nothing. -/
def asMetadata : Option Value → Option (Option Str)
  | none => some none
  | some .null => some none
  | some (.str s) => if s.length ≤ 256 then some (some s) else none
  | _ => none

/-- `PRIORITY`: a string or an integer of at most 16 characters, or nothing. -/
def asPriority : Option Value → Option (Option PriorityField)
  | none => some none
  | some .null => some none
  | some (.str s) => if s.length ≤ 16 then some (some (.text s)) else none
  | some (.int n) => if (dumpInt n).length ≤ 16 then some (some (.level n)) else none
  | _ => none

def maxMessageBytes : Nat := 4096

def maxRecords : Nat := 200

def maxBatchBytes : Nat := 1000000

def exportPageBytes : Nat := 3 * 1024 * 1024 - 4096 - 65536 - 1024

/-- One entry of the journal, and whether its message was cut. -/
def parseRecord (cal : Calendar) (ms : Members) : Option (Record × Bool) := do
  let eventId ← asCursor (member ms "__CURSOR")
  let digits ← asDigits cal (member ms "__REALTIME_TIMESTAMP")
  let instant ← cal.fromtimestamp digits
  let message ← (asText (member ms "MESSAGE")).filter Str.encodable
  let unit ← asMetadata (member ms "_SYSTEMD_UNIT")
  let identifier ← asMetadata (member ms "SYSLOG_IDENTIFIER")
  let priority ← asPriority (member ms "PRIORITY")
  some (⟨eventId, cal.isoformat instant,
    if maxMessageBytes < byteLength message then takeBytes maxMessageBytes message else message,
    unit, priority, identifier⟩, maxMessageBytes < byteLength message)

/-- The entries, none of which repeats an id; and how many messages were cut. -/
def parseRecords (cal : Calendar) (previous : Option Str) :
    List Str → List Members → Option (List Record × Nat)
  | _, [] => some ([], 0)
  | seen, ms :: rest => do
    let (r, cut) ← parseRecord cal ms
    if r.eventId ∈ seen ∨ previous = some r.eventId then none
    else
      let (rs, truncated) ← parseRecords cal previous (r.eventId :: seen) rest
      some (r :: rs, truncated + if cut then 1 else 0)

/-! ### `parse_export` -/

inductive CursorStatus
  | ok
  | initial
  | reset
  deriving DecidableEq

/-- What a checkpoint says. -/
structure Checkpoint where
  cursor : Option Str
  status : CursorStatus

/-- The last line of an export. -/
def parseCheckpoint (previous : Option Str) (ms : Members) : Option Checkpoint := do
  let cursor ← match member ms "__riskops_checkpoint__" with
    | none => none
    | some .null => some none
    | some v => (asCursor (some v)).map some
  let status ← match member ms "cursor_status" with
    | none => some (if previous = none then CursorStatus.initial else .ok)
    | some (.str s) =>
      if s = Str.ofString "ok" then some .ok
      else if s = Str.ofString "initial" then some .initial
      else if s = Str.ofString "reset" then some .reset else none
    | _ => none
  if previous ≠ none ∧ status = .initial then none else some ⟨cursor, status⟩

/-- `report`. -/
def report (code message : String) : Report := ⟨Str.ofString code, Str.ofString message⟩

def retentionGap : Report := report "retention_gap" ("Previous journal cursor is unavailable; " ++
  "recovered only the exporter's recent window. Earlier events may be missing.")

def coverageStart : Report := report "coverage_start" ("No saved cursor: collection starts from " ++
  "the last ten minutes. Earlier history is outside coverage; server-side event deduplication " ++
  "handles overlap.")

def truncatedText : Str := Str.ofString (" journal messages exceeded 4096 UTF-8 bytes and were " ++
  "explicitly truncated; full messages remain in the source journal while retained.")

def messageTruncated (n : Nat) : Report :=
  ⟨Str.ofString "message_truncated", (Nat.toDigits 10 n).map Char.toNat ++ truncatedText⟩

def pageFull : Report := report "page_full" ("The export filled a whole page; more records are " ++
  "probably waiting and will be read next, so this source is catching up.")

def batchLimited : Report := report "batch_limited" ("Only a prefix of this export fits the " ++
  "ingestion limit; remaining records will be fetched after the last acknowledged cursor.")

def collectionFailed (code : String) : Report := report code ("Source collection failed; no journal " ++
  "cursor was advanced. Check collector connectivity and the restricted exporter.")

/-- What `parse_export` raises. -/
inductive ParseError
  | invalidJournalExport
  | recursion
  deriving DecidableEq

/-- What `parse_export` returns. -/
structure Export where
  records : List Record
  nextCursor : Option Str
  reports : List Report
  deriving DecidableEq

/-- `isinstance(value, dict)`. -/
def asObject : Value → Option Members
  | .obj ms => some ms
  | _ => none

/-- The objects of an export: the decoded lines. -/
def exportObjects (limit : Nat) (data : List UInt8) : Except ParseError (List Members) :=
  match decodeUtf8 data with
  | none => .error .invalidJournalExport
  | some text =>
    let lines := Storage.splitlines text
    if lines.isEmpty || maxRecords + 1 < lines.length || lines.any Str.blank then
      .error .invalidJournalExport
    else
      match lines.mapM (loads limit) with
      | .error .recursion => .error .recursion
      | .error .value => .error .invalidJournalExport
      | .ok values =>
        match values.mapM asObject with
        | none => .error .invalidJournalExport
        | some objects => .ok objects

/-- The checks on the objects. -/
def checkExport (cal : Calendar) (previous : Option Str) (objects : List Members) : Option Export := do
  let last ← objects.getLast?
  let checkpoint ← parseCheckpoint previous last
  let (records, truncated) ← parseRecords cal previous [] objects.dropLast
  let coverage := if checkpoint.status = .reset then [retentionGap]
    else if previous = none then [coverageStart] else []
  if records ≠ [] ∧ checkpoint.cursor ≠ records.getLast?.map Record.eventId then none
  else if records = [] ∧ checkpoint.status ≠ .reset ∧ checkpoint.cursor ≠ previous then none
  else some ⟨records, checkpoint.cursor,
    coverage ++ if truncated = 0 then [] else [messageTruncated truncated]⟩

/-- `parse_export`. -/
def parseExport (cal : Calendar) (limit : Nat) (data : List UInt8) (previous : Option Str) :
    Except ParseError Export :=
  match exportObjects limit data with
  | .error e => .error e
  | .ok objects =>
    match checkExport cal previous objects with
    | none => .error .invalidJournalExport
    | some e => .ok e

/-! ### `build_pending` -/

/-- The body of a batch. -/
structure Body where
  batchId : Str
  sourceId : Str
  hostname : Str
  collectedAt : Str
  records : List Record
  reports : List Report
  deriving DecidableEq

/-- The spooled batch. -/
structure Pending where
  body : Body
  nextCursor : Option Str
  sourceError : Option String
  deriving DecidableEq

def nullable : Option Str → Value
  | none => .null
  | some s => .str s

def PriorityField.toValue : PriorityField → Value
  | .text s => .str s
  | .level n => .int n

def Record.toValue (r : Record) : Value :=
  .obj [(Str.ofString "event_id", .str r.eventId), (Str.ofString "timestamp", .str r.timestamp),
    (Str.ofString "message", .str r.message), (Str.ofString "unit", nullable r.unit),
    (Str.ofString "priority", (r.priority.map PriorityField.toValue).getD .null),
    (Str.ofString "identifier", nullable r.identifier)]

def Report.toValue (r : Report) : Value :=
  .obj [(Str.ofString "code", .str r.code), (Str.ofString "message", .str r.message)]

def Body.toValue (b : Body) : Value :=
  .obj [(Str.ofString "batch_id", .str b.batchId), (Str.ofString "source_id", .str b.sourceId),
    (Str.ofString "hostname", .str b.hostname), (Str.ofString "collected_at", .str b.collectedAt),
    (Str.ofString "records", .arr (b.records.map Record.toValue)),
    (Str.ofString "reports", .arr (b.reports.map Report.toValue))]

/-- `len(encode(body))`. -/
def Body.size (b : Body) : Nat := byteLength (dumps b.toValue)

/-- What `build_pending` raises. -/
inductive BuildError
  | recordExceedsBatchLimit
  | unicode
  | recursion
  deriving DecidableEq

/-- A source of the configuration. -/
structure SourceConfig where
  id : Str
  hostname : Str

/-- `while records and len(encode(body)) > MAX_BATCH_BYTES: records.pop()`, for as many rounds. -/
def popRecords (b : Body) : Nat → Body
  | 0 => b
  | n + 1 =>
    if b.records ≠ [] ∧ maxBatchBytes < b.size then
      popRecords { b with records := b.records.dropLast } n
    else b

/-- The end of `build_pending`: the batch, cut to the size limit. -/
def limitBatch (body : Body) (nextCursor : Option Str) (sourceError : Option String) :
    Except BuildError Pending :=
  if body.toValue.encodable = false then .error .unicode
  else if body.size ≤ maxBatchBytes then .ok ⟨body, nextCursor, sourceError⟩
  else
    let cut := popRecords { body with reports := body.reports ++ [batchLimited] } body.records.length
    match cut.records.getLast? with
    | none => .error .recordExceedsBatchLimit
    | some r => .ok ⟨cut, some r.eventId, sourceError⟩

/-- `build_pending`: `fetched` is what the export command gave, `batchId` the fresh id and
`collectedAt` the clock. -/
def buildPending (cal : Calendar) (limit : Nat) (source : SourceConfig) (batchId collectedAt : Str)
    (cursor : Option Str) (fetched : Except String (List UInt8)) : Except BuildError Pending :=
  let failed (code : String) :=
    limitBatch ⟨batchId, source.id, source.hostname, collectedAt, [], [collectionFailed code]⟩ cursor
      (some code)
  match fetched with
  | .error code => failed code
  | .ok data =>
    match parseExport cal limit data cursor with
    | .error .invalidJournalExport => failed "invalid_journal_export"
    | .error .recursion => .error .recursion
    | .ok e =>
      let full := maxRecords ≤ e.records.length || exportPageBytes ≤ data.length
      limitBatch ⟨batchId, source.id, source.hostname, collectedAt, e.records,
        e.reports ++ if full then [pageFull] else []⟩ e.nextCursor none

end RiskOps.Telemetry.JournalCollector
