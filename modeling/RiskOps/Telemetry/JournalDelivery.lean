import RiskOps.Telemetry.JournalIntake
import RiskOps.Telemetry.StoreRecords

/-!
# RiskOps.Telemetry.JournalDelivery — from the journal to the store, once and in order

Model of `collect_page` (`scripts/telemetry_collector.py`) against `TelemetryStore.ingest`. The
collector has two files: the **cursor** and the **pending batch**. A page is spooled before it is
sent, the cursor is saved after the batch is acknowledged, and the pending file is removed after the
cursor is saved. A process may stop anywhere; a request may be lost, answered or not, and reach the
server late or more than once.

**What carries it.** The ids the server has receipts for are a stretch of the journal. The saved
cursor is the end of it, or, while a page is pending whose batch was committed, somewhere in it. The
pending page either begins where the stretch ends or is its end.
-/

namespace RiskOps.Telemetry.Store

open RiskOps.Lib

/-! ### The ids a batch adds -/

/-- The ids a source has receipts for, oldest first. -/
def ingestedIds (db : Db) (sourceId : List Char) : List (List Char) :=
  (db.receipts.rows.filter fun r => r.sourceId = sourceId).map fun r => r.record.eventId

/-- The ids that are not known, each once. -/
def newIds (known : List (List Char)) : List (List Char) → List (List Char)
  | [] => []
  | x :: xs => if x ∈ known then newIds known xs else x :: newIds (known ++ [x]) xs

theorem newIds_known {known ids : List (List Char)} (h : ∀ x ∈ ids, x ∈ known) :
    newIds known ids = [] := by
  induction ids with
  | nil => rfl
  | cons x xs ih =>
    rw [newIds, if_pos (h x List.mem_cons_self)]
    exact ih fun y hy => h y (List.mem_cons_of_mem _ hy)

theorem newIds_fresh {known ids : List (List Char)} (h : ∀ x ∈ ids, x ∉ known) (hnodup : ids.Nodup) :
    newIds known ids = ids := by
  induction ids generalizing known with
  | nil => rfl
  | cons x xs ih =>
    obtain ⟨hx, hxs⟩ := List.nodup_cons.mp hnodup
    rw [newIds, if_neg (h x List.mem_cons_self), ih ?_ hxs]
    intro y hy hmem
    rcases List.mem_append.mp hmem with hmem | hmem
    · exact h y (List.mem_cons_of_mem _ hy) hmem
    · rw [List.mem_singleton.mp hmem] at hy
      exact hx hy

theorem mem_newIds {known ids : List (List Char)} {x : List Char} (h : x ∈ ids) :
    x ∈ known ++ newIds known ids := by
  induction ids generalizing known with
  | nil => cases h
  | cons y ys ih =>
    rw [newIds]
    split
    · rename_i hy
      rcases List.mem_cons.mp h with rfl | h
      · exact List.mem_append_left _ hy
      · exact ih h
    · rcases List.mem_cons.mp h with rfl | h
      · exact List.mem_append_right _ List.mem_cons_self
      · have hrest : x ∈ known ++ [y] ++ newIds (known ++ [y]) ys := ih h
        rwa [List.append_assoc, List.singleton_append] at hrest

theorem mem_ingestedIds {db : Db} {sourceId id : List Char} :
    id ∈ ingestedIds db sourceId ↔ (db.receipts.find? (sourceId, id)).isSome = true := by
  rw [ingestedIds, List.mem_map, Option.isSome_iff_exists]
  constructor
  · rintro ⟨r, hr, rfl⟩
    obtain ⟨hmem, hsource⟩ := List.mem_filter.mp hr
    refine ⟨r, Table.find?_eq_some_iff.mpr ⟨hmem, ?_⟩⟩
    rw [Receipt.key, of_decide_eq_true hsource]
  · rintro ⟨r, hr⟩
    obtain ⟨hmem, hkey⟩ := Table.find?_eq_some_iff.mp hr
    obtain ⟨hsource, hid⟩ := Prod.mk.inj hkey
    exact ⟨r, List.mem_filter.mpr ⟨hmem, decide_eq_true hsource⟩, hid⟩

variable {c : Call}

theorem ingestedIds_ingestRecord {st st' : Intake} {r : Normalized}
    (h : ingestRecord c st r = .ok st') (sourceId : List Char) :
    ingestedIds st'.db sourceId = ingestedIds st.db sourceId ++
      if sourceId = c.sourceId then newIds (ingestedIds st.db sourceId) [r.raw.eventId] else [] := by
  unfold ingestRecord at h
  split at h
  · rename_i prior hprior
    split at h
    · obtain rfl := Except.ok.inj h
      split
      · rename_i hsource
        rw [hsource, newIds_known, List.append_nil]
        intro x hx
        rw [List.mem_singleton.mp hx, mem_ingestedIds, hprior]
        rfl
      · rw [List.append_nil]
    · cases h
  · rename_i hnone
    dsimp only at h
    split at h
    · rename_i receipts events hreceipts hevents
      obtain rfl := Except.ok.inj h
      rw [ingestedIds]
      dsimp only
      rw [Table.rows_of_insert hreceipts, List.filter_append, List.map_append]
      split
      · rename_i hsource
        rw [hsource, newIds_fresh (fun x hx => ?_) (List.nodup_singleton _)]
        · rw [List.filter_cons_of_pos (by simp)]
          rfl
        · rw [List.mem_singleton.mp hx, mem_ingestedIds, hnone]
          exact Bool.false_ne_true
      · rename_i hsource
        rw [List.filter_cons_of_neg (by simpa using fun h => hsource h.symm)]
        rfl
    · cases h

theorem newIds_cons (known : List (List Char)) (x : List Char) (xs : List (List Char)) :
    newIds known (x :: xs) = newIds known [x] ++ newIds (known ++ newIds known [x]) xs := by
  rw [newIds, newIds]
  split
  · rw [newIds, List.append_nil, List.nil_append]
  · rw [newIds]
    rfl

theorem ingestedIds_ingestRecords {st st' : Intake} {rs : List Normalized}
    (h : ingestRecords c st rs = .ok st') (sourceId : List Char) :
    ingestedIds st'.db sourceId = ingestedIds st.db sourceId ++
      if sourceId = c.sourceId then
        newIds (ingestedIds st.db sourceId) (rs.map fun r => r.raw.eventId) else [] := by
  induction rs generalizing st with
  | nil =>
    obtain rfl := Except.ok.inj h
    split
    · rw [List.map_nil, newIds, List.append_nil]
    · rw [List.append_nil]
  | cons r rs ih =>
    rw [ingestRecords, bind_eq_ok] at h
    obtain ⟨mid, hone, hrest⟩ := h
    rw [ih hrest, ingestedIds_ingestRecord hone]
    split
    · rw [List.map_cons, newIds_cons _ r.raw.eventId (rs.map _), List.append_assoc]
    · rw [List.append_nil, List.append_nil]

/-- Every record of a committed batch has a receipt. -/
def BatchesKept (db : Db) : Prop :=
  ∀ b ∈ db.batches, ∀ raw ∈ b.payload.records, raw.eventId ∈ ingestedIds db b.sourceId

/-- **The ids an accepted call adds**: those of its records that its source has no receipt for. -/
theorem ingestedIds_ingest {lib : Library} {db db' : Db} {r : Response}
    (h : ingest lib db c = .ok (db', r)) (hkept : BatchesKept db) :
    BatchesKept db' ∧ ∃ k, checkCall lib c = .ok k ∧ ∀ sourceId,
      ingestedIds db' sourceId = ingestedIds db sourceId ++
        if sourceId = c.sourceId then
          newIds (ingestedIds db sourceId) (k.records.map fun r => r.raw.eventId) else [] := by
  rw [ingest, bind_eq_ok] at h
  obtain ⟨k, hk, h⟩ := h
  split at h
  · rename_i batch hbatch
    split at h
    · rename_i hpayload
      obtain ⟨rfl, -⟩ := Prod.mk.inj (Except.ok.inj h)
      refine ⟨hkept, k, hk, fun sourceId => ?_⟩
      obtain ⟨hmem, hkey⟩ := Table.find?_eq_some_iff.mp hbatch
      -- a replayed batch has receipts for all its records
      have hknown : ∀ x ∈ k.records.map (fun r => r.raw.eventId), x ∈ ingestedIds db c.sourceId := by
        intro x hx
        obtain ⟨n, hn, rfl⟩ := List.mem_map.mp hx
        have hraw : n.raw ∈ batch.payload.records := by
          rw [hpayload]
          exact List.mem_map_of_mem hn
        have hin := hkept batch hmem n.raw hraw
        rwa [(Prod.mk.inj hkey).1] at hin
      split
      · rename_i hsource
        rw [hsource, newIds_known hknown, List.append_nil]
        rfl
      · rw [List.append_nil]
        rfl
    · cases h
  · have hbatches := batches_commitBatch h
    obtain ⟨st, db₁, changed, batches, hloop, hdetect, hinsert, rfl, rfl⟩ := commitBatch_eq_ok.mp h
    have hreceipts := (countedBatch_tables k hdetect (batchIds db₁ changed)).2
    have hids : ∀ sourceId, ingestedIds
        { countedBatch c k st db₁ (batchIds db₁ changed) with batches := batches } sourceId =
        ingestedIds db sourceId ++ if sourceId = c.sourceId then
          newIds (ingestedIds db sourceId) (k.records.map fun r => r.raw.eventId) else [] := by
      intro sourceId
      have hcommitted := congrArg (fun t : Table Receipt.key =>
        (t.rows.filter fun r => r.sourceId = sourceId).map fun r => r.record.eventId) hreceipts
      exact hcommitted.trans (ingestedIds_ingestRecords hloop sourceId)
    refine ⟨fun b hb raw hraw => ?_, k, hk, hids⟩
    rw [hids]
    rcases (Table.mem_of_insert hbatches).mp hb with hold | rfl
    · exact List.mem_append_left _ (hkept b hold raw hraw)
    · obtain ⟨n, hn, rfl⟩ := List.mem_map.mp hraw
      rw [if_pos (show (newBatch c k _).sourceId = c.sourceId from rfl)]
      exact mem_newIds (List.mem_map_of_mem hn)

end RiskOps.Telemetry.Store

namespace RiskOps.Telemetry.JournalCollector

open RiskOps.Lib.PyJson Store
open RiskOps.Lib (Json StepsSatisfy Str Table bind_eq_ok run run_invariant_of_steps)

/-! ### The system -/

/-- What a running `collect_page` has in hand. -/
inductive Phase
  | idle
  /-- The batch was sent. -/
  | waiting (p : Pending)
  /-- It was acknowledged. -/
  | acked (p : Pending)
  /-- The cursor was saved. -/
  | saved (p : Pending)

/-- The journal, the two files of the collector, its process, the requests on their way and the
database of the server. -/
structure World where
  journal : List Members
  cursor : Option Str
  pending : Option Pending
  phase : Phase
  requests : List Body
  db : Db

inductive Step
  /-- The journal grows. -/
  | append (entries : List Members)
  /-- `collect_page` finds no pending file: it fetches an export and spools a batch. -/
  | spool (batchId collectedAt : Str) (fetched : Except String (List UInt8))
  /-- It sends the spooled batch. -/
  | send
  /-- A request reaches the server, and the answer reaches the collector or not. -/
  | deliver (body : Body) (now : ℚ) (uuid : Nat → List Char) (answered : Bool)
  /-- An acknowledged cursor is saved. -/
  | saveCursor
  /-- The pending file is removed. -/
  | unlink
  /-- The process stops: a crash, a timeout, an error. -/
  | stop
  /-- The server takes a batch of another source. -/
  | other (call : Call)

section

variable (lib : Library) (cal : Calendar) (limit : Nat) (source : SourceConfig) (hostname : List Char)

/-- `"\n".join(errors)[:2048] or None`. -/
def errorOf (batch : TelemetryBatch) : Option (List Char) :=
  let errors := (batch.error.toList.filter fun e => !e.isEmpty) ++
    batch.reports.map fun r => r.1 ++ ": ".toList ++ r.2
  let joined := (['\n'].intercalate errors).take 2048
  if joined.isEmpty then none else some joined

/-- The endpoint of the API: `none` is an error answer. -/
def handle (now : ℚ) (uuid : Nat → List Char) (db : Db) (body : Body) : Option Db :=
  match telemetryBatch lib cal now (toJson body.toValue) with
  | none => none
  | some batch =>
    if batch.sourceId ≠ text source.id ∨ (batch.hostname ≠ none ∧ batch.hostname ≠ some hostname) then
      none
    else
      match ingest lib db ⟨text source.id, hostname, batch.batchId, batch.records, errorOf batch, now,
        uuid⟩ with
      | .error _ => none
      | .ok (db, _) => some db

/-- The codes a spooled batch may have for a failed collection. -/
def sourceErrors : List String := ["ssh_start_failed", "ssh_timeout", "ssh_output_timeout",
  "ssh_output_limit", "ssh_export_failed", "invalid_journal_export"]

/-- The checks on a spooled batch before it is sent. -/
def validSpool (p : Pending) : Bool :=
  p.body.sourceId = source.id && p.body.hostname = source.hostname && !p.body.batchId.isEmpty &&
    p.sourceError.all (fun code => decide (code ∈ sourceErrors)) &&
    p.nextCursor.all (fun c => decide (1 ≤ c.length ∧ c.length ≤ 512)) &&
    (p.body.records.isEmpty || p.body.records.getLast?.map Record.eventId = p.nextCursor) &&
    p.body.size ≤ maxBatchBytes

/-- One step. -/
def next (w : World) : Step → World
  | .append entries => { w with journal := w.journal ++ entries }
  | .spool batchId collectedAt fetched =>
    match w.phase, w.pending with
    | .idle, none =>
      match buildPending cal limit source batchId collectedAt w.cursor fetched with
      | .error _ => w
      | .ok p => { w with pending := some p }
    | _, _ => w
  | .send =>
    match w.phase, w.pending with
    | .idle, some p =>
      if validSpool source p then { w with phase := .waiting p, requests := p.body :: w.requests }
      else w
    | _, _ => w
  | .deliver body now uuid answered =>
    if body ∈ w.requests then
      match handle lib cal source hostname now uuid w.db body with
      | none => w
      | some db =>
        { w with
          db := db
          phase := match w.phase with
            | .waiting p => if answered && p.body = body then .acked p else .waiting p
            | phase => phase }
    else w
  | .saveCursor =>
    match w.phase with
    | .acked p => { w with cursor := p.nextCursor, phase := .saved p }
    | _ => w
  | .unlink =>
    match w.phase with
    | .saved _ => { w with pending := none, phase := .idle }
    | _ => w
  | .stop => { w with phase := .idle }
  | .other call =>
    match ingest lib w.db call with
    | .error _ => w
    | .ok (db, _) => { w with db := db }

/-- Before the first run of the collector. -/
def World.start (journal : List Members) : World := ⟨journal, none, none, .idle, [], Db.init⟩

/-- The id of an entry as the server has it. -/
def entryId (ms : Members) : List Char := ((asText (member ms "__CURSOR")).map text).getD []

/-- The ids of the journal. -/
def World.ids (w : World) : List (List Char) := w.journal.map entryId

/-- The ids the server has receipts for. -/
def World.ingested (w : World) : List (List Char) := ingestedIds w.db (text source.id)

/-- What an export of a journal that holds the cursor has: a stretch of it that begins behind the
cursor, and a checkpoint that reports no reset. -/
structure Exported (journal : List Members) (cursor : Option Str) (objects : List Members) : Prop where
  segment : ∃ before after, journal.map entryId = before ++ objects.dropLast.map entryId ++ after ∧
    ∀ c, cursor = some c → before.getLast? = some (text c)
  held : ∀ last checkpoint, objects.getLast? = some last →
    parseCheckpoint cursor last = some checkpoint → checkpoint.status ≠ .reset

/-- The world around the collector: ids of the journal are distinct, an export is one of it, and no
one else sends under the id of the source. -/
def Admissible (w : World) : Step → Prop
  | .append entries => (w.ids ++ entries.map entryId).Nodup
  | .spool _ _ (.ok data) => ∀ objects, exportObjects limit data = .ok objects →
      Exported w.journal w.cursor objects
  | .other call => call.sourceId ≠ text source.id
  | _ => True

end

/-! ### What the server makes of a batch -/

/-- The ids of a batch as the server has them. -/
def Body.ids (b : Body) : List (List Char) := b.records.map fun r => text r.eventId

variable {p : Pending} {w : World}

section

variable {lib : Library} {cal : Calendar} {limit : Nat} {source : SourceConfig}
  {hostname : List Char} {now : ℚ}

theorem strField_eq_some {least most : Nat} {s v : List Char}
    (h : strField least most (some (.str s)) = some v) : v = s := by
  unfold strField at h
  dsimp only at h
  split at h
  · exact (Option.some.inj h).symm
  · cases h

/-- A record keeps its id on its way through the API and `_normalize`. -/
theorem eventId_of_sent {r : Record} {j : Json} {n : Normalized}
    (hapi : telemetryRecord lib cal now (.obj r.sent) = some j)
    (hstore : normalizeRecord lib now j = .ok n) : n.raw.eventId = text r.eventId := by
  have hstep : telemetryRecord lib cal now (.obj r.sent) = (do
      let eventId ← strField 1 512 (some (.str (text r.eventId)))
      let timestamp ← strField 1 64 (some (.str (text r.timestamp)))
      let timestamp ← validTime lib cal now timestamp
      let message ← strField 0 16384 (some (.str (text r.message)))
      let unit ← optionalField 0 256 (some (orNull (r.unit.map text)))
      let priority ← priorityField (some (priorityJson (r.priority.map PriorityField.sent)))
      let identifier ← optionalField 0 256 (some (orNull (r.identifier.map text)))
      some (.obj (recordMembers eventId timestamp message unit priority identifier))) := rfl
  rw [hstep] at hapi
  simp only [Option.bind_eq_bind, Option.bind_eq_some_iff, Option.some.injEq] at hapi
  obtain ⟨eventId, hid, timestamp₀, -, timestamp, -, message, -, unit, -, priority, -, identifier, -,
    rfl⟩ := hapi
  have hstore' : normalizeRecord lib now
      (.obj (recordMembers eventId timestamp message unit priority identifier)) = (do
      let eventId ← boundedText (.str eventId) "event_id" 2048 false
      let timestamp ← boundedText (.str timestamp) "timestamp" 80 false
      let instant ← checkInstant lib now timestamp
      let message ← boundedText (.str message) "message" 65536 true
      let unit ← boundedText (orEmpty (orNull unit)) "unit" 256 true
      let identifier ← boundedText (orEmpty (orNull identifier)) "identifier" 256 true
      let priority ← checkPriority (priorityJson priority)
      .ok (Raw.classified lib ⟨eventId, instant, message, unit, priority, identifier⟩)) := rfl
  rw [hstore'] at hstore
  simp only [bind_eq_ok, boundedText_eq_ok] at hstore
  obtain ⟨_, ⟨-, rfl⟩, _, -, _, -, _, -, _, -, _, -, _, -, heq⟩ := hstore
  rw [← Except.ok.inj heq, ← strField_eq_some hid]
  rfl

theorem listField_records {ms : List (List Char × Json)} {batch : TelemetryBatch}
    (h : telemetryBatch lib cal now (.obj ms) = some batch) :
    listField 500 (telemetryRecord lib cal now) (Json.get? ms "records".toList) =
      some batch.records := by
  unfold telemetryBatch at h
  simp only [Option.bind_eq_bind, Option.bind_eq_some_iff] at h
  obtain ⟨_, -, _, -, _, -, _, -, collectedAt, -, h⟩ := h
  cases collectedAt <;>
    simp only [Option.bind_eq_some_iff] at h <;>
    obtain ⟨_, -, records, hrecords, h⟩ := h <;>
    cases hreports : Json.get? ms "reports".toList <;>
    rw [hreports] at h <;>
    simp only [Option.bind_eq_some_iff, Option.some.injEq] at h <;>
    obtain ⟨_, -, _, -, rfl⟩ := h <;>
    exact hrecords

theorem records_telemetryBatch {b : Body} {batch : TelemetryBatch}
    (h : telemetryBatch lib cal now (toJson b.toValue) = some batch) :
    (b.records.map fun r => Json.obj r.sent).mapM (telemetryRecord lib cal now) =
      some batch.records := by
  rw [toJson_body] at h
  have hrecords : listField 500 (telemetryRecord lib cal now)
      (some (.arr (b.records.map fun r : Record => .obj r.sent))) = some batch.records :=
    listField_records h
  unfold listField at hrecords
  dsimp only at hrecords
  split at hrecords
  · exact hrecords
  · cases hrecords

theorem ids_of_sent {rs : List Record} {js : List Json} {ns : List Normalized}
    (hapi : (rs.map fun r => Json.obj r.sent).mapM (telemetryRecord lib cal now) = some js)
    (hstore : js.mapM (normalizeRecord lib now) = .ok ns) :
    (ns.map fun n => n.raw.eventId) = rs.map fun r => text r.eventId := by
  induction rs generalizing js ns with
  | nil =>
    obtain rfl := Option.some.inj hapi
    obtain rfl := Except.ok.inj hstore
    rfl
  | cons r rs ih =>
    simp only [List.map_cons, List.mapM_cons, Option.bind_eq_bind, Option.bind_eq_some_iff,
      Option.pure_def, Option.some.injEq] at hapi
    obtain ⟨j, hj, js, hjs, rfl⟩ := hapi
    simp only [List.mapM_cons, bind_eq_ok] at hstore
    obtain ⟨n, hn, ns, hns, heq⟩ := hstore
    obtain rfl := Except.ok.inj heq
    rw [List.map_cons, List.map_cons, eventId_of_sent hj hn, ih hjs hns]

/-- **The ids an accepted batch adds.** -/
theorem ingestedIds_handle {uuid : Nat → List Char} {db db' : Db} {body : Body}
    (h : handle lib cal source hostname now uuid db body = some db') (hkept : BatchesKept db) :
    BatchesKept db' ∧ ∀ sourceId, ingestedIds db' sourceId = ingestedIds db sourceId ++
      if sourceId = text source.id then newIds (ingestedIds db sourceId) body.ids else [] := by
  unfold handle at h
  split at h
  · cases h
  · rename_i batch hbatch
    split at h
    · cases h
    · split at h
      · cases h
      · rename_i db₁ r hingest
        obtain rfl := Option.some.inj h
        obtain ⟨hkept', k, hk, hids⟩ := ingestedIds_ingest hingest hkept
        refine ⟨hkept', fun sourceId => ?_⟩
        rw [hids, ids_of_sent (records_telemetryBatch hbatch) (checkCall_eq_ok.mp hk).2.2.2.2.2]
        rfl

/-! ### What a spooled batch holds -/

theorem entryId_of_parsed {ms : Members} {r : Record} (h : Parsed cal ms r) :
    entryId ms = text r.eventId := by
  rw [entryId, h.eventId.1]
  rfl

theorem ids_of_parsed {objects : List Members} {rs : List Record}
    (h : List.Forall₂ (Parsed cal) objects rs) :
    (rs.map fun r => text r.eventId) = objects.map entryId := by
  induction h with
  | nil => rfl
  | cons hone _ ih => rw [List.map_cons, List.map_cons, entryId_of_parsed hone, ih]

/-- A page of the journal: it begins behind the cursor, and the next cursor is its last id. -/
structure Page (ids : List (List Char)) (cursor : Option Str) (p : Pending) : Prop where
  segment : p.body.ids ≠ [] → ∃ before after, ids = before ++ p.body.ids ++ after ∧
    ∀ c, cursor = some c → before.getLast? = some (text c)
  last : p.body.ids ≠ [] → p.nextCursor.map text = p.body.ids.getLast?
  empty : p.body.ids = [] → p.nextCursor = cursor

/-- A batch without records leaves the cursor where it is. -/
theorem page_of_failed {ids : List (List Char)} {cursor : Option Str} {body : Body}
    {code : Option String} (hrecords : body.records = []) (h : limitBatch body cursor code = .ok p)
    :
    Page ids cursor p := by
  obtain ⟨k, more, hbody, hmore, -⟩ := limitBatch_eq_ok h
  have hids : p.body.ids = [] := by
    rw [Body.ids, hbody, hrecords, List.take_nil]
    rfl
  rcases hmore with ⟨-, -, hcursor⟩ | ⟨-, hcursor, hsome⟩
  · exact ⟨fun hne => absurd hids hne, fun hne => absurd hids hne, fun _ => hcursor⟩
  · rw [hrecords, List.take_nil] at hcursor
    exact absurd hcursor hsome

theorem page_of_buildPending {batchId collectedAt : Str} {fetched : Except String (List UInt8)}
    (h : buildPending cal limit source batchId collectedAt w.cursor fetched = .ok p)
    (hexport : Admissible limit source w (.spool batchId collectedAt fetched)) :
    Page w.ids w.cursor p := by
  unfold buildPending at h
  dsimp only at h
  split at h
  · exact page_of_failed rfl h
  · rename_i data
    split at h
    · exact page_of_failed rfl h
    · cases h
    · rename_i e hparse
      unfold parseExport at hparse
      split at hparse
      · cases hparse
      · rename_i objects hobjects
        split at hparse
        · cases hparse
        · rename_i e' hcheck
          obtain rfl := Except.ok.inj hparse
          have haccepted := accepted_of_checkExport hcheck
          have hexported := hexport objects hobjects
          obtain ⟨truncated, hrecords, -⟩ := haccepted.records
          obtain ⟨last, status, hlast, hcheckpoint, hnonempty, hempty⟩ := haccepted.checkpoint
          have hids := ids_of_parsed (parsed_parseRecords hrecords).1
          obtain ⟨before, after, hsegment, hbefore⟩ := hexported.segment
          obtain ⟨k, more, hbody, hmore, -⟩ := limitBatch_eq_ok h
          have hpage : p.body.ids = (objects.dropLast.map entryId).take k := by
            rw [Body.ids, hbody, ← hids, List.map_take]
          refine ⟨fun _ => ⟨before, (objects.dropLast.map entryId).drop k ++ after, ?_, hbefore⟩,
            fun hne => ?_, fun heq => ?_⟩
          · rw [hpage, World.ids, hsegment, List.append_assoc, List.append_assoc, ← List.append_assoc
              (List.take k _), List.take_append_drop]
          · rcases hmore with ⟨-, hwhole, hcursor⟩ | ⟨-, hcursor, -⟩
            · have hrecords' : e'.records ≠ [] := by
                intro hnil
                rw [Body.ids, hbody, hnil, List.take_nil] at hne
                exact hne rfl
              rw [hcursor, hnonempty hrecords', Body.ids, hbody, List.take_of_length_le hwhole,
                List.getLast?_map, Option.map_map]
              rfl
            · rw [hcursor, Body.ids, hbody, List.getLast?_map, Option.map_map]
              rfl
          · have htake : e'.records.take k = [] := by
              rw [Body.ids, hbody] at heq
              exact List.map_eq_nil_iff.mp heq
            rcases hmore with ⟨-, hwhole, hcursor⟩ | ⟨-, hcursor, hsome⟩
            · rw [List.take_of_length_le hwhole] at htake
              rw [hcursor]
              exact hempty htake (hexported.held last _ hlast hcheckpoint)
            · rw [htake] at hcursor
              exact absurd hcursor hsome

end

/-! ### Journal, receipts and files in step -/

/-- A pending page that begins where the receipts end. -/
structure Fresh (ids ingested : List (List Char)) (cursor : Option Str) (p : Pending) : Prop where
  atEnd : ingested.getLast? = cursor.map text
  segment : ∃ before after, ids = before ++ (ingested ++ p.body.ids) ++ after
  last : p.body.ids ≠ [] → p.nextCursor.map text = p.body.ids.getLast?
  empty : p.body.ids = [] → p.nextCursor = cursor

/-- A pending page the receipts end with. -/
structure Done (ingested : List (List Char)) (p : Pending) : Prop where
  nonempty : p.body.ids ≠ []
  suffix : ∃ old, ingested = old ++ p.body.ids
  last : p.nextCursor.map text = p.body.ids.getLast?

/-- Every record of the page has a receipt. -/
def Landed (ingested : List (List Char)) (b : Body) : Prop := ∀ x ∈ b.ids, x ∈ ingested

/-- What a running process may take for granted. -/
def InStep (ingested : List (List Char)) (cursor : Option Str) (pending : Option Pending) :
    Phase → Prop
  | .idle => True
  | .waiting p => pending = some p
  | .acked p => pending = some p ∧ Landed ingested p.body
  | .saved p => pending = some p ∧ Landed ingested p.body ∧ cursor = p.nextCursor

/-- The receipts are a stretch of the journal, and the files agree with it. -/
structure Sync (ids ingested : List (List Char)) (cursor : Option Str) (pending : Option Pending)
    (requests : List Body) (phase : Phase) : Prop where
  nodup : ids.Nodup
  segment : ∃ before after, ids = before ++ ingested ++ after
  saved : ∀ c, cursor = some c → text c ∈ ingested
  atRest : pending = none → ingested.getLast? = cursor.map text
  page : ∀ p, pending = some p → Fresh ids ingested cursor p ∨ Done ingested p
  sent : ∀ b ∈ requests, (∃ p, pending = some p ∧ p.body = b) ∨ Landed ingested b
  inStep : InStep ingested cursor pending phase

section

variable {ids ingested : List (List Char)} {cursor : Option Str} {pending : Option Pending}
  {requests : List Body} {phase : Phase}

theorem Fresh.not_landed (hnodup : ids.Nodup) (h : Fresh ids ingested cursor p) :
    (∀ x ∈ p.body.ids, x ∉ ingested) ∧ p.body.ids.Nodup := by
  obtain ⟨before, after, hsegment⟩ := h.segment
  rw [hsegment] at hnodup
  have hboth := (List.nodup_append.mp (List.nodup_append.mp hnodup).1).2.1
  obtain ⟨-, hpage, hdisjoint⟩ := List.nodup_append.mp hboth
  exact ⟨fun x hx hin => hdisjoint x hin x hx rfl, hpage⟩

theorem Sync.append (h : Sync ids ingested cursor pending requests phase) {new : List (List Char)}
    (hnodup : (ids ++ new).Nodup) : Sync (ids ++ new) ingested cursor pending requests phase where
  nodup := hnodup
  segment := by
    obtain ⟨before, after, hsegment⟩ := h.segment
    exact ⟨before, after ++ new, by rw [hsegment, List.append_assoc]⟩
  saved := h.saved
  atRest := h.atRest
  page := by
    intro p hp
    refine (h.page p hp).imp_left fun hfresh => ?_
    obtain ⟨before, after, hsegment⟩ := hfresh.segment
    exact ⟨hfresh.atEnd, ⟨before, after ++ new, by rw [hsegment, List.append_assoc]⟩, hfresh.last,
      hfresh.empty⟩
  sent := h.sent
  inStep := h.inStep

/-- A page behind the cursor begins where the receipts end. -/
theorem Sync.spool (h : Sync ids ingested cursor none requests .idle) (hpage : Page ids cursor p) :
    Sync ids ingested cursor (some p) requests .idle where
  nodup := h.nodup
  segment := h.segment
  saved := h.saved
  atRest := fun hnone => by cases hnone
  page := by
    intro p' hp'
    obtain rfl := Option.some.inj hp'
    refine .inl ⟨h.atRest rfl, ?_, hpage.last, hpage.empty⟩
    obtain ⟨before, after, hsegment⟩ := h.segment
    by_cases hne : p.body.ids = []
    · exact ⟨before, after, by rw [hne, List.append_nil, hsegment]⟩
    · obtain ⟨before', after', hsegment', hbefore⟩ := hpage.segment hne
      cases hcursor : cursor with
      | none =>
        have hnone : ingested = [] := by
          rw [← List.getLast?_eq_none_iff, h.atRest rfl, hcursor]
          rfl
        exact ⟨before', after', by rw [hnone, List.nil_append, hsegment']⟩
      | some c =>
        -- both stretches are split at the cursor
        have hlast := h.atRest rfl
        rw [hcursor] at hlast
        obtain ⟨old, hold⟩ := List.getLast?_eq_some_iff.mp hlast
        obtain ⟨front, hfront⟩ := List.getLast?_eq_some_iff.mp (hbefore c hcursor)
        have hsplit : ids = (before ++ old) ++ text c :: after := by
          rw [hsegment, hold]
          simp only [List.append_assoc, List.singleton_append]
        have hsplit' : ids = front ++ text c :: (p.body.ids ++ after') := by
          rw [hsegment', hfront]
          simp only [List.append_assoc, List.cons_append, List.nil_append]
        have hnodup := h.nodup
        rw [hsplit, List.nodup_middle, List.nodup_cons, List.mem_append, not_or] at hnodup
        obtain ⟨-, -, hafter⟩ := (List.append_cons_inj_of_notMem hnodup.1.1 hnodup.1.2).mp
          (hsplit.symm.trans hsplit')
        refine ⟨before, after', ?_⟩
        rw [hsegment, hafter]
        simp only [List.append_assoc]
  sent := fun b hb => by
    rcases h.sent b hb with ⟨p', hp', -⟩ | hlanded
    · cases hp'
    · exact .inr hlanded
  inStep := trivial

theorem Sync.send (h : Sync ids ingested cursor (some p) requests .idle) :
    Sync ids ingested cursor (some p) (p.body :: requests) (.waiting p) where
  nodup := h.nodup
  segment := h.segment
  saved := h.saved
  atRest := h.atRest
  page := h.page
  sent := by
    intro b hb
    rcases List.mem_cons.mp hb with rfl | hb
    · exact .inl ⟨p, rfl, rfl⟩
    · exact h.sent b hb
  inStep := rfl

theorem InStep.mono {ingested' : List (List Char)} (hsub : ∀ x ∈ ingested, x ∈ ingested')
    (h : InStep ingested cursor pending phase) : InStep ingested' cursor pending phase := by
  cases phase with
  | idle => exact h
  | waiting p => exact h
  | acked p => exact ⟨h.1, fun x hx => hsub x (h.2 x hx)⟩
  | saved p => exact ⟨h.1, fun x hx => hsub x (h.2.1 x hx), h.2.2⟩

/-- A request adds the records of the pending page, or nothing. -/
theorem Sync.deliver (h : Sync ids ingested cursor pending requests phase) {b : Body}
    (hb : b ∈ requests) :
    Sync ids (ingested ++ newIds ingested b.ids) cursor pending requests phase := by
  have hknown : Landed ingested b →
      Sync ids (ingested ++ newIds ingested b.ids) cursor pending requests phase := by
    intro hlanded
    rw [newIds_known hlanded, List.append_nil]
    exact h
  rcases h.sent b hb with ⟨p, hp, rfl⟩ | hlanded
  · rcases h.page p hp with hfresh | hdone
    · by_cases hne : p.body.ids = []
      · exact hknown fun x hx => by rw [hne] at hx; cases hx
      · obtain ⟨hnew, hpage⟩ := hfresh.not_landed h.nodup
        rw [newIds_fresh hnew hpage]
        have hsub : ∀ x ∈ ingested, x ∈ ingested ++ p.body.ids :=
          fun x hx => List.mem_append_left _ hx
        refine ⟨h.nodup, hfresh.segment, fun c hc => hsub _ (h.saved c hc), fun hnone => ?_,
          fun p' hp' => ?_, fun b hb => ?_, h.inStep.mono hsub⟩
        · rw [hp] at hnone
          cases hnone
        · obtain rfl := Option.some.inj (hp.symm.trans hp')
          exact .inr ⟨hne, ⟨ingested, rfl⟩, hfresh.last hne⟩
        · exact (h.sent b hb).imp_right fun hlanded x hx => hsub x (hlanded x hx)
    · obtain ⟨old, hold⟩ := hdone.suffix
      exact hknown fun x hx => by rw [hold]; exact List.mem_append_right _ hx
  · exact hknown hlanded

theorem Sync.ack (h : Sync ids ingested cursor pending requests (.waiting p))
    (hlanded : Landed ingested p.body) : Sync ids ingested cursor pending requests (.acked p) :=
  ⟨h.nodup, h.segment, h.saved, h.atRest, h.page, h.sent, h.inStep, hlanded⟩

/-- A page that has landed is the end of the receipts, or empty. -/
theorem Sync.landed (h : Sync ids ingested cursor (some p) requests phase)
    (hlanded : Landed ingested p.body) :
    Done ingested p ∨ (p.nextCursor = cursor ∧ ingested.getLast? = cursor.map text) := by
  rcases h.page p rfl with hfresh | hdone
  · refine .inr ⟨hfresh.empty ?_, hfresh.atEnd⟩
    cases hids : p.body.ids with
    | nil => rfl
    | cons x xs =>
      have hx : x ∈ p.body.ids := by
        rw [hids]
        exact List.mem_cons_self
      exact absurd (hlanded x hx) ((hfresh.not_landed h.nodup).1 x hx)
  · exact .inl hdone

theorem Done.getLast (h : Done ingested p) : ingested.getLast? = p.nextCursor.map text := by
  obtain ⟨old, hold⟩ := h.suffix
  rw [h.last, hold, List.getLast?_append_of_ne_nil _ h.nonempty]

theorem Sync.saveCursor (h : Sync ids ingested cursor pending requests (.acked p)) :
    Sync ids ingested p.nextCursor pending requests (.saved p) := by
  obtain ⟨rfl, hlanded⟩ := h.inStep
  rcases h.landed hlanded with hdone | ⟨hcursor, -⟩
  · refine ⟨h.nodup, h.segment, fun c hc => ?_, fun hnone => (by cases hnone), fun p' hp' => ?_,
      h.sent, rfl, hlanded, rfl⟩
    · have hlast := hdone.getLast
      rw [hc] at hlast
      exact List.mem_of_getLast? hlast
    · obtain rfl := Option.some.inj hp'
      exact .inr hdone
  · rw [hcursor]
    exact ⟨h.nodup, h.segment, h.saved, h.atRest, h.page, h.sent, rfl, hlanded, hcursor.symm⟩

theorem Sync.unlink (h : Sync ids ingested cursor pending requests (.saved p)) :
    Sync ids ingested cursor none requests .idle := by
  obtain ⟨rfl, hlanded, hcursor⟩ := h.inStep
  refine ⟨h.nodup, h.segment, h.saved, fun _ => ?_, fun p' hp' => (by cases hp'), fun b hb => ?_,
    trivial⟩
  · rcases h.landed hlanded with hdone | ⟨-, hlast⟩
    · rw [hdone.getLast, hcursor]
    · exact hlast
  · rcases h.sent b hb with ⟨p', hp', rfl⟩ | hb
    · obtain rfl := Option.some.inj hp'
      exact .inr hlanded
    · exact .inr hb

theorem Sync.stop (h : Sync ids ingested cursor pending requests phase) :
    Sync ids ingested cursor pending requests .idle :=
  ⟨h.nodup, h.segment, h.saved, h.atRest, h.page, h.sent, trivial⟩

end

/-! ### What one step does -/

/-- What the invariants are about. -/
structure Position where
  ids : List (List Char)
  ingested : List (List Char)
  cursor : Option Str
  pending : Option Pending
  requests : List Body
  phase : Phase

def World.position (source : SourceConfig) (w : World) : Position :=
  ⟨w.ids, w.ingested source, w.cursor, w.pending, w.requests, w.phase⟩

/-- What a step can do. -/
inductive Moves : Position → Position → Prop
  | stay (v : Position) : Moves v v
  | append (v : Position) (new : List (List Char)) (hnodup : (v.ids ++ new).Nodup) :
    Moves v { v with ids := v.ids ++ new }
  | spool (v : Position) (p : Pending) (hphase : v.phase = .idle) (hpending : v.pending = none)
    (hpage : Page v.ids v.cursor p) : Moves v { v with pending := some p }
  | send (v : Position) (p : Pending) (hphase : v.phase = .idle) (hpending : v.pending = some p) :
    Moves v { v with requests := p.body :: v.requests, phase := .waiting p }
  | deliver (v : Position) (b : Body) (hb : b ∈ v.requests) :
    Moves v { v with ingested := v.ingested ++ newIds v.ingested b.ids }
  | ack (v : Position) (p : Pending) (hb : p.body ∈ v.requests) (hphase : v.phase = .waiting p) :
    Moves v { v with ingested := v.ingested ++ newIds v.ingested p.body.ids, phase := .acked p }
  | saveCursor (v : Position) (p : Pending) (hphase : v.phase = .acked p) :
    Moves v { v with cursor := p.nextCursor, phase := .saved p }
  | unlink (v : Position) (p : Pending) (hphase : v.phase = .saved p) :
    Moves v { v with pending := none, phase := .idle }
  | stop (v : Position) : Moves v { v with phase := .idle }

variable {v' : Position}

/-- Receipts are only added, behind those of before. -/
theorem Moves.ingested {v : Position} (h : Moves v v') : v.ingested <+: v'.ingested := by
  cases h with
  | deliver b hb => exact List.prefix_append _ _
  | ack p hb hphase => exact List.prefix_append _ _
  | _ => exact List.prefix_refl _

/-- The journal only grows. -/
theorem Moves.ids {v : Position} (h : Moves v v') : v.ids <+: v'.ids := by
  cases h with
  | append new hnodup => exact List.prefix_append _ _
  | _ => exact List.prefix_refl _

/-! ### Runs -/

section

variable {lib : Library} {cal : Calendar} {limit : Nat} {source : SourceConfig}
  {hostname : List Char}

/-- The world between two steps. -/
structure Sound (source : SourceConfig) (w : World) : Prop where
  kept : BatchesKept w.db
  sync : Sync w.ids (w.ingested source) w.cursor w.pending w.requests w.phase

theorem sound_start {journal : List Members} (h : (journal.map entryId).Nodup) :
    Sound source (World.start journal) where
  kept := fun _ hb => absurd hb (Table.not_mem_empty _)
  sync := ⟨h, ⟨journal.map entryId, [], by simp [World.ids, World.start, World.ingested, ingestedIds,
    Db.init, Table.empty]⟩, fun _ hc => (by cases hc), fun _ => rfl, fun _ hp => (by cases hp),
    fun _ hb => (by cases hb), trivial⟩

theorem World.position_append (w : World) (entries : List Members) :
    { w with journal := w.journal ++ entries }.position source =
      { w.position source with ids := w.ids ++ entries.map entryId } := by
  rw [World.position, World.ids, List.map_append]
  rfl

theorem World.position_received {db : Db} {new : List (List Char)}
    (h : ingestedIds db (text source.id) = w.ingested source ++ new) (phase : Phase) :
    { w with db := db, phase := phase }.position source =
      { w.position source with ingested := w.ingested source ++ new, phase := phase } := by
  rw [World.position, World.ingested, h]
  rfl

variable {a : Step}

/-- **What one step does** to the journal, the receipts and the files. -/
theorem moves_next (hkept : BatchesKept w.db) (ha : Admissible limit source w a) :
    BatchesKept (next lib cal limit source hostname w a).db ∧
      Moves (w.position source) ((next lib cal limit source hostname w a).position source) := by
  cases a with
  | append entries =>
    refine ⟨hkept, ?_⟩
    rw [JournalCollector.next, World.position_append]
    exact .append _ _ ha
  | spool batchId collectedAt fetched =>
    unfold JournalCollector.next
    dsimp only
    split
    · rename_i hphase hpending
      split
      · exact ⟨hkept, .stay _⟩
      · rename_i p hbuilt
        exact ⟨hkept, .spool _ p hphase hpending (page_of_buildPending hbuilt ha)⟩
    · exact ⟨hkept, .stay _⟩
  | send =>
    unfold JournalCollector.next
    dsimp only
    split
    · rename_i p hphase hpending
      split
      · exact ⟨hkept, .send _ p hphase hpending⟩
      · exact ⟨hkept, .stay _⟩
    · exact ⟨hkept, .stay _⟩
  | deliver body now uuid answered =>
    unfold JournalCollector.next
    dsimp only
    split
    · rename_i hsent
      split
      · exact ⟨hkept, .stay _⟩
      · rename_i db hhandle
        obtain ⟨hkept', hids⟩ := ingestedIds_handle hhandle hkept
        have hown := hids (text source.id)
        rw [if_pos rfl] at hown
        refine ⟨hkept', ?_⟩
        rw [World.position_received hown]
        have hdeliver := Moves.deliver (w.position source) body hsent
        cases hphase : w.phase with
        | waiting p =>
          rw [World.position, hphase] at hdeliver
          dsimp only
          split
          · rename_i hanswered
            rw [Bool.and_eq_true, decide_eq_true_eq] at hanswered
            obtain rfl := hanswered.2
            exact .ack (w.position source) p hsent hphase
          · rwa [World.position, hphase]
        | idle | acked p | saved p =>
          rw [World.position, hphase] at hdeliver
          rwa [World.position, hphase]
    · exact ⟨hkept, .stay _⟩
  | saveCursor =>
    unfold JournalCollector.next
    dsimp only
    split
    · rename_i p hphase
      exact ⟨hkept, .saveCursor _ p hphase⟩
    · exact ⟨hkept, .stay _⟩
  | unlink =>
    unfold JournalCollector.next
    dsimp only
    split
    · rename_i p hphase
      exact ⟨hkept, .unlink _ p hphase⟩
    · exact ⟨hkept, .stay _⟩
  | stop => exact ⟨hkept, .stop _⟩
  | other call =>
    unfold JournalCollector.next
    dsimp only
    split
    · exact ⟨hkept, .stay _⟩
    · rename_i db r hingest
      obtain ⟨hkept', k, -, hids⟩ := ingestedIds_ingest hingest hkept
      have hown := hids (text source.id)
      rw [if_neg (fun heq => ha heq.symm)] at hown
      refine ⟨hkept', ?_⟩
      rw [World.position_received hown, List.append_nil]
      exact .stay _

theorem Sync.moves {v : Position} (hmove : Moves v v')
    (h : Sync v.ids v.ingested v.cursor v.pending v.requests v.phase) :
    Sync v'.ids v'.ingested v'.cursor v'.pending v'.requests v'.phase := by
  cases hmove with
  | stay => exact h
  | append new hnodup => exact h.append hnodup
  | spool p hphase hpending hpage =>
    rw [hphase, hpending] at h
    dsimp only
    rw [hphase]
    exact h.spool hpage
  | send p hphase hpending =>
    rw [hphase, hpending] at h
    dsimp only
    rw [hpending]
    exact h.send
  | deliver b hb => exact h.deliver hb
  | ack p hb hphase =>
    rw [hphase] at h
    exact (h.deliver hb).ack fun x hx => mem_newIds hx
  | saveCursor p hphase =>
    rw [hphase] at h
    exact h.saveCursor
  | unlink p hphase =>
    rw [hphase] at h
    exact h.unlink
  | stop => exact h.stop

/-- **One step keeps journal, receipts and files in step.** -/
theorem Sound.next (h : Sound source w) (ha : Admissible limit source w a) :
    Sound source (next lib cal limit source hostname w a) :=
  have hstep := moves_next h.kept ha
  ⟨hstep.1, Sync.moves hstep.2 h.sync⟩

/-- Receipts are only added, behind those of before. -/
theorem ingested_next (h : Sound source w) (ha : Admissible limit source w a) :
    w.ingested source <+: (next lib cal limit source hostname w a).ingested source :=
  (moves_next h.kept ha).2.ingested

theorem ingested_run (h : Sound source w) {steps : List Step}
    (hsteps : StepsSatisfy (next lib cal limit source hostname) (Admissible limit source) w steps) :
    w.ingested source <+: (run (next lib cal limit source hostname) w steps).ingested source := by
  induction steps generalizing w with
  | nil => exact List.prefix_refl _
  | cons a steps ih =>
    exact (ingested_next h hsteps.1).trans (ih (h.next hsteps.1) hsteps.2)

/-- Only saving an acknowledged cursor changes the cursor. -/
theorem cursor_next (h : (next lib cal limit source hostname w a).cursor ≠ w.cursor) :
    a = .saveCursor ∧ ∃ p, w.phase = .acked p := by
  cases a with
  | saveCursor =>
    unfold JournalCollector.next at h
    dsimp only at h
    split at h
    · rename_i p hphase
      exact ⟨rfl, p, hphase⟩
    · exact absurd rfl h
  | append entries => exact absurd rfl h
  | stop => exact absurd rfl h
  | spool batchId collectedAt fetched =>
    unfold JournalCollector.next at h
    dsimp only at h
    split at h
    · split at h <;> exact absurd rfl h
    · exact absurd rfl h
  | send =>
    unfold JournalCollector.next at h
    dsimp only at h
    split at h
    · split at h <;> exact absurd rfl h
    · exact absurd rfl h
  | unlink =>
    unfold JournalCollector.next at h
    dsimp only at h
    split at h <;> exact absurd rfl h
  | deliver body now uuid answered =>
    unfold JournalCollector.next at h
    dsimp only at h
    split at h
    · split at h <;> exact absurd rfl h
    · exact absurd rfl h
  | other call =>
    unfold JournalCollector.next at h
    dsimp only at h
    split at h <;> exact absurd rfl h

/-- One attempt that nothing interrupts. -/
def attempt (p : Pending) (now : ℚ) (uuid : Nat → List Char) : List Step :=
  [.stop, .send, .deliver p.body now uuid true, .saveCursor, .unlink]

/-- **An attempt the server accepts** finishes the pending page. -/
theorem attempt_finishes (hkept : BatchesKept w.db) {now : ℚ} {uuid : Nat → List Char} {db : Db}
    (hpending : w.pending = some p) (hvalid : validSpool source p = true)
    (hhandle : handle lib cal source hostname now uuid w.db p.body = some db) :
    (run (next lib cal limit source hostname) w (attempt p now uuid)).pending = none ∧
      (run (next lib cal limit source hostname) w (attempt p now uuid)).cursor = p.nextCursor ∧
      Landed ((run (next lib cal limit source hostname) w (attempt p now uuid)).ingested source)
        p.body := by
  have hrun : run (next lib cal limit source hostname) w (attempt p now uuid) =
      { w with
        pending := none, phase := .idle, requests := p.body :: w.requests, db := db
        cursor := p.nextCursor } := by
    simp [attempt, run, JournalCollector.next, hpending, hvalid, hhandle]
  rw [hrun]
  refine ⟨rfl, rfl, fun x hx => ?_⟩
  have hids := (ingestedIds_handle hhandle hkept).2 (text source.id)
  rw [if_pos rfl] at hids
  rw [World.ingested]
  dsimp only
  rw [hids]
  exact mem_newIds hx

/-- **The SSH collector loses and duplicates nothing.** In every run the records the server has
accepted are a stretch of the journal, in its order and each once; the saved cursor is one of them,
and the last unless a page is pending; the cursor moves only when a page is saved whose records have
all been accepted; nothing accepted is lost; and a pending page is finished by one attempt that the
server accepts. -/
theorem journal_delivered_once {journal : List Members} (hjournal : (journal.map entryId).Nodup)
    (steps : List Step)
    (hsteps : StepsSatisfy (next lib cal limit source hostname) (Admissible limit source)
      (World.start journal) steps) :
    let w := run (next lib cal limit source hostname) (World.start journal) steps
    (∃ before after, w.ids = before ++ w.ingested source ++ after) ∧
    (w.ingested source).Nodup ∧
    (∀ c, w.cursor = some c → text c ∈ w.ingested source) ∧
    (w.pending = none → (w.ingested source).getLast? = w.cursor.map text) ∧
    (∀ a, (next lib cal limit source hostname w a).cursor ≠ w.cursor →
      a = .saveCursor ∧ ∃ p, w.phase = .acked p ∧ Landed (w.ingested source) p.body) ∧
    (∀ more, StepsSatisfy (next lib cal limit source hostname) (Admissible limit source) w more →
      w.ingested source <+: (run (next lib cal limit source hostname) w more).ingested source) ∧
    ∀ p now uuid db, w.pending = some p → validSpool source p = true →
      handle lib cal source hostname now uuid w.db p.body = some db →
      (run (next lib cal limit source hostname) w (attempt p now uuid)).pending = none ∧
        (run (next lib cal limit source hostname) w (attempt p now uuid)).cursor = p.nextCursor ∧
        Landed ((run (next lib cal limit source hostname) w (attempt p now uuid)).ingested source)
          p.body := by
  intro w
  have hsound : Sound source w := run_invariant_of_steps (P := Sound source)
    (fun w a ha hw => hw.next ha) hsteps (sound_start hjournal)
  obtain ⟨before, after, hsegment⟩ := hsound.sync.segment
  refine ⟨⟨before, after, hsegment⟩, ?_, hsound.sync.saved, hsound.sync.atRest, fun a ha => ?_,
    fun more hmore => ingested_run hsound hmore,
    fun p now uuid db hp hvalid hhandle => attempt_finishes hsound.kept hp hvalid hhandle⟩
  · have hnodup := hsound.sync.nodup
    rw [hsegment] at hnodup
    exact (List.nodup_append.mp (List.nodup_append.mp hnodup).1).2.1
  · obtain ⟨rfl, p, hphase⟩ := cursor_next ha
    have hstep := hsound.sync.inStep
    rw [hphase] at hstep
    exact ⟨rfl, p, hphase, hstep.2⟩

end

/-! ### One entry on its way -/

/-- The request is lost; then the batch is committed and the answer lost; then it is acknowledged,
and the process stops before the pending file is removed. -/
def interruptedAttempts (p : Pending) : List Step :=
  [.send, .stop, .send, .deliver p.body 1767225600 (Nat.toDigits 10) false, .stop, .send,
    .deliver p.body 1767225601 (Nat.toDigits 10) true, .saveCursor, .stop]

/-- Attempts ask nothing of the world around the collector. -/
theorem stepsSatisfy_attempts (ps : List Pending) (w : World) :
    StepsSatisfy (next oneTime oneTimeCalendar 100 edge "edge".toList) (Admissible 100 edge) w
      (ps.flatMap interruptedAttempts) := by
  have hall : ∀ a ∈ ps.flatMap interruptedAttempts, ∀ w, Admissible 100 edge w a := by
    intro a ha w
    obtain ⟨p, -, ha⟩ := List.mem_flatMap.mp ha
    simp only [interruptedAttempts, List.mem_cons, List.not_mem_nil, or_false] at ha
    rcases ha with rfl | rfl | rfl | rfl | rfl | rfl | rfl | rfl | rfl <;> trivial
  generalize ps.flatMap interruptedAttempts = steps at hall ⊢
  induction steps generalizing w with
  | nil => trivial
  | cons a steps ih =>
    exact ⟨hall a List.mem_cons_self w, ih _ fun b hb => hall b (List.mem_cons_of_mem _ hb)⟩

/-- An entry is spooled, and its batch is sent three times. -/
def interrupted : List Step :=
  .spool (Str.ofString "b") (Str.ofString "2026-01-01T00:00:00Z") (.ok (exportWith "6")) ::
    (spooledWith "6").toOption.toList.flatMap interruptedAttempts

/-- A journal with the entry alone. -/
def oneEntry : List Members := [[(Str.ofString "__CURSOR", .str (Str.ofString "s=1;i=2"))]]

/-- The world it ends in. -/
def afterInterruption : World :=
  run (next oneTime oneTimeCalendar 100 edge "edge".toList) (World.start oneEntry) interrupted

/-- The entry is accepted once, and the cursor is on it. -/
theorem interrupted_delivered_once :
    afterInterruption.ingested edge = ["s=1;i=2".toList] ∧
      afterInterruption.cursor = some (Str.ofString "s=1;i=2") ∧
      ∀ c, afterInterruption.cursor = some c → text c ∈ afterInterruption.ingested edge := by
  have hexport : (exportObjects 100 (exportWith "6")).toOption.map (fun objects =>
      (objects.dropLast.map entryId,
        (objects.getLast?.bind (parseCheckpoint none)).map Checkpoint.status)) =
      some (["s=1;i=2".toList], some .initial) := by decide +kernel
  have hspool : Admissible 100 edge (World.start oneEntry) (.spool (Str.ofString "b")
      (Str.ofString "2026-01-01T00:00:00Z") (.ok (exportWith "6"))) := by
    intro objects hobjects
    rw [hobjects] at hexport
    obtain ⟨hids, hstatus⟩ := Prod.mk.inj (Option.some.inj hexport)
    refine ⟨⟨[], [], ?_, fun c hc => (by cases hc)⟩, fun last checkpoint hlast hcheckpoint => ?_⟩
    · rw [hids]
      decide +kernel
    · have hread : parseCheckpoint none last = some checkpoint := hcheckpoint
      rw [hlast, Option.bind_some, hread] at hstatus
      rw [Option.some.inj hstatus]
      decide
  have hsteps : StepsSatisfy (next oneTime oneTimeCalendar 100 edge "edge".toList)
      (Admissible 100 edge) (World.start oneEntry) interrupted := by
    rw [interrupted, StepsSatisfy]
    refine And.intro hspool ?_
    generalize (spooledWith "6").toOption.toList = ps
    generalize next oneTime oneTimeCalendar 100 edge "edge".toList (World.start oneEntry) _ = w
    exact stepsSatisfy_attempts ps w
  have hdelivered := journal_delivered_once (by decide) interrupted hsteps
  refine ⟨by decide +kernel, by decide +kernel, ?_⟩
  rw [afterInterruption]
  exact hdelivered.2.2.1

end RiskOps.Telemetry.JournalCollector
