import RiskOps.Lib.Keyset
import RiskOps.Lib.Run
import RiskOps.Lib.Tally

/-!
# RiskOps.Telemetry.HttpBriefing — the daily HTTP briefing

Model of `telemetry/http_briefings.py` over the columns it reads. A report pages through three
tables, one after the other, each fenced by the greatest number it had when the first page was read;
`advance` reads a page without a write lock and checkpoints it, if no other worker has moved the
checkpoint. A case is counted under its latest revision at or before the cutoff.

**Two fences.** Rows are fenced by numbers, which only grow. Revisions are fenced by a clock: an
analysis step that was stamped at or before the cutoff and commits after the first page changes what
a case is counted under, unless its page has been read.

`counts` is one dict under paths. The figures of the first page that are copied into the report
(windows, backlog, missing records) are left out.
-/

namespace RiskOps.Telemetry.HttpBriefing

open RiskOps.Lib

/-! ### Tables -/

/-- `datetime.fromtimestamp(value, timezone.utc)` in microseconds, half to even. -/
def stamp (value : ℚ) : ℤ :=
  let micros := value * 1000000
  let rest := micros - ⌊micros⌋
  if rest < 1 / 2 then ⌊micros⌋
  else if 1 / 2 < rest then ⌊micros⌋ + 1
  else if ⌊micros⌋ % 2 = 0 then ⌊micros⌋ else ⌊micros⌋ + 1

/-- A row of `http_events`. -/
structure EventRow where
  seq : Nat
  eventTs : ℚ
  status : Nat
  deriving DecidableEq

/-- A row of `http_incidents`. -/
structure CaseRow where
  seq : Nat
  incidentId : Nat
  hour : ℤ
  deriving DecidableEq

/-- What the report reads of the payload of a revision. -/
structure CasePayload where
  stale : Bool
  active : Bool
  surfaced : Bool
  rules : List String
  deriving DecidableEq

/-- A row of `http_incident_revisions`. `updated_at` has whole microseconds. -/
structure RevisionRow where
  incidentId : Nat
  revision : Nat
  updatedAt : ℤ
  payload : CasePayload
  deriving DecidableEq

/-- A row of `http_batches`. -/
structure BatchRow where
  seq : Nat
  receivedDay : ℤ
  rejected : Nat
  reports : List String
  caughtUp : Bool
  deriving DecidableEq

/-- The tables, with `sqlite_sequence`. -/
structure Tables where
  events : List EventRow
  cases : List CaseRow
  revisions : List RevisionRow
  batches : List BatchRow
  eventSeq : Nat
  caseSeq : Nat
  batchSeq : Nat

/-- `ingest`: the accepted records and the batch. -/
def Tables.ingest (t : Tables) (records : List (ℚ × Nat)) (batch : Nat → BatchRow) : Tables :=
  { t with
    events := t.events ++ (records.zipIdx (t.eventSeq + 1)).map fun x => ⟨x.2, x.1.1, x.1.2⟩
    eventSeq := t.eventSeq + records.length
    batches := t.batches ++ [{ batch (t.batchSeq + 1) with seq := t.batchSeq + 1 }]
    batchSeq := t.batchSeq + 1 }

/-- `_save_case`: the case of a window, and its next revision. -/
def Tables.saveCase (t : Tables) (incidentId : Nat) (hour : ℤ) (payload : CasePayload) (now : ℚ) :
    Tables :=
  let known := t.cases.any fun c => c.incidentId = incidentId
  let revision := (t.revisions.filter fun r => r.incidentId = incidentId).length + 1
  { t with
    cases := if known then t.cases else t.cases ++ [⟨t.caseSeq + 1, incidentId, hour⟩]
    caseSeq := if known then t.caseSeq else t.caseSeq + 1
    revisions := t.revisions ++ [⟨incidentId, revision, stamp now, payload⟩] }

/-! ### Counts -/

/-- The paths of `counts`. -/
inductive Counter
  | requests
  | statusClass (hundreds : Nat)
  | cases
  | attention
  | low
  | retracted
  | stale
  | rule (id : String)
  | batches
  | rejected
  | reportedBatches
  | backlogBatches
  | report (code : String)
  deriving DecidableEq

abbrev Counts := List (Counter × Nat)

/-- A row of one of the three tables. -/
inductive Item
  | request (e : EventRow)
  | incident (c : CaseRow)
  | batch (b : BatchRow)
  deriving DecidableEq

/-- `SELECT payload_json … AND updated_at<=? ORDER BY revision DESC LIMIT 1`. -/
def latestRevision (t : Tables) (incidentId : Nat) (cutoff : ℚ) : Option RevisionRow :=
  ((t.revisions.filter fun r => r.incidentId = incidentId && r.updatedAt ≤ stamp cutoff).insertionSort
    fun a b => b.revision ≤ a.revision).head?

/-- What a case adds to the counts. -/
def caseLines (p : CasePayload) : List (Counter × Nat) :=
  let bucket := if p.stale then Counter.stale else if !p.active then .retracted
    else if p.surfaced then .attention else .low
  (.cases, 1) :: (bucket, 1) ::
    if bucket = .attention ∨ bucket = .low then p.rules.map fun id => (Counter.rule id, 1) else []

/-- What a row adds to the counts. -/
def lines (t : Tables) (cutoff : ℚ) : Item → List (Counter × Nat)
  | .request e => [(.requests, 1), (.statusClass (e.status / 100), 1)]
  | .incident c =>
    match latestRevision t c.incidentId cutoff with
    | none => []
    | some r => caseLines r.payload
  | .batch b =>
    [(.batches, 1), (.rejected, b.rejected), (.reportedBatches, if b.reports.isEmpty then 0 else 1),
      (.backlogBatches, if b.caughtUp then 0 else 1)] ++
      b.reports.dedup.map fun code => (Counter.report code, 1)

/-! ### `_start` and `_page` -/

inductive Stage
  | requests
  | cases
  | batches
  | complete
  deriving DecidableEq, Repr

/-- `STAGES[index] if index < len(STAGES) else 'complete'`. -/
def Stage.next : Stage → Stage
  | .requests => .cases
  | .cases => .batches
  | _ => .complete

/-- The fences of a report. -/
structure Fences where
  requests : Nat
  cases : Nat
  batches : Nat
  deriving DecidableEq

/-- `briefing_work`. The cursor of the batches has only a number. -/
structure Work where
  date : ℤ
  cutoff : ℚ
  fences : Fences
  stage : Stage
  cursor : Option (ℚ × Nat)
  skippedDays : Nat
  counts : Counts
  deriving DecidableEq

/-- `SELECT coalesce(max(seq),0) FROM …`. -/
def maxSeq (seqs : List Nat) : Nat := seqs.foldl max 0

/-- `_start`. -/
def start (t : Tables) (retentionDays : Nat) (now : ℚ) (last : Option ℤ) : Option Work :=
  let today := stamp now / 86400000000
  let day := match last with
    | some last => last + 1
    | none => today - 1
  let earliest := today - max 1 ((retentionDays : ℤ) - 1)
  let skipped := (max 0 (earliest - day)).toNat
  let day := max day earliest
  if today ≤ day then none
  else
    some ⟨day, now, ⟨maxSeq (t.events.map EventRow.seq), maxSeq (t.cases.map CaseRow.seq),
      maxSeq (t.batches.map BatchRow.seq)⟩, .requests, none, skipped, []⟩

/-- The rows of a stage inside the day and the fence. -/
def selected (t : Tables) (work : Work) : Stage → List Item
  | .requests => (t.events.filter fun e => (work.date * 86400 : ℚ) ≤ e.eventTs &&
      e.eventTs < ((work.date + 1) * 86400 : ℚ) && e.seq ≤ work.fences.requests).map .request
  | .cases => (t.cases.filter fun c => work.date * 86400 ≤ c.hour &&
      c.hour < (work.date + 1) * 86400 && c.seq ≤ work.fences.cases).map .incident
  | .batches => (t.batches.filter fun b => b.receivedDay = work.date &&
      b.seq ≤ work.fences.batches).map .batch
  | .complete => []

/-- The key a stage is paged by. -/
def Item.key : Item → ℚ ×ₗ Nat
  | .request e => toLex (e.eventTs, e.seq)
  | .incident c => toLex ((c.hour : ℚ), c.seq)
  | .batch b => toLex (0, b.seq)

/-- `cursor or [start, 0]`, and `cursor or 0`. -/
def Work.position (work : Work) : ℚ ×ₗ Nat :=
  match work.cursor with
  | some cursor => toLex cursor
  | none => match work.stage with
    | .batches => toLex (0, 0)
    | _ => toLex ((work.date * 86400 : ℚ), 0)

/-- The page size of a stage. -/
def Stage.limit : Stage → Nat → Nat
  | .cases, batchSize => min batchSize 100
  | _, batchSize => batchSize

/-- The rows of a page. -/
def pageRows (t : Tables) (work : Work) (batchSize : Nat) : List Item :=
  (((selected t work work.stage).filter fun x => work.position < x.key).insertionSort
    fun a b => a.key ≤ b.key).take (work.stage.limit batchSize)

/-- `_page`: the checkpoint after a page. -/
def Work.page (work : Work) (t : Tables) (batchSize : Nat) : Work :=
  let rows := pageRows t work batchSize
  let counts := (rows.flatMap (lines t work.cutoff)).foldl Tally.add work.counts
  let cursor := match rows.getLast? with
    | some x => some (ofLex x.key)
    | none => work.cursor
  if rows.length < work.stage.limit batchSize then
    { work with counts := counts, stage := work.stage.next, cursor := none }
  else { work with counts := counts, cursor := cursor }

/-! ### `advance` -/

/-- A row with what it adds to the counts. -/
abbrev Entry := Item × List (Counter × Nat)

/-- The entries of a stage. -/
def entries (t : Tables) (work : Work) (stage : Stage) : List Entry :=
  (selected t work stage).map fun x => (x, lines t work.cutoff x)

/-- What a report is about: its entries when its first page was read, and what has been counted of
them. Nothing reads this history. -/
structure Origin where
  population : Stage → List Entry
  counted : Stage → List Entry

/-- The history after a page. -/
def Origin.count (o : Origin) (stage : Stage) (page : List Entry) : Origin :=
  { o with counted := Function.update o.counted stage (o.counted stage ++ page) }

/-- The entries of a page. -/
def pageEntries (t : Tables) (work : Work) (batchSize : Nat) : List Entry :=
  (pageRows t work batchSize).map fun x => (x, lines t work.cutoff x)

/-- A call between its read and its write transaction. -/
structure Reading where
  old : Option Work
  last : Option ℤ
  work : Work
  origin : Origin

/-- The tables with the checkpoint, the calls in progress and the reports in the outbox. -/
structure Briefing (W : Type) where
  tables : Tables
  work : Option Work
  date : Option ℤ
  origin : Origin
  readers : W → Option Reading
  outbox : List (Work × Origin)

inductive Step (W : Type)
  /-- A batch commits. -/
  | ingest (records : List (ℚ × Nat)) (batch : Nat → BatchRow)
  /-- An analysis step commits a revision of a case. -/
  | analyse (incidentId : Nat) (hour : ℤ) (payload : CasePayload) (now : ℚ)
  /-- A worker calls `advance` and reads a page. -/
  | read (w : W) (now : ℚ) (batchSize : Nat)
  /-- It checkpoints the page. -/
  | write (w : W)
  /-- It is stopped. -/
  | stop (w : W)

/-- The read transaction of `advance`. -/
def readPage (t : Tables) (old : Option Work) (last : Option ℤ) (origin : Origin)
    (retentionDays : Nat) (now : ℚ) (batchSize : Nat) : Option Reading :=
  if ¬ (1 ≤ batchSize ∧ batchSize ≤ 1000) then none
  else
    let begun : Option (Work × Origin) := match old with
      | some work => some (work, origin)
      | none => (start t retentionDays now last).map fun work => (work, ⟨entries t work, fun _ => []⟩)
    begun.map fun x => ⟨old, last, x.1.page t batchSize,
      x.2.count x.1.stage (pageEntries t x.1 batchSize)⟩

section

variable {W : Type} [DecidableEq W]

/-- The write transaction of `advance`; the outbox ignores a second report of a day. -/
def writePage (s : Briefing W) (r : Reading) : Briefing W :=
  if s.work ≠ r.old ∨ s.date ≠ r.last then s
  else if r.work.stage ≠ .complete then { s with work := some r.work, origin := r.origin }
  else
    { s with
      work := none
      date := some r.work.date
      outbox := if s.outbox.any fun x => x.1.date = r.work.date then s.outbox
        else s.outbox ++ [(r.work, r.origin)] }

/-- One step. -/
def next (retentionDays : Nat) (s : Briefing W) : Step W → Briefing W
  | .ingest records batch => { s with tables := s.tables.ingest records batch }
  | .analyse incidentId hour payload now =>
    { s with tables := s.tables.saveCase incidentId hour payload now }
  | .read w now batchSize =>
    { s with
      readers := Function.update s.readers w
        (readPage s.tables s.work s.date s.origin retentionDays now batchSize) }
  | .write w =>
    match s.readers w with
    | none => s
    | some r => { writePage s r with readers := Function.update s.readers w none }
  | .stop w => { s with readers := Function.update s.readers w none }

/-- Tables without a report in progress. -/
def Briefing.start (t : Tables) (date : Option ℤ) : Briefing W :=
  ⟨t, none, date, ⟨fun _ => [], fun _ => []⟩, fun _ => none, []⟩

end

/-! ### Numbers -/

/-- Numbers start at one and are given out once and in order. -/
structure Tables.Valid (t : Tables) : Prop where
  events : (t.events.map EventRow.seq).Nodup ∧ ∀ e ∈ t.events, 1 ≤ e.seq ∧ e.seq ≤ t.eventSeq
  cases : (t.cases.map CaseRow.seq).Nodup ∧ ∀ c ∈ t.cases, 1 ≤ c.seq ∧ c.seq ≤ t.caseSeq
  batches : (t.batches.map BatchRow.seq).Nodup ∧ ∀ b ∈ t.batches, 1 ≤ b.seq ∧ b.seq ≤ t.batchSeq

theorem map_snd_zipIdx {α : Type} (l : List α) (n : Nat) :
    (l.zipIdx n).map Prod.snd = List.range' n l.length := by
  rw [List.zipIdx_eq_zip_range', List.map_snd_zip]
  rw [List.length_range']

/-- The rows of a batch. -/
def newEvents (t : Tables) (records : List (ℚ × Nat)) : List EventRow :=
  (records.zipIdx (t.eventSeq + 1)).map fun x => ⟨x.2, x.1.1, x.1.2⟩

theorem map_seq_newEvents (t : Tables) (records : List (ℚ × Nat)) :
    (newEvents t records).map EventRow.seq = List.range' (t.eventSeq + 1) records.length := by
  rw [newEvents, List.map_map]
  exact map_snd_zipIdx records _

variable {t : Tables}

theorem seq_newEvents {records : List (ℚ × Nat)} {e : EventRow} (h : e ∈ newEvents t records) :
    t.eventSeq < e.seq ∧ e.seq ≤ t.eventSeq + records.length := by
  have hmem : e.seq ∈ (newEvents t records).map EventRow.seq := List.mem_map_of_mem h
  rw [map_seq_newEvents, List.mem_range'_1] at hmem
  omega

/-- Rows with greater numbers keep the numbers distinct. -/
theorem nodup_append_greater {l l' : List Nat} {n : Nat} (h : l.Nodup) (h' : l'.Nodup)
    (hle : ∀ x ∈ l, x ≤ n) (hgt : ∀ x ∈ l', n < x) : (l ++ l').Nodup := by
  refine List.nodup_append.mpr ⟨h, h', fun a ha b hb heq => ?_⟩
  have hale := hle a ha
  have hbgt := hgt b hb
  omega

theorem Tables.Valid.ingest (h : t.Valid) (records : List (ℚ × Nat)) (batch : Nat → BatchRow) :
    (t.ingest records batch).Valid where
  events := by
    refine ⟨?_, fun e he => ?_⟩
    · show ((t.events ++ newEvents t records).map EventRow.seq).Nodup
      rw [List.map_append]
      refine nodup_append_greater (n := t.eventSeq) h.events.1 ?_ ?_ ?_
      · rw [map_seq_newEvents]
        exact List.nodup_range'
      · intro x hx
        obtain ⟨e, he, rfl⟩ := List.mem_map.mp hx
        exact (h.events.2 e he).2
      · intro x hx
        obtain ⟨e, he, rfl⟩ := List.mem_map.mp hx
        exact (seq_newEvents he).1
    · rcases List.mem_append.mp he with he | he
      · have hseq := h.events.2 e he
        show 1 ≤ e.seq ∧ e.seq ≤ t.eventSeq + records.length
        omega
      · have hseq := seq_newEvents he
        show 1 ≤ e.seq ∧ e.seq ≤ t.eventSeq + records.length
        omega
  cases := h.cases
  batches := by
    refine ⟨?_, fun b hb => ?_⟩
    · show ((t.batches ++ _).map BatchRow.seq).Nodup
      rw [List.map_append]
      refine nodup_append_greater (n := t.batchSeq) h.batches.1 (List.nodup_singleton _) ?_ ?_
      · intro x hx
        obtain ⟨b, hb, rfl⟩ := List.mem_map.mp hx
        exact (h.batches.2 b hb).2
      · intro x hx
        obtain rfl := List.mem_singleton.mp hx
        exact Nat.lt_succ_self _
    · show 1 ≤ b.seq ∧ b.seq ≤ t.batchSeq + 1
      rcases List.mem_append.mp hb with hb | hb
      · have hseq := h.batches.2 b hb
        omega
      · obtain rfl := List.mem_singleton.mp hb
        exact ⟨Nat.succ_le_succ (Nat.zero_le _), le_refl _⟩

theorem Tables.Valid.saveCase (h : t.Valid) (incidentId : Nat) (hour : ℤ) (payload : CasePayload)
    (now : ℚ) : (t.saveCase incidentId hour payload now).Valid where
  events := h.events
  batches := h.batches
  cases := by
    rw [Tables.saveCase]
    dsimp only
    split
    · exact h.cases
    · refine ⟨?_, fun c hc => ?_⟩
      · rw [List.map_append]
        refine nodup_append_greater (n := t.caseSeq) h.cases.1 (List.nodup_singleton _) ?_ ?_
        · intro x hx
          obtain ⟨c, hc, rfl⟩ := List.mem_map.mp hx
          exact (h.cases.2 c hc).2
        · intro x hx
          obtain rfl := List.mem_singleton.mp hx
          exact Nat.lt_succ_self _
      · rcases List.mem_append.mp hc with hc | hc
        · have hseq := h.cases.2 c hc
          omega
        · obtain rfl := List.mem_singleton.mp hc
          exact ⟨Nat.succ_le_succ (Nat.zero_le _), le_refl _⟩

theorem maxSeq_le {seqs : List Nat} {n : Nat} (h : ∀ x ∈ seqs, x ≤ n) : maxSeq seqs ≤ n :=
  List.foldlRecOn (motive := fun m => m ≤ n) seqs max (Nat.zero_le n) fun _ hm x hx =>
    max_le hm (h x hx)

/-! ### A page is a keyset page -/

/-- The key of an entry. -/
def Entry.key (x : Entry) : ℚ ×ₗ Nat := x.1.key

theorem keys_nodup (h : t.Valid) (work : Work) (stage : Stage) :
    ((entries t work stage).map Entry.key).Nodup := by
  have hitems : ((selected t work stage).map Item.key).Nodup := by
    -- two keys with the same number are the same
    have hrows : ∀ {ρ : Type} (rows : List ρ) (seq : ρ → Nat) (item : ρ → Item) (p : ρ → Bool),
        (rows.map seq).Nodup → (∀ r, (ofLex (item r).key).2 = seq r) →
        (((rows.filter p).map item).map Item.key).Nodup := by
      intro ρ rows seq item p hnodup hseq
      have hfiltered := hnodup.sublist ((List.filter_sublist (p := p)).map seq)
      rw [List.map_map, List.Nodup, List.pairwise_map]
      rw [List.Nodup, List.pairwise_map] at hfiltered
      refine hfiltered.imp fun hne heq => hne ?_
      rw [← hseq, ← hseq]
      exact congrArg (fun k => (ofLex k).2) heq
    cases stage with
    | requests => exact hrows t.events EventRow.seq .request _ h.events.1 fun _ => rfl
    | cases => exact hrows t.cases CaseRow.seq .incident _ h.cases.1 fun _ => rfl
    | batches => exact hrows t.batches BatchRow.seq .batch _ h.batches.1 fun _ => rfl
    | complete => exact List.nodup_nil
  rw [entries, List.map_map]
  exact hitems

variable {work : Work}

/-- Every row of a stage is behind the position the stage begins at. -/
theorem begin_lt_key (h : t.Valid) (hcursor : work.cursor = none) {x : Item}
    (hx : x ∈ selected t work work.stage) : work.position < x.key := by
  rw [Work.position, hcursor]
  dsimp only
  cases hstage : work.stage with
  | requests =>
    rw [hstage] at hx
    obtain ⟨e, he, rfl⟩ := List.mem_map.mp hx
    obtain ⟨hmem, hin⟩ := List.mem_filter.mp he
    simp only [Bool.and_eq_true, decide_eq_true_eq] at hin
    have hpos := (h.events.2 e hmem).1
    refine Prod.Lex.toLex_lt_toLex.mpr ?_
    rcases lt_or_eq_of_le hin.1.1 with hlt | heq
    · exact .inl hlt
    · exact .inr ⟨heq, hpos⟩
  | cases =>
    rw [hstage] at hx
    obtain ⟨c, hc, rfl⟩ := List.mem_map.mp hx
    obtain ⟨hmem, hin⟩ := List.mem_filter.mp hc
    simp only [Bool.and_eq_true, decide_eq_true_eq] at hin
    have hpos := (h.cases.2 c hmem).1
    refine Prod.Lex.toLex_lt_toLex.mpr ?_
    rcases lt_or_eq_of_le hin.1.1 with hlt | heq
    · have hcast : (work.date * 86400 : ℚ) < c.hour := by exact_mod_cast hlt
      exact .inl hcast
    · exact .inr ⟨by rw [← heq]; push_cast; rfl, hpos⟩
  | batches =>
    rw [hstage] at hx
    obtain ⟨b, hb, rfl⟩ := List.mem_map.mp hx
    have hpos := (h.batches.2 b (List.mem_of_mem_filter hb)).1
    exact Prod.Lex.toLex_lt_toLex.mpr (.inr ⟨rfl, hpos⟩)
  | complete =>
    rw [hstage] at hx
    cases hx

theorem pageEntries_eq (h : t.Valid) (work : Work) (batchSize : Nat) :
    pageEntries t work batchSize = Keyset.page Entry.key (entries t work work.stage)
      (work.cursor.map toLex) (work.stage.limit batchSize) := by
  rw [pageEntries, pageRows, Keyset.page, List.map_take]
  refine congrArg (List.take _) ?_
  refine (List.map_insertionSort (fun a b : Item => a.key ≤ b.key)
    (fun a b : Entry => a.key ≤ b.key) (fun x => (x, lines t work.cutoff x)) _
    (fun a _ b _ => Iff.rfl)).trans (congrArg _ ?_)
  rw [entries, List.filter_map]
  refine congrArg _ (List.filter_congr fun x hx => ?_)
  cases hcursor : work.cursor with
  | none => exact decide_eq_true (begin_lt_key h hcursor hx)
  | some c =>
    rw [Work.position, hcursor]
    rfl

/-! ### Counts -/

/-- The lines of all stages. -/
def allLines (counted : Stage → List Entry) : List (Counter × Nat) :=
  (counted .requests ++ counted .cases ++ counted .batches).flatMap Prod.snd

/-- Counting a page of a stage adds its lines. -/
theorem amount_count (o : Origin) {stage : Stage} (hstage : stage ≠ .complete) (page : List Entry)
    (c : Counter) : Tally.amount (allLines (o.count stage page).counted) c =
      Tally.amount (allLines o.counted) c + Tally.amount (page.flatMap Prod.snd) c := by
  cases stage with
  | complete => exact absurd rfl hstage
  | requests =>
    simp only [allLines, Origin.count, Function.update, reduceCtorEq, dif_pos, dif_neg,
      not_false_eq_true, List.flatMap_append, Tally.amount_append]
    omega
  | cases =>
    simp only [allLines, Origin.count, Function.update, reduceCtorEq, dif_pos, dif_neg,
      not_false_eq_true, List.flatMap_append, Tally.amount_append]
    omega
  | batches =>
    simp only [allLines, Origin.count, Function.update, reduceCtorEq, dif_pos, dif_neg,
      not_false_eq_true, List.flatMap_append, Tally.amount_append]
    omega

/-! ### What a checkpoint stands for -/

/-- The order of the stages. -/
def Stage.rank : Stage → Nat
  | .requests => 0
  | .cases => 1
  | .batches => 2
  | .complete => 3

/-- A checkpoint counts what has been read of the population, and the fences hold the population. -/
structure Tracks (t : Tables) (work : Work) (o : Origin) : Prop where
  fences : work.fences.requests ≤ t.eventSeq ∧ work.fences.cases ≤ t.caseSeq ∧
    work.fences.batches ≤ t.batchSeq
  fence : ∀ stage, entries t work stage = o.population stage
  read : Keyset.Read Entry.key (o.population work.stage) (work.cursor.map toLex)
    (o.counted work.stage)
  done : ∀ stage, stage.rank < work.stage.rank → (o.counted stage).Perm (o.population stage)
  later : ∀ stage, work.stage.rank < stage.rank → o.counted stage = []
  counts : ∀ c, Tally.get work.counts c = Tally.amount (allLines o.counted) c

theorem rank_next {stage : Stage} (h : stage ≠ .complete) : stage.next.rank = stage.rank + 1 := by
  cases stage with
  | complete => exact absurd rfl h
  | requests => rfl
  | cases => rfl
  | batches => rfl

theorem rank_inj {a b : Stage} (h : a.rank = b.rank) : a = b := by
  cases a <;> cases b <;> first | rfl | cases h

theorem flatMap_pageEntries (t : Tables) (work : Work) (batchSize : Nat) :
    (pageEntries t work batchSize).flatMap Prod.snd =
      (pageRows t work batchSize).flatMap (lines t work.cutoff) := by
  rw [pageEntries, List.flatMap_map]

theorem advance_pageEntries (t : Tables) (work : Work) (batchSize : Nat) :
    (match (pageRows t work batchSize).getLast? with
      | some x => some (ofLex x.key)
      | none => work.cursor).map toLex =
      Keyset.advance Entry.key (work.cursor.map toLex) (pageEntries t work batchSize) := by
  rw [Keyset.advance, pageEntries, List.getLast?_map]
  cases (pageRows t work batchSize).getLast? with
  | none => rfl
  | some x => rfl

variable {o : Origin}

/-- **A page of a stage.** -/
theorem Tracks.page (hv : t.Valid) (h : Tracks t work o) (hstage : work.stage ≠ .complete)
    (batchSize : Nat) :
    Tracks t (work.page t batchSize) (o.count work.stage (pageEntries t work batchSize)) := by
  have hnodup : ((o.population work.stage).map Entry.key).Nodup := by
    rw [← h.fence]
    exact keys_nodup hv work work.stage
  have hpage : pageEntries t work batchSize = Keyset.page Entry.key (o.population work.stage)
      (work.cursor.map toLex) (work.stage.limit batchSize) := by
    rw [pageEntries_eq hv, h.fence]
  have hcounts : ∀ c, Tally.get
      (((pageRows t work batchSize).flatMap (lines t work.cutoff)).foldl Tally.add work.counts) c =
      Tally.amount (allLines (o.count work.stage (pageEntries t work batchSize)).counted) c := by
    intro c
    rw [Tally.get_foldl_add, amount_count o hstage, h.counts, flatMap_pageEntries]
  have hother : ∀ stage, stage ≠ work.stage →
      (o.count work.stage (pageEntries t work batchSize)).counted stage = o.counted stage :=
    fun stage hne => Function.update_of_ne hne _ _
  have hself : (o.count work.stage (pageEntries t work batchSize)).counted work.stage =
      o.counted work.stage ++ pageEntries t work batchSize := Function.update_self _ _ _
  have hbefore : ∀ stage, stage.rank < work.stage.rank →
      ((o.count work.stage (pageEntries t work batchSize)).counted stage).Perm
        (o.population stage) := by
    intro stage hlt
    rw [hother stage (fun heq => by rw [heq] at hlt; omega)]
    exact h.done stage hlt
  unfold Work.page
  dsimp only
  split
  · rename_i hshort
    have hlast : ((o.count work.stage (pageEntries t work batchSize)).counted work.stage).Perm
        (o.population work.stage) := by
      have hlen : (Keyset.page Entry.key (o.population work.stage) (work.cursor.map toLex)
          (work.stage.limit batchSize)).length < work.stage.limit batchSize := by
        rw [← hpage, pageEntries, List.length_map]
        exact hshort
      rw [hself, hpage]
      exact h.read.last hnodup hlen
    refine ⟨h.fences, h.fence, ?_, ?_, ?_, hcounts⟩
    · -- the next stage begins with nothing counted
      have hrank := rank_next hstage
      have hempty :
          (o.count work.stage (pageEntries t work batchSize)).counted work.stage.next = [] := by
        rw [hother _ (fun heq => by rw [heq] at hrank; omega)]
        exact h.later _ (by omega)
      dsimp only
      rw [hempty]
      exact Keyset.read_start
    · intro stage hlt
      dsimp only at hlt
      rw [rank_next hstage] at hlt
      rcases Nat.lt_succ_iff_lt_or_eq.mp hlt with hlt | heq
      · exact hbefore stage hlt
      · rw [rank_inj heq]
        exact hlast
    · intro stage hlt
      dsimp only at hlt
      rw [rank_next hstage] at hlt
      rw [hother stage (fun heq => by rw [heq] at hlt; omega)]
      exact h.later stage (by omega)
  · refine ⟨h.fences, h.fence, ?_, hbefore, ?_, hcounts⟩
    · have hread := h.read.page hnodup (work.stage.limit batchSize)
      rw [← hpage, ← advance_pageEntries] at hread
      rw [show (o.count work.stage (pageEntries t work batchSize)).population = o.population from rfl]
      dsimp only
      rw [hself]
      exact hread
    · intro stage hlt
      dsimp only at hlt
      rw [hother stage (fun heq => by rw [heq] at hlt; omega)]
      exact h.later stage hlt

/-- **A complete report** has counted every entry once. -/
theorem Tracks.complete {t : Tables} {work : Work} {o : Origin} (h : Tracks t work o)
    (hstage : work.stage = .complete) :
    (∀ stage, stage ≠ .complete → (o.counted stage).Perm (o.population stage)) ∧
      ∀ c, Tally.get work.counts c = Tally.amount (allLines o.population) c := by
  have hperm : ∀ stage, stage ≠ .complete → (o.counted stage).Perm (o.population stage) := by
    intro stage hne
    refine h.done stage ?_
    rw [hstage]
    cases stage with
    | complete => exact absurd rfl hne
    | requests => decide
    | cases => decide
    | batches => decide
  refine ⟨hperm, fun c => ?_⟩
  rw [h.counts]
  exact Tally.amount_perm ((((hperm .requests (by decide)).append (hperm .cases (by decide))).append
    (hperm .batches (by decide))).flatMap_right _) c

variable {retentionDays : Nat}

/-- The first checkpoint. -/
theorem tracks_start (hv : t.Valid) {now : ℚ} {last : Option ℤ}
    (h : start t retentionDays now last = some work) :
    Tracks t work ⟨entries t work, fun _ => []⟩ ∧ work.stage ≠ .complete ∧
      ∀ d, last = some d → d < work.date := by
  unfold start at h
  dsimp only at h
  generalize hday : (match last with
    | some last => last + 1
    | none => stamp now / 86400000000 - 1) = day at h
  split at h
  · cases h
  · obtain rfl := Option.some.inj h
    refine ⟨⟨⟨?_, ?_, ?_⟩, fun _ => rfl, Keyset.read_start, ?_, fun _ _ => rfl, fun _ => rfl⟩, ?_, ?_⟩
    · refine maxSeq_le fun x hx => ?_
      obtain ⟨e, he, rfl⟩ := List.mem_map.mp hx
      exact (hv.events.2 e he).2
    · refine maxSeq_le fun x hx => ?_
      obtain ⟨c, hc, rfl⟩ := List.mem_map.mp hx
      exact (hv.cases.2 c hc).2
    · refine maxSeq_le fun x hx => ?_
      obtain ⟨b, hb, rfl⟩ := List.mem_map.mp hx
      exact (hv.batches.2 b hb).2
    · exact fun stage hlt => absurd hlt (Nat.not_lt_zero _)
    · exact fun heq => by cases heq
    · intro d hd
      rw [hd] at hday
      dsimp only at hday ⊢
      omega

/-! ### What commits while a report is under way -/

theorem Tracks.congr {t' : Tables} (h : Tracks t work o)
    (hcounters : t.eventSeq ≤ t'.eventSeq ∧ t.caseSeq ≤ t'.caseSeq ∧ t.batchSeq ≤ t'.batchSeq)
    (hentries : ∀ stage, entries t' work stage = entries t work stage) : Tracks t' work o where
  fences := ⟨h.fences.1.trans hcounters.1, h.fences.2.1.trans hcounters.2.1,
    h.fences.2.2.trans hcounters.2.2⟩
  fence := fun stage => (hentries stage).trans (h.fence stage)
  read := h.read
  done := h.done
  later := h.later
  counts := h.counts

/-- Rows outside a filter do not change what it selects. -/
theorem filter_append_none {α : Type} {p : α → Bool} {l m : List α} (h : ∀ x ∈ m, p x = false) :
    (l ++ m).filter p = l.filter p := by
  have hnone : m.filter p = [] :=
    List.filter_eq_nil_iff.mpr fun x hx => Bool.not_eq_true _ ▸ h x hx
  rw [List.filter_append, hnone, List.append_nil]

theorem lines_ingest (t : Tables) (records : List (ℚ × Nat)) (batch : Nat → BatchRow) (cutoff : ℚ)
    (x : Item) : lines (t.ingest records batch) cutoff x = lines t cutoff x := by
  cases x with
  | request e => rfl
  | incident c => rfl
  | batch b => rfl

/-- A batch has numbers behind the fences. -/
theorem Tracks.ingest (h : Tracks t work o) (records : List (ℚ × Nat)) (batch : Nat → BatchRow) :
    Tracks (t.ingest records batch) work o := by
  refine h.congr ⟨Nat.le_add_right _ _, le_refl _, Nat.le_succ _⟩ fun stage => ?_
  have hlines : (fun x => (x, lines (t.ingest records batch) work.cutoff x)) =
      fun x => (x, lines t work.cutoff x) :=
    funext fun x => by rw [lines_ingest]
  rw [entries, entries, hlines]
  refine congrArg _ ?_
  cases stage with
  | requests =>
    refine congrArg _ (filter_append_none (m := newEvents t records) fun e he => ?_)
    have hseq := (seq_newEvents he).1
    have hfence := h.fences.1
    rw [decide_eq_false (by omega : ¬ e.seq ≤ work.fences.requests), Bool.and_false]
  | cases => rfl
  | batches =>
    refine congrArg _ (filter_append_none fun b hb => ?_)
    obtain rfl := List.mem_singleton.mp hb
    have hfence : ¬ t.batchSeq + 1 ≤ work.fences.batches :=
      Nat.not_le.mpr (Nat.lt_succ_of_le h.fences.2.2)
    exact (congrArg _ (decide_eq_false hfence)).trans (Bool.and_false _)
  | complete => rfl

/-- A revision of another case, or one stamped after the cutoff, is not the latest. -/
theorem lines_saveCase {incidentId : Nat} {hour : ℤ} {payload : CasePayload} {now : ℚ} {cutoff : ℚ}
    {c : CaseRow} (h : c.incidentId = incidentId → stamp cutoff < stamp now) :
    lines (t.saveCase incidentId hour payload now) cutoff (.incident c) =
      lines t cutoff (.incident c) := by
  have hlatest : latestRevision (t.saveCase incidentId hour payload now) c.incidentId cutoff =
      latestRevision t c.incidentId cutoff := by
    refine congrArg (fun l => (List.insertionSort _ l).head?) (filter_append_none fun r hr => ?_)
    obtain rfl := List.mem_singleton.mp hr
    dsimp only
    by_cases hid : incidentId = c.incidentId
    · have hlate := h hid.symm
      rw [decide_eq_false (not_le_of_gt hlate), Bool.and_false]
    · rw [decide_eq_false hid, Bool.false_and]
  rw [lines, lines, hlatest]

/-- A case of the report's day, inside its fence. -/
def Work.covers (work : Work) (c : CaseRow) : Bool :=
  work.date * 86400 ≤ c.hour && c.hour < (work.date + 1) * 86400 && c.seq ≤ work.fences.cases

/-- A revision that the report does not see. -/
theorem Tracks.saveCase (h : Tracks t work o) {incidentId : Nat} {hour : ℤ} {payload : CasePayload}
    {now : ℚ} (hlate : ∀ c ∈ t.cases, c.incidentId = incidentId → work.covers c = true →
      stamp work.cutoff < stamp now) : Tracks (t.saveCase incidentId hour payload now) work o := by
  have hselected : (t.saveCase incidentId hour payload now).cases.filter work.covers =
      t.cases.filter work.covers := by
    rw [Tables.saveCase]
    dsimp only
    split
    · rfl
    · refine filter_append_none fun c hc => ?_
      obtain rfl := List.mem_singleton.mp hc
      have hfence : ¬ t.caseSeq + 1 ≤ work.fences.cases :=
        Nat.not_le.mpr (Nat.lt_succ_of_le h.fences.2.1)
      exact (congrArg _ (decide_eq_false hfence)).trans (Bool.and_false _)
  have hcounter : t.caseSeq ≤ (t.saveCase incidentId hour payload now).caseSeq := by
    rw [Tables.saveCase]
    dsimp only
    split
    · exact le_refl _
    · exact Nat.le_succ _
  refine h.congr ⟨le_refl _, hcounter, le_refl _⟩ fun stage => ?_
  cases stage with
  | requests =>
    refine List.map_congr_left fun x hx => ?_
    obtain ⟨e, -, rfl⟩ := List.mem_map.mp hx
    rfl
  | batches =>
    refine List.map_congr_left fun x hx => ?_
    obtain ⟨b, -, rfl⟩ := List.mem_map.mp hx
    rfl
  | complete => rfl
  | cases =>
    have hcases : selected (t.saveCase incidentId hour payload now) work .cases =
        selected t work .cases := congrArg (List.map Item.incident) hselected
    rw [entries, entries, hcases]
    refine List.map_congr_left fun x hx => ?_
    obtain ⟨c, hc, rfl⟩ := List.mem_map.mp hx
    obtain ⟨hmem, hcovers⟩ := List.mem_filter.mp hc
    rw [lines_saveCase fun hid => hlate c hmem hid hcovers]

/-! ### Runs -/

section

variable {W : Type} [DecidableEq W]

/-- The checkpoint, or one a worker holds. -/
def InUse (s : Briefing W) (work : Work) : Prop :=
  s.work = some work ∨ ∃ w r, s.readers w = some r ∧ r.work = work

/-- The order of clocks and commits the cutoff needs: a case of a report under way is revised after
its cutoff. -/
def Undisturbed (s : Briefing W) : Step W → Prop
  | .analyse incidentId _ _ now => ∀ work, InUse s work → ∀ c ∈ s.tables.cases,
      c.incidentId = incidentId → work.covers c = true → stamp work.cutoff < stamp now
  | _ => True

/-- Every entry of the population is counted once, and the counts are those of the population. -/
def Exact (x : Work × Origin) : Prop :=
  (∀ stage, stage ≠ .complete → (x.2.counted stage).Perm (x.2.population stage)) ∧
    ∀ c, Tally.get x.1.counts c = Tally.amount (allLines x.2.population) c

/-- What holds between two steps. -/
structure Steady (s : Briefing W) : Prop where
  valid : s.tables.Valid
  saved : ∀ work, s.work = some work → Tracks s.tables work s.origin ∧ work.stage ≠ .complete ∧
    ∀ d, s.date = some d → d < work.date
  held : ∀ w r, s.readers w = some r → Tracks s.tables r.work r.origin ∧
    ∀ d, r.last = some d → d < r.work.date
  reports : ∀ x ∈ s.outbox, Exact x
  dates : s.outbox.Pairwise fun x y => x.1.date < y.1.date
  last : ∀ x ∈ s.outbox, ∃ d, s.date = some d ∧ x.1.date ≤ d

omit [DecidableEq W] in
theorem steady_start (h : t.Valid) (date : Option ℤ) :
    Steady (Briefing.start t date : Briefing W) where
  valid := h
  saved := fun _ h => by cases h
  held := fun _ _ h => by cases h
  reports := fun _ h => by cases h
  dates := List.Pairwise.nil
  last := fun _ h => by cases h

theorem date_page (work : Work) (t : Tables) (batchSize : Nat) :
    (work.page t batchSize).date = work.date := by
  unfold Work.page
  dsimp only
  split
  · rfl
  · rfl

variable {s : Briefing W}

omit [DecidableEq W] in
/-- The page a call reads. -/
theorem Steady.readPage (h : Steady s) {now : ℚ} {batchSize : Nat} {r : Reading}
    (hread : readPage s.tables s.work s.date s.origin retentionDays now batchSize = some r) :
    Tracks s.tables r.work r.origin ∧ ∀ d, r.last = some d → d < r.work.date := by
  unfold HttpBriefing.readPage at hread
  split at hread
  · cases hread
  · obtain ⟨⟨work, origin⟩, hbegun, rfl⟩ := Option.map_eq_some_iff.mp hread
    have hfrom : Tracks s.tables work origin ∧ work.stage ≠ .complete ∧
        ∀ d, s.date = some d → d < work.date := by
      cases hwork : s.work with
      | some saved =>
        rw [hwork] at hbegun
        obtain ⟨rfl, rfl⟩ := Prod.mk.inj (Option.some.inj hbegun)
        exact h.saved saved hwork
      | none =>
        rw [hwork] at hbegun
        obtain ⟨fresh, hfresh, heq⟩ := Option.map_eq_some_iff.mp hbegun
        obtain ⟨rfl, rfl⟩ := Prod.mk.inj heq
        exact tracks_start h.valid hfresh
    refine ⟨hfrom.1.page h.valid hfrom.2.1 batchSize, fun d hd => ?_⟩
    rw [date_page]
    exact hfrom.2.2 d hd

omit [DecidableEq W] in
/-- The tables change in a way no report under way sees. -/
theorem Steady.tables (h : Steady s) (hvalid : t.Valid)
    (htracks : ∀ work o, InUse s work → Tracks s.tables work o → Tracks t work o) :
    Steady { s with tables := t } where
  valid := hvalid
  saved := fun work hwork =>
    ⟨htracks work s.origin (.inl hwork) (h.saved work hwork).1, (h.saved work hwork).2⟩
  held := fun w r hr =>
    ⟨htracks r.work r.origin (.inr ⟨w, r, hr, rfl⟩) (h.held w r hr).1, (h.held w r hr).2⟩
  reports := h.reports
  dates := h.dates
  last := h.last

/-- A worker takes up or drops a page. -/
theorem Steady.readers (h : Steady s) (w : W) {held : Option Reading}
    (hheld : ∀ r, held = some r → Tracks s.tables r.work r.origin ∧
      ∀ d, r.last = some d → d < r.work.date) :
    Steady { s with readers := Function.update s.readers w held } := by
  refine ⟨h.valid, h.saved, fun w' r hr => ?_, h.reports, h.dates, h.last⟩
  dsimp only at hr
  by_cases hw : w' = w
  · subst hw
    rw [Function.update_self] at hr
    exact hheld r hr
  · rw [Function.update_of_ne hw] at hr
    exact h.held w' r hr

omit [DecidableEq W] in
/-- A page is checkpointed, or the report of a later day than all before it is delivered. -/
theorem Steady.writePage (h : Steady s) {r : Reading} (htracks : Tracks s.tables r.work r.origin)
    (hdate : ∀ d, r.last = some d → d < r.work.date) : Steady (writePage s r) := by
  unfold HttpBriefing.writePage
  split
  · exact h
  · rename_i hsame
    obtain ⟨-, hlast⟩ := not_or.mp hsame
    have hlast := not_not.mp hlast
    rw [← hlast] at hdate
    split
    · rename_i hstage
      refine ⟨h.valid, fun work hwork => ?_, h.held, h.reports, h.dates, h.last⟩
      obtain rfl := Option.some.inj hwork
      exact ⟨htracks, hstage, hdate⟩
    · rename_i hstage
      have hbefore : ∀ x ∈ s.outbox, x.1.date < r.work.date := by
        intro x hx
        obtain ⟨d, hd, hle⟩ := h.last x hx
        exact lt_of_le_of_lt hle (hdate d hd)
      have hnew : s.outbox.any (fun x => x.1.date = r.work.date) = false := by
        rw [List.any_eq_false]
        intro x hx heq
        exact absurd (of_decide_eq_true heq) (ne_of_lt (hbefore x hx))
      rw [hnew]
      refine ⟨h.valid, fun _ hwork => (by cases hwork), h.held, fun x hx => ?_, ?_, fun x hx => ?_⟩
      · rcases List.mem_append.mp hx with hx | hx
        · exact h.reports x hx
        · obtain rfl := List.mem_singleton.mp hx
          exact htracks.complete (not_not.mp hstage)
      · refine List.pairwise_append.mpr ⟨h.dates, List.pairwise_singleton _ _, fun x hx y hy => ?_⟩
        obtain rfl := List.mem_singleton.mp hy
        exact hbefore x hx
      · refine ⟨r.work.date, rfl, ?_⟩
        rcases List.mem_append.mp hx with hx | hx
        · exact le_of_lt (hbefore x hx)
        · obtain rfl := List.mem_singleton.mp hx
          exact le_refl _

omit [DecidableEq W] in
theorem readers_writePage (s : Briefing W) (r : Reading) :
    (HttpBriefing.writePage s r).readers = s.readers := by
  unfold HttpBriefing.writePage
  split
  · rfl
  · split
    · rfl
    · rfl

/-- **One step.** -/
theorem Steady.next (h : Steady s) {a : Step W} (hclean : Undisturbed s a) :
    Steady (next retentionDays s a) := by
  cases a with
  | ingest records batch =>
    exact h.tables (h.valid.ingest records batch) fun work o _ ht => ht.ingest records batch
  | analyse incidentId hour payload now =>
    exact h.tables (h.valid.saveCase incidentId hour payload now) fun work o huse ht =>
      ht.saveCase (hclean work huse)
  | read w now batchSize => exact h.readers w fun r hr => h.readPage hr
  | write w =>
    rw [HttpBriefing.next]
    split
    · exact h
    · rename_i r hr
      obtain ⟨htracks, hdate⟩ := h.held w r hr
      rw [← readers_writePage s r]
      exact (h.writePage htracks hdate).readers w fun _ hnone => by cases hnone
  | stop w => exact h.readers w fun _ hnone => by cases hnone

/-- **The daily HTTP briefing.** In every run in which the cases of a report under way are revised
after its cutoff, each report counts exactly the requests, cases and batches of its day that were
there when its first page was read, each once, and a day has at most one report. -/
theorem http_briefing_exact {t : Tables} (hvalid : t.Valid) (retentionDays : Nat) (date : Option ℤ)
    (steps : List (Step W))
    (hclean : StepsSatisfy (next retentionDays) Undisturbed (Briefing.start t date) steps) :
    (∀ x ∈ (run (next retentionDays) (Briefing.start t date) steps).outbox, Exact x) ∧
      ((run (next retentionDays) (Briefing.start t date) steps).outbox.map
        fun x => x.1.date).Nodup := by
  have hsteady := run_invariant_of_steps (P := Steady) (fun s a hq hs => hs.next hq) hclean
    (steady_start hvalid date)
  refine ⟨hsteady.reports, ?_⟩
  rw [List.Nodup, List.pairwise_map]
  exact hsteady.dates.imp ne_of_lt

end

/-! ### A revision at the cutoff -/

/-- What a case that asks for attention says, and what it says when it is withdrawn. -/
def surfaced : CasePayload := ⟨false, true, true, ["sqli"]⟩

def withdrawn : CasePayload := ⟨false, false, true, []⟩

/-- Two cases of the first day. -/
def twoCases : Tables :=
  ((⟨[], [], [], [], 0, 0, 0⟩ : Tables).saveCase 7 3600 surfaced 4000).saveCase 8 7200 surfaced 8000

/-- Both cases are withdrawn at a given time, when the first has been counted and the second has
not. -/
def withdrawnAt (now : ℚ) : List (Step Unit) :=
  [.read () 90000 1, .write (), .read () 90000 1, .write (), .analyse 7 3600 withdrawn now,
    .analyse 8 7200 withdrawn now, .read () 90001 10, .write (), .read () 90001 10, .write ()]

/-- The attention and retracted counters. -/
def shown (count : Counter → Nat) : Nat × Nat := (count .attention, count .retracted)

/-- Withdrawn at the time of the cutoff: the report has one case of each kind. There were two that
asked for attention when its first page was read, and none whose latest revision at the cutoff does
when it was delivered. -/
theorem withdrawn_at_cutoff_counted :
    let s := run (next 30) (Briefing.start twoCases none) (withdrawnAt 90000)
    s.outbox.map (fun x => (shown (Tally.get x.1.counts),
      shown (Tally.amount (allLines x.2.population)),
      shown (Tally.amount (allLines (entries s.tables x.1))))) = [((1, 1), (2, 0), (0, 2))] := by
  decide +kernel

theorem valid_empty : (⟨[], [], [], [], 0, 0, 0⟩ : Tables).Valid :=
  ⟨⟨List.nodup_nil, fun _ h => by cases h⟩, ⟨List.nodup_nil, fun _ h => by cases h⟩,
    ⟨List.nodup_nil, fun _ h => by cases h⟩⟩

/-- Withdrawn a microsecond later, both are counted as they were. -/
theorem withdrawn_later_exact :
    ((run (next 30) (Briefing.start twoCases none) (withdrawnAt (90000 + 1 / 1000000))).outbox.map
      fun x => shown (Tally.get x.1.counts)) = [(2, 0)] ∧
    ∀ x ∈ (run (next 30) (Briefing.start twoCases none)
      (withdrawnAt (90000 + 1 / 1000000))).outbox, Exact x := by
  refine ⟨by decide +kernel, ?_⟩
  have hlater : ∀ (s : Briefing Unit) (incidentId : Nat) (hour : ℤ), (s.readers ()).isNone = true →
      s.work.map Work.cutoff = some 90000 →
      Undisturbed s (.analyse incidentId hour withdrawn (90000 + 1 / 1000000)) := by
    intro s incidentId hour hidle hcutoff work huse c _ _ _
    rcases huse with hwork | ⟨w, r, hr, -⟩
    · rw [hwork] at hcutoff
      rw [show work.cutoff = 90000 from Option.some.inj hcutoff]
      decide +kernel
    · rw [show w = () from rfl] at hr
      rw [hr] at hidle
      cases hidle
  exact (http_briefing_exact ((valid_empty.saveCase 7 3600 surfaced 4000).saveCase 8 7200 surfaced 8000)
    30 none (withdrawnAt (90000 + 1 / 1000000))
    ⟨trivial, trivial, trivial, trivial, hlater _ _ _ (by decide +kernel) (by decide +kernel),
      hlater _ _ _ (by decide +kernel) (by decide +kernel), trivial, trivial, trivial, trivial,
      trivial⟩).1

end RiskOps.Telemetry.HttpBriefing
