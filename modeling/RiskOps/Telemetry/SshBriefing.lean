import RiskOps.Lib.Keyset
import RiskOps.Lib.Tally
import RiskOps.Telemetry.EventPages

/-!
# RiskOps.Telemetry.SshBriefing — the daily SSH briefing

Model of `advance_briefing` of `telemetry/notifications.py`. A call reads one page of the day's
records without a write lock and then checkpoints it, if no other worker has moved the checkpoint.
The population is fenced by `received_at<=cutoff`, where the cutoff is the clock of the call that
read the first page.

**The fence is a clock, not a commit.** `ingest` stamps its records when it starts and commits them
later. A batch that was stamped before the cutoff and is committed after the first page puts records
inside the fence; those behind the cursor are counted, the others are not.

Times are exact. The incident and gap figures of the report are left out.
-/

namespace RiskOps.Telemetry.Store

open RiskOps.Lib Sshd

/-! ### The checkpoint -/

/-- `briefing_work`. -/
structure Work where
  day : ℤ
  cutoff : ℚ
  cursor : Option (ℚ × Key)
  counts : List (EventKind × Nat)
  skippedDays : Nat
  deriving DecidableEq

/-- A report as it is enqueued. -/
structure Report where
  day : ℤ
  dataAsOf : ℚ
  logCount : Nat
  eventTypes : List (EventKind × Nat)
  skippedDays : Nat
  deriving DecidableEq

/-- The checkpoint of a new report; `none` when the day is not over. -/
def startWork (retentionDays : Nat) (now : ℚ) (last : Option ℤ) : Option Work :=
  let today := dayOf now
  let day := match last with
    | some last => last + 1
    | none => today - 1
  let earliest := today - max 1 ((retentionDays : ℤ) - 1)
  let skipped := (max 0 (earliest - day)).toNat
  let day := max day earliest
  if today ≤ day then none else some ⟨day, now, none, [], skipped⟩

/-- `event_ts>=? AND event_ts<?`. -/
def inDay (day : ℤ) (e : StoredEvent) : Bool :=
  (day * 86400 : ℚ) ≤ e.row.eventTs && e.row.eventTs < ((day + 1) * 86400 : ℚ)

/-- The keyset condition of the query. -/
def behindCursor (cursor : Option (ℚ × Key)) (e : StoredEvent) : Bool :=
  match cursor with
  | none => true
  | some (stamp, source, event) =>
    e.row.eventTs ≤ stamp && (e.row.eventTs < stamp || source < e.key.1 ||
      (e.key.1 = source && event < e.key.2))

/-- The rows of a page. -/
def briefingRows (db : Db) (work : Work) (batchSize : Nat) : List StoredEvent :=
  ((db.events.select fun e => inDay work.day e && e.receivedAt ≤ work.cutoff &&
    behindCursor work.cursor e).insertionSort fun a b => pageOrder a ≤ pageOrder b).take batchSize

/-- The loop over the rows of a page: `counts[kind] = counts.get(kind, 0) + 1`. -/
def tally (counts : List (EventKind × Nat)) (rows : List StoredEvent) : List (EventKind × Nat) :=
  (rows.map fun e => (e.row.eventType, 1)).foldl Tally.add counts

/-- `list(rows[-1][:3]) if rows else work["cursor"]`. -/
def nextCursor (cursor : Option (ℚ × Key)) (rows : List StoredEvent) : Option (ℚ × Key) :=
  match rows.getLast? with
  | some e => some (e.row.eventTs, e.key)
  | none => cursor

/-- `next_work`. -/
def Work.next (work : Work) (rows : List StoredEvent) : Work :=
  { work with counts := tally work.counts rows, cursor := nextCursor work.cursor rows }

/-- The report of the last page. -/
def Work.report (work : Work) (rows : List StoredEvent) : Report :=
  let counts := tally work.counts rows
  ⟨work.day, work.cutoff, (counts.map Prod.snd).sum, counts, work.skippedDays⟩

/-! ### Workers -/

/-- What a report is about: the records of its day when its first page was read, and what has been
counted of them. Nothing reads this history. -/
structure Origin where
  population : List StoredEvent
  counted : List StoredEvent

/-- A call between its read and its write transaction. -/
structure Reading where
  old : Option Work
  last : Option ℤ
  work : Work
  rows : List StoredEvent
  more : Bool
  origin : Origin

/-- The store with `notification_meta`, the calls in progress and the reports enqueued so far. -/
structure Briefing (W : Type) where
  db : Db
  work : Option Work
  date : Option ℤ
  origin : Origin
  readers : W → Option Reading
  reports : List (Report × Origin)

inductive BriefingStep (W : Type)
  /-- A call of `ingest` commits. -/
  | ingest (call : Call)
  /-- A worker calls `advance_briefing` and reads a page. -/
  | read (w : W) (now : ℚ) (batchSize : Nat)
  /-- It checkpoints the page. -/
  | write (w : W)
  /-- It is stopped. -/
  | stop (w : W)

/-- The records of a day. -/
def dayRecords (db : Db) (day : ℤ) : List StoredEvent := db.records.filter (inDay day)

/-- The read transaction. -/
def readPage (db : Db) (old : Option Work) (last : Option ℤ) (origin : Origin) (retentionDays : Nat)
    (now : ℚ) (batchSize : Nat) : Option Reading :=
  let start : Option (Work × Origin) := match old with
    | some work => some (work, origin)
    | none => (startWork retentionDays now last).map fun work => (work, ⟨dayRecords db work.day, []⟩)
  start.map fun (work, origin) =>
    let rows := briefingRows db work batchSize
    ⟨old, last, work, rows, rows.length = batchSize, origin⟩

section

variable {W : Type} [DecidableEq W]

/-- The write transaction. -/
def writePage (s : Briefing W) (r : Reading) : Briefing W :=
  let origin : Origin := ⟨r.origin.population, r.origin.counted ++ r.rows.map StoredEvent.content⟩
  if s.work ≠ r.old ∨ s.date ≠ r.last then s
  else if r.more then { s with work := some (r.work.next r.rows), origin := origin }
  else
    { s with
      work := none
      date := some r.work.day
      reports := s.reports ++ [(r.work.report r.rows, origin)] }

/-- One step. -/
def nextBriefing (lib : Library) (retentionDays : Nat) (s : Briefing W) :
    BriefingStep W → Briefing W
  | .ingest c =>
    match ingest lib s.db c with
    | .ok (db, _) => { s with db := db }
    | .error _ => s
  | .read w now batchSize =>
    { s with
      readers := Function.update s.readers w
        (readPage s.db s.work s.date s.origin retentionDays now batchSize) }
  | .write w =>
    match s.readers w with
    | none => s
    | some r => { writePage s r with readers := Function.update s.readers w none }
  | .stop w => { s with readers := Function.update s.readers w none }

/-- A store without a report in progress. -/
def Briefing.start (db : Db) (date : Option ℤ) : Briefing W :=
  ⟨db, none, date, ⟨[], []⟩, fun _ => none, []⟩

end

/-! ### A page is a keyset page -/

/-- The position a cursor stands for. -/
def cursorKey (cursor : ℚ × Key) : ℚᵒᵈ ×ₗ (List Char ×ₗ List Char) :=
  toLex (OrderDual.toDual cursor.1, toLex cursor.2)

theorem behindCursor_eq (cursor : Option (ℚ × Key)) (e : StoredEvent) :
    behindCursor cursor e = Keyset.after pageOrder (cursor.map cursorKey) e := by
  cases cursor with
  | none => rfl
  | some c =>
    obtain ⟨stamp, source, event⟩ := c
    rw [Bool.eq_iff_iff]
    simp only [behindCursor, Keyset.after, Option.map_some, Option.all_some, cursorKey, pageOrder,
      Bool.and_eq_true, Bool.or_eq_true, decide_eq_true_eq, Prod.Lex.toLex_lt_toLex,
      OrderDual.toDual_lt_toDual, OrderDual.toDual_inj]
    constructor
    · intro h
      obtain ⟨hle, (hlt | hsource) | ⟨hsame, hevent⟩⟩ := h
      · exact .inl hlt
      · rcases lt_or_eq_of_le hle with hlt | heq
        · exact .inl hlt
        · exact .inr ⟨heq.symm, .inl hsource⟩
      · rcases lt_or_eq_of_le hle with hlt | heq
        · exact .inl hlt
        · exact .inr ⟨heq.symm, .inr ⟨hsame.symm, hevent⟩⟩
    · intro h
      obtain hlt | ⟨heq, hsource | ⟨hsame, hevent⟩⟩ := h
      · exact ⟨le_of_lt hlt, .inl (.inl hlt)⟩
      · exact ⟨le_of_eq heq.symm, .inl (.inr hsource)⟩
      · exact ⟨le_of_eq heq.symm, .inr ⟨hsame.symm, hevent⟩⟩

/-- The record is inside the fence of a report. -/
def fenced (work : Work) (e : StoredEvent) : Bool := inDay work.day e && e.receivedAt ≤ work.cutoff

theorem map_content_briefingRows (db : Db) (work : Work) (batchSize : Nat) :
    (briefingRows db work batchSize).map StoredEvent.content =
      Keyset.page pageOrder (db.records.filter (fenced work)) (work.cursor.map cursorKey) batchSize := by
  rw [briefingRows, Keyset.page, List.map_take]
  refine congrArg (List.take batchSize) ?_
  refine (List.map_insertionSort (fun a b : StoredEvent => pageOrder a ≤ pageOrder b)
    (fun a b : StoredEvent => pageOrder a ≤ pageOrder b) StoredEvent.content _
    (fun a _ b _ => Iff.rfl)).trans (congrArg _ ?_)
  rw [Table.select, Db.records, List.filter_map, List.filter_map, List.filter_filter]
  refine congrArg _ (List.filter_congr fun e _ => ?_)
  rw [behindCursor_eq]
  exact Bool.and_comm _ _

theorem nextCursor_advance (cursor : Option (ℚ × Key)) (rows : List StoredEvent) :
    (nextCursor cursor rows).map cursorKey =
      Keyset.advance pageOrder (cursor.map cursorKey) (rows.map StoredEvent.content) := by
  rw [nextCursor, Keyset.advance, List.getLast?_map]
  cases rows.getLast? with
  | none => rfl
  | some e => rfl

/-! ### Counts -/

/-- The record is of the kind. -/
def ofKind (kind : EventKind) (e : StoredEvent) : Bool := e.row.eventType = kind

theorem sum_ones (rows : List StoredEvent) :
    (rows.map (Prod.snd ∘ fun e => (e.row.eventType, 1))).sum = rows.length := by
  induction rows with
  | nil => rfl
  | cons e rows ih =>
    rw [List.map_cons, List.sum_cons, ih, List.length_cons]
    exact Nat.add_comm _ _

theorem get_tally (counts : List (EventKind × Nat)) (rows : List StoredEvent) (k : EventKind) :
    Tally.get (tally counts rows) k = Tally.get counts k + rows.countP (ofKind k) := by
  rw [tally, Tally.get_foldl_add, Tally.amount, List.filter_map, List.map_map,
    List.countP_eq_length_filter]
  rw [sum_ones]
  rfl

theorem sum_tally (counts : List (EventKind × Nat)) (rows : List StoredEvent) :
    ((tally counts rows).map Prod.snd).sum = (counts.map Prod.snd).sum + rows.length := by
  rw [tally, Tally.sum_foldl_add, List.map_map, sum_ones]

/-! ### What a checkpoint stands for -/

/-- The counts are those of the records. -/
structure Counts (counts : List (EventKind × Nat)) (rows : List StoredEvent) : Prop where
  kinds : ∀ k, Tally.get counts k = rows.countP (ofKind k)
  sum : (counts.map Prod.snd).sum = rows.length

theorem Counts.tally {counts : List (EventKind × Nat)} {counted : List StoredEvent}
    (h : Counts counts counted) (rows : List StoredEvent) :
    Counts (Store.tally counts rows) (counted ++ rows.map StoredEvent.content) where
  kinds k := by
    rw [get_tally, h.kinds, List.countP_append, List.countP_map]
    rfl
  sum := by rw [sum_tally, h.sum, List.length_append, List.length_map]

theorem Counts.perm {counts : List (EventKind × Nat)} {rows rows' : List StoredEvent}
    (h : Counts counts rows) (hperm : rows.Perm rows') : Counts counts rows' :=
  ⟨fun k => (h.kinds k).trans (hperm.countP_eq _), h.sum.trans hperm.length_eq⟩

/-- A checkpoint counts what has been read of the population, and the fence holds the population. -/
structure Tracks (db : Db) (work : Work) (origin : Origin) : Prop where
  fence : db.records.filter (fenced work) = origin.population
  read : Keyset.Read pageOrder origin.population (work.cursor.map cursorKey) origin.counted
  counts : Counts work.counts origin.counted

theorem records_keys_nodup (db : Db) : (db.records.map StoredEvent.key).Nodup := by
  rw [Db.records, List.map_map]
  exact db.events.nodup

variable {work : Work} {origin : Origin}

theorem Tracks.nodup {db : Db} (h : Tracks db work origin) :
    (origin.population.map pageOrder).Nodup := by
  have hkeys : (origin.population.map StoredEvent.key).Nodup := by
    rw [← h.fence]
    exact (records_keys_nodup db).sublist (List.filter_sublist.map _)
  rw [List.Nodup, List.pairwise_map] at hkeys ⊢
  refine hkeys.imp fun hne heq => hne ?_
  exact toLex.injective (congrArg (fun x => (ofLex x).2) heq)

/-- The page of a checkpoint, whenever it is read. -/
theorem Tracks.rows {db : Db} (h : Tracks db work origin) (batchSize : Nat) :
    (briefingRows db work batchSize).map StoredEvent.content =
      Keyset.page pageOrder origin.population (work.cursor.map cursorKey) batchSize := by
  rw [map_content_briefingRows, h.fence]

/-- A call that has read a page of its checkpoint. -/
structure Reading.Sound (db : Db) (r : Reading) : Prop where
  tracks : Tracks db r.work r.origin
  page : ∃ batchSize, r.rows.map StoredEvent.content =
    Keyset.page pageOrder r.origin.population (r.work.cursor.map cursorKey) batchSize ∧
    (r.more = true ↔ r.rows.length = batchSize)

/-- The history after the page. -/
def Reading.after (r : Reading) : Origin :=
  ⟨r.origin.population, r.origin.counted ++ r.rows.map StoredEvent.content⟩

variable {r : Reading}

theorem Reading.Sound.next {db : Db} (h : r.Sound db) :
    Tracks db (r.work.next r.rows) r.after where
  fence := h.tracks.fence
  read := by
    obtain ⟨batchSize, hpage, -⟩ := h.page
    have hread := h.tracks.read.page h.tracks.nodup batchSize
    rw [← hpage, ← nextCursor_advance] at hread
    exact hread
  counts := h.tracks.counts.tally r.rows

/-- **The last page completes the count.** -/
theorem Reading.Sound.report {db : Db} (h : r.Sound db) (hlast : r.more = false) :
    r.after.counted.Perm r.origin.population ∧
      Counts (r.work.report r.rows).eventTypes r.origin.population ∧
      (r.work.report r.rows).logCount = r.origin.population.length := by
  obtain ⟨batchSize, hpage, hmore⟩ := h.page
  have hshort : (Keyset.page pageOrder r.origin.population (r.work.cursor.map cursorKey)
      batchSize).length < batchSize := by
    have hle : (Keyset.page pageOrder r.origin.population (r.work.cursor.map cursorKey)
        batchSize).length ≤ batchSize := List.length_take_le _ _
    have hne : r.rows.length ≠ batchSize := fun heq => by
      rw [hmore.mpr heq] at hlast
      cases hlast
    have hlen := congrArg List.length hpage
    rw [List.length_map] at hlen
    omega
  have hperm : r.after.counted.Perm r.origin.population := by
    have hall := h.tracks.read.last h.tracks.nodup hshort
    rwa [← hpage] at hall
  have hcounts := (h.tracks.counts.tally r.rows).perm hperm
  exact ⟨hperm, hcounts, hcounts.sum⟩

/-! ### Runs -/

section

variable {W : Type} [DecidableEq W]

/-- The checkpoint is saved or held by a call in progress. -/
def InUse (s : Briefing W) (work : Work) : Prop :=
  s.work = some work ∨ ∃ w r, s.readers w = some r ∧ r.work = work

/-- The order of clocks and commits the fence needs: what is committed while a report is under way
was stamped after its cutoff, and what is committed when its first page is read was not. -/
def Undisturbed (lib : Library) (retentionDays : Nat) (s : Briefing W) : BriefingStep W → Prop
  | .ingest c => ∀ db r, ingest lib s.db c = .ok (db, r) → ∀ work, InUse s work →
      ∀ e ∈ db.records, e ∉ s.db.records → inDay work.day e = true → work.cutoff < c.now
  | .read _ now _ => s.work = none → ∀ work, startWork retentionDays now s.date = some work →
      ∀ e ∈ dayRecords s.db work.day, e.receivedAt ≤ work.cutoff
  | _ => True

/-- Everything in progress counts its population, and so does every report. -/
structure Steady (s : Briefing W) : Prop where
  saved : ∀ work, s.work = some work → Tracks s.db work s.origin
  held : ∀ w r, s.readers w = some r → r.Sound s.db
  reports : ∀ x ∈ s.reports, x.2.counted.Perm x.2.population ∧
    Counts x.1.eventTypes x.2.population ∧ x.1.logCount = x.2.population.length

omit [DecidableEq W] in
theorem steady_start (db : Db) (date : Option ℤ) : Steady (Briefing.start db date : Briefing W) where
  saved := fun _ h => by cases h
  held := fun _ _ h => by cases h
  reports := fun _ h => by cases h

/-- A batch outside the fence leaves a checkpoint alone. -/
theorem Tracks.adds {now : ℚ} {db db' : Db} {new : List StoredEvent} (hadds : Adds now db db' new)
    (h : Tracks db work origin) (hout : ∀ e ∈ new, inDay work.day e = true → work.cutoff < now) :
    Tracks db' work origin where
  fence := by
    have hnew : new.filter (fenced work) = [] := by
      rw [List.filter_eq_nil_iff]
      intro e he hin
      rw [fenced, Bool.and_eq_true, decide_eq_true_eq, hadds.clock e he] at hin
      exact absurd hin.2 (not_le_of_gt (hout e he hin.1))
    rw [hadds.records, List.filter_append, hnew, List.append_nil, h.fence]
  read := h.read
  counts := h.counts

theorem Adds.not_mem {now : ℚ} {db db' : Db} {new : List StoredEvent} (h : Adds now db db' new)
    {e : StoredEvent} (he : e ∈ new) : e ∈ db'.records ∧ e ∉ db.records := by
  refine ⟨by rw [h.records]; exact List.mem_append_right _ he, fun hold => ?_⟩
  have hnodup := records_keys_nodup db'
  rw [h.records, List.map_append, List.nodup_append] at hnodup
  exact hnodup.2.2 _ (List.mem_map_of_mem hold) _ (List.mem_map_of_mem he) rfl

variable {retentionDays : Nat}

/-- A new report has counted nothing. -/
theorem startWork_empty {now : ℚ} {last : Option ℤ}
    (h : startWork retentionDays now last = some work) : work.cursor = none ∧ work.counts = [] := by
  unfold startWork at h
  dsimp only at h
  generalize (match last with
    | some last => last + 1
    | none => dayOf now - 1) = day at h
  split at h
  · cases h
  · obtain rfl := Option.some.inj h
    exact ⟨rfl, rfl⟩

omit [DecidableEq W] in
/-- The page a call reads. -/
theorem sound_readPage {lib : Library} {s : Briefing W} (h : Steady s) {w : W} {now : ℚ}
    {batchSize : Nat} (hclean : Undisturbed lib retentionDays s (.read w now batchSize))
    (hread : readPage s.db s.work s.date s.origin retentionDays now batchSize = some r) :
    r.Sound s.db := by
  have htracks : ∀ work origin, Tracks s.db work origin →
      Reading.Sound s.db ⟨s.work, s.date, work, briefingRows s.db work batchSize,
        (briefingRows s.db work batchSize).length = batchSize, origin⟩ :=
    fun work origin ht => ⟨ht, batchSize, ht.rows batchSize, decide_eq_true_iff⟩
  unfold readPage at hread
  dsimp only at hread
  rw [Option.map_eq_some_iff] at hread
  obtain ⟨⟨work, origin⟩, hstart, rfl⟩ := hread
  refine htracks work origin ?_
  cases hwork : s.work with
  | some saved =>
    rw [hwork] at hstart
    obtain ⟨rfl, rfl⟩ := Prod.mk.inj (Option.some.inj hstart)
    exact h.saved saved hwork
  | none =>
    rw [hwork] at hstart
    obtain ⟨fresh, hfresh, heq⟩ := Option.map_eq_some_iff.mp hstart
    obtain ⟨rfl, rfl⟩ := Prod.mk.inj heq
    -- the first page: nothing is counted, and the fence holds the whole day
    have hpopulation : s.db.records.filter (fenced fresh) = dayRecords s.db fresh.day := by
      refine List.filter_congr fun e he => ?_
      rw [fenced]
      cases hday : inDay fresh.day e with
      | false => rfl
      | true =>
        have hin : e ∈ dayRecords s.db fresh.day := List.mem_filter.mpr ⟨he, hday⟩
        rw [decide_eq_true (hclean hwork fresh hfresh e hin)]
        rfl
    have hempty := startWork_empty hfresh
    refine ⟨hpopulation, ?_, ?_⟩
    · rw [hempty.1]
      exact Keyset.read_start
    · rw [hempty.2]
      exact ⟨fun _ => rfl, rfl⟩

/-- **One step.** -/
theorem Steady.next {lib : Library} {s : Briefing W} (h : Steady s) {a : BriefingStep W}
    (hclean : Undisturbed lib retentionDays s a) : Steady (nextBriefing lib retentionDays s a) := by
  have hreaders : ∀ (w : W) (held : Option Reading), (∀ r, held = some r → r.Sound s.db) →
      Steady { s with readers := Function.update s.readers w held } := by
    intro w held hheld
    refine ⟨h.saved, fun w' r hr => ?_, h.reports⟩
    dsimp only at hr ⊢
    by_cases hw : w' = w
    · subst hw
      rw [Function.update_self] at hr
      exact hheld r hr
    · rw [Function.update_of_ne hw] at hr
      exact h.held w' r hr
  cases a with
  | ingest c =>
    rw [nextBriefing]
    split
    · rename_i db r hok
      obtain ⟨new, hnew⟩ := adds_ingest hok
      have hout : ∀ work, InUse s work → ∀ e ∈ new, inDay work.day e = true →
          work.cutoff < c.now := fun work huse e he hday =>
        hclean db r hok work huse e (hnew.not_mem he).1 (hnew.not_mem he).2 hday
      refine ⟨fun work hwork => ?_, fun w r' hr' => ?_, h.reports⟩
      · exact (h.saved work hwork).adds hnew (hout work (.inl hwork))
      · obtain ⟨htracks, hpage⟩ := h.held w r' hr'
        exact ⟨htracks.adds hnew (hout r'.work (.inr ⟨w, r', hr', rfl⟩)), hpage⟩
    · exact h
  | read w now batchSize =>
    exact hreaders w _ fun r hr => sound_readPage h hclean hr
  | write w =>
    rw [nextBriefing]
    split
    · exact h
    · rename_i r hr
      have hsound := h.held w r hr
      have hdropped := hreaders w none (fun _ hnone => by cases hnone)
      rw [writePage]
      dsimp only
      split
      · exact hdropped
      · split
        · refine ⟨fun work hwork => ?_, hdropped.held, h.reports⟩
          obtain rfl := Option.some.inj hwork
          exact hsound.next
        · rename_i hlast
          refine ⟨fun work hwork => (by cases hwork), hdropped.held, fun x hx => ?_⟩
          rcases List.mem_append.mp hx with hx | hx
          · exact h.reports x hx
          · obtain rfl := List.mem_singleton.mp hx
            exact hsound.report (by simpa using hlast)
  | stop w => exact hreaders w none (fun _ hnone => by cases hnone)

/-- **The briefing counts the records that were committed when its first page was read**, each once,
in every run in which clocks and commits keep their order around the cutoff. -/
theorem briefing_counts_population (lib : Library) (retentionDays : Nat) (db : Db) (date : Option ℤ)
    (steps : List (BriefingStep W))
    (hclean : StepsSatisfy (nextBriefing lib retentionDays) (Undisturbed lib retentionDays)
      (Briefing.start db date) steps) :
    ∀ x ∈ (run (nextBriefing lib retentionDays) (Briefing.start db date) steps).reports,
      x.1.logCount = x.2.population.length ∧
      (∀ kind, Tally.get x.1.eventTypes kind = x.2.population.countP (ofKind kind)) ∧
      x.2.counted.Perm x.2.population := by
  have hsteady := run_invariant_of_steps (P := Steady) (fun s a hq hs => hs.next hq) hclean
    (steady_start db date)
  intro x hx
  obtain ⟨hperm, hcounts, hlog⟩ := hsteady.reports x hx
  exact ⟨hlog, hcounts.kinds, hperm⟩

end

/-! ### A slow commit -/

/-- A store with the failed login at twenty seconds. -/
def oneLogin : Db := (liveAfter tallyEnv [deliverLogins 'a' [2] 100]).db

/-- A batch that was stamped long before the cutoff. -/
def slowBatch : Call := ⟨['s'], ['h'], ['b'], [loginAt 1], none, 200, Nat.toDigits 10⟩

/-- The batch is committed between the first page and the second. -/
def slowCommit : List (BriefingStep Unit) :=
  [.read () 90000 1, .write (), .ingest slowBatch, .read () 90001 1, .write (), .read () 90002 1,
    .write ()]

/-- The report counts two records, one was there when its first page was read. -/
theorem slow_commit_counted :
    ((run (nextBriefing tallyEnv.lib 30) (Briefing.start oneLogin none) slowCommit).reports.map
      fun x => (x.1.logCount, x.2.population.length)) = [(2, 1)] := by
  decide +kernel

/-- A store with two failed logins. -/
def loginPair : Db := (liveAfter tallyEnv [deliverLogins 'a' [2, 3] 100]).db

/-- The same batch, stamped behind the cutoff. -/
def lateBatch : Call := { slowBatch with now := 90050 }

/-- It is committed between the pages of the report. -/
def lateCommit : List (BriefingStep Unit) :=
  [.read () 90000 1, .write (), .ingest lateBatch, .read () 90001 1, .write (), .read () 90002 1,
    .write ()]

/-- The two logins are counted, and the late one is not. -/
theorem late_commit_not_counted :
    ((run (nextBriefing tallyEnv.lib 30) (Briefing.start loginPair none) lateCommit).reports.map
      fun x => x.1.logCount) = [2] ∧
    ∀ x ∈ (run (nextBriefing tallyEnv.lib 30) (Briefing.start loginPair none) lateCommit).reports,
      x.1.logCount = x.2.population.length := by
  refine ⟨by decide +kernel, fun x hx => ?_⟩
  let after (n : Nat) : Briefing Unit :=
    run (nextBriefing tallyEnv.lib 30) (Briefing.start loginPair none) (lateCommit.take n)
  have hfirst : Undisturbed tallyEnv.lib 30 (after 0) (.read () 90000 1) := by
    intro _ work hwork
    have hstart : startWork 30 90000 none = some ⟨0, 90000, none, [], 0⟩ := by decide +kernel
    obtain rfl := Option.some.inj (hstart.symm.trans hwork)
    have hall : ∀ e ∈ dayRecords loginPair 0, e.receivedAt ≤ 90000 := by decide +kernel
    exact hall
  have hcommit : Undisturbed tallyEnv.lib 30 (after 2) (.ingest lateBatch) := by
    rintro - - - work (hwork | ⟨w, r, hr, -⟩) - - - -
    · have hcutoff : (after 2).work.map Work.cutoff = some 90000 := by decide +kernel
      rw [hwork] at hcutoff
      rw [Option.some.inj hcutoff]
      decide +kernel
    · have hnone : ((after 2).readers ()).isNone = true := by decide +kernel
      rw [hr] at hnone
      cases hnone
  have hsecond : Undisturbed tallyEnv.lib 30 (after 3) (.read () 90001 1) := fun hnone => by
    have hsome : (after 3).work.isSome = true := by decide +kernel
    rw [hnone] at hsome
    cases hsome
  have hthird : Undisturbed tallyEnv.lib 30 (after 5) (.read () 90002 1) := fun hnone => by
    have hsome : (after 5).work.isSome = true := by decide +kernel
    rw [hnone] at hsome
    cases hsome
  exact (briefing_counts_population tallyEnv.lib 30 loginPair none lateCommit
    ⟨hfirst, trivial, hcommit, hsecond, trivial, hthird, trivial, trivial⟩ x hx).1

end RiskOps.Telemetry.Store
