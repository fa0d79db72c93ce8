import RiskOps.Telemetry.CollectionSpec
import RiskOps.Telemetry.StoreExactlyOnce

/-!
# RiskOps.Telemetry.CollectionGaps — where a possible loss is recorded

`ingest` with the `record_batch` at its end. **A stretch that may be missing** lies between the
instant up to which a source had been collected and the window that a batch recovered. `reset`
compares the window with the last record of the source only: behind a source without a record it
writes that nothing is missing, whatever was collected before. Where there is a record, every such
stretch becomes a gap, and the notice is right.
-/

namespace RiskOps.Telemetry.Collection

open RiskOps.Lib

/-! ### Batches as they arrive -/

/-- A call of `ingest` with its reports. -/
structure Arrival where
  delivery : Store.Delivery
  reports : List Report

/-- The store with the tables of `collection`. `history` is what `record_batch` was called with so
far, the latest last. -/
structure Kept where
  live : Store.Live
  tables : Tables
  history : List Batch

/-- A new store. -/
def Kept.init : Kept := ⟨.init, .empty, []⟩

section

variable (minutes : ℚ → String) (env : Store.Env) (clock : List Char → ℚ)

/-- The arguments of `record_batch`; `clock` is what `_parse` reads in `collected_at`. -/
def batchOf (s : Store.Live) (a : Arrival) (records : List Store.Normalized) : Batch where
  sourceId := a.delivery.call.sourceId
  batchId := a.delivery.call.batchId
  receivedAt := a.delivery.call.now
  previous := s.db.sources.find? a.delivery.call.sourceId
  reports := a.reports
  recordTimes := records.map fun r => r.raw.timestamp
  collectedAt := (a.delivery.collectedAt.filter (· ≠ [])).map clock

/-- What a call records: nothing when it raises, or when its batch was committed before. -/
def recorded? (s : Store.Live) (a : Arrival) : Option Batch :=
  match Store.checkCall env.lib a.delivery.call, (Store.ingestLive env a.delivery s).1 with
  | .ok k, .ok response =>
    if response.replayedBatch then none else some (batchOf clock s a k.records)
  | _, _ => none

/-- `ingest` with its `record_batch`. -/
def Kept.ingest (k : Kept) (a : Arrival) : Kept :=
  let live := (Store.ingestLive env a.delivery k.live).2
  match recorded? env clock k.live a with
  | some b => ⟨live, recordBatch minutes k.tables b, k.history ++ [b]⟩
  | none => { k with live := live }

end

/-! ### What may be missing -/

/-- The last record among some batches. -/
def lastRecord (bs : List Batch) : Option ℚ := (bs.flatMap Batch.recordTimes).max?

/-- When a batch was collected. -/
def Batch.collected (b : Batch) : ℚ := b.collectedAt.getD b.receivedAt

/-- The instant up to which a source had been collected: its last record, or, without one, the time
of the latest batch that carried no failure code. -/
def collectedUpTo (bs : List Batch) : Option ℚ :=
  (lastRecord bs).or ((bs.filter fun b => b.failed = []).getLast?.map Batch.collected)

/-- A batch that says the collector started again from the recent window. -/
def Batch.Resets (b : Batch) (earlier : List Batch) : Prop :=
  "retention_gap" ∈ b.codes ∨ "coverage_start" ∈ b.codes ∧ earlier ≠ []

/-- The stretch from `u` to `w` lies inside an issue. -/
def Issue.Covers (i : Issue) (u w : ℚ) : Prop :=
  (∀ x ∈ i.startedAt, x ≤ u) ∧ ∃ y ∈ i.endedAt, w ≤ y

/-- The gaps, and the notices that nothing is missing. -/
def Issue.isLoss (i : Issue) : Bool :=
  decide (i.category = .gap) || decide (i.kind = "cursor_reset")

def losses (t : Tables) : List Issue := t.issues.filter Issue.isLoss

/-- **A possible loss is recorded**: behind `earlier` batches of its source, a batch wrote a gap
over what may be missing, and a notice only when the window reaches back far enough. -/
structure LossRecorded (earlier : List Batch) (b : Batch) (news : List Issue) : Prop where
  gap : b.Resets earlier → ∀ u ∈ collectedUpTo earlier, u < b.windowStart →
    ∃ i ∈ news, i.sourceId = b.sourceId ∧ i.category = .gap ∧ i.Covers u b.windowStart
  notice : ∀ i ∈ news, i.category = .notice → ∃ u ∈ collectedUpTo earlier, b.windowStart ≤ u

/-- **When it is**: the source has a record, or the window reaches back to its last clean batch, or
the coverage that begins does so behind the window. -/
def Judged (earlier : List Batch) (b : Batch) : Prop :=
  lastRecord earlier ≠ none ∨
    ("retention_gap" ∈ b.codes → ∃ u ∈ collectedUpTo earlier, b.windowStart ≤ u) ∧
    ("coverage_start" ∈ b.codes → earlier ≠ [] → ∀ u ∈ collectedUpTo earlier, u < b.windowStart →
      b.windowStart ≤ b.coverageStart)

/-! ### The rows one batch writes -/

/-- What an issue says of a loss. -/
structure Stretch where
  sourceId : List Char
  category : Category
  startedAt : Option ℚ
  endedAt : Option ℚ

def Issue.stretch (i : Issue) : Stretch := ⟨i.sourceId, i.category, i.startedAt, i.endedAt⟩

/-- What `reset` writes. -/
def Batch.resetStretch (b : Batch) : Stretch :=
  match b.lastEvent.filter fun last => last < b.windowStart with
  | some last => ⟨b.sourceId, .gap, some last, some b.windowStart⟩
  | none => ⟨b.sourceId, .notice, some b.windowStart, some b.receivedAt⟩

/-- What `record_batch` writes of a loss. -/
def Batch.stretches (b : Batch) : List Stretch :=
  (if "coverage_start" ∈ b.codes then
    if b.lastEvent.isNone then [⟨b.sourceId, .gap, none, some b.coverageStart⟩]
    else [b.resetStretch]
  else []) ++ if "retention_gap" ∈ b.codes then [b.resetStretch] else []

/-- Some losses are written, and nothing else changes about them. -/
def Adds (t t' : Tables) (news : List Stretch) : Prop :=
  ∃ rows, losses t' = losses t ++ rows ∧ rows.map Issue.stretch = news

theorem Adds.trans {t t' t'' : Tables} {xs ys : List Stretch} (h : Adds t t' xs)
    (h' : Adds t' t'' ys) : Adds t t'' (xs ++ ys) := by
  obtain ⟨rows, hrows, rfl⟩ := h
  obtain ⟨rows', hrows', rfl⟩ := h'
  exact ⟨rows ++ rows', by rw [hrows', hrows, List.append_assoc], List.map_append⟩

theorem adds_of_issues_eq {t t' : Tables} (h : t'.issues = t.issues) : Adds t t' [] :=
  ⟨[], by rw [losses, h, losses, List.append_nil], rfl⟩

section

variable {t : Tables} {sourceId batchId : List Char} {kind detail : String} {category : Category}
  {started ended : Option ℚ} {now : ℚ}

theorem adds_insertIssue_loss (h : category = .gap ∨ kind = "cursor_reset") :
    Adds t (insertIssue t sourceId kind category started ended detail batchId now)
      [⟨sourceId, category, started, ended⟩] := by
  refine ⟨[⟨t.issues.length + 1, sourceId, kind, category, started, ended, detail, batchId, batchId,
    1, now, now⟩], ?_, rfl⟩
  rw [losses, insertIssue, List.filter_append, List.filter_cons_of_pos, List.filter_nil, losses]
  rw [Issue.isLoss, Bool.or_eq_true, decide_eq_true_eq, decide_eq_true_eq]
  exact h

theorem adds_insertIssue_other (hgap : category ≠ .gap) (hkind : kind ≠ "cursor_reset") :
    Adds t (insertIssue t sourceId kind category started ended detail batchId now) [] := by
  refine ⟨[], ?_, rfl⟩
  rw [losses, insertIssue, List.filter_append, List.filter_cons_of_neg, List.filter_nil, losses]
  rw [Issue.isLoss, Bool.or_eq_true, decide_eq_true_eq, decide_eq_true_eq]
  exact not_or.mpr ⟨hgap, hkind⟩

/-- An update that leaves the losses alone. -/
theorem losses_map {issues : List Issue} {f : Issue → Issue}
    (h : ∀ i ∈ issues, f i = i ∨ i.isLoss = false ∧ (f i).isLoss = false) :
    (issues.map f).filter Issue.isLoss = issues.filter Issue.isLoss := by
  induction issues with
  | nil => rfl
  | cons i issues ih =>
    have hrest := ih fun j hj => h j (List.mem_cons_of_mem _ hj)
    rw [List.map_cons, List.filter_cons, List.filter_cons, hrest]
    rcases h i List.mem_cons_self with heq | ⟨hold, hnew⟩
    · rw [heq]
    · rw [hold, hnew]
      rfl

/-- An open delay is no loss. -/
theorem isLoss_of_isOpen (hgaps : GapsClosed t) (hkind : kind ≠ "cursor_reset") {i : Issue}
    (hi : i ∈ t.issues) (hopen : i.isOpen sourceId kind = true) : i.isLoss = false := by
  obtain ⟨-, hk, hended⟩ := Issue.isOpen_iff.mp hopen
  rw [Issue.isLoss, Bool.or_eq_false_iff, decide_eq_false_iff_not, decide_eq_false_iff_not]
  exact ⟨fun hgap => hgaps i hi hgap hended, fun h => hkind (hk.symm.trans h)⟩

theorem adds_openIssue (hn : Numbered t) (hgaps : GapsClosed t) (hkind : kind ≠ "cursor_reset") :
    Adds t (openIssue t sourceId kind detail batchId now) [] := by
  unfold openIssue
  split
  · exact adds_insertIssue_other (fun h => nomatch h) hkind
  · rename_i row hrow
    obtain ⟨hmem, hopen⟩ := mem_of_open hrow
    have hrowLoss := isLoss_of_isOpen hgaps hkind hmem hopen
    refine ⟨[], ?_, rfl⟩
    rw [List.append_nil]
    refine losses_map fun i hi => ?_
    split
    · rename_i hid
      obtain rfl := hn.eq_of_id hi hmem hid
      exact .inr ⟨hrowLoss, hrowLoss⟩
    · exact .inl rfl

theorem adds_closeIssue (hgaps : GapsClosed t) (hkind : kind ≠ "cursor_reset") :
    Adds t (closeIssue t sourceId kind now) [] := by
  refine ⟨[], ?_, rfl⟩
  rw [List.append_nil]
  refine losses_map fun i hi => ?_
  split
  · rename_i hopen
    have hloss := isLoss_of_isOpen hgaps hkind hi hopen
    exact .inr ⟨hloss, hloss⟩
  · exact .inl rfl

end

section

variable {minutes : ℚ → String} (t : Tables) (b : Batch)

theorem adds_recordSilence : Adds t (recordSilence minutes t b) [] := by
  unfold recordSilence
  split
  · exact adds_of_issues_eq rfl
  · dsimp only
    split
    · exact adds_insertIssue_other (fun h => nomatch h) (by decide)
    · exact adds_of_issues_eq rfl

/-- `reset` writes one row. -/
theorem adds_reset {kind : String} (why : String) :
    Adds t (reset t b kind why) [b.resetStretch] := by
  cases hlast : b.lastEvent.filter fun last => last < b.windowStart with
  | some last =>
    rw [reset, hlast, Batch.resetStretch, hlast]
    exact adds_insertIssue_loss (.inl rfl)
  | none =>
    rw [reset, hlast, Batch.resetStretch, hlast]
    exact adds_insertIssue_loss (.inr rfl)

theorem adds_recordCoverage : Adds t (recordCoverage t b)
    (if "coverage_start" ∈ b.codes then
      if b.lastEvent.isNone then [⟨b.sourceId, .gap, none, some b.coverageStart⟩]
      else [b.resetStretch]
    else []) := by
  unfold recordCoverage
  by_cases hcode : "coverage_start" ∈ b.codes
  · rw [if_neg (not_not_intro hcode), if_pos hcode]
    split
    · exact (adds_insertIssue_loss (.inl rfl)).trans (adds_of_issues_eq rfl)
    · exact adds_reset t b _
  · rw [if_pos hcode, if_neg hcode]
    exact adds_of_issues_eq rfl

theorem adds_recordRetention : Adds t (recordRetention t b)
    (if "retention_gap" ∈ b.codes then [b.resetStretch] else []) := by
  unfold recordRetention
  split
  · exact adds_reset t b _
  · exact adds_of_issues_eq rfl

theorem adds_recordResets : Adds t (recordResets minutes t b) b.stretches :=
  (((adds_of_issues_eq (issues_track t b)).trans (adds_recordSilence _ b)).trans
    (adds_recordCoverage _ b)).trans (adds_recordRetention _ b)

theorem adds_recordRest : Adds t (recordRest minutes t b) [] := by
  have hdelivery : Adds t (recordDelivery minutes t b) [] := by
    unfold recordDelivery
    split
    · exact adds_of_issues_eq rfl
    · split
      · exact adds_insertIssue_other (fun h => nomatch h) (by decide)
      · exact adds_of_issues_eq rfl
  have htruncation : ∀ t, Adds t (recordTruncation t b) [] := fun t => by
    unfold recordTruncation
    split
    · exact adds_insertIssue_other (fun h => nomatch h) (by decide)
    · exact adds_of_issues_eq rfl
  exact (hdelivery.trans (htruncation _)).trans (adds_of_issues_eq rfl)

theorem adds_recordFailure (hn : Numbered t) (hgaps : GapsClosed t) :
    Adds t (recordFailure t b) [] := by
  unfold recordFailure
  split
  · exact adds_openIssue hn hgaps (by decide)
  · exact adds_closeIssue hgaps (by decide)

theorem adds_recordBacklog (hn : Numbered t) (hgaps : GapsClosed t) :
    Adds t (recordBacklog t b) [] := by
  unfold recordBacklog
  split
  · exact adds_openIssue hn hgaps (by decide)
  · split
    · exact adds_closeIssue hgaps (by decide)
    · exact adds_of_issues_eq rfl

/-- **What one batch writes of a loss.** -/
theorem adds_recordBatch (hn : Numbered t) (hgaps : GapsClosed t) :
    Adds t (recordBatch minutes t b) b.stretches := by
  have hkeeps : Keeps t (recordResets minutes t b) := (quiet_recordResets t b).keeps
  have hkeeps' := hkeeps.trans (keeps_recordFailure _ b)
  rw [recordBatch_eq]
  have hfailure := adds_recordFailure _ b (hkeeps.numbered hn) (hkeeps.gaps hgaps)
  have hbacklog := adds_recordBacklog _ b (hkeeps'.numbered hn) (hkeeps'.gaps hgaps)
  have hadds : Adds t (recordRest minutes _ b) _ :=
    (((adds_recordResets t b).trans hfailure).trans hbacklog).trans (adds_recordRest _ b)
  simpa only [List.append_nil] using hadds

end

/-! ### When it is right -/

theorem mem_resetStretch {b : Batch} {last : ℚ} (h : b.lastEvent = some last) :
    b.resetStretch = if last < b.windowStart then ⟨b.sourceId, .gap, some last, some b.windowStart⟩
      else ⟨b.sourceId, .notice, some b.windowStart, some b.receivedAt⟩ := by
  rw [Batch.resetStretch, h, Option.filter_some]
  by_cases hlt : last < b.windowStart
  · rw [if_pos (by simpa using hlt), if_pos hlt]
  · rw [if_neg (by simpa using hlt), if_neg hlt]

theorem resetStretch_of_none {b : Batch} (h : b.lastEvent = none) :
    b.resetStretch = ⟨b.sourceId, .notice, some b.windowStart, some b.receivedAt⟩ := by
  rw [Batch.resetStretch, h]
  rfl

/-- **The losses of one batch are right exactly when it is judged by what was collected.** -/
theorem lossRecorded_iff {earlier : List Batch} {b : Batch} {rows : List Issue}
    (hlast : b.lastEvent = lastRecord earlier) (hrows : rows.map Issue.stretch = b.stretches) :
    LossRecorded earlier b rows ↔ Judged earlier b := by
  have hmem : ∀ x, x ∈ b.stretches ↔ ∃ i ∈ rows, i.stretch = x := fun x => by
    rw [← hrows, List.mem_map]
  cases hrecord : lastRecord earlier with
  | some last =>
    rw [hrecord] at hlast
    have hreset := mem_resetStretch hlast
    have hupTo : collectedUpTo earlier = some last := by
      rw [collectedUpTo, hrecord, Option.some_or]
    refine ⟨fun _ => .inl (by rw [hrecord]; exact Option.some_ne_none _), fun _ => ⟨?_, ?_⟩⟩
    · intro hresets u hu hlt
      rw [hupTo] at hu
      obtain rfl := Option.some.inj hu
      rw [if_pos hlt] at hreset
      have hwritten : b.resetStretch ∈ b.stretches := by
        rw [Batch.stretches, List.mem_append]
        rcases hresets with hcode | ⟨hcode, -⟩
        · exact .inr (by rw [if_pos hcode]; exact List.mem_singleton_self _)
        · exact .inl (by rw [if_pos hcode, hlast]; exact List.mem_singleton_self _)
      obtain ⟨i, hi, hstretch⟩ := (hmem _).mp hwritten
      rw [hreset] at hstretch
      obtain ⟨hsource, hcategory, hstarted, hended⟩ := Stretch.mk.inj hstretch
      refine ⟨i, hi, hsource, hcategory, fun x hx => ?_, b.windowStart, hended, le_refl _⟩
      rw [hstarted] at hx
      exact (Option.some.inj hx).symm.le
    · intro i hi hnotice
      refine ⟨last, hupTo, not_lt.mp fun hlt => ?_⟩
      rw [if_pos hlt] at hreset
      have hin : i.stretch ∈ b.stretches := (hmem _).mpr ⟨i, hi, rfl⟩
      rw [Batch.stretches, hlast, Option.isNone_some, if_neg Bool.false_ne_true, hreset] at hin
      have hgap : i.stretch.category = .gap := by
        rcases List.mem_append.mp hin with hin | hin
        · split at hin
          · rw [List.mem_singleton.mp hin]
          · exact nomatch hin
        · split at hin
          · rw [List.mem_singleton.mp hin]
          · exact nomatch hin
      rw [show i.stretch.category = i.category from rfl, hnotice] at hgap
      exact nomatch hgap
  | none =>
    rw [hrecord] at hlast
    have hreset := resetStretch_of_none hlast
    have hstretches : b.stretches =
        (if "coverage_start" ∈ b.codes then [⟨b.sourceId, .gap, none, some b.coverageStart⟩]
          else []) ++
        if "retention_gap" ∈ b.codes then [b.resetStretch] else [] := by
      rw [Batch.stretches, hlast, Option.isNone_none, if_pos rfl]
    rw [Judged, or_iff_right (not_not_intro hrecord)]
    constructor
    · intro h
      refine ⟨fun hcode => ?_, fun hcode hne u hu hlt => ?_⟩
      · have hwritten : b.resetStretch ∈ b.stretches := by
          rw [hstretches, if_pos hcode]
          exact List.mem_append_right _ (List.mem_singleton_self _)
        obtain ⟨i, hi, hstretch⟩ := (hmem _).mp hwritten
        rw [hreset] at hstretch
        exact h.notice i hi (Stretch.mk.inj hstretch).2.1
      · obtain ⟨i, hi, -, hgap, -, y, hy, hle⟩ := h.gap (.inr ⟨hcode, hne⟩) u hu hlt
        have hin : i.stretch ∈ b.stretches := (hmem _).mpr ⟨i, hi, rfl⟩
        rw [hstretches, List.mem_append, if_pos hcode] at hin
        rcases hin with hin | hin
        · obtain ⟨-, -, -, hended⟩ := Stretch.mk.inj (List.mem_singleton.mp hin)
          rw [hended] at hy
          rw [Option.some.inj hy]
          exact hle
        · split at hin
          · rw [hreset] at hin
            obtain ⟨-, hcategory, -⟩ := Stretch.mk.inj (List.mem_singleton.mp hin)
            exact nomatch hgap.symm.trans hcategory
          · exact nomatch hin
    · intro ⟨hretention, hcoverage⟩
      refine ⟨fun hresets u hu hlt => ?_, fun i hi hnotice => ?_⟩
      · rcases hresets with hcode | ⟨hcode, hne⟩
        · obtain ⟨u', hu', hle⟩ := hretention hcode
          rw [Option.mem_unique hu hu'] at hlt
          exact absurd hle (not_le.mpr hlt)
        · have hwritten :
              Stretch.mk b.sourceId .gap none (some b.coverageStart) ∈ b.stretches := by
            rw [hstretches, if_pos hcode]
            exact List.mem_append_left _ (List.mem_singleton_self _)
          obtain ⟨i, hi, hstretch⟩ := (hmem _).mp hwritten
          obtain ⟨hsource, hcategory, hstarted, hended⟩ := Stretch.mk.inj hstretch
          refine ⟨i, hi, hsource, hcategory, fun x hx => ?_, b.coverageStart, hended,
            hcoverage hcode hne u hu hlt⟩
          rw [hstarted] at hx
          exact nomatch hx
      · have hin : i.stretch ∈ b.stretches := (hmem _).mpr ⟨i, hi, rfl⟩
        rw [hstretches, List.mem_append] at hin
        rcases hin with hin | hin
        · split at hin
          · obtain ⟨-, hcategory, -⟩ := Stretch.mk.inj (List.mem_singleton.mp hin)
            exact nomatch hnotice.symm.trans hcategory
          · exact nomatch hin
        · split at hin
          · rename_i hcode
            exact hretention hcode
          · exact nomatch hin

/-! ### What the store knows of a source -/

/-- The last record the store has of a source. -/
def lastEventOf (db : Store.Db) (s : List Char) : Option ℚ :=
  (db.sources.find? s).bind Store.Source.lastEventAt

theorem laterOf_none (known : Option ℚ) : Store.laterOf known none = known := by
  cases known <;> rfl

theorem laterOf_some (known latest : ℚ) :
    Store.laterOf (some known) (some latest) = some (max known latest) := by
  unfold Store.laterOf
  dsimp only
  split
  · rename_i hlt
    rw [max_eq_right hlt.le]
  · rename_i hle
    rw [max_eq_left (not_lt.mp hle)]

theorem max?_append (xs ys : List ℚ) : (xs ++ ys).max? = Store.laterOf xs.max? ys.max? := by
  induction xs with
  | nil =>
    rw [List.nil_append]
    cases ys.max? <;> rfl
  | cons x xs ih =>
    rw [List.cons_append, List.max?_cons, List.max?_cons, ih]
    cases xs.max? with
    | none =>
      cases ys.max? with
      | none => rfl
      | some y => exact (laterOf_some x y).symm
    | some m =>
      cases ys.max? with
      | none => rfl
      | some y =>
        rw [laterOf_some, Option.elim_some, Option.elim_some, laterOf_some, max_assoc]

theorem lastRecord_append (bs bs' : List Batch) :
    lastRecord (bs ++ bs') = Store.laterOf (lastRecord bs) (lastRecord bs') := by
  rw [lastRecord, List.flatMap_append, max?_append, lastRecord, lastRecord]

/-- A database whose row of a source was touched and counted. -/
def Recounted (db db' : Store.Db) (c : Store.Call) (latest : Option ℚ) : Prop :=
  ∃ error accepted duplicates, db'.sources =
    (Store.countSource (Store.touchSource db c error) c.sourceId accepted duplicates latest).sources

section

variable {db db' : Store.Db} {c : Store.Call} {latest : Option ℚ}

theorem find?_touched (db : Store.Db) (c : Store.Call) (error : Option (List Char))
    (s : List Char) :
    lastEventOf (Store.touchSource db c error) s = lastEventOf db s ∧
      (((Store.touchSource db c error).sources.find? s).isSome ↔
        s = c.sourceId ∨ (db.sources.find? s).isSome) := by
  rw [lastEventOf, lastEventOf, Store.touchSource, Table.find?_replace]
  cases hfind : db.sources.find? c.sourceId with
  | none =>
    by_cases hs : c.sourceId = s
    · rw [← hs, if_pos rfl, hfind]
      exact ⟨rfl, by simp⟩
    · rw [if_neg hs]
      exact ⟨rfl, by simp [Ne.symm hs]⟩
  | some x =>
    have hx : x.sourceId = c.sourceId := Table.find?_key hfind
    by_cases hs : c.sourceId = s
    · rw [← hs, if_pos hx, hfind]
      exact ⟨rfl, by simp⟩
    · dsimp only
      rw [if_neg (by rw [hx]; exact hs)]
      exact ⟨rfl, by simp [Ne.symm hs]⟩

/-- **What a call leaves of a source.** -/
theorem Recounted.source (h : Recounted db db' c latest) (s : List Char) :
    lastEventOf db' s = (if s = c.sourceId then Store.laterOf (lastEventOf db s) latest
      else lastEventOf db s) ∧
      ((db'.sources.find? s).isSome ↔ s = c.sourceId ∨ (db.sources.find? s).isSome) := by
  obtain ⟨error, accepted, duplicates, hsources⟩ := h
  obtain ⟨hlast, hsome⟩ := find?_touched db c error s
  rw [lastEventOf, hsources, Store.countSource, Table.find?_update, Option.isSome_map]
  refine ⟨?_, hsome⟩
  rw [← hlast, lastEventOf]
  cases hfind : (Store.touchSource db c error).sources.find? s with
  | none =>
    have hne : s ≠ c.sourceId := fun hs => by
      rw [hfind] at hsome
      cases hsome.mpr (.inl hs)
    rw [if_neg hne]
    rfl
  | some x =>
    rw [Option.map_some, Option.bind_some, Option.bind_some, Table.find?_key hfind]
    split <;> rfl

theorem recounted_commit {k : Store.Checked} {r : Store.Response}
    (h : Store.commitBatch db c k = .ok (db', r)) :
    Recounted db db' c (k.records.map fun r => r.raw.timestamp).max? := by
  obtain ⟨st, db₁, changed, batches, hloop, hdetect, -, rfl, -⟩ := Store.commitBatch_eq_ok.mp h
  refine ⟨k.error, st.accepted, st.duplicates, ?_⟩
  have hsources : ((Store.batchIds db₁ changed).foldl Store.refreshIncident db₁).sources =
      (Store.touchSource db c k.error).sources :=
    ((Store.refreshAll_tables db₁ _).1.trans (Store.detectAdvanced_tables hdetect).1).trans
      (Store.ingestRecords_tables hloop).1
  dsimp only
  rw [Store.countedBatch, Store.countSource, Store.countSource]
  dsimp only
  rw [hsources]

theorem recounted_replay (k : Store.Checked) (batch : Store.Batch) :
    Recounted db (Store.replayBatch db c k batch).1 c none :=
  ⟨k.error, 0, c.records.length, rfl⟩

end

/-! ### Runs -/

section

variable (minutes : ℚ → String) (env : Store.Env) (clock : List Char → ℚ)

/-- What a call does to the sources and the batches, and what it records. -/
theorem ingest_cases (s : Store.Live) (a : Arrival) :
    let s' := (Store.ingestLive env a.delivery s).2
    recorded? env clock s a = none ∧
        (s' = s ∨ (∃ x ∈ s.db.batches, x.sourceId = a.delivery.call.sourceId) ∧
          Recounted s.db s'.db a.delivery.call none ∧ s'.db.batches = s.db.batches) ∨
      ∃ k : Store.Checked, recorded? env clock s a = some (batchOf clock s a k.records) ∧
        Recounted s.db s'.db a.delivery.call (k.records.map fun r => r.raw.timestamp).max? ∧
        ∀ x ∈ s'.db.batches, x ∈ s.db.batches ∨ x.sourceId = a.delivery.call.sourceId := by
  intro s'
  obtain ⟨result, hs'⟩ : ∃ result, Store.ingestLive env a.delivery s = (result, s') := ⟨_, rfl⟩
  cases result with
  | error e =>
    refine .inl ⟨?_, .inl (Store.ingestLive_error hs')⟩
    rw [recorded?, hs']
    cases Store.checkCall env.lib a.delivery.call <;> rfl
  | ok r =>
    obtain ⟨k, hk, ⟨batch, hreplays, rfl, hlive⟩ | ⟨-, -, hnew, db, hcommit, hlive⟩⟩ :=
      Store.ingestLive_cases hs'
    · have hkey : batch.key = _ := Table.find?_key hreplays.1
      have hmem := Table.mem_of_find? hreplays.1
      refine .inl ⟨?_, .inr ⟨⟨batch, hmem, (Prod.mk.inj hkey).1⟩, ?_, ?_⟩⟩
      · rw [recorded?, hs', hk]
        rfl
      · rw [hlive]
        exact recounted_replay k batch
      · rw [hlive]
        rfl
    · have htables := Store.dailyCleanup_tables env a.delivery.call.now { s with db := db }
      refine .inr ⟨k, ?_, ?_, fun x hx => ?_⟩
      · rw [recorded?, hs', hk]
        exact if_neg (by rw [hnew]; exact Bool.false_ne_true)
      · obtain ⟨error, accepted, duplicates, hsources⟩ := recounted_commit hcommit
        refine ⟨error, accepted, duplicates, ?_⟩
        rw [hlive]
        exact htables.1.trans hsources
      · rw [hlive, htables.2.1] at hx
        rcases (Table.mem_of_insert (Store.batches_commitBatch hcommit)).mp hx with hold | rfl
        · exact .inl hold
        · exact .inr rfl

/-- The store knows of a source what the recorded batches say. -/
structure Traced (k : Kept) : Prop where
  events : ∀ s, lastEventOf k.live.db s = lastRecord (ofSource s k.history)
  known : ∀ s, (k.live.db.sources.find? s).isSome ↔ ofSource s k.history ≠ []
  batches : ∀ x ∈ k.live.db.batches, ofSource x.sourceId k.history ≠ []
  tables : k.tables = recordAll minutes .empty k.history

theorem traced_init : Traced minutes .init where
  events := fun _ => rfl
  known := fun _ => ⟨fun h => (nomatch h), fun h => absurd rfl h⟩
  batches := fun _ hx => nomatch hx
  tables := rfl

theorem ofSource_append (s : List Char) (bs : List Batch) (b : Batch) :
    ofSource s (bs ++ [b]) = if b.sourceId = s then ofSource s bs ++ [b] else ofSource s bs := by
  rw [ofSource, List.filter_append, ← ofSource]
  split
  · rename_i hs
    rw [List.filter_cons_of_pos (by simpa using hs), List.filter_nil]
  · rename_i hs
    rw [List.filter_cons_of_neg (by simpa using hs), List.filter_nil, List.append_nil]

variable {minutes env clock}

/-- **One call.** -/
theorem Traced.ingest {k : Kept} (h : Traced minutes k) (a : Arrival) :
    Traced minutes (k.ingest minutes env clock a) := by
  obtain ⟨hnone, hlive⟩ | ⟨checked, hrecorded, hcounted, hbatches⟩ :=
    ingest_cases env clock k.live a
  · have heq : k.ingest minutes env clock a =
        { k with live := (Store.ingestLive env a.delivery k.live).2 } := by
      rw [Kept.ingest, hnone]
    rw [heq]
    obtain hsame | ⟨⟨x, hx, hsource⟩, hcounted, hbatches⟩ := hlive
    · rw [hsame]
      exact h
    · have hknown : ofSource a.delivery.call.sourceId k.history ≠ [] := hsource ▸ h.batches x hx
      refine ⟨fun s => ?_, fun s => ?_, fun y hy => ?_, h.tables⟩
      · rw [(hcounted.source s).1, laterOf_none, ite_self]
        exact h.events s
      · rw [(hcounted.source s).2, h.known]
        exact ⟨fun hs => hs.elim (fun hs => hs ▸ hknown) id, .inr⟩
      · rw [hbatches] at hy
        exact h.batches y hy
  · have heq : k.ingest minutes env clock a = ⟨(Store.ingestLive env a.delivery k.live).2,
        recordBatch minutes k.tables (batchOf clock k.live a checked.records),
        k.history ++ [batchOf clock k.live a checked.records]⟩ := by
      rw [Kept.ingest, hrecorded]
    have hof := fun s => ofSource_append s k.history (batchOf clock k.live a checked.records)
    have hsource : (batchOf clock k.live a checked.records).sourceId =
        a.delivery.call.sourceId := rfl
    have hne : ∀ s, ofSource s (k.history ++ [batchOf clock k.live a checked.records]) ≠ [] ↔
        s = a.delivery.call.sourceId ∨ ofSource s k.history ≠ [] := fun s => by
      rw [hof, hsource]
      split
      · rename_i hs
        exact ⟨fun _ => .inl hs.symm,
          fun _ => List.append_ne_nil_of_right_ne_nil _ (List.cons_ne_nil _ _)⟩
      · rename_i hs
        exact ⟨.inr, fun h => h.resolve_left (Ne.symm hs)⟩
    rw [heq]
    refine ⟨fun s => ?_, fun s => ?_, fun x hx => ?_, ?_⟩
    · rw [(hcounted.source s).1, h.events, hof, hsource]
      by_cases hs : s = a.delivery.call.sourceId
      · rw [if_pos hs, if_pos hs.symm, lastRecord_append]
        refine congrArg _ ?_
        rw [lastRecord, List.flatMap_singleton, batchOf]
      · rw [if_neg hs, if_neg (Ne.symm hs)]
    · rw [(hcounted.source s).2, h.known, hne]
    · refine (hne _).mpr ?_
      exact (hbatches x hx).elim (fun hold => .inr (h.batches x hold)) .inl
    · rw [h.tables, recordAll, recordAll, List.foldl_append]
      rfl

end

/-! ### Every possible loss -/

/-- The gaps and reset notices that are new. -/
def newLosses (t t' : Tables) : List Issue := (losses t').drop (losses t).length

section

variable (minutes : ℚ → String) (env : Store.Env) (clock : List Char → ℚ)

/-- A call that records a batch records what may be missing behind it. -/
def StepRecorded (k : Kept) (a : Arrival) : Prop :=
  ∀ b ∈ recorded? env clock k.live a,
    LossRecorded (ofSource b.sourceId k.history) b
      (newLosses k.tables (k.ingest minutes env clock a).tables)

/-- Its batch is judged by what was collected. -/
def StepJudged (k : Kept) (a : Arrival) : Prop :=
  ∀ b ∈ recorded? env clock k.live a, Judged (ofSource b.sourceId k.history) b

variable {minutes env clock}

theorem Traced.sane {k : Kept} (h : Traced minutes k) :
    Numbered k.tables ∧ GapsClosed k.tables := by
  have hkeeps : Keeps .empty k.tables := h.tables ▸ keeps_recordAll minutes .empty k.history
  exact ⟨hkeeps.numbered numbered_empty, hkeeps.gaps fun _ hi => nomatch hi⟩

theorem Traced.lastEvent {k : Kept} (h : Traced minutes k) {a : Arrival} {b : Batch}
    (hb : b ∈ recorded? env clock k.live a) :
    b.lastEvent = lastRecord (ofSource b.sourceId k.history) := by
  obtain ⟨hnone, -⟩ | ⟨checked, hrecorded, -⟩ := ingest_cases env clock k.live a
  · rw [hnone] at hb
    exact nomatch hb
  · obtain rfl : _ = b := Option.some.inj (hrecorded.symm.trans hb)
    exact h.events _

/-- **One call is right exactly when it is judged.** -/
theorem Traced.stepRecorded_iff {k : Kept} (h : Traced minutes k) (a : Arrival) :
    StepRecorded minutes env clock k a ↔ StepJudged env clock k a := by
  refine forall_congr' fun b => forall_congr' fun hb => ?_
  have htables : (k.ingest minutes env clock a).tables = recordBatch minutes k.tables b := by
    rw [Kept.ingest, Option.mem_def.mp hb]
  obtain ⟨hnumbered, hgaps⟩ := h.sane
  obtain ⟨rows, hlosses, hrows⟩ : Adds k.tables (recordBatch minutes k.tables b) b.stretches :=
    adds_recordBatch k.tables b hnumbered hgaps
  rw [newLosses, htables, hlosses, List.drop_left]
  exact lossRecorded_iff (h.lastEvent hb) hrows

theorem Kept.ingest_keeps (k : Kept) (a : Arrival) :
    Keeps k.tables (k.ingest minutes env clock a).tables := by
  rw [Kept.ingest]
  split
  · exact keeps_recordBatch k.tables _
  · exact Keeps.refl _

end

/-- **Every possible loss is recorded, where the last record decides.** A run of calls writes a gap
over every stretch that may be missing, and says only where it is true that nothing is, exactly when
each of its batches is judged by what had been collected. Gaps stay as they are in every run. -/
theorem possible_losses_recorded (minutes : ℚ → String) (env : Store.Env) (clock : List Char → ℚ)
    (arrivals : List Arrival) :
    let next := Kept.ingest minutes env clock
    (StepsSatisfy next (StepRecorded minutes env clock) .init arrivals ↔
      StepsSatisfy next (StepJudged env clock) .init arrivals) ∧
    ∀ later, ∀ i ∈ (run next .init arrivals).tables.issues, i.category = .gap →
      i ∈ (run next .init (arrivals ++ later)).tables.issues := by
  intro next
  have htraced : ∀ as, Traced minutes (run next .init as) := fun as =>
    run_preserves (fun k a h => h.ingest a) (traced_init minutes)
  refine ⟨stepsSatisfy_congr (fun k a _ h => h.ingest a) (fun k a h => h.stepRecorded_iff a)
    (traced_init minutes), fun later i hi hgap => ?_⟩
  obtain ⟨hnumbered, hgaps⟩ := (htraced arrivals).sane
  have hkeeps : Keeps (run next .init arrivals).tables
      (run next (run next .init arrivals) later).tables :=
    run_preserves (P := fun k : Kept => Keeps (run next .init arrivals).tables k.tables)
      (fun k a h => h.trans (k.ingest_keeps a)) (Keeps.refl _)
  rw [run_append]
  exact hkeeps.ended hnumbered i hi (hgaps i hi hgap)

/-! ### A hole behind a source without a record -/

/-- A collector that can read nothing: no record is recent enough to matter. -/
def quietEnv : Store.Env := ⟨⟨fun _ => false, fun _ => false, fun _ => none⟩, 30, fun _ => true⟩

/-- A batch without records, `now` seconds after the epoch. -/
def heartbeat (batchId : Char) (now : ℚ) (reports : List Report) : Arrival :=
  ⟨⟨⟨['e', 'd', 'g', 'e'], ['e', 'd', 'g', 'e'], [batchId], [], none, now, fun _ => []⟩, none⟩,
    reports⟩

/-- A clean batch, and one behind a cursor that the journal dropped three hours later. -/
def rotated : List Arrival :=
  [heartbeat 'a' 1000 [], heartbeat 'b' 11800 [⟨"retention_gap", ""⟩]]

/-- The journal lost almost three hours, and the notice says that nothing is missing. -/
theorem rotated_not_recorded :
    ¬ StepsSatisfy (Kept.ingest (fun _ => "") quietEnv fun _ => 0)
      (StepRecorded (fun _ => "") quietEnv fun _ => 0) .init rotated := by
  intro ⟨_, hsecond, _⟩
  have htraced : Traced (fun _ => "") (Kept.init.ingest (fun _ => "") quietEnv (fun _ => 0)
      (heartbeat 'a' 1000 [])) := (traced_init _).ingest _
  have hjudged := (htraced.stepRecorded_iff _).mp hsecond
  have hb : recorded? quietEnv (fun _ => 0) (Kept.init.ingest (fun _ => "") quietEnv (fun _ => 0)
      (heartbeat 'a' 1000 [])).live (heartbeat 'b' 11800 [⟨"retention_gap", ""⟩]) = some _ := rfl
  have hupTo : collectedUpTo (ofSource ['e', 'd', 'g', 'e'] (Kept.init.ingest (fun _ => "") quietEnv
      (fun _ => 0) (heartbeat 'a' 1000 [])).history) = some 1000 := rfl
  have hlast : lastRecord (ofSource ['e', 'd', 'g', 'e'] (Kept.init.ingest (fun _ => "") quietEnv
      (fun _ => 0) (heartbeat 'a' 1000 [])).history) = none := rfl
  obtain hrecord | ⟨hretention, -⟩ := hjudged _ hb
  · exact hrecord hlast
  · obtain ⟨u, hu, hle⟩ := hretention (by decide)
    obtain rfl := Option.some.inj (hupTo.symm.trans hu)
    exact absurd hle (by decide +kernel)

end RiskOps.Telemetry.Collection
