import RiskOps.Telemetry.Collection

/-!
# RiskOps.Telemetry.CollectionSpec — open delays mirror the source's condition

**What one batch does to the issues.** A row that has ended stays as it is (`Keeps`), and each step
changes how many issues of one source and kind are open, or none (`openCount`). Only `source_error`
and `catching_up` are ever left open: the first says that the last batch carried a failure code, the
second that the last batch with an answer to it said that more is waiting.
-/

namespace RiskOps.Telemetry.Collection

open RiskOps.Lib

/-! ### Rows that have ended -/

/-- The ids count the rows. -/
structure Numbered (t : Tables) : Prop where
  nodup : (t.issues.map Issue.issueId).Nodup
  le : ∀ i ∈ t.issues, i.issueId ≤ t.issues.length

theorem numbered_empty : Numbered Tables.empty := ⟨List.nodup_nil, fun _ hi => nomatch hi⟩

theorem Numbered.eq_of_id {t : Tables} (h : Numbered t) {i j : Issue} (hi : i ∈ t.issues)
    (hj : j ∈ t.issues) (hid : i.issueId = j.issueId) : i = j :=
  List.inj_on_of_nodup_map h.nodup hi hj hid

theorem Numbered.congr {t t' : Tables} (h : Numbered t)
    (heq : t'.issues.map Issue.issueId = t.issues.map Issue.issueId) : Numbered t' := by
  have hlen : t'.issues.length = t.issues.length := by
    rw [← List.length_map Issue.issueId, heq, List.length_map]
  refine ⟨heq ▸ h.nodup, fun i hi => ?_⟩
  have hmem : i.issueId ∈ t.issues.map Issue.issueId := heq ▸ List.mem_map_of_mem hi
  obtain ⟨j, hj, hid⟩ := List.mem_map.mp hmem
  rw [hlen, ← hid]
  exact h.le j hj

/-- A gap is written closed. -/
def GapsClosed (t : Tables) : Prop := ∀ i ∈ t.issues, i.category = .gap → i.endedAt ≠ none

/-- The rows keep their numbers, those that have ended stay as they are, and no gap is left open. -/
structure Keeps (t t' : Tables) : Prop where
  numbered : Numbered t → Numbered t'
  ended : Numbered t → ∀ i ∈ t.issues, i.endedAt ≠ none → i ∈ t'.issues
  gaps : GapsClosed t → GapsClosed t'

theorem Keeps.refl (t : Tables) : Keeps t t := ⟨fun h => h, fun _ _ hi _ => hi, fun h => h⟩

theorem Keeps.trans {t t' t'' : Tables} (h : Keeps t t') (h' : Keeps t' t'') : Keeps t t'' :=
  ⟨fun hn => h'.numbered (h.numbered hn),
    fun hn i hi hended => h'.ended (h.numbered hn) i (h.ended hn i hi hended) hended,
    fun hg => h'.gaps (h.gaps hg)⟩

theorem keeps_of_issues_eq {t t' : Tables} (h : t'.issues = t.issues) : Keeps t t' :=
  ⟨fun hn => hn.congr (by rw [h]), fun _ i hi _ => by rw [h]; exact hi,
    fun hg i hi => hg i (h ▸ hi)⟩

section

variable {t : Tables} {sourceId batchId : List Char} {kind detail : String} {category : Category}
  {started ended : Option ℚ} {now : ℚ}

theorem keeps_insertIssue (hgap : category = .gap → ended ≠ none) :
    Keeps t (insertIssue t sourceId kind category started ended detail batchId now) := by
  refine ⟨fun h => ⟨?_, fun i hi => ?_⟩, fun _ i hi _ => List.mem_append_left _ hi,
    fun h i hi => ?_⟩
  · rw [insertIssue, List.map_append, List.nodup_append]
    refine ⟨h.nodup, List.nodup_singleton _, fun a ha b hb => ?_⟩
    obtain ⟨i, hi, rfl⟩ := List.mem_map.mp ha
    rw [List.map_singleton, List.mem_singleton] at hb
    have hle := h.le i hi
    dsimp only at hb
    omega
  · rw [insertIssue] at hi ⊢
    dsimp only at hi ⊢
    rw [List.length_append, List.length_singleton]
    rcases List.mem_append.mp hi with hold | hnew
    · exact (h.le i hold).trans (Nat.le_succ _)
    · rw [List.mem_singleton.mp hnew]
  · rcases List.mem_append.mp hi with hold | hnew
    · exact h i hold
    · rw [List.mem_singleton.mp hnew]
      exact hgap

/-- The open issue that is extended. -/
theorem mem_of_open {row : Issue}
    (h : (t.issues.filter fun i => i.isOpen sourceId kind).getLast? = some row) :
    row ∈ t.issues ∧ row.isOpen sourceId kind = true :=
  List.mem_filter.mp (List.mem_of_getLast? h)

theorem Issue.endedAt_of_isOpen {i : Issue} (h : i.isOpen sourceId kind = true) :
    i.endedAt = none := by
  rw [Issue.isOpen, Bool.and_eq_true, Option.isNone_iff_eq_none] at h
  exact h.2

theorem keeps_openIssue : Keeps t (openIssue t sourceId kind detail batchId now) := by
  unfold openIssue
  split
  · exact keeps_insertIssue (fun h => nomatch h)
  · rename_i row hrow
    obtain ⟨hmem, hopen⟩ := mem_of_open hrow
    refine ⟨fun h => h.congr ?_,
      fun h i hi hended => List.mem_map.mpr ⟨i, hi, if_neg fun hid => ?_⟩, fun h i hi => ?_⟩
    · rw [List.map_map]
      refine List.map_congr_left fun i _ => ?_
      simp only [Function.comp_apply]
      split <;> rfl
    · obtain rfl := h.eq_of_id hi hmem hid
      exact hended (Issue.endedAt_of_isOpen hopen)
    · obtain ⟨j, hj, rfl⟩ := List.mem_map.mp hi
      have hold := h j hj
      split <;> exact hold

/-- Closing leaves what has ended. -/
theorem keeps_closeIssue : Keeps t (closeIssue t sourceId kind now) := by
  refine ⟨fun h => h.congr ?_,
    fun _ i hi hended => List.mem_map.mpr ⟨i, hi, if_neg fun hopen => ?_⟩, fun h i hi => ?_⟩
  · rw [closeIssue, List.map_map]
    refine List.map_congr_left fun i _ => ?_
    simp only [Function.comp_apply]
    split <;> rfl
  · exact hended (Issue.endedAt_of_isOpen hopen)
  · obtain ⟨j, hj, rfl⟩ := List.mem_map.mp hi
    have hold := h j hj
    split
    · exact fun _ => Option.some_ne_none _
    · exact hold

end

/-! ### Open issues -/

/-- How many issues of a source and kind are open. -/
def openCount (t : Tables) (sourceId : List Char) (kind : String) : Nat :=
  t.issues.countP fun i => i.isOpen sourceId kind

section

variable {t : Tables} {sourceId s batchId : List Char} {kind k detail : String}
  {category : Category} {started ended : Option ℚ} {now : ℚ}

theorem openCount_insertIssue (hended : ended ≠ none) :
    openCount (insertIssue t sourceId kind category started ended detail batchId now) s k =
      openCount t s k := by
  rw [openCount, insertIssue, List.countP_append, List.countP_singleton, if_neg, openCount]
  · rfl
  · rw [Issue.isOpen, Bool.and_eq_true, Option.isNone_iff_eq_none]
    exact fun h => hended h.2

theorem Issue.isOpen_iff {i : Issue} :
    i.isOpen s k = true ↔ i.sourceId = s ∧ i.kind = k ∧ i.endedAt = none := by
  rw [Issue.isOpen, Bool.and_eq_true, Bool.and_eq_true, decide_eq_true_eq, decide_eq_true_eq,
    Option.isNone_iff_eq_none, and_assoc]

/-- An open issue is left or made. -/
theorem openCount_openIssue :
    openCount (openIssue t sourceId kind detail batchId now) s k =
      if s = sourceId ∧ k = kind then max 1 (openCount t s k) else openCount t s k := by
  unfold openIssue
  split
  · rename_i hnone
    have hzero : openCount t sourceId kind = 0 := by
      rw [openCount, List.countP_eq_length_filter, List.getLast?_eq_none_iff.mp hnone]
      rfl
    rw [openCount, insertIssue, List.countP_append, List.countP_singleton]
    by_cases hsame : s = sourceId ∧ k = kind
    · obtain ⟨rfl, rfl⟩ := hsame
      rw [if_pos (Iff.mpr Issue.isOpen_iff ⟨rfl, rfl, rfl⟩), if_pos ⟨rfl, rfl⟩, hzero, ← openCount,
        hzero]
      rfl
    · rw [if_neg hsame, if_neg fun h => hsame ?_]
      · rfl
      · obtain ⟨hs, hk, -⟩ := Iff.mp Issue.isOpen_iff h
        exact ⟨hs.symm, hk.symm⟩
  · rename_i row hrow
    obtain ⟨hmem, hopen⟩ := mem_of_open hrow
    have hkept : openCount { t with
        issues := t.issues.map fun i => if i.issueId = row.issueId then
          { i with lastBatchId := batchId, batches := i.batches + 1, detail := detail,
                   updatedAt := now } else i } s k = openCount t s k := by
      rw [openCount, List.countP_map, openCount]
      refine List.countP_congr fun i _ => ?_
      simp only [Function.comp_apply]
      split <;> rfl
    rw [hkept]
    split
    · rename_i hsame
      obtain ⟨rfl, rfl⟩ := hsame
      have hpos : 0 < openCount t s k := List.countP_pos_iff.mpr ⟨row, hmem, hopen⟩
      omega
    · rfl

theorem openCount_closeIssue :
    openCount (closeIssue t sourceId kind now) s k =
      if s = sourceId ∧ k = kind then 0 else openCount t s k := by
  rw [openCount, closeIssue, List.countP_map]
  split
  · rename_i hsame
    obtain ⟨rfl, rfl⟩ := hsame
    refine List.countP_eq_zero.mpr fun i _ => ?_
    simp only [Function.comp_apply]
    split
    · rw [Issue.isOpen_iff]
      exact fun h => nomatch h.2.2
    · assumption
  · rename_i hother
    refine List.countP_congr fun i _ => ?_
    simp only [Function.comp_apply]
    split
    · rename_i hopen
      obtain ⟨hs, hk, -⟩ := Iff.mp Issue.isOpen_iff hopen
      rw [Issue.isOpen_iff, Issue.isOpen_iff]
      constructor
      · exact fun h => nomatch h.2.2
      · exact fun h => absurd ⟨h.1.symm.trans hs, h.2.1.symm.trans hk⟩ hother
    · exact Iff.rfl

end

/-! ### One batch -/

/-- Nothing is opened or closed. -/
structure Quiet (t t' : Tables) : Prop where
  keeps : Keeps t t'
  openCount : ∀ s k, openCount t' s k = openCount t s k

theorem Quiet.refl (t : Tables) : Quiet t t := ⟨Keeps.refl t, fun _ _ => rfl⟩

theorem Quiet.trans {t t' t'' : Tables} (h : Quiet t t') (h' : Quiet t' t'') : Quiet t t'' :=
  ⟨h.keeps.trans h'.keeps, fun s k => (h'.openCount s k).trans (h.openCount s k)⟩

theorem quiet_of_issues_eq {t t' : Tables} (h : t'.issues = t.issues) : Quiet t t' :=
  ⟨keeps_of_issues_eq h, fun _ _ => by rw [Collection.openCount, h, Collection.openCount]⟩

theorem quiet_insertIssue {t : Tables} {sourceId batchId : List Char} {kind detail : String}
    {category : Category} {started : Option ℚ} {ended now : ℚ} :
    Quiet t (insertIssue t sourceId kind category started (some ended) detail batchId now) :=
  ⟨keeps_insertIssue fun _ => Option.some_ne_none _,
    fun _ _ => openCount_insertIssue (Option.some_ne_none _)⟩

section

variable {minutes : ℚ → String} (t : Tables) (b : Batch)

theorem issues_track : (track t b).issues = t.issues := by
  unfold track
  split <;> rfl

theorem quiet_recordSilence : Quiet t (recordSilence minutes t b) := by
  unfold recordSilence
  split
  · exact Quiet.refl t
  · dsimp only
    split
    · exact quiet_insertIssue
    · exact Quiet.refl t

theorem quiet_reset (kind why : String) : Quiet t (reset t b kind why) := by
  unfold reset
  split <;> exact quiet_insertIssue

theorem quiet_recordCoverage : Quiet t (recordCoverage t b) := by
  unfold recordCoverage
  split
  · exact Quiet.refl t
  · split
    · exact quiet_insertIssue.trans (quiet_of_issues_eq rfl)
    · exact quiet_reset t b _ _

theorem quiet_recordRetention : Quiet t (recordRetention t b) := by
  unfold recordRetention
  split
  · exact quiet_reset t b _ _
  · exact Quiet.refl t

theorem quiet_recordDelivery : Quiet t (recordDelivery minutes t b) := by
  unfold recordDelivery
  split
  · exact Quiet.refl t
  · split
    · exact quiet_insertIssue
    · exact Quiet.refl t

theorem quiet_recordTruncation : Quiet t (recordTruncation t b) := by
  unfold recordTruncation
  split
  · exact quiet_insertIssue
  · exact Quiet.refl t

/-- The steps before the delays. -/
def recordResets (minutes : ℚ → String) (t : Tables) (b : Batch) : Tables :=
  recordRetention (recordCoverage (recordSilence minutes (track t b) b) b) b

/-- The steps behind the delays. -/
def recordRest (minutes : ℚ → String) (t : Tables) (b : Batch) : Tables :=
  finish (recordTruncation (recordDelivery minutes t b) b) b

/-- The two steps that open and close delays, between the others. -/
theorem recordBatch_eq : recordBatch minutes t b =
    recordRest minutes (recordBacklog (recordFailure (recordResets minutes t b) b) b) b := rfl

theorem quiet_recordResets : Quiet t (recordResets minutes t b) :=
  (((quiet_of_issues_eq (issues_track t b)).trans (quiet_recordSilence _ b)).trans
    (quiet_recordCoverage _ b)).trans (quiet_recordRetention _ b)

theorem quiet_recordRest : Quiet t (recordRest minutes t b) :=
  ((quiet_recordDelivery t b).trans (quiet_recordTruncation _ b)).trans (quiet_of_issues_eq rfl)

theorem keeps_recordFailure : Keeps t (recordFailure t b) := by
  unfold recordFailure
  split
  · exact keeps_openIssue
  · exact keeps_closeIssue

theorem keeps_recordBacklog : Keeps t (recordBacklog t b) := by
  unfold recordBacklog
  split
  · exact keeps_openIssue
  · split
    · exact keeps_closeIssue
    · exact Keeps.refl t

/-- **What one batch keeps.** -/
theorem keeps_recordBatch : Keeps t (recordBatch minutes t b) := by
  rw [recordBatch_eq]
  exact (((quiet_recordResets t b).keeps.trans (keeps_recordFailure _ b)).trans
    (keeps_recordBacklog _ b)).trans (quiet_recordRest _ b).keeps

theorem openCount_recordFailure (s : List Char) (k : String) :
    openCount (recordFailure t b) s k =
      if s = b.sourceId ∧ k = "source_error" then
        if b.failed ≠ [] then max 1 (openCount t s k) else 0
      else openCount t s k := by
  unfold recordFailure
  split
  · rw [openCount_openIssue]
  · rw [openCount_closeIssue]

theorem openCount_recordBacklog (s : List Char) (k : String) :
    openCount (recordBacklog t b) s k =
      if s = b.sourceId ∧ k = "catching_up" then
        if b.behind then max 1 (openCount t s k)
        else if b.failed = [] then 0 else openCount t s k
      else openCount t s k := by
  unfold recordBacklog
  split
  · rw [openCount_openIssue]
  · split
    · rw [openCount_closeIssue]
    · split <;> rfl

/-- **What one batch opens and closes.** -/
theorem openCount_recordBatch (s : List Char) (k : String) :
    openCount (recordBatch minutes t b) s k =
      if s = b.sourceId ∧ k = "source_error" then
        if b.failed ≠ [] then max 1 (openCount t s k) else 0
      else if s = b.sourceId ∧ k = "catching_up" then
        if b.behind then max 1 (openCount t s k)
        else if b.failed = [] then 0 else openCount t s k
      else openCount t s k := by
  rw [recordBatch_eq, (quiet_recordRest _ b).openCount, openCount_recordBacklog,
    openCount_recordFailure, (quiet_recordResets t b).openCount]
  by_cases hcatching : s = b.sourceId ∧ k = "catching_up"
  · have hother : ¬(s = b.sourceId ∧ k = "source_error") := by
      rw [hcatching.2]
      exact fun h => absurd h.2 (by decide)
    rw [if_pos hcatching, if_neg hother, if_neg hother, if_pos hcatching]
  · rw [if_neg hcatching, if_neg hcatching]

/-! ### `caught_up` -/

/-- The `caught_up` of a source, when it has a row. -/
def caught (t : Tables) (s : List Char) : Option Bool :=
  (t.sources.find? s).map SourceCollection.caughtUp

theorem caught_congr {t t' : Tables} (h : t'.sources = t.sources) (s : List Char) :
    caught t' s = caught t s := by
  rw [caught, h, caught]

theorem caught_track (s : List Char) :
    (s ≠ b.sourceId → caught (track t b) s = caught t s) ∧
      caught (track t b) b.sourceId ≠ none := by
  unfold track
  split
  · rename_i row hrow
    refine ⟨fun _ => rfl, ?_⟩
    rw [caught, hrow]
    exact Option.some_ne_none _
  · rename_i hnone
    dsimp only
    refine ⟨fun hne => ?_, ?_⟩
    · rw [caught, Table.find?_insertOrIgnore, if_neg (Ne.symm hne), caught]
    · rw [caught, Table.find?_insertOrIgnore, if_pos rfl]
      exact Option.some_ne_none _

theorem sources_reset (kind why : String) : (reset t b kind why).sources = t.sources := by
  unfold reset
  split <;> rfl

theorem sources_recordSilence : (recordSilence minutes t b).sources = t.sources := by
  unfold recordSilence
  split
  · rfl
  · dsimp only
    split <;> rfl

theorem caught_recordCoverage (s : List Char) : caught (recordCoverage t b) s = caught t s := by
  unfold recordCoverage
  split
  · rfl
  · split
    · rw [caught, Table.find?_update, Option.map_map]
      refine congrArg (fun f => Option.map f (t.sources.find? s)) (funext fun row => ?_)
      simp only [Function.comp_apply]
      split <;> rfl
    · exact caught_congr (sources_reset t b _ _) s

theorem sources_recordRetention : (recordRetention t b).sources = t.sources := by
  unfold recordRetention
  split
  · exact sources_reset t b _ _
  · rfl

theorem sources_openIssue {sourceId batchId : List Char} {kind detail : String} {now : ℚ} :
    (openIssue t sourceId kind detail batchId now).sources = t.sources := by
  unfold openIssue
  split <;> rfl

theorem sources_recordFailure : (recordFailure t b).sources = t.sources := by
  unfold recordFailure
  split
  · exact sources_openIssue t
  · rfl

theorem sources_recordBacklog : (recordBacklog t b).sources = t.sources := by
  unfold recordBacklog
  split
  · exact sources_openIssue t
  · split <;> rfl

theorem sources_recordDelivery : (recordDelivery minutes t b).sources = t.sources := by
  unfold recordDelivery
  split
  · rfl
  · split <;> rfl

theorem sources_recordTruncation : (recordTruncation t b).sources = t.sources := by
  unfold recordTruncation
  split <;> rfl

/-- Before the last update only the row of the batch's source can be new. -/
theorem caught_before_finish (minutes : ℚ → String) (t : Tables) (b : Batch) (s : List Char) :
    caught (recordTruncation (recordDelivery minutes
      (recordBacklog (recordFailure (recordResets minutes t b) b) b) b) b) s =
      caught (track t b) s := by
  rw [caught_congr (sources_recordTruncation _ b), caught_congr (sources_recordDelivery _ b),
    caught_congr (sources_recordBacklog _ b), caught_congr (sources_recordFailure _ b),
    recordResets, caught_congr (sources_recordRetention _ b), caught_recordCoverage,
    caught_congr (sources_recordSilence _ b)]

/-- **What one batch says of its source.** -/
theorem caught_recordBatch (s : List Char) :
    caught (recordBatch minutes t b) s =
      if s = b.sourceId then some (!(b.behind || !b.failed.isEmpty)) else caught t s := by
  have hbefore := caught_before_finish minutes t b s
  rw [caught] at hbefore
  rw [recordBatch_eq, recordRest, finish, caught, Table.find?_update, Option.map_map]
  split
  · rename_i hs
    rw [hs] at hbefore ⊢
    obtain ⟨row, hrow⟩ := Option.ne_none_iff_exists'.mp (caught_track t b s).2
    rw [hrow] at hbefore
    obtain ⟨row', hrow', -⟩ := Option.map_eq_some_iff.mp hbefore
    have hkey := Table.find?_key hrow'
    rw [hrow', Option.map_some, Function.comp_apply, if_pos hkey]
  · rename_i hs
    rw [← (caught_track t b s).1 hs, ← hbefore]
    refine Option.map_congr fun row hrow => ?_
    have hkey := Table.find?_key hrow
    rw [Function.comp_apply, if_neg (by rw [hkey]; exact hs)]

end

/-! ### The whole history -/

/-- The batches of a source. -/
def ofSource (s : List Char) (bs : List Batch) : List Batch := bs.filter fun b => b.sourceId = s

/-- Some batch reported a backlog, and no later one was free of both backlog and failures. -/
def BacklogLasts (bs : List Batch) : Prop :=
  ∃ earlier b later, bs = earlier ++ b :: later ∧ b.behind = true ∧
    ∀ b' ∈ later, b'.behind = true ∨ b'.failed ≠ []

theorem backlogLasts_snoc (bs : List Batch) (b : Batch) :
    BacklogLasts (bs ++ [b]) ↔ b.behind = true ∨ b.failed ≠ [] ∧ BacklogLasts bs := by
  constructor
  · intro ⟨earlier, c, later, hsplit, hbehind, hlater⟩
    rcases List.eq_nil_or_concat later with rfl | ⟨later, d, rfl⟩
    · obtain ⟨-, hlast⟩ := List.append_inj' hsplit rfl
      obtain rfl := (List.cons.inj hlast).1
      exact .inl hbehind
    · rw [List.concat_eq_append, ← List.cons_append, ← List.append_assoc] at hsplit
      obtain ⟨hbs, hlast⟩ := List.append_inj' hsplit rfl
      obtain rfl := (List.cons.inj hlast).1
      rw [List.concat_eq_append] at hlater
      refine (hlater b (List.mem_append_right _ List.mem_cons_self)).imp_right fun hfailed => ?_
      exact ⟨hfailed, earlier, c, later, hbs, hbehind,
        fun b' hb' => hlater b' (List.mem_append_left _ hb')⟩
  · intro h
    rcases h with hbehind | ⟨hfailed, earlier, c, later, rfl, hbehind, hlater⟩
    · exact ⟨bs, b, [], rfl, hbehind, fun b' hb' => nomatch hb'⟩
    · refine ⟨earlier, c, later ++ [b], by simp, hbehind, fun b' hb' => ?_⟩
      rcases List.mem_append.mp hb' with hb' | hb'
      · exact hlater b' hb'
      · rw [List.mem_singleton.mp hb']
        exact .inr hfailed

/-- The tables after some batches. -/
def recordAll (minutes : ℚ → String) (t : Tables) (bs : List Batch) : Tables :=
  bs.foldl (recordBatch minutes) t

theorem keeps_recordAll (minutes : ℚ → String) (t : Tables) (bs : List Batch) :
    Keeps t (recordAll minutes t bs) := by
  induction bs generalizing t with
  | nil => exact Keeps.refl t
  | cons b bs ih => exact (keeps_recordBatch t b).trans (ih _)

/-- The open issues of a source say what its batches said. -/
structure Mirrors (t : Tables) (s : List Char) (bs : List Batch) : Prop where
  errors : openCount t s "source_error" = if (bs.getLast?.any fun b => b.failed ≠ []) then 1 else 0
  backlog : openCount t s "catching_up" ≤ 1 ∧
    (openCount t s "catching_up" ≠ 0 ↔ BacklogLasts bs)
  others : ∀ k, k ≠ "source_error" → k ≠ "catching_up" → openCount t s k = 0
  caught : Collection.caught t s = bs.getLast?.map fun b => !(b.behind || !b.failed.isEmpty)

theorem mirrors_empty (s : List Char) : Mirrors Tables.empty s [] where
  errors := rfl
  backlog := by
    refine ⟨Nat.zero_le _, fun h => absurd rfl h, fun ⟨_, _, _, hsplit, _⟩ => ?_⟩
    exact absurd hsplit.symm (by simp)
  others := fun _ _ _ => rfl
  caught := rfl

/-- **One batch**, of this source. -/
theorem Mirrors.own {minutes : ℚ → String} {t : Tables} {b : Batch} {bs : List Batch}
    (h : Mirrors t b.sourceId bs) : Mirrors (recordBatch minutes t b) b.sourceId (bs ++ [b]) where
  errors := by
    rw [openCount_recordBatch, if_pos ⟨rfl, rfl⟩, h.errors, List.getLast?_concat, Option.any_some]
    by_cases hfailed : b.failed = []
    · simp [hfailed]
    · rw [if_pos hfailed, if_pos (decide_eq_true hfailed)]
      split <;> rfl
  backlog := by
    rw [openCount_recordBatch, if_neg (fun h => absurd h.2 (by decide)), if_pos ⟨rfl, rfl⟩,
      backlogLasts_snoc]
    obtain ⟨hle, hiff⟩ := h.backlog
    cases hbehind : b.behind with
    | true =>
      rw [if_pos rfl]
      exact ⟨by omega, fun _ => .inl rfl, fun _ => by omega⟩
    | false =>
      rw [if_neg Bool.false_ne_true]
      by_cases hfailed : b.failed = []
      · rw [if_pos hfailed]
        refine ⟨Nat.zero_le _, fun h => absurd rfl h, fun h => ?_⟩
        rcases h with hfalse | ⟨hne, -⟩
        · cases hfalse
        · exact absurd hfailed hne
      · rw [if_neg hfailed]
        refine ⟨hle, fun hne => .inr ⟨hfailed, hiff.mp hne⟩, fun h => ?_⟩
        rcases h with hfalse | ⟨-, hlasts⟩
        · cases hfalse
        · exact hiff.mpr hlasts
  others := fun k herror hcatching => by
    rw [openCount_recordBatch, if_neg (fun h => herror h.2), if_neg (fun h => hcatching h.2)]
    exact h.others k herror hcatching
  caught := by
    rw [caught_recordBatch, if_pos rfl, List.getLast?_concat, Option.map_some]

/-- **One batch**, of another source. -/
theorem Mirrors.other {minutes : ℚ → String} {t : Tables} {b : Batch} {s : List Char}
    {bs : List Batch} (h : Mirrors t s bs) (hne : s ≠ b.sourceId) :
    Mirrors (recordBatch minutes t b) s bs := by
  have hcount : ∀ k, openCount (recordBatch minutes t b) s k = openCount t s k := fun k => by
    rw [openCount_recordBatch, if_neg (fun h => hne h.1), if_neg (fun h => hne h.1)]
  refine ⟨(hcount _).trans h.errors, ?_, fun k he hc => (hcount k).trans (h.others k he hc), ?_⟩
  · rw [hcount]
    exact h.backlog
  · rw [caught_recordBatch, if_neg hne]
    exact h.caught

/-- **The delays mirror the batches of their source.** -/
theorem mirrors_recordAll (minutes : ℚ → String) (bs : List Batch) (s : List Char) :
    Mirrors (recordAll minutes .empty bs) s (ofSource s bs) := by
  induction bs using List.reverseRecOn with
  | nil => exact mirrors_empty s
  | append_singleton bs b ih =>
    rw [recordAll, List.foldl_append, ← recordAll, ofSource, List.filter_append]
    by_cases hs : b.sourceId = s
    · subst hs
      rw [List.filter_cons_of_pos (by simp)]
      exact ih.own
    · rw [List.filter_cons_of_neg (by simpa using hs), List.filter_nil, List.append_nil]
      exact ih.other (Ne.symm hs)

section

variable {t : Tables} {s : List Char} {bs : List Batch}

theorem Mirrors.errors_iff (h : Mirrors t s bs) :
    openCount t s "source_error" = 1 ↔ ∃ last ∈ bs.getLast?, last.failed ≠ [] := by
  rw [h.errors]
  cases bs.getLast? with
  | none => simp
  | some last => by_cases hfailed : last.failed = [] <;> simp [hfailed]

theorem Mirrors.backlog_iff (h : Mirrors t s bs) :
    openCount t s "catching_up" = 1 ↔ BacklogLasts bs := by
  obtain ⟨hle, hiff⟩ := h.backlog
  rw [← hiff]
  omega

theorem Mirrors.le_one (h : Mirrors t s bs) (kind : String) : openCount t s kind ≤ 1 := by
  by_cases herror : kind = "source_error"
  · rw [herror, h.errors]
    split <;> omega
  · by_cases hcatching : kind = "catching_up"
    · rw [hcatching]
      exact h.backlog.1
    · rw [h.others kind herror hcatching]
      exact Nat.zero_le 1

theorem Mirrors.caught_iff (h : Mirrors t s bs) {row : SourceCollection}
    (hrow : row ∈ t.sources.find? s) :
    row.caughtUp = true ↔ ∃ last ∈ bs.getLast?, last.behind = false ∧ last.failed = [] := by
  have hcaught := h.caught
  rw [Collection.caught, Option.mem_def.mp hrow, Option.map_some] at hcaught
  obtain ⟨last, hlast, heq⟩ := Option.map_eq_some_iff.mp hcaught.symm
  rw [hlast, ← heq]
  simp

theorem Mirrors.isSome_iff (h : Mirrors t s bs) : (t.sources.find? s).isSome ↔ bs ≠ [] := by
  have hcaught := congrArg Option.isSome h.caught
  rw [Collection.caught, Option.isSome_map, Option.isSome_map] at hcaught
  rw [hcaught, List.getLast?_isSome]

end

/-- **Open delays mirror the source's condition.** After any batches of any sources, no kind of
issue of a source is open twice, `source_error` is open exactly when the last batch carried a
failure code, `catching_up` while a reported backlog lasts, and `caught_up` says that the last batch
had neither. What has ended, every gap among it, is there unchanged after whatever batches follow.
-/
theorem delays_mirror_condition (minutes : ℚ → String) (bs : List Batch) (s : List Char) :
    let t := recordAll minutes .empty bs
    (∀ kind, openCount t s kind ≤ 1) ∧
      (openCount t s "source_error" = 1 ↔
        ∃ last ∈ (ofSource s bs).getLast?, last.failed ≠ []) ∧
      (openCount t s "catching_up" = 1 ↔ BacklogLasts (ofSource s bs)) ∧
      (∀ row ∈ t.sources.find? s, (row.caughtUp = true ↔
        ∃ last ∈ (ofSource s bs).getLast?, last.behind = false ∧ last.failed = [])) ∧
      ((t.sources.find? s).isSome ↔ ofSource s bs ≠ []) ∧
      (t.issues.map Issue.issueId).Nodup ∧
      ∀ later, ∀ i ∈ t.issues, i.endedAt ≠ none ∨ i.category = .gap →
        i ∈ (recordAll minutes t later).issues := by
  intro t
  have hmirrors : Mirrors t s (ofSource s bs) := mirrors_recordAll minutes bs s
  have hkeeps : Keeps .empty t := keeps_recordAll minutes .empty bs
  have hnumbered := hkeeps.numbered numbered_empty
  refine ⟨fun kind => hmirrors.le_one kind, hmirrors.errors_iff, hmirrors.backlog_iff,
    fun row hrow => hmirrors.caught_iff hrow, hmirrors.isSome_iff, hnumbered.nodup,
    fun later i hi hclosed => ?_⟩
  have hended : i.endedAt ≠ none :=
    hclosed.elim id (hkeeps.gaps (fun _ hi => nomatch hi) i hi)
  exact (keeps_recordAll minutes t later).ended hnumbered i hi hended

end RiskOps.Telemetry.Collection
