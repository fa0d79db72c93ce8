import RiskOps.Telemetry.NetworkProtocol

/-!
# RiskOps.Telemetry.NetworkExport — a page of the kernel journal

Model of `export_page` of `scripts/network_export.py`: **a page is a prefix of the records after
the requested cursor, in one batch that passes `validateBatch`.** Records are normalized one
after the other until the journal ends, the page is full or the batch would grow too large. The
rules are fingerprinted before and after the page: a page read while they changed is given up.

What the export observes outside the journal (the clock, the fingerprints, whether the cursor is
still there) is a parameter, as is the normalization of a record. The deadline of the export
is left out: an export it stops returns nothing.
-/

namespace RiskOps.Telemetry.Network

open RiskOps.Lib

/-- What one export observes beside the records. -/
structure Observed where
  nowUs : Nat
  batchId : List Char
  /-- The rules do not match the profile before, and after the records were read. -/
  driftBefore : Bool
  driftAfter : Bool
  /-- The journal has the cursor before, and after the records were read. -/
  cursorBefore : Bool
  cursorAfter : Bool

/-- The page while it is read. -/
structure Page (D : Type) where
  entries : List (Entry D)
  reports : List Report
  limited : Bool

variable {D ρ : Type} [DecidableEq D]

/-- The batch of a page. -/
def batchOf (w : Wire D) (profile : SourceProfile) (obs : Observed) (cursor : Option (List Char))
    (entries : List (Entry D)) (reports : List Report) (caughtUp : Bool) : Batch D where
  sourceId := profile.sourceId
  profileRevision := w.profile profile
  batchId := obs.batchId
  collectedAtUs := obs.nowUs
  cursorBefore := cursor
  cursorAfter := match entries.getLast? with
    | some e => some e.journalCursor
    | none => cursor
  entries := entries
  reports := reports
  caughtUp := caughtUp

/-- `journal_realtime_us`. -/
def Entry.journalRealtimeUs : Entry D → Nat
  | .event e => e.toContent.journalRealtimeUs
  | .rejection r => r.journalRealtimeUs

/-- A record older than the profile is reported once. -/
def boundaryReports (validFromUs : Nat) (entry : Entry D) (reports : List Report) : List Report :=
  if entry.journalRealtimeUs < validFromUs ∧ .profileBoundary ∉ reports
  then reports ++ [.profileBoundary] else reports

/-- The loop over the records. -/
def readPage (w : Wire D) (profile : SourceProfile) (validFromUs : Nat) (obs : Observed)
    (cursor : Option (List Char)) (toEntry : ρ → Except String (Entry D)) :
    List ρ → Page D → Except String (Page D)
  | [], page => .ok page
  | record :: records, page => do
      let entry ← toEntry record
      let reports := boundaryReports validFromUs entry page.reports
      let entries := page.entries ++ [entry]
      if w.size (batchOf w profile obs cursor entries reports false) > maxBatchBytes - 1024 then
        if page.entries.isEmpty then .error "record_exceeds_batch_limit"
        else .ok ⟨page.entries, reports, true⟩
      else if entries.length = maxEntries then .ok ⟨entries, reports, true⟩
      else readPage w profile validFromUs obs cursor toEntry records ⟨entries, reports, false⟩

/-- The reports before the first record. -/
def firstReports (validFromUs : Nat) (obs : Observed) (cursor : Option (List Char)) : List Report :=
  let valid := cursor.isSome && obs.cursorBefore
  let since := max (obs.nowUs - 600000000) validFromUs
  (if cursor.isNone then [.coverageStart] else if !valid then [.journalCursorUnavailable] else []) ++
    if !valid && since == validFromUs then [.profileBoundary] else []

/-- The batch of a page that was read. -/
def pageBatch (w : Wire D) (profile : SourceProfile) (obs : Observed) (cursor : Option (List Char))
    (page : Page D) : Batch D :=
  if obs.driftAfter then batchOf w profile obs cursor [] [.profileDrift] false
  else if cursor.isSome && obs.cursorBefore && !obs.cursorAfter then
    batchOf w profile obs cursor [] [.journalCursorUnavailable] false
  else
    let reports := page.reports ++ if page.limited then [.catchingUp] else []
    batchOf w profile obs cursor page.entries reports
      (!page.limited && decide (.journalCursorUnavailable ∉ reports))

/-- `return validate_batch(batch, profile)`. -/
def validated (w : Wire D) (profile : SourceProfile) (b : Batch D) : Except String (Batch D) := do
  validateBatch w profile b
  .ok b

/-- `export_page`; the records are those after the cursor, or the recent ones without one. -/
def exportPage (w : Wire D) (profile : SourceProfile) (validFromUs : Nat) (obs : Observed)
    (cursor : Option (List Char)) (toEntry : ρ → Except String (Entry D)) (records : List ρ) :
    Except String (Batch D) :=
  if profile.guardVersion.strong ∧ some validFromUs ≠ profile.profileValidFromUs then
    .error "profile_validity_mismatch"
  else if validFromUs > obs.nowUs then .error "profile_not_yet_valid"
  else if obs.driftBefore then
    validated w profile (batchOf w profile obs cursor [] [.profileDrift] false)
  else do
    let page ← readPage w profile validFromUs obs cursor toEntry records
      ⟨[], firstReports validFromUs obs cursor, false⟩
    validated w profile (pageBatch w profile obs cursor page)

/-! ### What a page holds -/

variable {w : Wire D} {profile : SourceProfile} {validFromUs : Nat} {obs : Observed}
  {cursor : Option (List Char)} {toEntry : ρ → Except String (Entry D)} {records : List ρ}

omit [DecidableEq D] in
/-- The entries of a page are those of a prefix of the records. -/
theorem readPage_entries {page page' : Page D}
    (h : readPage w profile validFromUs obs cursor toEntry records page = .ok page') :
    ∃ read, read <+: records ∧ ∃ new, read.mapM toEntry = .ok new ∧
      page'.entries = page.entries ++ new := by
  induction records generalizing page with
  | nil =>
    cases h
    exact ⟨[], List.nil_prefix, [], rfl, (List.append_nil _).symm⟩
  | cons record records ih =>
    rw [readPage] at h
    obtain ⟨entry, hentry, h⟩ := bind_eq_ok.mp h
    dsimp only at h
    have hone : [record].mapM toEntry = .ok [entry] := by
      rw [List.mapM_cons, hentry]
      rfl
    split at h
    · split at h
      · cases h
      · cases h
        exact ⟨[], List.nil_prefix, [], rfl, (List.append_nil _).symm⟩
    · split at h
      · cases h
        exact ⟨[record], by simp, [entry], hone, rfl⟩
      · obtain ⟨read, hread, new, hnew, heq⟩ := ih h
        refine ⟨record :: read, List.cons_prefix_cons.mpr ⟨rfl, hread⟩, entry :: new, ?_, ?_⟩
        · rw [List.mapM_cons, hentry]
          show (List.mapM toEntry read >>= fun bs => pure (entry :: bs)) = _
          rw [hnew]
          rfl
        · rw [heq, List.append_assoc, List.singleton_append]

/-- **What an export returns**: a valid batch that starts at the cursor and holds a prefix of
the records. -/
structure Exported (w : Wire D) (profile : SourceProfile) (obs : Observed)
    (cursor : Option (List Char)) (toEntry : ρ → Except String (Entry D)) (records : List ρ)
    (b : Batch D) : Prop where
  valid : validateBatch w profile b = .ok ()
  source : b.sourceId = profile.sourceId
  batchId : b.batchId = obs.batchId
  before : b.cursorBefore = cursor
  after : b.cursorAfter = lastCursor b
  entries : ∃ read, read <+: records ∧ read.mapM toEntry = .ok b.entries

theorem exported_batchOf {entries : List (Entry D)} {reports : List Report} {caughtUp : Bool}
    {b : Batch D}
    (h : validated w profile (batchOf w profile obs cursor entries reports caughtUp) = .ok b)
    (hentries : ∃ read, read <+: records ∧ read.mapM toEntry = .ok entries) :
    Exported w profile obs cursor toEntry records b := by
  obtain ⟨_, hvalid, hb⟩ := bind_eq_ok.mp h
  cases hb
  exact ⟨hvalid, rfl, rfl, rfl, rfl, hentries⟩

theorem exportPage_exported {b : Batch D}
    (h : exportPage w profile validFromUs obs cursor toEntry records = .ok b) :
    Exported w profile obs cursor toEntry records b := by
  have hnone : ∃ read, read <+: records ∧ read.mapM toEntry = .ok [] :=
    ⟨[], List.nil_prefix, rfl⟩
  rw [exportPage] at h
  split at h
  · cases h
  · split at h
    · cases h
    · split at h
      · exact exported_batchOf h hnone
      · obtain ⟨page, hpage, h⟩ := bind_eq_ok.mp h
        obtain ⟨read, hread, new, hnew, heq⟩ := readPage_entries hpage
        rw [List.nil_append] at heq
        rw [pageBatch] at h
        split at h
        · exact exported_batchOf h hnone
        · split at h
          · exact exported_batchOf h hnone
          · exact exported_batchOf h ⟨read, hread, heq ▸ hnew⟩

end RiskOps.Telemetry.Network
