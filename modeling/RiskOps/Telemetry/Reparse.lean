import RiskOps.Lib.PyDict
import RiskOps.Lib.Run
import RiskOps.Lib.Table

/-!
# RiskOps.Telemetry.Reparse — the dry run of a re-parse

Model of `reparse_sshd` (`telemetry/store.py`) and of `preview`
(`scripts/reparse_ssh_telemetry.py`), which says beforehand what it will do. Both read every event
and every piece of evidence again with the classifier of the day; `reparse_sshd` writes what
changed, and raises when evidence would no longer be evidence. **The dry run counts what the other
does**: both decide row by row, on the columns of an event and on its stored record, and no row's
decision depends on what was written for another.

The classifier is a parameter, and so is what follows the two passes (`_detect_advanced` with the
new triggers and `_refresh_incident`): it is given the database they leave, and the values returned
are those counted before it. A stored record is a decoded dict in the order of its keys.
-/

namespace RiskOps.Telemetry.Reparse

open RiskOps.Lib RiskOps.Lib.PyJson

/-! ### Rows -/

/-- What `_classify` returns. -/
structure Parsed where
  kind : Str
  peer : Option Str
  user : Option Str
  deriving DecidableEq

/-- The classifier of a message, an identifier and a unit; `none` when it raises. -/
abbrev Classifier := PyJson.Value → PyJson.Value → PyJson.Value → Option Parsed

/-- A row of `events`. -/
structure EventRow where
  sourceId : Str
  eventId : Str
  eventTs : ℚ
  eventType : Str
  srcIp : Option Str
  sshUser : Option Str
  record : Dict
  incidentId : Option Str

def EventRow.key (r : EventRow) : Str × Str := (r.sourceId, r.eventId)

/-- A row of `incident_evidence`. -/
structure EvidenceRow where
  sourceId : Str
  eventId : Str
  incidentId : Str
  eventTs : ℚ
  snapshot : Dict

def EvidenceRow.key (r : EvidenceRow) : Str × Str := (r.sourceId, r.eventId)

/-- The two tables. -/
structure Db where
  events : Table EventRow.key
  evidence : Table EvidenceRow.key

/-- `ORDER BY source_id,event_id`. -/
def inOrder {α : Type} (key : α → Str × Str) (rows : List α) : List α :=
  rows.insertionSort fun a b => toLex (key a) ≤ toLex (key b)

/-! ### Kinds -/

/-- `FAILURE_KINDS`. -/
def failureKinds : List Str := ["auth_failure", "invalid_user", "preauth_abort"].map Str.ofString

/-- `_FAILURE_TYPES`. -/
def failureTypes : List Str := failureKinds ++ [Str.ofString "ssh_failure"]

/-- `_SUCCESS_TYPES`. -/
def successTypes : List Str := ["auth_success", "ssh_success"].map Str.ofString

/-- `value in types` for a decoded value. -/
def isOneOf (types : List Str) (v : PyJson.Value) : Bool := types.any fun t => v = .str t

/-- `_compatible_evidence_kind`. -/
def compatibleEvidenceKind (old : PyJson.Value) (new : Str) : Bool :=
  (isOneOf failureTypes old && failureTypes.contains new) ||
    (isOneOf successTypes old && successTypes.contains new)

/-- A column that may be null as a value. -/
def optional : Option Str → PyJson.Value
  | none => .null
  | some s => .str s

/-! ### Reading a record again -/

/-- Why a re-parse stops: evidence would change its peer or its outcome, or anything else raises. -/
inductive Stop
  | conflict
  | raised
  deriving DecidableEq

section

variable (isZero : Str → Bool) (classify : Classifier)

/-- `bool(value)`; `isZero` tells the float literals of zero. -/
def truthy : PyJson.Value → Bool
  | .null => false
  | .bool b => b
  | .int n => n ≠ 0
  | .float l => !isZero l
  | .str s => !s.isEmpty
  | .arr vs => !vs.isEmpty
  | .obj ms => !ms.isEmpty

/-- `snapshot.get(key) or ""`. -/
def orEmpty (snapshot : Dict) (key : String) : PyJson.Value :=
  match snapshot.get key with
  | none => .str []
  | some v => if truthy isZero v then v else .str []

/-- The classifier on a stored record; a record without a message raises. -/
def classified (snapshot : Dict) : Option Parsed :=
  (snapshot.get "message").bind fun message =>
    classify message (orEmpty isZero snapshot "identifier") (orEmpty isZero snapshot "unit")

/-- An old alias, when the record has it. -/
def putAlias (key : String) (v : PyJson.Value) (d : Dict) : Dict := if d.has key then d.put key v else d

/-- `updated`. -/
def updated (snapshot : Dict) (p : Parsed) : Dict :=
  let d := ((snapshot.put "event_type" (.str p.kind)).put "src_ip" (optional p.peer)).put
    "ssh_user" (optional p.user)
  putAlias "username" (optional p.user)
    (putAlias "peer_ip" (optional p.peer) (putAlias "event_kind" (.str p.kind) d))

/-! ### `reparse_sshd` -/

/-- What `reparse_sshd` returns. -/
structure Report where
  changedEvents : Nat
  changedEvidence : Nat
  newlyDetectable : Nat
  deriving DecidableEq

/-- The state of the two passes. -/
structure Pass where
  db : Db
  changedEvents : Nat
  changedEvidence : Nat
  newlyDetectable : List (ℚ × Str × Str)

/-- `row["incident_id"]` is not empty. -/
def EventRow.held (row : EventRow) : Bool := row.incidentId.any fun id => !id.isEmpty

/-- `UPDATE events SET …`. -/
def updateEvent (db : Db) (row : EventRow) (p : Parsed) : Db :=
  { db with
    events := db.events.update
      (fun r => if r.key = row.key then
        { r with
          eventType := p.kind
          srcIp := p.peer
          sshUser := p.user
          record := updated row.record p } else r)
      (fun r => by split <;> rfl) }

/-- `UPDATE incident_evidence SET …`. -/
def updateEvidence (db : Db) (row : EvidenceRow) (p : Parsed) : Db :=
  { db with
    evidence := db.evidence.update
      (fun r => if r.key = row.key then { r with snapshot := updated row.snapshot p } else r)
      (fun r => by split <;> rfl) }

/-- A row of the first pass. -/
def reparseEvent (st : Pass) (row : EventRow) : Except Stop Pass :=
  match classified isZero classify row.record with
  | none => .error .raised
  | some p =>
    if row.record = updated row.record p ∧
        (row.eventType, row.srcIp, row.sshUser) = (p.kind, p.peer, p.user) then .ok st
    else if row.held ∧ (row.srcIp ≠ p.peer ∨
        ¬compatibleEvidenceKind (.str row.eventType) p.kind) then .error .conflict
    else
      let newly := if failureKinds.contains p.kind ∧ p.peer ≠ none ∧
          (¬failureTypes.contains row.eventType ∨ row.srcIp ≠ p.peer) then
        [(row.eventTs, row.sourceId, row.eventId)] else []
      .ok { st with
        db := updateEvent st.db row p
        changedEvents := st.changedEvents + 1
        newlyDetectable := st.newlyDetectable ++ newly }

/-- A row of the second pass. -/
def reparseEvidence (st : Pass) (row : EvidenceRow) : Except Stop Pass :=
  match classified isZero classify row.snapshot with
  | none => .error .raised
  | some p =>
    if row.snapshot = updated row.snapshot p then .ok st
    else if (row.snapshot.get "src_ip").getD .null ≠ optional p.peer then .error .conflict
    else match row.snapshot.get "event_type" with
      | none => .error .raised
      | some kind =>
        if ¬compatibleEvidenceKind kind p.kind then .error .conflict
        else .ok { st with
          db := updateEvidence st.db row p
          changedEvidence := st.changedEvidence + 1 }

/-- `reparse_sshd`. The cursor of a pass gives every row as it was before the pass. -/
def reparseSshd (detect : Db → List EventRow → Bool → Option Db) (db : Db) :
    Except Stop (Db × Report) := do
  let events := inOrder EventRow.key db.events.rows
  let evidence := inOrder EvidenceRow.key db.evidence.rows
  let st ← events.foldlM (reparseEvent isZero classify) ⟨db, 0, 0, []⟩
  let st ← evidence.foldlM (reparseEvidence isZero classify) st
  let triggers := (st.newlyDetectable.insertionSort fun a b =>
    toLex (a.1, toLex a.2) ≤ toLex (b.1, toLex b.2)).filterMap fun k => st.db.events.find? k.2
  match detect st.db triggers (0 < st.changedEvidence) with
  | none => .error .raised
  | some db => .ok (db, ⟨st.changedEvents, st.changedEvidence, st.newlyDetectable.length⟩)

/-! ### `preview` -/

/-- What `preview` returns. -/
structure Counts where
  changedEvents : Nat
  changedEvidence : Nat
  newlyDetectable : Nat
  conflictingEvidence : Nat
  deriving DecidableEq

/-- A row of `events`. -/
def previewEvent (counts : Counts) (row : EventRow) : Option Counts :=
  match classified isZero classify row.record with
  | none => none
  | some p =>
    let changed := decide (row.record ≠ updated row.record p) ||
      decide ((row.eventType, row.srcIp, row.sshUser) ≠ (p.kind, p.peer, p.user))
    if !changed then some counts
    else
      let conflict := row.held && (decide (row.srcIp ≠ p.peer) ||
        !compatibleEvidenceKind (.str row.eventType) p.kind)
      let newly := failureKinds.contains p.kind && p.peer.isSome &&
        (!failureTypes.contains row.eventType || decide (row.srcIp ≠ p.peer))
      some { counts with
        changedEvents := counts.changedEvents + 1
        conflictingEvidence := counts.conflictingEvidence + if conflict then 1 else 0
        newlyDetectable := counts.newlyDetectable + if newly then 1 else 0 }

/-- A row of `incident_evidence`. -/
def previewEvidence (counts : Counts) (row : EvidenceRow) : Option Counts :=
  match classified isZero classify row.snapshot with
  | none => none
  | some p =>
    if row.snapshot = updated row.snapshot p then some counts
    else
      let counts := { counts with changedEvidence := counts.changedEvidence + 1 }
      let conflicting := { counts with conflictingEvidence := counts.conflictingEvidence + 1 }
      if (row.snapshot.get "src_ip").getD .null ≠ optional p.peer then some conflicting
      else match row.snapshot.get "event_type" with
        | none => none
        | some kind =>
          if compatibleEvidenceKind kind p.kind then some counts else some conflicting

/-- `preview`. -/
def preview (db : Db) : Option Counts := do
  let counts ← db.events.rows.foldlM (previewEvent isZero classify) ⟨0, 0, 0, 0⟩
  db.evidence.rows.foldlM (previewEvidence isZero classify) counts

end

/-! ### Row by row -/

/-- The counts of the dry run are those of the passes. -/
structure Tracks (counts : Counts) (st : Pass) : Prop where
  events : counts.changedEvents = st.changedEvents
  evidence : counts.changedEvidence = st.changedEvidence
  newly : counts.newlyDetectable = st.newlyDetectable.length

/-- What a pass does where the dry run counts from `counts` on: it raises with it, keeps its counts
while there is no conflict, and stops at the first. -/
def Agrees (counts : Counts) (counted : Option Counts) (passed : Except Stop Pass) : Prop :=
  match counted with
  | none => ∃ stop, passed = .error stop
  | some counts' =>
    (counts'.conflictingEvidence = counts.conflictingEvidence ∧
      ∃ st, passed = .ok st ∧ Tracks counts' st) ∨
    counts.conflictingEvidence < counts'.conflictingEvidence ∧ passed = .error .conflict

section

variable {isZero : Str → Bool} {classify : Classifier}

theorem event_agrees {counts : Counts} {st : Pass} (h : Tracks counts st) (row : EventRow) :
    Agrees counts (previewEvent isZero classify counts row)
      (reparseEvent isZero classify st row) := by
  unfold previewEvent reparseEvent
  cases classified isZero classify row.record with
  | none => exact ⟨_, rfl⟩
  | some p =>
    dsimp only
    by_cases hsame : row.record = updated row.record p ∧
        (row.eventType, row.srcIp, row.sshUser) = (p.kind, p.peer, p.user)
    · rw [if_pos hsame, if_pos (by simp [← hsame.1, hsame.2])]
      exact .inl ⟨rfl, st, rfl, h⟩
    · have hchanged : ¬(!(decide (row.record ≠ updated row.record p) ||
          decide ((row.eventType, row.srcIp, row.sshUser) ≠ (p.kind, p.peer, p.user)))) =
            true := by
        simpa [not_and_or] using hsame
      rw [if_neg hsame, if_neg hchanged]
      by_cases hconflict : row.held ∧ (row.srcIp ≠ p.peer ∨
          ¬compatibleEvidenceKind (.str row.eventType) p.kind)
      · rw [if_pos hconflict]
        have hcounted : (row.held && (decide (row.srcIp ≠ p.peer) ||
            !compatibleEvidenceKind (.str row.eventType) p.kind)) = true := by
          simpa using hconflict
        refine .inr ⟨?_, rfl⟩
        dsimp only
        rw [if_pos hcounted]
        exact Nat.lt_succ_self _
      · rw [if_neg hconflict]
        have hcounted : ¬(row.held && (decide (row.srcIp ≠ p.peer) ||
            !compatibleEvidenceKind (.str row.eventType) p.kind)) = true := by
          simpa using hconflict
        refine .inl ⟨?_, _, rfl, congrArg (· + 1) h.events, h.evidence, ?_⟩
        · dsimp only
          rw [if_neg hcounted]
          rfl
        · dsimp only
          rw [List.length_append, h.newly]
          by_cases hnewly : failureKinds.contains p.kind ∧ p.peer ≠ none ∧
              (¬failureTypes.contains row.eventType ∨ row.srcIp ≠ p.peer)
          · have hseen : (failureKinds.contains p.kind && p.peer.isSome &&
                (!failureTypes.contains row.eventType || decide (row.srcIp ≠ p.peer))) =
                  true := by
              simpa [and_assoc, Option.ne_none_iff_isSome] using hnewly
            rw [if_pos hnewly, if_pos hseen]
            rfl
          · have hseen : ¬(failureKinds.contains p.kind && p.peer.isSome &&
                (!failureTypes.contains row.eventType || decide (row.srcIp ≠ p.peer))) =
                  true := by
              simpa [and_assoc, Option.ne_none_iff_isSome] using hnewly
            rw [if_neg hnewly, if_neg hseen]
            rfl

theorem evidence_agrees {counts : Counts} {st : Pass} (h : Tracks counts st) (row : EvidenceRow) :
    Agrees counts (previewEvidence isZero classify counts row)
      (reparseEvidence isZero classify st row) := by
  unfold previewEvidence reparseEvidence
  cases classified isZero classify row.snapshot with
  | none => exact ⟨_, rfl⟩
  | some p =>
    dsimp only
    split
    · exact .inl ⟨rfl, st, rfl, h⟩
    · split
      · exact .inr ⟨Nat.lt_succ_self _, rfl⟩
      · cases row.snapshot.get "event_type" with
        | none => exact ⟨_, rfl⟩
        | some kind =>
          dsimp only
          split
          · exact .inl ⟨rfl, _, rfl, h.events, congrArg (· + 1) h.evidence, h.newly⟩
          · exact .inr ⟨Nat.lt_succ_self _, rfl⟩

/-- Counting never takes a conflict back. -/
theorem event_mono {counts counts' : Counts} {row : EventRow}
    (h : previewEvent isZero classify counts row = some counts') :
    counts.conflictingEvidence ≤ counts'.conflictingEvidence := by
  unfold previewEvent at h
  split at h
  · exact nomatch h
  · dsimp only at h
    split at h
    · obtain rfl := Option.some.inj h
      exact le_refl _
    · obtain rfl := Option.some.inj h
      exact Nat.le_add_right _ _

theorem evidence_mono {counts counts' : Counts} {row : EvidenceRow}
    (h : previewEvidence isZero classify counts row = some counts') :
    counts.conflictingEvidence ≤ counts'.conflictingEvidence := by
  unfold previewEvidence at h
  split at h
  · exact nomatch h
  · dsimp only at h
    split at h
    · obtain rfl := Option.some.inj h
      exact le_refl _
    · split at h
      · obtain rfl := Option.some.inj h
        exact Nat.le_add_right _ _
      · split at h
        · exact nomatch h
        · split at h
          · obtain rfl := Option.some.inj h
            exact le_refl _
          · obtain rfl := Option.some.inj h
            exact Nat.le_add_right _ _

end

/-! ### Pass by pass -/

theorem foldlM_mono {α : Type} {f : Counts → α → Option Counts}
    (hmono : ∀ c row c', f c row = some c' → c.conflictingEvidence ≤ c'.conflictingEvidence)
    {rows : List α} {counts counts' : Counts} (h : rows.foldlM f counts = some counts') :
    counts.conflictingEvidence ≤ counts'.conflictingEvidence := by
  induction rows generalizing counts with
  | nil =>
    obtain rfl := Option.some.inj h
    exact le_refl _
  | cons row rows ih =>
    obtain ⟨c, hrow, hrest⟩ := Option.bind_eq_some_iff.mp h
    exact (hmono _ _ _ hrow).trans (ih hrest)

/-- One step after the other. -/
theorem Agrees.bind {counts : Counts} {counted : Option Counts} {passed : Except Stop Pass}
    (h : Agrees counts counted passed) {f : Counts → Option Counts} {g : Pass → Except Stop Pass}
    (hmono : ∀ c c', f c = some c' → c.conflictingEvidence ≤ c'.conflictingEvidence)
    (hnext : ∀ c st, Tracks c st → Agrees c (f c) (g st)) :
    Agrees counts (counted.bind f) (passed >>= g) := by
  cases counted with
  | none =>
    obtain ⟨stop, rfl⟩ := h
    exact ⟨stop, rfl⟩
  | some counts₁ =>
    rcases h with ⟨hsame, st, rfl, htracks⟩ | ⟨hlt, rfl⟩
    · have hrest := hnext counts₁ st htracks
      unfold Agrees at hrest ⊢
      rw [hsame] at hrest
      exact hrest
    · show Agrees counts (f counts₁) (.error .conflict)
      cases hrest : f counts₁ with
      | none => exact ⟨_, rfl⟩
      | some counts₂ => exact .inr ⟨hlt.trans_le (hmono _ _ hrest), rfl⟩

/-- **A pass and its count agree** when they agree on every row. -/
theorem foldlM_agrees {α : Type} {f : Counts → α → Option Counts} {g : Pass → α → Except Stop Pass}
    (hmono : ∀ c row c', f c row = some c' → c.conflictingEvidence ≤ c'.conflictingEvidence)
    (hrow : ∀ {c st}, Tracks c st → ∀ row, Agrees c (f c row) (g st row)) (rows : List α)
    {counts : Counts} {st : Pass} (h : Tracks counts st) :
    Agrees counts (rows.foldlM f counts) (rows.foldlM g st) := by
  induction rows generalizing counts st with
  | nil => exact .inl ⟨rfl, st, rfl, h⟩
  | cons row rows ih =>
    rw [List.foldlM_cons, List.foldlM_cons]
    exact (hrow h row).bind (fun c c' hc => foldlM_mono hmono hc) fun c st hst => ih hst

/-- Two counts together. -/
def Counts.add (c d : Counts) : Counts :=
  ⟨c.changedEvents + d.changedEvents, c.changedEvidence + d.changedEvidence,
    c.newlyDetectable + d.newlyDetectable, c.conflictingEvidence + d.conflictingEvidence⟩

theorem Counts.add_right_comm (b c d : Counts) : (b.add c).add d = (b.add d).add c := by
  simp only [Counts.add, Nat.add_right_comm]

section

variable (isZero : Str → Bool) (classify : Classifier)

/-- A row adds the same to whatever was counted before. -/
theorem previewEvent_add (counts : Counts) (row : EventRow) :
    previewEvent isZero classify counts row =
      (previewEvent isZero classify ⟨0, 0, 0, 0⟩ row).map counts.add := by
  unfold previewEvent
  split
  · rfl
  · dsimp only
    split
    · rfl
    · simp [Counts.add]

theorem previewEvidence_add (counts : Counts) (row : EvidenceRow) :
    previewEvidence isZero classify counts row =
      (previewEvidence isZero classify ⟨0, 0, 0, 0⟩ row).map counts.add := by
  unfold previewEvidence
  split
  · rfl
  · dsimp only
    split
    · rfl
    · split
      · rfl
      · split
        · rfl
        · split
          · rfl
          · rfl

end

theorem comm_of_add {α : Type} {f : Counts → α → Option Counts}
    (hadd : ∀ c row, f c row = (f ⟨0, 0, 0, 0⟩ row).map c.add) (b : Counts) (x y : α) :
    ((f b x).bind fun b => f b y) = (f b y).bind fun b => f b x := by
  rw [hadd b x, hadd b y, Option.bind_map, Option.bind_map]
  simp only [Function.comp_def]
  rw [funext fun c => hadd (b.add c) y, funext fun c => hadd (b.add c) x]
  cases f ⟨0, 0, 0, 0⟩ x with
  | none => cases f ⟨0, 0, 0, 0⟩ y <;> rfl
  | some c =>
    cases f ⟨0, 0, 0, 0⟩ y with
    | none => rfl
    | some d => exact congrArg some (b.add_right_comm c d)

section

variable (isZero : Str → Bool) (classify : Classifier) (db : Db)

/-- The two passes. -/
def passes : Except Stop Pass := do
  let events := inOrder EventRow.key db.events.rows
  let st ← events.foldlM (reparseEvent isZero classify) ⟨db, 0, 0, []⟩
  (inOrder EvidenceRow.key db.evidence.rows).foldlM (reparseEvidence isZero classify) st

theorem preview_agrees : Agrees ⟨0, 0, 0, 0⟩ (preview isZero classify db)
    (passes isZero classify db) := by
  have hevents : db.events.rows.foldlM (previewEvent isZero classify) ⟨0, 0, 0, 0⟩ =
      (inOrder EventRow.key db.events.rows).foldlM (previewEvent isZero classify) ⟨0, 0, 0, 0⟩ :=
    foldlM_perm (comm_of_add (previewEvent_add isZero classify))
      (List.perm_insertionSort _ _).symm _
  have hevidence : ∀ c, db.evidence.rows.foldlM (previewEvidence isZero classify) c =
      (inOrder EvidenceRow.key db.evidence.rows).foldlM (previewEvidence isZero classify) c :=
    foldlM_perm (comm_of_add (previewEvidence_add isZero classify))
      (List.perm_insertionSort _ _).symm
  have hpreview : preview isZero classify db =
      ((inOrder EventRow.key db.events.rows).foldlM (previewEvent isZero classify)
        ⟨0, 0, 0, 0⟩).bind
        ((inOrder EvidenceRow.key db.evidence.rows).foldlM (previewEvidence isZero classify)) := by
    rw [← hevents, ← funext hevidence]
    rfl
  rw [hpreview]
  exact (foldlM_agrees (fun _ _ _ h => event_mono h) (fun h => event_agrees h) _
    ⟨rfl, rfl, rfl⟩).bind (fun c c' h => foldlM_mono (fun _ _ _ h => evidence_mono h) h)
    fun c st h => foldlM_agrees (fun _ _ _ h => evidence_mono h) (fun h => evidence_agrees h) _ h

/-- **The dry run predicts the re-parse.** It reports no conflict exactly when the re-parse raises
none, and then the re-parse returns its counts; where it raises, so does the re-parse. -/
theorem preview_predicts (detect : Db → List EventRow → Bool → Option Db) :
    match preview isZero classify db with
    | none => ∃ stop, reparseSshd isZero classify detect db = .error stop
    | some counts =>
      (counts.conflictingEvidence = 0 ↔
        reparseSshd isZero classify detect db ≠ .error .conflict) ∧
      ∀ db' report, reparseSshd isZero classify detect db = .ok (db', report) →
        report = ⟨counts.changedEvents, counts.changedEvidence, counts.newlyDetectable⟩ := by
  have hagrees := preview_agrees isZero classify db
  have hreparse : reparseSshd isZero classify detect db = passes isZero classify db >>= fun st =>
      match detect st.db ((st.newlyDetectable.insertionSort fun a b =>
        toLex (a.1, toLex a.2) ≤ toLex (b.1, toLex b.2)).filterMap fun k => st.db.events.find? k.2)
        (0 < st.changedEvidence) with
      | none => .error .raised
      | some db => .ok (db, ⟨st.changedEvents, st.changedEvidence, st.newlyDetectable.length⟩) := by
    rw [passes, bind_assoc]
    rfl
  rw [hreparse]
  cases hcounted : preview isZero classify db with
  | none =>
    rw [hcounted] at hagrees
    obtain ⟨stop, hstop⟩ := hagrees
    rw [hstop]
    exact ⟨stop, rfl⟩
  | some counts =>
    rw [hcounted] at hagrees
    rcases hagrees with ⟨hzero, st, hst, htracks⟩ | ⟨hpos, hst⟩
    · rw [hst]
      refine ⟨⟨fun _ h => ?_, fun _ => hzero⟩, fun db' report h => ?_⟩
      · dsimp only [bind, Except.bind] at h
        split at h
        · exact nomatch h
        · exact nomatch h
      · dsimp only [bind, Except.bind] at h
        split at h
        · exact nomatch h
        · obtain ⟨-, rfl⟩ := Prod.mk.inj (Except.ok.inj h)
          rw [htracks.events, htracks.evidence, htracks.newly]
    · rw [hst]
      refine ⟨⟨fun hzero => absurd hzero (by omega), fun h => absurd rfl h⟩, fun _ _ h => ?_⟩
      exact nomatch h

end

end RiskOps.Telemetry.Reparse
