import RiskOps.Telemetry.StoreComplete
import RiskOps.Telemetry.StoreRecords
import RiskOps.Telemetry.StoreExactlyOnce
import RiskOps.Telemetry.StoreTriage

/-!
# RiskOps.Telemetry.StoreReparse — a re-parse leaves detection complete when its triggers reach

Model of `reparse_sshd` on the tables of the store. **What is read again** are the events and the
evidence; the texts of a record are never written. **What triggers detection** are only the records
that became failures and the failures that changed their peer. A record that became a success, or
one with another user name, can complete a rule without one, and is then left to
`rebuild_detections`; where the new matches are all joined by triggers and by evidence there was,
nothing is left (`reparse_complete_iff`).
-/

namespace RiskOps.Telemetry.Store

open RiskOps.Lib RiskOps.Lib.Components Sshd

/-! ### Reading a record again -/

/-- The texts of a stored record that `_classify` is given. -/
structure Texts where
  message : List Char
  identifier : List Char
  unit : List Char

/-- A classifier of messages. -/
abbrev Classifier := List Char → List Char → List Char → Parsed

/-- `FAILURE_KINDS`. -/
def failureKind : EventKind → Bool
  | .authFailure | .invalidUser | .preauthAbort => true
  | _ => false

/-- `_compatible_evidence_kind`. -/
def compatibleEvidenceKind (old new : EventKind) : Bool :=
  (failureType old && failureType new) || (successType old && successType new)

/-- What `reparse_sshd` returns. -/
structure ReparseReport where
  changedEvents : Nat
  changedEvidence : Nat
  newlyDetectable : Nat
  deriving DecidableEq

/-- The state of its two loops; `newly` holds the rows that are newly detectable, as updated. -/
structure Reparse where
  db : Db
  changedEvents : Nat
  changedEvidence : Nat
  newly : List Row

/-- An event with its columns written. -/
def StoredEvent.put (e : StoredEvent) (row : Row) : StoredEvent := { e with row := row }

/-- Evidence with its snapshot written. -/
def Evidence.put (e : Evidence) (row : Row) : Evidence := { e with row := row }

/-- `ORDER BY source_id,event_id`. -/
def inKeyOrder {α : Type} (key : α → Key) (rows : List α) : List α :=
  rows.insertionSort fun a b => toLex (key a) ≤ toLex (key b)

theorem mem_inKeyOrder {α : Type} {key : α → Key} {rows : List α} {x : α} :
    x ∈ inKeyOrder key rows ↔ x ∈ rows := List.mem_insertionSort _

section

variable (classify : Classifier) (texts : Key → Texts)

/-- `enrich`: the columns of a record as the classifier reads its texts. -/
def enrich (row : Row) : Row :=
  let t := texts row.key
  let parsed := classify t.message t.identifier t.unit
  { row with eventType := parsed.eventKind, srcIp := parsed.peerIp, sshUser := parsed.username }

/-- A new failure, or one with another peer, triggers detection. -/
def newlyDetectable (row : Row) : Bool :=
  let updated := enrich classify texts row
  failureKind updated.eventType && updated.srcIp.isSome &&
    (!failureType row.eventType || decide (row.srcIp ≠ updated.srcIp))

/-- Evidence must keep its peer and its outcome. -/
def conflicts (row : Row) : Bool :=
  let updated := enrich classify texts row
  decide (row.srcIp ≠ updated.srcIp) || !compatibleEvidenceKind row.eventType updated.eventType

/-- One row of `events`. -/
def reparseEvent (st : Reparse) (e : StoredEvent) : Except String Reparse :=
  let updated := enrich classify texts e.row
  if e.row = updated then .ok st
  else if e.incidentId.any (fun i => !i.isEmpty) && conflicts classify texts e.row then
    .error ("Parser changes an existing incident's peer or evidence classification; "
      ++ "review before applying")
  else .ok { st with
    db := { st.db with
      events := st.db.events.update (fun x => if x.key = e.key then x.put updated else x)
        (fun x => by
          split <;> simp_all [StoredEvent.key, StoredEvent.put, updated, enrich, Row.key]) }
    changedEvents := st.changedEvents + 1
    newly := if newlyDetectable classify texts e.row then st.newly ++ [updated] else st.newly }

/-- One row of `incident_evidence`. -/
def reparseEvidence (st : Reparse) (e : Evidence) : Except String Reparse :=
  let updated := enrich classify texts e.row
  if e.row = updated then .ok st
  else if conflicts classify texts e.row then
    .error "Parser changes retained incident evidence; review before applying"
  else .ok { st with
    db := { st.db with
      evidence := st.db.evidence.update
        (fun x => if x.key = e.key then x.put updated else x)
        (fun x => by split <;> simp_all [Evidence.key, Evidence.put, updated, enrich, Row.key]) }
    changedEvidence := st.changedEvidence + 1 }

/-- The two loops. -/
def reparseRows (db : Db) : Except String Reparse := do
  let st ← (inKeyOrder StoredEvent.key db.events.rows).foldlM (reparseEvent classify texts)
    ⟨db, 0, 0, []⟩
  (inKeyOrder Evidence.key st.db.evidence.rows).foldlM (reparseEvidence classify texts) st

/-- The incidents that are not merged. -/
def unmerged (db : Db) : List Id :=
  (db.incidents.select fun x => x.mergedInto.isNone).map Incident.incidentId

/-- `reparse_sshd`. -/
def reparseSshd (uuid : Nat → List Char) (now : ℚ) (db : Db) :
    Except String (Db × ReparseReport) := do
  let st ← reparseRows classify texts db
  let (db, changed) ← detectAdvanced uuid now st.db (orderRows st.newly)
  let dirty := changed ++ if st.changedEvidence = 0 then [] else unmerged db
  .ok (((dirty.map (canonicalIncident db)).dedup).foldl refreshIncident db,
    ⟨st.changedEvents, st.changedEvidence, st.newly.length⟩)

/-- The store after the call; one that raises is rolled back. -/
def afterReparse (uuid : Nat → List Char) (now : ℚ) (db : Db) : Db :=
  match reparseSshd classify texts uuid now db with
  | .ok (db', _) => db'
  | .error _ => db

end

/-! ### What the loops leave -/

section Loops

variable {classify : Classifier} {texts : Key → Texts}

@[simp] theorem enrich_key (row : Row) : (enrich classify texts row).key = row.key := rfl

@[simp] theorem enrich_enrich (row : Row) :
    enrich classify texts (enrich classify texts row) = enrich classify texts row := rfl

/-- A record that reads as before triggers nothing. -/
theorem newlyDetectable_of_same {row : Row} (h : row = enrich classify texts row) :
    newlyDetectable classify texts row = false := by
  have hkinds : ∀ kind, failureKind kind = true → failureType kind = true := fun kind hk => by
    cases kind <;> first | rfl | cases hk
  rw [newlyDetectable, ← h]
  cases hk : failureKind row.eventType with
  | false => rfl
  | true => simp [hkinds _ hk]

/-- Some rows with the keys of `done` are read again. -/
def rereadKeys {α : Type} (row : α → Row) (put : α → Row → α) (classify : Classifier)
    (texts : Key → Texts) (done : List Key) (xs : List α) : List α :=
  xs.map fun x => if (row x).key ∈ done then put x (enrich classify texts (row x)) else x

section Keys

variable {α : Type} {row : α → Row} {put : α → Row → α} {done : List Key} {xs : List α} {x : α}

/-- One more is read again. -/
theorem rereadKeys_put (hrow : ∀ x r, row (put x r) = r)
    (hput : ∀ x r r', put (put x r) r' = put x r')
    (hnodup : (xs.map fun x => (row x).key).Nodup) (hx : x ∈ xs) :
    (rereadKeys row put classify texts done xs).map (fun y => if (row y).key = (row x).key then
        put y (enrich classify texts (row x)) else y) =
      rereadKeys row put classify texts (done ++ [(row x).key]) xs := by
  rw [rereadKeys, rereadKeys, List.map_map]
  refine List.map_congr_left fun y hy => ?_
  rw [Function.comp_apply]
  by_cases hkey : (row y).key = (row x).key
  · obtain rfl : y = x := List.inj_on_of_nodup_map hnodup hy hx hkey
    by_cases hdone : (row y).key ∈ done
    · simp [hdone, hrow, hput]
    · simp [hdone]
  · by_cases hdone : (row y).key ∈ done
    · simp [hdone, hrow, hkey]
    · simp [hdone, hkey]

/-- One that reads as before need not be. -/
theorem rereadKeys_same (hself : ∀ x, put x (row x) = x)
    (hnodup : (xs.map fun x => (row x).key).Nodup) (hx : x ∈ xs)
    (hsame : row x = enrich classify texts (row x)) :
    rereadKeys row put classify texts done xs =
      rereadKeys row put classify texts (done ++ [(row x).key]) xs := by
  refine List.map_congr_left fun y hy => ?_
  by_cases hkey : (row y).key = (row x).key
  · obtain rfl : y = x := List.inj_on_of_nodup_map hnodup hy hx hkey
    simp [← hsame, hself]
  · simp [hkey]

theorem rereadKeys_all (h : ∀ x ∈ xs, (row x).key ∈ done) :
    rereadKeys row put classify texts done xs =
      xs.map fun x => put x (enrich classify texts (row x)) :=
  List.map_congr_left fun x hx => if_pos (h x hx)

end Keys

/-- The events with the keys of `done` are read again. -/
abbrev rereadEvents (classify : Classifier) (texts : Key → Texts) (done : List Key)
    (events : List StoredEvent) : List StoredEvent :=
  rereadKeys StoredEvent.row StoredEvent.put classify texts done events

/-- The evidence with the keys of `done` is read again. -/
abbrev rereadEvidence (classify : Classifier) (texts : Key → Texts) (done : List Key)
    (evidence : List Evidence) : List Evidence :=
  rereadKeys Evidence.row Evidence.put classify texts done evidence

variable {st st' : Reparse} {done : List Key}

theorem reparseEvent_spec {e : StoredEvent} {events : List StoredEvent}
    (hevents : st.db.events.rows = rereadEvents classify texts done events) (he : e ∈ events)
    (hnodup : (events.map StoredEvent.key).Nodup) (hok : reparseEvent classify texts st e = .ok st')
    :
    st'.db = { st.db with events := st'.db.events } ∧
      st'.db.events.rows = rereadEvents classify texts (done ++ [e.key]) events ∧
      st'.newly = st.newly ++ ([e.row].filter (newlyDetectable classify texts)).map
        (enrich classify texts) := by
  rw [reparseEvent] at hok
  dsimp only at hok
  split at hok
  · rename_i hsame
    obtain rfl := Except.ok.inj hok
    refine ⟨rfl, hevents.trans (rereadKeys_same (fun _ => rfl) hnodup he hsame), ?_⟩
    rw [List.filter_singleton, newlyDetectable_of_same hsame]
    simp
  · split at hok
    · cases hok
    · obtain rfl := Except.ok.inj hok
      refine ⟨rfl, ?_, ?_⟩
      · have hput : (rereadEvents classify texts done events).map (fun y =>
            if y.row.key = e.row.key then y.put (enrich classify texts e.row) else y) =
              rereadEvents classify texts (done ++ [e.row.key]) events :=
          rereadKeys_put (fun _ _ => rfl) (fun _ _ _ => rfl) hnodup he
        rw [← hevents] at hput
        exact hput
      · dsimp only
        rw [List.filter_singleton]
        split
        · rename_i hnewly
          simp [hnewly]
        · rename_i hnot
          simp [hnot]

theorem reparseEvents_spec {es : List StoredEvent} {events : List StoredEvent}
    (hevents : st.db.events.rows = rereadEvents classify texts done events)
    (hmem : ∀ e ∈ es, e ∈ events) (hnodup : (events.map StoredEvent.key).Nodup)
    (hok : es.foldlM (reparseEvent classify texts) st = .ok st') :
    st'.db = { st.db with events := st'.db.events } ∧
      st'.db.events.rows = rereadEvents classify texts (done ++ es.map StoredEvent.key) events ∧
      st'.newly = st.newly ++ ((es.map StoredEvent.row).filter (newlyDetectable classify texts)).map
        (enrich classify texts) := by
  induction es generalizing st done with
  | nil =>
    obtain rfl := Except.ok.inj hok
    simp [hevents]
  | cons e es ih =>
    rw [List.foldlM_cons, bind_eq_ok] at hok
    obtain ⟨st₁, hfirst, hrest⟩ := hok
    obtain ⟨hdb₁, hevents₁, hnewly₁⟩ :=
      reparseEvent_spec hevents (hmem e List.mem_cons_self) hnodup hfirst
    obtain ⟨hdb, hrows, hnewly⟩ := ih hevents₁ (fun x hx => hmem x (List.mem_cons_of_mem _ hx))
      hrest
    refine ⟨?_, ?_, ?_⟩
    · rw [hdb, hdb₁]
    · rw [hrows, List.append_assoc]
      rfl
    · rw [hnewly, hnewly₁, List.append_assoc, ← List.map_append, ← List.filter_append]
      rfl

theorem reparseEvidence_spec {es : List Evidence} {evidence : List Evidence}
    (hevidence : st.db.evidence.rows = rereadEvidence classify texts done evidence)
    (hmem : ∀ e ∈ es, e ∈ evidence) (hnodup : (evidence.map Evidence.key).Nodup)
    (hok : es.foldlM (reparseEvidence classify texts) st = .ok st') :
    st'.db = { st.db with evidence := st'.db.evidence } ∧
      st'.db.evidence.rows = rereadEvidence classify texts (done ++ es.map Evidence.key) evidence ∧
      st'.newly = st.newly := by
  induction es generalizing st done with
  | nil =>
    obtain rfl := Except.ok.inj hok
    simp [hevidence]
  | cons e es ih =>
    rw [List.foldlM_cons, bind_eq_ok] at hok
    obtain ⟨st₁, hfirst, hrest⟩ := hok
    have hin := hmem e List.mem_cons_self
    have hstep : st₁.db = { st.db with evidence := st₁.db.evidence } ∧
        st₁.db.evidence.rows = rereadEvidence classify texts (done ++ [e.key]) evidence ∧
        st₁.newly = st.newly := by
      rw [reparseEvidence] at hfirst
      dsimp only at hfirst
      split at hfirst
      · rename_i hsame
        obtain rfl := Except.ok.inj hfirst
        exact ⟨rfl, hevidence.trans (rereadKeys_same (fun _ => rfl) hnodup hin hsame), rfl⟩
      · split at hfirst
        · cases hfirst
        · obtain rfl := Except.ok.inj hfirst
          refine ⟨rfl, ?_, rfl⟩
          have hput : (rereadEvidence classify texts done evidence).map (fun y =>
              if y.row.key = e.row.key then y.put (enrich classify texts e.row) else y) =
                rereadEvidence classify texts (done ++ [e.row.key]) evidence :=
            rereadKeys_put (fun _ _ => rfl) (fun _ _ _ => rfl) hnodup hin
          rw [← hevidence] at hput
          exact hput
    obtain ⟨hdb₁, hevidence₁, hnewly₁⟩ := hstep
    obtain ⟨hdb, hrows, hnewly⟩ := ih hevidence₁ (fun x hx => hmem x (List.mem_cons_of_mem _ hx))
      hrest
    refine ⟨?_, ?_, hnewly.trans hnewly₁⟩
    · rw [hdb, hdb₁]
    · rw [hrows, List.append_assoc]
      rfl

/-- The store with every record read again. -/
def rereadDb (classify : Classifier) (texts : Key → Texts) (db : Db) : Db :=
  { db with
    events := db.events.update (fun e => e.put (enrich classify texts e.row)) fun _ => rfl
    evidence := db.evidence.update (fun e => e.put (enrich classify texts e.row)) fun _ => rfl }

/-- The rows that trigger detection, in order of time. -/
def triggerRows (classify : Classifier) (texts : Key → Texts) (db : Db) : List Row :=
  orderRows ((((inKeyOrder StoredEvent.key db.events.rows).map StoredEvent.row).filter
    (newlyDetectable classify texts)).map (enrich classify texts))

/-- **The two loops read every record again**, or they raise. -/
theorem reparseRows_ok {db : Db} (hok : reparseRows classify texts db = .ok st) :
    st.db = rereadDb classify texts db ∧ orderRows st.newly = triggerRows classify texts db := by
  have htable : ∀ {ρ : Type} {key : ρ → Key} {t t' : Table key}, t.rows = t'.rows → t = t' :=
    fun {ρ key t t'} h => by
      cases t
      cases t'
      cases h
      rfl
  rw [reparseRows, bind_eq_ok] at hok
  obtain ⟨st₁, hevents, hevidence⟩ := hok
  have hall : ∀ e ∈ db.events.rows,
      e.row.key ∈ [] ++ (inKeyOrder StoredEvent.key db.events.rows).map StoredEvent.key :=
    fun e he => by
      rw [List.nil_append]
      exact List.mem_map_of_mem (mem_inKeyOrder.mpr he)
  have hnone : ∀ {α : Type} {row : α → Row} {put : α → Row → α} (xs : List α),
      xs = rereadKeys row put classify texts [] xs := fun xs => by simp [rereadKeys]
  obtain ⟨hdb₁, hrows₁, hnewly₁⟩ := reparseEvents_spec (hnone db.events.rows)
    (fun e he => mem_inKeyOrder.mp he) db.events.nodup hevents
  have hsame : st₁.db.evidence = db.evidence := by rw [hdb₁]
  have hall' : ∀ e ∈ st₁.db.evidence.rows,
      e.row.key ∈ [] ++ (inKeyOrder Evidence.key st₁.db.evidence.rows).map Evidence.key :=
    fun e he => by
      rw [List.nil_append]
      exact List.mem_map_of_mem (mem_inKeyOrder.mpr he)
  obtain ⟨hdb, hrows, hnewly⟩ := reparseEvidence_spec (hnone st₁.db.evidence.rows)
    (fun e he => mem_inKeyOrder.mp he) st₁.db.evidence.nodup hevidence
  rw [rereadEvents, rereadKeys_all hall] at hrows₁
  rw [rereadEvidence, rereadKeys_all hall', hsame] at hrows
  refine ⟨?_, ?_⟩
  · have he : st₁.db.events = (rereadDb classify texts db).events := htable hrows₁
    have hv : st.db.evidence = (rereadDb classify texts db).evidence := htable hrows
    rw [hdb, hv, hdb₁, he]
    rfl
  · rw [hnewly, hnewly₁, List.nil_append]
    rfl

end Loops

/-! ### Which records the incidents hold together -/

/-- The incidents hold together what a family of edges links. -/
def View.Groups (v : View) (H : Set (RuleId × Set Key)) : Prop :=
  ∀ a b, (∃ i, v.owner a = some i ∧ v.owner b = some i) ↔ Components.Linked H a b

/-- What each incident holds, as an edge. -/
def heldEdges (v : View) : Set (RuleId × Set Key) := {p | ∃ i, p.2 = {k | v.owner k = some i}}

theorem groups_heldEdges (v : View) : v.Groups (heldEdges v) := by
  refine fun a b => ⟨fun ⟨i, ha, hb⟩ => ?_, fun h => ?_⟩
  · have hedge : (RuleId.burst, {k | v.owner k = some i}) ∈ heldEdges v := ⟨i, rfl⟩
    exact linked_of_mem hedge ha hb
  · have hshare : ∀ {c d}, Share (heldEdges v) c d → ∃ i, v.owner c = some i ∧ v.owner d = some i :=
      fun ⟨p, ⟨i, hp⟩, hc, hd⟩ => ⟨i, by rwa [hp] at hc, by rwa [hp] at hd⟩
    induction h with
    | single hs => exact hshare hs
    | tail _ hs ih =>
      obtain ⟨i, ha, hb⟩ := ih
      obtain ⟨j, hb', hc⟩ := hshare hs
      obtain rfl : i = j := Option.some.inj (hb.symm.trans hb')
      exact ⟨i, ha, hc⟩

/-- The evidence of a match is in one incident exactly when it is linked. -/
theorem View.Groups.whole_iff {v : View} {H : Set (RuleId × Set Key)} (h : v.Groups H)
    {m : RuleMatch} (hne : m.evidence ≠ []) : v.Whole m ↔
      ∀ a ∈ m.evidence, ∀ b ∈ m.evidence, Components.Linked H a.key b.key := by
  constructor
  · intro ⟨i, hi⟩ a ha b hb
    exact (h _ _).mp ⟨i, hi a ha, hi b hb⟩
  · intro hlinked
    obtain ⟨a, ha⟩ := List.exists_mem_of_ne_nil _ hne
    obtain ⟨i, hi, -⟩ := (h _ _).mpr (hlinked a ha a ha)
    refine ⟨i, fun b hb => ?_⟩
    obtain ⟨j, hj, hbj⟩ := (h _ _).mpr (hlinked a ha b hb)
    rw [hbj, ← hj, hi]

section Groups

variable {v v' : View} {m : RuleMatch} {i : Id} {H : Set (RuleId × Set Key)}

theorem View.Groups.applied (hgroups : v.Groups H) (hopen : v.OwnersOpen)
    (h : Applied v v' m i) : v'.Groups (insert (matchEdge m) H) := by
  have hkeys : ∀ k, k ∈ (matchEdge m).2 ↔ k ∈ m.evidence.map Row.key := fun k => by
    rw [List.mem_map]
    exact Iff.rfl
  have hmeets : ∀ j, v.Meets m j ↔ ∃ b ∈ (matchEdge m).2, v.owner b = some j := fun j =>
    ⟨fun ⟨row, hrow, howner⟩ => ⟨row.key, ⟨row, hrow, rfl⟩, howner⟩,
      fun ⟨_, ⟨row, hrow, hkey⟩, howner⟩ => ⟨row, hrow, hkey ▸ howner⟩⟩
  refine same_join hgroups (i := i) ?_ (fun a ha => h.taken a (.inl ((hkeys a).mp ha)))
    (fun a j ha hb => h.taken a (.inr ⟨j, ha, (hmeets j).mpr hb⟩)) fun a ha hfree => ?_
  · rcases h.chosen with hm | ⟨hnone, -⟩
    · exact .inl ((hmeets i).mp hm)
    · refine .inr fun a ha => ?_
      obtain ⟨c, hc⟩ := hopen a i ha
      rw [hnone] at hc
      cases hc
  · have hkept := h.kept a (fun hmem => ha ((hkeys a).mpr hmem)) fun j hj hm => by
      obtain ⟨b, hb, hbj⟩ := (hmeets j).mp hm
      exact hfree b hb j hj hbj
    rw [View.owner, View.owner, hkept]

end Groups

section Run

variable {uuid : Nat → List Char} {now : ℚ} {db db' : Db} {H : Set (RuleId × Set Key)}

theorem applyMatches_groups {ms : List RuleMatch} {changed changed' : List Id}
    (hgroups : db.view.Groups H) (hopen : db.view.OwnersOpen)
    (hok : applyMatches uuid now (db, changed) ms = .ok (db', changed')) :
    db'.view.Groups (H ∪ matchEdges ms) := by
  induction ms generalizing db changed H with
  | nil =>
    obtain ⟨rfl, -⟩ := Prod.mk.inj (Except.ok.inj hok)
    have hnil : matchEdges [] = ∅ := by simp [matchEdges]
    rwa [hnil, Set.union_empty]
  | cons m ms ih =>
    rw [applyMatches, bind_eq_ok] at hok
    obtain ⟨⟨db₁, i⟩, happly, hrest⟩ := hok
    have happlied := applyMatch_applied hopen happly
    have hjoined := ih (hgroups.applied hopen happlied) (happlied.ownersOpen hopen) hrest
    rwa [matchEdges_cons, Set.union_insert, ← Set.insert_union]

theorem runQueries_groups {qs : List Query} {changed changed' : List Id}
    (hgroups : db.view.Groups H) (hopen : db.view.OwnersOpen)
    (hok : runQueries uuid now (db, changed) qs = .ok (db', changed')) :
    db'.view.Groups (H ∪ queryEdges db.view.rows qs) ∧ db'.view.rows = db.view.rows ∧
      db'.view.OwnersOpen := by
  induction qs generalizing db changed H with
  | nil =>
    obtain ⟨rfl, -⟩ := Prod.mk.inj (Except.ok.inj hok)
    have hnil : queryEdges db.view.rows [] = ∅ := by simp [queryEdges]
    rw [hnil, Set.union_empty]
    exact ⟨hgroups, rfl, hopen⟩
  | cons q qs ih =>
    rw [runQueries, bind_eq_ok] at hok
    obtain ⟨⟨db₁, changed₁⟩, hmatches, hrest⟩ := hok
    dsimp only at hmatches
    rw [candidates_eq] at hmatches
    obtain ⟨hopen₁, hrows₁, -, -⟩ := applyMatches_back hopen hmatches
    obtain ⟨hjoined, hrows, hopen'⟩ :=
      ih (applyMatches_groups hgroups hopen hmatches) hopen₁ hrest
    rw [hrows₁] at hjoined hrows
    refine ⟨?_, hrows, hopen'⟩
    rwa [queryEdges_cons, ← Set.union_assoc]

end Run

/-! ### The call -/

section Call

variable {classify : Classifier} {texts : Key → Texts} {uuid : Nat → List Char} {now : ℚ}

theorem view_rereadDb (db : Db) : (rereadDb classify texts db).view.rows =
      db.view.rows.map (enrich classify texts) ∧
    (rereadDb classify texts db).view.owner = db.view.owner ∧
    (rereadDb classify texts db).view.incident = db.view.incident := by
  refine ⟨?_, funext fun k => ?_, rfl⟩
  · simp only [Db.view, rereadDb, Table.update, List.map_map]
    rfl
  · have hfind : (rereadDb classify texts db).evidence.find? k = (db.evidence.find? k).map
        fun e => e.put (enrich classify texts e.row) :=
      Table.find?_update db.evidence (fun e => e.put (enrich classify texts e.row)) (fun _ => rfl) k
    simp only [View.owner, Db.view, hfind, Option.map_map]
    rfl

/-- **Whether the triggers reach.** Each match that the detector finds among the records as they are
read now is linked by what the incidents hold and by the matches around the triggers. -/
def TriggersReach (classify : Classifier) (texts : Key → Texts) (db : Db) : Prop :=
  let rows := db.view.rows.map (enrich classify texts)
  ∀ peer, ∀ m ∈ peerMatches rows peer, ∀ a ∈ m.evidence, ∀ b ∈ m.evidence, Components.Linked
    (heldEdges db.view ∪ queryEdges rows (queries (triggerRows classify texts db))) a.key b.key

/-- The raw columns of a stored event: all but what the classifier reads and the incident. -/
def StoredEvent.raw (e : StoredEvent) : Key × ℚ × List Char × List Char × ℚ :=
  (e.key, e.row.eventTs, e.hostname, e.message, e.receivedAt)

/-- **A call in its parts**: the records read again, detection around the triggers, refreshes. -/
theorem reparseSshd_ok {db db' : Db} {report : ReparseReport}
    (hok : reparseSshd classify texts uuid now db = .ok (db', report)) :
    ∃ (db₁ : Db) (changed ids : List Id), runQueries uuid now (rereadDb classify texts db, [])
        (queries (triggerRows classify texts db)) = .ok (db₁, changed) ∧
      db' = ids.foldl refreshIncident db₁ := by
  rw [reparseSshd, bind_eq_ok] at hok
  obtain ⟨st, hrows, hok⟩ := hok
  obtain ⟨⟨db₁, dirty⟩, hdetect, hok⟩ := bind_eq_ok.mp hok
  obtain ⟨hdb, htriggers⟩ := reparseRows_ok hrows
  rw [hdb, htriggers, detectAdvanced, bind_eq_ok] at hdetect
  obtain ⟨⟨db₂, changed⟩, hqueries, heq⟩ := hdetect
  obtain ⟨rfl, -⟩ := Prod.mk.inj (Except.ok.inj heq)
  obtain ⟨rfl, -⟩ := Prod.mk.inj (Except.ok.inj hok)
  exact ⟨db₂, changed, _, hqueries, rfl⟩

/-- What a call never writes. -/
theorem reparseSshd_frame {db db' : Db} {report : ReparseReport}
    (hok : reparseSshd classify texts uuid now db = .ok (db', report)) :
    db'.receipts = db.receipts ∧ db'.batches = db.batches ∧
      db'.events.rows.map StoredEvent.raw = db.events.rows.map StoredEvent.raw := by
  obtain ⟨db₁, changed, ids, hqueries, rfl⟩ := reparseSshd_ok hok
  have hdetect : detectAdvanced uuid now (rereadDb classify texts db)
      (triggerRows classify texts db) = .ok (db₁, (changed.map (canonicalIncident db₁)).dedup) := by
    rw [detectAdvanced, hqueries]
    rfl
  have htables := detectAdvanced_tables hdetect
  have hrefresh := refreshAll_tables db₁ ids
  have hrecords := (records_refreshAll ids db₁).trans (records_detectAdvanced hdetect)
  have hraw : ∀ d : Db,
      d.events.rows.map StoredEvent.raw = d.records.map StoredEvent.raw := fun d => by
    rw [Db.records, List.map_map]
    rfl
  refine ⟨?_, ?_, ?_⟩
  · exact hrefresh.2.2.trans htables.2.2
  · exact hrefresh.2.1.trans htables.2.1
  · rw [hraw, hrecords, ← hraw]
    simp only [rereadDb, Table.update, List.map_map]
    rfl

/-- **When a re-parse leaves detection complete.** A call that raises changes nothing. One that
commits leaves the receipts, the batches and the raw records as they were; and a rebuild afterwards
creates, merges and adds nothing exactly when the triggers reach. -/
theorem reparse_complete_iff {db : Db} (hopen : db.view.OwnersOpen) (classify : Classifier)
    (texts : Key → Texts) (uuid : Nat → List Char) (now : ℚ) :
    match reparseSshd classify texts uuid now db with
    | .error _ => afterReparse classify texts uuid now db = db
    | .ok (db', _) => afterReparse classify texts uuid now db = db' ∧
        db'.receipts = db.receipts ∧ db'.batches = db.batches ∧
        db'.events.rows.map StoredEvent.raw = db.events.rows.map StoredEvent.raw ∧
        ∀ uuid now, (∃ out n, rebuildDetections uuid now db' = .ok (out, ⟨n, 0, 0, 0⟩)) ↔
          TriggersReach classify texts db := by
  split
  · rename_i e he
    rw [afterReparse, he]
  · rename_i db' report hok
    obtain ⟨hreceipts, hbatches, hraw⟩ := reparseSshd_frame hok
    refine ⟨by rw [afterReparse, hok], hreceipts, hbatches, hraw, fun uuid' now' => ?_⟩
    obtain ⟨db₁, changed, ids, hqueries, rfl⟩ := reparseSshd_ok hok
    obtain ⟨hrows, howner, hincident⟩ := @view_rereadDb classify texts db
    have hopen₀ : (rereadDb classify texts db).view.OwnersOpen := fun k i hi => by
      rw [hincident]
      exact hopen k i (howner ▸ hi)
    have hgroups₀ : (rereadDb classify texts db).view.Groups (heldEdges db.view) := fun a b => by
      rw [howner]
      exact groups_heldEdges db.view a b
    obtain ⟨hgroups, hrows₁, hopen₁⟩ := runQueries_groups hgroups₀ hopen₀ hqueries
    have hsame := sameHeld_refreshAll ids db₁
    rw [rebuild_adds_nothing_iff (hsame.ownersOpen hopen₁), View.Complete, hsame.rows, hrows₁,
      hrows, TriggersReach]
    refine forall_congr' fun peer => forall₂_congr fun m hm => ?_
    rw [View.Whole, hsame.owner, ← View.Whole, hgroups.whole_iff (detectMatches_evidence hm).1,
      hrows]

end Call

/-! ### A success that triggers nothing -/

/-- A message that was not read before. -/
def unreadMessage : List Char := "Login of a from 1.2.3.4".toList

/-- The next parser reads it as a success; the other messages it reads as before. -/
def nextParser : Classifier := fun message identifier unit =>
  if message = unreadMessage then ⟨.authSuccess, some "1.2.3.4".toList, some ['a']⟩
  else Sshd.classify tallyLibrary.isWord tallyLibrary.isDecimal message identifier unit

/-- Three failed logins and the message. -/
def unread : List Op :=
  [.ingest ⟨⟨['s'], ['h'], ['a'], [loginAt 1, loginAt 2, loginAt 3,
    .obj [("event_id".toList, .str ['4']), ("timestamp".toList, .str (List.replicate 4 't')),
      ("message".toList, .str unreadMessage), ("identifier".toList, .str "sshd".toList)]],
    none, 100, Nat.toDigits 10⟩, none⟩]

/-- The texts of the four records. -/
def unreadTexts (key : Key) : Texts :=
  ⟨if key.2 = ['4'] then unreadMessage else "Failed password for a from 1.2.3.4 port 2".toList,
    "sshd".toList, []⟩

/-- A re-parse of them changes one event, and a rebuild afterwards adds it to the incident. -/
theorem unread_facts :
    (∀ e ∈ (liveAfter tallyEnv unread).db.events.rows, (unreadTexts e.key).message = e.message) ∧
    ((rebuildDetections (Nat.toDigits 10) 200 (liveAfter tallyEnv unread).db).map
      Prod.snd).toOption = some ⟨3, 0, 0, 0⟩ ∧
    (do
      let (db, report) ← reparseSshd nextParser unreadTexts (Nat.toDigits 10) 200
        (liveAfter tallyEnv unread).db
      let (_, rebuilt) ← rebuildDetections (Nat.toDigits 10) 200 db
      .ok (report, rebuilt) : Except String (ReparseReport × Rebuilt)).toOption =
        some (⟨1, 0, 0⟩, ⟨4, 0, 0, 1⟩) := by
  decide +kernel

/-- The re-parse of those records, and that a rebuild after it adds something. -/
theorem unread_reparsed : ∃ db' report, reparseSshd nextParser unreadTexts (Nat.toDigits 10) 200
    (liveAfter tallyEnv unread).db = .ok (db', report) ∧
    ¬ ∃ out n, rebuildDetections (Nat.toDigits 10) 200 db' = .ok (out, ⟨n, 0, 0, 0⟩) := by
  obtain ⟨⟨db', report⟩, hreparse, hok⟩ := bind_eq_ok.mp (eq_ok_of_toOption unread_facts.2.2)
  obtain ⟨⟨out, rebuilt⟩, hrebuild, heq⟩ := bind_eq_ok.mp hok
  obtain ⟨-, rfl⟩ := Prod.mk.inj (Except.ok.inj heq)
  refine ⟨db', report, hreparse, fun ⟨out', n, hok'⟩ => ?_⟩
  have hadded := (Prod.mk.inj (Except.ok.inj (hrebuild.symm.trans hok'))).2
  exact absurd (congrArg Rebuilt.evidenceAdded hadded) one_ne_zero

theorem success_left_behind :
    ¬ ∀ (env : Env) (ops : List Op) (classify : Classifier) (texts : Key → Texts)
      (uuid : Nat → List Char) (now : ℚ) (db' : Db) (report : ReparseReport),
      (∀ e ∈ (liveAfter env ops).db.events.rows, (texts e.key).message = e.message) →
      (∃ out n, rebuildDetections uuid now (liveAfter env ops).db = .ok (out, ⟨n, 0, 0, 0⟩)) →
      reparseSshd classify texts uuid now (liveAfter env ops).db = .ok (db', report) →
      ∃ out n, rebuildDetections uuid now db' = .ok (out, ⟨n, 0, 0, 0⟩) := by
  intro hclaim
  obtain ⟨htexts, hbefore, -⟩ := unread_facts
  obtain ⟨db', report, hreparse, hnot⟩ := unread_reparsed
  refine hnot (hclaim tallyEnv unread nextParser unreadTexts _ _ db' report htexts ?_ hreparse)
  obtain ⟨⟨out, rebuilt⟩, hrebuild, heq⟩ := map_eq_ok.mp (eq_ok_of_toOption hbefore)
  exact ⟨out, 3, by rw [hrebuild, ← heq]⟩

/-- The triggers do not reach the new success. -/
theorem unread_not_reached :
    ¬ TriggersReach nextParser unreadTexts (liveAfter tallyEnv unread).db := by
  have hcomplete := reparse_complete_iff (kept_run tallyEnv unread).ownersOpen nextParser
    unreadTexts (Nat.toDigits 10) 200
  obtain ⟨db', report, hreparse, hnot⟩ := unread_reparsed
  rw [hreparse] at hcomplete
  exact fun hreach => hnot ((hcomplete.2.2.2.2 (Nat.toDigits 10) 200).mpr hreach)

end RiskOps.Telemetry.Store
