import RiskOps.Telemetry.StoreReparse

/-!
# RiskOps.Telemetry.StoreMaintenance — maintenance settles

**What the offline tools do twice, they do once.** A match that lies in one incident stays in one,
whatever is merged later (`Applied.whole`), so a rebuild leaves detection complete and the next one
adds nothing. Evidence holds rows of the store, so once every record is read again a second
re-parse finds nothing to change. Both hold across the calls that may come between.
-/

namespace RiskOps.Telemetry.Store

open RiskOps.Lib

/-! ### What matches keep -/

/-- A property of views that stands a match among the stored rows, and a refresh. -/
structure MatchKept (I : View → Prop) : Prop where
  applied : ∀ {v v' : View} {m : RuleMatch} {i : Id}, (∀ row ∈ m.evidence, row ∈ v.rows) →
    Applied v v' m i → I v → I v'
  same : ∀ {v v' : View}, v'.SameHeld v → I v → I v'

section Kept

variable {I : View → Prop} {uuid : Nat → List Char} {now : ℚ} {db db' : Db}

theorem MatchKept.applyMatches (hI : MatchKept I) {ms : List RuleMatch} {changed changed' : List Id}
    (hopen : db.view.OwnersOpen) (hms : ∀ m ∈ ms, ∀ row ∈ m.evidence, row ∈ db.view.rows)
    (hok : Store.applyMatches uuid now (db, changed) ms = .ok (db', changed')) (h : I db.view) :
    I db'.view := by
  induction ms generalizing db changed with
  | nil =>
    obtain ⟨rfl, -⟩ := Prod.mk.inj (Except.ok.inj hok)
    exact h
  | cons m ms ih =>
    rw [Store.applyMatches, bind_eq_ok] at hok
    obtain ⟨⟨db₁, i⟩, happly, hrest⟩ := hok
    have happlied := applyMatch_applied hopen happly
    refine ih (happlied.ownersOpen hopen) (fun m' hm' row hrow => ?_) hrest
      (hI.applied (hms m List.mem_cons_self) happlied h)
    rw [happlied.rows]
    exact hms m' (List.mem_cons_of_mem _ hm') row hrow

theorem mem_rows_of_peerMatches {rows : List Row} {peer : List Char} {m : RuleMatch}
    (hm : m ∈ peerMatches rows peer) : ∀ row ∈ m.evidence, row ∈ rows := fun row hrow =>
  (List.mem_filter.mp (mem_orderRows.mp ((detectMatches_evidence hm).2 row hrow))).1

/-- One peer: what it leaves, and that the rows and the open owners stay. -/
theorem rebuildPeer_parts {peer : List Char} (hopen : db.view.OwnersOpen)
    (hok : rebuildPeer uuid now db peer = .ok db') :
    ∃ (db₁ : Db) (changed : List Id), applyMatches uuid now (db, []) (peerMatches db.view.rows peer)
        = .ok (db₁, changed) ∧ db'.view.SameHeld db₁.view ∧ db'.view.OwnersOpen ∧
      db'.view.rows = db.view.rows := by
  rw [rebuildPeer_eq, bind_eq_ok] at hok
  obtain ⟨⟨db₁, changed⟩, hmatches, heq⟩ := hok
  obtain ⟨hopen₁, hrows₁, -, -⟩ := applyMatches_back hopen hmatches
  have hsame : db'.view.SameHeld db₁.view := by
    rw [← Except.ok.inj heq]
    exact sameHeld_refreshAll _ _
  exact ⟨db₁, changed, hmatches, hsame, hsame.ownersOpen hopen₁, hsame.rows.trans hrows₁⟩

theorem MatchKept.rebuildPeers (hI : MatchKept I) {ps : List (List Char)}
    (hopen : db.view.OwnersOpen) (hok : Store.rebuildPeers uuid now db ps = .ok db')
    (h : I db.view) : I db'.view ∧ db'.view.OwnersOpen ∧ db'.view.rows = db.view.rows := by
  induction ps generalizing db with
  | nil =>
    obtain rfl := Except.ok.inj hok
    exact ⟨h, hopen, rfl⟩
  | cons peer ps ih =>
    rw [Store.rebuildPeers, bind_eq_ok] at hok
    obtain ⟨db₂, hpeer, hrest⟩ := hok
    obtain ⟨db₁, changed, hmatches, hsame, hopen₂, hrows₂⟩ := rebuildPeer_parts hopen hpeer
    have hfound := hI.applyMatches hopen (fun m => mem_rows_of_peerMatches) hmatches h
    obtain ⟨hlast, hopen', hrows'⟩ := ih hopen₂ hrest (hI.same hsame hfound)
    exact ⟨hlast, hopen', hrows'.trans hrows₂⟩

theorem MatchKept.runQueries (hI : MatchKept I) {qs : List Query} {changed changed' : List Id}
    (hopen : db.view.OwnersOpen)
    (hok : Store.runQueries uuid now (db, changed) qs = .ok (db', changed')) (h : I db.view) :
    I db'.view := by
  induction qs generalizing db changed with
  | nil =>
    obtain ⟨rfl, -⟩ := Prod.mk.inj (Except.ok.inj hok)
    exact h
  | cons q qs ih =>
    rw [Store.runQueries, bind_eq_ok] at hok
    obtain ⟨⟨db₁, changed₁⟩, hmatches, hrest⟩ := hok
    refine ih (applyMatches_back hopen hmatches).1 hrest
      (hI.applyMatches hopen (fun m hm row hrow => ?_) hmatches h)
    have hmem := (detectMatches_evidence hm).2 row hrow
    dsimp only at hmem
    rw [candidates, mem_orderRows, peerRows_eq] at hmem
    exact (List.mem_filter.mp (List.mem_filter.mp hmem).1).1

end Kept

/-! ### A rebuild -/

section Rebuild

variable {v v' : View} {m m' : RuleMatch} {i : Id}

/-- **A match in one incident stays in one**: it is taken as a whole, or not touched. -/
theorem Applied.whole (h : Applied v v' m i) (hwhole : v.Whole m') : v'.Whole m' := by
  obtain ⟨j, hj⟩ := hwhole
  by_cases hmeets : v.Meets m j
  · exact ⟨i, fun row hrow => h.taken row.key (.inr ⟨j, hj row hrow, hmeets⟩)⟩
  · refine ⟨j, fun row hrow => ?_⟩
    have hkept : v'.held row.key = v.held row.key := by
      refine h.kept row.key (fun hmem => ?_) fun j' hj' => ?_
      · obtain ⟨row', hrow', hkey⟩ := List.mem_map.mp hmem
        exact hmeets ⟨row', hrow', hkey ▸ hj row hrow⟩
      · obtain rfl : j = j' := Option.some.inj ((hj row hrow).symm.trans hj')
        exact hmeets
    rw [View.owner, hkept, ← View.owner]
    exact hj row hrow

theorem matchKept_whole : MatchKept (View.Whole · m') where
  applied _ happlied h := happlied.whole h
  same hsame h := by
    obtain ⟨j, hj⟩ := h
    exact ⟨j, fun row hrow => hsame.owner ▸ hj row hrow⟩

variable {uuid : Nat → List Char} {now : ℚ} {db db' : Db}

theorem applyMatches_leaves {ms : List RuleMatch} {changed changed' : List Id}
    (hopen : db.view.OwnersOpen) (hms : ∀ m ∈ ms, ∀ row ∈ m.evidence, row ∈ db.view.rows)
    (hok : applyMatches uuid now (db, changed) ms = .ok (db', changed')) :
    ∀ m ∈ ms, db'.view.Whole m := by
  induction ms generalizing db changed with
  | nil => exact fun m hm => absurd hm List.not_mem_nil
  | cons m ms ih =>
    rw [applyMatches, bind_eq_ok] at hok
    obtain ⟨⟨db₁, i⟩, happly, hrest⟩ := hok
    have happlied := applyMatch_applied hopen happly
    have hrows : ∀ m ∈ ms, ∀ row ∈ m.evidence, row ∈ db₁.view.rows := fun m' hm' row hrow => by
      rw [happlied.rows]
      exact hms m' (List.mem_cons_of_mem _ hm') row hrow
    have hfirst : db₁.view.Whole m :=
      ⟨i, fun row hrow => happlied.taken row.key (.inl (List.mem_map_of_mem hrow))⟩
    intro m' hm'
    rcases List.mem_cons.mp hm' with rfl | hm'
    · exact matchKept_whole.applyMatches (happlied.ownersOpen hopen) hrows hrest hfirst
    · exact ih (happlied.ownersOpen hopen) hrows hrest m' hm'

theorem rebuildPeers_leaves {ps : List (List Char)} (hopen : db.view.OwnersOpen)
    (hok : rebuildPeers uuid now db ps = .ok db') :
    ∀ peer ∈ ps, ∀ m ∈ peerMatches db.view.rows peer, db'.view.Whole m := by
  induction ps generalizing db with
  | nil => exact fun peer hp => absurd hp List.not_mem_nil
  | cons peer ps ih =>
    rw [rebuildPeers, bind_eq_ok] at hok
    obtain ⟨db₂, hpeer, hrest⟩ := hok
    obtain ⟨db₁, changed, hmatches, hsame, hopen₂, hrows₂⟩ := rebuildPeer_parts hopen hpeer
    intro p hp m hm
    rcases List.mem_cons.mp hp with rfl | hp
    · have hfirst := applyMatches_leaves hopen (fun m => mem_rows_of_peerMatches) hmatches m hm
      exact (matchKept_whole.rebuildPeers hopen₂ hrest (matchKept_whole.same hsame hfirst)).1
    · exact ih hopen₂ hrest p hp m (hrows₂ ▸ hm)

/-- A rebuild leaves detection complete. -/
theorem complete_of_rebuild {counts : Rebuilt} (hopen : db.view.OwnersOpen)
    (hok : rebuildDetections uuid now db = .ok (db', counts)) :
    db'.view.OwnersOpen ∧ db'.view.Complete := by
  rw [rebuildDetections, bind_eq_ok] at hok
  obtain ⟨db₁, hpeers, heq⟩ := hok
  obtain ⟨rfl, -⟩ := Prod.mk.inj (Except.ok.inj heq)
  have htrivial : MatchKept fun _ => True := ⟨fun _ _ _ => trivial, fun _ _ => trivial⟩
  obtain ⟨-, hopen', hrows⟩ := htrivial.rebuildPeers hopen hpeers trivial
  refine ⟨hopen', fun peer m hm => ?_⟩
  rw [hrows] at hm
  by_cases hp : peer ∈ peers db
  · exact rebuildPeers_leaves hopen hpeers peer hp m hm
  · rw [peerMatches_eq_nil hp] at hm
    exact absurd hm List.not_mem_nil

end Rebuild

/-! ### Runs without a delivery -/

/-- The call brings no record. -/
def Op.brings : Op → Bool
  | .ingest _ => true
  | _ => false

/-- The call removes records. -/
def Op.removes : Op → Bool
  | .cleanup _ => true
  | _ => false

section Runs

variable {env : Env}

/-- **What every call but a delivery keeps.** -/
theorem keeps_maintenance {I : View → Prop}
    (hrebuild : ∀ {uuid now db db' counts}, db.view.OwnersOpen → I db.view →
      rebuildDetections uuid now db = .ok (db', counts) → I db'.view)
    {s : Live} {op : Op} (hbrings : op.brings = false)
    (hremoves : op.removes = true → ∀ v v' : View, (∀ row ∈ v'.rows, row ∈ v.rows) →
      v'.held = v.held → I v → I v')
    (hs : s.db.view.OwnersOpen ∧ I s.db.view) :
    (nextLive env s op).db.view.OwnersOpen ∧ I (nextLive env s op).db.view := by
  obtain ⟨hopen, h⟩ := hs
  rw [nextLive]
  split
  · rename_i s' hok
    cases op with
    | ingest d => cases hbrings
    | rebuild uuid now =>
      obtain ⟨⟨db₁, counts⟩, hcall, rfl⟩ := map_eq_ok.mp hok
      exact ⟨(complete_of_rebuild hopen hcall).1, hrebuild hopen h hcall⟩
    | setTriage r =>
      obtain ⟨⟨db₁, results⟩, hset, rfl⟩ := map_eq_ok.mp hok
      exact setTriageLive_preserves (P := fun db => db.view.OwnersOpen ∧ I db.view)
        (fun d i state note _ hd => (view_setTriage d i state _ _ _ note _).symm ▸ hd)
        ⟨hopen, h⟩ hset
    | resolveBlocked r =>
      obtain ⟨⟨db₁, ids⟩, hresolve, rfl⟩ := map_eq_ok.mp hok
      exact resolveBlocked_preserves (P := fun db => db.view.OwnersOpen ∧ I db.view)
        (fun d i note reference _ hd => (view_setTriage d i _ _ _ _ note _).symm ▸ hd)
        ⟨hopen, h⟩ hresolve
    | cleanup now =>
      obtain rfl := Except.ok.inj hok
      refine ⟨hopen, hremoves rfl s.db.view _ (fun row hrow => ?_) rfl h⟩
      obtain ⟨e, he, rfl⟩ := List.mem_map.mp hrow
      exact List.mem_map_of_mem (Table.mem_delete.mp he).1
  · exact ⟨hopen, h⟩

/-- **A rebuild settles.** In every reachable state: once a rebuild has returned, and whatever
rebuilds, triage calls and verified blocks follow, the next rebuild creates, merges and adds
nothing. -/
theorem rebuild_settles (ops : List Op) {uuid : Nat → List Char} {now : ℚ} {db : Db}
    {counts : Rebuilt}
    (hok : rebuildDetections uuid now (liveAfter env ops).db = .ok (db, counts)) (later : List Op)
    (hlater : ∀ op ∈ later, op.brings = false ∧ op.removes = false) (uuid' : Nat → List Char)
    (now' : ℚ) :
    ∃ db' n, rebuildDetections uuid' now'
      (run (nextLive env) { liveAfter env ops with db := db } later).db
        = .ok (db', ⟨n, 0, 0, 0⟩) := by
  let settled (s : Live) := s.db.view.OwnersOpen ∧ s.db.view.Complete
  have hrun : settled (run (nextLive env) { liveAfter env ops with db := db } later) :=
    run_invariant (P := settled) (Q := fun op => op.brings = false ∧ op.removes = false)
      (fun s op hop hs => ?_) hlater (complete_of_rebuild (kept_run env ops).ownersOpen hok)
  · exact (rebuild_adds_nothing_iff hrun.1).mpr hrun.2
  · refine keeps_maintenance (fun hopen _ hok => (complete_of_rebuild hopen hok).2) hop.1
      (fun hremoves => ?_) hs
    rw [hop.2] at hremoves
    cases hremoves

theorem rebuild_settles_unread : ∃ db counts,
    rebuildDetections (Nat.toDigits 10) 200 (liveAfter tallyEnv unread).db = .ok (db, counts) ∧
    ∃ db' n, rebuildDetections (Nat.toDigits 10) 300 (run (nextLive tallyEnv)
      { liveAfter tallyEnv unread with db := db } [.rebuild (Nat.toDigits 10) 250]).db
        = .ok (db', ⟨n, 0, 0, 0⟩) := by
  obtain ⟨⟨db, counts⟩, hok, -⟩ := map_eq_ok.mp (eq_ok_of_toOption unread_facts.2.1)
  exact ⟨db, counts, hok, rebuild_settles unread hok _ (by simp [Op.brings, Op.removes]) _ _⟩

end Runs

/-! ### A re-parse -/

section Reparse

variable {classify : Classifier} {texts : Key → Texts}

/-- Every record and every piece of evidence is as the classifier reads it. -/
def View.Reread (classify : Classifier) (texts : Key → Texts) (v : View) : Prop :=
  (∀ row ∈ v.rows, row = enrich classify texts row) ∧
    ∀ k row i, v.held k = some (row, i) → row = enrich classify texts row

theorem matchKept_reread : MatchKept (View.Reread classify texts) where
  applied hrows happlied h := by
    refine ⟨fun row hrow => h.1 row (happlied.rows ▸ hrow), fun k row j hheld => ?_⟩
    rcases happlied.held k row j hheld with ⟨j', hold⟩ | ⟨hmem, -⟩
    · exact h.2 k row j' hold
    · exact h.1 row (hrows row hmem)
  same hsame h := by
    refine ⟨fun row hrow => h.1 row (hsame.rows ▸ hrow), fun k row j hheld => ?_⟩
    rw [hsame.held] at hheld
    exact h.2 k row j hheld

theorem reread_rereadDb (db : Db) : (rereadDb classify texts db).view.Reread classify texts := by
  constructor
  · intro row hrow
    rw [(view_rereadDb db).1] at hrow
    obtain ⟨old, -, rfl⟩ := List.mem_map.mp hrow
    exact (enrich_enrich old).symm
  · intro k row i hheld
    have hfind : (rereadDb classify texts db).evidence.find? k = (db.evidence.find? k).map
        fun e => e.put (enrich classify texts e.row) :=
      Table.find?_update db.evidence (fun e => e.put (enrich classify texts e.row)) (fun _ => rfl) k
    obtain ⟨e, he, hpair⟩ := Option.map_eq_some_iff.mp hheld
    rw [hfind] at he
    obtain ⟨old, -, rfl⟩ := Option.map_eq_some_iff.mp he
    obtain ⟨rfl, -⟩ := Prod.mk.inj hpair
    exact (enrich_enrich old.row).symm

/-- Where every record is as the classifier reads it, a call changes nothing. -/
theorem reparseSshd_of_reread {db : Db} (h : db.view.Reread classify texts)
    (uuid : Nat → List Char) (now : ℚ) :
    reparseSshd classify texts uuid now db = .ok (db, ⟨0, 0, 0⟩) := by
  have hrows : reparseRows classify texts db = .ok ⟨db, 0, 0, []⟩ := by
    have hevents : (inKeyOrder StoredEvent.key db.events.rows).foldlM (reparseEvent classify texts)
        ⟨db, 0, 0, []⟩ = .ok ⟨db, 0, 0, []⟩ := foldlM_same fun e he =>
      if_pos (h.1 e.row (List.mem_map_of_mem (mem_inKeyOrder.mp he)))
    have hevidence : (inKeyOrder Evidence.key db.evidence.rows).foldlM
        (reparseEvidence classify texts) ⟨db, 0, 0, []⟩ = .ok ⟨db, 0, 0, []⟩ :=
      foldlM_same fun e he => by
        have hfind := Table.find?_of_mem (t := db.evidence) (mem_inKeyOrder.mp he)
        exact if_pos (h.2 e.key e.row e.incidentId (by simp [Db.view, hfind]))
    rw [reparseRows, hevents]
    exact hevidence
  rw [reparseSshd, hrows]
  rfl

/-- **A re-parse settles.** Once a re-parse has committed, and whatever rebuilds, triage calls,
verified blocks and clean-ups follow, a re-parse with the same classifier returns, reports nothing
and leaves the database as it is. -/
theorem reparse_settles {env : Env} {s : Live} {uuid : Nat → List Char} {now : ℚ} {db : Db}
    {report : ReparseReport} (hopen : s.db.view.OwnersOpen)
    (hok : reparseSshd classify texts uuid now s.db = .ok (db, report)) (later : List Op)
    (hlater : ∀ op ∈ later, op.brings = false) (uuid' : Nat → List Char) (now' : ℚ) :
    let s' := run (nextLive env) { s with db := db } later
    reparseSshd classify texts uuid' now' s'.db = .ok (s'.db, ⟨0, 0, 0⟩) := by
  intro s'
  obtain ⟨db₁, changed, ids, hqueries, rfl⟩ := reparseSshd_ok hok
  obtain ⟨-, howner, hincident⟩ := @view_rereadDb classify texts s.db
  have hopen₀ : (rereadDb classify texts s.db).view.OwnersOpen := fun k i hi => by
    rw [hincident]
    exact hopen k i (howner ▸ hi)
  have hsame := sameHeld_refreshAll ids db₁
  have hreread := matchKept_reread.same hsame
    (matchKept_reread.runQueries hopen₀ hqueries (reread_rereadDb s.db))
  have hopen' := hsame.ownersOpen (runQueries_groups (groups_heldEdges _) hopen₀ hqueries).2.2
  let settled (s : Live) := s.db.view.OwnersOpen ∧ s.db.view.Reread classify texts
  have hrun : settled (run (nextLive env) { s with db := ids.foldl refreshIncident db₁ } later) :=
    run_invariant (P := settled) (Q := fun op => op.brings = false)
      (fun s op hop hs => keeps_maintenance (fun hopen h hok => ?_) hop
        (fun _ v v' hrows hheld h => ⟨fun row hrow => h.1 row (hrows row hrow), fun k row i hi =>
          h.2 k row i (hheld ▸ hi)⟩) hs)
      hlater ⟨hopen', hreread⟩
  · exact reparseSshd_of_reread hrun.2 uuid' now'
  · rw [rebuildDetections, bind_eq_ok] at hok
    obtain ⟨db₂, hpeers, heq⟩ := hok
    obtain ⟨rfl, -⟩ := Prod.mk.inj (Except.ok.inj heq)
    exact (matchKept_reread.rebuildPeers hopen hpeers h).1

theorem reparse_settles_unread : ∃ db report,
    reparseSshd nextParser unreadTexts (Nat.toDigits 10) 200 (liveAfter tallyEnv unread).db
      = .ok (db, report) ∧
    let s' := run (nextLive tallyEnv) { liveAfter tallyEnv unread with db := db }
      [.rebuild (Nat.toDigits 10) 250, .cleanup 300]
    reparseSshd nextParser unreadTexts (Nat.toDigits 10) 400 s'.db = .ok (s'.db, ⟨0, 0, 0⟩) := by
  obtain ⟨db, report, hok, -⟩ := unread_reparsed
  exact ⟨db, report, hok, reparse_settles (kept_run tallyEnv unread).ownersOpen hok _
    (by simp [Op.brings]) _ _⟩

end Reparse

end RiskOps.Telemetry.Store
