import RiskOps.Telemetry.StoreBookkeeping
import RiskOps.Telemetry.StoreDelivery

/-!
# RiskOps.Telemetry.StoreComplete — when a rebuild adds nothing

**Detection is complete** when each match the detector finds among the stored rows of a peer lies in
one incident. `rebuild_detections` reports three numbers, and they are all zero exactly then: a
match in one incident adds nothing, and incidents, merges and evidence only grow, so one that is not
shows in a number that stays.
-/

namespace RiskOps.Telemetry.Store

open RiskOps.Lib

/-! ### What only grows -/

/-- Incidents stay known, merged ones stay merged, and evidence stays held. -/
structure View.Grows (v v' : View) : Prop where
  known : ∀ i, v.incident i ≠ none → v'.incident i ≠ none
  merged : ∀ i c t, v.incident i = some (c, some t) → ∃ c' t', v'.incident i = some (c', some t')
  held : ∀ k, v.held k ≠ none → v'.held k ≠ none

theorem View.Grows.trans {v v' v'' : View} (h : v.Grows v') (h' : v'.Grows v'') : v.Grows v'' where
  known i hi := h'.known i (h.known i hi)
  merged i c t hi := by
    obtain ⟨c', t', hi'⟩ := h.merged i c t hi
    exact h'.merged i c' t' hi'
  held k hk := h'.held k (h.held k hk)

/-- The same rows, and the same incidents with the same evidence. -/
structure View.SameHeld (v' v : View) : Prop where
  rows : v'.rows = v.rows
  held : v'.held = v.held
  incident : v'.incident = v.incident

namespace View.SameHeld

variable {v v' v'' : View}

theorem trans (h : v''.SameHeld v') (h' : v'.SameHeld v) : v''.SameHeld v :=
  ⟨h.rows.trans h'.rows, h.held.trans h'.held, h.incident.trans h'.incident⟩

theorem owner (h : v'.SameHeld v) : v'.owner = v.owner := by
  funext k
  rw [View.owner, View.owner, h.held]

theorem grows (h : v'.SameHeld v) : v.Grows v' :=
  ⟨fun _ hi => h.incident ▸ hi, fun _ c t hi => ⟨c, t, h.incident ▸ hi⟩, fun _ hk => h.held ▸ hk⟩

theorem ownersOpen (h : v'.SameHeld v) (hopen : v.OwnersOpen) : v'.OwnersOpen := fun k i hi => by
  rw [h.incident]
  exact hopen k i (h.owner ▸ hi)

end View.SameHeld

theorem sameHeld_refreshIncident (db : Db) (i : Id) :
    (refreshIncident db i).view.SameHeld db.view := by
  obtain ⟨-, hevidence, hevents, -, hincident⟩ := refreshIncident_frame db i
  exact ⟨by simp only [Db.view, hevents], by simp only [Db.view, hevidence], hincident⟩

theorem sameHeld_refreshAll (ids : List Id) (db : Db) :
    (ids.foldl refreshIncident db).view.SameHeld db.view := by
  induction ids generalizing db with
  | nil => exact ⟨rfl, rfl, rfl⟩
  | cons i ids ih => exact (ih _).trans (sameHeld_refreshIncident db i)

/-! ### The three numbers -/

theorem view_incident_ne_none {db : Db} {i : Id} : db.view.incident i ≠ none ↔
    ∃ x, db.incidents.find? i = some x ∧ true = true := by
  rw [Option.ne_none_iff_exists']
  simp only [Db.view, Option.map_eq_some_iff, and_true]
  exact ⟨fun ⟨_, x, hx, _⟩ => ⟨x, hx⟩, fun ⟨x, hx⟩ => ⟨_, x, hx, rfl⟩⟩

theorem view_incident_merged {db : Db} {i : Id} :
    (∃ c t, db.view.incident i = some (c, some t)) ↔
      ∃ x, db.incidents.find? i = some x ∧ x.mergedInto.isSome = true := by
  simp only [Db.view, Option.map_eq_some_iff, Prod.mk.injEq, Option.isSome_iff_exists]
  exact ⟨fun ⟨_, t, x, hx, _, ht⟩ => ⟨x, hx, t, ht⟩, fun ⟨x, hx, t, ht⟩ => ⟨_, t, x, hx, rfl, ht⟩⟩

theorem view_held_ne_none {db : Db} {k : Key} : db.view.held k ≠ none ↔
    ∃ e, db.evidence.find? k = some e ∧ true = true := by
  rw [Option.ne_none_iff_exists']
  simp only [Db.view, Option.map_eq_some_iff, and_true]
  exact ⟨fun ⟨_, e, he, _⟩ => ⟨e, he⟩, fun ⟨e, he⟩ => ⟨_, e, he, rfl⟩⟩

/-- **What does not grow in numbers does not grow.** -/
theorem View.Grows.back {db db' : Db} (h : db.view.Grows db'.view)
    (hcreated : db'.incidents.rows.length = db.incidents.rows.length)
    (hmerged : mergedCount db' = mergedCount db)
    (hadded : db'.evidence.rows.length = db.evidence.rows.length) : db'.view.Grows db.view where
  known i hi := by
    refine Iff.mpr view_incident_ne_none ((Table.countP_le (p := fun _ => true) fun k hk =>
      Iff.mp view_incident_ne_none (h.known k (Iff.mpr view_incident_ne_none hk))).2 ?_ i
        (Iff.mp view_incident_ne_none hi))
    rw [List.countP_true, hcreated]
  merged i c t hi := by
    refine view_incident_merged.mpr ((Table.countP_le (p := fun x : Incident => x.mergedInto.isSome)
      fun k hk => ?_).2 hmerged.le i (Iff.mp view_incident_merged ⟨c, t, hi⟩))
    obtain ⟨c', t', hk'⟩ := Iff.mpr view_incident_merged hk
    exact Iff.mp view_incident_merged (h.merged k c' t' hk')
  held k hk := by
    refine Iff.mpr view_held_ne_none ((Table.countP_le (p := fun _ => true) fun k hk =>
      Iff.mp view_held_ne_none (h.held k (Iff.mpr view_held_ne_none hk))).2 ?_ k
        (Iff.mp view_held_ne_none hk))
    rw [List.countP_true, hadded]

/-! ### One match -/

/-- The evidence of a match lies in one incident. -/
def View.Whole (v : View) (m : RuleMatch) : Prop :=
  ∃ i, ∀ row ∈ m.evidence, v.owner row.key = some i

section Applied

variable {v v' : View} {m : RuleMatch} {i : Id}

theorem View.held_ne_none {k : Key} {j : Id} (h : v.owner k = some j) : v.held k ≠ none := by
  obtain ⟨row, hrow⟩ := View.held_of_owner h
  rw [hrow]
  exact Option.some_ne_none _

theorem View.owner_of_held {k : Key} (h : v.held k ≠ none) : ∃ j, v.owner k = some j := by
  obtain ⟨⟨row, j⟩, hheld⟩ := Option.ne_none_iff_exists'.mp h
  exact ⟨j, by rw [View.owner, hheld]; rfl⟩

theorem Applied.grows (h : Applied v v' m i) : v.Grows v' where
  known j hj := h.known hj
  merged j c t hj := by
    have hji : j ≠ i := fun hji => by
      obtain ⟨c', -, hold⟩ := h.survivor
      rw [← hji, hj] at hold
      simp at hold
    by_cases hmet : v.Meets m j
    · exact ⟨c, i, by rw [h.absorbed j hmet hji, hj]; rfl⟩
    · exact ⟨c, t, (h.others j hmet hji).trans hj⟩
  held k hk := by
    rcases h.owner_cases k with hi | ⟨hsame, -⟩
    · exact View.held_ne_none hi
    · rwa [hsame]

/-- **A match that leaves nothing to be seen** was in one incident already, and moves nothing. -/
theorem Applied.whole_of_back (h : Applied v v' m i) (hopen : v.OwnersOpen) (hback : v'.Grows v) :
    (∀ row ∈ m.evidence, v.owner row.key = some i) ∧ v'.owner = v.owner := by
  have hmet : ∀ j, v.Meets m j → j = i := fun j hmet => by
    by_contra hji
    obtain ⟨row, -, howner⟩ := id hmet
    obtain ⟨c, hc⟩ := hopen _ j howner
    have habsorbed : v'.incident j = some (c, some i) := by
      rw [h.absorbed j hmet hji, hc]
      rfl
    obtain ⟨c', t', hmerged⟩ := hback.merged j c i habsorbed
    rw [hc] at hmerged
    simp at hmerged
  have howned : ∀ row ∈ m.evidence, v.owner row.key = some i := fun row hrow => by
    have htaken := h.taken row.key (.inl (List.mem_map_of_mem hrow))
    obtain ⟨j, hj⟩ := View.owner_of_held (hback.held _ (View.held_ne_none htaken))
    rw [hj, hmet j ⟨row, hrow, hj⟩]
  refine ⟨howned, funext fun k => ?_⟩
  by_cases hk : k ∈ m.evidence.map Row.key
  · obtain ⟨row, hrow, rfl⟩ := List.mem_map.mp hk
    rw [h.taken _ (.inl hk), howned row hrow]
  · by_cases hj : ∃ j, v.owner k = some j ∧ v.Meets m j
    · obtain ⟨j, hj, hmeets⟩ := id hj
      rw [h.taken k (.inr ⟨j, hj, hmeets⟩), hj, hmet j hmeets]
    · rw [View.owner, View.owner, h.kept k hk fun j hj' hmeets => hj ⟨j, hj', hmeets⟩]

end Applied

/-! ### The matches of a peer -/

/-- What the detector finds among the stored rows of a peer, with all of them as triggers. -/
def peerMatches (rows : List Row) (peer : List Char) : List RuleMatch :=
  let rows := orderRows (rows.filter fun row => row.srcIp = some peer &&
    (failureType row.eventType || successType row.eventType))
  detectMatches rows (rows.map Row.key) true

/-- **Detection is complete**: every match lies in one incident. -/
def View.Complete (v : View) : Prop := ∀ peer, ∀ m ∈ peerMatches v.rows peer, v.Whole m

section Rebuild

variable {uuid : Nat → List Char} {now : ℚ} {db db' : Db}

theorem rebuildPeer_eq (peer : List Char) : rebuildPeer uuid now db peer = (do
    let (db, changed) ← applyMatches uuid now (db, []) (peerMatches db.view.rows peer)
    .ok (((changed.map (canonicalIncident db)).dedup).foldl refreshIncident db)) := by
  rw [rebuildPeer, peerRows_eq]
  rfl

/-- Matches in one incident each change only labels. -/
theorem applyMatches_whole (hopen : db.view.OwnersOpen) {ms : List RuleMatch}
    (hms : ∀ m ∈ ms, m.evidence ≠ [] ∧ db.view.Whole m) (changed : List Id) :
    ∃ db' changed', applyMatches uuid now (db, changed) ms = .ok (db', changed') ∧
      db'.view.SameHeld db.view ∧ Idle db db' := by
  induction ms generalizing db changed with
  | nil => exact ⟨db, changed, rfl, ⟨rfl, rfl, rfl⟩, Idle.refl db⟩
  | cons m ms ih =>
    obtain ⟨hne, i, howner⟩ := hms m List.mem_cons_self
    obtain ⟨db₁, hok, hview, hidle⟩ := applyMatch_recorded uuid now hopen hne howner
    have hsame : db₁.view.SameHeld db.view := by
      rw [hview]
      exact ⟨rfl, rfl, rfl⟩
    obtain ⟨db₂, changed', hok', hsame', hidle'⟩ := ih (hsame.ownersOpen hopen)
      (fun m' hm' => by
        obtain ⟨hne', j, hj⟩ := hms m' (List.mem_cons_of_mem _ hm')
        exact ⟨hne', j, by rw [hsame.owner]; exact hj⟩) (i :: changed)
    refine ⟨db₂, changed', ?_, hsame'.trans hsame, hidle.trans hidle'⟩
    rw [applyMatches, hok]
    exact hok'

theorem rebuildPeers_whole (hopen : db.view.OwnersOpen) {ps : List (List Char)}
    (hps : ∀ peer ∈ ps, ∀ m ∈ peerMatches db.view.rows peer, db.view.Whole m) :
    ∃ db', rebuildPeers uuid now db ps = .ok db' ∧ Idle db db' := by
  induction ps generalizing db with
  | nil => exact ⟨db, rfl, Idle.refl db⟩
  | cons peer ps ih =>
    have hfound : ∀ m ∈ peerMatches db.view.rows peer, m.evidence ≠ [] ∧ db.view.Whole m :=
      fun m hm => ⟨(detectMatches_evidence hm).1, hps peer List.mem_cons_self m hm⟩
    obtain ⟨db₁, changed, hok, hsame, hidle⟩ := applyMatches_whole hopen hfound []
    have hrefreshed := (sameHeld_refreshAll
      ((changed.map (canonicalIncident db₁)).dedup) db₁).trans hsame
    obtain ⟨db₂, hok', hidle'⟩ := ih (hrefreshed.ownersOpen hopen) fun p hp m hm => by
      rw [hrefreshed.rows] at hm
      obtain ⟨i, hi⟩ := hps p (List.mem_cons_of_mem _ hp) m hm
      exact ⟨i, by rw [hrefreshed.owner]; exact hi⟩
    refine ⟨db₂, ?_, (hidle.trans (idle_refreshAll db₁ _)).trans hidle'⟩
    rw [rebuildPeers, rebuildPeer_eq, hok]
    exact hok'

/-- What matches do to a view: it grows, and where it does not, they lay in one incident each. -/
theorem applyMatches_back {ms : List RuleMatch} {changed changed' : List Id}
    (hopen : db.view.OwnersOpen)
    (hok : applyMatches uuid now (db, changed) ms = .ok (db', changed')) :
    db'.view.OwnersOpen ∧ db'.view.rows = db.view.rows ∧ db.view.Grows db'.view ∧
      (db'.view.Grows db.view → (∀ m ∈ ms, db.view.Whole m) ∧ db'.view.owner = db.view.owner) := by
  induction ms generalizing db changed with
  | nil =>
    obtain ⟨rfl, -⟩ := Prod.mk.inj (Except.ok.inj hok)
    exact ⟨hopen, rfl, ⟨fun _ h => h, fun _ c t h => ⟨c, t, h⟩, fun _ h => h⟩, fun _ =>
      ⟨fun m hm => absurd hm List.not_mem_nil, rfl⟩⟩
  | cons m ms ih =>
    rw [applyMatches, bind_eq_ok] at hok
    obtain ⟨⟨db₁, i⟩, happly, hrest⟩ := hok
    have happlied := applyMatch_applied hopen happly
    obtain ⟨hopen', hrows, hgrows, hwhole⟩ := ih (happlied.ownersOpen hopen) hrest
    refine ⟨hopen', hrows.trans happlied.rows, happlied.grows.trans hgrows, fun hback => ?_⟩
    obtain ⟨hfirst, howner⟩ := happlied.whole_of_back hopen (hgrows.trans hback)
    obtain ⟨hothers, howner'⟩ := hwhole (hback.trans happlied.grows)
    refine ⟨fun m' hm' => ?_, howner'.trans howner⟩
    rcases List.mem_cons.mp hm' with rfl | hm'
    · exact ⟨i, hfirst⟩
    · obtain ⟨j, hj⟩ := hothers m' hm'
      exact ⟨j, fun row hrow => by rw [← howner]; exact hj row hrow⟩

theorem rebuildPeers_back {ps : List (List Char)} (hopen : db.view.OwnersOpen)
    (hok : rebuildPeers uuid now db ps = .ok db') : db.view.Grows db'.view ∧
      (db'.view.Grows db.view → ∀ peer ∈ ps, ∀ m ∈ peerMatches db.view.rows peer,
        db.view.Whole m) := by
  induction ps generalizing db with
  | nil =>
    obtain rfl := Except.ok.inj hok
    exact ⟨⟨fun _ h => h, fun _ c t h => ⟨c, t, h⟩, fun _ h => h⟩, fun _ peer hp =>
      absurd hp List.not_mem_nil⟩
  | cons peer ps ih =>
    rw [rebuildPeers, bind_eq_ok] at hok
    obtain ⟨db₁, hpeer, hrest⟩ := hok
    rw [rebuildPeer_eq, bind_eq_ok] at hpeer
    obtain ⟨⟨db₂, changed⟩, hmatches, heq⟩ := hpeer
    obtain ⟨hopen₂, hrows₂, hgrows₂, hback₂⟩ := applyMatches_back hopen hmatches
    have hsame : db₁.view.SameHeld db₂.view := by
      rw [← Except.ok.inj heq]
      exact sameHeld_refreshAll _ _
    obtain ⟨hgrows, hback⟩ := ih (hsame.ownersOpen hopen₂) hrest
    have hstep : db.view.Grows db₁.view := hgrows₂.trans hsame.grows
    refine ⟨hstep.trans hgrows, fun hreturn p hp m hm => ?_⟩
    obtain ⟨hfirst, howner⟩ := hback₂ ((hsame.grows.trans hgrows).trans hreturn)
    rcases List.mem_cons.mp hp with rfl | hp
    · exact hfirst m hm
    · have hrows : db₁.view.rows = db.view.rows := hsame.rows.trans hrows₂
      obtain ⟨i, hi⟩ := hback (hreturn.trans hstep) p hp m (hrows ▸ hm)
      exact ⟨i, fun row hrow => by rw [← howner, ← hsame.owner]; exact hi row hrow⟩

theorem mem_peers {peer : List Char} : peer ∈ peers db ↔ ∃ row ∈ db.view.rows,
    (failureType row.eventType || successType row.eventType) = true ∧ row.srcIp = some peer := by
  simp only [peers, List.mem_dedup, List.mem_filterMap, Table.mem_select, Db.view, List.mem_map]
  exact ⟨fun ⟨e, ⟨he, ht⟩, hp⟩ => ⟨e.row, ⟨e, he, rfl⟩, ht, hp⟩,
    fun ⟨row, ⟨e, he, hrow⟩, ht, hp⟩ => ⟨e, ⟨he, hrow ▸ ht⟩, hrow ▸ hp⟩⟩

theorem peerMatches_eq_nil {peer : List Char} (h : peer ∉ peers db) :
    peerMatches db.view.rows peer = [] := by
  have hnone : (db.view.rows.filter fun row => row.srcIp = some peer &&
      (failureType row.eventType || successType row.eventType)) = [] := by
    refine List.filter_eq_nil_iff.mpr fun row hrow hdetected => h ((mem_peers).mpr ⟨row, hrow, ?_⟩)
    obtain ⟨hp, ht⟩ := Bool.and_eq_true_iff.mp hdetected
    exact ⟨ht, of_decide_eq_true hp⟩
  rw [peerMatches, hnone]
  rfl

/-- **A rebuild adds nothing exactly when detection is complete.** -/
theorem rebuild_adds_nothing_iff (hopen : db.view.OwnersOpen) :
    (∃ db' n, rebuildDetections uuid now db = .ok (db', ⟨n, 0, 0, 0⟩)) ↔ db.view.Complete := by
  constructor
  · intro ⟨db', n, hok⟩ peer m hm
    rw [rebuildDetections, bind_eq_ok] at hok
    obtain ⟨db₁, hpeers, heq⟩ := hok
    obtain ⟨-, hcounts⟩ := Prod.mk.inj (Except.ok.inj heq)
    obtain ⟨-, hcreated, hmerged, hadded⟩ := Rebuilt.mk.inj hcounts
    obtain ⟨hgrows, hback⟩ := rebuildPeers_back hopen hpeers
    by_cases hp : peer ∈ peers db
    · exact hback (hgrows.back (by omega) (by omega) (by omega)) peer hp m hm
    · rw [peerMatches_eq_nil hp] at hm
      exact absurd hm List.not_mem_nil
  · intro hcomplete
    have hwhole : ∃ db', rebuildPeers uuid now db (peers db) = .ok db' ∧ Idle db db' :=
      rebuildPeers_whole hopen fun peer _ => hcomplete peer
    obtain ⟨db', hok, hidle⟩ := hwhole
    obtain ⟨hlen, hmerged⟩ := hidle.counts
    refine ⟨db', ((peers db).map fun peer => (peerRows db peer).length).sum, ?_⟩
    simp only [rebuildDetections, hok, bind, Except.bind, hlen, hmerged, hidle.evidence, sub_self]

end Rebuild

end RiskOps.Telemetry.Store
