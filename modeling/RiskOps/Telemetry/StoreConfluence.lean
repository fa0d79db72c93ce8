import RiskOps.Telemetry.StoreMoments
import RiskOps.Telemetry.StoreSpec

/-!
# RiskOps.Telemetry.StoreConfluence — the order of delivery does not matter

**Incidents are the components of the qualifying windows.** After every accepted batch
the incidents of the store hold exactly the components of the windows of all stored
events (`Inv.ingest`), whatever the order and the batches in which the events came. Two
stores with the same records therefore have the same incidents up to their names, and a
rebuild finds nothing to add.
-/

namespace RiskOps.Telemetry.Store

open RiskOps.Lib RiskOps.Lib.Components

/-! ### Matches one after the other -/

theorem matchEdges_cons (m : RuleMatch) (ms : List RuleMatch) :
    matchEdges (m :: ms) = insert (matchEdge m) (matchEdges ms) := by
  ext p
  simp only [matchEdges, matchEdge, List.mem_cons, Set.mem_insert_iff, Set.mem_ofPred_eq]
  constructor
  · rintro ⟨x, rfl | hx, rfl⟩
    · exact Or.inl rfl
    · exact Or.inr ⟨x, hx, rfl⟩
  · rintro (rfl | ⟨x, hx, rfl⟩)
    · exact ⟨m, Or.inl rfl, rfl⟩
    · exact ⟨x, Or.inr hx, rfl⟩

/-- Well-formed incidents that hold the components of a family of edges. -/
structure View.Keeps (v : View) (H : Set (RuleId × Set Key)) : Prop where
  wellFormed : v.WellFormed
  holds : v.Holds H

theorem View.Keeps.congr {v : View} {H H' : Set (RuleId × Set Key)} (h : v.Keeps H)
    (he : Equivalent H H') : v.Keeps H' := ⟨h.wellFormed, Represents.congr h.holds he⟩

/-- Two views of the same records. -/
structure View.SameIntake (v' v : View) : Prop where
  rows : v'.rows = v.rows
  receipts : v'.receipts = v.receipts
  batches : v'.batches = v.batches

theorem View.SameIntake.trans {v v' v'' : View} (h : v''.SameIntake v') (h' : v'.SameIntake v) :
    v''.SameIntake v :=
  ⟨h.rows.trans h'.rows, h.receipts.trans h'.receipts, h.batches.trans h'.batches⟩

section Matches

variable {uuid : Nat → List Char} {now : ℚ} {H : Set (RuleId × Set Key)}

theorem applyMatches_keeps {ms : List RuleMatch} {db db' : Db} {changed changed' : List Id}
    (h : db.view.Keeps H) (hrows : ∀ m ∈ ms, ∀ row ∈ m.evidence, row ∈ db.view.rows)
    (hok : applyMatches uuid now (db, changed) ms = .ok (db', changed')) :
    db'.view.Keeps (H ∪ matchEdges ms) ∧ db'.view.SameIntake db.view := by
  induction ms generalizing db changed H with
  | nil =>
    obtain ⟨rfl, -⟩ := Prod.mk.inj (Except.ok.inj hok)
    have hnil : matchEdges [] = ∅ := by simp [matchEdges]
    rw [hnil, Set.union_empty]
    exact ⟨h, rfl, rfl, rfl⟩
  | cons m ms ih =>
    rw [applyMatches, bind_eq_ok] at hok
    obtain ⟨⟨db₁, i⟩, happly, hrest⟩ := hok
    have happlied := applyMatch_applied h.wellFormed.owner_open happly
    have hkeeps : db₁.view.Keeps (insert (matchEdge m) H) :=
      ⟨happlied.wellFormed h.wellFormed (hrows m List.mem_cons_self),
        happlied.holds h.wellFormed h.holds⟩
    obtain ⟨hk, hr⟩ := ih hkeeps (fun m' hm' row hrow => by
      rw [happlied.rows]
      exact hrows m' (List.mem_cons_of_mem _ hm') row hrow) hrest
    refine ⟨?_, hr.trans ⟨happlied.rows, happlied.receipts, happlied.batches⟩⟩
    rwa [matchEdges_cons, Set.union_insert, ← Set.insert_union]

/-! ### Queries -/

/-- The rows a query selects from a list of rows. -/
def candidateRows (rows : List Row) (q : Query) : List Row :=
  orderRows ((rows.filter fun row => row.srcIp = some q.peer &&
    (failureType row.eventType || successType row.eventType)).filter
      fun row => q.left ≤ row.eventTs ∧ row.eventTs ≤ q.right)

theorem peerRows_eq (db : Db) (peer : List Char) :
    peerRows db peer = db.view.rows.filter fun row => row.srcIp = some peer &&
      (failureType row.eventType || successType row.eventType) := by
  rw [peerRows, Table.select, Db.view, List.filter_map]
  rfl

theorem candidates_eq (db : Db) (q : Query) : candidates db q = candidateRows db.view.rows q := by
  rw [candidates, peerRows_eq, candidateRows]

theorem mem_orderRows {rows : List Row} {row : Row} : row ∈ orderRows rows ↔ row ∈ rows :=
  List.mem_insertionSort _

theorem mem_candidateRows {rows : List Row} {q : Query} {row : Row} :
    row ∈ candidateRows rows q ↔ row ∈ rows ∧ row.srcIp = some q.peer ∧
      detectedType row.eventType = true ∧ q.left ≤ row.eventTs ∧ row.eventTs ≤ q.right := by
  simp only [candidateRows, mem_orderRows, List.mem_filter, Bool.and_eq_true, decide_eq_true_eq,
    detectedType, and_assoc]

theorem nodup_orderRows {rows : List Row} (h : (rows.map Row.key).Nodup) :
    ((orderRows rows).map Row.key).Nodup :=
  (((List.perm_insertionSort _ rows).map Row.key).nodup_iff).mpr h

theorem nodup_candidateRows {rows : List Row} (h : (rows.map Row.key).Nodup) (q : Query) :
    ((candidateRows rows q).map Row.key).Nodup :=
  nodup_orderRows (h.sublist ((List.filter_sublist.trans List.filter_sublist).map _))

/-- The matches of some queries, as edges. -/
def queryEdges (rows : List Row) (qs : List Query) : Set (RuleId × Set Key) :=
  {p | ∃ q ∈ qs, p ∈ matchEdges (detectMatches (candidateRows rows q) q.keys true)}

theorem queryEdges_cons (rows : List Row) (q : Query) (qs : List Query) :
    queryEdges rows (q :: qs) =
      matchEdges (detectMatches (candidateRows rows q) q.keys true) ∪ queryEdges rows qs := by
  ext p
  simp only [queryEdges, List.mem_cons, Set.mem_union, Set.mem_ofPred_eq, exists_eq_or_imp]

theorem runQueries_keeps {qs : List Query} {db db' : Db} {changed changed' : List Id}
    (h : db.view.Keeps H) (hok : runQueries uuid now (db, changed) qs = .ok (db', changed')) :
    db'.view.Keeps (H ∪ queryEdges db.view.rows qs) ∧ db'.view.SameIntake db.view := by
  induction qs generalizing db changed H with
  | nil =>
    obtain ⟨rfl, -⟩ := Prod.mk.inj (Except.ok.inj hok)
    have hnil : queryEdges db.view.rows [] = ∅ := by simp [queryEdges]
    rw [hnil, Set.union_empty]
    exact ⟨h, rfl, rfl, rfl⟩
  | cons q qs ih =>
    rw [runQueries, bind_eq_ok] at hok
    obtain ⟨⟨db₁, changed₁⟩, hmatches, hrest⟩ := hok
    dsimp only at hmatches
    rw [candidates_eq] at hmatches
    obtain ⟨hk, hr⟩ := applyMatches_keeps h (fun m hm row hrow =>
      (Iff.mp mem_candidateRows ((detectMatches_evidence hm).2 row hrow)).1) hmatches
    obtain ⟨hk', hr'⟩ := ih hk hrest
    rw [hr.rows] at hk'
    refine ⟨?_, hr'.trans hr⟩
    rwa [queryEdges_cons, ← Set.union_assoc]

end Matches

/-! ### The neighbourhoods cover the windows -/

/-- Every time of the list, and every interval there was, lies in an interval. -/
theorem neighbourhoods_cover {times : List ℚ} (hsorted : times.Pairwise (· ≤ ·))
    (intervals : List (ℚ × ℚ))
    (hhead : ∀ iv ∈ intervals.head?, ∀ t ∈ times, iv.1 ≤ t - maxWindowSeconds) :
    (∀ t ∈ times, ∃ iv ∈ neighbourhoods intervals times,
      iv.1 ≤ t - maxWindowSeconds ∧ t + maxWindowSeconds ≤ iv.2) ∧
    ∀ iv ∈ intervals, ∃ iv' ∈ neighbourhoods intervals times, iv'.1 ≤ iv.1 ∧ iv.2 ≤ iv'.2 := by
  induction times generalizing intervals with
  | nil =>
    refine ⟨by simp, fun iv hiv => ⟨iv, ?_, le_rfl, le_rfl⟩⟩
    cases intervals <;> exact hiv
  | cons t times ih =>
    obtain ⟨hfirst, hrest⟩ := List.pairwise_cons.mp hsorted
    -- The interval the first time goes to, and the others.
    obtain ⟨iv₀, others, hstep, hcover, hleft, hkept⟩ : ∃ iv₀ others,
        neighbourhoods intervals (t :: times) = neighbourhoods (iv₀ :: others) times ∧
        (iv₀.1 ≤ t - maxWindowSeconds ∧ t + maxWindowSeconds ≤ iv₀.2) ∧
        (∀ s ∈ times, iv₀.1 ≤ s - maxWindowSeconds) ∧
        ∀ iv ∈ intervals, ∃ iv' ∈ iv₀ :: others, iv'.1 ≤ iv.1 ∧ iv.2 ≤ iv'.2 := by
      have hlater : ∀ s ∈ times, t - maxWindowSeconds ≤ s - maxWindowSeconds := fun s hs =>
        sub_le_sub_right (hfirst s hs) _
      cases intervals with
      | nil => exact ⟨_, [], rfl, ⟨le_rfl, le_rfl⟩, hlater, by simp⟩
      | cons iv older =>
        obtain ⟨left, right⟩ := iv
        have hl : left ≤ t - maxWindowSeconds := hhead (left, right) rfl t List.mem_cons_self
        by_cases hmeet : t - maxWindowSeconds ≤ right
        · refine ⟨(left, max right (t + maxWindowSeconds)), older,
            by rw [neighbourhoods, if_pos hmeet], ⟨hl, le_max_right _ _⟩,
            fun s hs => hl.trans (hlater s hs), fun iv hiv => ?_⟩
          rcases List.mem_cons.mp hiv with rfl | hiv
          · exact ⟨_, List.mem_cons_self, le_rfl, le_max_left _ _⟩
          · exact ⟨iv, List.mem_cons_of_mem _ hiv, le_rfl, le_rfl⟩
        · exact ⟨_, (left, right) :: older, by rw [neighbourhoods, if_neg hmeet],
            ⟨le_rfl, le_rfl⟩, hlater,
            fun iv hiv => ⟨iv, List.mem_cons_of_mem _ hiv, le_rfl, le_rfl⟩⟩
    obtain ⟨htimes, hintervals⟩ := ih hrest (iv₀ :: others) (by
      intro iv hiv s hs
      obtain rfl : iv₀ = iv := by simpa using hiv
      exact hleft s hs)
    rw [hstep]
    refine ⟨fun s hs => ?_, fun iv hiv => ?_⟩
    · rcases List.mem_cons.mp hs with rfl | hs
      · obtain ⟨iv', hiv', h1, h2⟩ := hintervals iv₀ List.mem_cons_self
        exact ⟨iv', hiv', h1.trans hcover.1, hcover.2.trans h2⟩
      · exact htimes s hs
    · obtain ⟨iv₁, hiv₁, h1, h2⟩ := hkept iv hiv
      obtain ⟨iv', hiv', h1', h2'⟩ := hintervals iv₁ hiv₁
      exact ⟨iv', hiv', h1'.trans h1, h2.trans h2'⟩

/-- Each new row has a query for its peer that spans the largest window around it. -/
theorem query_of_trigger {triggers : List Row} {row : Row} (hrow : row ∈ triggers)
    {peer : List Char} (hpeer : row.srcIp = some peer) :
    ∃ q ∈ queries triggers, q.peer = peer ∧ row.key ∈ q.keys ∧
      q.left ≤ row.eventTs - maxWindowSeconds ∧ row.eventTs + maxWindowSeconds ≤ q.right := by
  have hmine : row ∈ triggers.filter fun r => r.srcIp = some peer :=
    List.mem_filter.mpr ⟨hrow, decide_eq_true hpeer⟩
  obtain ⟨hcover, -⟩ := neighbourhoods_cover (List.pairwise_insertionSort (· ≤ ·)
    ((triggers.filter fun r => r.srcIp = some peer).map Row.eventTs)) [] (by simp)
  obtain ⟨iv, hiv, h1, h2⟩ := hcover row.eventTs
    ((List.mem_insertionSort _).mpr (List.mem_map_of_mem hmine))
  refine ⟨⟨peer, (triggers.filter fun r => r.srcIp = some peer).map Row.key, iv.1, iv.2⟩,
    List.mem_flatMap.mpr ⟨peer, ?_, ?_⟩, rfl, List.mem_map_of_mem hmine, h1, h2⟩
  · rw [List.mem_reverse, List.mem_dedup, List.mem_reverse, List.mem_filterMap]
    exact ⟨row, hrow, hpeer⟩
  · exact List.mem_map.mpr ⟨iv, List.mem_reverse.mpr hiv, rfl⟩

theorem queries_keys {triggers : List Row} {q : Query} (hq : q ∈ queries triggers) :
    ∀ k ∈ q.keys, k ∈ triggers.map Row.key := by
  obtain ⟨peer, -, hq⟩ := List.mem_flatMap.mp hq
  obtain ⟨iv, -, rfl⟩ := List.mem_map.mp hq
  intro k hk
  obtain ⟨row, hrow, rfl⟩ := List.mem_map.mp hk
  exact List.mem_map_of_mem (List.mem_of_mem_filter hrow)

/-- Rows as the store keeps them: distinct keys, nothing to strip. -/
structure Sound (rows : List Row) : Prop where
  nodup : (rows.map Row.key).Nodup
  trimmed : ∀ row ∈ rows, row.Trimmed

theorem Sound.candidates {rows : List Row} (h : Sound rows) (q : Query) :
    Sound (candidateRows rows q) :=
  ⟨nodup_candidateRows h.nodup q, fun row hrow => h.trimmed row (mem_candidateRows.mp hrow).1⟩

theorem Sound.eq_of_key {rows : List Row} (h : Sound rows) {a b : Row} (ha : a ∈ rows)
    (hb : b ∈ rows) (hkey : a.key = b.key) : a = b :=
  List.inj_on_of_nodup_map h.nodup ha hb hkey

theorem Sound.detect {rows : List Row} (h : Sound rows) (triggers : List Key) :
    Equivalent (matchEdges (detectMatches rows triggers true))
      (edges (eventsOf rows) {k | k ∈ triggers}) := detect_edges h.nodup h.trimmed

/-- The event of a row of a sound list, and what it says about the row. -/
theorem Sound.reads {rows : List Row} (h : Sound rows) {e : Event} (he : e ∈ eventsOf rows) :
    ∃ row ∈ rows, event? row = some e ∧ e.Reads row := by
  obtain ⟨row, hrow, hev⟩ := mem_eventsOf.mp he
  exact ⟨row, hrow, hev, event?_reads hev (h.trimmed row hrow)⟩

theorem eventsOf_mono {rows rows' : List Row} (h : ∀ row ∈ rows, row ∈ rows') :
    eventsOf rows ⊆ eventsOf rows' := by
  intro e he
  obtain ⟨row, hrow, hev⟩ := mem_eventsOf.mp he
  exact mem_eventsOf.mpr ⟨row, h row hrow, hev⟩

/-- **The queries find every window with a new record.** -/
theorem queryEdges_equivalent {rows : List Row} (h : Sound rows) {triggers : List Row}
    (htriggers : ∀ row ∈ triggers, row ∈ rows) :
    Equivalent (queryEdges rows (queries triggers))
      (edges (eventsOf rows) {k | k ∈ triggers.map Row.key}) := by
  constructor
  · rintro ruleId ks ⟨q, hq, hp⟩
    refine ((h.candidates q).detect q.keys).1.trans (edges_mono ?_ fun k hk => queries_keys hq k hk) ruleId ks hp
    exact eventsOf_mono fun row hrow => (mem_candidateRows.mp hrow).1
  · rintro ruleId ks ⟨w, hw, ⟨e, he, hkey⟩, rfl⟩
    obtain ⟨row, hrow, -, hreads⟩ := h.reads (hw.subset he)
    obtain ⟨trigger, htrigger, htkey⟩ := List.mem_map.mp hkey
    obtain rfl : trigger = row := h.eq_of_key (htriggers _ htrigger) hrow
      (htkey.trans hreads.key_eq)
    obtain ⟨q, hq, hpeer, hqkey, hleft, hright⟩ := query_of_trigger htrigger hreads.peer_eq
    -- All events of the window are close enough to be candidates.
    have hin : w ⊆ eventsOf (candidateRows rows q) := by
      intro e' he'
      obtain ⟨row', hrow', hev', hreads'⟩ := h.reads (hw.subset he')
      obtain ⟨hkind, -⟩ := windows_near hw e' he'
      have hnear := (windows_near hw e he).2 e' he'
      have hnear' := (windows_near hw e' he').2 e he
      have hat : e.at = trigger.eventTs := hreads.at_eq
      refine mem_eventsOf.mpr ⟨row', mem_candidateRows.mpr ⟨hrow', ?_, ?_, ?_, ?_⟩, hev'⟩
      · rw [hreads'.peer_eq, hpeer, hnear.1]
      · rw [← hreads'.kind_eq]
        exact hkind
      · rw [← hreads'.at_eq]
        linarith [hnear.2]
      · rw [← hreads'.at_eq]
        linarith [hnear'.2]
    have hsub : eventsOf (candidateRows rows q) ⊆ eventsOf rows :=
      eventsOf_mono fun row hrow => (mem_candidateRows.mp hrow).1
    have hedge : (ruleId, keysOf w) ∈ edges (eventsOf (candidateRows rows q)) {k | k ∈ q.keys} :=
      ⟨w, windows_shrink hsub hw hin, ⟨e, he, htkey ▸ hqkey⟩, rfl⟩
    have hrefines : Refines (matchEdges (detectMatches (candidateRows rows q) q.keys true))
        (queryEdges rows (queries triggers)) := refines_of_subset fun p hp => ⟨q, hq, hp⟩
    exact (((h.candidates q).detect q.keys).2.trans hrefines) ruleId (keysOf w) hedge

/-! ### Refreshing an incident changes nothing here -/

theorem mem_evidenceOf {db : Db} {i : Id} {row : Row} :
    row ∈ (evidenceOf db i).map Evidence.row ↔ ∃ k, db.view.held k = some (row, i) := by
  simp only [evidenceOf, List.mem_map, Table.mem_select, decide_eq_true_eq]
  constructor
  · rintro ⟨e, ⟨he, rfl⟩, rfl⟩
    refine ⟨e.key, ?_⟩
    simp [Db.view, Table.find?_of_mem he]
  · rintro ⟨k, hk⟩
    obtain ⟨e, he, heq⟩ := Option.map_eq_some_iff.mp hk
    exact ⟨e, ⟨Table.mem_of_find? he, congrArg Prod.snd heq⟩, congrArg Prod.fst heq⟩

theorem isWindow_success {E w : Finset Event} {r : RuleId} (h : IsWindow E r w)
    (hr : r = .successAfterFailures) : ∃ s ∈ E, successType s.kind = true ∧
      successMinFailures ≤ (priorFailures E s).card ∧ w = insert s (priorFailures E s) := by
  cases h with
  | @failures rule x hrule hx hkind hq =>
    simp only [failureRules, localRules, List.cons_append, List.nil_append, List.mem_cons,
      List.not_mem_nil, or_false] at hrule
    rcases hrule with rfl | rfl | rfl | rfl <;> cases hr
  | @success s hs hkind hq => exact ⟨s, hs, hkind, hq, rfl⟩

theorem event?_peer {row : Row} {e : Event} (h : event? row = some e) : e.peer ≠ [] := by
  simp only [event?, Option.bind_eq_bind, Option.bind_eq_some_iff] at h
  obtain ⟨source, -, eventId, -, peer, ⟨p, -, htext⟩, he⟩ := h
  have hpeer : e.peer = peer := (congrArg Event.peer (Option.some.inj he)).symm
  rw [hpeer]
  unfold text at htext
  split at htext
  · cases htext
  · rename_i hne
    rw [← Option.some.inj htext]
    exact hne

/-- An incident that carries the success rule holds a success that counts. -/
theorem success_counts {db : Db} (hsound : Sound db.view.rows)
    (h : db.view.Keeps (edges (eventsOf db.view.rows) Set.univ)) {i : Id} {k : Key}
    (hlabel : db.view.label i .successAfterFailures = true) (hk : db.view.owner k = some i) :
    0 < qualifyingSuccesses ((evidenceOf db i).map Evidence.row) := by
  obtain ⟨ks, ⟨w, hw, -, rfl⟩, b, hb, hbk⟩ := (h.holds.label k i hk _).mp hlabel
  obtain ⟨s, hs, hkind, hcard, hweq⟩ := isWindow_success hw rfl
  -- Every event of the window is evidence of the incident.
  have hheld : ∀ e ∈ w, ∃ row ∈ (evidenceOf db i).map Evidence.row,
      event? row = some e ∧ e.Reads row := by
    intro e he
    obtain ⟨row, hrow, hev, hreads⟩ := hsound.reads (hw.subset he)
    have hedge : (RuleId.successAfterFailures, keysOf w) ∈ edges (eventsOf db.view.rows) Set.univ :=
      ⟨w, hw, ⟨e, he, trivial⟩, rfl⟩
    have hlinked : Linked (edges (eventsOf db.view.rows) Set.univ) e.key k :=
      (linked_of_mem hedge ⟨e, he, rfl⟩ hb).trans hbk
    obtain ⟨j, hej, hkj⟩ := (h.holds.same e.key k).mpr hlinked
    obtain rfl : i = j := Option.some.inj (hk.symm.trans hkj)
    obtain ⟨row', hrow'⟩ := View.held_of_owner hej
    obtain ⟨hmem, hkey⟩ := h.wellFormed.held_row _ _ _ hrow'
    obtain rfl : row' = row := hsound.eq_of_key hmem hrow (hkey.trans hreads.key_eq)
    exact ⟨row', Iff.mpr mem_evidenceOf ⟨_, hrow'⟩, hev, hreads⟩
  obtain ⟨srow, hsrow, -, hsreads⟩ := hheld s (hweq ▸ Finset.mem_insert_self _ _)
  have hpeer : s.peer ≠ [] := by
    obtain ⟨row, -, hev⟩ := mem_eventsOf.mp hs
    exact event?_peer hev
  have hprior : ∀ e ∈ priorFailures (eventsOf db.view.rows) s, e ∈ w := fun e he =>
    hweq ▸ Finset.mem_insert_of_mem he
  have hrow_eq : ∀ e ∈ w, e.row ∈ (evidenceOf db i).map Evidence.row ∧ event? e.row = some e ∧
      e.Reads e.row := by
    intro e he
    obtain ⟨row, hrow, hev, hreads⟩ := hheld e he
    have heq : e.row = row := hreads.row_eq
    rw [heq]
    exact ⟨hrow, hev, hreads⟩
  have hnodup : ((priorFailures (eventsOf db.view.rows) s).toList.map Event.row).Nodup := by
    refine List.Nodup.map_on (fun a ha b hb hab => ?_) (Finset.nodup_toList _)
    have ha' := (hrow_eq a (hprior a (Finset.mem_toList.mp ha))).2.1
    have hb' := (hrow_eq b (hprior b (Finset.mem_toList.mp hb))).2.1
    rw [hab, hb'] at ha'
    exact (Option.some.inj ha').symm
  have hlen : successMinFailures ≤
      ((priorFailures (eventsOf db.view.rows) s).toList.map Event.row).length := by
    rwa [List.length_map, Finset.length_toList]
  refine successes_pos hsrow (hsreads.kind_eq ▸ hkind) ⟨_, hnodup, hlen, fun f hf => ?_⟩
  obtain ⟨e, he, rfl⟩ := List.mem_map.mp hf
  have he' := Finset.mem_toList.mp he
  obtain ⟨-, hauth, hgroup, hlt, hge⟩ := mem_priorFailures.mp he'
  obtain ⟨hmem, -, hreads⟩ := hrow_eq e (hprior e he')
  obtain ⟨hsource, hpeer'⟩ := group_eq_iff.mp hgroup
  refine ⟨hmem, precedes_iff.mpr ⟨hreads.kind_eq ▸ hauth, ?_,
    ⟨s.peer, hsreads.peer_eq, by rw [hreads.peer_eq, hpeer'], hpeer⟩, ?_, ?_⟩⟩
  · rw [← hreads.source_eq, ← hsreads.source_eq, hsource]
  · rwa [← hreads.at_eq, ← hsreads.at_eq]
  · rwa [← hreads.at_eq, ← hsreads.at_eq]

theorem view_refreshScore {db : Db} {i : Id}
    (h : scoringRefresh db i = some 0 → db.view.label i .successAfterFailures = false) :
    (refreshScore db i).view = db.view := by
  unfold refreshScore
  split
  · rename_i hzero
    have hnone := h hzero
    refine View.ext rfl rfl (funext fun j => funext fun r => ?_) rfl rfl rfl
    show (Table.find? (db.rules.delete _) (j, r)).isSome = (db.rules.find? (j, r)).isSome
    rw [Bool.eq_iff_iff, Option.isSome_iff_exists, Option.isSome_iff_exists]
    refine exists_congr fun x => ?_
    rw [Table.find?_eq_some_iff, Table.find?_eq_some_iff, Table.mem_delete]
    refine ⟨fun hx => ⟨hx.1.1, hx.2⟩, fun hx => ⟨⟨hx.1, decide_eq_false ?_⟩, hx.2⟩⟩
    rintro ⟨rfl, hr⟩
    have hfind : (db.rules.find? (x.incidentId, .successAfterFailures)).isSome = true := by
      rw [← hr]
      exact Option.isSome_iff_exists.mpr ⟨x, Table.find?_of_mem hx.1⟩
    rw [show (db.rules.find? (x.incidentId, .successAfterFailures)).isSome = false from hnone] at hfind
    cases hfind
  · rfl

theorem view_countIncident (db : Db) (i : Id) (rows : List Row) (first last : ℚ) :
    (countIncident db i rows first last).view = db.view := by
  refine View.ext rfl rfl rfl (funext fun j => ?_) rfl rfl
  simp only [Db.view, countIncident, Table.find?_update, Option.map_map]
  congr 1
  funext x
  simp only [Function.comp_apply]
  split <;> rfl

/-- **Refreshing never drops a rule that holds.** -/
theorem view_refreshIncident {db : Db} (hsound : Sound db.view.rows)
    (h : db.view.Keeps (edges (eventsOf db.view.rows) Set.univ)) (i : Id) :
    (refreshIncident db i).view = db.view := by
  unfold refreshIncident
  dsimp only
  split
  · rename_i first last hmin _
    rw [view_refreshScore, view_countIncident]
    · rfl
    · intro hzero
      rw [view_countIncident]
      by_contra hlabel
      rw [Bool.not_eq_false] at hlabel
      have hne : (evidenceOf db i).map Evidence.row ≠ [] := by
        intro hnil
        simp [hnil] at hmin
      obtain ⟨row, hrow⟩ := List.exists_mem_of_ne_nil _ hne
      obtain ⟨k, hk⟩ := mem_evidenceOf.mp hrow
      have hpos := success_counts hsound h hlabel (k := k) (by simp [View.owner, hk])
      have hcount : scoringRefresh db i = some 0 := hzero
      rw [scoringRefresh] at hcount
      simp only [hne, if_false, Option.some.injEq] at hcount
      omega
  · split
    · rfl
    · rfl

theorem view_refreshAll {db : Db} (hsound : Sound db.view.rows)
    (h : db.view.Keeps (edges (eventsOf db.view.rows) Set.univ)) (ids : List Id) :
    (ids.foldl refreshIncident db).view = db.view := by
  induction ids generalizing db with
  | nil => rfl
  | cons i ids ih =>
    have hview := view_refreshIncident hsound h i
    rw [List.foldl_cons, ih (hview ▸ hsound) (hview ▸ h), hview]

end RiskOps.Telemetry.Store
