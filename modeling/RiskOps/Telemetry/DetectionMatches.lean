import RiskOps.Telemetry.DetectionClusters

/-!
# RiskOps.Telemetry.DetectionMatches — `detect_matches` returns the windows

**The grouping loop around the scans.** Rows of a table have distinct keys, so their
events are strictly ordered and each scan sees exactly the events its rule relates.
Put together, the matches of a set of rows have the same components as the qualifying
windows of its events that hold a trigger.
-/

namespace RiskOps.Telemetry

open RiskOps.Lib RiskOps.Lib.Components

/-! ### Normalised rows -/

/-- Ids and peer as the collector and the parser write them: no surrounding whitespace. -/
structure Row.Trimmed (row : Row) : Prop where
  source : strip row.sourceId = row.sourceId
  event : strip row.eventId = row.eventId
  peer : ∀ p, row.srcIp = some p → strip p = p

theorem text_of_trimmed {value t : List Char} (h : strip value = value) (ht : text value = some t) :
    t = value := by
  unfold text at ht
  split at ht
  · simp at ht
  · rw [← Option.some.inj ht, h]

/-- What an event says about its row. -/
structure Event.Reads (e : Event) (row : Row) : Prop where
  row_eq : e.row = row
  key_eq : e.key = row.key
  source_eq : e.source = row.sourceId
  peer_eq : row.srcIp = some e.peer
  at_eq : e.at = row.eventTs
  kind_eq : e.kind = row.eventType

variable {e : Event}

theorem event?_reads {row : Row} (h : event? row = some e) (ht : row.Trimmed) : e.Reads row := by
  simp only [event?, Option.bind_eq_bind, Option.bind_eq_some_iff] at h
  obtain ⟨source, hsource, eventId, hevent, peer, ⟨p, hp, hpeer⟩, he⟩ := h
  obtain rfl := text_of_trimmed ht.source hsource
  obtain rfl := text_of_trimmed ht.event hevent
  obtain rfl := text_of_trimmed (ht.peer p hp) hpeer
  obtain rfl := Option.some.inj he
  exact ⟨rfl, rfl, rfl, hp, rfl, rfl⟩

variable {es : List Event}

/-- Events with distinct keys are all kept. -/
theorem dedupe_eq_self {seen : List Key} (hnodup : (es.map Event.key).Nodup)
    (hseen : ∀ e ∈ es, e.key ∉ seen) : dedupe seen es = es := by
  induction es generalizing seen with
  | nil => rfl
  | cons e es ih =>
    rw [List.map_cons, List.nodup_cons] at hnodup
    rw [dedupe, if_neg (hseen e List.mem_cons_self), ih hnodup.2]
    intro e' he' hmem
    rcases List.mem_cons.mp hmem with heq | hmem
    · exact hnodup.1 (heq ▸ List.mem_map_of_mem he')
    · exact hseen e' (List.mem_cons_of_mem _ he') hmem

section Normalize

variable {rows : List Row}

theorem nodup_events (hnodup : (rows.map Row.key).Nodup) (htrim : ∀ row ∈ rows, row.Trimmed) :
    ((rows.filterMap event?).map Event.key).Nodup := by
  induction rows with
  | nil => simp
  | cons row rows ih =>
    rw [List.map_cons, List.nodup_cons] at hnodup
    have htail := ih hnodup.2 fun r hr => htrim r (List.mem_cons_of_mem _ hr)
    cases he : event? row with
    | none => rwa [List.filterMap_cons_none he]
    | some e =>
      rw [List.filterMap_cons_some he, List.map_cons, List.nodup_cons]
      refine ⟨fun hmem => hnodup.1 ?_, htail⟩
      obtain ⟨e', he', hkey⟩ := List.mem_map.mp hmem
      obtain ⟨row', hrow', hev⟩ := List.mem_filterMap.mp he'
      have hreads := event?_reads he (htrim row List.mem_cons_self)
      have hreads' := event?_reads hev (htrim row' (List.mem_cons_of_mem _ hrow'))
      rw [← hreads.key_eq, ← hkey, hreads'.key_eq]
      exact List.mem_map_of_mem hrow'

theorem mem_normalize (hnodup : (rows.map Row.key).Nodup) (htrim : ∀ row ∈ rows, row.Trimmed) :
    e ∈ normalize rows ↔ ∃ row ∈ rows, event? row = some e := by
  rw [normalize, List.mem_insertionSort, dedupe_eq_self (nodup_events hnodup htrim) (by simp),
    List.mem_filterMap]

theorem ordered_normalize (hnodup : (rows.map Row.key).Nodup)
    (htrim : ∀ row ∈ rows, row.Trimmed) : Ordered (normalize rows) := by
  have hevents := nodup_events hnodup htrim
  have hle : (normalize rows).Pairwise fun a b => a.order ≤ b.order :=
    List.pairwise_insertionSort _ _
  have hperm : (normalize rows).Perm (rows.filterMap event?) := by
    rw [normalize, dedupe_eq_self hevents (by simp)]
    exact List.perm_insertionSort _ _
  have hne : (normalize rows).Pairwise fun a b => a.key ≠ b.key := by
    have hkeys : ((normalize rows).map Event.key).Nodup := (hperm.map _).nodup_iff.mpr hevents
    exact List.pairwise_map.mp hkeys
  refine (hle.and hne).imp fun {a b} h => lt_of_le_of_ne h.1 fun heq => h.2 ?_
  exact congrArg (fun o => ofLex (ofLex o).2) heq

end Normalize

/-- The events of a list of rows. -/
def eventsOf (rows : List Row) : Finset Event := (rows.filterMap event?).toFinset

theorem mem_eventsOf {rows : List Row} : e ∈ eventsOf rows ↔ ∃ row ∈ rows, event? row = some e := by
  simp [eventsOf]

/-! ### From lists to sets -/

variable {w : List Event}

theorem keysIn_eq : keysIn w = keysOf w.toFinset := by
  ext k
  simp [keysIn, keysOf]

theorem distinct_users : distinct (w.filterMap Event.user) = (usersOf w.toFinset).card := by
  rw [distinct, ← List.card_toFinset]
  congr 1
  ext u
  simp [usersOf]

theorem distinct_sources :
    distinct (w.map Event.source) = (w.toFinset.image Event.source).card := by
  rw [distinct, ← List.card_toFinset]
  congr 1
  ext s
  simp

theorem Ordered.nodup (h : Ordered es) : es.Nodup := by
  refine List.Pairwise.imp ?_ h
  intro a b hlt heq
  exact lt_irrefl b.order (heq ▸ hlt)

variable {rule : FailureRule}

theorem liveWindow_iff_qualifies {triggers : List Key} (hw : w.Nodup) : LiveWindow triggers rule w ↔
      rule.Qualifies w.toFinset ∧ ∃ e ∈ w.toFinset, e.key ∈ {k | k ∈ triggers} := by
  have hcard : w.length = w.toFinset.card := (List.toFinset_card_of_nodup hw).symm
  constructor
  · rintro ⟨⟨e, he, hkey⟩, hrecords, husers, hsources⟩
    exact ⟨⟨hcard ▸ hrecords, distinct_users ▸ husers, distinct_sources ▸ hsources⟩,
      e, List.mem_toFinset.mpr he, hkey⟩
  · rintro ⟨⟨hrecords, husers, hsources⟩, e, he, hkey⟩
    exact ⟨⟨e, List.mem_toFinset.mp he, hkey⟩, hcard ▸ hrecords, distinct_users ▸ husers,
      distinct_sources ▸ hsources⟩

/-! ### All scans together -/

theorem matchEdges_append (ms ms' : List RuleMatch) :
    matchEdges (ms ++ ms') = matchEdges ms ∪ matchEdges ms' := by
  ext p
  simp only [matchEdges, List.mem_append, Set.mem_union, Set.mem_ofPred_eq]
  constructor
  · rintro ⟨m, hm | hm, rfl⟩
    · exact Or.inl ⟨m, hm, rfl⟩
    · exact Or.inr ⟨m, hm, rfl⟩
  · rintro (⟨m, hm, rfl⟩ | ⟨m, hm, rfl⟩)
    · exact ⟨m, Or.inl hm, rfl⟩
    · exact ⟨m, Or.inr hm, rfl⟩

theorem matchEdges_mono {ms ms' : List RuleMatch} (h : ms ⊆ ms') : matchEdges ms ⊆ matchEdges ms' := by
  rintro p ⟨m, hm, rfl⟩
  exact ⟨m, h hm, rfl⟩

theorem refines_flatMap {α : Type} {l : List α} {f : α → List RuleMatch}
    {H : Set (RuleId × Set Key)} (h : ∀ a ∈ l, Refines (matchEdges (f a)) H) :
    Refines (matchEdges (l.flatMap f)) H := by
  rintro ruleId ks ⟨m, hm, heq⟩
  obtain ⟨a, ha, hma⟩ := List.mem_flatMap.mp hm
  exact h a ha ruleId ks ⟨m, hma, heq⟩

variable {x : Event}

section Detect

variable {es : List Event} {triggers : List Key}

/-- The detected events of a group, as the loop over groups collects them. -/
def groupRecords (es : List Event) (g : List Char ×ₗ List Char) : List Event :=
  (es.filter fun e => failureType e.kind || successType e.kind).filter fun e => e.group = g

/-- The failures of a peer, as the loop over peers collects them. -/
def peerFailures (es : List Event) (p : List Char) : List Event :=
  (es.filter fun e => failureType e.kind).filter fun e => e.peer = p

variable {g : List Char ×ₗ List Char}

theorem mem_groupRecords :
    e ∈ groupRecords es g ↔ e ∈ es ∧ detectedType e.kind = true ∧ e.group = g := by
  simp only [groupRecords, detectedType, List.mem_filter, decide_eq_true_eq, and_assoc]

theorem mem_peerFailures {p : List Char} :
    e ∈ peerFailures es p ↔ e ∈ es ∧ failureType e.kind = true ∧ e.peer = p := by
  simp only [peerFailures, List.mem_filter, decide_eq_true_eq, and_assoc]

theorem group_eq_iff {r : Event} : e.group = r.group ↔ e.source = r.source ∧ e.peer = r.peer := by
  simp [Event.group]

variable {E : Finset Event}

/-- A local scan sees the windows of its rule on its group. -/
theorem local_window (hrule : rule.ruleId ≠ .crossSource) (hE : ∀ e, e ∈ E ↔ e ∈ es)
    (hx : x.group = g) :
    (windowList rule.window ((groupRecords es g).filter fun e => failureType e.kind) x).toFinset
      = rule.windowOf E x := by
  ext e
  subst hx
  simp only [List.mem_toFinset, mem_windowList, mem_windowOf, List.mem_filter, mem_groupRecords, hE,
    FailureRule.Related, group_eq_iff]
  constructor
  · rintro ⟨⟨⟨he, -, hsource, hpeer⟩, hfail⟩, horder, htime⟩
    exact ⟨he, hfail, ⟨hpeer, fun _ => hsource⟩, horder, htime⟩
  · rintro ⟨he, hfail, ⟨hpeer, hsource⟩, horder, htime⟩
    have hdet : detectedType e.kind = true := by simp [detectedType, hfail]
    exact ⟨⟨⟨he, hdet, hsource hrule, hpeer⟩, hfail⟩, horder, htime⟩

/-- The cross-source scan sees the windows of its rule on its peer. -/
theorem cross_window {p : List Char} (hE : ∀ e, e ∈ E ↔ e ∈ es) (hx : x.peer = p) :
    (windowList crossSourceRule.window (peerFailures es p) x).toFinset
      = crossSourceRule.windowOf E x := by
  ext e
  subst hx
  simp only [List.mem_toFinset, mem_windowList, mem_windowOf, mem_peerFailures, hE,
    FailureRule.Related]
  constructor
  · rintro ⟨⟨he, hfail, hpeer⟩, horder, htime⟩
    exact ⟨he, hfail, ⟨hpeer, fun hne => absurd rfl hne⟩, horder, htime⟩
  · rintro ⟨he, hfail, ⟨hpeer, -⟩, horder, htime⟩
    exact ⟨⟨he, hfail, hpeer⟩, horder, htime⟩

/-- The success scan sees the failures before a success of its group. -/
theorem prior_window (hE : ∀ e, e ∈ E ↔ e ∈ es) {s : Event} (hs : s.group = g) :
    (priorList ((groupRecords es g).filter fun e => authenticationFailureType e.kind) s).toFinset
      = priorFailures E s := by
  ext e
  subst hs
  simp only [List.mem_toFinset, priorList, mem_priorFailures, List.mem_filter, mem_groupRecords, hE,
    Bool.and_eq_true, decide_eq_true_eq]
  constructor
  · rintro ⟨⟨⟨he, -, hgroup⟩, hauth⟩, hge, hlt⟩
    exact ⟨he, hauth, hgroup, hlt, hge⟩
  · rintro ⟨he, hauth, hgroup, hlt, hge⟩
    have hdet : detectedType e.kind = true := by
      simp [detectedType, authentication_le_failure hauth]
    exact ⟨⟨⟨he, hdet, hgroup⟩, hauth⟩, hge, hlt⟩

/-- A scan whose window lists are the windows of its rule has exactly their edges. -/
theorem mem_scanEdges {l : List Event} (hnodup : l.Nodup)
    (hwin : ∀ x ∈ l, (windowList rule.window l x).toFinset = rule.windowOf E x)
    {p : RuleId × Set Key} : p ∈ scanEdges triggers rule l ↔
      ∃ x ∈ l, rule.Qualifies (rule.windowOf E x) ∧
        (∃ e ∈ rule.windowOf E x, e.key ∈ {k | k ∈ triggers}) ∧
        p = (rule.ruleId, keysOf (rule.windowOf E x)) := by
  refine exists_congr fun x => and_congr_right fun hx => ?_
  have hwn : (windowList rule.window l x).Nodup := hnodup.filter _
  rw [liveWindow_iff_qualifies hwn, keysIn_eq, hwin x hx, and_assoc]

/-- The same for the success scan. -/
theorem mem_successEdges {fs ss : List Event} (hnodup : fs.Nodup)
    (hwin : ∀ s ∈ ss, (priorList fs s).toFinset = priorFailures E s) {p : RuleId × Set Key} :
    p ∈ successEdges triggers fs ss ↔
      ∃ s ∈ ss, successMinFailures ≤ (priorFailures E s).card ∧
        (∃ e ∈ insert s (priorFailures E s), e.key ∈ {k | k ∈ triggers}) ∧
        p = (.successAfterFailures, keysOf (insert s (priorFailures E s))) := by
  refine exists_congr fun s => and_congr_right fun hs => ?_
  have hlen : (priorList fs s).length = (priorFailures E s).card := by
    have hprior : (priorList fs s).Nodup := hnodup.filter _
    rw [← hwin s hs, List.toFinset_card_of_nodup hprior]
  have hkeys : keysIn (priorList fs s ++ [s]) = keysOf (insert s (priorFailures E s)) := by
    rw [keysIn_eq, ← hwin s hs]
    congr 1
    ext e
    simp
  have hmem : ∀ e, e ∈ priorFailures E s ↔ e ∈ priorList fs s := fun e => by
    rw [← hwin s hs, List.mem_toFinset]
  rw [hkeys, ← and_assoc]
  refine and_congr_left fun _ => ?_
  constructor
  · rintro ⟨hcard, ⟨f, hf, hkey⟩ | hkey⟩
    · exact ⟨hlen ▸ hcard, f, Finset.mem_insert_of_mem ((hmem f).mpr hf), hkey⟩
    · exact ⟨hlen ▸ hcard, s, Finset.mem_insert_self _ _, hkey⟩
  · rintro ⟨hcard, e, he, hkey⟩
    refine ⟨hlen ▸ hcard, ?_⟩
    rcases Finset.mem_insert.mp he with rfl | he
    · exact Or.inr hkey
    · exact Or.inl ⟨e, (hmem e).mp he, hkey⟩

theorem mem_sortedGroups {κ : Type} [LinearOrder κ] {key : Event → κ} {l : List Event} {g : κ} :
    g ∈ sortedGroups key l ↔ ∃ e ∈ l, key e = g := by
  simp [sortedGroups]

theorem localRule_ne_cross (h : rule ∈ burstRule :: localRules) : rule.ruleId ≠ .crossSource := by
  simp only [localRules, List.mem_cons, List.not_mem_nil, or_false] at h
  rcases h with rfl | rfl | rfl <;> simp [burstRule]

theorem mem_failureRules :
    rule ∈ failureRules ↔ rule ∈ burstRule :: localRules ∨ rule = crossSourceRule := by
  simp only [failureRules, List.mem_append, List.mem_singleton]

section Scans

variable {E : Finset Event} (hsorted : Ordered es) (hE : ∀ e, e ∈ E ↔ e ∈ es)
include hsorted hE

theorem mem_localEdges (hrule : rule ∈ burstRule :: localRules) {p : RuleId × Set Key} :
    p ∈ scanEdges triggers rule ((groupRecords es g).filter fun e => failureType e.kind) ↔
      ∃ x ∈ (groupRecords es g).filter fun e => failureType e.kind,
        rule.Qualifies (rule.windowOf E x) ∧
        (∃ e ∈ rule.windowOf E x, e.key ∈ {k | k ∈ triggers}) ∧
        p = (rule.ruleId, keysOf (rule.windowOf E x)) := by
  have hl : Ordered ((groupRecords es g).filter fun e => failureType e.kind) :=
    ((hsorted.filter _).filter _).filter _
  refine mem_scanEdges hl.nodup fun x hx => local_window (localRule_ne_cross hrule) hE ?_
  exact (mem_groupRecords.mp (List.mem_of_mem_filter hx)).2.2

theorem mem_crossEdges {peer : List Char} {p : RuleId × Set Key} :
    p ∈ scanEdges triggers crossSourceRule (peerFailures es peer) ↔
      ∃ x ∈ peerFailures es peer, crossSourceRule.Qualifies (crossSourceRule.windowOf E x) ∧
        (∃ e ∈ crossSourceRule.windowOf E x, e.key ∈ {k | k ∈ triggers}) ∧
        p = (.crossSource, keysOf (crossSourceRule.windowOf E x)) := by
  have hl : Ordered (peerFailures es peer) := (hsorted.filter _).filter _
  exact mem_scanEdges hl.nodup fun x hx => cross_window hE (mem_peerFailures.mp hx).2.2

theorem mem_groupSuccessEdges {p : RuleId × Set Key} :
    p ∈ successEdges triggers
        ((groupRecords es g).filter fun e => authenticationFailureType e.kind)
        ((groupRecords es g).filter fun e => successType e.kind) ↔
      ∃ s ∈ (groupRecords es g).filter fun e => successType e.kind,
        successMinFailures ≤ (priorFailures E s).card ∧
        (∃ e ∈ insert s (priorFailures E s), e.key ∈ {k | k ∈ triggers}) ∧
        p = (.successAfterFailures, keysOf (insert s (priorFailures E s))) := by
  have hl : Ordered ((groupRecords es g).filter fun e => authenticationFailureType e.kind) :=
    ((hsorted.filter _).filter _).filter _
  refine mem_successEdges hl.nodup fun s hs => prior_window hE ?_
  exact (mem_groupRecords.mp (List.mem_of_mem_filter hs)).2.2

end Scans

/-- The matches of one group. -/
def groupMatches (es : List Event) (triggers : List Key) (g : List Char ×ₗ List Char) :
    List RuleMatch :=
  (burstRule :: localRules).flatMap
      (failureMatches ((groupRecords es g).filter fun e => failureType e.kind) triggers) ++
    successMatches (groupRecords es g) triggers

theorem detectMatches_eq {rows : List Row} (h : triggers ≠ []) :
    detectMatches rows triggers true =
      (sortedGroups Event.group ((normalize rows).filter fun e =>
        failureType e.kind || successType e.kind)).flatMap
          (groupMatches (normalize rows) triggers) ++
      (sortedGroups Event.peer ((normalize rows).filter fun e => failureType e.kind)).flatMap
        fun peer => failureMatches (peerFailures (normalize rows) peer) triggers crossSourceRule := by
  rw [detectMatches, if_neg h]
  rfl

section Loops

variable {E : Finset Event} (hsorted : Ordered es) (hkey : ∀ e ∈ es, e.row.key = e.key)
include hsorted hkey

theorem localMatches_edges (g : List Char ×ₗ List Char) (rule : FailureRule) : Equivalent
    (matchEdges (failureMatches ((groupRecords es g).filter fun e => failureType e.kind)
      triggers rule))
    (scanEdges triggers rule ((groupRecords es g).filter fun e => failureType e.kind)) :=
  failureMatches_edges (((hsorted.filter _).filter _).filter _) fun e he =>
    hkey e (mem_groupRecords.mp (List.mem_of_mem_filter he)).1

theorem crossMatches_edges (peer : List Char) : Equivalent
    (matchEdges (failureMatches (peerFailures es peer) triggers crossSourceRule))
    (scanEdges triggers crossSourceRule (peerFailures es peer)) :=
  failureMatches_edges ((hsorted.filter _).filter _) fun e he => hkey e (mem_peerFailures.mp he).1

theorem groupSuccessMatches_edges (g : List Char ×ₗ List Char) : Equivalent
    (matchEdges (successMatches (groupRecords es g) triggers))
    (successEdges triggers
      ((groupRecords es g).filter fun e => authenticationFailureType e.kind)
      ((groupRecords es g).filter fun e => successType e.kind)) :=
  successMatches_edges ((hsorted.filter _).filter _) fun e he => hkey e (mem_groupRecords.mp he).1

variable (hE : ∀ e, e ∈ E ↔ e ∈ es)
include hE

/-- What the scans of a group return are windows of the events. -/
theorem groupMatches_refines (g : List Char ×ₗ List Char) :
    Refines (matchEdges (groupMatches es triggers g)) (edges E {k | k ∈ triggers}) := by
  rw [groupMatches, matchEdges_append]
  refine Refines.union (refines_flatMap fun rule hrule => ?_) ?_
  · refine (localMatches_edges hsorted hkey g rule).1.trans (refines_of_subset fun p hp => ?_)
    obtain ⟨x, hx, hq, htrigger, rfl⟩ := (mem_localEdges hsorted hE hrule).mp hp
    have hmem := (mem_groupRecords.mp (List.mem_of_mem_filter hx)).1
    exact ⟨_, .failures (Iff.mpr mem_failureRules (Or.inl hrule)) ((hE x).mpr hmem)
      (List.mem_filter.mp hx).2 hq, htrigger, rfl⟩
  · refine (groupSuccessMatches_edges hsorted hkey g).1.trans (refines_of_subset fun p hp => ?_)
    obtain ⟨s, hs, hq, htrigger, rfl⟩ := (mem_groupSuccessEdges hsorted hE).mp hp
    have hmem := (mem_groupRecords.mp (List.mem_of_mem_filter hs)).1
    exact ⟨_, .success ((hE s).mpr hmem) (List.mem_filter.mp hs).2 hq, htrigger, rfl⟩

theorem crossMatches_refines (peer : List Char) :
    Refines (matchEdges (failureMatches (peerFailures es peer) triggers crossSourceRule))
      (edges E {k | k ∈ triggers}) := by
  refine (crossMatches_edges hsorted hkey peer).1.trans (refines_of_subset fun p hp => ?_)
  obtain ⟨x, hx, hq, htrigger, rfl⟩ := (mem_crossEdges hsorted hE).mp hp
  obtain ⟨hmem, hfail, -⟩ := mem_peerFailures.mp hx
  exact ⟨_, .failures (mem_failureRules.mpr (Or.inr rfl)) ((hE x).mpr hmem) hfail hq, htrigger, rfl⟩

/-- Each window is found by a scan of the group or the peer of its anchor. -/
theorem edge_found {ruleId : RuleId} {ks : Set Key} (h : (ruleId, ks) ∈ edges E {k | k ∈ triggers}) :
    (∃ x ∈ es, detectedType x.kind = true ∧
      Refines {(ruleId, ks)} (matchEdges (groupMatches es triggers x.group))) ∨
    (∃ x ∈ es, failureType x.kind = true ∧ Refines {(ruleId, ks)}
      (matchEdges (failureMatches (peerFailures es x.peer) triggers crossSourceRule))) := by
  obtain ⟨w, hw, htrigger, hks⟩ := h
  cases hw with
  | @failures rule r hrule hr hkind hq =>
    have hmem := (hE r).mp hr
    rcases mem_failureRules.mp hrule with hlocal | hcross
    · left
      have hdet : detectedType r.kind = true := by simp [detectedType, hkind]
      refine ⟨r, hmem, hdet, ?_⟩
      have hscan : (rule.ruleId, ks) ∈ scanEdges triggers rule
          ((groupRecords es r.group).filter fun e => failureType e.kind) :=
        (mem_localEdges hsorted hE hlocal).mpr
          ⟨r, List.mem_filter.mpr ⟨mem_groupRecords.mpr ⟨hmem, hdet, rfl⟩, hkind⟩, hq, htrigger,
            congrArg _ hks⟩
      refine (refines_of_subset (Set.singleton_subset_iff.mpr hscan)).trans
        ((localMatches_edges hsorted hkey r.group rule).2.trans (refines_of_subset ?_))
      refine matchEdges_mono fun m hm => List.mem_append_left _ ?_
      exact List.mem_flatMap.mpr ⟨rule, hlocal, hm⟩
    · right
      subst hcross
      refine ⟨r, hmem, hkind, ?_⟩
      have hscan : (RuleId.crossSource, ks) ∈ scanEdges triggers crossSourceRule
          (peerFailures es r.peer) :=
        (mem_crossEdges hsorted hE).mpr
          ⟨r, mem_peerFailures.mpr ⟨hmem, hkind, rfl⟩, hq, htrigger, congrArg _ hks⟩
      exact (refines_of_subset (Set.singleton_subset_iff.mpr hscan)).trans
        (crossMatches_edges hsorted hkey r.peer).2
  | @success s hs hkind hq =>
    left
    have hmem := (hE s).mp hs
    have hdet : detectedType s.kind = true := by simp [detectedType, hkind]
    refine ⟨s, hmem, hdet, ?_⟩
    have hscan : (RuleId.successAfterFailures, ks) ∈ successEdges triggers
        ((groupRecords es s.group).filter fun e => authenticationFailureType e.kind)
        ((groupRecords es s.group).filter fun e => successType e.kind) :=
      (mem_groupSuccessEdges hsorted hE).mpr
        ⟨s, List.mem_filter.mpr ⟨mem_groupRecords.mpr ⟨hmem, hdet, rfl⟩, hkind⟩, hq, htrigger,
          congrArg _ hks⟩
    refine (refines_of_subset (Set.singleton_subset_iff.mpr hscan)).trans
      ((groupSuccessMatches_edges hsorted hkey s.group).2.trans (refines_of_subset ?_))
    exact matchEdges_mono fun m hm => List.mem_append_right _ hm

end Loops

end Detect

/-- **Detection finds the windows.** On rows with distinct, trimmed keys the matches have
the components of the qualifying windows that hold a trigger. -/
theorem detect_edges {rows : List Row} {triggers : List Key} (hnodup : (rows.map Row.key).Nodup)
    (htrim : ∀ row ∈ rows, row.Trimmed) :
    Equivalent (matchEdges (detectMatches rows triggers true))
      (edges (eventsOf rows) {k | k ∈ triggers}) := by
  by_cases hempty : triggers = []
  · subst hempty
    constructor
    · rintro ruleId ks ⟨m, hm, -⟩
      exact absurd hm (by simp [detectMatches])
    · rintro ruleId ks ⟨w, -, ⟨e, -, hkey⟩, -⟩
      exact absurd hkey List.not_mem_nil
  have hsorted := ordered_normalize hnodup htrim
  have hE : ∀ e, e ∈ eventsOf rows ↔ e ∈ normalize rows := fun e => by
    rw [mem_eventsOf, mem_normalize hnodup htrim]
  have hkey : ∀ e ∈ normalize rows, e.row.key = e.key := by
    intro e he
    obtain ⟨row, hrow, hev⟩ := (mem_normalize hnodup htrim).mp he
    have hreads := event?_reads hev (htrim row hrow)
    rw [hreads.row_eq, hreads.key_eq]
  rw [detectMatches_eq hempty]
  constructor
  · rw [matchEdges_append]
    exact (refines_flatMap fun g _ => groupMatches_refines hsorted hkey hE g).union
      (refines_flatMap fun peer _ => crossMatches_refines hsorted hkey hE peer)
  · rintro ruleId ks hedge
    rcases edge_found hsorted hkey hE hedge with ⟨x, hx, hkind, hfound⟩ | ⟨x, hx, hkind, hfound⟩
    · refine (hfound.trans (refines_of_subset (matchEdges_mono fun m hm => ?_))) _ _ rfl
      refine List.mem_append_left _ (List.mem_flatMap.mpr ⟨x.group, ?_, hm⟩)
      exact mem_sortedGroups.mpr ⟨x, List.mem_filter.mpr ⟨hx, hkind⟩, rfl⟩
    · refine (hfound.trans (refines_of_subset (matchEdges_mono fun m hm => ?_))) _ _ rfl
      refine List.mem_append_right _ (List.mem_flatMap.mpr ⟨x.peer, ?_, hm⟩)
      exact mem_sortedGroups.mpr ⟨x, List.mem_filter.mpr ⟨hx, hkind⟩, rfl⟩

/-! ### The evidence of a match -/

theorem event?_row {row : Row} (h : event? row = some e) : e.row = row := by
  simp only [event?, Option.bind_eq_bind, Option.bind_eq_some_iff] at h
  obtain ⟨source, -, eventId, -, peer, -, he⟩ := h
  exact (congrArg Event.row (Option.some.inj he)).symm

theorem mem_of_dedupe {seen : List Key} (h : e ∈ dedupe seen es) : e ∈ es := by
  induction es generalizing seen with
  | nil => exact h
  | cons x es ih =>
    rw [dedupe] at h
    split at h
    · exact List.mem_cons_of_mem _ (ih h)
    · rcases List.mem_cons.mp h with rfl | h
      · exact List.mem_cons_self
      · exact List.mem_cons_of_mem _ (ih h)

theorem row_of_mem_normalize {rows : List Row} (h : e ∈ normalize rows) : e.row ∈ rows := by
  rw [normalize, List.mem_insertionSort] at h
  obtain ⟨row, hrow, hev⟩ := List.mem_filterMap.mp (mem_of_dedupe h)
  rwa [event?_row hev]

theorem timed_normalize (rows : List Row) : Timed (normalize rows) :=
  (List.pairwise_insertionSort _ _).imp at_le_of_order_le

/-- Every match holds rows, and only rows it was given. -/
theorem detectMatches_evidence {rows : List Row} {triggers : List Key} {m : RuleMatch}
    (hm : m ∈ detectMatches rows triggers true) :
    m.evidence ≠ [] ∧ ∀ row ∈ m.evidence, row ∈ rows := by
  by_cases hempty : triggers = []
  · simp [detectMatches, hempty] at hm
  rw [detectMatches_eq hempty] at hm
  have htimed := timed_normalize rows
  have hin : ∀ {es : List Event}, (∀ e ∈ es, e ∈ normalize rows) →
      (m.evidence ≠ [] ∧ ∀ row ∈ m.evidence, ∃ e ∈ es, e.row = row) →
      m.evidence ≠ [] ∧ ∀ row ∈ m.evidence, row ∈ rows := by
    rintro es hes ⟨hne, hmem⟩
    refine ⟨hne, fun row hrow => ?_⟩
    obtain ⟨e, he, rfl⟩ := hmem row hrow
    exact row_of_mem_normalize (hes e he)
  rcases List.mem_append.mp hm with hm | hm
  · obtain ⟨g, -, hm⟩ := List.mem_flatMap.mp hm
    rcases List.mem_append.mp hm with hm | hm
    · obtain ⟨rule, -, hm⟩ := List.mem_flatMap.mp hm
      exact hin (fun e he => (mem_groupRecords.mp (List.mem_of_mem_filter he)).1)
        (failureMatches_evidence (((htimed.filter _).filter _).filter _) hm)
    · exact hin (fun e he => (mem_groupRecords.mp he).1)
        (successMatches_evidence ((htimed.filter _).filter _) hm)
  · obtain ⟨peer, -, hm⟩ := List.mem_flatMap.mp hm
    exact hin (fun e he => (mem_peerFailures.mp he).1) (failureMatches_evidence ((htimed.filter _).filter _) hm)

end RiskOps.Telemetry
