import RiskOps.Telemetry.DetectionClusters
import RiskOps.Telemetry.StoreIdentity
import RiskOps.Telemetry.StoreInvariant

/-!
# RiskOps.Telemetry.StoreScores — the score and the detector agree on successes

**The rule follows the number.** A success comes into an incident only with a match of the success
rule, and with it come the failures before it; they stay together through merges. So the incident
has the rule whenever the score counts a success, and a refresh takes the rule away when it does
not.
-/

namespace RiskOps.Telemetry.Store

open RiskOps.Lib

/-! ### A success comes with the failures before it -/

/-- A row whose source id and peer have no white space around them. -/
def TrimmedPeer (row : Row) : Prop :=
  strip row.sourceId = row.sourceId ∧ ∀ p, row.srcIp = some p → strip p = p

/-- What the detector takes from such a row. -/
theorem event?_trimmed {row : Row} {e : Event} (h : event? row = some e) (ht : TrimmedPeer row) :
    e.row = row ∧ e.source = row.sourceId ∧ (row.srcIp = some e.peer ∧ e.peer ≠ []) ∧
      e.at = row.eventTs ∧ e.kind = row.eventType := by
  have hpeer := event?_peer h
  simp only [event?, Option.bind_eq_bind, Option.bind_eq_some_iff] at h
  obtain ⟨source, hsource, eventId, -, peer, ⟨p, hp, htext⟩, he⟩ := h
  obtain rfl := text_of_trimmed ht.1 hsource
  obtain rfl := text_of_trimmed (ht.2 p hp) htext
  obtain rfl := Option.some.inj he
  exact ⟨rfl, rfl, ⟨hp, hpeer⟩, rfl, rfl⟩

theorem failureType_of_success {kind : Sshd.EventKind} (h : successType kind = true) :
    failureType kind = false := by
  cases kind <;> first | rfl | cases h

theorem nodup_normalize (rows : List Row) : (normalize rows).Nodup :=
  (List.perm_insertionSort _ _).nodup_iff.mpr (nodup_dedupe [] _).1.of_map

/-- A success in a match of the success scan is there with its whole window. -/
theorem mem_successMatch {es : List Event} {triggers : List Key} {m : RuleMatch}
    (htimed : Timed es) (hm : m ∈ successMatches es triggers) {row : Row} (hrow : row ∈ m.evidence)
    (hes : ∀ x ∈ es, x.kind = x.row.eventType)
    (hkind : successType row.eventType = true) :
    m.ruleId = .successAfterFailures ∧ ∃ s ∈ es, s.row = row ∧
      successMinFailures ≤
        (priorList (es.filter fun x => authenticationFailureType x.kind) s).length ∧
      ∀ f ∈ priorList (es.filter fun x => authenticationFailureType x.kind) s,
        f.row ∈ m.evidence := by
  obtain ⟨fs, hfs⟩ : ∃ fs, fs = es.filter fun x => authenticationFailureType x.kind := ⟨_, rfl⟩
  obtain ⟨ss, hss⟩ : ∃ ss, ss = es.filter fun x => successType x.kind := ⟨_, rfl⟩
  have hlaw := @success_law triggers fs ss (hfs ▸ htimed.filter _) (hss ▸ htimed.filter _)
  rw [successMatches_eq htimed hfs hss] at hm
  obtain ⟨span, hspan, rfl⟩ := List.mem_map.mp hm
  obtain ⟨s, heq, hs | ⟨k, hk, hget⟩⟩ := mem_evidence_successMatch.mp hrow
  all_goals refine ⟨rfl, s, ?_⟩
  · -- The failures of the match are no successes.
    have hmem : s ∈ fs := List.mem_of_mem_take (List.mem_of_mem_drop hs)
    rw [hfs, List.mem_filter] at hmem
    have hfailure := authentication_le_failure hmem.2
    rw [hes s hmem.1, heq, failureType_of_success hkind] at hfailure
    cases hfailure
  · obtain ⟨hqualifies, hcontains⟩ := ((hlaw.members span hspan).2 k).mp hk
    obtain ⟨s', hs', hlive⟩ := hqualifies
    obtain rfl : s' = s := Option.some.inj (hs'.symm.trans hget)
    have hin : s' ∈ es := by
      have hmem := List.mem_of_getElem? hget
      rw [hss] at hmem
      exact (List.mem_filter.mp hmem).1
    refine ⟨hin, heq, hfs ▸ hlive.failures, fun f hf => ?_⟩
    rw [← hfs] at hf
    obtain ⟨hf, hrecent, hbefore⟩ := mem_priorList.mp hf
    obtain ⟨p, hp⟩ := List.mem_iff_getElem?.mp hf
    obtain ⟨hstart, hstop⟩ := hcontains p ⟨s', f, hs', hp, hrecent, hbefore⟩
    exact mem_evidence_successMatch.mpr
      ⟨f, rfl, .inl (mem_slice.mpr ⟨p, hstart, hstop, hp⟩)⟩

/-- **A success comes into evidence by its rule only**, with the failures before it. -/
theorem success_preceded {rows : List Row} {triggers : List Key} {m : RuleMatch}
    (hm : m ∈ detectMatches rows triggers true) (htrim : ∀ row ∈ rows, TrimmedPeer row) {s : Row}
    (hs : s ∈ m.evidence) (hkind : successType s.eventType = true) :
    m.ruleId = .successAfterFailures ∧ Preceded (· ∈ m.evidence) s := by
  have hnot : ∀ {es : List Event} {rule : FailureRule},
      (∀ e ∈ es, e ∈ normalize rows ∧ failureType e.kind = true) →
      m ∉ failureMatches es triggers rule := fun {es rule} hes hm => by
    obtain ⟨iv, -, rfl⟩ := List.mem_map.mp hm
    obtain ⟨e, he, rfl⟩ := List.mem_map.mp hs
    replace he := List.mem_of_mem_take (List.mem_of_mem_drop he)
    obtain ⟨hmem, hfailure⟩ := hes e he
    obtain ⟨row, hrow, hev⟩ := event_of_mem_normalize hmem
    obtain ⟨rfl, -, -, -, hkinds⟩ := event?_trimmed hev (htrim row hrow)
    rw [hkinds, failureType_of_success hkind] at hfailure
    cases hfailure
  by_cases hempty : triggers = []
  · simp [detectMatches, hempty] at hm
  rw [detectMatches_eq hempty] at hm
  rcases List.mem_append.mp hm with hm | hm
  · obtain ⟨g, -, hm⟩ := List.mem_flatMap.mp hm
    rcases List.mem_append.mp hm with hm | hm
    · obtain ⟨rule, -, hm⟩ := List.mem_flatMap.mp hm
      refine absurd hm (hnot fun e he => ?_)
      obtain ⟨he, hfailure⟩ := List.mem_filter.mp he
      exact ⟨(mem_groupRecords.mp he).1, hfailure⟩
    · have hread : ∀ x ∈ groupRecords (normalize rows) g,
          event? x.row = some x ∧ x.source = x.row.sourceId ∧
            (x.row.srcIp = some x.peer ∧ x.peer ≠ []) ∧ x.at = x.row.eventTs ∧
            x.kind = x.row.eventType := fun x hx => by
        obtain ⟨row, hrow, hev⟩ := event_of_mem_normalize (mem_groupRecords.mp hx).1
        obtain ⟨hsame, hfields⟩ := event?_trimmed hev (htrim row hrow)
        exact hsame.symm ▸ ⟨hev, hfields⟩
      have htimed : Timed (groupRecords (normalize rows) g) :=
        ((timed_normalize rows).filter _).filter _
      obtain ⟨hrule, e, he, rfl, hlen, hprior⟩ :=
        mem_successMatch htimed hm hs (fun x hx => (hread x hx).2.2.2.2) hkind
      obtain ⟨failures, hfailures⟩ : ∃ fs, fs = (groupRecords (normalize rows) g).filter fun x =>
        authenticationFailureType x.kind := ⟨_, rfl⟩
      rw [← hfailures] at hlen hprior
      have hmem : ∀ f ∈ priorList failures e, f ∈ groupRecords (normalize rows) g := fun f hf => by
        have hin := (mem_priorList.mp hf).1
        rw [hfailures] at hin
        exact (List.mem_filter.mp hin).1
      have hnodup : (priorList failures e).Nodup := by
        rw [hfailures]
        exact ((((nodup_normalize rows).filter _).filter _).filter _).filter _
      refine ⟨hrule, (priorList failures e).map Event.row,
        hnodup.map_on fun a ha b hb hab => ?_, by rwa [List.length_map], fun row hrow => ?_⟩
      · have hev := (hread a (hmem a ha)).1
        rw [hab, (hread b (hmem b hb)).1] at hev
        exact (Option.some.inj hev).symm
      · obtain ⟨f, hf, rfl⟩ := List.mem_map.mp hrow
        refine ⟨hprior f hf, ?_⟩
        obtain ⟨-, hsource, ⟨hpeer, hne⟩, hat, -⟩ := hread e he
        obtain ⟨-, hsource', ⟨hpeer', -⟩, hat', hkind'⟩ := hread f (hmem f hf)
        obtain ⟨hfail, hrecent, hbefore⟩ := mem_priorList.mp hf
        obtain ⟨hsources, hpeers⟩ := group_eq_iff.mp ((mem_groupRecords.mp (hmem f hf)).2.2.trans
          (mem_groupRecords.mp he).2.2.symm)
        rw [hfailures] at hfail
        have hauth := (List.mem_filter.mp hfail).2
        rw [precedes_iff, ← hkind', ← hat, ← hat', ← hsource, ← hsource']
        exact ⟨hauth, hsources, ⟨e.peer, hpeer, hpeers ▸ hpeer', hne⟩, hrecent, hbefore⟩
  · obtain ⟨peer, -, hm⟩ := List.mem_flatMap.mp hm
    refine absurd hm (hnot fun e he => ?_)
    obtain ⟨hmem, hfailure, -⟩ := mem_peerFailures.mp he
    exact ⟨hmem, hfailure⟩

/-! ### Incidents keep successes and their failures together -/

/-- The incident holds the row. -/
def View.HasRow (v : View) (i : Id) (row : Row) : Prop := ∃ k, v.held k = some (row, i)

/-- **The success rule stands for a success that counts.** What is still to be refreshed may have
the rule without a success. -/
structure View.Scored (v : View) (dirty : Id → Prop) : Prop where
  trimmed : ∀ row ∈ v.rows, TrimmedPeer row
  owned : ∀ i c, v.incident i = some (c, none) → ∃ k, v.owner k = some i
  agree : ∀ k row i, v.held k = some (row, i) → row.key = k ∧ ∀ r ∈ v.rows, r.key = k → r = row
  carries : ∀ i s, v.HasRow i s → successType s.eventType = true →
    v.label i .successAfterFailures = true ∧ Preceded (v.HasRow i) s
  stands : ∀ i c, v.incident i = some (c, none) → ¬ dirty i →
    v.label i .successAfterFailures = true → ∃ s, v.HasRow i s ∧ successType s.eventType = true

section Applied

variable {v v' : View} {m : RuleMatch} {i : Id}

/-- What an incident that is met held goes to the survivor as it is. -/
theorem Applied.held_of_met (h : Applied v v' m i) {dirty : Id → Prop} (hp : v.Scored dirty)
    (hevidence : ∀ row ∈ m.evidence, row ∈ v.rows) {k : Key} {row : Row} {j : Id}
    (hk : v.held k = some (row, j)) (hmet : v.Meets m j) : v'.held k = some (row, i) := by
  have howner : v.owner k = some j := by rw [View.owner, hk]; rfl
  obtain ⟨row', hrow'⟩ := View.held_of_owner (h.taken k (.inr ⟨j, howner, hmet⟩))
  rcases h.held k row' i hrow' with ⟨j', hold⟩ | ⟨hmem, hkey⟩
  · obtain ⟨rfl, -⟩ := Prod.mk.inj (Option.some.inj (hk.symm.trans hold))
    exact hrow'
  · obtain rfl := (hp.agree k row j hk).2 row' (hevidence _ hmem) hkey
    exact hrow'

/-- The evidence goes to the survivor. -/
theorem Applied.held_of_evidence (h : Applied v v' m i) {dirty : Id → Prop} (hp : v.Scored dirty)
    (hnodup : (v.rows.map Row.key).Nodup) (hevidence : ∀ row ∈ m.evidence, row ∈ v.rows) {row : Row}
    (hrow : row ∈ m.evidence) : v'.held row.key = some (row, i) := by
  obtain ⟨row', hrow'⟩ := View.held_of_owner (h.taken _ (.inl (List.mem_map_of_mem hrow)))
  rcases h.held _ row' i hrow' with ⟨j', hold⟩ | ⟨hmem, hkey⟩
  · obtain rfl := (hp.agree _ row' j' hold).2 row (hevidence _ hrow) rfl
    exact hrow'
  · obtain rfl := List.inj_on_of_nodup_map hnodup (hevidence _ hmem) (hevidence _ hrow) hkey
    exact hrow'

/-- An incident that is not met holds what it held. -/
theorem Applied.held_of_unmet (h : Applied v v' m i) {k : Key} {row : Row} {j : Id}
    (hk : v.held k = some (row, j)) (hnot : ¬ v.Meets m j) : v'.held k = some (row, j) := by
  have howner : v.owner k = some j := by rw [View.owner, hk]; rfl
  rw [h.kept k (fun hmem => hnot ?_) fun j' hj' => ?_, hk]
  · obtain ⟨row', hrow', rfl⟩ := List.mem_map.mp hmem
    exact ⟨row', hrow', howner⟩
  · rwa [← Option.some.inj (howner.symm.trans hj')]

/-- What the survivor holds that it was not given as evidence was held by an incident that is
met. -/
theorem Applied.held_cases (h : Applied v v' m i) {k : Key} {row : Row} {j : Id}
    (hk : v'.held k = some (row, j)) : (row ∈ m.evidence ∧ row.key = k ∧ j = i) ∨
      (∃ j', v.held k = some (row, j') ∧ v.Meets m j' ∧ j = i) ∨
      (v.held k = some (row, j) ∧ ¬ v.Meets m j) := by
  have howner' : v'.owner k = some j := by rw [View.owner, hk]; rfl
  rcases h.held k row j hk with ⟨j', hold⟩ | ⟨hmem, hkey⟩
  · have howner : v.owner k = some j' := by rw [View.owner, hold]; rfl
    by_cases hmet : v.Meets m j'
    · refine .inr (.inl ⟨j', hold, hmet, ?_⟩)
      exact Option.some.inj (howner'.symm.trans (h.taken k (.inr ⟨j', howner, hmet⟩)))
    · have hstays := h.held_of_unmet hold hmet
      obtain ⟨-, rfl⟩ := Prod.mk.inj (Option.some.inj (hstays.symm.trans hk))
      exact .inr (.inr ⟨hold, hmet⟩)
  · refine .inl ⟨hmem, hkey, ?_⟩
    exact Option.some.inj (howner'.symm.trans (h.taken k (.inl (hkey ▸ List.mem_map_of_mem hmem))))

/-- **A match keeps it**, with the survivor still to be refreshed. -/
theorem View.Scored.applied {dirty : Id → Prop} {rows : List Row} {triggers : List Key}
    (hp : v.Scored dirty) (hrows : ∀ row ∈ rows, row ∈ v.rows)
    (hnodup : (v.rows.map Row.key).Nodup) (hm : m ∈ detectMatches rows triggers true)
    (h : Applied v v' m i) : v'.Scored fun j => dirty j ∨ j = i := by
  have hevidence : ∀ row ∈ m.evidence, row ∈ v.rows := fun row hrow =>
    hrows row ((detectMatches_evidence hm).2 row hrow)
  have htake : ∀ j, v.Meets m j → ∀ row, v.HasRow j row → v'.HasRow i row :=
    fun j hmet row ⟨k, hk⟩ => ⟨k, h.held_of_met hp hevidence hk hmet⟩
  have hkeep : ∀ j, ¬ v.Meets m j → ∀ row, v.HasRow j row → v'.HasRow j row :=
    fun j hnot row ⟨k, hk⟩ => ⟨k, h.held_of_unmet hk hnot⟩
  refine ⟨h.rows ▸ hp.trimmed, h.openOwned hp.owned, fun k row j hk => ?_, fun j s hs hkind => ?_,
    fun j c hj hdirty hlabel => ?_⟩
  · rw [h.rows]
    rcases h.held k row j hk with ⟨j', hold⟩ | ⟨hmem, hkey⟩
    · exact hp.agree k row j' hold
    · exact ⟨hkey, fun r hr hrkey => List.inj_on_of_nodup_map hnodup hr (hevidence _ hmem)
        (hrkey.trans hkey.symm)⟩
  · obtain ⟨k, hk⟩ := hs
    rcases h.held_cases hk with ⟨hmem, -, rfl⟩ | ⟨j', hold, hmet, rfl⟩ | ⟨hold, hnot⟩
    · -- A new success is evidence of the success rule.
      obtain ⟨hrule, hpreceded⟩ := success_preceded hm (fun row hrow => hp.trimmed _ (hrows _ hrow))
        hmem hkind
      exact ⟨(h.label _ _).mpr (.inr ⟨rfl, .inl hrule.symm⟩), hpreceded.mono fun f hf =>
        ⟨f.key, h.held_of_evidence hp hnodup hevidence hf⟩⟩
    · obtain ⟨hlabel, hpreceded⟩ := hp.carries j' s ⟨k, hold⟩ hkind
      exact ⟨(h.label _ _).mpr (.inr ⟨rfl, .inr ⟨j', hmet, hlabel⟩⟩),
        hpreceded.mono (htake j' hmet)⟩
    · obtain ⟨hlabel, hpreceded⟩ := hp.carries j s ⟨k, hold⟩ hkind
      exact ⟨(h.label _ _).mpr (.inl hlabel), hpreceded.mono (hkeep j hnot)⟩
  · have hji : j ≠ i := fun hji => hdirty (.inr hji)
    have hnot : ¬ v.Meets m j := fun hmet => by
      rw [h.absorbed j hmet hji] at hj
      obtain ⟨p, -, hp'⟩ := Option.map_eq_some_iff.mp hj
      exact absurd (congrArg Prod.snd hp') (by simp)
    rw [h.others j hnot hji] at hj
    have hold := ((h.label _ _).mp hlabel).resolve_right fun hi => hji hi.1
    obtain ⟨s, hs, hkind⟩ := hp.stands j c hj (fun hd => hdirty (.inl hd)) hold
    exact ⟨s, hkeep j hnot s hs, hkind⟩

end Applied

/-! ### A refresh takes the rule from an incident without a success that counts -/

theorem label_refreshScore (db : Db) (i j : Id) (r : RuleId) :
    (refreshScore db i).view.label j r = true ↔ db.view.label j r = true ∧
      ¬ (scoringRefresh db i = some 0 ∧ j = i ∧ r = .successAfterFailures) := by
  unfold refreshScore
  split
  · rename_i hzero
    show ((db.rules.delete _).find? (j, r)).isSome = true ↔
      (db.rules.find? (j, r)).isSome = true ∧ _
    rw [Table.find?_delete]
    cases hfind : db.rules.find? (j, r) with
    | none => simp
    | some x =>
      have hkey : x.key = (j, r) := Table.find?_key hfind
      obtain ⟨rfl, rfl⟩ := Prod.mk.inj hkey
      simp [hzero, imp_iff_not_or]
  · rename_i hcount
    exact (and_iff_left fun h => hcount h.1).symm

theorem label_refreshIncident (db : Db) (i j : Id) (r : RuleId) :
    (refreshIncident db i).view.label j r = true ↔ db.view.label j r = true ∧
      ¬ (scoringRefresh db i = some 0 ∧ j = i ∧ r = .successAfterFailures) := by
  unfold refreshIncident
  dsimp only
  split
  · rename_i first last _ _
    exact label_refreshScore (countIncident (insertSources { db with
      details := db.details.replace (detailsOf i ((evidenceOf db i).map Evidence.row)) } i
        (evidenceOf db i)) i ((evidenceOf db i).map Evidence.row) first last) i j r
  · rename_i hnone
    have hempty : (evidenceOf db i).map Evidence.row = [] := by
      by_contra hne
      have hne' : ((evidenceOf db i).map Evidence.row).map Row.eventTs ≠ [] := fun h =>
        hne (List.map_eq_nil_iff.mp h)
      obtain ⟨first, hfirst⟩ := Option.ne_none_iff_exists'.mp (mt List.min?_eq_none_iff.mp hne')
      obtain ⟨last, hlast⟩ := Option.ne_none_iff_exists'.mp (mt List.max?_eq_none_iff.mp hne')
      exact hnone first last hfirst hlast
    have hcount : scoringRefresh db i = none := if_pos hempty
    rw [hcount]
    split
    · exact (and_iff_left fun h => nomatch h.1).symm
    · exact (and_iff_left fun h => nomatch h.1).symm

/-- **A refresh settles an incident.** -/
theorem View.Scored.refreshed {db : Db} {dirty : Id → Prop} (i : Id) (hp : db.view.Scored dirty) :
    (refreshIncident db i).view.Scored fun j => dirty j ∧ j ≠ i := by
  obtain ⟨-, hevidence, hevents, -, hincident⟩ := refreshIncident_frame db i
  have hheld : (refreshIncident db i).view.held = db.view.held := by
    funext k
    simp only [Db.view, hevidence]
  have hrows : (refreshIncident db i).view.rows = db.view.rows := by
    simp only [Db.view, hevents]
  have hhas : ∀ j, (refreshIncident db i).view.HasRow j = db.view.HasRow j := fun j => by
    funext row
    simp only [View.HasRow, hheld]
  have hmem : ∀ {j row}, db.view.HasRow j row ↔ row ∈ (evidenceOf db j).map Evidence.row :=
    mem_evidenceOf.symm
  refine ⟨hrows ▸ hp.trimmed, fun j c hj => ?_, ?_, fun j s hs hkind => ?_,
    fun j c hj hdirty hlabel => ?_⟩
  · obtain ⟨k, hk⟩ := hp.owned j c (hincident ▸ hj)
    exact ⟨k, by rwa [View.owner, hheld]⟩
  · rw [hheld, hrows]
    exact hp.agree
  · rw [hhas] at hs ⊢
    obtain ⟨hlabel, hpreceded⟩ := hp.carries j s hs hkind
    refine ⟨(label_refreshIncident db i j _).mpr ⟨hlabel, fun hrefresh => ?_⟩, hpreceded⟩
    obtain ⟨hcount, hji, _⟩ := hrefresh
    -- The success it holds counts.
    subst hji
    have hpos := successes_pos (hmem.mp hs) hkind (hpreceded.mono fun f hf => hmem.mp hf)
    rw [scoringRefresh] at hcount
    split at hcount
    · cases hcount
    · rw [Option.some.inj hcount] at hpos
      exact absurd hpos (lt_irrefl 0)
  · rw [hincident] at hj
    rw [hhas]
    obtain ⟨hold, hstill⟩ := (label_refreshIncident db i j _).mp hlabel
    by_cases hji : j = i
    · subst hji
      obtain ⟨k, hk⟩ := hp.owned j c hj
      obtain ⟨row, hrow⟩ := View.held_of_owner hk
      have hne : (evidenceOf db j).map Evidence.row ≠ [] :=
        List.ne_nil_of_mem (hmem.mp ⟨k, hrow⟩)
      have hcount : qualifyingSuccesses ((evidenceOf db j).map Evidence.row) ≠ 0 := fun hzero =>
        hstill ⟨by rw [scoringRefresh, if_neg hne, hzero], rfl, rfl⟩
      obtain ⟨s, hs, hkind⟩ := exists_of_successes_pos (Nat.pos_of_ne_zero hcount)
      exact ⟨s, hmem.mpr hs, hkind⟩
    · exact hp.stands j c hj (fun hd => hdirty ⟨hd, hji⟩) hold

theorem carried_scored : Carried TrimmedPeer View.Scored where
  intake {v v' dirty} hp hnew hincident hheld hlabel := by
    have hhas : ∀ j, v'.HasRow j = v.HasRow j := fun j => by
      funext row
      simp only [View.HasRow, hheld]
    refine ⟨fun row hrow => ?_, fun i c hi => ?_, fun k row i hk => ?_, fun i s hs hkind => ?_,
      fun i c hi hdirty hl => ?_⟩
    · exact (hnew row hrow).elim (hp.trimmed row) fun h => h.2
    · obtain ⟨k, hk⟩ := hp.owned i c (hincident ▸ hi)
      exact ⟨k, by rwa [View.owner, hheld]⟩
    · rw [hheld] at hk
      obtain ⟨hkey, hagree⟩ := hp.agree k row i hk
      refine ⟨hkey, fun r hr hrkey => ?_⟩
      rcases hnew r hr with hold | ⟨hnone, -⟩
      · exact hagree r hold hrkey
      · rw [hrkey, hk] at hnone
        cases hnone
    · rw [hhas] at hs ⊢
      rw [hlabel]
      exact hp.carries i s hs hkind
    · rw [hincident] at hi
      rw [hlabel] at hl
      rw [hhas]
      exact hp.stands i c hi hdirty hl
  mono h hp := ⟨hp.trimmed, hp.owned, hp.agree, hp.carries, fun i c hi hdirty hl =>
    hp.stands i c hi (fun hd => hdirty (h i c hi hd)) hl⟩
  applied _ hrows hnodup hm happlied hp := hp.applied hrows hnodup hm happlied
  refreshed i hp := hp.refreshed i

theorem scored_init : Db.init.view.Scored fun _ => False where
  trimmed _ h := absurd h List.not_mem_nil
  owned _ _ h := nomatch h
  agree _ _ _ h := nomatch h
  carries _ _ h := nomatch h.choose_spec
  stands _ _ h := nomatch h

/-! ### Every run -/

/-- Batches come from sources whose ids have no white space around them. -/
def TrimmedSource (op : Op) : Prop :=
  ∀ d, op = .ingest d → strip d.call.sourceId = d.call.sourceId

/-- **The score and the detector agree.** Whatever the evidence, the successes the score counts are
those with at least three authentication failures of their source and peer in the half hour before
them. In every reached state an incident that is not merged has the success rule iff the score of
its evidence counts one. -/
theorem scores_agree (env : Env) (ops : List Op) :
    (∀ rows, qualifyingSuccesses rows = successesAfterFailures rows) ∧
    ((∀ op ∈ ops, TrimmedSource op) →
      let db := (liveAfter env ops).db
      ∀ x ∈ db.incidents, x.mergedInto = none →
        ((db.rules.find? (x.incidentId, .successAfterFailures)).isSome ↔
          0 < qualifyingSuccesses ((evidenceOf db x.incidentId).map Evidence.row))) := by
  refine ⟨successes_eq, fun hops => ?_⟩
  intro db x hx hopen
  have hscored : db.view.Scored fun _ => False :=
    carried_scored.run scored_init env fun op hop d hd k hk r hr =>
      ⟨hops op hop d hd, fun p hp => ((readable_rowOf hk hr).peer p hp).1⟩
  have hincident : db.view.incident x.incidentId = some (x.createdAt, none) := by
    simp only [Db.view, Table.find?_of_mem hx, Option.map_some, hopen]
  constructor
  · intro hlabel
    obtain ⟨s, hs, hkind⟩ := hscored.stands _ _ hincident id hlabel
    exact successes_pos (mem_evidenceOf.mpr hs) hkind
      ((hscored.carries _ s hs hkind).2.mono fun f hf => mem_evidenceOf.mpr hf)
  · intro hpos
    obtain ⟨s, hs, hkind⟩ := exists_of_successes_pos hpos
    exact (hscored.carries _ s (mem_evidenceOf.mp hs) hkind).1

/-- An accepted login, so many tens of seconds after the start. -/
def acceptedAt (tens : Nat) : Json :=
  .obj [("event_id".toList, .str (Nat.toDigits 10 tens)),
    ("timestamp".toList, .str (List.replicate tens 't')),
    ("message".toList, .str "Accepted password for a from 1.2.3.4 port 2".toList),
    ("identifier".toList, .str "sshd".toList)]

/-- Three failed logins and an accepted one. -/
def guessed : List Op :=
  [.ingest ⟨⟨['s'], ['h'], ['a'], [loginAt 1, loginAt 2, loginAt 3, acceptedAt 4], none, 100,
    Nat.toDigits 10⟩, none⟩]

/-- Their incident has the rule, since its score counts one success. -/
theorem guessed_has_rule : ∃ x ∈ (liveAfter tallyEnv guessed).db.incidents,
    ((liveAfter tallyEnv guessed).db.rules.find? (x.incidentId, .successAfterFailures)).isSome := by
  have hfacts : ((liveAfter tallyEnv guessed).db.incidents.rows.map fun x => (x.mergedInto,
      qualifyingSuccesses ((evidenceOf (liveAfter tallyEnv guessed).db x.incidentId).map
        Evidence.row))) = [(none, 1)] := by decide +kernel
  obtain ⟨x, hx, hpair⟩ := List.map_eq_singleton_iff.mp hfacts
  obtain ⟨hopen, hcount⟩ := Prod.mk.inj hpair
  have hmem : x ∈ (liveAfter tallyEnv guessed).db.incidents := by
    rw [Table.mem_def, hx]
    exact List.mem_cons_self
  have htrimmed : ∀ op ∈ guessed, TrimmedSource op := fun op hop d hd => by
    have hdelivery := (List.mem_singleton.mp hop).symm.trans hd
    obtain rfl := Op.ingest.inj hdelivery
    decide
  exact ⟨x, hmem, ((scores_agree tallyEnv guessed).2 htrimmed x hmem hopen).mpr (by omega)⟩

end RiskOps.Telemetry.Store
