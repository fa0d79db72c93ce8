import RiskOps.Joint.CatalogSpec
import RiskOps.Joint.CaseStoreCounters

/-!
# RiskOps.Joint.CatalogRun — a discovery is complete and ends

`Progress` is kept by every page (`Progress.page`), and every page but the last leaves fewer heads
behind the cursor (`Progress.run`). `discovery_reads_every_head` puts them together with
`begin_discovery`.

Two guards stand in the way of a page: the registrations are limited, and a registration may
already request a newer revision than the catalogue holds. The theorem assumes of the state before
the discovery that neither is in the way.
-/

namespace RiskOps.Joint

open RiskOps.Lib

/-- The requests of the rows that are not skipped. -/
def RuntimeSpec.requests (spec : RuntimeSpec) (rows : List HeadRow) : List AnchorRequest :=
  (rows.filter fun r => spec.eligible r.toHead).map HeadRow.request

theorem RuntimeSpec.requests_append (spec : RuntimeSpec) (a b : List HeadRow) :
    spec.requests (a ++ b) = spec.requests a ++ spec.requests b := by
  simp [RuntimeSpec.requests]

/-- The heads that would be registered. -/
def RuntimeSpec.firsts (spec : RuntimeSpec) (rows : List Registration) (heads : List Head) : Nat :=
  heads.countP fun h => spec.eligible h && (requested rows h.incidentId).isNone

theorem RuntimeSpec.firsts_requests (spec : RuntimeSpec) (registrations : List Registration)
    (rows : List HeadRow) :
    (spec.requests rows).countP (AnchorRequest.isFirst registrations) =
      spec.firsts registrations (rows.map HeadRow.toHead) := by
  rw [RuntimeSpec.requests, RuntimeSpec.firsts, List.countP_map, List.countP_filter, List.countP_map]
  refine List.countP_congr fun r _ => ?_
  simp [AnchorRequest.isFirst, HeadRow.request, Bool.and_comm]

/-- What holds between the pages of a discovery; `first` are the registrations it began with. -/
structure Progress (spec : RuntimeSpec) (first : List Registration) (start target : Nat)
    (c : Catalog) (s : Store) (d : Discovery) (read : List HeadRow) : Prop where
  current : s.discovery = some d
  aim : d.targetSeq = target
  behind : start ≤ d.cursorSeq
  within : d.complete = false → d.cursorSeq < target
  ended : d.complete = true → (c.heads d.cursorSeq target).map HeadRow.toHead = []
  /-- Nothing of the range is lost or read twice. -/
  heads : read.map HeadRow.toHead ++ (c.heads d.cursorSeq target).map HeadRow.toHead =
    (c.heads start target).map HeadRow.toHead
  scanned : d.scannedCount = read.length
  skipped : d.skipped = spec.skips (read.map HeadRow.toHead)
  registered : d.registeredCount = (spec.requests read).countP (AnchorRequest.isNew first)
  numbered : (s.registrations.map Registration.seq).Nodup
  counted : s.registrations.length =
    first.length + spec.firsts first (read.map HeadRow.toHead)
  requests : ∀ id, requested s.registrations id =
    (((spec.requests read).find? fun q => q.incidentId = id).map AnchorRequest.revision).or
      (requested first id)

/-- The two guards of `_register` are not in the way. -/
structure Admits (spec : RuntimeSpec) (limit : Nat) (first : List Registration) (start target : Nat)
    (c : Catalog) : Prop where
  room : first.length + spec.firsts first ((c.heads start target).map HeadRow.toHead) ≤ limit
  newest : ∀ r ∈ c.heads start target, spec.eligible r.toHead = true → ∀ revision,
    requested first r.incidentId = some revision → revision ≤ r.revision

variable {spec : RuntimeSpec} {c : Catalog} {s : Store} {d : Discovery}

theorem Progress.grows {first : List Registration} {start target : Nat} {c' : Catalog}
    {read : List HeadRow} (h : Progress spec first start target c s d read) (hgrows : c.Grows c')
    (hc : c.Valid spec) (hc' : c'.Valid spec) (htarget : target ≤ c.maximum) :
    Progress spec first start target c' s d read :=
  { h with
    ended := fun hd => by rw [hgrows.heads hc hc' htarget]; exact h.ended hd
    heads := by rw [hgrows.heads hc hc' htarget, hgrows.heads hc hc' htarget]; exact h.heads }

theorem Admits.grows {limit : Nat} {first : List Registration} {start target : Nat} {c' : Catalog}
    (h : Admits spec limit first start target c) (hgrows : c.Grows c') (hc : c.Valid spec)
    (hc' : c'.Valid spec) (htarget : target ≤ c.maximum) :
    Admits spec limit first start target c' where
  room := by rw [hgrows.heads hc hc' htarget]; exact h.room
  newest := by
    intro r' hr' heligible revision hrevision
    have hmem : r'.toHead ∈ (c.heads start target).map HeadRow.toHead := by
      rw [← hgrows.heads hc hc' htarget]
      exact List.mem_map.mpr ⟨r', hr', rfl⟩
    obtain ⟨r, hr, hhead⟩ := List.mem_map.mp hmem
    obtain ⟨r'', hr'', hhead', hle⟩ := hgrows.revised r (Catalog.mem_heads.mp hr).1
    -- the row of a number is the only one
    have hsame : r'' = r' := List.inj_on_of_nodup_map hc'.numbered hr'' (Catalog.mem_heads.mp hr').1
      (congrArg Head.seq (hhead'.trans hhead))
    have hid : r'.incidentId = r.incidentId := congrArg Head.incidentId hhead.symm
    have := h.newest r hr (by rw [hhead]; exact heligible) revision (by rw [← hid]; exact hrevision)
    rw [← hsame]
    omega

/-- What is left behind the next cursor is what the page left out. -/
theorem Catalog.Valid.heads_next (h : c.Valid spec) {a t limit : Nat} (hlimit : 1 ≤ limit) :
    (c.heads (pageOf spec ((c.heads a t).take limit) a t limit).nextSeq t).map HeadRow.toHead =
        ((c.heads a t).drop limit).map HeadRow.toHead ∧
      ((pageOf spec ((c.heads a t).take limit) a t limit).complete = true →
        (pageOf spec ((c.heads a t).take limit) a t limit).nextSeq = t) := by
  generalize hrows : (c.heads a t).take limit = rows
  have happend : rows ++ (c.heads a t).drop limit = c.heads a t := by
    rw [← hrows]
    exact List.take_append_drop limit _
  have hafter : ∀ l, rows.getLast? = some l →
      (c.heads l.seq t).map HeadRow.toHead = ((c.heads a t).drop limit).map HeadRow.toHead := by
    intro l hl
    obtain ⟨front, hfront⟩ := List.getLast?_eq_some_iff.mp hl
    refine @Catalog.Valid.heads_after _ _ h a _ front _ _ ?_
    rw [← List.singleton_append, ← List.append_assoc, ← hfront, happend]
  simp only [pageOf]
  cases hcomplete : isLastPage rows t limit with
  | false =>
    refine ⟨?_, fun h => by cases h⟩
    simp only [Bool.false_eq_true, if_false]
    cases hlast : rows.getLast? with
    | none =>
      -- an empty page is short
      rw [List.getLast?_eq_none_iff] at hlast
      rw [isLastPage, hlast, decide_eq_true (by rw [List.length_nil]; omega), Bool.true_or] at hcomplete
      cases hcomplete
    | some l => exact hafter l hlast
  | true =>
    refine ⟨?_, fun _ => by simp⟩
    simp only [if_true, Catalog.heads_self, List.map_nil]
    rw [isLastPage, Bool.or_eq_true, decide_eq_true_eq] at hcomplete
    rcases hcomplete with hshort | hlast
    · have hlen : (c.heads a t).length ≤ limit := by
        rw [← hrows, List.length_take] at hshort
        omega
      rw [List.drop_of_length_le hlen, List.map_nil]
    · cases hl : rows.getLast? with
      | none =>
        rw [hl] at hlast
        cases hlast
      | some l =>
        rw [hl, Option.any_some, decide_eq_true_eq] at hlast
        rw [← hafter l hl, hlast, Catalog.heads_self, List.map_nil]

/-! ### One page is applied -/

/-- No incident is read twice. -/
theorem Progress.fresh {first : List Registration} {start target limit : Nat} {read : List HeadRow}
    (h : Progress spec first start target c s d read) (hc : c.Valid spec) {q : AnchorRequest}
    (hq : q ∈ spec.requests ((c.heads d.cursorSeq target).take limit)) :
    (spec.requests read).find? (fun p => p.incidentId = q.incidentId) = none := by
  refine List.find?_eq_none.mpr fun p hp heq => ?_
  rw [decide_eq_true_eq] at heq
  obtain ⟨r, hr, rfl⟩ := List.mem_map.mp hp
  obtain ⟨r', hr', rfl⟩ := List.mem_map.mp hq
  have hnodup := hc.named_heads start target
  have hnames : (c.heads start target).map (fun r => r.incidentId) =
      read.map (fun r => r.incidentId) ++ (c.heads d.cursorSeq target).map fun r => r.incidentId := by
    have := congrArg (List.map Head.incidentId) h.heads
    simpa [List.map_map, Function.comp_def] using this.symm
  rw [hnames, List.nodup_append] at hnodup
  exact hnodup.2.2 r.incidentId (List.mem_map.mpr ⟨r, List.mem_of_mem_filter hr, rfl⟩) r'.incidentId
    (List.mem_map.mpr ⟨r', List.mem_of_mem_take (List.mem_of_mem_filter hr'), rfl⟩) heq

/-- The discovery after a page. -/
@[simps]
def Discovery.advance (page : DiscoveryPage) (summary : RegisterSummary) (d : Discovery) :
    Discovery :=
  { d with
    cursorSeq := page.nextSeq
    complete := page.complete
    scannedCount := d.scannedCount + page.scannedCount
    registeredCount := d.registeredCount + (summary.registered + summary.updated)
    skipped := d.skipped.add page.skipped
    error := none }

/-- The store after a page. -/
@[simps]
def Store.applied (registrations : List Registration) (d : Discovery) (complete : Bool)
    (s : Store) : Store :=
  { s with
    registrations := registrations
    discovery := some d
    runtime := if complete then s.runtime.discovered d.cycleId else s.runtime }

variable {env : Env}

/-- **The requests of a page are registered**, as if all that was read were registered at once. -/
theorem Progress.register {first : List Registration} {start target registrationLimit : Nat}
    {read : List HeadRow} (h : Progress spec first start target c s d read) (hc : c.Valid spec)
    (hadmits : Admits spec registrationLimit first start target c) (limit : Nat) :
    ∃ registrations summary, registerAll registrationLimit s.registrations
        (spec.requests ((c.heads d.cursorSeq target).take limit)) = .ok (registrations, summary) ∧
      (registrations.map Registration.seq).Nodup ∧
      registrations.length = first.length + spec.firsts first
        ((read ++ (c.heads d.cursorSeq target).take limit).map HeadRow.toHead) ∧
      (∀ id, requested registrations id =
        (((spec.requests (read ++ (c.heads d.cursorSeq target).take limit)).find? fun q =>
          q.incidentId = id).map AnchorRequest.revision).or (requested first id)) ∧
      summary.registered + summary.updated =
        (spec.requests ((c.heads d.cursorSeq target).take limit)).countP
          (AnchorRequest.isNew first) := by
  generalize hrows : (c.heads d.cursorSeq target).take limit = rows
  have hsub : ∀ r ∈ rows, r ∈ c.heads start target := by
    intro r hr
    rw [← hrows] at hr
    obtain ⟨hmem, hafter, hle⟩ := Catalog.mem_heads.mp (List.mem_of_mem_take hr)
    exact Catalog.mem_heads.mpr ⟨hmem, by have := h.behind; omega, hle⟩
  have hsplit : rows.map HeadRow.toHead ++ ((c.heads d.cursorSeq target).drop limit).map
      HeadRow.toHead = (c.heads d.cursorSeq target).map HeadRow.toHead := by
    rw [← List.map_append, ← hrows, List.take_append_drop]
  have hfresh : ∀ q ∈ spec.requests rows,
      (spec.requests read).find? (fun p => p.incidentId = q.incidentId) = none := by
    intro q hq
    rw [← hrows] at hq
    exact h.fresh hc hq
  have hsame : ∀ q ∈ spec.requests rows,
      requested s.registrations q.incidentId = requested first q.incidentId := by
    intro q hq
    rw [h.requests, hfresh q hq]
    rfl
  have hfirsts : (spec.requests rows).countP (AnchorRequest.isFirst s.registrations) =
      spec.firsts first (rows.map HeadRow.toHead) := by
    rw [← RuntimeSpec.firsts_requests]
    exact List.countP_congr fun q hq => by
      rw [AnchorRequest.isFirst, AnchorRequest.isFirst, hsame q hq]
  have hnews : (spec.requests rows).countP (AnchorRequest.isNew s.registrations) =
      (spec.requests rows).countP (AnchorRequest.isNew first) :=
    List.countP_congr fun q hq => by rw [AnchorRequest.isNew, AnchorRequest.isNew, hsame q hq]
  have hdistinct : ((spec.requests rows).map AnchorRequest.incidentId).Nodup := by
    rw [RuntimeSpec.requests, List.map_map]
    refine List.Nodup.sublist (List.filter_sublist.map _) ?_
    rw [← hrows]
    exact (hc.named_heads d.cursorSeq target).sublist ((List.take_sublist _ _).map _)
  have hroom : s.registrations.length + (spec.requests rows).countP
      (AnchorRequest.isFirst s.registrations) ≤ registrationLimit := by
    have hall := hadmits.room
    rw [← h.heads, ← hsplit] at hall
    simp only [RuntimeSpec.firsts, List.countP_append] at hall
    rw [hfirsts, h.counted]
    simp only [RuntimeSpec.firsts]
    omega
  have hnewest : ∀ q ∈ spec.requests rows, ∀ revision,
      requested s.registrations q.incidentId = some revision → revision ≤ q.revision := by
    intro q hq revision hrevision
    rw [hsame q hq] at hrevision
    obtain ⟨r, hr, rfl⟩ := List.mem_map.mp hq
    obtain ⟨hr, heligible⟩ := List.mem_filter.mp hr
    exact hadmits.newest r (hsub r hr) heligible revision hrevision
  obtain ⟨registrations, summary, hregister, hnumbered, hlength, hrequested, hcount⟩ :=
    registerAll_eq (x := (s.registrations, ⟨0, 0, 0⟩)) h.numbered hdistinct hnewest hroom
  refine ⟨registrations, summary, hregister, hnumbered, ?_, fun id => ?_, ?_⟩
  · rw [hlength, hfirsts, h.counted]
    simp only [List.map_append, RuntimeSpec.firsts, List.countP_append]
    omega
  · rw [hrequested, RuntimeSpec.requests_append, List.find?_append]
    cases hfind : (spec.requests rows).find? fun q => q.incidentId = id with
    | none =>
      rw [Option.or_none, h.requests]
      rfl
    | some q =>
      have hid : q.incidentId = id := by simpa using List.find?_some hfind
      rw [← hid, hfresh q (List.mem_of_find?_eq_some hfind)]
      rfl
  · simp only [Nat.zero_add] at hcount
    rw [hcount, hnews]

/-- A valid page ends behind its cursor and not behind the target, which it reaches when it is the
last one only. -/
theorem DiscoveryPage.bounds_of_valid {cursor : Nat} (page : DiscoveryPage)
    (hvalid : page.valid cursor = true) : cursor ≤ page.nextSeq ∧ page.nextSeq ≤ page.targetSeq ∧
      (page.complete = false → page.nextSeq < page.targetSeq) := by
  simp only [DiscoveryPage.valid, Bool.and_eq_true, decide_eq_true_eq, Bool.not_eq_true',
    Bool.and_eq_false_iff, Bool.or_eq_false_iff, decide_eq_false_iff_not,
    Bool.not_eq_false'] at hvalid
  refine ⟨hvalid.1.1.1.2.1, hvalid.1.1.1.2.2, fun hcomplete => ?_⟩
  rcases hvalid.1.2 with htrue | ⟨-, hlt⟩
  · rw [hcomplete] at htrue
    cases htrue
  · omega

/-- **Every page is applied.** -/
theorem Progress.page {first : List Registration} {start target limit : Nat} {read : List HeadRow}
    (h : Progress spec first start target c s d read) (hc : c.Valid spec)
    (hadmits : Admits spec env.limits.registrationLimit first start target c)
    (hproducer : env.producerId = spec.scope.producerId.val)
    (hstart : spec.catalogMinSeq - 1 ≤ start) (htarget : target ≤ c.maximum)
    (hrow : ∃ r ∈ c.incidents, r.seq = target) (hlimit : 1 ≤ limit ∧ limit ≤ 50)
    (hd : d.complete = false) :
    ∃ s' d', discoverPage env spec limit c s = .ok (s', .applied) ∧ d'.cycleId = d.cycleId ∧
      Progress spec first start target c s' d'
        (read ++ (c.heads d.cursorSeq target).take limit) := by
  have hlt := h.within hd
  have hmax : target ≤ maxInteger := by
    obtain ⟨r, hr, rfl⟩ := hrow
    exact (hc.rows r hr).2
  have hread := @readCatalogPage_eq _ _ hc d.cursorSeq _ _ (by have := h.behind; omega)
    (Nat.le_of_lt hlt) htarget hmax hlimit
  have hvalid := pageOf_valid hc hlt hrow hmax hlimit
  obtain ⟨hnext, hlast⟩ := hc.heads_next (a := d.cursorSeq) (t := target) hlimit.1
  generalize hrows : (c.heads d.cursorSeq target).take limit = rows at *
  have hsplit : rows.map HeadRow.toHead ++ ((c.heads d.cursorSeq target).drop limit).map
      HeadRow.toHead = (c.heads d.cursorSeq target).map HeadRow.toHead := by
    rw [← List.map_append, ← hrows, List.take_append_drop]
  obtain ⟨registrations, summary, hregister, hnumbered, hlength, hrequested, hcount⟩ :=
    h.register hc hadmits limit
  rw [hrows] at hregister hlength hrequested hcount
  -- the page as it is applied
  have hcurrent : currentDiscovery s d.cycleId d.cursorSeq = some d := by
    rw [currentDiscovery, h.current, Option.filter_some]
    simp [hd]
  generalize hpage : pageOf spec rows d.cursorSeq target limit = page at *
  have heligible : page.eligible = spec.requests rows := by rw [← hpage]; rfl
  have happly : applyDiscoveryPage env s d.cycleId d.cursorSeq page =
      .ok (s.applied registrations (d.advance page summary) page.complete, .applied) := by
    have hproducer' : page.producerId = env.producerId := by rw [← hpage]; exact hproducer.symm
    have haim : page.targetSeq = d.targetSeq := by rw [← hpage, h.aim]; rfl
    rw [applyDiscoveryPage, if_neg (by simp [hvalid]), hcurrent]
    simp only
    rw [if_neg (not_not.mpr hproducer'), if_neg (not_not.mpr haim), heligible, hregister]
    rfl
  refine ⟨s.applied registrations (d.advance page summary) page.complete, d.advance page summary,
    ?_, rfl, ?_⟩
  · rw [discoverPage, h.current]
    simp only
    rw [h.aim, hread]
    simp only [bind, Except.bind]
    rw [happly]
  · have htarget : page.targetSeq = target := by rw [← hpage]; rfl
    have hbounds := htarget ▸ page.bounds_of_valid hvalid
    have hcomplete : page.complete = true → page.nextSeq = target := hlast
    exact
      { current := rfl
        aim := h.aim
        behind := Nat.le_trans h.behind hbounds.1
        within := hbounds.2.2
        ended := fun hc => by
          rw [Discovery.advance_cursorSeq, hcomplete hc, Catalog.heads_self]
          rfl
        heads := by
          rw [List.map_append, List.append_assoc, Discovery.advance_cursorSeq, hnext, hsplit]
          exact h.heads
        scanned := by
          rw [Discovery.advance_scannedCount, h.scanned, List.length_append]
          rw [← hpage]
          rfl
        skipped := by
          rw [Discovery.advance_skipped, h.skipped, List.map_append, RuntimeSpec.skips_append]
          rw [← hpage]
          rfl
        registered := by
          rw [Discovery.advance_registeredCount, h.registered, RuntimeSpec.requests_append,
            List.countP_append, hcount]
        numbered := hnumbered
        counted := hlength
        requests := hrequested }

/-! ### The run -/

/-- **A discovery that has begun ends**, with at most one page for each head. -/
theorem Progress.run {first : List Registration} {start target limit : Nat}
    (hproducer : env.producerId = spec.scope.producerId.val)
    (hstart : spec.catalogMinSeq - 1 ≤ start) (hlimit : 1 ≤ limit ∧ limit ≤ 50) (m : Nat) :
    ∀ {catalogs : Nat → Catalog} {s : Store} {d : Discovery} {read : List HeadRow},
      Progress spec first start target (catalogs 0) s d read →
      (∀ i, (catalogs i).Valid spec) → (∀ i, (catalogs i).Grows (catalogs (i + 1))) →
      Admits spec env.limits.registrationLimit first start target (catalogs 0) →
      target ≤ (catalogs 0).maximum → (d.complete = false → ∃ r ∈ (catalogs 0).incidents,
        r.seq = target) → ((catalogs 0).heads d.cursorSeq target).length ≤ m →
      ∃ n s' d' rows, n ≤ rows.length ∧
        discoverAll env spec limit ((List.range n).map catalogs) s = .ok (s', rows) ∧
        d'.complete = true ∧ d'.cycleId = d.cycleId ∧
        (∀ r ∈ rows, ∃ i, i < n ∧ r ∈ (catalogs i).incidents) ∧
        Progress spec first start target (catalogs n) s' d' (read ++ rows) := by
  induction m with
  | zero =>
    intro catalogs s d read h hvalid hgrows hadmits htarget hrow hm
    cases hd : d.complete with
    | true => exact ⟨0, s, d, [], Nat.le_refl 0, rfl, hd, rfl, by simp, by simpa using h⟩
    | false =>
      -- the target itself is behind the cursor
      obtain ⟨r, hr, hseq⟩ := hrow hd
      have hmem := Catalog.mem_heads.mpr ⟨hr, hseq ▸ h.within hd, Nat.le_of_eq hseq⟩
      rw [List.length_eq_zero_iff.mp (Nat.le_zero.mp hm)] at hmem
      cases hmem
  | succ m ih =>
    intro catalogs s d read h hvalid hgrows hadmits htarget hrow hm
    cases hd : d.complete with
    | true => exact ⟨0, s, d, [], Nat.zero_le _, rfl, hd, rfl, by simp, by simpa using h⟩
    | false =>
      obtain ⟨s', d', hpage, hcycle, hprogress⟩ :=
        h.page (hvalid 0) hadmits hproducer hstart htarget (hrow hd) hlimit hd
      have hne : 1 ≤ (((catalogs 0).heads d.cursorSeq target).take limit).length := by
        obtain ⟨r, hr, hseq⟩ := hrow hd
        have hmem := Catalog.mem_heads.mpr ⟨hr, hseq ▸ h.within hd, Nat.le_of_eq hseq⟩
        have hpos := List.length_pos_of_mem hmem
        rw [List.length_take]
        omega
      have hgrown := hprogress.grows (hgrows 0) (hvalid 0) (hvalid 1) htarget
      have hfewer : ((catalogs 1).heads d'.cursorSeq target).length ≤ m := by
        have hheads := congrArg List.length (hprogress.heads.trans h.heads.symm)
        have hsame := congrArg List.length (@Catalog.Grows.heads _ _ (catalogs 1) (hgrows 0)
          (hvalid 0) (hvalid 1) d'.cursorSeq _ htarget)
        simp only [List.map_append, List.length_append, List.length_map] at hheads hsame
        omega
      obtain ⟨n, s'', d'', rows, hn, hall, hcomplete, hcycle', hmem, hend⟩ :=
        @ih (fun i => catalogs (i + 1)) _ _ _ hgrown (fun i => hvalid (i + 1))
          (fun i => hgrows (i + 1)) (hadmits.grows (hgrows 0) (hvalid 0) (hvalid 1) htarget)
          (htarget.trans (hgrows 0).maximum) (fun _ => by
            obtain ⟨r, hr, hseq⟩ := hrow hd
            obtain ⟨r', hr', hhead, -⟩ := (hgrows 0).revised r hr
            exact ⟨r', hr', (congrArg Head.seq hhead).trans hseq⟩) hfewer
      refine ⟨n + 1, s'', d'', ((catalogs 0).heads d.cursorSeq target).take limit ++ rows, ?_,
        ?_, hcomplete, hcycle'.trans hcycle, ?_, by rw [← List.append_assoc]; exact hend⟩
      · rw [List.length_append]
        omega
      · rw [List.range_succ_eq_map, List.map_cons, List.map_map, discoverAll, h.current]
        simp only [hpage, bind, Except.bind]
        rw [if_neg (by simp), h.aim]
        simp only [pure, Except.pure]
        have hall' : discoverAll env spec limit
            (List.map (catalogs ∘ Nat.succ) (List.range n)) s' = .ok (s'', rows) := hall
        rw [hall']
      · intro r hr
        rcases List.mem_append.mp hr with hr | hr
        · exact ⟨0, Nat.succ_pos n, (Catalog.mem_heads.mp (List.mem_of_mem_take hr)).1⟩
        · obtain ⟨i, hi, hr⟩ := hmem r hr
          exact ⟨i + 1, by omega, hr⟩

/-! ### The discovery as a whole -/

theorem catalogMinSeq_of_effect {s' : Store} {op : Op} {reply : Reply}
    (h : Effect env s op s' reply) : s'.runtime.catalogMinSeq = s.runtime.catalogMinSeq := by
  have hrecover : ∀ s : Store, s.recoverIfComplete.runtime.catalogMinSeq = s.runtime.catalogMinSeq := by
    intro s
    rcases recoverIfComplete_eq s with heq | heq <;> rw [heq]
  cases h with
  | pageApplied hcurrent hrows hd =>
    simp only
    split
    · exact Runtime.discovered_catalog _ _
    · rfl
  | cycleBegun =>
    rw [hrecover]
    simp only [Store.withCycle]
    split <;> rfl
  | finished hop hawaits hs₁ hrows =>
    refine (hrecover _).trans ?_
    rcases hs₁ with rfl | ⟨value, caseId, now, -, -, hadd⟩
    · rfl
    · exact congrArg Runtime.catalogMinSeq (addRevision_frame hadd).2.2.1
  | _ => rfl

theorem run_catalogMinSeq (env : Env) (catalogMinSeq : Nat) (ops : List Op) :
    (run (next env) (Store.create catalogMinSeq) ops).runtime.catalogMinSeq = catalogMinSeq := by
  refine run_preserves (P := fun s : Store => s.runtime.catalogMinSeq = catalogMinSeq) ?_ rfl
  intro s op hs
  rcases next_cases env s op with heq | ⟨reply, -, heffect⟩
  · rw [heq]
    exact hs
  · rw [catalogMinSeq_of_effect heffect, hs]

/-- What a discovery that began finds. -/
theorem Progress.begun {before : Store} {target : Nat} {identity : String}
    (hmin : before.runtime.catalogMinSeq = spec.catalogMinSeq) (hpos : 1 ≤ spec.catalogMinSeq)
    (hnumbered : (before.registrations.map Registration.seq).Nodup)
    (hidle : ∀ d, before.discovery = some d → d.complete = true)
    (hbegin : beginDiscovery env before target env.producerId identity = .ok (s, .discovery d)) :
    Progress spec before.registrations (spec.catalogMinSeq - 1) target c s d [] ∧
      d.cycleId = identity ∧ (d.complete = false → 1 ≤ target) := by
  have hstart : ∃ runtime, s = { before with discovery := some d, runtime := runtime } ∧
      d = ⟨identity, env.producerId, target, spec.catalogMinSeq - 1,
        decide (target < spec.catalogMinSeq), 0, 0, ⟨0, 0, 0⟩, none⟩ := by
    unfold beginDiscovery at hbegin
    rw [hmin] at hbegin
    split at hbegin
    · cases hbegin
    · rw [if_neg (not_not.mpr rfl)] at hbegin
      cases hprevious : before.discovery with
      | none =>
        rw [hprevious] at hbegin
        simp only [Except.ok.injEq, Prod.mk.injEq, Reply.discovery.injEq] at hbegin
        obtain ⟨rfl, rfl⟩ := hbegin
        exact ⟨_, rfl, rfl⟩
      | some previous =>
        rw [hprevious] at hbegin
        simp only [hidle previous hprevious, Bool.not_true, Bool.false_eq_true, if_false] at hbegin
        split at hbegin
        · cases hbegin
        · simp only [Except.ok.injEq, Prod.mk.injEq, Reply.discovery.injEq] at hbegin
          obtain ⟨rfl, rfl⟩ := hbegin
          exact ⟨_, rfl, rfl⟩
  obtain ⟨runtime, rfl, rfl⟩ := hstart
  refine ⟨?_, rfl, fun hcomplete => ?_⟩
  · exact
      { current := rfl
        aim := rfl
        behind := Nat.le_refl _
        within := fun hcomplete => by
          simp only [decide_eq_false_iff_not, not_lt] at hcomplete
          simp only
          omega
        ended := fun hcomplete => by
          simp only [decide_eq_true_eq] at hcomplete
          refine List.eq_nil_iff_forall_not_mem.mpr fun x hx => ?_
          obtain ⟨r, hr, -⟩ := List.mem_map.mp hx
          have := Catalog.mem_heads.mp hr
          simp only at this
          omega
        heads := rfl
        scanned := rfl
        skipped := rfl
        registered := rfl
        numbered := hnumbered
        counted := rfl
        requests := fun _ => rfl }
  · simp only [decide_eq_false_iff_not, not_lt] at hcomplete
    omega

/-- **Discovery is complete and ends.** The rows read are the heads of the captured range, each
once, as the catalogue of their page held them; each is registered, updated, unchanged or skipped,
and the counters say how many. -/
theorem discovery_reads_every_head (env : Env) (spec : RuntimeSpec) (catalogs : Nat → Catalog)
    (ops : List Op) {limit target : Nat} {identity : String} {s : Store} {d : Discovery}
    (hproducer : env.producerId = spec.scope.producerId.val) (hpos : 1 ≤ spec.catalogMinSeq)
    (hlimit : 1 ≤ limit ∧ limit ≤ 50)
    (hvalid : ∀ i, (catalogs i).Valid spec) (hgrows : ∀ i, (catalogs i).Grows (catalogs (i + 1)))
    (htarget : catalogTarget spec (catalogs 0) = .ok target)
    (hidle : ∀ d, (run (next env) (Store.create spec.catalogMinSeq) ops).discovery = some d →
      d.complete = true)
    (hbegin : beginDiscovery env (run (next env) (Store.create spec.catalogMinSeq) ops) target
      env.producerId identity = .ok (s, .discovery d))
    (hadmits : Admits spec env.limits.registrationLimit
      (run (next env) (Store.create spec.catalogMinSeq) ops).registrations
      (spec.catalogMinSeq - 1) target (catalogs 0)) :
    ∃ n s' d' rows, n ≤ rows.length ∧
      discoverAll env spec limit ((List.range n).map catalogs) s = .ok (s', rows) ∧
      s'.discovery = some d' ∧ d'.cycleId = identity ∧ d'.complete = true ∧
      rows.map HeadRow.toHead =
        ((catalogs 0).heads (spec.catalogMinSeq - 1) target).map HeadRow.toHead ∧
      (∀ r ∈ rows, ∃ i, i < n ∧ r ∈ (catalogs i).incidents) ∧
      d'.scannedCount = rows.length ∧ d'.skipped = spec.skips (rows.map HeadRow.toHead) ∧
      d'.registeredCount = (spec.requests rows).countP (AnchorRequest.isNew
        (run (next env) (Store.create spec.catalogMinSeq) ops).registrations) ∧
      d'.scannedCount = (spec.requests rows).length + (d'.skipped.sourceUnmapped
        + d'.skipped.destinationUnmapped + d'.skipped.profileUnmapped) ∧
      ∀ q ∈ spec.requests rows, requested s'.registrations q.incidentId = some q.revision := by
  have hmin := run_catalogMinSeq env spec.catalogMinSeq ops
  have hnumbered := (settled_run env spec.catalogMinSeq ops).registrations
  generalize run (next env) (Store.create spec.catalogMinSeq) ops = before at *
  obtain ⟨hprogress, hcycle, hone⟩ := Progress.begun (c := catalogs 0) hmin hpos hnumbered hidle hbegin
  have hmaximum : target = (catalogs 0).maximum := by
    obtain ⟨bytes, -, hidentity⟩ := (hvalid 0).identity
    simp only [catalogTarget, hidentity, bind, Except.bind] at htarget
    split at htarget
    · cases htarget
    · exact (Except.ok.inj htarget).symm
  obtain ⟨n, s', d', rows, hn, hall, hcomplete, hcycle', hmem, hend⟩ :=
    hprogress.run hproducer (Nat.le_refl _) hlimit _ hvalid hgrows hadmits (Nat.le_of_eq hmaximum)
      (fun hd => by
        rw [hmaximum]
        exact Catalog.exists_maximum (by have := hone hd; omega)) (Nat.le_refl _)
  rw [List.nil_append] at hend
  have hsame : ∀ m, m ≤ n → ((catalogs m).heads (spec.catalogMinSeq - 1) target).map
      HeadRow.toHead = ((catalogs 0).heads (spec.catalogMinSeq - 1) target).map HeadRow.toHead ∧
        target ≤ (catalogs m).maximum := by
    intro m
    induction m with
    | zero => exact fun _ => ⟨rfl, Nat.le_of_eq hmaximum⟩
    | succ m ih =>
      intro hm
      obtain ⟨hheads, hle⟩ := ih (by omega)
      exact ⟨((hgrows m).heads (hvalid m) (hvalid (m + 1)) hle).trans hheads,
        hle.trans (hgrows m).maximum⟩
  have hrows := hend.heads
  rw [hend.ended hcomplete, List.append_nil, (hsame n (Nat.le_refl n)).1] at hrows
  refine ⟨n, s', d', rows, hn, hall, hend.current, hcycle'.trans hcycle, hcomplete, hrows, hmem,
    hend.scanned, hend.skipped, hend.registered, ?_, ?_⟩
  · have hlength := spec.length_eq (rows.map HeadRow.toHead)
    rw [List.length_map, List.countP_map] at hlength
    rw [hend.scanned, hend.skipped, RuntimeSpec.requests, List.length_map,
      ← List.countP_eq_length_filter]
    exact hlength
  · intro q hq
    have hnodup : ((spec.requests rows).map AnchorRequest.incidentId).Nodup := by
      have hnames := congrArg (List.map Head.incidentId) hrows
      simp only [List.map_map] at hnames
      rw [RuntimeSpec.requests, List.map_map]
      refine List.Nodup.sublist (List.filter_sublist.map _) ?_
      exact hnames ▸ (hvalid 0).named_heads _ _
    have hfind : (spec.requests rows).find? (fun p => p.incidentId = q.incidentId) = some q := by
      cases hf : (spec.requests rows).find? fun p => p.incidentId = q.incidentId with
      | none => exact absurd (List.find?_eq_none.mp hf q hq) (by simp)
      | some p =>
        have hid : p.incidentId = q.incidentId := by simpa using List.find?_some hf
        exact congrArg some (List.inj_on_of_nodup_map hnodup (List.mem_of_find?_eq_some hf) hq hid)
    rw [hend.requests, hfind]
    rfl

/-! ### A small catalogue -/

def smallScope : JointEvidence.CaseScope where
  mappings := [{
    assetId := ⟨"web", by decide +kernel⟩
    sshSourceIds := [⟨"ssh", by decide +kernel⟩]
    networkBindings := [{
      sourceId := ⟨"net", by decide +kernel⟩
      destinationIps := [⟨"10.0.0.1", by decide +kernel⟩]
      profileRevisions := [⟨String.ofList (List.replicate 64 '0'), by decide +kernel⟩]
      destinations_length := by decide
      profiles_length := by decide
      destinations_sorted := by decide +kernel
      profiles_sorted := by decide +kernel }]
    sources_length := by decide
    bindings_length := by decide
    sources_sorted := by decide +kernel
    bindings_sorted := by decide +kernel }]
  producerId := ⟨"producer", by decide +kernel⟩
  windowSeconds := 1800
  maxTimelineRecords := 500
  sshCoverage := []
  mappings_valid := by decide +kernel
  window_le := by decide
  timeline_range := by decide
  coverage_length := by decide
  coverage_codes := by simp
  coverage_sorted := by decide +kernel

def smallSpec : RuntimeSpec := ⟨smallScope, 1⟩

/-- A head of the mapped source, named after a digit. -/
def smallRow (seq : Nat) (digit : Char) (revision : Nat) : HeadRow where
  seq := seq
  incidentId := String.ofList (['N', 'E', 'T', '-'] ++ List.replicate 32 digit)
  sourceId := "net"
  sourceProfileRevision := String.ofList (List.replicate 64 '0')
  srcIp := "10.0.0.9"
  dstIp := "10.0.0.1"
  revision := revision
  parity := true

def smallCatalog : Catalog := ⟨0x4E455431, 2, true, some "producer", [smallRow 1 'a' 1, smallRow 2 'b' 1]⟩

theorem smallCatalog_valid : smallCatalog.Valid smallSpec where
  identified := by decide
  producer := rfl
  rows := by decide +kernel
  numbered := by decide
  named := by decide +kernel

theorem Catalog.Grows.refl (c : Catalog) : c.Grows c where
  revised := fun r hr => ⟨r, hr, rfl, Nat.le_refl _⟩
  appended := fun r hr => Or.inl ⟨r, hr, rfl⟩

/-- A store with so much room for registrations. -/
def roomFor (registrations : Nat) : Env where
  limits := ⟨registrations, 10, 1000⟩
  producerId := "producer"
  validateRead := fun _ value => .ok value
  errorCodes := []

/-- **A full registration table refuses a page**, and so does a registration ahead of the
catalogue: the page of a captured target is not applied. -/
theorem page_refused_by_guards :
    catalogTarget smallSpec smallCatalog = .ok 2 ∧
    (∃ s d, beginDiscovery (roomFor 1) (Store.create 1) 2 "producer" "d" = .ok (s, .discovery d) ∧
      discoverPage (roomFor 1) smallSpec 50 smallCatalog s = .error (.store .capacityExceeded)) ∧
    ∃ s d, beginDiscovery (roomFor 9) (run (next (roomFor 9)) (Store.create 1)
        [.register [(smallRow 1 'a' 2).request]]) 2 "producer" "d" = .ok (s, .discovery d) ∧
      discoverPage (roomFor 9) smallSpec 50 smallCatalog s = .error (.store .revisionRegression) := by
  exact ⟨by decide +kernel, ⟨_, _, rfl, by decide +kernel⟩, ⟨_, _, rfl, by decide +kernel⟩⟩

/-- The second row was revised and a third one appended. -/
def grownCatalog : Catalog :=
  { smallCatalog with incidents := [smallRow 1 'a' 1, smallRow 2 'b' 2, smallRow 3 'c' 1] }

def smallCatalogs (i : Nat) : Catalog := if i = 0 then smallCatalog else grownCatalog

theorem smallCatalogs_valid (i : Nat) : (smallCatalogs i).Valid smallSpec := by
  unfold smallCatalogs
  split
  · exact smallCatalog_valid
  · exact
      { identified := by decide
        producer := rfl
        rows := by decide +kernel
        numbered := by decide
        named := by decide +kernel }

theorem smallCatalogs_grows (i : Nat) : (smallCatalogs i).Grows (smallCatalogs (i + 1)) := by
  unfold smallCatalogs
  rw [if_neg (Nat.succ_ne_zero i)]
  split
  · exact ⟨by decide, by decide⟩
  · exact Catalog.Grows.refl _

/-- The catalogue grows after the first of two pages. -/
theorem discovery_reads_grown_catalog :
    ∃ s d n s' d' rows, beginDiscovery (roomFor 9) (Store.create 1) 2 "producer" "d" =
        .ok (s, .discovery d) ∧
      discoverAll (roomFor 9) smallSpec 1 ((List.range n).map smallCatalogs) s = .ok (s', rows) ∧
      s'.discovery = some d' ∧ d'.complete = true ∧ d'.scannedCount = 2 := by
  have hfirsts : smallSpec.firsts [] ((smallCatalog.heads 0 2).map HeadRow.toHead) = 2 := by
    decide
  obtain ⟨n, s', d', rows, -, hall, hcurrent, -, hcomplete, hheads, -, hscanned, -⟩ :=
    @discovery_reads_every_head (roomFor 9) smallSpec smallCatalogs [] 1 2 "d" _ _
      rfl (by decide) (by decide) smallCatalogs_valid smallCatalogs_grows
      (by decide) (fun d hd => by cases hd) rfl
      ⟨by rw [show smallCatalogs 0 = smallCatalog from rfl]
          exact (congrArg (0 + ·) hfirsts).trans_le (by decide),
        fun r _ _ revision hrevision => by cases hrevision⟩
  refine ⟨_, _, n, s', d', rows, rfl, hall, hcurrent, hcomplete, ?_⟩
  have hlength := congrArg List.length hheads
  rw [List.length_map] at hlength
  rw [hscanned, hlength]
  decide

end RiskOps.Joint
