import RiskOps.Joint.CaseStoreSpec

/-!
# RiskOps.Joint.CaseStoreCounters — the counters describe the contents

The store keeps its revision count, payload size and generation beside the rows they count, and
`open` and every query compare the two. `Sound` says what the comparison needs; every call keeps it
(`Sound.next`), so no reachable store is reported corrupt.
-/

namespace RiskOps.Joint

open RiskOps.Lib

/-- The summary that belongs to a revision. -/
def RevisionRow.summary (v : RevisionRow) : SummaryRow := ⟨v.caseId, v.revision, v.publishGeneration⟩

/-- The revisions of one case, as they were published. -/
def Store.history (s : Store) (caseId : String) : List RevisionRow :=
  s.revisions.filter fun v => v.caseId = caseId

/-- The redundant fields of the store agree with its rows, and the limits are respected. -/
structure Sound (limits : StoreLimits) (s : Store) : Prop where
  /-- Generations are `1..n`. -/
  generations : s.revisions.map RevisionRow.publishGeneration = List.range' 1 s.revisions.length
  counted : s.counters.revisionCount = s.revisions.length
  committed : s.counters.committedGeneration = s.revisions.length
  bytes : s.counters.payloadBytes = (s.revisions.map RevisionRow.payloadBytes).sum
  summarised : s.summaries = s.revisions.map RevisionRow.summary
  caseIds : (s.cases.map CaseRow.caseId).Nodup
  /-- The revisions of a case are `1..current`. -/
  contiguous : ∀ c ∈ s.cases,
    (s.history c.caseId).map RevisionRow.revision = List.range' 1 c.currentRevision
  revised : ∀ c ∈ s.cases, 1 ≤ c.currentRevision
  owned : ∀ v ∈ s.revisions, ∃ c ∈ s.cases, c.caseId = v.caseId
  revisionLimit : s.revisions.length ≤ limits.revisionLimit
  byteLimit : s.counters.payloadBytes ≤ limits.payloadByteLimit
  registrationLimit : s.registrations.length ≤ limits.registrationLimit
  caseRegistered : ∀ c ∈ s.cases, c.registrationSeq ∈ s.registrations.map Registration.seq
  itemCycle : ∀ i ∈ s.items, ∃ c, s.cycle = some c ∧ c.cycleId = i.cycleId
  itemRegistered : ∀ i ∈ s.items, i.registrationSeq ∈ s.registrations.map Registration.seq
  catalog : 1 ≤ s.runtime.catalogMinSeq

theorem sound_create (limits : StoreLimits) {catalogMinSeq : Nat} (h : 1 ≤ catalogMinSeq) :
    Sound limits (Store.create catalogMinSeq) := by
  constructor <;> simp [Store.create, h]

/-! ### Registering -/

/-- The sequence numbers there are stay, and the limit is respected. -/
theorem registerAll_spec {limit : Nat} {rows rows' : List Registration}
    {requests : List AnchorRequest} {summary : RegisterSummary}
    (h : registerAll limit rows requests = .ok (rows', summary)) (hrows : rows.length ≤ limit) :
    rows'.length ≤ limit ∧
      ∃ new, rows'.map Registration.seq = rows.map Registration.seq ++ new := by
  refine registerAll_invariant (P := fun x => x.length ≤ limit ∧
    ∃ new, x.map Registration.seq = rows.map Registration.seq ++ new) ?_ h ⟨hrows, [], by simp⟩
  intro x item y hy hx
  obtain ⟨hlen, new, hnew⟩ := hx
  rcases registerOne_cases hy with heq | ⟨hroom, heq⟩ | ⟨seq, heq⟩
  · rw [heq]
    exact ⟨hlen, new, hnew⟩
  · rw [heq]
    refine ⟨by simp; omega, new ++ [lastSeq x.1 + 1], ?_⟩
    rw [List.map_append, hnew, List.append_assoc]
    rfl
  · rw [heq]
    refine ⟨by simpa [updateRegistration] using hlen, new, ?_⟩
    rw [map_seq_updateRegistration (fun r => ?_), hnew]
    rfl

/-! ### Frames -/

variable {limits : StoreLimits} {s s' : Store}

/-- The rows the counters are about, and the registrations they refer to, are the same. -/
theorem Sound.congr (h : Sound limits s) (hcounters : s'.counters = s.counters)
    (hrevisions : s'.revisions = s.revisions) (hsummaries : s'.summaries = s.summaries)
    (hcases : s'.cases = s.cases) (hlimit : s'.registrations.length ≤ limits.registrationLimit)
    (hseqs : ∀ n ∈ s.registrations.map Registration.seq, n ∈ s'.registrations.map Registration.seq)
    (hcycle : ∀ i ∈ s'.items, ∃ c, s'.cycle = some c ∧ c.cycleId = i.cycleId)
    (hitems : ∀ i ∈ s'.items, i.registrationSeq ∈ s'.registrations.map Registration.seq)
    (hcatalog : s'.runtime.catalogMinSeq = s.runtime.catalogMinSeq) : Sound limits s' where
  generations := by rw [hrevisions]; exact h.generations
  counted := by rw [hcounters, hrevisions]; exact h.counted
  committed := by rw [hcounters, hrevisions]; exact h.committed
  bytes := by rw [hcounters, hrevisions]; exact h.bytes
  summarised := by rw [hsummaries, hrevisions]; exact h.summarised
  caseIds := by rw [hcases]; exact h.caseIds
  contiguous := by simp only [Store.history, hrevisions, hcases]; exact h.contiguous
  revised := by rw [hcases]; exact h.revised
  owned := by rw [hrevisions, hcases]; exact h.owned
  revisionLimit := by rw [hrevisions]; exact h.revisionLimit
  byteLimit := by rw [hcounters]; exact h.byteLimit
  registrationLimit := hlimit
  caseRegistered := by
    rw [hcases]
    exact fun c hc => hseqs _ (h.caseRegistered c hc)
  itemCycle := hcycle
  itemRegistered := hitems
  catalog := by rw [hcatalog]; exact h.catalog

/-- A change of the runtime and the discovery, with registrations added. -/
theorem Sound.registered (h : Sound limits s) {rows : List Registration} {summary : RegisterSummary}
    {requests : List AnchorRequest}
    (hrows : registerAll limits.registrationLimit s.registrations requests = .ok (rows, summary))
    {runtime : Runtime} {discovery : Option Discovery}
    (hcatalog : runtime.catalogMinSeq = s.runtime.catalogMinSeq)
    (hs' : s' = { s with registrations := rows, runtime := runtime, discovery := discovery }) :
    Sound limits s' := by
  subst hs'
  obtain ⟨hlen, new, hnew⟩ := registerAll_spec hrows h.registrationLimit
  have hseqs : ∀ n ∈ s.registrations.map Registration.seq, n ∈ rows.map Registration.seq := by
    intro n hn
    rw [hnew]
    exact List.mem_append_left _ hn
  exact h.congr rfl rfl rfl rfl hlen hseqs h.itemCycle
    (fun i hi => hseqs _ (h.itemRegistered i hi)) hcatalog

theorem Sound.runtime (h : Sound limits s) {runtime : Runtime}
    (hcatalog : runtime.catalogMinSeq = s.runtime.catalogMinSeq) (discovery : Option Discovery) :
    Sound limits { s with runtime := runtime, discovery := discovery } :=
  h.congr rfl rfl rfl rfl h.registrationLimit (fun _ hn => hn) h.itemCycle h.itemRegistered hcatalog

theorem Sound.recoverIfComplete (h : Sound limits s) : Sound limits s.recoverIfComplete := by
  rcases recoverIfComplete_eq s with heq | heq
  · rw [heq]; exact h
  · rw [heq]
    refine h.runtime ?_ s.discovery
    rfl

/-- Finishing an item touches the cycle and its items only. -/
theorem Sound.finish (h : Sound limits s) (item : WorkItem) (o : Outcome) (error : Option String) :
    Sound limits (s.finish item o error) := by
  unfold Store.finish
  refine Sound.recoverIfComplete ?_
  have hitem : ∀ i ∈ s.items.map (fun i => if item.names i then
      { i with outcome := some o, fixedErrorCode := error } else i),
      ∃ i₀ ∈ s.items, i.cycleId = i₀.cycleId ∧ i.registrationSeq = i₀.registrationSeq := by
    intro i hi
    obtain ⟨i₀, hi₀, rfl⟩ := List.mem_map.mp hi
    refine ⟨i₀, hi₀, ?_⟩
    split <;> exact ⟨rfl, rfl⟩
  refine h.congr rfl rfl rfl rfl h.registrationLimit (fun _ hn => hn) ?_ ?_ rfl
  · intro i hi
    obtain ⟨i₀, hi₀, hcycle, -⟩ := hitem i hi
    obtain ⟨c, hc, hid⟩ := h.itemCycle i₀ hi₀
    refine ⟨_, by simp only [hc, Option.map_some]; rfl, ?_⟩
    rw [hcycle, ← hid]
    cases o <;> rfl
  · intro i hi
    obtain ⟨i₀, hi₀, -, hseq⟩ := hitem i hi
    rw [hseq]
    exact h.itemRegistered i₀ hi₀

theorem Sound.withCycle (h : Sound limits s) (identity : String) :
    Sound limits (s.withCycle identity) := by
  refine h.congr rfl rfl rfl rfl h.registrationLimit (fun _ hn => hn) ?_ ?_ ?_
  · intro i hi
    obtain ⟨r, -, rfl⟩ := List.mem_map.mp hi
    exact ⟨_, rfl, rfl⟩
  · intro i hi
    obtain ⟨r, hr, rfl⟩ := List.mem_map.mp hi
    exact List.mem_map_of_mem (List.mem_of_mem_filter hr)
  · simp only [Store.withCycle]
    split <;> rfl

/-! ### Publishing a revision -/

theorem Sound.current_none (h : Sound limits s) {caseId : String} (hnone : s.current caseId = none) :
    ∀ c ∈ s.cases, c.caseId ≠ caseId := by
  intro c hc hid
  unfold Store.current at hnone
  cases hf : s.cases.find? fun c => c.caseId = caseId with
  | none => simpa [hid] using List.find?_eq_none.mp hf c hc
  | some c₀ =>
    rw [hf] at hnone
    simp only [Option.bind_some, Option.map_eq_none_iff] at hnone
    have hc₀ := List.mem_of_find?_eq_some hf
    have hid₀ : c₀.caseId = caseId := by simpa using List.find?_some hf
    -- The current revision of the case is among its revisions.
    have hlast : c₀.currentRevision ∈ (s.history c₀.caseId).map RevisionRow.revision := by
      rw [h.contiguous c₀ hc₀, List.mem_range'_1]
      have := h.revised c₀ hc₀
      omega
    obtain ⟨v, hv, hrev⟩ := List.mem_map.mp hlast
    obtain ⟨hmem, hcase⟩ := List.mem_filter.mp hv
    have hno := List.find?_eq_none.mp hnone v hmem
    simp only [decide_eq_true_eq] at hcase
    simp [hcase, hid₀, hrev] at hno

theorem current_some {caseId : String} {x : Nat × String} (h : s.current caseId = some x) :
    ∃ c ∈ s.cases, c.caseId = caseId ∧ x.1 = c.currentRevision := by
  unfold Store.current at h
  cases hf : s.cases.find? fun c => c.caseId = caseId with
  | none => simp [hf] at h
  | some c =>
    rw [hf] at h
    simp only [Option.bind_some, Option.map_eq_some_iff] at h
    obtain ⟨v, -, rfl⟩ := h
    exact ⟨c, List.mem_of_find?_eq_some hf, by simpa using List.find?_some hf, rfl⟩

variable {env : Env}

/-- **What `publish` inserts.** -/
theorem addRevision_spec {item : WorkItem} {value : ValidatedRead} {caseId now : String}
    (h : s.addRevision env item value caseId now = .ok s') :
    s.counters.revisionCount < env.limits.revisionLimit ∧
    s.counters.payloadBytes + value.projectionJson.length ≤ env.limits.payloadByteLimit ∧
    ∃ revision generation, revision = ((s.current caseId).map fun c => c.1 + 1).getD 1 ∧
      generation = s.counters.committedGeneration + 1 ∧
      s' = { s with
        cases := casesAfter item caseId generation revision (s.current caseId).isNone s.cases
        revisions := s.revisions ++ [⟨caseId, revision, generation, value.projectionSha,
          value.projectionJson, value.metadataJson, value.projectionJson.length, now⟩]
        summaries := s.summaries ++ [⟨caseId, revision, generation⟩]
        counters := ⟨generation, s.counters.revisionCount + 1,
          s.counters.payloadBytes + value.projectionJson.length⟩ } := by
  unfold Store.addRevision at h
  simp only at h
  split at h
  · simp at h
  · rename_i hroom
    split at h
    · simp at h
    · simp only [Bool.or_eq_true, decide_eq_true_eq, not_or, Nat.not_le, Nat.not_lt] at hroom
      exact ⟨hroom.1, hroom.2, _, _, rfl, rfl, (Except.ok.inj h).symm⟩

/-- A case row after a publication: an old row of another case, the moved row of this case, or
the first row of this case. -/
theorem mem_casesAfter {item : WorkItem} {caseId : String} {generation revision : Nat}
    {isNew : Bool} {rows : List CaseRow} {c : CaseRow}
    (h : c ∈ casesAfter item caseId generation revision isNew rows) :
    (c ∈ rows ∧ c.caseId ≠ caseId) ∨
      (c.caseId = caseId ∧ c.currentRevision = revision ∧
        (c.registrationSeq = item.registrationSeq ∨
          c.registrationSeq ∈ rows.map CaseRow.registrationSeq)) := by
  unfold casesAfter at h
  obtain ⟨c₀, hc₀, rfl⟩ := List.mem_map.mp h
  have hsplit : c₀ ∈ rows ∨ c₀ = ⟨caseId, item.registrationSeq, generation, revision⟩ := by
    split at hc₀
    · simpa using hc₀
    · exact Or.inl hc₀
  rcases hsplit with hold | rfl
  · by_cases hid : c₀.caseId = caseId
    · rw [if_pos hid]
      exact Or.inr ⟨hid, rfl, Or.inr (List.mem_map.mpr ⟨c₀, hold, rfl⟩)⟩
    · rw [if_neg hid]
      exact Or.inl ⟨hold, hid⟩
  · rw [if_pos rfl]
    exact Or.inr ⟨rfl, rfl, Or.inl rfl⟩

theorem map_caseId_casesAfter (item : WorkItem) (caseId : String) (generation revision : Nat)
    (isNew : Bool) (rows : List CaseRow) :
    (casesAfter item caseId generation revision isNew rows).map CaseRow.caseId =
      rows.map CaseRow.caseId ++ if isNew then [caseId] else [] := by
  unfold casesAfter
  rw [List.map_map]
  have hid : ∀ c : CaseRow, (CaseRow.caseId ∘ fun c =>
      if c.caseId = caseId then { c with currentRevision := revision } else c) c = c.caseId := by
    intro c
    simp only [Function.comp_apply]
    split <;> rfl
  rw [List.map_congr_left fun c _ => hid c]
  cases isNew <;> simp

theorem Sound.addRevision {item : WorkItem} {value : ValidatedRead} {caseId now : String}
    (h : Sound env.limits s) (hitem : item.registrationSeq ∈ s.registrations.map Registration.seq)
    (hadd : s.addRevision env item value caseId now = .ok s') : Sound env.limits s' := by
  obtain ⟨hcount, hbytes, revision, generation, hrevision, hgeneration, rfl⟩ :=
    addRevision_spec hadd
  have hgen : generation = s.revisions.length + 1 := by rw [hgeneration, h.committed]
  have hhistory : ∀ id, id ≠ caseId → ∀ v : RevisionRow, v.caseId = caseId →
      (s.revisions ++ [v]).filter (fun v => v.caseId = id) = s.history id := by
    intro id hid v hv
    rw [List.filter_append, Store.history]
    simp [hv, hid.symm]
  -- The revisions of the case itself go on where they ended.
  have hself : ((s.history caseId).map RevisionRow.revision) ++ [revision] =
      List.range' 1 revision ∧ 1 ≤ revision := by
    cases hc : s.current caseId with
    | none =>
      have hempty : s.history caseId = [] := by
        refine List.filter_eq_nil_iff.mpr fun v hv => ?_
        obtain ⟨c, hc', hid⟩ := h.owned v hv
        simpa [← hid] using h.current_none hc c hc'
      rw [hc] at hrevision
      simp only [Option.map_none, Option.getD_none] at hrevision
      subst hrevision
      exact ⟨by rw [hempty]; rfl, Nat.le_refl 1⟩
    | some x =>
      obtain ⟨c, hcmem, hid, hx⟩ := current_some hc
      rw [hc] at hrevision
      simp only [Option.map_some, Option.getD_some] at hrevision
      refine ⟨?_, by omega⟩
      rw [← hid, h.contiguous c hcmem, hrevision, hx, List.range'_concat]
      simp [Nat.add_comm]
  exact {
    generations := by
      rw [List.map_append, h.generations, List.length_append, List.length_singleton,
        List.range'_concat, hgen]
      simp [Nat.add_comm]
    counted := by simp [h.counted]
    committed := by simp [hgen]
    bytes := by simp [h.bytes]
    summarised := by simp [h.summarised, RevisionRow.summary]
    caseIds := by
      simp only
      rw [map_caseId_casesAfter]
      cases hc : s.current caseId with
      | none =>
        simp only [Option.isNone_none, if_true]
        rw [List.nodup_append]
        refine ⟨h.caseIds, by simp, ?_⟩
        intro id hid id' hid' heq
        obtain ⟨c, hcmem, rfl⟩ := List.mem_map.mp hid
        simp only [List.mem_singleton] at hid'
        exact h.current_none hc c hcmem (heq.trans hid')
      | some x => simpa using h.caseIds
    contiguous := by
      intro c hc
      rcases mem_casesAfter hc with ⟨hold, hid⟩ | ⟨hid, hrev, -⟩
      · simp only [Store.history]
        rw [hhistory c.caseId hid _ rfl]
        exact h.contiguous c hold
      · simp only [Store.history, hid, hrev]
        rw [List.filter_append, List.map_append]
        simpa [Store.history] using hself.1
    revised := by
      intro c hc
      rcases mem_casesAfter hc with ⟨hold, -⟩ | ⟨-, hrev, -⟩
      · exact h.revised c hold
      · rw [hrev]; exact hself.2
    owned := by
      intro v hv
      have hids := map_caseId_casesAfter item caseId generation revision (s.current caseId).isNone
        s.cases
      have hcase : v.caseId ∈ (casesAfter item caseId generation revision
          (s.current caseId).isNone s.cases).map CaseRow.caseId := by
        rw [hids]
        rcases List.mem_append.mp hv with hold | hnew
        · obtain ⟨c, hc, hid⟩ := h.owned v hold
          exact List.mem_append_left _ (List.mem_map.mpr ⟨c, hc, hid⟩)
        · simp only [List.mem_singleton] at hnew
          subst hnew
          cases hc : s.current caseId with
          | none => simp
          | some x =>
            obtain ⟨c, hcmem, hid, -⟩ := current_some hc
            exact List.mem_append_left _ (List.mem_map.mpr ⟨c, hcmem, hid⟩)
      obtain ⟨c, hc, hid⟩ := List.mem_map.mp hcase
      exact ⟨c, hc, hid⟩
    revisionLimit := by
      rw [h.counted] at hcount
      simp only [List.length_append, List.length_singleton]
      omega
    byteLimit := hbytes
    registrationLimit := h.registrationLimit
    caseRegistered := by
      intro c hc
      rcases mem_casesAfter hc with ⟨hold, -⟩ | ⟨-, -, hseq | hseq⟩
      · exact h.caseRegistered c hold
      · rw [hseq]; exact hitem
      · obtain ⟨c₀, hc₀, hseq₀⟩ := List.mem_map.mp hseq
        rw [← hseq₀]
        exact h.caseRegistered c₀ hc₀
    itemCycle := h.itemCycle
    itemRegistered := h.itemRegistered
    catalog := h.catalog }

/-! ### Every call, every run -/

theorem Sound.rows (h : Sound limits s) {rows : List Registration}
    (hrows : rows.map Registration.seq = s.registrations.map Registration.seq) :
    Sound limits { s with registrations := rows } := by
  have hlen : rows.length = s.registrations.length := by
    simpa using congrArg List.length hrows
  refine h.congr rfl rfl rfl rfl (by simpa [hlen] using h.registrationLimit) ?_ h.itemCycle ?_ rfl
  · simp only [hrows]
    exact fun _ hn => hn
  · simp only [hrows]
    exact h.itemRegistered

theorem Runtime.discovered_catalog (cycleId : String) (r : Runtime) :
    (r.discovered cycleId).catalogMinSeq = r.catalogMinSeq := by
  unfold Runtime.discovered
  split <;> rfl

/-- **One call** keeps the store sound, whether it succeeds or is refused. -/
theorem Sound.next (h : Sound env.limits s) (op : Op) : Sound env.limits (next env s op) := by
  rcases next_cases env s op with hsame | ⟨reply, -, heffect⟩
  · rw [hsame]; exact h
  · generalize Joint.next env s op = s' at heffect
    cases heffect with
    | discoveryRunning => exact h
    | cycleRunning => exact h
    | ignored => exact h
    | registered hrows => exact h.registered hrows (Eq.refl s.runtime.catalogMinSeq) rfl
    | discoveryBegun =>
      refine h.runtime ?_ _
      rfl
    | @pageApplied cycleId cursor page current d rows summary hcurrent hrows hd =>
      refine h.registered hrows ?_ rfl
      split
      · exact Runtime.discovered_catalog cycleId s.runtime
      · rfl
    | discoveryFailed =>
      refine h.runtime ?_ _
      rfl
    | cycleBegun => exact (h.withCycle _).recoverIfComplete
    | @finished _ item o e i r s₁ rows hop hawaits hs₁ hrows =>
      refine Sound.finish ?_ item o e
      have hitem : item.registrationSeq ∈ s.registrations.map Registration.seq := by
        have hseq : r.seq = item.registrationSeq := by
          simpa using List.find?_some hawaits.registered
        rw [← hseq]
        exact List.mem_map_of_mem (List.mem_of_find?_eq_some hawaits.registered)
      rcases hs₁ with rfl | ⟨value, caseId, now, -, -, hadd⟩
      · exact h.rows hrows
      · refine (h.addRevision hitem hadd).rows ?_
        rw [hrows, addRevision_registrations hadd]

/-- **Every reachable store is sound.** -/
theorem sound_run (env : Env) {catalogMinSeq : Nat} (h : 1 ≤ catalogMinSeq) (ops : List Op) :
    Sound env.limits (run (next env) (Store.create catalogMinSeq) ops) :=
  run_preserves (P := Sound env.limits) (fun _ op hs => Sound.next hs op)
    (sound_create env.limits h)

theorem foldl_max_range' (n : Nat) : (List.range' 1 n).foldl max 0 = n := by
  induction n with
  | zero => rfl
  | succ n ih =>
    rw [List.range'_concat, List.foldl_append, ih]
    simp only [List.foldl_cons, List.foldl_nil]
    omega

theorem Sound.opens (h : Sound limits s) : s.opens limits = true := by
  have hbytes := h.byteLimit
  rw [h.bytes] at hbytes
  simp [Store.opens, h.catalog, h.summarised, h.counted, h.bytes, h.generations, h.committed,
    foldl_max_range', h.revisionLimit, hbytes, h.registrationLimit]

theorem Sound.foreignKeys (h : Sound limits s) : s.foreignKeys = true := by
  have hregistered : ∀ n ∈ s.registrations.map Registration.seq,
      (s.registrations.any fun r => r.seq = n) = true := by
    intro n hn
    obtain ⟨r, hr, hseq⟩ := List.mem_map.mp hn
    exact List.any_eq_true.mpr ⟨r, hr, by simpa using hseq⟩
  simp only [Store.foreignKeys, Bool.and_eq_true, List.all_eq_true]
  refine ⟨⟨⟨fun c hc => hregistered _ (h.caseRegistered c hc), fun v hv => ?_⟩, fun m hm => ?_⟩,
    fun i hi => ⟨?_, hregistered _ (h.itemRegistered i hi)⟩⟩
  · obtain ⟨c, hc, hid⟩ := h.owned v hv
    exact List.any_eq_true.mpr ⟨c, hc, by simpa using hid⟩
  · rw [h.summarised] at hm
    obtain ⟨v, hv, rfl⟩ := List.mem_map.mp hm
    exact List.any_eq_true.mpr ⟨v, hv, by simp [RevisionRow.summary]⟩
  · obtain ⟨c, hc, hid⟩ := h.itemCycle i hi
    simp [hc, hid]

theorem Sound.queryable (h : Sound limits s) : s.queryable limits = true := by
  simp [Store.queryable, h.revisionLimit, h.byteLimit, h.committed, h.counted]

/-- **The counters describe the contents.** After every sequence of calls, successful or refused:
the stored counters are those of the rows, generations are `1..n`, the revisions of each case are
`1..current` in the order they were published, the summaries are those of the revisions, and
`open`, its foreign-key check and every query accept the store. -/
theorem counters_describe_contents (env : Env) {catalogMinSeq : Nat} (hmin : 1 ≤ catalogMinSeq)
    (ops : List Op) :
    let s := run (next env) (Store.create catalogMinSeq) ops
    s.counters.revisionCount = s.revisions.length ∧
    s.counters.committedGeneration = s.revisions.length ∧
    s.counters.payloadBytes = (s.revisions.map RevisionRow.payloadBytes).sum ∧
    s.revisions.map RevisionRow.publishGeneration = List.range' 1 s.revisions.length ∧
    (s.cases.map CaseRow.caseId).Nodup ∧
    (∀ c ∈ s.cases,
      (s.history c.caseId).map RevisionRow.revision = List.range' 1 c.currentRevision) ∧
    (∀ v ∈ s.revisions, ∃ c ∈ s.cases, c.caseId = v.caseId) ∧
    s.summaries = s.revisions.map RevisionRow.summary ∧
    s.revisions.length ≤ env.limits.revisionLimit ∧
    s.counters.payloadBytes ≤ env.limits.payloadByteLimit ∧
    s.registrations.length ≤ env.limits.registrationLimit ∧
    s.opens env.limits = true ∧ s.foreignKeys = true ∧ s.queryable env.limits = true := by
  intro s
  have h : Sound env.limits s := sound_run env hmin ops
  exact ⟨h.counted, h.committed, h.bytes, h.generations, h.caseIds, h.contiguous, h.owned,
    h.summarised, h.revisionLimit, h.byteLimit, h.registrationLimit, h.opens, h.foreignKeys,
    h.queryable⟩

def revisedEnv : Env := ⟨⟨5, 5, 1000⟩, "producer", fun _ value => .ok value, []⟩

def publishOp (cycle : String) (revision : Nat) (sha json : String) : Op :=
  .publish ⟨cycle, 1, revision, revision, "network-1"⟩
    ⟨.accepted "JOINT-1", sha, json, "", "anchor"⟩ "now"

/-- A case is published, and revised when its anchor has moved on. -/
def revisedOps : List Op :=
  [.register [⟨"network-1", 1⟩], .beginCycle "cycle-1", publishOp "cycle-1" 1 "sha-1" "x",
    .register [⟨"network-1", 2⟩], .beginCycle "cycle-2", publishOp "cycle-2" 2 "sha-2" "xyz"]

theorem counters_describe_contents_registered :
    let s := run (next revisedEnv) (Store.create 1) revisedOps
    (1 : Nat) ≤ 1 ∧ s.counters = ⟨2, 2, 4⟩ ∧
      (∀ c ∈ s.cases,
        (s.history c.caseId).map RevisionRow.revision = List.range' 1 c.currentRevision) ∧
      s.opens revisedEnv.limits = true := by
  intro s
  have h := counters_describe_contents revisedEnv (Nat.le_refl 1) revisedOps
  exact ⟨Nat.le_refl 1, by decide +kernel, h.2.2.2.2.2.1, h.2.2.2.2.2.2.2.2.2.2.2.1⟩

end RiskOps.Joint
