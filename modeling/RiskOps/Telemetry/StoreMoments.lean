import RiskOps.Telemetry.Store

/-!
# RiskOps.Telemetry.StoreMoments — the score counts record by record

**One number, two ways to it.** The score counts successes moment by moment over the evidence of an
incident, in a window that includes the moment itself and from which the moment is taken out again.
`successes_eq` reads it record by record: a success counts when at least three authentication
failures of its source and peer lie in the half hour strictly before it.
-/

namespace RiskOps.Telemetry.Store

open RiskOps.Lib

/-! ### The count, record by record -/

/-- The failures of a half hour, counted moment by moment. -/
theorem sum_momentCount (rows : List Row) (kind : Sshd.EventKind → Bool) (moments : List Moment)
    (hnodup : moments.Nodup) : (moments.map (momentCount rows kind)).sum =
      rows.countP fun row =>
        decide (∃ m ∈ moments, momentOf row = some m) && kind row.eventType := by
  induction moments with
  | nil => simp
  | cons m moments ih =>
    obtain ⟨hm, hnodup⟩ := List.nodup_cons.mp hnodup
    rw [List.map_cons, List.sum_cons, ih hnodup, momentCount]
    clear ih hnodup
    induction rows with
    | nil => simp
    | cons row rows ih =>
      simp only [List.countP_cons]
      -- A row has one moment, so it counts once.
      have hrow : ((if (decide (momentOf row = some m) && kind row.eventType) = true then 1
            else 0) +
          if (decide (∃ m ∈ moments, momentOf row = some m) && kind row.eventType) = true
            then 1 else 0) =
          if (decide (∃ m' ∈ m :: moments, momentOf row = some m') && kind row.eventType) = true
            then 1 else 0 := by
        by_cases hk : kind row.eventType = true
        · by_cases h1 : momentOf row = some m
          · simp [hk, h1, hm]
          · simp [hk, h1]
        · simp [hk]
      omega

/-- A failure in the half hour strictly before a success, of the same source and peer. -/
def precedes (s f : Row) : Bool :=
  authenticationFailureType f.eventType && decide (f.sourceId = s.sourceId ∧
    (∃ peer, s.srcIp = some peer ∧ f.srcIp = some peer ∧ peer ≠ []) ∧
    s.eventTs - successWindowSeconds ≤ f.eventTs ∧ f.eventTs < s.eventTs)

theorem precedes_iff {s f : Row} : precedes s f = true ↔
    authenticationFailureType f.eventType = true ∧ f.sourceId = s.sourceId ∧
      (∃ peer, s.srcIp = some peer ∧ f.srcIp = some peer ∧ peer ≠ []) ∧
      s.eventTs - successWindowSeconds ≤ f.eventTs ∧ f.eventTs < s.eventTs := by
  rw [precedes, Bool.and_eq_true, decide_eq_true_eq]

/-- The successes with at least three such failures. -/
def successesAfterFailures (rows : List Row) : Nat :=
  rows.countP fun s => successType s.eventType &&
    decide (successMinFailures ≤ rows.countP (precedes s))

theorem momentOf_eq_some {row : Row} {m : Moment} : momentOf row = some m ↔
    ∃ peer, row.srcIp = some peer ∧ peer ≠ [] ∧ m = ⟨row.sourceId, peer, row.eventTs⟩ := by
  unfold momentOf
  split
  · rename_i peer hpeer
    split
    · rename_i hnil
      refine iff_of_false (fun h => nomatch h) fun ⟨p, hp, hne, _⟩ => hne ?_
      rw [← Option.some.inj (hpeer.symm.trans hp), hnil]
    · rename_i hne
      rw [Option.some.injEq]
      refine ⟨fun h => ⟨peer, hpeer, hne, h.symm⟩, fun ⟨p, hp, _, hm⟩ => ?_⟩
      rw [hm, Option.some.inj (hpeer.symm.trans hp)]
  · rename_i hnone
    exact iff_of_false (fun h => nomatch h) fun ⟨p, hp, _⟩ => nomatch hnone.symm.trans hp

/-- The failures the score sees before a moment are those strictly before its records. -/
theorem precedingFailures_eq {rows : List Row} {moments : List Moment}
    (hmoments : moments = (rows.filterMap momentOf).dedup) {s : Row} (hs : s ∈ rows) {m : Moment}
    (hm : momentOf s = some m) : precedingFailures rows moments m = rows.countP (precedes s) := by
  have hmem : ∀ {row m'}, row ∈ rows → momentOf row = some m' → m' ∈ moments :=
    fun {row m'} hrow hm' => by
      rw [hmoments, List.mem_dedup, List.mem_filterMap]
      exact ⟨row, hrow, hm'⟩
  obtain ⟨peer, hpeer, hne, rfl⟩ := Iff.mp momentOf_eq_some hm
  obtain ⟨window, hwindow⟩ : ∃ w, w = moments.filter fun m' => m'.sourceId = s.sourceId ∧
    m'.peer = peer ∧ s.eventTs - successWindowSeconds ≤ m'.eventTs ∧ m'.eventTs ≤ s.eventTs :=
    ⟨_, rfl⟩
  have hnodup : window.Nodup := by
    rw [hwindow, hmoments]
    exact (List.nodup_dedup _).filter _
  have hown : (⟨s.sourceId, peer, s.eventTs⟩ : Moment) ∈ window := by
    have hnonneg : (0 : ℚ) ≤ successWindowSeconds := Nat.cast_nonneg _
    rw [hwindow, List.mem_filter]
    exact ⟨hmem hs hm, decide_eq_true ⟨rfl, rfl, by linarith, le_rfl⟩⟩
  -- The moment is in its own window and is taken out again.
  have hsplit : (window.map (momentCount rows authenticationFailureType)).sum =
      momentCount rows authenticationFailureType ⟨s.sourceId, peer, s.eventTs⟩ +
        ((window.erase ⟨s.sourceId, peer, s.eventTs⟩).map
          (momentCount rows authenticationFailureType)).sum := by
    rw [← List.sum_cons, ← List.map_cons]
    exact ((List.perm_cons_erase hown).map _).sum_eq
  rw [precedingFailures, ← hwindow, hsplit, Nat.add_sub_cancel_left,
    sum_momentCount rows _ _ (hnodup.erase _)]
  refine List.countP_congr fun f hf => ?_
  rw [Bool.and_eq_true, decide_eq_true_eq, precedes_iff, and_comm]
  refine and_congr_right fun _ => ⟨fun ⟨m', hm', hfm⟩ => ?_, fun ⟨hsource, hpeers, hge, hlt⟩ => ?_⟩
  · obtain ⟨hdistinct, hin⟩ := (hnodup.mem_erase_iff).mp hm'
    rw [hwindow, List.mem_filter, decide_eq_true_eq] at hin
    obtain ⟨peer', hpeer', -, rfl⟩ := Iff.mp momentOf_eq_some hfm
    obtain ⟨-, hsource, rfl, hge, hle⟩ := hin
    refine ⟨hsource, ⟨_, hpeer, hpeer', hne⟩, hge, lt_of_le_of_ne hle fun heq => hdistinct ?_⟩
    dsimp only at hsource heq
    rw [hsource, heq]
  · obtain ⟨p, hp, hfp, -⟩ := hpeers
    obtain rfl : peer = p := Option.some.inj (hpeer.symm.trans hp)
    have hfm : momentOf f = some ⟨f.sourceId, peer, f.eventTs⟩ :=
      Iff.mpr momentOf_eq_some ⟨peer, hfp, hne, rfl⟩
    refine ⟨_, (hnodup.mem_erase_iff).mpr ⟨fun heq => ?_, ?_⟩, hfm⟩
    · exact hlt.ne (congrArg Moment.eventTs heq)
    · rw [hwindow, List.mem_filter]
      exact ⟨hmem hf hfm, decide_eq_true ⟨hsource, rfl, hge, hlt.le⟩⟩

/-- **The grouped window counts record by record.** -/
theorem successes_eq (rows : List Row) :
    qualifyingSuccesses rows = successesAfterFailures rows := by
  obtain ⟨moments, hmoments⟩ : ∃ ms, ms = (rows.filterMap momentOf).dedup := ⟨_, rfl⟩
  rw [qualifyingSuccesses, ← hmoments, sum_momentCount rows successType _
    ((hmoments ▸ List.nodup_dedup _ : moments.Nodup).filter _), successesAfterFailures]
  refine List.countP_congr fun s hs => ?_
  rw [Bool.and_eq_true, Bool.and_eq_true, decide_eq_true_eq, decide_eq_true_eq, and_comm]
  refine and_congr_right fun _ => ⟨fun ⟨m, hm, hsm⟩ => ?_, fun hcount => ?_⟩
  · rw [← precedingFailures_eq hmoments hs hsm]
    exact of_decide_eq_true (List.mem_filter.mp hm).2
  · -- A success without a peer has no failures before it.
    have hpos : 0 < rows.countP (precedes s) := Nat.lt_of_lt_of_le (by decide) hcount
    obtain ⟨f, -, hf⟩ := List.countP_pos_iff.mp hpos
    obtain ⟨-, -, ⟨peer, hpeer, -, hne⟩, -⟩ := Iff.mp precedes_iff hf
    have hsm : momentOf s = some ⟨s.sourceId, peer, s.eventTs⟩ :=
      Iff.mpr momentOf_eq_some ⟨peer, hpeer, hne, rfl⟩
    refine ⟨_, List.mem_filter.mpr ⟨?_, ?_⟩, hsm⟩
    · rw [hmoments, List.mem_dedup, List.mem_filterMap]
      exact ⟨s, hs, hsm⟩
    · rw [precedingFailures_eq hmoments hs hsm]
      exact decide_eq_true hcount

/-! ### Successes that count -/

/-- Enough of some rows are failures before a success. -/
def Preceded (held : Row → Prop) (s : Row) : Prop :=
  ∃ fs : List Row, fs.Nodup ∧ successMinFailures ≤ fs.length ∧
    ∀ f ∈ fs, held f ∧ precedes s f = true

theorem Preceded.mono {held held' : Row → Prop} {s : Row}
    (h : Preceded held s) (hheld : ∀ f, held f → held' f) : Preceded held' s := by
  obtain ⟨fs, hnodup, hlen, hfs⟩ := h
  exact ⟨fs, hnodup, hlen, fun f hf => ⟨hheld f (hfs f hf).1, (hfs f hf).2⟩⟩

/-- Such a success counts. -/
theorem successes_pos {rows : List Row} {s : Row} (hs : s ∈ rows)
    (hkind : successType s.eventType = true) (h : Preceded (· ∈ rows) s) :
    0 < qualifyingSuccesses rows := by
  obtain ⟨fs, hnodup, hlen, hfs⟩ := h
  have hsubset : fs ⊆ rows.filter (precedes s) := fun f hf => List.mem_filter.mpr (hfs f hf)
  have hcount : successMinFailures ≤ rows.countP (precedes s) := by
    rw [List.countP_eq_length_filter]
    exact hlen.trans (hnodup.subperm hsubset).length_le
  rw [successes_eq, successesAfterFailures, List.countP_pos_iff]
  exact ⟨s, hs, by rw [hkind, decide_eq_true hcount, Bool.and_self]⟩

theorem exists_of_successes_pos {rows : List Row} (h : 0 < qualifyingSuccesses rows) :
    ∃ s ∈ rows, successType s.eventType = true := by
  rw [successes_eq, successesAfterFailures, List.countP_pos_iff] at h
  obtain ⟨s, hs, hcounts⟩ := h
  exact ⟨s, hs, (Bool.and_eq_true_iff.mp hcounts).1⟩

end RiskOps.Telemetry.Store
