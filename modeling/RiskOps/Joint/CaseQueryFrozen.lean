import RiskOps.Joint.CaseQuerySpec
import RiskOps.Joint.CatalogRun

/-!
# RiskOps.Joint.CaseQueryFrozen — a case list is frozen by its token

Revisions are only appended, with larger generations (`revisions_run`), so what was the latest row
of each case up to a generation stays the same (`latest_run`). A later page differs from an earlier
one only in the generation it reports; that the page still fits is `Listing.fits`.
-/

namespace RiskOps.Joint

open RiskOps.Lib.PyJson
open RiskOps.Lib (Str run run_append bind_eq_ok)
open RiskOps.JointEvidence (isIp ip maxTimeUs)

/-! ### Revisions are appended -/

variable {env : Env} {s : Store}

theorem revisions_of_effect {s' : Store} {op : Op} {reply : Reply} (h : Effect env s op s' reply) :
    ∃ new, s'.revisions = s.revisions ++ new := by
  have hrecover : ∀ s : Store, s.recoverIfComplete.revisions = s.revisions := by
    intro s
    rcases recoverIfComplete_eq s with heq | heq <;> rw [heq]
  cases h with
  | cycleBegun => exact ⟨[], by rw [hrecover, List.append_nil]; rfl⟩
  | finished hop hawaits hs₁ hrows =>
    rcases hs₁ with rfl | ⟨value, caseId, now, -, -, hadd⟩
    · exact ⟨[], (hrecover _).trans (List.append_nil _).symm⟩
    · obtain ⟨-, -, revision, generation, -, -, rfl⟩ := addRevision_spec hadd
      exact ⟨_, hrecover _⟩
  | _ => exact ⟨[], (List.append_nil _).symm⟩

theorem revisions_run (env : Env) (s : Store) (ops : List Op) :
    ∃ new, (run (next env) s ops).revisions = s.revisions ++ new := by
  induction ops generalizing s with
  | nil => exact ⟨[], (List.append_nil _).symm⟩
  | cons op ops ih =>
    obtain ⟨later, hlater⟩ := ih (next env s op)
    rcases next_cases env s op with heq | ⟨reply, -, heffect⟩
    · exact ⟨later, by rw [RiskOps.Lib.run_cons, hlater, heq]⟩
    · obtain ⟨new, hnew⟩ := revisions_of_effect heffect
      exact ⟨new ++ later, by rw [RiskOps.Lib.run_cons, hlater, hnew, List.append_assoc]⟩

/-! ### The latest rows -/

variable {i : CaseItem}

theorem RevisionRow.item_eq {v : RevisionRow} (h : v.item = some i) :
    i.caseId = v.caseId ∧ i.revision = v.revision ∧ i.publishGeneration = v.publishGeneration := by
  unfold RevisionRow.item at h
  split at h
  · obtain ⟨columns, -, rfl⟩ := Option.map_eq_some_iff.mp h
    exact ⟨rfl, rfl, rfl⟩
  · cases h

variable {generation : Nat}

/-- Rows behind a generation do not decide about it. -/
theorem latest_append {rows new : List CaseItem} (h : ∀ r ∈ new, generation < r.publishGeneration) :
    latest generation (rows ++ new) = latest generation rows := by
  have hnone : ∀ (p : CaseItem → Bool), new.filter (fun r => r.publishGeneration ≤ generation && p r) = [] := by
    intro p
    refine List.filter_eq_nil_iff.mpr fun r hr => ?_
    have := h r hr
    simp only [Bool.and_eq_true, decide_eq_true_eq]
    omega
  have hall : ∀ r : CaseItem, (new.all fun r' =>
      !(r'.caseId = r.caseId && r'.publishGeneration ≤ generation)
        || r'.publishGeneration ≤ r.publishGeneration) = true := by
    intro r
    refine List.all_eq_true.mpr fun r' hr' => ?_
    have hlt := h r' hr'
    have hfalse : decide (r'.publishGeneration ≤ generation) = false :=
      decide_eq_false (by omega)
    rw [hfalse, Bool.and_false]
    rfl
  unfold latest
  rw [List.filter_append, hnone, List.append_nil]
  refine List.filter_congr fun r _ => ?_
  rw [List.all_append, hall, Bool.and_true]

theorem Sound.generation_le {limits : StoreLimits} (h : Sound limits s) {v : RevisionRow}
    (hv : v ∈ s.revisions) :
    1 ≤ v.publishGeneration ∧ v.publishGeneration ≤ s.revisions.length := by
  have hmem : v.publishGeneration ∈ List.range' 1 s.revisions.length := by
    rw [← h.generations]
    exact List.mem_map_of_mem hv
  rw [List.mem_range'_1] at hmem
  omega

theorem Sound.revision_le {limits : StoreLimits} (h : Sound limits s) {v : RevisionRow}
    (hv : v ∈ s.revisions) : v.revision ≤ s.revisions.length := by
  obtain ⟨c, hc, hid⟩ := h.owned v hv
  have hcontiguous := h.contiguous c hc
  have hmem : v.revision ∈ List.range' 1 c.currentRevision := by
    rw [← hcontiguous]
    exact List.mem_map_of_mem (List.mem_filter.mpr ⟨hv, by simpa using hid.symm⟩)
  have hlen := congrArg List.length hcontiguous
  rw [List.length_map, List.length_range'] at hlen
  have hle : (s.history c.caseId).length ≤ s.revisions.length := List.length_filter_le _ _
  rw [List.mem_range'_1] at hmem
  omega

/-- **Later publications change nothing up to a generation.** -/
theorem latest_run (hs : Sound env.limits s) (ops : List Op) (hg : generation ≤ s.revisions.length)
    :
    latest generation (run (next env) s ops).summaryRows = latest generation s.summaryRows := by
  have hs' : Sound env.limits (run (next env) s ops) :=
    RiskOps.Lib.run_preserves (P := Sound env.limits) (fun _ op h => h.next op) hs
  obtain ⟨new, hnew⟩ := revisions_run env s ops
  have hgenerations := hs'.generations
  rw [hnew, List.map_append, hs.generations, List.length_append, ← List.range'_append_1] at hgenerations
  have hlater := List.append_cancel_left hgenerations
  rw [Store.summaryRows, hnew, List.filterMap_append]
  refine latest_append fun r hr => ?_
  obtain ⟨v, hv, hitem⟩ := List.mem_filterMap.mp hr
  have hmem : v.publishGeneration ∈ List.range' (1 + s.revisions.length) new.length := by
    rw [← hlater]
    exact List.mem_map_of_mem hv
  rw [List.mem_range'_1] at hmem
  rw [(RevisionRow.item_eq hitem).2.2]
  omega

/-! ### A page fits -/

theorem plain_of_isIp {s : String} (h : isIp s = true) : PlainText 40 s := by
  simp only [isIp, decide_eq_true_eq] at h
  exact plain_ip h

theorem weight_of_bounded {s : String} (h : boundedText s = true) :
    strWeight (Str.ofString s) ≤ 768 := by
  have hle := strWeight_le (Str.ofString s)
  simp only [boundedText, decide_eq_true_eq] at h
  rw [utf8Length_ofString] at hle
  omega

theorem length_dumpInt_nat {n k : Nat} (h : n < 10 ^ k) (hk : 0 < k) :
    (dumpInt (n : Int)).length ≤ k :=
  length_dumpInt_le ⟨Int.natCast_nonneg _, by exact_mod_cast h⟩ hk

theorem plain_of_isCaseId {s : String} (h : isCaseId s = true) : PlainText 38 s := by
  simp only [isCaseId, Bool.and_eq_true, decide_eq_true_eq, List.all_eq_true] at h
  obtain ⟨⟨hstart, hlen⟩, hhex⟩ := h
  refine ⟨fun c hc => ?_, Nat.le_of_eq hlen⟩
  rw [← List.take_append_drop 6 s.toList, hstart] at hc
  rcases List.mem_append.mp hc with hc | hc
  · have hall : ['J', 'O', 'I', 'N', 'T', '-'].all (fun c => c.toNat < 127) = true := by decide
    exact of_decide_eq_true (List.all_eq_true.mp hall c hc)
  · exact (JointEvidence.toNat_lt_of_isLowerHex (hhex c hc)).2

theorem bound_of_window {available : Int} {a b : Option Int}
    (h : (if available = 1 then
        match a, b with
        | some a, some b => 0 ≤ a && a ≤ b && b ≤ maxTimeUs
        | _, _ => false
      else a = none && b = none) = true) :
    textBound ((a.map Value.int).getD .null) ≤ 18 ∧ textBound ((b.map Value.int).getD .null) ≤ 18 := by
  have htime : ∀ n : Int, 0 ≤ n → n ≤ maxTimeUs → (dumpInt n).length ≤ 18 := fun n h₀ h₁ =>
    length_dumpInt_le ⟨h₀, by unfold maxTimeUs at h₁; omega⟩ (by decide)
  split at h
  · split at h
    · simp only [Bool.and_eq_true, decide_eq_true_eq] at h
      obtain ⟨⟨ha, hab⟩, hb⟩ := h
      exact ⟨htime _ ha (hab.trans hb), htime _ (ha.trans hab) hb⟩
    · cases h
  · simp only [Bool.and_eq_true, decide_eq_true_eq] at h
    obtain ⟨rfl, rfl⟩ := h
    exact ⟨by decide, by decide⟩

/-- The keys of an item. -/
def itemKeys : List String :=
  ["asset_id", "association_state", "case_id", "network_count", "observed_count", "peer_ip",
    "publish_generation", "revision", "saved_count", "ssh_count", "temporal_available",
    "timeline_complete", "window_end_us", "window_start_us"]

/-- An item takes at most 2000 characters. -/
theorem CaseItem.bound (h : i.valid = true) (hrevision : i.revision < 10 ^ 19)
    (hgeneration : i.publishGeneration < 10 ^ 19) : textBound i.value ≤ 2000 := by
  simp only [CaseItem.valid, Bool.and_eq_true, decide_eq_true_eq, List.all_cons, List.all_nil] at h
  obtain ⟨⟨⟨⟨⟨⟨⟨⟨⟨⟨⟨⟨⟨-, hasset⟩, -⟩, -⟩, hcase⟩, hstate⟩, hpos⟩, -⟩, -⟩, hip⟩, -⟩, hcounts⟩, -⟩, hwindow⟩ := h
  obtain ⟨htemporal₀, hnetwork₀, hssh₀, hsaved₀, hobserved₀, -⟩ := hpos
  obtain ⟨hnetwork, hssh, hsaved, hle, hsum⟩ := hcounts
  have hw₁ := weight_of_bounded hasset
  have hw₂ := (plain_of_isIp hip).weight
  have hw₃ := (plain_of_isCaseId hcase).weight
  have hw₄ : strWeight (Str.ofString i.columns.associationState) ≤ 9 := by
    have hall : ∀ s ∈ caseStates, strWeight (Str.ofString s) ≤ 9 := by decide
    exact hall _ (List.contains_iff_mem.mp hstate)
  have hn₁ := length_dumpInt_le (n := i.columns.networkCount) (k := 5) (by omega) (by decide)
  have hn₂ := length_dumpInt_le (n := i.columns.sshCount) (k := 5) (by omega) (by decide)
  have hn₃ := length_dumpInt_le (n := i.columns.savedCount) (k := 5) (by omega) (by decide)
  have hn₄ := length_dumpInt_le (n := i.columns.observedCount) (k := 5) (by omega) (by decide)
  have hn₅ := length_dumpInt_nat hrevision (by decide)
  have hn₆ := length_dumpInt_nat hgeneration (by decide)
  obtain ⟨hwin₁, hwin₂⟩ := bound_of_window hwindow
  have hkey : ∀ key ∈ itemKeys, strWeight (Str.ofString key) ≤ 18 := by decide
  simp only [itemKeys, List.forall_mem_cons, List.not_mem_nil, false_implies, implies_true,
    and_true] at hkey
  obtain ⟨k₁, k₂, k₃, k₄, k₅, k₆, k₇, k₈, k₉, k₁₀, k₁₁, k₁₂, k₁₃, k₁₄⟩ := hkey
  simp only [CaseItem.value, textBound, membersBound]
  omega

theorem itemsBound_le {vs : List Value} {k : Nat} (h : ∀ v ∈ vs, textBound v ≤ k) :
    itemsBound vs ≤ vs.length * (k + 1) := by
  induction vs with
  | nil => simp [itemsBound]
  | cons v vs ih =>
    have hv := h v List.mem_cons_self
    have hvs := ih fun w hw => h w (List.mem_cons_of_mem _ hw)
    rw [itemsBound, List.length_cons, Nat.succ_mul]
    omega

/-- **A page fits**: the size of a page is never the reason to refuse it. -/
theorem Listing.fits {l : Listing} (hitems : ∀ i ∈ l.items, textBound i.value ≤ 2000)
    (hlen : l.items.length ≤ 50) (htoken : l.snapshot.length ≤ 4096)
    (hascii : ∀ c ∈ l.snapshot, c < 128) (hpage : l.page < 10 ^ 19) (htotal : l.total < 10 ^ 19)
    (hpages : l.totalPages < 10 ^ 19) (hcurrent : l.currentGeneration < 10 ^ 19) :
    (dumpsAscii l.value).length ≤ listBytes := by
  refine (length_dumpsAscii_le _).trans ?_
  have hbound : itemsBound (l.items.map CaseItem.value) ≤ 50 * 2001 := by
    refine (itemsBound_le (k := 2000) fun v hv => ?_).trans ?_
    · obtain ⟨i, hi, rfl⟩ := List.mem_map.mp hv
      exact hitems i hi
    · rw [List.length_map]
      exact Nat.mul_le_mul_right _ hlen
  have hweight : strWeight l.snapshot ≤ 6 * 4096 := by
    have hutf8 : ∀ s : Str, (∀ c ∈ s, c < 128) → utf8Length s = s.length := by
      intro s hs
      induction s with
      | nil => rfl
      | cons c s ih =>
        have hone : utf8Width c = 1 := if_pos (hs c List.mem_cons_self)
        have hrest := ih fun d hd => hs d (List.mem_cons_of_mem _ hd)
        simp only [utf8Length, List.map_cons, List.sum_cons] at hrest ⊢
        rw [hone, hrest, List.length_cons]
        omega
    have hle := strWeight_le l.snapshot
    rw [hutf8 _ hascii] at hle
    omega
  have hn₁ := length_dumpInt_nat hpage (by decide)
  have hn₂ := length_dumpInt_nat htotal (by decide)
  have hn₃ := length_dumpInt_nat hpages (by decide)
  have hn₄ := length_dumpInt_nat hcurrent (by decide)
  have hkey : ∀ key ∈ ["current_generation", "items", "page", "snapshot", "total", "total_pages"],
      strWeight (Str.ofString key) ≤ 18 := by decide
  simp only [List.forall_mem_cons, List.not_mem_nil, false_implies, implies_true, and_true] at hkey
  obtain ⟨k₁, k₂, k₃, k₄, k₅, k₆⟩ := hkey
  simp only [Listing.value, textBound, membersBound, listBytes]
  omega

/-! ### The list -/

/-- A file whose store was reached by calls. -/
structure StoreFile.Reached (env : Env) (q : CaseQuery) (f : StoreFile) : Prop where
  catalog : 1 ≤ q.catalogMinSeq
  limits : f.limits = env.limits
  /-- What `StoreLimits` admits. -/
  revisionLimit : env.limits.revisionLimit ≤ 10000
  registrationLimit : env.limits.registrationLimit ≤ 1000
  store : ∃ ops, f.store = run (next env) (Store.create q.catalogMinSeq) ops

variable {q : CaseQuery} {f : StoreFile}

theorem StoreFile.Reached.sound (h : f.Reached env q) : Sound env.limits f.store := by
  obtain ⟨ops, hops⟩ := h.store
  rw [hops]
  exact sound_run env h.catalog ops

/-- The file after more calls. -/
def StoreFile.after (env : Env) (ops : List Op) (f : StoreFile) : StoreFile :=
  { f with store := run (next env) f.store ops }

theorem StoreFile.Reached.after (h : f.Reached env q) (ops : List Op) :
    (f.after env ops).Reached env q :=
  { h with
    store := by
      obtain ⟨before, hbefore⟩ := h.store
      exact ⟨before ++ ops, by rw [run_append, ← hbefore]; rfl⟩ }

variable {x : Filters}

theorem mem_selected {rows : List CaseItem} :
    i ∈ selected x generation rows ↔ i ∈ latest generation rows ∧ x.selects i = true := by
  rw [selected, orderItems, List.mem_insertionSort, List.mem_filter]

/-- The rows of a reached store have small numbers. -/
theorem StoreFile.Reached.rows (h : f.Reached env q) (hi : i ∈ f.store.summaryRows) :
    i.revision ≤ 10000 ∧ i.publishGeneration ≤ 10000 := by
  obtain ⟨v, hv, hitem⟩ := List.mem_filterMap.mp hi
  obtain ⟨-, hrevision, hgeneration⟩ := RevisionRow.item_eq hitem
  have hle := h.sound.revisionLimit.trans h.revisionLimit
  have h₁ := h.sound.revision_le hv
  have h₂ := h.sound.generation_le hv
  omega

/-- **The page of a token**: when every row of it is well formed, it is returned. -/
theorem listAt_eq (h : f.Reached env q) (hlimits : q.limits = env.limits) {page limit : Nat}
    {token : Str} (hpage : page ≤ 1000) (hlimit : 1 ≤ limit ∧ limit ≤ 50)
    (htoken : token.length ≤ 4096) (hascii : ∀ c ∈ token, c < 128) :
    listAt q f x page limit token generation =
      (let rows := selected x generation f.store.summaryRows
      let items := (rows.drop ((page - 1) * limit)).take limit
      if q.limits.registrationLimit < rows.length || !items.all CaseItem.valid then
        .error .storeCorrupt
      else .ok ⟨items, page, max 1 ((rows.length + limit - 1) / limit), rows.length, token,
        f.store.counters.committedGeneration⟩) := by
  unfold listAt
  simp only
  generalize hrows : selected x generation f.store.summaryRows = rows
  by_cases htotal : q.limits.registrationLimit < rows.length
  · simp [htotal]
  · cases hvalid : ((rows.drop ((page - 1) * limit)).take limit).all CaseItem.valid with
    | false => simp [htotal]
    | true =>
      rw [if_neg htotal]
      simp only [Bool.not_true, Bool.false_eq_true, if_false, Bool.or_false, decide_eq_true_eq]
      rw [if_neg htotal, if_neg]
      rw [Nat.not_lt]
      rw [hlimits] at htotal
      have hregistrations := h.registrationLimit
      have hcommitted := h.sound.committed
      have hrevisions := h.sound.revisionLimit.trans h.revisionLimit
      refine Listing.fits (fun i hi => ?_) ?_ htoken hascii ?_ ?_ ?_ ?_
      · have hmem : i ∈ rows := List.mem_of_mem_drop (List.mem_of_mem_take hi)
        rw [← hrows] at hmem
        have hsmall := h.rows (List.mem_of_mem_filter (Iff.mp mem_selected hmem).1)
        exact CaseItem.bound (List.all_eq_true.mp hvalid i hi) (by omega) (by omega)
      · exact (List.length_take_le _ _).trans hlimit.2
      · simp only
        omega
      · simp only
        omega
      · have hdiv : (rows.length + limit - 1) / limit ≤ rows.length + limit - 1 := Nat.div_le_self _ _
        simp only
        omega
      · simp only
        omega

/-- Every case is selected once. -/
theorem StoreFile.Reached.nodup_selected (h : f.Reached env q) (x : Filters) (generation : Nat) :
    ((selected x generation f.store.summaryRows).map CaseItem.caseId).Nodup := by
  have hgenerations : (f.store.summaryRows.map CaseItem.publishGeneration).Nodup := by
    have hall : (f.store.revisions.map RevisionRow.publishGeneration).Nodup := by
      rw [h.sound.generations]
      exact List.nodup_range'
    have hsub : (f.store.summaryRows.map CaseItem.publishGeneration).Sublist
        (f.store.revisions.map RevisionRow.publishGeneration) := by
      rw [Store.summaryRows]
      induction f.store.revisions with
      | nil => exact List.Sublist.refl _
      | cons v rows ih =>
        cases hv : v.item with
        | none =>
          rw [List.filterMap_cons_none hv]
          exact ih.cons _
        | some i =>
          rw [List.filterMap_cons_some hv, List.map_cons, List.map_cons,
            (RevisionRow.item_eq hv).2.2]
          exact ih.cons_cons _
    exact hall.sublist hsub
  have hperm : (selected x generation f.store.summaryRows).Perm
      ((latest generation f.store.summaryRows).filter x.selects) := List.perm_insertionSort _ _
  refine ((hperm.map CaseItem.caseId).nodup_iff).mpr (List.Nodup.map_on ?_ ?_)
  · intro a ha b hb hab
    have ha' := List.mem_filter.mp (List.mem_of_mem_filter ha)
    have hb' := List.mem_filter.mp (List.mem_of_mem_filter hb)
    simp only [Bool.and_eq_true, decide_eq_true_eq, List.all_eq_true] at ha' hb'
    have hle := ha'.2.2 b hb'.1
    have hge := hb'.2.2 a ha'.1
    simp only [hab, decide_true, Bool.true_and, Bool.or_eq_true, Bool.not_eq_true',
      decide_eq_true_eq, decide_eq_false_iff_not] at hle hge
    exact List.inj_on_of_nodup_map hgenerations ha'.1 hb'.1 (by omega)
  · exact (List.Nodup.of_map _ hgenerations).filter _ |>.filter _

/-- Pages of a fixed size put together. -/
theorem flatMap_pages {α : Type} {limit : Nat} (n : Nat) (l : List α)
    (h : l.length ≤ n * limit) :
    (List.range n).flatMap (fun p => (l.drop (p * limit)).take limit) = l := by
  induction n generalizing l with
  | zero =>
    rw [Nat.zero_mul, Nat.le_zero, List.length_eq_zero_iff] at h
    simp [h]
  | succ n ih =>
    have hrest := ih (l.drop limit) (by
      rw [List.length_drop]
      rw [Nat.succ_mul] at h
      omega)
    rw [List.range_succ_eq_map, List.flatMap_cons, List.flatMap_map]
    have hpages : (List.range n).flatMap (fun p => (l.drop (Nat.succ p * limit)).take limit) =
        l.drop limit := by
      rw [← hrest]
      refine List.flatMap_congr fun p _ => ?_
      rw [List.drop_drop, Nat.succ_mul, Nat.add_comm]
    rw [Nat.zero_mul, List.drop_zero, hpages, List.take_append_drop]

theorem StoreFile.Reached.connection (h : f.Reached env q) (hconn : q.connection f = .ok ())
    (ops : List Op) :
    q.limits = env.limits ∧ isIdentity f.storeId = true ∧ isIdentity f.queryEpoch = true ∧
      q.connection (f.after env ops) = .ok () := by
  have hmin : ∀ {f : StoreFile}, f.Reached env q → f.store.runtime.catalogMinSeq = q.catalogMinSeq := by
    intro f hf
    obtain ⟨ops, hops⟩ := hf.store
    rw [hops, run_catalogMinSeq]
  have hafter := h.after ops
  unfold CaseQuery.connection at hconn
  split at hconn
  · cases hconn
  · rename_i hmeta
    split at hconn
    · cases hconn
    · rename_i hvalid
      simp only [Bool.or_eq_true, Bool.not_eq_true', not_or, Bool.not_eq_false, ne_eq,
        decide_eq_true_eq, not_not] at hmeta hvalid
      obtain ⟨⟨⟨hsha, hjson⟩, hlimits⟩, -⟩ := hmeta
      obtain ⟨⟨hstore, hepoch⟩, -⟩ := hvalid
      have hq : q.limits = env.limits := hlimits.symm.trans h.limits
      refine ⟨hq, hstore, hepoch, ?_⟩
      have hqueryable : (f.after env ops).store.queryable q.limits = true := by
        rw [hq]
        exact hafter.sound.queryable
      have hmin' := hmin hafter
      simp only [StoreFile.after] at hqueryable hmin'
      simp [CaseQuery.connection, StoreFile.after, hsha, hjson, hlimits, hmin', hstore, hepoch,
        hqueryable]

variable {filters : Option (List (Str × Value))}

/-- The token of a list that was returned. -/
theorem listCases_token {fromisoformat : String → Option IsoTime} {page limit : Nat} {l : Listing}
    (h : listCases fromisoformat q f filters page limit none = .ok l) :
    ∃ x, normalizeFilters fromisoformat filters = .ok x ∧ q.connection f = .ok () ∧
      l.snapshot = tokenText (tokenValue q f x f.store.counters.committedGeneration) ∧
      l.total = (selected x f.store.counters.committedGeneration f.store.summaryRows).length ∧
      l.total ≤ q.limits.registrationLimit := by
  unfold listCases at h
  split at h
  · cases h
  · obtain ⟨x, hx, hrest⟩ := bind_eq_ok.mp h
    obtain ⟨_, hconn, hlist⟩ := bind_eq_ok.mp hrest
    obtain ⟨⟨token, generation⟩, htoken, hat⟩ := bind_eq_ok.mp hlist
    simp only [snapshotOf, Except.ok.injEq, Prod.mk.injEq] at htoken
    obtain ⟨rfl, rfl⟩ := htoken
    unfold listAt at hat
    simp only at hat
    split at hat
    · cases hat
    · rename_i htotal
      split at hat
      · cases hat
      · split at hat
        · cases hat
        · obtain rfl := Except.ok.inj hat
          exact ⟨x, hx, hconn, rfl, rfl, Nat.not_lt.mp htotal⟩

/-- A list that is asked for with a token that is accepted. -/
theorem listCases_some {fromisoformat : String → Option IsoTime} {page limit : Nat} {token : Str}
    (hpage : 1 ≤ page ∧ page ≤ 1000 ∧ 1 ≤ limit ∧ limit ≤ 50)
    (hx : normalizeFilters fromisoformat filters = .ok x) (hconn : q.connection f = .ok ()) :
    listCases fromisoformat q f filters page limit (some token) =
      match readToken q f x token with
      | some (v, generation) => listAt q f x page limit (tokenText (sortKeys v)) generation
      | none => .error .refreshRequired := by
  unfold listCases
  rw [if_neg (by simp [hpage])]
  simp only [hx, hconn, bind, Except.bind, snapshotOf]
  cases readToken q f x token with
  | none => rfl
  | some y => rfl

/-- The list a token stands for, at the time of its file or later. -/
theorem listCases_frozen {fromisoformat : String → Option IsoTime} (hf : f.Reached env q)
    (hx : normalizeFilters fromisoformat filters = .ok x) (hconn : q.connection f = .ok ())
    (hplain : TokenPlain q f x) (later : List Op) {page limit : Nat}
    (hpage : 1 ≤ page ∧ page ≤ 1000 ∧ 1 ≤ limit ∧ limit ≤ 50) :
    listCases fromisoformat q (f.after env later) filters page limit
        (some (tokenText (tokenValue q f x f.store.counters.committedGeneration))) =
      (let rows := selected x f.store.counters.committedGeneration f.store.summaryRows
      let items := (rows.drop ((page - 1) * limit)).take limit
      if q.limits.registrationLimit < rows.length || !items.all CaseItem.valid then
        .error .storeCorrupt
      else .ok ⟨items, page, max 1 ((rows.length + limit - 1) / limit), rows.length,
        tokenText (tokenValue q f x f.store.counters.committedGeneration),
        (f.after env later).store.counters.committedGeneration⟩) := by
  obtain ⟨hlimits, -, -, hconn'⟩ := hf.connection hconn later
  have hcommitted := hf.sound.committed
  have hsmall : f.store.counters.committedGeneration < 10 ^ 19 := by
    have := hf.sound.revisionLimit.trans hf.revisionLimit
    omega
  have hgrown : f.store.counters.committedGeneration ≤
      (f.after env later).store.counters.committedGeneration := by
    obtain ⟨new, hnew⟩ := revisions_run env f.store later
    rw [hcommitted, (hf.after later).sound.committed]
    simp only [StoreFile.after]
    rw [hnew, List.length_append]
    omega
  have hread := @readToken_tokenText q q f (f.after env later) x x hplain _ hsmall
  rw [if_pos ⟨rfl, rfl, rfl, rfl, hgrown⟩] at hread
  have hsame : latest f.store.counters.committedGeneration (f.after env later).store.summaryRows =
      latest f.store.counters.committedGeneration f.store.summaryRows :=
    latest_run hf.sound later (Nat.le_of_eq hcommitted)
  have hselected : selected x f.store.counters.committedGeneration
      (f.after env later).store.summaryRows =
        selected x f.store.counters.committedGeneration f.store.summaryRows := by
    rw [selected, hsame, selected]
  rw [listCases_some hpage hx hconn', hread]
  simp only [sortKeys_tokenValue]
  rw [listAt_eq (hf.after later) hlimits hpage.2.1 hpage.2.2 (hplain.length hsmall)
    (hplain.text hsmall), hselected]

theorem listCases_page {fromisoformat : String → Option IsoTime} {page limit : Nat}
    {token : Option Str} (hpage : ¬(1 ≤ page ∧ page ≤ 1000 ∧ 1 ≤ limit ∧ limit ≤ 50)) :
    listCases fromisoformat q f filters page limit token = .error .invalidRequest := by
  unfold listCases
  rw [if_pos]
  · rfl
  · simp only [Bool.not_eq_true', Bool.and_eq_false_iff, decide_eq_false_iff_not]
    omega

/-- **A case list is frozen by its snapshot token.** After any later calls, a list with the token
and the same filters is, on every page, the list it was, but for the generation it reports; its
pages are the selected cases, each once, and put together they are all of them. With other filters,
for another store, another query epoch or another scope the token is refused. -/
theorem list_is_frozen (fromisoformat : String → Option IsoTime) (env : Env) {q : CaseQuery}
    {f : StoreFile} (hf : f.Reached env q) {filters : Option (List (Str × Value))}
    {page limit : Nat} {l : Listing}
    (h : listCases fromisoformat q f filters page limit none = .ok l) (later : List Op) :
    (∀ page' limit', listCases fromisoformat q (f.after env later) filters page' limit'
        (some l.snapshot) =
      (listCases fromisoformat q f filters page' limit' (some l.snapshot)).map fun m =>
        { m with currentGeneration :=
            (f.after env later).store.counters.committedGeneration }) ∧
    (∃ x cases, normalizeFilters fromisoformat filters = .ok x ∧
      (cases.map CaseItem.caseId).Nodup ∧ l.total = cases.length ∧
      (∀ i, i ∈ cases ↔ i ∈ latest f.store.counters.committedGeneration f.store.summaryRows ∧
        x.selects i = true) ∧
      (∀ page' limit' m, listCases fromisoformat q (f.after env later) filters page' limit'
          (some l.snapshot) = .ok m →
        m.items = (cases.drop ((page' - 1) * limit')).take limit' ∧ m.total = cases.length) ∧
      ∀ limit' (pages : Nat → Listing), (∀ p, p < (pages 0).totalPages →
          listCases fromisoformat q (f.after env later) filters (p + 1) limit' (some l.snapshot) =
            .ok (pages p)) →
        0 < (pages 0).totalPages →
        (List.range (pages 0).totalPages).flatMap (fun p => (pages p).items) = cases) ∧
    ∀ q' f' filters' x x' page' limit', 1 ≤ page' ∧ page' ≤ 1000 ∧ 1 ≤ limit' ∧ limit' ≤ 50 →
      normalizeFilters fromisoformat filters = .ok x →
      normalizeFilters fromisoformat filters' = .ok x' → q'.connection f' = .ok () →
      (x'.texts ≠ x.texts ∨ f'.storeId ≠ f.storeId ∨ f'.queryEpoch ≠ f.queryEpoch ∨
        q'.scopeSha ≠ q.scopeSha) →
      listCases fromisoformat q' f' filters' page' limit' (some l.snapshot) =
        .error .refreshRequired := by
  obtain ⟨x, hx, hconn, htoken, htotal, hlimit⟩ := listCases_token h
  obtain ⟨hlimits, hstore, hepoch, hconn'⟩ := hf.connection hconn later
  have hplain : TokenPlain q f x :=
    ⟨plain_identity hstore, plain_identity hepoch, normalizeFilters_plain hx⟩
  have hsmall : f.store.counters.committedGeneration < 10 ^ 19 := by
    have hcommitted := hf.sound.committed
    have := hf.sound.revisionLimit.trans hf.revisionLimit
    omega
  have hpages := fun later page limit (hpage : 1 ≤ page ∧ page ≤ 1000 ∧ 1 ≤ limit ∧ limit ≤ 50) =>
    listCases_frozen hf hx hconn hplain later hpage
  have hpage_of : ∀ {page' limit' : Nat} {m : Listing}, listCases fromisoformat q (f.after env later)
      filters page' limit' (some l.snapshot) = .ok m →
        1 ≤ page' ∧ page' ≤ 1000 ∧ 1 ≤ limit' ∧ limit' ≤ 50 := by
    intro page' limit' m hm
    by_contra hpage
    rw [listCases_page hpage] at hm
    cases hm
  have hok : ∀ {page' limit' : Nat} {m : Listing}, listCases fromisoformat q (f.after env later)
      filters page' limit' (some l.snapshot) = .ok m →
      m.items = ((selected x f.store.counters.committedGeneration f.store.summaryRows).drop
        ((page' - 1) * limit')).take limit' ∧
      m.total = (selected x f.store.counters.committedGeneration f.store.summaryRows).length ∧
      m.totalPages = max 1 (((selected x f.store.counters.committedGeneration
        f.store.summaryRows).length + limit' - 1) / limit') := by
    intro page' limit' m hm
    have hpage := hpage_of hm
    rw [htoken, hpages later page' limit' hpage] at hm
    simp only at hm
    split at hm
    · cases hm
    · obtain rfl := Except.ok.inj hm
      exact ⟨rfl, rfl, rfl⟩
  refine ⟨fun page' limit' => ?_, ⟨x, selected x f.store.counters.committedGeneration
    f.store.summaryRows, hx, hf.nodup_selected x _, htotal, fun i => mem_selected,
    fun page' limit' m hm => ⟨(hok hm).1, (hok hm).2.1⟩, fun limit' pages hall hpos => ?_⟩, ?_⟩
  · by_cases hpage : 1 ≤ page' ∧ page' ≤ 1000 ∧ 1 ≤ limit' ∧ limit' ≤ 50
    · have hnow := hpages [] page' limit' hpage
      rw [show f.after env [] = f from rfl] at hnow
      rw [htoken, hpages later page' limit' hpage, hnow]
      simp only
      split <;> rfl
    · rw [listCases_page hpage, listCases_page hpage]
      rfl
  · have hfirst := hok (hall 0 hpos)
    have hlimit' : 1 ≤ limit' := (hpage_of (hall 0 hpos)).2.2.1
    generalize hcases : selected x f.store.counters.committedGeneration f.store.summaryRows = cases
      at hok hfirst
    have hitems : ∀ p ∈ List.range (pages 0).totalPages,
        (pages p).items = (cases.drop (p * limit')).take limit' := by
      intro p hp
      rw [(hok (hall p (List.mem_range.mp hp))).1, Nat.add_sub_cancel]
    rw [List.flatMap_congr hitems]
    refine flatMap_pages _ _ ?_
    rw [hfirst.2.2]
    have hdiv : cases.length ≤ (cases.length + limit' - 1) / limit' * limit' := by
      have hmod := Nat.div_add_mod (cases.length + limit' - 1) limit'
      have hlt := Nat.mod_lt (cases.length + limit' - 1) hlimit'
      rw [Nat.mul_comm] at hmod
      omega
    exact hdiv.trans (Nat.mul_le_mul_right _ (Nat.le_max_right _ _))
  · intro q' f' filters' y x' page' limit' hpage hy hx' hconn'' hdiffers
    obtain rfl : y = x := Except.ok.inj (hy.symm.trans hx)
    have hread := @readToken_tokenText q q' f f' _ x' hplain _ hsmall
    rw [if_neg] at hread
    · rw [htoken, listCases_some hpage hx' hconn'', hread]
    · intro ⟨hs, he, hq, hxs, _⟩
      rcases hdiffers with hd | hd | hd | hd
      · exact hd hxs.symm
      · exact hd hs.symm
      · exact hd he.symm
      · exact hd (Subtype.ext hq.symm)

theorem zeros_isDigest :
    JointEvidence.isDigest (String.ofList (List.replicate 64 '0')) = true := by
  decide +kernel

/-- The query of the store below. -/
def smallQuery : CaseQuery :=
  ⟨⟨String.ofList (List.replicate 64 '0'), zeros_isDigest⟩, "scope", (roomFor 9).limits, 1⟩

/-- A new store. -/
def smallFile : StoreFile where
  storeId := String.ofList (List.replicate 32 'a')
  queryEpoch := String.ofList (List.replicate 32 'b')
  scopeSha := smallQuery.scopeSha.val
  scopeJson := "scope"
  limits := (roomFor 9).limits
  store := Store.create 1

theorem smallFile_reached : smallFile.Reached (roomFor 9) smallQuery :=
  ⟨by decide, rfl, by decide, by decide, [], rfl⟩

def smallObj (ms : List (String × Value)) : Value := .obj (ms.map fun m => (Str.ofString m.1, m.2))

/-- The payload of a case on an asset. -/
def smallPayload (asset : String) : Str :=
  dumps (smallObj [("anchor", smallObj [("src_ip", .str (Str.ofString "203.0.113.9"))]),
    ("asset_id", .str (Str.ofString asset)),
    ("counts", smallObj [("network", smallObj [("hits", .int 1)]), ("ssh", .obj [])]),
    ("observed_evidence_count", .int 1), ("state", .str (Str.ofString "linked")),
    ("temporal_association_available", .bool false), ("timeline", .arr [.int 0]),
    ("timeline_complete", .bool true),
    ("window", smallObj [("end_us", .null), ("start_us", .null)])])

def smallText (asset : String) : String := String.ofList ((smallPayload asset).map Char.ofNat)

theorem length_smallText : (smallText "web-1").length = 260 := by
  rw [smallText, String.length_ofList, List.length_map]
  decide +kernel

theorem ofString_smallText (asset : String) :
    Str.ofString (smallText asset) = (smallPayload asset).map fun c => (Char.ofNat c).toNat := by
  rw [Str.ofString, smallText, String.toList_ofList, List.map_map]
  rfl

def smallCase (n : Nat) : String := "JOINT-" ++ String.ofList (List.replicate 31 'a') ++ toString n

def smallPublish (cycle : String) (n revision : Nat) (asset text : String) : Op :=
  .publish ⟨cycle, n, revision, revision, "NET-" ++ toString n⟩
    ⟨.accepted (smallCase n), asset, text, "", "anchor"⟩ "now"

def smallOps : List Op := [.register [⟨"NET-1", 1⟩, ⟨"NET-2", 1⟩], .beginCycle "c1"]

/-- The first case moves to another asset. -/
def revisingOps : List Op :=
  [.register [⟨"NET-1", 2⟩], .beginCycle "c2", smallPublish "c2" 1 2 "db-1" (smallText "db-1")]

/-- Two cases published with a text of that length. -/
theorem small_published (text : String) (h : text.length = 260) :
    let s := run (next (roomFor 9)) (Store.create 1)
      (smallOps ++ [smallPublish "c1" 1 1 "web-1" text, smallPublish "c1" 2 1 "web-1" text])
    s.revisions = [⟨smallCase 1, 1, 1, "web-1", text, "", 260, "now"⟩,
        ⟨smallCase 2, 1, 2, "web-1", text, "", 260, "now"⟩] ∧
      s.counters = ⟨2, 2, 520⟩ ∧ s.runtime.catalogMinSeq = 1 := by
  rw [run_append]
  change (next (roomFor 9) (next (roomFor 9) _ _) _).revisions = _ ∧
    (next (roomFor 9) (next (roomFor 9) _ _) _).counters = _ ∧
      (next (roomFor 9) (next (roomFor 9) _ _) _).runtime.catalogMinSeq = _
  simp only [next, step, smallPublish, publish, Store.publishCase, Store.addRevision,
    show (roomFor 9).validateRead = fun _ value => .ok value from rfl, h]
  exact ⟨rfl, rfl, rfl⟩

/-- The file with the two cases. -/
def listedFile (text : String) : StoreFile :=
  smallFile.after (roomFor 9) (smallOps ++
    [smallPublish "c1" 1 1 "web-1" text, smallPublish "c1" 2 1 "web-1" text])

theorem listedFile_reached (text : String) : (listedFile text).Reached (roomFor 9) smallQuery :=
  smallFile_reached.after _

def webFilter : Option (List (Str × Value)) :=
  some [(Str.ofString "asset_id", .str (Str.ofString "web-1"))]

/-- The row the list reads of a revision with that text. -/
theorem small_item {text : String} (htext : Str.ofString text =
      (smallPayload "web-1").map fun c => (Char.ofNat c).toNat) (n generation : Nat) :
    RevisionRow.item ⟨smallCase n, 1, generation, "web-1", text, "", 260, "now"⟩ =
      some ⟨smallCase n, 1, generation,
        ⟨"web-1", "203.0.113.9", "linked", none, none, 0, 1, 0, 1, 1, 1⟩⟩ := by
  have h : (loads decodeDepth ((smallPayload "web-1").map fun c => (Char.ofNat c).toNat)).toOption.bind
      summaryValues = some ⟨"web-1", "203.0.113.9", "linked", none, none, 0, 1, 0, 1, 1, 1⟩ := by
    decide +kernel
  rw [RevisionRow.item, htext]
  generalize loads decodeDepth ((smallPayload "web-1").map fun c => (Char.ofNat c).toNat) = read at h
  cases read with
  | error e => cases h
  | ok payload => exact congrArg (Option.map _) h

/-- The two cases are listed, one a page. -/
theorem small_listed {text : String} (hlength : text.length = 260) (htext : Str.ofString text =
      (smallPayload "web-1").map fun c => (Char.ofNat c).toNat) :
    ∃ l, listCases (fun _ => none) smallQuery (listedFile text) webFilter 1 1 none = .ok l ∧
      l.total = 2 ∧ l.totalPages = 2 := by
  obtain ⟨hrevisions, hcounters, -⟩ := small_published text hlength
  have hrows : (listedFile text).store.summaryRows = [
      ⟨smallCase 1, 1, 1, ⟨"web-1", "203.0.113.9", "linked", none, none, 0, 1, 0, 1, 1, 1⟩⟩,
      ⟨smallCase 2, 1, 2, ⟨"web-1", "203.0.113.9", "linked", none, none, 0, 1, 0, 1, 1, 1⟩⟩] := by
    rw [Store.summaryRows, show (listedFile text).store.revisions = _ from hrevisions]
    simp only [List.filterMap, small_item htext]
  have hlist : (listAt smallQuery (listedFile text) ⟨none, some "web-1", none, none, none⟩ 1 1
      (tokenText (tokenValue smallQuery smallFile ⟨none, some "web-1", none, none, none⟩ 2)) 2).map
        (fun l => (l.total, l.totalPages)) = .ok (2, 2) := by
    rw [listAt, hrows, show (listedFile text).store.counters = _ from hcounters]
    decide +kernel
  have hconn := (smallFile_reached.connection (by decide +kernel) (smallOps ++
    [smallPublish "c1" 1 1 "web-1" text, smallPublish "c1" 2 1 "web-1" text])).2.2.2
  have heq : listCases (fun _ => none) smallQuery (listedFile text) webFilter 1 1 none =
      listAt smallQuery (listedFile text) ⟨none, some "web-1", none, none, none⟩ 1 1
        (tokenText (tokenValue smallQuery smallFile ⟨none, some "web-1", none, none, none⟩ 2)) 2 := by
    rw [listCases, if_neg (by decide), show normalizeFilters (fun _ => none) webFilter =
      .ok ⟨none, some "web-1", none, none, none⟩ by decide +kernel]
    simp only [bind, Except.bind, show smallQuery.connection (listedFile text) = _ from hconn,
      snapshotOf, show (listedFile text).store.counters = _ from hcounters]
    rfl
  rw [heq]
  cases h : listAt smallQuery (listedFile text) ⟨none, some "web-1", none, none, none⟩ 1 1
      (tokenText (tokenValue smallQuery smallFile ⟨none, some "web-1", none, none, none⟩ 2)) 2 with
  | error e => rw [h] at hlist; cases hlist
  | ok l =>
    rw [h] at hlist
    obtain ⟨htotal, hpages⟩ := Prod.mk.inj (Except.ok.inj hlist)
    exact ⟨l, rfl, htotal, hpages⟩

/-- The two cases of one asset are listed, one a page; the pages of the token stay what they are
when one of them moves to another asset. -/
theorem moved_case_stays_listed :
    ∃ l, listCases (fun _ => none) smallQuery (listedFile (smallText "web-1")) webFilter 1 1 none =
        .ok l ∧ l.total = 2 ∧ l.totalPages = 2 ∧ ∀ page limit,
      listCases (fun _ => none) smallQuery
          ((listedFile (smallText "web-1")).after (roomFor 9) revisingOps) webFilter page limit
          (some l.snapshot) =
        (listCases (fun _ => none) smallQuery (listedFile (smallText "web-1")) webFilter page limit
          (some l.snapshot)).map fun m => { m with currentGeneration :=
            ((listedFile (smallText "web-1")).after (roomFor 9)
              revisingOps).store.counters.committedGeneration } := by
  obtain ⟨l, hl, htotal, hpages⟩ := small_listed length_smallText (ofString_smallText _)
  exact ⟨l, hl, htotal, hpages, (list_is_frozen (fun _ => none) (roomFor 9)
    (listedFile_reached _) hl revisingOps).1⟩

end RiskOps.Joint
