import RiskOps.Joint.Catalog
import RiskOps.Joint.ReaderSpec
import RiskOps.Lib.Keyset

/-!
# RiskOps.Joint.CatalogSpec — a discovery reads every head once

`readCatalogPage_eq` says what a page of a well-formed catalogue is, `registerAll_eq` what a list of
requests does to the registrations. `Progress` holds between the pages of a discovery: what was
read and what is still behind the cursor are the heads of the captured range, and the counters are
those of what was read.

The catalogue changes between the pages (`Catalog.Grows`): a new row gets a number behind the
target, and a revised row keeps its `Head`, so the heads in the range stay the same list.
-/

namespace RiskOps.Joint

open RiskOps.Lib
open RiskOps.JointEvidence (sqlText sqlText_identifier isIdentifier)

/-! ### The bytes of a row -/

theorem length_unicodeEscape (n : Nat) : (Json.unicodeEscape n).length = 6 := rfl

theorem length_escapeChar (ascii : Bool) (c : Char) : (Json.escapeChar ascii c).length ≤ 12 := by
  unfold Json.escapeChar
  split_ifs <;> simp [length_unicodeEscape]

theorem length_dumpStr (ascii : Bool) (s : List Char) :
    (Json.dumpStr ascii s).length ≤ 12 * s.length + 2 := by
  have hflat : ∀ s : List Char, (s.flatMap (Json.escapeChar ascii)).length ≤ 12 * s.length := by
    intro s
    induction s with
    | nil => simp
    | cons c s ih =>
      have := length_escapeChar ascii c
      simp only [List.flatMap_cons, List.length_append, List.length_cons]
      omega
  have := hflat s
  simp only [Json.dumpStr, List.length_cons, List.length_append, List.length_nil]
  omega

theorem length_le_utf8ByteSize (s : String) : s.toList.length ≤ s.utf8ByteSize := by
  have hlist : ∀ l : List Char, l.length ≤ (String.ofList l).utf8ByteSize := by
    intro l
    induction l with
    | nil => simp
    | cons c l ih =>
      have happend : String.ofList (c :: l) = String.ofList [c] ++ String.ofList l :=
        @String.ofList_append [c] l
      have hone : (String.ofList [c]).utf8ByteSize = c.utf8Size := String.utf8ByteSize_singleton
      have hpos := Char.utf8Size_pos c
      rw [happend, String.utf8ByteSize_append, hone, List.length_cons]
      omega
  have := hlist s.toList
  rwa [String.ofList_toList] at this

theorem length_jsonText (maximum : Nat) (s : String) :
    (Json.dumps ⟨true, [','], [':']⟩ (jsonText (sqlText maximum (some s)))).length ≤
      12 * maximum + 4 := by
  unfold sqlText
  rw [Option.filter_some]
  split
  · rename_i h
    have hmax : s.utf8ByteSize ≤ maximum := by
      simp only [Bool.and_eq_true, decide_eq_true_eq] at h
      exact h.2
    have hlen := length_le_utf8ByteSize s
    have hdump := length_dumpStr true s.toList
    simp only [jsonText, Option.map_some, Option.getD_some, Json.dumps]
    omega
  · simp [jsonText, Json.dumps]

theorem length_jsonPositive {n : Nat} (h : n ≤ maxInteger) :
    (Json.dumps ⟨true, [','], [':']⟩ (jsonPositive n)).length ≤ 19 := by
  unfold jsonPositive
  split
  · exact (Nat.length_toDigits_le_iff (by omega) (by omega)).mpr (by unfold maxInteger at h; omega)
  · simp [Json.dumps]

variable {r : HeadRow}

theorem HeadRow.bytes_le (hseq : r.seq ≤ maxInteger) (hrev : r.revision ≤ maxInteger) :
    r.bytes ≤ 5000 := by
  have h₁ := length_jsonPositive hseq
  have h₂ := length_jsonPositive hrev
  have h₃ := length_jsonText 36 r.incidentId
  have h₄ := length_jsonText 128 r.sourceId
  have h₅ := length_jsonText 64 r.sourceProfileRevision
  have h₆ := length_jsonText 64 r.srcIp
  have h₇ := length_jsonText 64 r.dstIp
  have h₈ : (Json.dumps ⟨true, [','], [':']⟩ (.int (if r.parity then 1 else 0))).length = 1 := by
    cases r.parity <;> rfl
  rw [HeadRow.bytes, HeadRow.json, Json.dumps]
  simp only [Json.dumpItems, List.length_cons, List.length_append, List.length_nil]
  omega

/-! ### The loop over the rows -/

/-- The heads that are not skipped. -/
def RuntimeSpec.eligible (spec : RuntimeSpec) (h : Head) : Bool := (spec.reason h).isNone

/-- How many heads are skipped, by reason. -/
def RuntimeSpec.skips (spec : RuntimeSpec) (heads : List Head) : SkippedCounts :=
  let count (reason : SkipReason) := heads.countP fun h => spec.reason h = some reason
  ⟨count .sourceUnmapped, count .destinationUnmapped, count .profileUnmapped⟩

theorem RuntimeSpec.skips_append (spec : RuntimeSpec) (a b : List Head) :
    spec.skips (a ++ b) = (spec.skips a).add (spec.skips b) := by
  simp [RuntimeSpec.skips, SkippedCounts.add]

/-- Every head is registered or skipped for one reason. -/
theorem RuntimeSpec.length_eq (spec : RuntimeSpec) (heads : List Head) :
    heads.length = heads.countP spec.eligible + ((spec.skips heads).sourceUnmapped
      + (spec.skips heads).destinationUnmapped + (spec.skips heads).profileUnmapped) := by
  induction heads with
  | nil => rfl
  | cons h heads ih =>
    simp only [RuntimeSpec.skips] at ih ⊢
    rw [List.length_cons, List.countP_cons, List.countP_cons, List.countP_cons, List.countP_cons]
    rcases Option.eq_none_or_eq_some (spec.reason h) with hr | ⟨reason, hr⟩
    · simp only [RuntimeSpec.eligible, hr] at ih ⊢
      simp only [Option.isNone_none, if_true, reduceCtorEq, decide_false, Bool.false_eq_true,
        if_false]
      omega
    · simp only [RuntimeSpec.eligible, hr] at ih ⊢
      cases reason <;> simp <;> omega

theorem classify_eq (spec : RuntimeSpec) (rows : List HeadRow) (x : PageScan) :
    (rows.foldl (PageScan.classify spec) x).requests =
        x.requests ++ (rows.filter fun r => spec.eligible r.toHead).map HeadRow.request ∧
      (rows.foldl (PageScan.classify spec) x).skipped =
        x.skipped.add (spec.skips (rows.map HeadRow.toHead)) := by
  induction rows generalizing x with
  | nil => simp [RuntimeSpec.skips, SkippedCounts.add]
  | cons r rows ih =>
    obtain ⟨hrequests, hskipped⟩ := ih (x.classify spec r)
    have hone : spec.skips ((r :: rows).map HeadRow.toHead) =
        (spec.skips [r.toHead]).add (spec.skips (rows.map HeadRow.toHead)) :=
      spec.skips_append [r.toHead] (rows.map HeadRow.toHead)
    rw [List.foldl_cons, hrequests, hskipped, hone]
    unfold PageScan.classify
    rcases hr : spec.reason r.toHead with _ | reason
    · simp [RuntimeSpec.eligible, hr, RuntimeSpec.skips, SkippedCounts.add]
    · cases reason <;>
        simp [RuntimeSpec.eligible, hr, RuntimeSpec.skips, SkippedCounts.add, SkippedCounts.count] <;>
        omega

/-- The rows of a page fit the budget. -/
theorem foldlM_row {spec : RuntimeSpec} (rows : List HeadRow) {x : PageScan} {limit : Nat}
    (hrows : ∀ r ∈ rows, r.wellFormed = true ∧ r.seq ≤ maxInteger)
    (hfit : x.bytes + 5000 * rows.length ≤ limit) :
    ∃ bytes, rows.foldlM (PageScan.row limit spec) x =
      .ok { rows.foldl (PageScan.classify spec) x with bytes := bytes } := by
  induction rows generalizing x with
  | nil => exact ⟨x.bytes, rfl⟩
  | cons r rows ih =>
    obtain ⟨hwell, hseq⟩ := hrows r List.mem_cons_self
    have hrev : r.revision ≤ maxInteger := by
      simp only [HeadRow.wellFormed, Bool.and_eq_true, decide_eq_true_eq] at hwell
      unfold maxInteger
      omega
    have hbytes := HeadRow.bytes_le hseq hrev
    rw [List.length_cons] at hfit
    have hrow : x.row limit spec r =
        .ok { x.classify spec r with bytes := x.bytes + r.bytes } := by
      simp only [PageScan.row, consumeBytes]
      rw [if_neg (by omega), hwell]
      rfl
    obtain ⟨bytes, hfold⟩ := ih (x := { x.classify spec r with bytes := x.bytes + r.bytes })
      (fun s hs => hrows s (List.mem_cons_of_mem _ hs)) (by simp only; omega)
    refine ⟨bytes, ?_⟩
    rw [List.foldlM_cons, hrow]
    refine hfold.trans ?_
    -- the bytes do not decide about a row
    have hbytes : ∀ (rows : List HeadRow) (x : PageScan) (n : Nat),
        rows.foldl (PageScan.classify spec) { x with bytes := n } =
          { rows.foldl (PageScan.classify spec) x with bytes := n } := by
      intro rows
      induction rows with
      | nil => intro x n; rfl
      | cons r rows ih =>
        intro x n
        rw [List.foldl_cons, List.foldl_cons, ← ih]
        congr 1
        unfold PageScan.classify
        cases spec.reason r.toHead <;> rfl
    rw [hbytes]
    rfl

/-! ### The heads of a range -/

/-- The rows of the network store of the scope. -/
structure Catalog.Valid (spec : RuntimeSpec) (c : Catalog) : Prop where
  identified : c.applicationId = 0x4E455431 ∧ c.userVersion = 2 ∧ c.schema = true
  producer : c.producerId = some spec.scope.producerId.val
  rows : ∀ r ∈ c.incidents, r.wellFormed = true ∧ r.seq ≤ maxInteger
  numbered : (c.incidents.map fun r => r.seq).Nodup
  named : (c.incidents.map fun r => r.incidentId).Nodup

/-- What happens to the catalogue between two pages: rows are revised, and new rows get larger
numbers. -/
structure Catalog.Grows (c c' : Catalog) : Prop where
  revised : ∀ r ∈ c.incidents, ∃ r' ∈ c'.incidents, r'.toHead = r.toHead ∧ r.revision ≤ r'.revision
  appended : ∀ r' ∈ c'.incidents, (∃ r ∈ c.incidents, r'.toHead = r.toHead) ∨ c.maximum < r'.seq

theorem foldl_max_mem (l : List Nat) (a : Nat) : l.foldl max a = a ∨ l.foldl max a ∈ l := by
  induction l generalizing a with
  | nil => exact Or.inl rfl
  | cons n l ih =>
    rw [List.foldl_cons]
    rcases ih (max a n) with h | h
    · rcases Nat.le_total a n with han | hna
      · rw [h, Nat.max_eq_right han]
        exact Or.inr List.mem_cons_self
      · rw [h, Nat.max_eq_left hna]
        exact Or.inl rfl
    · exact Or.inr (List.mem_cons_of_mem _ h)

variable {c : Catalog}

theorem Catalog.exists_maximum (h : 0 < c.maximum) : ∃ r ∈ c.incidents, r.seq = c.maximum := by
  rcases foldl_max_mem (c.incidents.map fun r => r.seq) 0 with h₀ | hmem
  · rw [Catalog.maximum, h₀] at h
    exact absurd h (Nat.lt_irrefl 0)
  · obtain ⟨r, hr, hseq⟩ := List.mem_map.mp hmem
    exact ⟨r, hr, hseq⟩

theorem Catalog.seq_le_maximum (h : r ∈ c.incidents) : r.seq ≤ c.maximum :=
  le_foldl_max (Or.inl (List.mem_map.mpr ⟨r, h, rfl⟩))

theorem Catalog.mem_heads {a t : Nat} :
    r ∈ c.heads a t ↔ r ∈ c.incidents ∧ a < r.seq ∧ r.seq ≤ t := by
  simp [Catalog.heads, List.mem_insertionSort]

variable {spec : RuntimeSpec}

theorem Catalog.Valid.sorted (h : c.Valid spec) (a t : Nat) :
    (c.heads a t).Pairwise fun x y => x.seq < y.seq :=
  @Keyset.pairwise_sorted _ _ _ (fun r : HeadRow => r.seq) _
    (h.numbered.sublist (List.filter_sublist.map _))

theorem Catalog.Valid.named_heads (h : c.Valid spec) (a t : Nat) :
    ((c.heads a t).map fun r => r.incidentId).Nodup :=
  (((List.perm_insertionSort _ _).map _).nodup_iff).mpr
    (h.named.sublist (List.filter_sublist.map _))

/-- A strictly sorted list of heads is determined by its members. -/
theorem heads_ext {a b : List Head} (ha : a.Pairwise fun x y => x.seq < y.seq)
    (hb : b.Pairwise fun x y => x.seq < y.seq) (h : ∀ x, x ∈ a ↔ x ∈ b) : a = b := by
  have hnodup : ∀ l : List Head, (l.Pairwise fun x y => x.seq < y.seq) → l.Nodup := fun l hl =>
    hl.imp fun hlt heq => absurd (heq ▸ hlt) (Nat.lt_irrefl _)
  have hperm : a.Perm b := (List.perm_ext_iff_of_nodup (hnodup a ha) (hnodup b hb)).mpr h
  exact hperm.eq_of_pairwise (fun x y _ _ hxy hyx => absurd hxy (by omega)) ha hb

theorem Catalog.Valid.sorted_map (h : c.Valid spec) (a t : Nat) :
    ((c.heads a t).map HeadRow.toHead).Pairwise fun x y => x.seq < y.seq :=
  List.pairwise_map.mpr (h.sorted a t)

/-- Behind the last row of a page is the rest. -/
theorem Catalog.Valid.heads_after {spec : RuntimeSpec} {c : Catalog} (h : c.Valid spec)
    {a t : Nat} {front rest : List HeadRow} {l : HeadRow}
    (hsplit : c.heads a t = front ++ l :: rest) :
    (c.heads l.seq t).map HeadRow.toHead = rest.map HeadRow.toHead := by
  have hsorted := h.sorted a t
  rw [hsplit] at hsorted
  obtain ⟨hfront, hrest, hbefore⟩ := List.pairwise_append.mp hsorted
  obtain ⟨hlast, hrest⟩ := List.pairwise_cons.mp hrest
  refine heads_ext (h.sorted_map _ _) (List.pairwise_map.mpr hrest) fun x => ?_
  simp only [List.mem_map]
  refine exists_congr fun r => and_congr_left fun _ => ?_
  have hmem := Catalog.mem_heads (c := c) (a := a) (t := t) (r := r)
  rw [hsplit, List.mem_append, List.mem_cons] at hmem
  have hl : l ∈ c.heads a t := by rw [hsplit]; exact List.mem_append_right _ List.mem_cons_self
  have hla := (Iff.mp Catalog.mem_heads hl).2.1
  rw [Catalog.mem_heads]
  constructor
  · intro ⟨hr, hlr, hrt⟩
    rcases hmem.mpr ⟨hr, by omega, hrt⟩ with hr | rfl | hr
    · have := hbefore r hr l List.mem_cons_self
      omega
    · omega
    · exact hr
  · intro hr
    obtain ⟨hr', -, hrt⟩ := hmem.mp (Or.inr (Or.inr hr))
    exact ⟨hr', hlast r hr, hrt⟩

theorem Catalog.heads_self (c : Catalog) (t : Nat) : c.heads t t = [] := by
  refine List.eq_nil_iff_forall_not_mem.mpr fun r hr => ?_
  have := Iff.mp Catalog.mem_heads hr
  omega

/-- **Rows that appear or are revised change no head of the range.** -/
theorem Catalog.Grows.heads {spec : RuntimeSpec} {c c' : Catalog} (h : c.Grows c')
    (hc : c.Valid spec) (hc' : c'.Valid spec) {a t : Nat} (ht : t ≤ c.maximum) :
    (c'.heads a t).map HeadRow.toHead = (c.heads a t).map HeadRow.toHead := by
  refine heads_ext (hc'.sorted_map a t) (hc.sorted_map a t) fun x => ?_
  simp only [List.mem_map, Catalog.mem_heads]
  constructor
  · intro ⟨r', ⟨hr', har, hrt⟩, hx⟩
    rcases h.appended r' hr' with ⟨r, hr, hhead⟩ | hlarge
    · have hseq : r'.seq = r.seq := congrArg Head.seq hhead
      exact ⟨r, ⟨hr, by omega, by omega⟩, by rw [← hhead, hx]⟩
    · omega
  · intro ⟨r, ⟨hr, har, hrt⟩, hx⟩
    obtain ⟨r', hr', hhead, -⟩ := h.revised r hr
    have hseq : r'.seq = r.seq := congrArg Head.seq hhead
    exact ⟨r', ⟨hr', by omega, by omega⟩, by rw [hhead, hx]⟩

theorem Catalog.Grows.maximum {c' : Catalog} (h : c.Grows c') : c.maximum ≤ c'.maximum := by
  rcases Nat.eq_zero_or_pos c.maximum with h₀ | hpos
  · omega
  · obtain ⟨r, hr, hseq⟩ := Catalog.exists_maximum hpos
    obtain ⟨r', hr', hhead, -⟩ := h.revised r hr
    have := Catalog.seq_le_maximum hr'
    have hseq' : r'.seq = r.seq := congrArg Head.seq hhead
    omega

/-! ### One page -/

/-- The page is the last one. -/
def isLastPage (rows : List HeadRow) (targetSeq limit : Nat) : Bool :=
  decide (rows.length < limit) || rows.getLast?.any fun r => r.seq = targetSeq

/-- The page that the rows make. -/
def pageOf (spec : RuntimeSpec) (rows : List HeadRow) (afterSeq targetSeq limit : Nat) :
    DiscoveryPage where
  producerId := spec.scope.producerId.val
  afterSeq := afterSeq
  targetSeq := targetSeq
  nextSeq := if isLastPage rows targetSeq limit then targetSeq
    else (rows.getLast?.map fun r => r.seq).getD targetSeq
  scannedCount := rows.length
  complete := isLastPage rows targetSeq limit
  eligible := (rows.filter fun r => spec.eligible r.toHead).map HeadRow.request
  skipped := spec.skips (rows.map HeadRow.toHead)

theorem Catalog.Valid.identity (h : c.Valid spec) :
    ∃ bytes, bytes ≤ 128 ∧
      c.identity defaultByteLimit spec = .ok (spec.scope.producerId.val, bytes) := by
  obtain ⟨happ, hver, hschema⟩ := h.identified
  have hlen : spec.scope.producerId.val.toList.length ≤ 128 := by
    have hid := spec.scope.producerId.property
    unfold JointEvidence.isIdentifier at hid
    split at hid
    · simp at hid
    · rename_i c cs hcs
      simp only [Bool.and_eq_true, decide_eq_true_eq] at hid
      rw [hcs, List.length_cons]
      omega
  refine ⟨spec.scope.producerId.val.toList.length, hlen, ?_⟩
  unfold Catalog.identity
  rw [if_neg (by simp [happ, hver, hschema]), h.producer, sqlText_identifier, Option.filter_some,
    if_pos spec.scope.producerId.property]
  simp only [consumeBytes, Nat.zero_add]
  rw [if_neg (by unfold defaultByteLimit; omega)]
  simp [bind, Except.bind, pure, Except.pure]

/-- **A page of a well-formed catalogue.** -/
theorem readCatalogPage_eq {spec : RuntimeSpec} {c : Catalog} (h : c.Valid spec)
    {afterSeq targetSeq limit : Nat} (hafter : spec.catalogMinSeq - 1 ≤ afterSeq)
    (hle : afterSeq ≤ targetSeq) (htarget : targetSeq ≤ c.maximum) (hmax : targetSeq ≤ maxInteger)
    (hlimit : 1 ≤ limit ∧ limit ≤ 50) :
    readCatalogPage spec c afterSeq targetSeq limit =
      .ok (pageOf spec ((c.heads afterSeq targetSeq).take limit) afterSeq targetSeq limit) := by
  obtain ⟨bytes, hbytes, hidentity⟩ := h.identity
  have hrows : ∀ r ∈ (c.heads afterSeq targetSeq).take limit,
      r.wellFormed = true ∧ r.seq ≤ maxInteger :=
    fun r hr => h.rows r (Catalog.mem_heads.mp (List.mem_of_mem_take hr)).1
  have hlen : ((c.heads afterSeq targetSeq).take limit).length ≤ 50 :=
    (List.length_take_le _ _).trans hlimit.2
  obtain ⟨n, hfold⟩ := @foldlM_row spec _ ⟨[], ⟨0, 0, 0⟩, bytes⟩
    defaultByteLimit hrows (by unfold defaultByteLimit; simp only; omega)
  obtain ⟨hrequests, hskipped⟩ := classify_eq spec ((c.heads afterSeq targetSeq).take limit)
    ⟨[], ⟨0, 0, 0⟩, bytes⟩
  have hcheck : (decide (spec.catalogMinSeq - 1 ≤ afterSeq) && decide (afterSeq ≤ targetSeq)
      && decide (targetSeq ≤ maxInteger) && decide (1 ≤ limit) && decide (limit ≤ 50)) = true := by
    simp [hafter, hle, hmax, hlimit]
  unfold readCatalogPage
  simp only [hcheck, Bool.not_true, Bool.false_eq_true, if_false, hidentity, bind, Except.bind]
  rw [if_neg (by omega)]
  have hfold' := hfold
  simp only [pure, Except.pure, hfold', hrequests, hskipped]
  simp [pageOf, isLastPage, SkippedCounts.add]

/-- The cursor moves, and reaches the target with the last page. -/
theorem pageOf_valid (h : c.Valid spec) {afterSeq targetSeq limit : Nat}
    (hlt : afterSeq < targetSeq) (hrow : ∃ r ∈ c.incidents, r.seq = targetSeq)
    (hmax : targetSeq ≤ maxInteger) (hlimit : 1 ≤ limit ∧ limit ≤ 50) :
    (pageOf spec ((c.heads afterSeq targetSeq).take limit) afterSeq targetSeq limit).valid
      afterSeq = true := by
  obtain ⟨target, htarget, hseq⟩ := hrow
  have hmem : target ∈ c.heads afterSeq targetSeq :=
    Catalog.mem_heads.mpr ⟨htarget, by omega, by omega⟩
  generalize hrows : (c.heads afterSeq targetSeq).take limit = rows
  have hlen : rows.length ≤ 50 := by
    rw [← hrows]
    exact (List.length_take_le _ _).trans hlimit.2
  have hne : rows ≠ [] := by
    rw [← hrows]
    intro hnil
    rcases List.take_eq_nil_iff.mp hnil with h₀ | h₀
    · omega
    · rw [h₀] at hmem
      cases hmem
  obtain ⟨l, hlast⟩ : ∃ l, rows.getLast? = some l := ⟨_, List.getLast?_eq_some_getLast hne⟩
  have hl : l ∈ rows := List.mem_of_getLast? hlast
  have hlrange : afterSeq < l.seq ∧ l.seq ≤ targetSeq := by
    rw [← hrows] at hl
    exact (Catalog.mem_heads.mp (List.mem_of_mem_take hl)).2
  have hcount := spec.length_eq (rows.map HeadRow.toHead)
  rw [List.length_map] at hcount
  have heligible : (rows.filter fun r => spec.eligible r.toHead).length =
      (rows.map HeadRow.toHead).countP spec.eligible := by
    rw [List.countP_map, List.countP_eq_length_filter]
    rfl
  have hdistinct : distinctRequests ((rows.filter fun r => spec.eligible r.toHead).map
      HeadRow.request) = true := by
    simp only [distinctRequests, decide_eq_true_eq, List.map_map]
    have hsub : (rows.map fun r => r.incidentId).Nodup := by
      rw [← hrows]
      exact (h.named_heads _ _).sublist ((List.take_sublist _ _).map _)
    exact hsub.sublist (List.filter_sublist.map _)
  have hrowsNe : rows.length ≠ 0 := fun h₀ => hne (List.length_eq_zero_iff.mp h₀)
  have hfilter := List.length_filter_le (fun r : HeadRow => spec.eligible r.toHead) rows
  simp only [DiscoveryPage.valid, pageOf, List.length_map, hdistinct, hlast, Option.map_some,
    Option.getD_some]
  cases hcomplete : isLastPage rows targetSeq limit with
  | true =>
    simp only [if_true, Bool.not_true, Bool.false_and, Bool.not_false, Bool.and_true, ne_eq,
      not_true, decide_false, Bool.and_false]
    simp only [Bool.and_eq_true, decide_eq_true_eq, Bool.not_eq_true', Bool.and_eq_false_iff,
      decide_eq_false_iff_not, and_true, not_not]
    omega
  | false =>
    have hnext : l.seq ≠ targetSeq := by
      intro heq
      rw [isLastPage, hlast, Option.any_some, decide_eq_true heq, Bool.or_true] at hcomplete
      cases hcomplete
    simp only [if_false, Bool.false_eq_true, Bool.not_false, Bool.true_and, Bool.false_and,
      Bool.and_true]
    simp only [Bool.and_eq_true, decide_eq_true_eq, Bool.not_eq_true', Bool.and_eq_false_iff,
      decide_eq_false_iff_not, Bool.or_eq_false_iff, and_true, not_not, ne_eq]
    omega

/-! ### The registrations -/

/-- The revision that is requested of an incident. -/
def requested (rows : List Registration) (incidentId : String) : Option Nat :=
  (rows.find? fun r => r.incidentId = incidentId).map Registration.requestedRevision

/-- A request for another revision than the one that is requested. -/
def AnchorRequest.isNew (rows : List Registration) (q : AnchorRequest) : Bool :=
  requested rows q.incidentId ≠ some q.revision

/-- A request for an incident that is not registered. -/
def AnchorRequest.isFirst (rows : List Registration) (q : AnchorRequest) : Bool :=
  (requested rows q.incidentId).isNone

theorem requested_update {rows : List Registration} {row : Registration} {revision : Nat}
    (hseq : (rows.map Registration.seq).Nodup)
    (hrow : rows.find? (fun r => r.incidentId = row.incidentId) = some row) (incidentId : String) :
    requested (updateRegistration row.seq (Registration.request revision) rows) incidentId =
      if incidentId = row.incidentId then some revision else requested rows incidentId := by
  have hfind : (updateRegistration row.seq (Registration.request revision) rows).find?
      (fun r => r.incidentId = incidentId) = (rows.find? fun r => r.incidentId = incidentId).map
        fun r => if r.seq = row.seq then Registration.request revision r else r := by
    rw [updateRegistration, List.find?_map]
    congr 2
    funext r
    simp only [Function.comp_apply]
    split <;> rfl
  rw [requested, hfind, Option.map_map]
  split
  · rename_i heq
    rw [heq, hrow, Option.map_some, Function.comp_apply, if_pos rfl]
    rfl
  · rename_i hne
    rw [requested]
    cases hother : rows.find? fun r => r.incidentId = incidentId with
    | none => rfl
    | some r =>
      -- another incident has another row
      have hid : r.incidentId = incidentId := by simpa using List.find?_some hother
      have hseqs : r.seq ≠ row.seq := by
        intro heq
        have hsame := List.inj_on_of_nodup_map hseq (List.mem_of_find?_eq_some hother)
          (List.mem_of_find?_eq_some hrow) heq
        exact hne (by rw [← hid, hsame])
      rw [Option.map_some, Function.comp_apply, if_neg hseqs]
      rfl

/-- **`_register`, one request.** -/
theorem registerOne_eq {limit : Nat} {x : List Registration × RegisterSummary}
    {item : AnchorRequest} (hseq : (x.1.map Registration.seq).Nodup)
    (hnewest : ∀ revision, requested x.1 item.incidentId = some revision → revision ≤ item.revision)
    (hroom : item.isFirst x.1 = true → x.1.length < limit) :
    ∃ rows summary, registerOne limit x item = .ok (rows, summary) ∧
      rows.length = x.1.length + (if item.isFirst x.1 then 1 else 0) ∧
      (∀ id, requested rows id =
        if id = item.incidentId then some item.revision else requested x.1 id) ∧
      summary.registered + summary.updated =
        x.2.registered + x.2.updated + (if item.isNew x.1 then 1 else 0) ∧
      summary.unchanged = x.2.unchanged + (if item.isNew x.1 then 0 else 1) := by
  cases hfind : x.1.find? fun r => r.incidentId = item.incidentId with
  | none =>
    have hnone : requested x.1 item.incidentId = none := by rw [requested, hfind]; rfl
    have hfirst : item.isFirst x.1 = true := by rw [AnchorRequest.isFirst, hnone]; rfl
    have hnew : item.isNew x.1 = true := by simp [AnchorRequest.isNew, hnone]
    refine ⟨x.1 ++ [newRegistration (lastSeq x.1 + 1) item],
      { x.2 with registered := x.2.registered + 1 }, ?_, ?_, ?_, ?_, ?_⟩
    · have := hroom hfirst
      rw [registerOne, hfind]
      simp only
      rw [if_neg (by omega)]
    · rw [hfirst]
      simp
    · intro id
      rw [requested, List.find?_append]
      split
      · rename_i heq
        rw [heq, hfind]
        simp [newRegistration]
      · rename_i hne
        rw [requested]
        cases x.1.find? fun r => r.incidentId = id with
        | none => simp [newRegistration, Ne.symm hne]
        | some r => rfl
    · rw [hnew]
      simp only [if_true]
      omega
    · rw [hnew]
      rfl
  | some row =>
    have hid : row.incidentId = item.incidentId := by simpa using List.find?_some hfind
    have hsome : requested x.1 item.incidentId = some row.requestedRevision := by
      rw [requested, hfind]
      rfl
    have hfirst : item.isFirst x.1 = false := by rw [AnchorRequest.isFirst, hsome]; rfl
    have hle := hnewest _ hsome
    by_cases heq : item.revision = row.requestedRevision
    · have hnew : item.isNew x.1 = false := by
        simp [AnchorRequest.isNew, hsome, heq]
      refine ⟨x.1, { x.2 with unchanged := x.2.unchanged + 1 }, ?_, ?_, ?_, ?_, ?_⟩
      · rw [registerOne, hfind]
        simp only
        rw [if_neg (by omega), if_pos heq]
      · rw [hfirst]
        rfl
      · intro id
        split
        · rename_i hide
          rw [hide, hsome, heq]
        · rfl
      · rw [hnew]
        rfl
      · rw [hnew]
        rfl
    · have hnew : item.isNew x.1 = true := by
        simp only [AnchorRequest.isNew, hsome, ne_eq, Option.some.injEq, decide_eq_true_eq]
        exact fun h => heq h.symm
      refine ⟨updateRegistration row.seq (Registration.request item.revision) x.1,
        { x.2 with updated := x.2.updated + 1 }, ?_, ?_, ?_, ?_, ?_⟩
      · rw [registerOne, hfind]
        simp only
        rw [if_neg (by omega), if_neg heq]
      · rw [hfirst]
        simp [updateRegistration]
      · intro id
        rw [requested_update hseq (by rw [hid]; exact hfind), hid]
      · rw [hnew]
        simp only [if_true]
        omega
      · rw [hnew]
        rfl

/-- **`_register`.** -/
theorem registerAll_eq {limit : Nat} {requests : List AnchorRequest}
    {x : List Registration × RegisterSummary} (hseq : (x.1.map Registration.seq).Nodup)
    (hdistinct : (requests.map AnchorRequest.incidentId).Nodup)
    (hnewest : ∀ q ∈ requests, ∀ revision, requested x.1 q.incidentId = some revision →
      revision ≤ q.revision)
    (hroom : x.1.length + requests.countP (AnchorRequest.isFirst x.1) ≤ limit) :
    ∃ rows summary, requests.foldlM (registerOne limit) x = .ok (rows, summary) ∧
      (rows.map Registration.seq).Nodup ∧
      rows.length = x.1.length + requests.countP (AnchorRequest.isFirst x.1) ∧
      (∀ id, requested rows id =
        ((requests.find? fun q => q.incidentId = id).map AnchorRequest.revision).or
          (requested x.1 id)) ∧
      summary.registered + summary.updated =
        x.2.registered + x.2.updated + requests.countP (AnchorRequest.isNew x.1) := by
  induction requests generalizing x with
  | nil => exact ⟨x.1, x.2, rfl, hseq, rfl, fun _ => rfl, rfl⟩
  | cons q requests ih =>
    obtain ⟨hq, hdistinct⟩ := List.nodup_cons.mp hdistinct
    rw [List.countP_cons] at hroom
    obtain ⟨rows, summary, hone, hlength, hrequested, hcount, -⟩ := registerOne_eq hseq
      (hnewest q List.mem_cons_self) (show q.isFirst x.1 = true → x.1.length < limit by
        intro hfirst
        rw [hfirst] at hroom
        simp only [if_true] at hroom
        omega)
    -- the other requests are about other incidents
    have hothers : ∀ p ∈ requests, requested rows p.incidentId = requested x.1 p.incidentId := by
      intro p hp
      rw [hrequested, if_neg]
      intro heq
      exact hq (List.mem_map.mpr ⟨p, hp, heq⟩)
    have hfirsts : requests.countP (AnchorRequest.isFirst rows) =
        requests.countP (AnchorRequest.isFirst x.1) :=
      List.countP_congr fun p hp => by rw [AnchorRequest.isFirst, AnchorRequest.isFirst, hothers p hp]
    have hnews : requests.countP (AnchorRequest.isNew rows) =
        requests.countP (AnchorRequest.isNew x.1) :=
      List.countP_congr fun p hp => by rw [AnchorRequest.isNew, AnchorRequest.isNew, hothers p hp]
    obtain ⟨rows', summary', hrest, hseq', hlength', hrequested', hcount'⟩ :=
      ih (x := (rows, summary)) (registerOne_nodup hone hseq) hdistinct
        (fun p hp revision hrevision => hnewest p (List.mem_cons_of_mem _ hp) revision
          (by rw [← hothers p hp]; exact hrevision))
        (by rw [hfirsts, hlength]; omega)
    refine ⟨rows', summary', ?_, hseq', ?_, ?_, ?_⟩
    · rw [List.foldlM_cons, hone]
      exact hrest
    · rw [hlength', hfirsts, hlength, List.countP_cons]
      omega
    · intro id
      rw [hrequested', List.find?_cons]
      simp only [hrequested]
      by_cases hid : q.incidentId = id
      · have hnone : requests.find? (fun p => p.incidentId = id) = none := by
          refine List.find?_eq_none.mpr fun p hp heq => hq (List.mem_map.mpr ⟨p, hp, ?_⟩)
          simpa [hid] using heq
        simp [hid, hnone]
      · simp [hid, Ne.symm hid]
    · rw [hcount', hnews, hcount, List.countP_cons]
      omega

end RiskOps.Joint
