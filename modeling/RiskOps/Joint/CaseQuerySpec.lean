import RiskOps.Joint.CaseQuery
import RiskOps.Joint.ReaderSpec

/-!
# RiskOps.Joint.CaseQuerySpec — a case list is frozen by its token

`readToken_tokenText` says when a token that was handed out is accepted again: when filters, store,
query epoch and scope are the same. `latest_run` says that later publications do not change what was
the latest row of each case up to a generation. `list_is_frozen` puts them together; the bound on the
length of a page (`Listing.fits`) is needed because a later page also prints a later generation.
-/

namespace RiskOps.Joint

open RiskOps.Lib.PyJson
open RiskOps.Lib (Str run run_preserves bind_eq_ok)
open RiskOps.JointEvidence (isIdentifier isLowerHex isIp ip Digest isIdentifier_chars
  toNat_lt_of_isLowerHex Checked.digest_chars)

/-! ### Plain text -/

/-- ASCII text of a limited length. -/
structure PlainText (limit : Nat) (s : String) : Prop where
  chars : ∀ c ∈ s.toList, c.toNat < 127
  length : s.toList.length ≤ limit

variable {s : String}

theorem PlainText.codes {limit : Nat} (h : PlainText limit s) : ∀ c ∈ Str.ofString s, c < 127 := by
  intro c hc
  obtain ⟨d, hd, rfl⟩ := List.mem_map.mp hc
  exact h.chars d hd

theorem PlainText.weight {limit : Nat} (h : PlainText limit s) :
    strWeight (Str.ofString s) ≤ 6 * limit := by
  have hle := strWeight_le (Str.ofString s)
  have hsize : s.utf8ByteSize = s.toList.length := by
    have := JointEvidence.utf8ByteSize_ofList (s := s.toList) fun c hc =>
      Nat.lt_succ_of_lt (h.chars c hc)
    rwa [String.ofList_toList] at this
  have hlen := h.length
  rw [utf8Length_ofString] at hle
  omega

theorem plain_identity (h : isIdentity s = true) : PlainText 32 s := by
  simp only [isIdentity, Bool.and_eq_true, decide_eq_true_eq, List.all_eq_true] at h
  exact ⟨fun c hc => (toNat_lt_of_isLowerHex (h.2 c hc)).2, Nat.le_of_eq h.1⟩

theorem plain_digest (d : Digest) : PlainText 64 d.val := by
  obtain ⟨hlen, hchars⟩ := Checked.digest_chars d
  exact ⟨fun c hc => (toNat_lt_of_isLowerHex (hchars c hc)).2, Nat.le_of_eq hlen⟩

theorem plain_ip {raw : String} (h : ip raw = some s) : PlainText 40 s := by
  unfold ip at h
  split at h
  · rename_i hraw
    obtain ⟨a, hparse, rfl⟩ := Option.map_eq_some_iff.mp h
    have hzone := Lib.IpAddress.zone_eq_none hparse hraw.2.2
    refine ⟨fun c hc => ?_, ?_⟩
    · rw [String.toList_ofList] at hc
      exact (Lib.IpAddress.ascii_of_mem_toText hzone hc).2
    · rw [String.toList_ofList]
      exact Lib.IpAddress.length_toText_le hzone
  · cases h

theorem mem_lastDigits {width n : Nat} {c : Char} (h : c ∈ lastDigits width n) : c.toNat < 127 := by
  obtain ⟨i, -, rfl⟩ := List.mem_map.mp h
  have hall : ∀ d < 10, (Nat.digitChar d).toNat < 127 := by decide
  exact hall _ (Nat.mod_lt _ (by decide))

theorem length_lastDigits (width n : Nat) : (lastDigits width n).length = width := by
  simp [lastDigits]

theorem plain_isoMicros (t : Nat) : PlainText 27 (isoMicros t) := by
  unfold isoMicros
  refine ⟨fun c hc => ?_, ?_⟩
  · rw [String.toList_ofList] at hc
    simp only [List.mem_append, List.mem_cons] at hc
    have hmarks : ∀ c : Char, c = '-' ∨ c = 'T' ∨ c = ':' ∨ c = '.' ∨ c = 'Z' → c.toNat < 127 := by
      rintro c (rfl | rfl | rfl | rfl | rfl) <;> decide
    grind [mem_lastDigits]
  · rw [String.toList_ofList]
    simp [length_lastDigits]

/-- What `normalize_filters` returns is plain. -/
structure Filters.Plain (x : Filters) : Prop where
  ip : ∀ s, x.ip = some s → PlainText 40 s
  assetId : ∀ s, x.assetId = some s → PlainText 128 s
  state : ∀ s, x.state = some s → PlainText 16 s

theorem checkFilter_some {p : String → Bool} {raw : Option String}
    (h : checkFilter p raw = .ok (some s)) : raw = some s ∧ p s = true := by
  cases raw with
  | none => cases h
  | some t =>
    rw [checkFilter] at h
    split at h
    · rename_i hp
      obtain rfl := Option.some.inj (Except.ok.inj h)
      exact ⟨rfl, hp⟩
    · cases h

variable {x : Filters}

theorem normalizeFilters_plain {fromisoformat : String → Option IsoTime}
    {filters : Option (List (Str × Value))} (h : normalizeFilters fromisoformat filters = .ok x) :
    x.Plain := by
  unfold normalizeFilters at h
  simp only at h
  split at h
  · cases h
  · simp only [bind_eq_ok] at h
    obtain ⟨rawIp, -, address, hip, rawAsset, -, assetId, hasset, rawState, -, state, hstate, rawStart,
      -, start, -, rawStop, -, stop, -, hresult⟩ := h
    split at hresult
    · cases hresult
    · obtain rfl := Except.ok.inj hresult
      refine ⟨fun s hs => ?_, fun s hs => ?_, fun s hs => ?_⟩
      · simp only at hs
        subst hs
        cases rawIp with
        | none => cases hip
        | some raw =>
          rw [normalizeIp] at hip
          split at hip
          · rename_i text htext
            obtain rfl := Option.some.inj (Except.ok.inj hip)
            exact plain_ip htext
          · cases hip
      · simp only at hs
        subst hs
        obtain ⟨rfl, hcheck⟩ := checkFilter_some hasset
        obtain ⟨hchars, -, hlen⟩ := isIdentifier_chars hcheck
        exact ⟨hchars, hlen⟩
      · simp only at hs
        subst hs
        obtain ⟨rfl, hcheck⟩ := checkFilter_some hstate
        have hall : caseStates.all (fun s =>
            s.toList.all (fun c => c.toNat < 127) && s.toList.length ≤ 16) = true := by decide +kernel
        have hs := List.all_eq_true.mp hall s (List.contains_iff_mem.mp hcheck)
        simp only [Bool.and_eq_true, List.all_eq_true, decide_eq_true_eq] at hs
        exact ⟨hs.1, hs.2⟩

/-! ### The text of a token -/

/-- Every string of the value is ASCII. -/
def Ascii (v : Value) : Prop := ∀ c ∈ codes v, c < 127

theorem ascii_obj {ms : List (Str × Value)}
    (h : ∀ m ∈ ms, (∀ c ∈ m.1, c < 127) ∧ Ascii m.2) : Ascii (.obj ms) := by
  intro c hc
  obtain ⟨m, hm, hmem⟩ := mem_codesMembers.mp hc
  rcases hmem with hkey | hvalue
  · exact (h m hm).1 c hkey
  · exact (h m hm).2 c hvalue

theorem PlainText.ascii {limit : Nat} (h : PlainText limit s) :
    Ascii (.str (Str.ofString s)) := h.codes

theorem ascii_int (n : Int) : Ascii (.int n) := fun _ hc => by cases hc

theorem ascii_optional {limit : Nat} {s : Option String} (h : ∀ t, s = some t → PlainText limit t) :
    Ascii (optionalValue s) := by
  cases s with
  | none => exact fun _ hc => by cases hc
  | some s => exact (h s rfl).ascii

/-- What a query and a file print in a token is plain. -/
structure TokenPlain (q : CaseQuery) (f : StoreFile) (x : Filters) : Prop where
  storeId : PlainText 32 f.storeId
  queryEpoch : PlainText 32 f.queryEpoch
  filters : x.Plain

theorem plain_stop (t : Option Nat) (s : String) (h : t.map isoMicros = some s) : PlainText 27 s := by
  obtain ⟨n, -, rfl⟩ := Option.map_eq_some_iff.mp h
  exact plain_isoMicros n

theorem ascii_members (h : x.Plain) : Ascii (.obj x.members) := by
  refine ascii_obj ?_
  simp only [Filters.members, List.forall_mem_cons, List.not_mem_nil, false_implies, implies_true,
    and_true]
  exact ⟨⟨by decide, ascii_optional h.assetId⟩, ⟨by decide, ascii_optional (plain_stop x.stop)⟩,
    ⟨by decide, ascii_optional h.ip⟩, ⟨by decide, ascii_optional (plain_stop x.start)⟩,
    by decide, ascii_optional h.state⟩

variable {q : CaseQuery} {f : StoreFile}

theorem TokenPlain.ascii (h : TokenPlain q f x) (generation : Nat) :
    Ascii (tokenValue q f x generation) := by
  refine ascii_obj ?_
  simp only [List.forall_mem_cons, List.not_mem_nil, false_implies, implies_true, and_true]
  exact ⟨⟨by decide, ascii_members h.filters⟩, ⟨by decide, ascii_int _⟩,
    ⟨by decide, h.queryEpoch.ascii⟩, ⟨by decide, ascii_int _⟩, ⟨by decide, (plain_digest q.scopeSha).ascii⟩,
    ⟨by decide, h.storeId.ascii⟩, by decide, ascii_int _⟩

theorem memberKeys_nodup (x : Filters) : (x.members.map Prod.fst).Nodup := by
  have hkeys : (["asset_id", "end", "ip", "start", "state"].map Str.ofString).Nodup := by decide
  exact hkeys

theorem readable_int {n : Nat} (h : n < 10 ^ 19) : Readable (.int n) := by
  have hlen : (digitCodes n).length ≤ 19 := by
    rw [digitCodes, List.length_map]
    exact (Nat.length_toDigits_le_iff (by omega) (by omega)).mpr h
  exact hlen.trans (by decide)

theorem readable_members (x : Filters) : Readable (.obj x.members) := by
  rw [Readable, readableMembers_iff]
  refine ⟨memberKeys_nodup x, ?_⟩
  have hoptional : ∀ s, Readable (optionalValue s) := by
    intro s
    cases s <;> exact trivial
  simp only [Filters.members, List.forall_mem_cons, List.not_mem_nil, false_implies, implies_true,
    and_true]
  exact ⟨hoptional _, hoptional _, hoptional _, hoptional _, hoptional _⟩

def tokenKeys : List String :=
  ["filters", "generation", "query_epoch", "schema", "scope", "store_id", "version"]

variable {generation : Nat}

theorem readable_tokenValue (q : CaseQuery) (f : StoreFile) (x : Filters) (h : generation < 10 ^ 19) :
    Readable (tokenValue q f x generation) := by
  have hkeys : (tokenKeys.map Str.ofString).Nodup := by decide
  rw [tokenValue, Readable, readableMembers_iff]
  refine ⟨hkeys, ?_⟩
  simp only [List.forall_mem_cons, List.not_mem_nil, false_implies, implies_true, and_true]
  exact ⟨readable_members x, readable_int h, trivial, readable_int (by decide), trivial, trivial,
    readable_int (by decide)⟩

/-! ### A token is read back -/

theorem nesting_members (x : Filters) : nesting (.obj x.members) = 1 := by
  have hoptional : ∀ s, nesting (optionalValue s) = 0 := by
    intro s
    cases s <;> rfl
  simp [nesting, nestingMembers, Filters.members, hoptional]

theorem nesting_tokenValue (q : CaseQuery) (f : StoreFile) (x : Filters) (generation : Nat) :
    nesting (tokenValue q f x generation) ≤ decodeDepth := by
  have h := nesting_members x
  simp [tokenValue, nesting, nestingMembers, decodeDepth] at h ⊢
  omega

theorem sortMembers_members (x : Filters) : sortMembers x.members = x.members := by
  have hoptional : ∀ s, sortKeys (optionalValue s) = optionalValue s := by
    intro s
    cases s <;> rfl
  simp [Filters.members, sortMembers, hoptional]

/-- The keys are in their order already. -/
theorem sortKeys_obj {ms : List (Str × Value)} (hvalues : sortMembers ms = ms)
    (hkeys : (ms.map Prod.fst).Pairwise (· ≤ ·)) : sortKeys (.obj ms) = .obj ms := by
  rw [sortKeys, hvalues]
  exact congrArg Value.obj (List.pairwise_map.mp hkeys).insertionSort_eq

theorem sortKeys_tokenValue (q : CaseQuery) (f : StoreFile) (x : Filters) (generation : Nat) :
    sortKeys (tokenValue q f x generation) = tokenValue q f x generation := by
  have hfilters : sortKeys (.obj x.members) = .obj x.members := by
    refine sortKeys_obj (sortMembers_members x) ?_
    have hkeys : (["asset_id", "end", "ip", "start", "state"].map Str.ofString).Pairwise (· ≤ ·) := by
      decide
    exact hkeys
  refine sortKeys_obj ?_ ?_
  · simp only [sortMembers, hfilters]
    rfl
  · have hkeys : (tokenKeys.map Str.ofString).Pairwise (· ≤ ·) := by decide
    exact hkeys

/-! ### How long a token is -/

theorem textBound_optional {limit : Nat} {s : Option String}
    (h : ∀ t, s = some t → PlainText limit t) : textBound (optionalValue s) ≤ 6 * limit + 4 := by
  cases s with
  | none => simp [optionalValue, textBound]
  | some s =>
    have := (h s rfl).weight
    simp only [optionalValue, textBound]
    omega

theorem TokenPlain.bound (h : TokenPlain q f x) (hgeneration : generation < 10 ^ 19) :
    textBound (tokenValue q f x generation) ≤ 3000 := by
  have hint := length_dumpInt_le (n := (generation : Int)) (k := 19)
    ⟨Int.natCast_nonneg _, by exact_mod_cast hgeneration⟩ (by decide)
  have hasset := textBound_optional h.filters.assetId
  have hstop := textBound_optional (plain_stop x.stop)
  have hip := textBound_optional h.filters.ip
  have hstart := textBound_optional (plain_stop x.start)
  have hstate := textBound_optional h.filters.state
  have hepoch := h.queryEpoch.weight
  have hstore := h.storeId.weight
  have hscope := (plain_digest q.scopeSha).weight
  have hkey : ∀ key ∈ tokenKeys ++ ["asset_id", "end", "ip", "start", "state"],
      strWeight (Str.ofString key) ≤ 11 := by decide
  simp only [tokenKeys, List.cons_append, List.nil_append, List.forall_mem_cons, List.not_mem_nil,
    false_implies, implies_true, and_true] at hkey
  obtain ⟨h₁, h₂, h₃, h₄, h₅, h₆, h₇, h₈, h₉, h₁₀, h₁₁, h₁₂⟩ := hkey
  have hone : (dumpInt 1).length = 1 := rfl
  have htwo : (dumpInt 2).length = 1 := rfl
  simp only [tokenValue, textBound, membersBound, Filters.members, hone, htwo]
  omega

theorem TokenPlain.length (h : TokenPlain q f x) (hgeneration : generation < 10 ^ 19) :
    (tokenText (tokenValue q f x generation)).length ≤ 4096 := by
  have hbound := h.bound hgeneration
  have hlen := length_dumpsAscii_le (tokenValue q f x generation)
  rw [tokenText, Lib.Base64.length_encode]
  omega

/-! ### When a token is accepted -/

theorem equalsText_str {t : String} : equalsText s (.str (Str.ofString t)) = true ↔ t = s := by
  simp only [equalsText, decide_eq_true_eq]
  constructor
  · intro h
    refine String.toList_injective ?_
    refine List.map_injective_iff.mpr (fun a b hab => ?_) h
    exact Char.ext (UInt32.toNat_inj.mp hab)
  · rintro rfl
    rfl

theorem equalsOptional_value {s t : Option String} :
    equalsOptional s (optionalValue t) = true ↔ t = s := by
  cases s with
  | none => cases t <;> simp [equalsOptional, optionalValue]
  | some s =>
    cases t with
    | none => simp [equalsOptional, optionalValue, equalsText]
    | some t => simp [equalsOptional, optionalValue, equalsText_str]

/-- The values of the normalised filters. -/
def Filters.texts (x : Filters) : List (Option String) :=
  [x.assetId, x.stop.map isoMicros, x.ip, x.start.map isoMicros, x.state]

/-- The filters are those that were printed. -/
theorem Filters.equals_members {y : Filters} :
    x.equals (.obj y.members) = true ↔ y.texts = x.texts := by
  have h₁ : item (.obj y.members) "asset_id" = some (optionalValue y.assetId) := rfl
  have h₂ : item (.obj y.members) "end" = some (optionalValue (y.stop.map isoMicros)) := rfl
  have h₃ : item (.obj y.members) "ip" = some (optionalValue y.ip) := rfl
  have h₄ : item (.obj y.members) "start" = some (optionalValue (y.start.map isoMicros)) := rfl
  have h₅ : item (.obj y.members) "state" = some (optionalValue y.state) := rfl
  have hlen : decide (y.members.length = 5) = true := rfl
  simp only [Filters.equals, hlen, h₁, h₂, h₃, h₄, h₅, Option.any_some, Bool.true_and,
    Bool.and_eq_true, equalsOptional_value]
  simp only [Filters.texts, List.cons.injEq, and_true]
  tauto

/-- **What a token binds.** -/
theorem checkToken_tokenValue {q' : CaseQuery} {f' : StoreFile} {x' : Filters} :
    checkToken q' f' x' (tokenValue q f x generation) =
      if f.storeId = f'.storeId ∧ f.queryEpoch = f'.queryEpoch ∧ q.scopeSha.val = q'.scopeSha.val ∧
          x.texts = x'.texts ∧ generation ≤ f'.store.counters.committedGeneration then
        some generation
      else none := by
  have h₁ : item (tokenValue q f x generation) "version" = some (.int 1) := rfl
  have h₂ : item (tokenValue q f x generation) "schema" = some (.int 2) := rfl
  have h₃ : item (tokenValue q f x generation) "store_id" =
    some (.str (Str.ofString f.storeId)) := rfl
  have h₄ : item (tokenValue q f x generation) "query_epoch" =
    some (.str (Str.ofString f.queryEpoch)) := rfl
  have h₅ : item (tokenValue q f x generation) "scope" =
    some (.str (Str.ofString q.scopeSha.val)) := rfl
  have h₆ : item (tokenValue q f x generation) "filters" = some (.obj x.members) := rfl
  have h₇ : item (tokenValue q f x generation) "generation" = some (.int (.ofNat generation)) := rfl
  unfold checkToken
  split
  · rename_i ms hms
    have hlen : decide (ms.length = 7) = true := by
      rw [show ms = _ from (Value.obj.inj hms).symm]
      rfl
    rw [h₁, h₂, h₃, h₄, h₅, h₆, h₇, hlen]
    have hone : equalsInt 1 (.int 1) = true := rfl
    have htwo : equalsInt 2 (.int 2) = true := rfl
    simp only [Option.any_some, hone, htwo, Bool.true_and, Bool.and_eq_true, equalsText_str,
      Filters.equals_members]
    by_cases hbound : f.storeId = f'.storeId ∧ f.queryEpoch = f'.queryEpoch ∧
        q.scopeSha.val = q'.scopeSha.val ∧ x.texts = x'.texts
    · obtain ⟨hstore, hepoch, hscope, hfilters⟩ := hbound
      simp [hstore, hepoch, hscope, hfilters]
    · rw [if_neg (fun h => hbound ⟨h.1.1.1, h.1.1.2, h.1.2, h.2⟩),
        if_neg (fun h => hbound ⟨h.1, h.2.1, h.2.2.1, h.2.2.2.1⟩)]
  · rename_i hne
    exact absurd rfl (hne _)

/-- The printed token is plain. -/
theorem TokenPlain.dumped (h : TokenPlain q f x) (hgeneration : generation < 10 ^ 19) :
    ∀ c ∈ dumpsAscii (tokenValue q f x generation), c < 127 := by
  have hreadable := readable_tokenValue q f x hgeneration
  intro c hc
  rw [dumpsAscii_eq hreadable (h.ascii generation)] at hc
  rcases mem_dumps _ hreadable hc with hplain | ⟨hcode, -⟩
  · exact hplain.2
  · exact h.ascii generation c hcode

theorem TokenPlain.text (h : TokenPlain q f x) (hgeneration : generation < 10 ^ 19) :
    ∀ c ∈ tokenText (tokenValue q f x generation), c < 128 := fun c hc =>
  Nat.lt_trans (Lib.Base64.encode_plain
    (fun d hd => Nat.lt_trans (h.dumped hgeneration d hd) (by decide)) c hc).2 (by decide)

/-- **A token that was handed out** is accepted with the same filters, store, query epoch and
scope, and with no others. -/
theorem readToken_tokenText {q q' : CaseQuery} {f f' : StoreFile} {x x' : Filters}
    (h : TokenPlain q f x) {generation : Nat} (hgeneration : generation < 10 ^ 19) :
    readToken q' f' x' (tokenText (tokenValue q f x generation)) =
      if f.storeId = f'.storeId ∧ f.queryEpoch = f'.queryEpoch ∧ q.scopeSha.val = q'.scopeSha.val ∧
          x.texts = x'.texts ∧ generation ≤ f'.store.counters.committedGeneration then
        some (tokenValue q f x generation, generation)
      else none := by
  have hplain := h.dumped hgeneration
  have hdecode := Lib.Base64.decode_encode fun c hc => Nat.lt_trans (hplain c hc) (by decide)
  have hloads := @loads_dumpsAscii decodeDepth _ (readable_tokenValue q f x hgeneration)
    (h.ascii generation) (nesting_tokenValue q f x generation)
  have htext : (tokenText (tokenValue q f x generation)).length ≤ 4096 ∧
      ∀ c ∈ tokenText (tokenValue q f x generation), c < 128 :=
    ⟨h.length hgeneration, h.text hgeneration⟩
  unfold readToken
  rw [guard, if_pos htext]
  simp only [tokenText, hdecode, bind, Option.bind, pure]
  rw [guard, if_pos (fun c hc => Nat.lt_trans (hplain c hc) (by decide))]
  simp only [pure, hloads]
  rw [checkToken_tokenValue]
  split_ifs
  · simp [sortKeys_tokenValue, guard]
  · rfl

end RiskOps.Joint
