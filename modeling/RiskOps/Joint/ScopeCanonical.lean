import RiskOps.Joint.ReaderSpec
import RiskOps.Joint.Scope
import RiskOps.Lib.PyCodec

/-!
# RiskOps.Joint.ScopeCanonical — one text for each scope

**A scope is read back from its text, and no other text is read as it.** Each constructor has one
lemma that says what it accepts and builds (`NetworkBinding.init_eq_ok`, `AssetMapping.init_eq_ok`).
Two things follow: a constructor applied to the fields of what it has built builds the same again,
so the dict of a part is read as that part (`readBinding_asDict`), and the order its tuples come in
does not matter, at any level (`ScopeFields.build_same`).
-/

namespace RiskOps.JointEvidence

open RiskOps.Lib
open RiskOps.Lib.PyJson (Printable canonicalLoads dumpsAscii sortKeys sortedMembers sortKeys_obj)

/-! ### What the constructors build -/

variable {α : Type}

theorem orRefuse_eq_ok {code : String} {x : Option α} {a : α} :
    orRefuse code x = .ok a ↔ x = some a := by
  cases x with
  | none => simp [orRefuse]
  | some b => simp [orRefuse]

theorem readAll_eq_ok {read : String → Except String α} {values : List String}
    {items : { items : List α // items.length = values.length }} :
    readAll read values = .ok items ↔
      List.Forall₂ (fun value item => read value = .ok item) values items.val := by
  induction values with
  | nil =>
    obtain ⟨items, hlen⟩ := items
    obtain rfl := List.length_eq_zero_iff.mp hlen
    simp [readAll]
  | cons value values ih =>
    obtain ⟨items, hlen⟩ := items
    obtain ⟨item, items, rfl⟩ := List.exists_cons_of_length_eq_add_one hlen
    have hlen' : items.length = values.length := Nat.succ.inj hlen
    rw [List.forall₂_cons, ← @ih ⟨items, hlen'⟩, readAll]
    cases hread : read value with
    | error code => simp
    | ok first =>
      cases hrest : readAll read values with
      | error code => simp
      | ok rest =>
        obtain ⟨rest, hrestlen⟩ := rest
        simp

/-- What `NetworkBinding(…)` accepts, and what it builds. -/
theorem NetworkBinding.init_eq_ok {sourceId : String}
    {destinationIps profileRevisions : List String} {b : NetworkBinding} :
    NetworkBinding.init sourceId destinationIps profileRevisions = .ok b ↔
      identifier sourceId = .ok b.sourceId ∧
      (1 ≤ destinationIps.length ∧ destinationIps.length ≤ 32) ∧
      (1 ≤ profileRevisions.length ∧ profileRevisions.length ≤ 32) ∧
      ∃ (destinations : List Ip) (profiles : List Digest),
        List.Forall₂ (fun value item => address value = .ok item) destinationIps destinations ∧
        List.Forall₂ (fun value item => profile value = .ok item) profileRevisions profiles ∧
        (texts destinations).Nodup ∧ (texts profiles).Nodup ∧
        b.destinationIps = sortTexts destinations ∧
        b.profileRevisions = sortTexts profiles := by
  constructor
  · intro h
    unfold NetworkBinding.init at h
    obtain ⟨source, hsource, h⟩ := bind_eq_ok.mp h
    split at h
    · rename_i hd
      obtain ⟨destinations, hdestinations, h⟩ := bind_eq_ok.mp h
      split at h
      · rename_i hp
        obtain ⟨profiles, hprofiles, h⟩ := bind_eq_ok.mp h
        split at h
        · rename_i hn
          obtain rfl := Except.ok.inj h
          exact ⟨hsource, hd, hp, destinations.val, profiles.val, (readAll_eq_ok).mp hdestinations,
            Iff.mp readAll_eq_ok hprofiles, hn.1, hn.2, rfl, rfl⟩
        · cases h
      · cases h
    · cases h
  · rintro ⟨hsource, hd, hp, destinations, profiles, hdestinations, hprofiles, hdn, hpn, hb, hb'⟩
    have hdr : readAll address destinationIps = .ok ⟨destinations, hdestinations.length_eq.symm⟩ :=
      Iff.mpr readAll_eq_ok hdestinations
    have hpr : readAll profile profileRevisions = .ok ⟨profiles, hprofiles.length_eq.symm⟩ :=
      Iff.mpr readAll_eq_ok hprofiles
    unfold NetworkBinding.init
    refine bind_eq_ok.mpr ⟨b.sourceId, hsource, ?_⟩
    rw [dif_pos hd]
    refine bind_eq_ok.mpr ⟨_, hdr, ?_⟩
    rw [dif_pos hp]
    refine bind_eq_ok.mpr ⟨_, hpr, ?_⟩
    rw [dif_pos ⟨hdn, hpn⟩]
    cases b
    simp only at hb hb'
    subst hb hb'
    rfl

/-- What `AssetMapping(…)` accepts, and what it builds. -/
theorem AssetMapping.init_eq_ok {assetId : String} {sshSourceIds : List String}
    {networkBindings : List NetworkBinding} {m : AssetMapping} :
    AssetMapping.init assetId sshSourceIds networkBindings = .ok m ↔
      identifier assetId = .ok m.assetId ∧
      (1 ≤ sshSourceIds.length ∧ sshSourceIds.length ≤ 16) ∧
      (1 ≤ networkBindings.length ∧ networkBindings.length ≤ 16) ∧
      ∃ sources : List Identifier,
        List.Forall₂ (fun value item => identifier value = .ok item) sshSourceIds sources ∧
        (texts sources).Nodup ∧
        (networkBindings.map fun b => b.sourceId.val).Nodup ∧
        m.sshSourceIds = sortTexts sources ∧
        m.networkBindings = sortBy (fun b => b.sourceId.val) networkBindings := by
  constructor
  · intro h
    unfold AssetMapping.init at h
    obtain ⟨asset, hasset, h⟩ := bind_eq_ok.mp h
    split at h
    · rename_i hs
      obtain ⟨sources, hsources, h⟩ := bind_eq_ok.mp h
      split at h
      · rename_i hb
        split at h
        · rename_i hn
          obtain rfl := Except.ok.inj h
          exact ⟨hasset, hs, hb, sources.val, Iff.mp readAll_eq_ok hsources, hn.1, hn.2, rfl, rfl⟩
        · cases h
      · cases h
    · cases h
  · rintro ⟨hasset, hs, hb, sources, hsources, hsn, hbn, hm, hm'⟩
    have hsr : readAll identifier sshSourceIds = .ok ⟨sources, hsources.length_eq.symm⟩ :=
      Iff.mpr readAll_eq_ok hsources
    unfold AssetMapping.init
    refine bind_eq_ok.mpr ⟨m.assetId, hasset, ?_⟩
    rw [dif_pos hs]
    refine bind_eq_ok.mpr ⟨_, hsr, ?_⟩
    rw [dif_pos hb, dif_pos ⟨hsn, hbn⟩]
    cases m
    simp only at hm hm'
    subst hm hm'
    rfl

/-! ### Building again -/

theorem identifier_val (i : Identifier) : identifier i.val = .ok i := by
  rw [identifier, Checked.of?_val]
  rfl

theorem address_val (a : Ip) : address a.val = .ok a := by
  rw [address, Ip.read_val]
  rfl

theorem profile_val (d : Digest) : profile d.val = .ok d := by
  rw [profile, Checked.of?_val]
  rfl

theorem forall₂_texts {p : String → Bool} {read : String → Except String (Checked p)}
    (h : ∀ a, read a.val = .ok a) (items : List (Checked p)) :
    List.Forall₂ (fun value item => read value = .ok item) (texts items) items := by
  rw [texts, List.forall₂_map_left_iff]
  exact List.forall₂_same.mpr fun a _ => h a

theorem length_texts {p : String → Bool} (items : List (Checked p)) :
    (texts items).length = items.length := List.length_map _

theorem NetworkBinding.init_fields (b : NetworkBinding) :
    NetworkBinding.init b.sourceId.val (texts b.destinationIps)
      (texts b.profileRevisions) = .ok b := by
  refine Iff.mpr NetworkBinding.init_eq_ok ⟨identifier_val _, ?_, ?_, b.destinationIps,
    b.profileRevisions, forall₂_texts address_val _, forall₂_texts profile_val _,
    nodup_of_sorted b.destinations_sorted, nodup_of_sorted b.profiles_sorted,
    (sortBy_eq_self b.destinations_sorted).symm, (sortBy_eq_self b.profiles_sorted).symm⟩
  · rw [length_texts]
    exact b.destinations_length
  · rw [length_texts]
    exact b.profiles_length

theorem AssetMapping.init_fields (m : AssetMapping) :
    AssetMapping.init m.assetId.val (texts m.sshSourceIds) m.networkBindings = .ok m := by
  refine Iff.mpr AssetMapping.init_eq_ok ⟨identifier_val _, ?_, m.bindings_length, m.sshSourceIds,
    forall₂_texts identifier_val _, nodup_of_sorted m.sources_sorted,
    nodup_of_sorted m.bindings_sorted, (sortBy_eq_self m.sources_sorted).symm,
    (sortBy_eq_self m.bindings_sorted).symm⟩
  rw [length_texts]
  exact m.sources_length

/-! ### Reading what was printed -/

theorem encode_ofString (s : String) : Str.encode (Str.ofString s) = some s := by
  rw [Str.encode, if_pos (Str.encodable_ofString s), Str.ofString, List.map_map]
  have hid : s.toList.map (Char.ofNat ∘ Char.toNat) = s.toList :=
    (List.map_congr_left fun c _ => Char.ofNat_toNat c).trans (List.map_id _)
  rw [hid, String.ofList_toList]

theorem textOf_textValue (s : String) : textOf (textValue s) = some s := encode_ofString s

theorem sortKeys_textValue (s : String) : sortKeys (textValue s) = textValue s := by
  rw [textValue, sortKeys]
  all_goals simp

theorem sortKeys_int (n : Int) : sortKeys (.int n) = .int n := by
  rw [sortKeys]
  all_goals simp

theorem mapM_map {β : Type} {read : β → Option α} {write : α → β} (h : ∀ a, read (write a) = some a)
    (items : List α) : (items.map write).mapM read = some items := by
  induction items with
  | nil => rfl
  | cons a items ih => simp [List.mapM_cons, h, ih]

theorem sortKeys_textsValue (ss : List String) : sortKeys (textsValue ss) = textsValue ss := by
  rw [textsValue, sortKeys, PyJson.sortItems_eq_map, List.map_map]
  rfl

theorem textsOf_textsValue (ss : List String) : textsOf (textsValue ss) = some ss :=
  mapM_map textOf_textValue ss

/-- The items of a list are printed one by one. -/
theorem listOf_sortKeys (write : α → PyJson.Value) (items : List α) :
    listOf (sortKeys (.arr (items.map write))) = some (items.map fun a => sortKeys (write a)) := by
  rw [sortKeys, PyJson.sortItems_eq_map, List.map_map]
  rfl

variable {v : PyJson.Value}

section Members

variable {names : List String} {ms : List (Str × PyJson.Value)}

theorem keysAre_sortedMembers (h : ms.map Prod.fst = names.map Str.ofString) :
    keysAre names (.obj (sortedMembers ms)) = some (sortedMembers ms) := by
  have hperm := PyJson.keys_sortedMembers ms
  rw [h] at hperm
  refine if_pos ⟨fun m hm => hperm.mem_iff.mp (List.mem_map_of_mem hm), fun key hkey => ?_⟩
  exact hperm.mem_iff.mpr hkey

theorem memberAt_sortedMembers (hnodup : (ms.map Prod.fst).Nodup) {key : String}
    (h : memberAt ms key = some v) : memberAt (sortedMembers ms) key = some (sortKeys v) :=
  PyJson.lookup_sortedMembers hnodup h

end Members

theorem readBinding_asDict (b : NetworkBinding) : readBinding (sortKeys b.asDict) = some b := by
  have hnames : b.members.map Prod.fst = bindingNames.map Str.ofString := rfl
  have hnodup : (b.members.map Prod.fst).Nodup := by
    rw [hnames]
    decide
  have hsource : memberAt (sortedMembers b.members) "source_id"
      = some (sortKeys (textValue b.sourceId.val)) := memberAt_sortedMembers hnodup rfl
  have hdestinations : memberAt (sortedMembers b.members) "destination_ips"
      = some (sortKeys (textsValue (texts b.destinationIps))) := memberAt_sortedMembers hnodup rfl
  have hprofiles : memberAt (sortedMembers b.members) "profile_revisions"
      = some (sortKeys (textsValue (texts b.profileRevisions))) := memberAt_sortedMembers hnodup rfl
  rw [NetworkBinding.asDict, sortKeys_obj, readBinding, keysAre_sortedMembers hnames]
  simp only [bind, Option.bind_some, hsource, hdestinations, hprofiles, sortKeys_textsValue,
    textsOf_textsValue, sortKeys_textValue, textOf_textValue, NetworkBinding.init_fields]
  rfl

theorem readMapping_asDict (m : AssetMapping) : readMapping (sortKeys m.asDict) = some m := by
  have hnames : m.members.map Prod.fst = mappingNames.map Str.ofString := rfl
  have hnodup : (m.members.map Prod.fst).Nodup := by
    rw [hnames]
    decide
  have hasset : memberAt (sortedMembers m.members) "asset_id"
      = some (sortKeys (textValue m.assetId.val)) := memberAt_sortedMembers hnodup rfl
  have hsources : memberAt (sortedMembers m.members) "ssh_source_ids"
      = some (sortKeys (textsValue (texts m.sshSourceIds))) := memberAt_sortedMembers hnodup rfl
  have hbindings : memberAt (sortedMembers m.members) "network_bindings"
      = some (sortKeys (.arr (m.networkBindings.map NetworkBinding.asDict))) :=
    memberAt_sortedMembers hnodup rfl
  rw [AssetMapping.asDict, sortKeys_obj, readMapping, keysAre_sortedMembers hnames]
  simp only [bind, Option.bind_some, hasset, hsources, hbindings, sortKeys_textsValue,
    textsOf_textsValue, sortKeys_textValue, textOf_textValue, listOf_sortKeys,
    mapM_map readBinding_asDict, AssetMapping.init_fields]
  rfl

/-- The fields of a scope, as they are given to build it again. -/
def CaseScope.fields (s : CaseScope) : ScopeFields AssetMapping where
  mappings := s.mappings
  producerId := s.producerId.val
  windowSeconds := s.windowSeconds
  maxTimelineRecords := s.maxTimelineRecords
  sshCoverage := s.sshCoverage

/-- The keys of `to_dict`. -/
def scopeNames : List String :=
  ["version", "transformation_version", "projection_version", "policy_version", "reader_version",
    "scope", "ssh_evidence_scope", "producer_id", "mappings", "window_seconds",
    "max_timeline_records", "ssh_coverage"]

theorem CaseScope.nodup_members (s : CaseScope) : (s.members.map Prod.fst).Nodup := by
  have hnames : s.members.map Prod.fst = scopeNames.map Str.ofString := rfl
  rw [hnames]
  decide

theorem readFields_toDict (s : CaseScope) : readFields (sortKeys s.toDict) = some s.fields := by
  have hmappings : memberAt (sortedMembers s.members) "mappings"
      = some (sortKeys (.arr (s.mappings.map AssetMapping.asDict))) :=
    memberAt_sortedMembers s.nodup_members rfl
  have hcoverage : memberAt (sortedMembers s.members) "ssh_coverage"
      = some (sortKeys (textsValue s.sshCoverage)) := memberAt_sortedMembers s.nodup_members rfl
  have hproducer : memberAt (sortedMembers s.members) "producer_id"
      = some (sortKeys (textValue s.producerId.val)) := memberAt_sortedMembers s.nodup_members rfl
  have hwindow : memberAt (sortedMembers s.members) "window_seconds"
      = some (sortKeys (.int s.windowSeconds)) := memberAt_sortedMembers s.nodup_members rfl
  have hrecords : memberAt (sortedMembers s.members) "max_timeline_records"
      = some (sortKeys (.int s.maxTimelineRecords)) := memberAt_sortedMembers s.nodup_members rfl
  rw [CaseScope.toDict, sortKeys_obj, readFields]
  simp only [bind, Option.bind_some, hmappings, hcoverage, hproducer, hwindow, hrecords,
    sortKeys_textsValue, textsOf_textsValue, sortKeys_textValue, textOf_textValue, listOf_sortKeys,
    mapM_map readMapping_asDict, sortKeys_int, intOf]
  rfl

variable {s : CaseScope}

/-- What the checks on a scope accept, and what is built. -/
theorem CaseScope.checked_eq_some {f : ScopeFields AssetMapping} :
    CaseScope.checked f = some s ↔ validateMappings f.mappings = some s.mappings ∧
      Checked.of? isIdentifier f.producerId = some s.producerId ∧
      f.windowSeconds = s.windowSeconds ∧ f.maxTimelineRecords = s.maxTimelineRecords ∧
      f.sshCoverage.length ≤ 60 ∧ (∀ c ∈ f.sshCoverage, isCode c = true) ∧
      s.sshCoverage = sortedSet f.sshCoverage := by
  unfold CaseScope.checked
  constructor
  · intro h
    split at h
    · cases h
    · rename_i mappings hmappings
      split at h
      · cases h
      · rename_i producer hproducer
        split at h
        · rename_i hall
          obtain rfl := Option.some.inj h
          exact ⟨hmappings, hproducer, (Int.toNat_of_nonneg hall.1.1).symm,
            (Int.toNat_of_nonneg (by omega)).symm, hall.2.2.1, hall.2.2.2, rfl⟩
        · cases h
  · rintro ⟨hmappings, hproducer, hwindow, hrecords, hlen, hcodes, hcoverage⟩
    have hw := s.window_le
    have ht := s.timeline_range
    split
    · rename_i hnone
      cases hmappings.symm.trans hnone
    · rename_i mappings hsome
      obtain rfl := Option.some.inj (hmappings.symm.trans hsome)
      rw [hproducer]
      dsimp only
      rw [dif_pos ⟨⟨by omega, by omega⟩, ⟨by omega, by omega⟩, hlen, hcodes⟩]
      cases s
      simp only at hwindow hrecords hcoverage
      simp only [hwindow, hrecords, hcoverage, Int.toNat_natCast]

theorem CaseScope.checked_fields (s : CaseScope) : CaseScope.checked s.fields = some s :=
  Iff.mpr CaseScope.checked_eq_some ⟨s.mappings_valid, Checked.of?_val s.producerId, rfl, rfl,
    s.coverage_length, s.coverage_codes, s.coverage_sorted.symm⟩

/-! ### What is printed -/

/-- A text of characters that are printed as they are. -/
structure Verbatim (limit : Nat) (s : String) : Prop where
  chars : ∀ c ∈ s.toList, PyJson.isVerbatim c.toNat = true
  length_le : s.toList.length ≤ limit

variable {c : Char}

theorem isVerbatim_of_isAlnum (h : isAlnum c = true) : PyJson.isVerbatim c.toNat = true := by
  have hval : c.toNat = c.val.toNat := rfl
  have ha : ('a' : Char).val.toNat = 97 := rfl
  have hz : ('z' : Char).val.toNat = 122 := rfl
  have hA : ('A' : Char).val.toNat = 65 := rfl
  have hZ : ('Z' : Char).val.toNat = 90 := rfl
  have h0 : ('0' : Char).val.toNat = 48 := rfl
  have h9 : ('9' : Char).val.toNat = 57 := rfl
  simp only [isAlnum, Bool.or_eq_true, Bool.and_eq_true, decide_eq_true_eq, Char.le_def,
    UInt32.le_iff_toNat_le] at h
  simp only [PyJson.isVerbatim, Bool.and_eq_true, decide_eq_true_eq]
  omega

theorem isVerbatim_of_isLowerHex (h : isLowerHex c = true) : PyJson.isVerbatim c.toNat = true := by
  rw [isLowerHex, Bool.or_eq_true, Bool.and_eq_true, Bool.and_eq_true, decide_eq_true_eq,
    decide_eq_true_eq, decide_eq_true_eq, decide_eq_true_eq] at h
  refine isVerbatim_of_isAlnum ?_
  rcases h with h | h
  · simp [isAlnum, h.1, h.2]
  · have hz : c ≤ 'z' := h.2.trans (by decide)
    simp [isAlnum, h.1, hz]

theorem Identifier.verbatim (i : Identifier) : Verbatim 128 i.val := by
  refine ⟨?_, (isIdentifier_chars i.property).2.2⟩
  have h : isIdentifier i.val = true := i.property
  rw [isIdentifier] at h
  split at h
  · cases h
  · rename_i c cs hchars
    simp only [Bool.and_eq_true, decide_eq_true_eq, List.all_eq_true, Bool.or_eq_true] at h
    obtain ⟨⟨hc, -⟩, hcs⟩ := h
    rw [hchars]
    intro d hd
    rcases List.mem_cons.mp hd with rfl | hd
    · exact isVerbatim_of_isAlnum hc
    · rcases hcs d hd with (((hd | rfl) | rfl) | rfl) | rfl
      · exact isVerbatim_of_isAlnum hd
      all_goals decide

theorem Digest.verbatim (d : Digest) : Verbatim 64 d.val := by
  obtain ⟨hlen, hchars⟩ := Checked.digest_chars d
  exact ⟨fun c hc => isVerbatim_of_isLowerHex (hchars c hc), hlen.le⟩

theorem not_mem_toText {a : IpAddress} (h : a.zone = none) (hdigit : IpAddress.digitVal c = none)
    (hdot : c ≠ '.') (hcolon : c ≠ ':') : c ∉ a.toText := by
  cases a with
  | v4 n => exact IpAddress.not_mem_textV4 hdigit hdot
  | v6 n z =>
    rw [IpAddress.zone] at h
    subst h
    rw [IpAddress.toText, Option.map_none, Option.getD_none, List.append_nil]
    exact IpAddress.not_mem_textV6 hdigit hcolon

theorem Ip.verbatim (a : Ip) : Verbatim 40 a.val := by
  have h : ip a.val = some a.val := by
    have hp : isIp a.val = true := a.property
    simpa only [isIp, decide_eq_true_eq] using hp
  rw [ip] at h
  split at h
  · rename_i hbounds
    obtain ⟨addr, haddr, htext⟩ := Option.map_eq_some_iff.mp h
    have hzone := IpAddress.zone_eq_none haddr hbounds.2.2
    rw [← htext]
    refine ⟨fun c hc => ?_, by rw [String.toList_ofList]; exact IpAddress.length_toText_le hzone⟩
    rw [String.toList_ofList] at hc
    have hascii := IpAddress.ascii_of_mem_toText hzone hc
    have hquote : c ≠ '"' := by
      rintro rfl
      exact not_mem_toText hzone (by decide) (by decide) (by decide) hc
    have hslash : c ≠ '\\' := by
      rintro rfl
      exact not_mem_toText hzone (by decide) (by decide) (by decide) hc
    have hquote' : c.toNat ≠ 34 := fun heq => hquote (Char.ext (UInt32.toNat_inj.mp heq))
    have hslash' : c.toNat ≠ 92 := fun heq => hslash (Char.ext (UInt32.toNat_inj.mp heq))
    simp only [PyJson.isVerbatim, Bool.and_eq_true, decide_eq_true_eq]
    exact ⟨⟨⟨hascii.1, hascii.2⟩, hquote'⟩, hslash'⟩
  · cases h

theorem verbatim_of_isCode {s : String} (h : isCode s = true) : Verbatim 64 s := by
  have ha : ('a' : Char).val.toNat = 97 := rfl
  have hz : ('z' : Char).val.toNat = 122 := rfl
  have h0 : ('0' : Char).val.toNat = 48 := rfl
  have h9 : ('9' : Char).val.toNat = 57 := rfl
  unfold isCode at h
  split at h
  · cases h
  · rename_i c cs hchars
    simp only [Bool.and_eq_true, Bool.or_eq_true, decide_eq_true_eq, List.all_eq_true] at h
    obtain ⟨⟨⟨hlow, hhigh⟩, hlen⟩, hcs⟩ := h
    refine ⟨fun d hd => ?_, by rw [hchars, List.length_cons]; omega⟩
    rw [hchars] at hd
    rcases List.mem_cons.mp hd with rfl | hd
    · exact isVerbatim_of_isAlnum (by simp [isAlnum, hlow, hhigh])
    · rcases hcs d hd with (hd | hd) | rfl
      · exact isVerbatim_of_isAlnum (by simp [isAlnum, hd.1, hd.2])
      · exact isVerbatim_of_isAlnum (by simp [isAlnum, hd.1, hd.2])
      · decide

namespace Verbatim

variable {limit : Nat} {s : String} {ss : List String}

theorem codes (h : Verbatim limit s) : ∀ c ∈ Str.ofString s, PyJson.isVerbatim c = true := by
  intro c hc
  obtain ⟨d, hd, rfl⟩ := List.mem_map.mp hc
  exact h.chars d hd

theorem printable {depth : Nat} (h : Verbatim limit s) : Printable depth (textValue s) := by
  refine Printable.str fun c hc => ?_
  have hc' := h.codes c hc
  simp only [PyJson.isVerbatim, Bool.and_eq_true, decide_eq_true_eq] at hc'
  exact hc'.1.1.2

theorem bound (h : Verbatim limit s) : PyJson.textBound (textValue s) ≤ limit + 2 := by
  rw [textValue, PyJson.textBound, PyJson.strWeight_verbatim h.codes, Str.ofString, List.length_map]
  exact Nat.add_le_add_right h.length_le 2

end Verbatim

theorem printable_textsValue {depth limit : Nat} {ss : List String}
    (h : ∀ s ∈ ss, Verbatim limit s) : Printable (depth + 1) (textsValue ss) := by
  refine Printable.arr fun v hv => ?_
  obtain ⟨s, hs, rfl⟩ := List.mem_map.mp hv
  exact (h s hs).printable

theorem verbatim_texts {p : String → Bool} {limit : Nat} (h : ∀ x : Checked p, Verbatim limit x.val)
    (items : List (Checked p)) : ∀ s ∈ texts items, Verbatim limit s := by
  intro s hs
  obtain ⟨x, -, rfl⟩ := List.mem_map.mp hs
  exact h x

theorem NetworkBinding.printable (b : NetworkBinding) : Printable 2 b.asDict := by
  have hnames : b.members.map Prod.fst = bindingNames.map Str.ofString := rfl
  refine Printable.obj (by rw [hnames]; decide) (by rw [hnames]; decide) ?_
  simp only [NetworkBinding.members, member, List.forall_mem_cons, List.not_mem_nil, false_implies,
    implies_true, and_true]
  exact ⟨(Identifier.verbatim _).printable, printable_textsValue (verbatim_texts Ip.verbatim _),
    printable_textsValue (verbatim_texts Digest.verbatim _)⟩

theorem AssetMapping.printable (m : AssetMapping) : Printable 4 m.asDict := by
  have hnames : m.members.map Prod.fst = mappingNames.map Str.ofString := rfl
  refine Printable.obj (by rw [hnames]; decide) (by rw [hnames]; decide) ?_
  simp only [AssetMapping.members, member, List.forall_mem_cons, List.not_mem_nil, false_implies,
    implies_true, and_true]
  refine ⟨(Identifier.verbatim _).printable, printable_textsValue (verbatim_texts Identifier.verbatim _),
    Printable.arr fun v hv => ?_⟩
  obtain ⟨b, -, rfl⟩ := List.mem_map.mp hv
  exact b.printable

theorem CaseScope.printable (s : CaseScope) : Printable 6 s.toDict := by
  have hnames : s.members.map Prod.fst = scopeNames.map Str.ofString := rfl
  have hw := s.window_le
  have ht := s.timeline_range
  refine Printable.obj (by rw [hnames]; decide) (by rw [hnames]; decide) ?_
  simp only [CaseScope.members, member, List.forall_mem_cons, List.not_mem_nil, false_implies,
    implies_true, and_true]
  refine ⟨?_, ?_, ?_, ?_, ?_, ?_, ?_, (Identifier.verbatim _).printable,
    Printable.arr fun v hv => ?_, Printable.int (by omega), Printable.int (by omega),
    printable_textsValue fun c hc => verbatim_of_isCode (s.coverage_codes c hc)⟩
  rotate_left 7
  · obtain ⟨m, -, rfl⟩ := List.mem_map.mp hv
    exact m.printable
  all_goals exact Printable.str (by decide)

/-! ### How long a scope is -/

theorem textBound_textsValue {limit n : Nat} {ss : List String} (h : ∀ s ∈ ss, Verbatim limit s)
    (hlen : ss.length ≤ n) : PyJson.textBound (textsValue ss) ≤ n * (limit + 3) + 2 := by
  refine PyJson.textBound_arr_le (fun v hv => ?_) ((List.length_map textValue).trans_le hlen)
  obtain ⟨s, hs, rfl⟩ := List.mem_map.mp hv
  exact (h s hs).bound

theorem NetworkBinding.textBound_le (b : NetworkBinding) :
    PyJson.textBound b.asDict ≤ 3709 := by
  have hsource := (Identifier.verbatim b.sourceId).bound
  have hdestinations := textBound_textsValue (verbatim_texts Ip.verbatim b.destinationIps)
    ((length_texts _).trans_le b.destinations_length.2)
  have hprofiles := textBound_textsValue (verbatim_texts Digest.verbatim b.profileRevisions)
    ((length_texts _).trans_le b.profiles_length.2)
  have h₁ : PyJson.strWeight (Str.ofString "source_id") = 9 := by decide
  have h₂ : PyJson.strWeight (Str.ofString "destination_ips") = 15 := by decide
  have h₃ : PyJson.strWeight (Str.ofString "profile_revisions") = 17 := by decide
  simp only [NetworkBinding.asDict, NetworkBinding.members, member, PyJson.textBound.eq_7,
    PyJson.membersBound, h₁, h₂, h₃]
  omega

theorem AssetMapping.textBound_le (m : AssetMapping) : PyJson.textBound m.asDict ≤ 61642 := by
  have hasset := (Identifier.verbatim m.assetId).bound
  have hsources := textBound_textsValue (verbatim_texts Identifier.verbatim m.sshSourceIds)
    ((length_texts _).trans_le m.sources_length.2)
  have hbindings : PyJson.textBound (.arr (m.networkBindings.map NetworkBinding.asDict))
      ≤ 16 * (3709 + 1) + 2 := by
    refine PyJson.textBound_arr_le (fun v hv => ?_)
      ((List.length_map _).trans_le m.bindings_length.2)
    obtain ⟨b, -, rfl⟩ := List.mem_map.mp hv
    exact b.textBound_le
  have h₁ : PyJson.strWeight (Str.ofString "asset_id") = 8 := by decide
  have h₂ : PyJson.strWeight (Str.ofString "ssh_source_ids") = 14 := by decide
  have h₃ : PyJson.strWeight (Str.ofString "network_bindings") = 16 := by decide
  simp only [AssetMapping.asDict, AssetMapping.members, member, PyJson.textBound.eq_7,
    PyJson.membersBound, h₁, h₂, h₃]
  omega

theorem CaseScope.length_mappings (s : CaseScope) : s.mappings.length ≤ 64 := by
  have h := s.mappings_valid
  unfold validateMappings at h
  split at h
  · rename_i hall
    exact hall.2.1
  · cases h

/-- **No scope is too long**: the check on the size refuses nothing the other checks accept. -/
theorem CaseScope.length_toJson (s : CaseScope) : s.toJson.length ≤ scopeBytes := by
  have hmappings : PyJson.textBound (.arr (s.mappings.map AssetMapping.asDict))
      ≤ 64 * (61642 + 1) + 2 := by
    refine PyJson.textBound_arr_le (fun v hv => ?_) ((List.length_map _).trans_le s.length_mappings)
    obtain ⟨m, -, rfl⟩ := List.mem_map.mp hv
    exact m.textBound_le
  have hproducer := (Identifier.verbatim s.producerId).bound
  have hcoverage := textBound_textsValue (fun c hc => verbatim_of_isCode (s.coverage_codes c hc))
    s.coverage_length
  have hint : ∀ n : Nat, n ≤ 3600 → PyJson.textBound (.int n) ≤ 4 := fun n hn => by
    rw [PyJson.textBound]
    exact PyJson.length_dumpInt_le ⟨Int.natCast_nonneg n, by omega⟩ (by decide)
  have hwindow := hint s.windowSeconds s.window_le
  have hrecords := hint s.maxTimelineRecords (s.timeline_range.2.trans (by decide))
  have hconstants : ∀ text ∈ ["joint-case-scope-v1", "joint-case-retained-observation-v1",
      "joint-evidence-v1", "explicit-asset-peer-window-v1", "joint-retained-reader-v1",
      "explicit_registered_anchors_only", "retained_incident_evidence_only"],
      PyJson.textBound (textValue text) ≤ 36 := by decide
  have hkeys : ∀ key ∈ scopeNames, PyJson.strWeight (Str.ofString key) ≤ 22 := by decide
  simp only [scopeNames, List.forall_mem_cons, List.not_mem_nil, false_implies, implies_true,
    and_true] at hconstants hkeys
  have hbound := PyJson.length_canonical_le s.toDict
  simp only [CaseScope.toDict, CaseScope.members, member, PyJson.textBound.eq_7,
    PyJson.membersBound] at hbound
  refine hbound.trans ?_
  unfold scopeBytes
  omega

/-! ### The round trip -/

section RoundTrip

variable {repr : Str → Option Str}

theorem decode_dumpsAscii (h : Printable recursionLimit v) {maximum : Nat}
    (hne : dumpsAscii (sortKeys v) ≠ []) (hle : (dumpsAscii (sortKeys v)).length ≤ maximum)
    (code capacity : String) :
    decode repr (dumpsAscii (sortKeys v)) maximum code capacity = .ok (sortKeys v) := by
  rw [decode, if_neg hne, if_neg (Nat.not_lt.mpr hle), PyJson.canonicalLoads_dumpsAscii h]
  rfl

theorem dumpsAscii_obj_ne_nil (ms : List (Str × PyJson.Value)) :
    dumpsAscii (sortKeys (.obj ms)) ≠ [] := by
  rw [sortKeys_obj, dumpsAscii, PyJson.dumps, List.flatMap_cons]
  exact List.append_ne_nil_of_left_ne_nil (by decide) _

theorem CaseScope.init_eq_ok {f : ScopeFields AssetMapping} :
    CaseScope.init f = .ok s ↔ CaseScope.checked f = some s := by
  rw [CaseScope.init, orRefuse_eq_ok, Option.filter_eq_some_iff]
  exact and_iff_left (decide_eq_true s.length_toJson)

/-- **A scope is read back from its text.** -/
theorem CaseScope.fromJson_toJson (s : CaseScope) : CaseScope.fromJson repr s.toJson = .ok s := by
  have hdecode : decode repr s.toJson scopeBytes invalidRequest invalidRequest =
      .ok (sortKeys s.toDict) :=
    decode_dumpsAscii (s.printable.mono (by decide)) (dumpsAscii_obj_ne_nil s.members)
      s.length_toJson _ _
  have hinit : CaseScope.init s.fields = .ok s := Iff.mpr CaseScope.init_eq_ok s.checked_fields
  rw [CaseScope.fromJson, hdecode]
  dsimp only
  rw [readFields_toDict, Option.bind_some, hinit, Except.toOption, Option.filter_some,
    if_pos (decide_eq_true rfl)]
  rfl

/-- **No other text is read as a scope.** -/
theorem CaseScope.toJson_of_fromJson {raw : Str} (h : CaseScope.fromJson repr raw = .ok s) :
    raw = s.toJson := by
  unfold CaseScope.fromJson at h
  split at h
  · cases h
  · obtain ⟨-, htext⟩ := Option.filter_eq_some_iff.mp (orRefuse_eq_ok.mp h)
    exact (of_decide_eq_true htext).symm

/-! ### Limits -/

def StoreLimits.fields (l : StoreLimits) : LimitFields where
  registrationLimit := l.registrationLimit.val
  revisionLimit := l.revisionLimit.val
  payloadByteLimit := l.payloadByteLimit.val
  projectionByteLimit := l.projectionByteLimit.val
  metadataByteLimit := l.metadataByteLimit.val

theorem StoreLimits.init_fields (l : StoreLimits) : StoreLimits.init l.fields = .ok l := by
  simp only [StoreLimits.init, StoreLimits.fields, Bounded.of?_val, bind, Option.bind_some, pure]
  rfl

theorem StoreLimits.names (l : StoreLimits) :
    l.members.map Prod.fst = limitNames.map Str.ofString := rfl

theorem StoreLimits.nodup_members (l : StoreLimits) : (l.members.map Prod.fst).Nodup := by
  rw [l.names]
  decide

/-- A member of limits is a number of at most nine digits. -/
theorem StoreLimits.numbers (l : StoreLimits) :
    ∀ m ∈ l.members, ∃ n : Int, m.2 = .int n ∧ 0 ≤ n ∧ n < 10 ^ 9 := by
  have h₁ := l.registrationLimit.property
  have h₂ := l.revisionLimit.property
  have h₃ := l.payloadByteLimit.property
  have h₄ := l.projectionByteLimit.property
  have h₅ := l.metadataByteLimit.property
  simp only [StoreLimits.members, member, List.forall_mem_cons, List.not_mem_nil, false_implies,
    implies_true, and_true]
  exact ⟨⟨_, rfl, by omega⟩, ⟨_, rfl, by omega⟩, ⟨_, rfl, by omega⟩, ⟨_, rfl, by omega⟩,
    ⟨_, rfl, by omega⟩⟩

theorem StoreLimits.printable (l : StoreLimits) : Printable 1 (.obj l.members) := by
  refine Printable.obj l.nodup_members (by rw [l.names]; decide) fun m hm => ?_
  obtain ⟨n, hn, hlow, hhigh⟩ := l.numbers m hm
  rw [hn]
  exact Printable.int (by omega)

theorem StoreLimits.length_toJson (l : StoreLimits) : l.toJson.length ≤ 1024 := by
  have hkeys : ∀ key ∈ limitNames.map Str.ofString, PyJson.strWeight key ≤ 21 := by decide
  have hmembers : ∀ m ∈ l.members,
      PyJson.strWeight m.1 + 2 + 1 + PyJson.textBound m.2 + 1 ≤ 34 := fun m hm => by
    obtain ⟨n, hn, hrange⟩ := l.numbers m hm
    have hkey := hkeys m.1 (l.names ▸ List.mem_map_of_mem hm)
    have hlen := PyJson.length_dumpInt_le hrange (by decide)
    rw [hn, PyJson.textBound]
    omega
  have hsum := List.sum_le_card_nsmul _ 34 (List.forall_mem_map.mpr hmembers)
  have hbound := PyJson.length_canonical_le (.obj l.members)
  rw [PyJson.textBound, PyJson.membersBound_eq_sum] at hbound
  rw [List.length_map] at hsum
  have hcount : l.members.length = 5 := rfl
  rw [hcount] at hsum
  exact hbound.trans ((Nat.add_le_add_right hsum 2).trans (by decide))

theorem readLimitFields_sorted (l : StoreLimits) :
    readLimitFields (sortKeys (.obj l.members)) = some l.fields := by
  have h₁ : memberAt (sortedMembers l.members) "registration_limit"
      = some (sortKeys (.int l.registrationLimit.val)) := memberAt_sortedMembers l.nodup_members rfl
  have h₂ : memberAt (sortedMembers l.members) "revision_limit"
      = some (sortKeys (.int l.revisionLimit.val)) := memberAt_sortedMembers l.nodup_members rfl
  have h₃ : memberAt (sortedMembers l.members) "payload_byte_limit"
      = some (sortKeys (.int l.payloadByteLimit.val)) := memberAt_sortedMembers l.nodup_members rfl
  have h₄ : memberAt (sortedMembers l.members) "projection_byte_limit"
      = some (sortKeys (.int l.projectionByteLimit.val)) :=
    memberAt_sortedMembers l.nodup_members rfl
  have h₅ : memberAt (sortedMembers l.members) "metadata_byte_limit"
      = some (sortKeys (.int l.metadataByteLimit.val)) := memberAt_sortedMembers l.nodup_members rfl
  rw [sortKeys_obj, readLimitFields, keysAre_sortedMembers l.names]
  simp only [bind, Option.bind_some, h₁, h₂, h₃, h₄, h₅, sortKeys_int, intOf]
  rfl

/-- **Limits are read back from their text.** -/
theorem StoreLimits.fromJson_toJson (l : StoreLimits) :
    StoreLimits.fromJson repr l.toJson = .ok l := by
  have hdecode : decode repr l.toJson 1024 invalidRequest invalidRequest =
      .ok (sortKeys (.obj l.members)) :=
    decode_dumpsAscii (l.printable.mono (by decide)) (dumpsAscii_obj_ne_nil l.members)
      l.length_toJson _ _
  rw [StoreLimits.fromJson, hdecode]
  dsimp only
  rw [readLimitFields_sorted]
  exact l.init_fields

theorem keysAre_eq_some {names : List String} {ms : List (Str × PyJson.Value)}
    (h : keysAre names v = some ms) : v = .obj ms ∧
      ∀ key, key ∈ ms.map Prod.fst ↔ key ∈ names.map Str.ofString := by
  cases v with
  | obj members =>
    rw [keysAre] at h
    split_ifs at h with hkeys
    · cases h
      refine ⟨rfl, fun key => ⟨fun hkey => ?_, hkeys.2 key⟩⟩
      obtain ⟨m, hm, rfl⟩ := List.mem_map.mp hkey
      exact hkeys.1 m hm
  | _ => cases h

variable {n : Int}

theorem intOf_eq_some (h : intOf v = some n) : v = .int n := by
  cases v with
  | int m => exact congrArg PyJson.Value.int (Option.some.inj h)
  | _ => cases h

/-- A number that was read is the number under the key. -/
theorem lookup_of_intOf {ms : List (Str × PyJson.Value)} {key : String}
    (h : (memberAt ms key).bind intOf = some n) : ms.lookup (Str.ofString key) = some (.int n) := by
  obtain ⟨v, hv, hn⟩ := Option.bind_eq_some_iff.mp h
  rw [← intOf_eq_some hn]
  exact hv

/-- The members limits are read from. -/
theorem readLimitFields_eq_some {l : StoreLimits} (h : readLimitFields v = some l.fields) :
    ∃ ms, v = .obj ms ∧
      (∀ key, key ∈ ms.map Prod.fst ↔ key ∈ limitNames.map Str.ofString) ∧
      ∀ m ∈ l.members, ms.lookup m.1 = some m.2 := by
  unfold readLimitFields at h
  obtain ⟨ms, hms, h⟩ := Option.bind_eq_some_iff.mp h
  obtain ⟨n₁, h₁, h⟩ := Option.bind_eq_some_iff.mp h
  obtain ⟨n₂, h₂, h⟩ := Option.bind_eq_some_iff.mp h
  obtain ⟨n₃, h₃, h⟩ := Option.bind_eq_some_iff.mp h
  obtain ⟨n₄, h₄, h⟩ := Option.bind_eq_some_iff.mp h
  obtain ⟨n₅, h₅, h⟩ := Option.bind_eq_some_iff.mp h
  obtain ⟨rfl, rfl, rfl, rfl, rfl⟩ := LimitFields.mk.inj (Option.some.inj h)
  obtain ⟨rfl, hkeys⟩ := keysAre_eq_some hms
  refine ⟨ms, rfl, hkeys, ?_⟩
  simp only [StoreLimits.members, member, List.forall_mem_cons, List.not_mem_nil, false_implies,
    implies_true, and_true]
  exact ⟨lookup_of_intOf h₁, lookup_of_intOf h₂, lookup_of_intOf h₃, lookup_of_intOf h₄,
    lookup_of_intOf h₅⟩

theorem bounded_of?_eq_some {lo hi : Int} {b : Bounded lo hi} (h : Bounded.of? lo hi n = some b) :
    n = b.val := by
  unfold Bounded.of? at h
  split at h
  · exact congrArg Subtype.val (Option.some.inj h)
  · cases h

/-- Limits hold the numbers they are built from. -/
theorem StoreLimits.fields_of_init {f : LimitFields} {l : StoreLimits}
    (h : StoreLimits.init f = .ok l) : f = l.fields := by
  have hl := orRefuse_eq_ok.mp h
  obtain ⟨b₁, h₁, hl⟩ := Option.bind_eq_some_iff.mp hl
  obtain ⟨b₂, h₂, hl⟩ := Option.bind_eq_some_iff.mp hl
  obtain ⟨b₃, h₃, hl⟩ := Option.bind_eq_some_iff.mp hl
  obtain ⟨b₄, h₄, hl⟩ := Option.bind_eq_some_iff.mp hl
  obtain ⟨b₅, h₅, hl⟩ := Option.bind_eq_some_iff.mp hl
  obtain rfl := Option.some.inj hl
  cases f
  simp only at h₁ h₂ h₃ h₄ h₅
  simp only [StoreLimits.fields, bounded_of?_eq_some h₁, bounded_of?_eq_some h₂,
    bounded_of?_eq_some h₃, bounded_of?_eq_some h₄, bounded_of?_eq_some h₅]

/-- **No other text is read as limits.** -/
theorem StoreLimits.toJson_of_fromJson {raw : Str} {l : StoreLimits}
    (h : StoreLimits.fromJson repr raw = .ok l) : raw = l.toJson := by
  unfold StoreLimits.fromJson at h
  split at h
  · cases h
  · rename_i v hdecode
    split at h
    · cases h
    · rename_i f hread
      rw [StoreLimits.fields_of_init h] at hread
      obtain ⟨ms, rfl, hkeys, hlookup⟩ := readLimitFields_eq_some hread
      have hloads : canonicalLoads repr recursionLimit raw = some (.obj ms) := by
        unfold decode at hdecode
        split_ifs at hdecode
        exact orRefuse_eq_ok.mp hdecode
      have hnames : (ms.map Prod.fst).Perm (l.members.map Prod.fst) := by
        refine (List.perm_ext_iff_of_nodup (PyJson.nodup_of_canonicalLoads hloads)
          l.nodup_members).mpr fun key => ?_
        rw [l.names]
        exact hkeys key
      have hperm := PyJson.perm_of_lookup_eq l.nodup_members hnames hlookup
      have hfloats : PyJson.Floatless (.obj ms) = true := by
        rw [PyJson.Floatless, PyJson.floatlessMembers_eq_all, List.all_eq_true]
        intro m hm
        obtain ⟨n, hn, -⟩ := l.numbers m (hperm.mem_iff.mp hm)
        rw [hn]
        rfl
      have hsame : PyJson.SameDict ms l.members := by
        unfold PyJson.SameDict
        rw [PyJson.sortMembers_eq_map, PyJson.sortMembers_eq_map]
        exact hperm.map _
      rw [← PyJson.dumpsAscii_of_canonicalLoads hloads hfloats, StoreLimits.toJson,
        hsame.sortKeys_eq (PyJson.nodup_of_canonicalLoads hloads)]

end RoundTrip

/-! ### The order things come in -/

/-- What a `NetworkBinding` is built from. -/
structure BindingArgs where
  sourceId : String
  destinationIps : List String
  profileRevisions : List String

def BindingArgs.build (a : BindingArgs) : Except String NetworkBinding :=
  NetworkBinding.init a.sourceId a.destinationIps a.profileRevisions

/-- What an `AssetMapping` is built from. -/
structure MappingArgs where
  assetId : String
  sshSourceIds : List String
  networkBindings : List BindingArgs

def MappingArgs.build (a : MappingArgs) : Except String AssetMapping := do
  let networkBindings ← a.networkBindings.mapM BindingArgs.build
  AssetMapping.init a.assetId a.sshSourceIds networkBindings

/-- A scope from the arguments of all its parts. -/
def ScopeFields.build (a : ScopeFields MappingArgs) : Except String CaseScope := do
  let mappings ← a.mappings.mapM MappingArgs.build
  CaseScope.init { a with mappings }

/-- The lists hold the same items, in some order. -/
def Reordered {α : Type} (same : α → α → Prop) (xs ys : List α) : Prop :=
  ∃ zs, zs.Perm xs ∧ List.Forall₂ same zs ys

structure BindingArgs.Same (a b : BindingArgs) : Prop where
  sourceId : b.sourceId = a.sourceId
  destinationIps : b.destinationIps.Perm a.destinationIps
  profileRevisions : b.profileRevisions.Perm a.profileRevisions

structure MappingArgs.Same (a b : MappingArgs) : Prop where
  assetId : b.assetId = a.assetId
  sshSourceIds : b.sshSourceIds.Perm a.sshSourceIds
  networkBindings : Reordered BindingArgs.Same a.networkBindings b.networkBindings

/-- The same mappings, sources, addresses and codes, each in some order. -/
structure ScopeFields.Same (a b : ScopeFields MappingArgs) : Prop where
  mappings : Reordered MappingArgs.Same a.mappings b.mappings
  producerId : b.producerId = a.producerId
  windowSeconds : b.windowSeconds = a.windowSeconds
  maxTimelineRecords : b.maxTimelineRecords = a.maxTimelineRecords
  sshCoverage : b.sshCoverage.Perm a.sshCoverage

section Order

variable {α β : Type}

/-- What is built from reordered arguments is reordered. -/
theorem mapM_reordered {build : α → Except String β} {same : α → α → Prop} {xs ys : List α}
    {items : List β} (hbuild : ∀ x y b, same x y → build x = .ok b → build y = .ok b)
    (h : Reordered same xs ys) (hxs : xs.mapM build = .ok items) :
    ∃ items', ys.mapM build = .ok items' ∧ items'.Perm items := by
  obtain ⟨zs, hperm, hsame⟩ := h
  obtain ⟨items', hzs, hitems⟩ := List.perm_comp_forall₂ hperm (mapM_eq_ok.mp hxs)
  refine ⟨items', mapM_eq_ok.mpr ?_, hitems⟩
  clear hperm hitems hxs
  induction hsame generalizing items' with
  | nil =>
    cases hzs
    exact List.Forall₂.nil
  | cons hxy _ ih =>
    cases hzs with
    | cons hb hbs => exact List.Forall₂.cons (hbuild _ _ _ hxy hb) (ih _ hbs)

theorem sortTexts_perm {p : String → Bool} {items items' : List (Checked p)}
    (hnodup : (texts items).Nodup) (h : items.Perm items') : sortTexts items = sortTexts items' :=
  sortBy_perm hnodup h

theorem nodup_texts_perm {p : String → Bool} {items items' : List (Checked p)}
    (hnodup : (texts items).Nodup) (h : items'.Perm items) : (texts items').Nodup :=
  (h.map _).nodup_iff.mpr hnodup

theorem sortedSet_perm {ss ts : List String} (h : ss.Perm ts) : sortedSet ss = sortedSet ts := by
  have hnodup : (ss.dedup.map id).Nodup := by
    rw [List.map_id]
    exact List.nodup_dedup ss
  exact sortBy_perm hnodup h.dedup

end Order

theorem BindingArgs.build_same {a b : BindingArgs} {x : NetworkBinding} (hsame : a.Same b)
    (h : a.build = .ok x) : b.build = .ok x := by
  obtain ⟨hsource, hd, hp, destinations, profiles, hds, hps, hdn, hpn, hx, hx'⟩ :=
    NetworkBinding.init_eq_ok.mp h
  obtain ⟨destinations', hds', hdperm⟩ := List.perm_comp_forall₂ hsame.destinationIps hds
  obtain ⟨profiles', hps', hpperm⟩ := List.perm_comp_forall₂ hsame.profileRevisions hps
  refine NetworkBinding.init_eq_ok.mpr ⟨?_, ?_, ?_, destinations', profiles', hds', hps',
    nodup_texts_perm hdn hdperm, nodup_texts_perm hpn hpperm, ?_, ?_⟩
  · rw [hsame.sourceId]
    exact hsource
  · rwa [hsame.destinationIps.length_eq]
  · rwa [hsame.profileRevisions.length_eq]
  · rw [hx, sortTexts_perm hdn hdperm.symm]
  · rw [hx', sortTexts_perm hpn hpperm.symm]

theorem MappingArgs.build_same {a b : MappingArgs} {x : AssetMapping} (hsame : a.Same b)
    (h : a.build = .ok x) : b.build = .ok x := by
  obtain ⟨bindings, hbindings, h⟩ := bind_eq_ok.mp h
  obtain ⟨hasset, hs, hb, sources, hss, hsn, hbn, hx, hx'⟩ := AssetMapping.init_eq_ok.mp h
  have hbuild : ∀ (x y : BindingArgs) (b : NetworkBinding), x.Same y → x.build = .ok b →
      y.build = .ok b := fun x y b => BindingArgs.build_same
  obtain ⟨bindings', hbindings', hbperm⟩ := mapM_reordered hbuild hsame.networkBindings hbindings
  obtain ⟨sources', hss', hsperm⟩ := List.perm_comp_forall₂ hsame.sshSourceIds hss
  refine bind_eq_ok.mpr ⟨bindings', hbindings', AssetMapping.init_eq_ok.mpr ⟨?_, ?_, ?_, sources',
    hss', nodup_texts_perm hsn hsperm, (hbperm.map _).nodup_iff.mpr hbn, ?_, ?_⟩⟩
  · rw [hsame.assetId]
    exact hasset
  · rwa [hsame.sshSourceIds.length_eq]
  · rwa [hbperm.length_eq]
  · rw [hx, sortTexts_perm hsn hsperm.symm]
  · rw [hx', sortBy_perm hbn hbperm.symm]

/-- **The order does not matter**, at any level. -/
theorem ScopeFields.build_same {a b : ScopeFields MappingArgs} (hsame : a.Same b)
    (h : a.build = .ok s) : b.build = .ok s := by
  obtain ⟨mappings, hmappings, h⟩ := bind_eq_ok.mp h
  have hbuild : ∀ (x y : MappingArgs) (m : AssetMapping), x.Same y → x.build = .ok m →
      y.build = .ok m := fun x y m => MappingArgs.build_same
  obtain ⟨mappings', hmappings', hperm⟩ := mapM_reordered hbuild hsame.mappings hmappings
  obtain ⟨hvalid, hproducer, hwindow, hrecords, hlen, hcodes, hcoverage⟩ :=
    CaseScope.checked_eq_some.mp (CaseScope.init_eq_ok.mp h)
  refine bind_eq_ok.mpr ⟨mappings', hmappings', CaseScope.init_eq_ok.mpr
    (CaseScope.checked_eq_some.mpr ⟨?_, ?_, ?_, ?_, ?_, ?_, ?_⟩)⟩
  · exact (validateMappings_perm hperm).trans hvalid
  · exact hsame.producerId ▸ hproducer
  · exact hsame.windowSeconds.trans hwindow
  · exact hsame.maxTimelineRecords.trans hrecords
  · exact hsame.sshCoverage.length_eq ▸ hlen
  · exact fun c hc => hcodes c (hsame.sshCoverage.mem_iff.mp hc)
  · exact hcoverage.trans (sortedSet_perm hsame.sshCoverage).symm

/-! ### Stored canonically -/

/-- **A scope has one text.** Whatever prints a float (`repr`) and whatever the digest: a scope that
can be built is read back from its text, a text is read as a scope only when it is the text of that
scope, and the same mappings, sources, addresses and codes in another order build the same scope,
with the same digest. Limits are read back from their text, and from no other. -/
theorem stored_canonically (repr : Str → Option Str) (digest : Str → String) :
    (∀ (a : ScopeFields MappingArgs) (s : CaseScope), a.build = .ok s →
      CaseScope.fromJson repr s.toJson = .ok s) ∧
    (∀ (raw : Str) (s : CaseScope), CaseScope.fromJson repr raw = .ok s → raw = s.toJson) ∧
    (∀ (a b : ScopeFields MappingArgs) (s : CaseScope), a.Same b → a.build = .ok s →
      ∃ s', b.build = .ok s' ∧ s' = s ∧ s'.sha256 digest = s.sha256 digest) ∧
    (∀ (f : LimitFields) (l : StoreLimits), StoreLimits.init f = .ok l →
      StoreLimits.fromJson repr l.toJson = .ok l) ∧
    ∀ (raw : Str) (l : StoreLimits), StoreLimits.fromJson repr raw = .ok l → raw = l.toJson := by
  exact ⟨fun a s _ => s.fromJson_toJson, fun raw s => CaseScope.toJson_of_fromJson,
    fun a b s hsame h => ⟨s, ScopeFields.build_same hsame h, rfl, rfl⟩,
    fun f l _ => l.fromJson_toJson, fun raw l => StoreLimits.toJson_of_fromJson⟩

/-- A scope of one asset, with an address that is not written as it is printed. -/
theorem stored_canonically_one_asset :
    let scope : List String → List String → List String → ScopeFields MappingArgs :=
      fun sources addresses codes =>
        { mappings := [⟨"web", sources,
            [⟨"net", addresses, [String.ofList (List.replicate 64 '0')]⟩]⟩]
          producerId := "producer"
          sshCoverage := codes }
    let a := scope ["ssh-b", "ssh-a"] ["FE80::0:1", "10.0.0.1"] ["b", "a"]
    let b := scope ["ssh-a", "ssh-b"] ["10.0.0.1", "FE80::0:1"] ["a", "b"]
    let digest : Str → String := fun text => String.ofList (text.map Char.ofNat)
    ∃ s, a.build = .ok s ∧ CaseScope.fromJson some s.toJson = .ok s ∧
      ∃ s', b.build = .ok s' ∧ s' = s ∧ s'.sha256 digest = s.sha256 digest := by
  intro scope a b digest
  -- The check on the size is not computed: it never refuses.
  have hbuilt : ((a.mappings.mapM MappingArgs.build).toOption.bind fun mappings =>
      CaseScope.checked { a with mappings }).isSome = true := by decide +kernel
  obtain ⟨s, hs⟩ := Option.isSome_iff_exists.mp hbuilt
  obtain ⟨mappings, hmappings, hchecked⟩ := Option.bind_eq_some_iff.mp hs
  have hs : a.build = .ok s :=
    bind_eq_ok.mpr ⟨mappings, eq_ok_of_toOption hmappings, CaseScope.init_eq_ok.mpr hchecked⟩
  have hsame : a.Same b :=
    { mappings := ⟨a.mappings, List.Perm.refl _, .cons ⟨rfl, List.Perm.swap _ _ _, _,
        List.Perm.refl _, .cons ⟨rfl, List.Perm.swap _ _ _, List.Perm.refl _⟩ .nil⟩ .nil⟩
      producerId := rfl
      windowSeconds := rfl
      maxTimelineRecords := rfl
      sshCoverage := List.Perm.swap _ _ _ }
  have h := stored_canonically some digest
  exact ⟨s, hs, h.1 a s hs, h.2.2.1 a b s hsame hs⟩

end RiskOps.JointEvidence
