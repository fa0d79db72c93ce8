import RiskOps.Policy.Engine

/-!
# RiskOps.Policy.Scopes — what an allowed request and its scope are

The engine's gates said label by label. A host name is a list of labels between
dots, a wildcard is `*` before at least two of them, and a wildcard covers the names
that have its labels as a proper suffix: the engine's test is a comparison of raw text,
and agrees with that rule because no label holds a dot. `Permitted` is the whole
specification, and `evaluate` allows exactly what it permits.
-/

namespace RiskOps.Policy

open RiskOps.Lib RiskOps.Schemas

/-! ### Names as labels -/

/-- A name between its dots. -/
def labels (name : List Char) : List (List Char) := name.splitOn '.'

/-- A label: letters, digits and inner hyphens, at most 63 of them. -/
structure IsLabel (l : List Char) : Prop where
  first : ∃ c ∈ l.head?, labelEdge c = true
  last : ∃ c ∈ l.getLast?, labelEdge c = true
  inner : ∀ c ∈ l, labelInner c = true
  bounded : l.length ≤ 63

/-- A host name: labels, in at most 253 characters. -/
structure IsHostname (name : List Char) : Prop where
  bounded : name.length ≤ 253
  labels : ∀ l ∈ labels name, IsLabel l

/-- `*.` over at least two labels. -/
def IsWildcard (entry : List Char) : Prop :=
  ∃ ls, labels entry = ['*'] :: ls ∧ 2 ≤ ls.length ∧ ∀ l ∈ ls, IsLabel l

/-- A plain name: a letter or a digit, then at most 127 further characters. -/
structure IsPlainName (name : List Char) : Prop where
  first : ∃ c ∈ name.head?, actorEdge c = true
  inner : ∀ c ∈ name.tail, actorInner c = true
  bounded : name.length ≤ 128

/-- The entry is the name, or is a wildcard whose labels are a proper suffix of the name's. -/
def Covers (entry target : List Char) : Prop :=
  entry = target ∨
    ∃ ls pre, labels entry = ['*'] :: ls ∧ ls ≠ [] ∧ labels target = pre ++ ls ∧ pre ≠ []

theorem not_labelInner_dot : labelInner '.' = false := by decide

theorem labelInner_of_labelEdge {c : Char} (h : labelEdge c = true) : labelInner c = true := by
  simp [labelInner, h]

theorem IsLabel.not_mem_dot {l : List Char} (h : IsLabel l) : '.' ∉ l := fun hdot => by
  have := h.inner '.' hdot
  simp [not_labelInner_dot] at this

theorem intercalate_labels (name : List Char) : ['.'].intercalate (labels name) = name :=
  List.intercalate_splitOn '.'

/-- A text is a sequence of labels exactly when its labels are those. -/
theorem labels_intercalate {l : List Char} {ls : List (List Char)} (hl : '.' ∉ l)
    (hls : ∀ x ∈ ls, '.' ∉ x) : labels (['.'].intercalate (l :: ls)) = l :: ls :=
  List.splitOn_intercalate '.' (by simpa using ⟨hl, hls⟩) (by simp)

/-! ### The patterns read labels -/

section Patterns

variable {s rest : List Char} {g g' : Regex.Groups}

theorem steps_cls {p : Char → Bool} :
    Regex.Steps (.cls p) s rest g g' ↔ ∃ c, p c = true ∧ s = c :: rest ∧ g' = g := by
  constructor
  · rintro ⟨x, rfl, hx, hmin, hmax, rfl⟩
    obtain ⟨c, rfl⟩ := List.length_eq_one_iff.mp (Nat.le_antisymm (hmax 1 rfl) hmin)
    exact ⟨c, hx c List.mem_cons_self, rfl, rfl⟩
  · rintro ⟨c, hc, rfl, rfl⟩
    exact ⟨[c], rfl, by simpa using hc, by simp, by simp, rfl⟩

/-- `_LABEL` matches labels and nothing else. -/
theorem steps_label :
    Regex.Steps label s rest g g' ↔ ∃ l, IsLabel l ∧ s = l ++ rest ∧ g' = g := by
  constructor
  · rintro ⟨mid, g₁, hfirst, hmore⟩
    obtain ⟨c, hc, rfl, rfl⟩ := Iff.mp steps_cls hfirst
    rcases hmore with ⟨mid', g₂, hinner, hlast⟩ | ⟨rfl, rfl⟩
    · obtain ⟨x, rfl, hx, -, hmax, rfl⟩ := hinner
      obtain ⟨d, hd, rfl, rfl⟩ := Iff.mp steps_cls hlast
      refine ⟨c :: (x ++ [d]), ⟨⟨c, rfl, hc⟩, ⟨d, List.getLast?_concat (l := c :: x), hd⟩, ?_, ?_⟩,
        by simp, rfl⟩
      · intro e he
        simp only [List.mem_cons, List.mem_append, List.not_mem_nil, or_false] at he
        rcases he with rfl | he | rfl
        · exact labelInner_of_labelEdge hc
        · exact hx e he
        · exact labelInner_of_labelEdge hd
      · have := hmax 61 rfl
        simp only [List.length_cons, List.length_append, List.length_nil]
        omega
    · refine ⟨[c], ⟨⟨c, rfl, hc⟩, ⟨c, rfl, hc⟩, ?_, by simp⟩, rfl, rfl⟩
      simpa using labelInner_of_labelEdge hc
  · rintro ⟨l, ⟨⟨c, hc, hcedge⟩, ⟨d, hd, hdedge⟩, hinner, hbound⟩, rfl, rfl⟩
    obtain ⟨tail, rfl⟩ := List.head?_eq_some_iff.mp hc
    refine ⟨tail ++ rest, g', Iff.mpr steps_cls ⟨c, hcedge, rfl, rfl⟩, ?_⟩
    rcases List.eq_nil_or_concat tail with rfl | ⟨x, e, rfl⟩
    · exact Or.inr ⟨rfl, rfl⟩
    · obtain rfl : e = d := by simpa [List.getLast?_cons] using hd
      refine Or.inl ⟨e :: rest, g', ⟨x, by simp, ?_, by simp, ?_, rfl⟩,
        Iff.mpr steps_cls ⟨e, hdedge, rfl, rfl⟩⟩
      · exact fun a ha => hinner a (by simp [ha])
      · rintro m ⟨⟩
        simp only [List.length_cons, List.length_concat] at hbound
        omega

/-- `\._LABEL` matches a dot and a label. -/
theorem steps_dot_label :
    Regex.Steps (.seq (.lit ['.']) label) s rest g g'
      ↔ ∃ l, IsLabel l ∧ s = '.' :: l ++ rest ∧ g' = g := by
  constructor
  · rintro ⟨mid, g₁, ⟨rfl, rfl⟩, hlabel⟩
    obtain ⟨l, hl, rfl, rfl⟩ := Iff.mp steps_label hlabel
    exact ⟨l, hl, by simp, rfl⟩
  · rintro ⟨l, hl, rfl, rfl⟩
    exact ⟨l ++ rest, g', ⟨by simp, rfl⟩, Iff.mpr steps_label ⟨l, hl, rfl, rfl⟩⟩

/-- `(?:\._LABEL)*` matches any number of dotted labels. -/
theorem iterates_dot_label :
    Regex.Iterates (Regex.Steps (.seq (.lit ['.']) label)) s rest g g'
      ↔ ∃ ls : List (List Char), (∀ l ∈ ls, IsLabel l) ∧
          s = ls.flatMap ('.' :: ·) ++ rest ∧ g' = g := by
  constructor
  · intro h
    induction h with
    | done s g => exact ⟨[], by simp, rfl, rfl⟩
    | more hstep hlt htail ih =>
      obtain ⟨l, hl, rfl, rfl⟩ := Iff.mp steps_dot_label hstep
      obtain ⟨ls, hls, rfl, rfl⟩ := ih
      exact ⟨l :: ls, by simpa using ⟨hl, hls⟩, by simp, rfl⟩
  · rintro ⟨ls, hls, rfl, rfl⟩
    induction ls with
    | nil => exact .done rest g'
    | cons l ls ih =>
      obtain ⟨hl, hls⟩ : IsLabel l ∧ ∀ x ∈ ls, IsLabel x := by simpa using hls
      refine .more (Iff.mpr steps_dot_label ⟨l, hl, ?_, rfl⟩) ?_ (ih hls)
      · simp
      · simp only [List.flatMap_cons, List.cons_append, List.length_cons, List.length_append]
        omega

end Patterns

theorem intercalate_cons_eq (l : List Char) (ls : List (List Char)) :
    ['.'].intercalate (l :: ls) = l ++ ls.flatMap ('.' :: ·) := by
  induction ls generalizing l with
  | nil => simp
  | cons x xs ih => simp [List.intercalate_cons_cons, ih]

theorem isSome_fullmatch_iff {r : Regex} {s : List Char} :
    (r.fullmatch s).isSome = true ↔ ∃ g, Regex.Steps r s [] [] g := by
  rw [Option.isSome_iff_exists]
  exact ⟨fun ⟨g, h⟩ => ⟨g, Regex.fullmatch_sound h⟩, fun ⟨_, h⟩ => Regex.fullmatch_complete h⟩

/-- `_HOSTNAME` accepts exactly the texts made of labels. -/
theorem fullmatch_hostnamePattern {name : List Char} :
    (hostnamePattern.fullmatch name).isSome = true ↔ ∀ l ∈ labels name, IsLabel l := by
  rw [isSome_fullmatch_iff]
  constructor
  · rintro ⟨g, mid, g₁, hlabel, hstar⟩
    obtain ⟨l, hl, rfl, rfl⟩ := Iff.mp steps_label hlabel
    obtain ⟨ls, hls, rfl, -⟩ := Iff.mp iterates_dot_label hstar
    rw [List.append_nil, ← intercalate_cons_eq,
      labels_intercalate hl.not_mem_dot fun x hx => (hls x hx).not_mem_dot]
    simpa using ⟨hl, hls⟩
  · intro h
    obtain ⟨l, ls, hcut⟩ := List.exists_cons_of_ne_nil (List.splitOn_ne_nil '.' name)
    have hname := intercalate_labels name
    unfold labels at hname h
    rw [hcut] at hname h
    obtain ⟨hl, hls⟩ : IsLabel l ∧ ∀ x ∈ ls, IsLabel x := by simpa using h
    refine ⟨[], ls.flatMap ('.' :: ·), [], Iff.mpr steps_label ⟨l, hl, ?_, rfl⟩,
      Iff.mpr iterates_dot_label ⟨ls, hls, by simp, rfl⟩⟩
    rw [← hname, intercalate_cons_eq]

theorem hostname_iff {value : String} : hostname value = true ↔ IsHostname value.toList := by
  simp only [hostname, Bool.and_eq_true, decide_eq_true_eq, fullmatch_hostnamePattern]
  rw [← String.length_toList]
  exact ⟨fun ⟨hb, hl⟩ => ⟨hb, hl⟩, fun h => ⟨h.bounded, h.labels⟩⟩

/-- `_WILDCARD` accepts exactly `*.` over at least two labels. -/
theorem fullmatch_wildcardPattern {entry : List Char} :
    (wildcardPattern.fullmatch entry).isSome = true ↔ IsWildcard entry := by
  rw [isSome_fullmatch_iff]
  constructor
  · rintro ⟨g, mid, g₁, ⟨rfl, rfl⟩, mid₂, g₂, hfirst, mid₃, g₃, hsecond, hstar⟩
    obtain ⟨l, hl, rfl, rfl⟩ := Iff.mp steps_label hfirst
    obtain ⟨l', hl', rfl, rfl⟩ := Iff.mp steps_dot_label hsecond
    obtain ⟨ls, hls, rfl, -⟩ := Iff.mp iterates_dot_label hstar
    have hall : ∀ x ∈ l :: l' :: ls, IsLabel x := by simpa using ⟨hl, hl', hls⟩
    refine ⟨l :: l' :: ls, ?_, by simp, hall⟩
    have htext : ['*', '.'] ++ (l ++ ('.' :: l' ++ (ls.flatMap ('.' :: ·) ++ [])))
        = ['.'].intercalate (['*'] :: l :: l' :: ls) := by
      rw [intercalate_cons_eq]
      simp
    rw [htext]
    exact labels_intercalate (by decide) fun x hx => (hall x hx).not_mem_dot
  · rintro ⟨ls, hcut, htwo, hls⟩
    obtain ⟨l, l', rest, rfl⟩ : ∃ l l' rest, ls = l :: l' :: rest := by
      match ls, htwo with
      | l :: l' :: rest, _ => exact ⟨l, l', rest, rfl⟩
    have htext := intercalate_labels entry
    rw [hcut, intercalate_cons_eq] at htext
    obtain ⟨hl, hl', hrest⟩ : IsLabel l ∧ IsLabel l' ∧ ∀ x ∈ rest, IsLabel x := by simpa using hls
    refine ⟨[], l ++ ('.' :: l' ++ rest.flatMap ('.' :: ·)), [], ⟨?_, rfl⟩, _, [],
      steps_label.mpr ⟨l, hl, rfl, rfl⟩, _, [], Iff.mpr steps_dot_label ⟨l', hl', rfl, rfl⟩,
      Iff.mpr iterates_dot_label ⟨rest, hrest, by simp, rfl⟩⟩
    rw [← htext]
    simp

/-- `_ACTOR` accepts exactly the plain names. -/
theorem fullmatch_actorPattern {name : List Char} :
    (actorPattern.fullmatch name).isSome = true ↔ IsPlainName name := by
  rw [isSome_fullmatch_iff]
  constructor
  · rintro ⟨g, mid, g₁, hfirst, x, rfl, hx, -, hmax, rfl⟩
    obtain ⟨c, hc, rfl, rfl⟩ := steps_cls.mp hfirst
    refine ⟨⟨c, rfl, hc⟩, by simpa using hx, ?_⟩
    have := hmax 127 rfl
    simp only [List.append_nil, List.length_cons]
    omega
  · rintro ⟨⟨c, hc, hedge⟩, hinner, hbound⟩
    obtain ⟨tail, rfl⟩ := List.head?_eq_some_iff.mp hc
    refine ⟨[], tail, [], steps_cls.mpr ⟨c, hedge, rfl, rfl⟩, tail, by simp, hinner, by simp, ?_,
      rfl⟩
    rintro m ⟨⟩
    simp only [List.length_cons] at hbound
    omega

/-! ### The suffix test is the label rule -/

theorem intercalate_append {pre ls : List (List Char)} (hpre : pre ≠ []) (hls : ls ≠ []) :
    ['.'].intercalate (pre ++ ls) = ['.'].intercalate pre ++ '.' :: ['.'].intercalate ls := by
  obtain ⟨p, ps, rfl⟩ := List.exists_cons_of_ne_nil hpre
  obtain ⟨l, ls, rfl⟩ := List.exists_cons_of_ne_nil hls
  simp [intercalate_cons_eq]

/-- The raw test on the entry's text, minus its star, is the rule on its labels. -/
theorem suffix_test_iff {entry target : List Char} :
    (['*', '.'].isPrefixOf entry && (entry.drop 1).isSuffixOf target && target != entry.drop 2)
        = true
      ↔ ∃ ls pre, labels entry = ['*'] :: ls ∧ ls ≠ [] ∧ labels target = pre ++ ls ∧ pre ≠ [] := by
  simp only [Bool.and_eq_true, List.isPrefixOf_iff_prefix, List.isSuffixOf_iff_suffix, bne_iff_ne]
  constructor
  · rintro ⟨⟨⟨r, rfl⟩, ⟨front, htarget⟩⟩, -⟩
    have hentry : labels ('*' :: '.' :: r) = ['*'] :: labels r :=
      List.splitOn_append_cons_self_of_not_mem (by decide : '.' ∉ ['*']) r
    refine ⟨labels r, labels front, hentry, List.splitOn_ne_nil '.' r, ?_,
      List.splitOn_ne_nil '.' front⟩
    rw [← htarget]
    exact List.splitOn_append_cons_self front r
  · rintro ⟨ls, pre, hentry, hls, htarget, hpre⟩
    have hstar : ['.'].intercalate (['*'] :: ls) = ['*'] ++ '.' :: ['.'].intercalate ls :=
      intercalate_append (List.cons_ne_nil ['*'] []) hls
    have hetext := intercalate_labels entry
    have httext := intercalate_labels target
    rw [hentry, hstar] at hetext
    rw [htarget, intercalate_append hpre hls] at httext
    rw [← hetext, ← httext]
    refine ⟨⟨⟨_, rfl⟩, ⟨_, rfl⟩⟩, fun heq => ?_⟩
    have := congrArg List.length heq
    simp only [List.singleton_append, List.drop_succ_cons, List.drop_zero, List.length_append,
      List.length_cons] at this
    omega

/-- `_target_allowed`: a host name that some entry covers. -/
theorem targetAllowed_iff {target : String} {allowlist : List String} :
    targetAllowed target allowlist = true
      ↔ IsHostname target.toList ∧ ∃ entry ∈ allowlist, Covers entry.toList target.toList := by
  simp only [targetAllowed, Bool.and_eq_true, hostname_iff, List.any_eq_true, Bool.or_eq_true,
    decide_eq_true_eq, Covers, String.toList_inj]
  refine and_congr_right fun _ => exists_congr fun entry => and_congr_right fun _ =>
    or_congr_right ?_
  rw [← Bool.and_eq_true, ← Bool.and_eq_true]
  exact suffix_test_iff

theorem targetEntry_iff {value : String} :
    targetEntry value = true ↔ IsHostname value.toList ∨ IsWildcard value.toList := by
  simp [targetEntry, hostname_iff, fullmatch_wildcardPattern]

/-! ### The specification -/

section Specification

variable (fromisoformat : String → Option (Option Int))

/-- The text is a timestamp with a zone, and names this instant. -/
def Zoned (text : String) (t : Int) : Prop := fromisoformat text = some (some t)

/-- What an allowed request and its scope are. -/
structure Permitted (request : ActionRequest) (scope : AssessmentScope) : Prop where
  approved : scope.approved = true
  hashBound : scope.policyHash ≠ ""
  actors : scope.allowedActors ≠ []
  targets : scope.targetAllowlist ≠ []
  plainNames : ∀ entry ∈ scope.allowedActors, IsPlainName entry.toList
  targetEntries : ∀ entry ∈ scope.targetAllowlist,
    IsHostname entry.toList ∨ IsWildcard entry.toList
  fromZoned : ∀ start ∈ scope.validFrom, ∃ a, Zoned fromisoformat start a
  untilZoned : ∀ stop ∈ scope.validUntil, ∃ b, Zoned fromisoformat stop b
  ordered : ∀ start ∈ scope.validFrom, ∀ stop ∈ scope.validUntil, ∀ a b,
    Zoned fromisoformat start a → Zoned fromisoformat stop b → a < b
  inWindow : ∃ text ∈ request.at_, ∃ t, Zoned fromisoformat text t ∧
    (∀ start ∈ scope.validFrom, ∀ a, Zoned fromisoformat start a → a ≤ t) ∧
    (∀ stop ∈ scope.validUntil, ∀ b, Zoned fromisoformat stop b → t ≤ b)
  actorListed : request.actor ∈ scope.allowedActors
  targetHostname : IsHostname request.target.toList
  targetCovered : ∃ entry ∈ scope.targetAllowlist, Covers entry.toList request.target.toList
  approval : request.riskLevel = .medium ∨ request.riskLevel = .high → request.hasApproval = true
  autonomy : (minAutonomy request.riskLevel request.hasApproval).toNat ≤ scope.autonomyLevel.toNat

variable {fromisoformat}

theorem instant_eq_some_iff {value : Option String} {t : Int} :
    instant fromisoformat value = some t ↔ ∃ text ∈ value, Zoned fromisoformat text t := by
  simp [instant, Zoned, Option.bind_eq_some_iff, Option.join_eq_some_iff]

theorem instant_ne_none_iff {text : String} :
    ¬ instant fromisoformat (some text) = none ↔ ∃ t, Zoned fromisoformat text t := by
  rw [← ne_eq, Option.ne_none_iff_exists']
  simp [instant_eq_some_iff]

/-- A gate that denies lets through what it does not stop. -/
theorem gate_eq_allowOk {p : Prop} [Decidable p] {code rest : ReasonCode} (h : code ≠ .allowOk) :
    (if p then code else rest) = .allowOk ↔ ¬ p ∧ rest = .allowOk := by
  by_cases hp : p
  · simp [hp, h]
  · simp [hp]

theorem scopeProblems_eq_nil_iff {scope : AssessmentScope} :
    scopeProblems fromisoformat scope = []
      ↔ (∀ entry ∈ scope.allowedActors, IsPlainName entry.toList)
        ∧ (∀ entry ∈ scope.targetAllowlist, IsHostname entry.toList ∨ IsWildcard entry.toList)
        ∧ (∀ start ∈ scope.validFrom, ∃ a, Zoned fromisoformat start a)
        ∧ (∀ stop ∈ scope.validUntil, ∃ b, Zoned fromisoformat stop b)
        ∧ (∀ start ∈ scope.validFrom, ∀ stop ∈ scope.validUntil, ∀ a b,
            Zoned fromisoformat start a → Zoned fromisoformat stop b → a < b) := by
  simp only [scopeProblems, List.append_eq_nil_iff, List.map_eq_nil_iff, List.filter_eq_nil_iff,
    and_assoc]
  refine and_congr ?_ (and_congr ?_ (and_congr ?_ (and_congr ?_ ?_)))
  · refine forall₂_congr fun entry _ => ?_
    rw [← fullmatch_actorPattern, ← Option.not_isSome, Bool.not_eq_true', Bool.not_eq_false]
  · refine forall₂_congr fun entry _ => ?_
    rw [← targetEntry_iff, Bool.not_eq_true', Bool.not_eq_false]
  · cases scope.validFrom with
    | none => simp
    | some start => simpa using instant_ne_none_iff
  · cases scope.validUntil with
    | none => simp
    | some stop => simpa using instant_ne_none_iff
  · constructor
    · intro h start hstart stop hstop a b ha hb
      rw [(Iff.mpr instant_eq_some_iff) ⟨start, hstart, ha⟩,
        Iff.mpr instant_eq_some_iff ⟨stop, hstop, hb⟩] at h
      by_contra hle
      simp [not_lt.mp hle] at h
    · intro h
      split
      · rename_i a b hfrom huntil
        obtain ⟨start, hstart, ha⟩ := Iff.mp instant_eq_some_iff hfrom
        obtain ⟨stop, hstop, hb⟩ := Iff.mp instant_eq_some_iff huntil
        exact if_neg (not_le.mpr (h start hstart stop hstop a b ha hb))
      · rfl

/-- The gates in order: a request is let through when none of them stops it. -/
theorem decide_eq_allowOk_iff {request : ActionRequest} {scope : AssessmentScope} :
    decide fromisoformat request scope = .allowOk
      ↔ scope.approved = true ∧ scope.policyHash ≠ ""
        ∧ ¬(scope.allowedActors = [] ∨ scope.targetAllowlist = [])
        ∧ scopeProblems fromisoformat scope = []
        ∧ ∃ t, instant fromisoformat request.at_ = some t
          ∧ ¬(boundSet scope.validFrom
              && (instant fromisoformat scope.validFrom).any (t < ·)) = true
          ∧ ¬(boundSet scope.validUntil
              && (instant fromisoformat scope.validUntil).any (· < t)) = true
          ∧ request.actor ∈ scope.allowedActors
          ∧ targetAllowed request.target scope.targetAllowlist = true
          ∧ ¬(requiresApproval request.riskLevel && !request.hasApproval) = true
          ∧ (minAutonomy request.riskLevel request.hasApproval).toNat
              ≤ scope.autonomyLevel.toNat := by
  unfold decide
  cases instant fromisoformat request.at_ with
  | none => simp [gate_eq_allowOk]
  | some t =>
    simp only [gate_eq_allowOk, ne_eq, reduceCtorEq, not_false_eq_true, Option.some.injEq,
      exists_eq_left', Bool.not_eq_true', Bool.not_eq_false, not_lt, not_not, and_true,
      Bool.or_eq_true, decide_eq_true_eq, List.contains_iff_mem]

/-- A window bound that is set and zoned stops the instants outside it. -/
theorem not_outside_iff (hempty : fromisoformat "" = none) {value : Option String}
    {outside : Int → Bool} :
    ¬(boundSet value && (instant fromisoformat value).any outside) = true
      ↔ ∀ text ∈ value, ∀ a, Zoned fromisoformat text a → outside a = false := by
  cases value with
  | none => simp [boundSet]
  | some text =>
    by_cases htext : text = ""
    · subst htext
      simp [boundSet, Zoned, hempty]
    · rcases htime : fromisoformat text with _ | _ | a
      · simp [boundSet, htext, instant, Zoned, htime]
      · simp [boundSet, htext, instant, Zoned, htime]
      · simp [boundSet, htext, instant, Zoned, htime]

theorem decide_eq_allowOk_iff_permitted (hempty : fromisoformat "" = none)
    {request : ActionRequest} {scope : AssessmentScope} :
    decide fromisoformat request scope = .allowOk ↔ Permitted fromisoformat request scope := by
  simp only [decide_eq_allowOk_iff, scopeProblems_eq_nil_iff, instant_eq_some_iff,
    not_outside_iff hempty, targetAllowed_iff, decide_eq_false_iff_not, not_lt]
  have happroval : ¬(requiresApproval request.riskLevel && !request.hasApproval) = true
      ↔ (request.riskLevel = .medium ∨ request.riskLevel = .high → request.hasApproval = true) := by
    cases request.riskLevel <;> simp [requiresApproval]
  rw [happroval]
  constructor
  · rintro ⟨happroved, hhash, hblank, ⟨hplain, hentries, hfrom, huntil, hordered⟩, t,
      ⟨text, hat, ht⟩, hafter, hbefore, hactor, ⟨hhost, hcovered⟩, hrisk, hlevel⟩
    exact
      { approved := happroved
        hashBound := hhash
        actors := fun h => hblank (Or.inl h)
        targets := fun h => hblank (Or.inr h)
        plainNames := hplain
        targetEntries := hentries
        fromZoned := hfrom
        untilZoned := huntil
        ordered := hordered
        inWindow := ⟨text, hat, t, ht, hafter, hbefore⟩
        actorListed := hactor
        targetHostname := hhost
        targetCovered := hcovered
        approval := hrisk
        autonomy := hlevel }
  · intro h
    obtain ⟨text, hat, t, ht, hafter, hbefore⟩ := h.inWindow
    exact ⟨h.approved, h.hashBound, fun hblank => hblank.elim h.actors h.targets,
      ⟨h.plainNames, h.targetEntries, h.fromZoned, h.untilZoned, h.ordered⟩, t, ⟨text, hat, ht⟩,
      hafter, hbefore, h.actorListed, ⟨h.targetHostname, h.targetCovered⟩, h.approval, h.autonomy⟩

/-- The engine allows exactly what the specification permits, and what a request says in
free text moves nothing but the reference the decision carries. -/
theorem evaluate_allow_iff_permitted (hempty : fromisoformat "" = none) (now : String)
    (request : ActionRequest) (scope : AssessmentScope) :
    ((evaluate fromisoformat now request scope).effect = .allow
      ↔ Permitted fromisoformat request scope) ∧
    ∀ (requestId actionType : String) (actionPlanId : Option String)
      (claimed : List (List Char × Json)),
      evaluate fromisoformat now
          { request with
            requestId := requestId
            actionType := actionType
            actionPlanId := actionPlanId
            claimed := claimed } scope
        = { evaluate fromisoformat now request scope with requestRef := requestId } :=
  ⟨(evaluate_allow_iff fromisoformat).trans (decide_eq_allowOk_iff_permitted hempty),
    fun _ _ _ _ => rfl⟩

end Specification

/-- Three timestamps as `datetime.fromisoformat` reads them, in microseconds. -/
def fewInstants (text : String) : Option (Option Int) :=
  if text = "2026-01-01T00:00:00+00:00" then some (some 1767225600000000)
  else if text = "2026-01-15T12:00:00+02:00" then some (some 1768471200000000)
  else if text = "2026-02-01T00:00:00+00:00" then some (some 1769904000000000)
  else none

/-- An approved medium-risk request for a host under a wildcard, inside its window. -/
theorem evaluate_allow_iff_permitted_wildcard :
    Permitted fewInstants
      { requestId := "REQ-1"
        actor := "agent@secagent"
        actionType := "harden_ssh"
        riskLevel := .medium
        target := "db.eu.corp"
        actionPlanId := none
        hasApproval := true
        at_ := some "2026-01-15T12:00:00+02:00"
        claimed := [] }
      { scopeId := "S"
        scopeVersion := 1
        policyHash := "h"
        approved := true
        autonomyLevel := .executeAfterApproval
        allowedActors := ["agent@secagent"]
        targetAllowlist := ["*.eu.corp"]
        validFrom := some "2026-01-01T00:00:00+00:00"
        validUntil := some "2026-02-01T00:00:00+00:00" } :=
  (evaluate_allow_iff_permitted (by decide) "2026-01-15T10:00:00Z" _ _).1.mp (by decide +kernel)

end RiskOps.Policy
