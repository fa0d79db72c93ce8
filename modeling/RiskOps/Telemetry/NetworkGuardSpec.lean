import RiskOps.Telemetry.NetworkGuard

/-!
# RiskOps.Telemetry.NetworkGuardSpec — what a reviewed snapshot hides

**Uses.** `Occurs name v u` says that `name` is used in `v` at `u`: as a string, behind an `@` in a
string, or in a key. The search finds every use (`Occurs.mem`), so in an accepted snapshot the uses
in the table of a set are its own name and one lookup for each rule (`uses_are_reviewed`).

**Two snapshots.** The result keeps everything but the members (`shell_hideMembers`), hence equal
results come from snapshots that differ in the members of enrolled sets only
(`only_members_hidden`).
-/

namespace RiskOps.Telemetry.Guard

open RiskOps.Lib (Str)
open RiskOps.Lib.PyJson

theorem named_ne {a b : String} (h : Str.ofString a ≠ Str.ofString b) : Step.named a ≠ Step.named b :=
  fun heq => h (Step.key.inj heq)

/-! ### Uses of a name -/

/-- A text uses a name. -/
def Names (name s : Str) : Prop := s = name ∨ ∃ before after, s = before ++ 64 :: name ++ after

theorem mentions_iff {name s : Str} : mentions name s = true ↔ Names name s := by
  rw [mentions, Bool.or_eq_true, decide_eq_true_eq, decide_eq_true_eq]
  exact or_congr Iff.rfl (exists_congr fun _ => exists_congr fun _ => eq_comm)

/-- A place a name is used at: a string, or a key of a dict. -/
inductive Use
  | value (path : Path)
  | key (path : Path) (key : Str)
  deriving DecidableEq

def Use.under (step : Step) : Use → Use
  | .value path => .value (step :: path)
  | .key path k => .key (step :: path) k

/-- The path the search yields for a use. -/
def Use.path : Use → Path
  | .value path => path
  | .key path k => path ++ [.named "<key>", .key k]

theorem Use.path_under (step : Step) (u : Use) : (u.under step).path = step :: u.path := by
  cases u <;> rfl

/-- A use whose path does not end like that of a key is a string. -/
theorem Use.eq_value {u : Use} (init : Path) {a b : Step} (h : u.path = init ++ [a, b])
    (ha : a ≠ .named "<key>") : u = .value (init ++ [a, b]) := by
  cases u with
  | value path => exact congrArg _ h
  | key path k =>
    obtain ⟨-, htail⟩ := List.append_inj' h rfl
    exact absurd (List.cons.inj htail).1.symm ha

/-- A name is used in a value. -/
inductive Occurs (name : Str) : Value → Use → Prop
  | text {s : Str} (h : Names name s) : Occurs name (.str s) (.value [])
  | key {ms : Dict} {k : Str} {v : Value} (hm : (k, v) ∈ ms) (h : Names name k) :
      Occurs name (.obj ms) (.key [] k)
  | member {ms : Dict} {k : Str} {v : Value} {u : Use} (hm : (k, v) ∈ ms) (h : Occurs name v u) :
      Occurs name (.obj ms) (u.under (.key k))
  | item {vs : List Value} {i : Nat} {v : Value} {u : Use} (hi : vs[i]? = some v)
      (h : Occurs name v u) : Occurs name (.arr vs) (u.under (.index i))

variable {v : Value}

theorem mem_memberPaths {name : Str} {ms : Dict} {k : Str} (hm : (k, v) ∈ ms) {path p : Path}
    (hp : p ∈ referencePaths name v (path ++ [.key k])) : p ∈ memberPaths name ms path := by
  induction ms with
  | nil => cases hm
  | cons m ms ih =>
    obtain ⟨l, w⟩ := m
    simp only [memberPaths, List.mem_append]
    rcases List.mem_cons.mp hm with heq | hm
    · obtain ⟨rfl, rfl⟩ := Prod.mk.inj heq
      exact Or.inl (Or.inr hp)
    · exact Or.inr (ih hm)

theorem mem_memberPaths_key {name : Str} {ms : Dict} {k : Str} (hm : (k, v) ∈ ms)
    (hk : mentions name k = true) (path : Path) :
    path ++ [.named "<key>", .key k] ∈ memberPaths name ms path := by
  induction ms with
  | nil => cases hm
  | cons m ms ih =>
    obtain ⟨l, w⟩ := m
    simp only [memberPaths, List.mem_append]
    rcases List.mem_cons.mp hm with heq | hm
    · obtain ⟨rfl, rfl⟩ := Prod.mk.inj heq
      rw [if_pos hk]
      exact Or.inl (Or.inl (List.mem_singleton_self _))
    · exact Or.inr (ih hm)

variable {i : Nat}

theorem mem_itemPaths {name : Str} {vs : List Value} (hi : vs[i]? = some v) {start : Nat}
    {path p : Path} (hp : p ∈ referencePaths name v (path ++ [.index (start + i)])) :
    p ∈ itemPaths name vs start path := by
  induction vs generalizing i start with
  | nil => cases hi
  | cons w vs ih =>
    simp only [itemPaths, List.mem_append]
    cases i with
    | zero =>
      obtain rfl := Option.some.inj hi
      exact Or.inl hp
    | succ i => exact Or.inr (ih hi (by rwa [Nat.add_right_comm, Nat.add_assoc]))

/-- **The search finds every use.** -/
theorem Occurs.mem {name : Str} {u : Use} (h : Occurs name v u) (path : Path) :
    path ++ u.path ∈ referencePaths name v path := by
  induction h generalizing path with
  | text h =>
    rw [referencePaths, if_pos (Iff.mpr mentions_iff h), Use.path, List.append_nil]
    exact List.mem_singleton_self _
  | key hm h => exact mem_memberPaths_key hm (Iff.mpr mentions_iff h) path
  | member hm h ih =>
    rw [Use.path_under, List.append_cons]
    exact mem_memberPaths hm (ih _)
  | item hi h ih =>
    rw [Use.path_under, List.append_cons]
    exact mem_itemPaths hi (by rw [Nat.zero_add]; exact ih _)

/-! ### One rule -/

/-- The rule looks the source address up in the set, once, and then denies; beside the lookup it
only counts and compares. -/
structure TerminalLookup (protocol : String) (name : Str) (exprs : List Value) (index : Nat) :
    Prop where
  source : exprs[index]? = some (sourceLookup protocol name)
  before : index + 1 < exprs.length
  last : ∃ kind verdict, (kind = Str.ofString "drop" ∨ kind = Str.ofString "reject") ∧
    exprs.getLast? = some (.obj [(kind, verdict)]) ∧ terminal (.obj [(kind, verdict)]) = true
  others : ∀ j e, j ≠ index → j + 1 < exprs.length → exprs[j]? = some e →
    e = emptyCounter ∨ staticMatch e = true

theorem terminal_verdict {e : Value} (h : terminal e = true) :
    ∃ kind verdict, (kind = Str.ofString "drop" ∨ kind = Str.ofString "reject") ∧
      e = .obj [(kind, verdict)] := by
  unfold terminal at h
  rw [Bool.or_eq_true, Bool.or_eq_true, decide_eq_true_eq, decide_eq_true_eq] at h
  rcases h with (rfl | rfl) | h
  · exact ⟨_, .null, Or.inl rfl, rfl⟩
  · exact ⟨_, .null, Or.inr rfl, rfl⟩
  · split at h
    · rename_i key reject
      have hkey : key = Str.ofString "reject" := by
        simp only [Bool.and_eq_true, decide_eq_true_eq] at h
        exact h.1.1
      exact ⟨key, _, Or.inr hkey, rfl⟩
    · cases h

variable {protocol : String}

/-- What the loop over the expressions accepts, and the lookups it collects. -/
theorem lookups_spec {name : Str} {start : Nat} {exprs : List Value} {found : List Path}
    (h : lookups protocol name start exprs = some found) :
    (∀ p ∈ found, ∃ j, p = lookupPath (start + j) ∧
      exprs[j]? = some (sourceLookup protocol name)) ∧
    ∀ j e, exprs[j]? = some e → lookupPath (start + j) ∈ found ∨ e = emptyCounter ∨
      staticMatch e = true := by
  induction exprs generalizing start found with
  | nil =>
    obtain rfl := Option.some.inj h
    exact ⟨fun p hp => (by cases hp), fun j e he => (by cases he)⟩
  | cons e exprs ih =>
    have hshift : ∀ j, start + 1 + j = start + (j + 1) := fun j => by omega
    unfold lookups at h
    split at h
    · rename_i hsource
      obtain ⟨found', hfound, rfl⟩ := Option.map_eq_some_iff.mp h
      obtain ⟨hpaths, hothers⟩ := ih hfound
      refine ⟨fun p hp => ?_, fun j e' he => ?_⟩
      · rcases List.mem_cons.mp hp with rfl | hp
        · exact ⟨0, rfl, congrArg some hsource⟩
        · obtain ⟨j, rfl, hj⟩ := hpaths p hp
          exact ⟨j + 1, by rw [hshift], hj⟩
      · cases j with
        | zero => exact Or.inl (List.mem_cons_self ..)
        | succ j =>
          refine (hothers j e' he).imp_left fun hmem => ?_
          rw [← hshift]
          exact List.mem_cons_of_mem _ hmem
    · split at h
      · rename_i hstatic
        obtain ⟨hpaths, hothers⟩ := ih h
        refine ⟨fun p hp => ?_, fun j e' he => ?_⟩
        · obtain ⟨j, rfl, hj⟩ := hpaths p hp
          exact ⟨j + 1, by rw [hshift], hj⟩
        · cases j with
          | zero =>
            obtain rfl := Option.some.inj he
            rw [Bool.or_eq_true, decide_eq_true_eq] at hstatic
            exact Or.inr hstatic
          | succ j =>
            rw [← hshift]
            exact hothers j e' he
      · cases h

theorem lookupPath_inj {j : Nat} (h : lookupPath i = lookupPath j) : i = j := by
  simpa [lookupPath] using h

/-- A rule that is accepted, with all the references to the set in it. -/
theorem reviewRule_spec {rule : Dict} {paths : List Path} {name : Str}
    (h : reviewRule rule paths name protocol = true) :
    ∃ exprs index, Dict.get rule "expr" = some (.arr exprs) ∧ paths = [lookupPath index] ∧
      TerminalLookup protocol name exprs index := by
  unfold reviewRule at h
  rw [Bool.and_eq_true] at h
  replace h := h.2
  split at h
  · rename_i exprs hexpr
    simp only [Bool.and_eq_true, decide_eq_true_eq] at h
    obtain ⟨⟨⟨hmin, -⟩, hlast⟩, hfound⟩ := h
    split at hfound
    · rename_i found hlookups
      simp only [Bool.and_eq_true, decide_eq_true_eq] at hfound
      obtain ⟨hone, rfl⟩ := hfound
      obtain ⟨p, rfl⟩ := List.length_eq_one_iff.mp hone
      obtain ⟨hpaths, hothers⟩ := lookups_spec hlookups
      obtain ⟨index, rfl, hsource⟩ := hpaths p (List.mem_singleton_self _)
      have hbound : index < exprs.dropLast.length := (List.getElem?_eq_some_iff.mp hsource).1
      have hinit : ∀ j, j + 1 < exprs.length → exprs.dropLast[j]? = exprs[j]? := by
        intro j hj
        rw [List.getElem?_dropLast, if_pos (by omega)]
      rw [List.length_dropLast] at hbound
      rw [Nat.zero_add]
      refine ⟨exprs, index, hexpr, rfl, ?_, by omega, ?_, ?_⟩
      · rw [← hinit index (by omega)]
        exact hsource
      · obtain ⟨e, he, hterminal⟩ := (Option.any_eq_true _ _).mp hlast
        obtain ⟨kind, verdict, hkind, rfl⟩ := terminal_verdict hterminal
        exact ⟨kind, verdict, hkind, he, hterminal⟩
      · intro j e hj hlt he
        rw [← hinit j hlt] at he
        refine (hothers j e he).resolve_left fun hmem => hj ?_
        rw [Nat.zero_add, Nat.zero_add] at hmem
        exact lookupPath_inj (List.mem_singleton.mp hmem)
    · cases hfound
  · cases h

/-! ### One set -/

theorem exists_of_mapM {α β : Type} {f : α → Option β} {xs : List α} {ys : List β}
    (h : xs.mapM f = some ys) {x : α} (hx : x ∈ xs) : ∃ y, f x = some y := by
  induction xs generalizing ys with
  | nil => cases hx
  | cons a xs ih =>
    rw [List.mapM_cons] at h
    obtain ⟨y, hy, hrest⟩ := Option.bind_eq_some_iff.mp h
    obtain ⟨ys, hys, -⟩ := Option.bind_eq_some_iff.mp hrest
    rcases List.mem_cons.mp hx with rfl | hx
    · exact ⟨y, hy⟩
    · exact ih hys hx

theorem checkDefinition_protocol {family : Str} {definition : Dict}
    (h : checkDefinition family definition = some protocol) :
    protocol = "ip" ∨ protocol = "ip6" := by
  unfold checkDefinition at h
  obtain ⟨-, -, h⟩ := Option.bind_eq_some_iff.mp h
  obtain ⟨⟨version, p⟩, hversion, h⟩ := Option.bind_eq_some_iff.mp h
  obtain ⟨-, -, h⟩ := Option.bind_eq_some_iff.mp h
  obtain ⟨-, -, h⟩ := Option.bind_eq_some_iff.mp h
  obtain ⟨-, -, h⟩ := Option.bind_eq_some_iff.mp h
  have hp : p = "ip" ∨ p = "ip6" := by
    unfold addressVersion at hversion
    split at hversion
    · exact Or.inl (Prod.mk.inj (Option.some.inj hversion)).2.symm
    · split at hversion
      · exact Or.inr (Prod.mk.inj (Option.some.inj hversion)).2.symm
      · cases hversion
  split at h
  · obtain ⟨-, -, h⟩ := Option.bind_eq_some_iff.mp h
    obtain rfl := Option.some.inj h
    exact hp
  · cases h

/-- What one object of the table may do with the set. -/
def Reviewed (identity : Identity) (protocol : String) (index i : Nat) (kind : Str) (body : Dict) :
    Prop :=
  (∀ u, Occurs identity.name (.obj [(kind, .obj body)]) u →
    i = index ∧ u = .value [.named "set", .named "name"]) ∨
  kind = Str.ofString "rule" ∧ ∃ exprs j, Dict.get body "expr" = some (.arr exprs) ∧
    TerminalLookup protocol identity.name exprs j ∧
    ∀ u, Occurs identity.name (.obj [(kind, .obj body)]) u → u = .value (lookupPath j)

theorem reviewObject_spec {identity : Identity} {index : Nat} {kind : Str} {body : Dict}
    {referenced : Bool}
    (h : reviewObject identity protocol index (.obj [(kind, .obj body)], i) = some referenced)
    (htable : inTable identity kind body = true) :
    Reviewed identity protocol index i kind body := by
  have hmem : ∀ u, Occurs identity.name (.obj [(kind, .obj body)]) u →
      u.path ∈ referencePaths identity.name (.obj [(kind, .obj body)]) [] := fun u hu => hu.mem []
  unfold reviewObject at h
  simp only [htable, Bool.not_true, Bool.false_eq_true, if_false] at h
  generalize hpaths : (if kind = Str.ofString "set" && i = index then
    (referencePaths identity.name (.obj [(kind, .obj body)]) []).filter
      fun path => path ≠ [.named "set", .named "name"]
    else referencePaths identity.name (.obj [(kind, .obj body)]) []) = paths at h
  -- A use is left over unless it is the name of the definition.
  have hleft : ∀ u, Occurs identity.name (.obj [(kind, .obj body)]) u →
      u.path ∈ paths ∨ i = index ∧ u = .value [.named "set", .named "name"] := by
    intro u hu
    rw [← hpaths]
    split
    · rename_i hdefinition
      by_cases hu' : u.path = [.named "set", .named "name"]
      · simp only [Bool.and_eq_true, decide_eq_true_eq] at hdefinition
        exact Or.inr ⟨hdefinition.2, Use.eq_value [] hu' (named_ne (by decide))⟩
      · exact Or.inl (List.mem_filter.mpr ⟨hmem u hu, by simpa using hu'⟩)
    · exact Or.inl (hmem u hu)
  split at h
  · rename_i hnone
    refine Or.inl fun u hu => (hleft u hu).resolve_left fun hin => ?_
    rw [List.isEmpty_iff.mp hnone] at hin
    cases hin
  · split at h
    · cases h
    · rename_i hkind
      have hkind := not_not.mp hkind
      split at h
      · rename_i hrule
        obtain ⟨exprs, j, hexpr, rfl, hlookup⟩ := reviewRule_spec hrule
        refine Or.inr ⟨hkind, exprs, j, hexpr, hlookup, fun u hu => ?_⟩
        have hin : u.path ∈ [lookupPath j] := by
          have hset : ¬(kind = Str.ofString "set" && i = index) = true := by
            rw [hkind, Bool.and_eq_true, decide_eq_true_eq]
            exact fun hboth => absurd hboth.1 (by decide)
          rw [← hpaths, if_neg hset]
          exact hmem u hu
        exact Use.eq_value [.named "rule", .named "expr", .index j]
          (List.mem_singleton.mp hin) (named_ne (by decide))
      · cases h

/-- **The review of one set**: it is defined once, and every object of its table is reviewed. -/
theorem reviewSet_spec {items : List Value} {identity : Identity} {index : Nat}
    (h : reviewSet items identity = some index) :
    (∀ i w, items[i]? = some w → (isDefinition identity w = true ↔ i = index)) ∧
    ∃ protocol, (protocol = "ip" ∨ protocol = "ip6") ∧
      ∀ i kind body, items[i]? = some (.obj [(kind, .obj body)]) →
        inTable identity kind body = true → Reviewed identity protocol index i kind body := by
  unfold reviewSet at h
  split at h
  · rename_i kind definition at' hfound
    obtain ⟨protocol, hprotocol, h⟩ := Option.bind_eq_some_iff.mp h
    obtain ⟨referenced, hreferenced, h⟩ := Option.bind_eq_some_iff.mp h
    obtain ⟨-, -, h⟩ := Option.bind_eq_some_iff.mp h
    obtain rfl := Option.some.inj h
    have hmem : ∀ i w, items[i]? = some w → (w, i) ∈ items.zipIdx := fun i w hw =>
      List.mem_zipIdx_iff_getElem?.mpr hw
    have hself : (.obj [(kind, .obj definition)], at') ∈
        items.zipIdx.filter (fun w => isDefinition identity w.1) := by
      rw [hfound]
      exact List.mem_singleton_self _
    obtain ⟨hin, hdefinition⟩ := List.mem_filter.mp hself
    refine ⟨fun i w hw => ⟨fun hw' => ?_, ?_⟩, protocol, checkDefinition_protocol hprotocol,
      fun i kind body hw htable => ?_⟩
    · have hother : (w, i) ∈ items.zipIdx.filter (fun w => isDefinition identity w.1) :=
        List.mem_filter.mpr ⟨hmem i w hw, hw'⟩
      rw [hfound] at hother
      exact (Prod.mk.inj (List.mem_singleton.mp hother)).2
    · intro heq
      subst heq
      have hw' := List.mem_zipIdx_iff_getElem?.mp hin
      obtain rfl := Option.some.inj (hw.symm.trans hw')
      exact hdefinition
    · obtain ⟨b, hb⟩ := exists_of_mapM hreferenced (hmem i _ hw)
      exact reviewObject_spec hb htable
  · cases h

/-! ### The result -/

/-- An object without the members of the set it defines. -/
def shell : Value → Value
  | .obj [(kind, .obj body)] => .obj [(kind, .obj (Dict.erase "elem" body))]
  | w => w

theorem shell_hideMembers (w : Value) : shell (hideMembers w) = shell w := by
  unfold hideMembers
  split
  · simp only [shell, Dict.erase_put]
  · rfl

theorem isDefinition_shell (identity : Identity) (w : Value) :
    isDefinition identity (shell w) = isDefinition identity w := by
  have hget : ∀ (body : Dict) (key : String), Str.ofString key ≠ Str.ofString "elem" →
      Dict.get (Dict.erase "elem" body) key = Dict.get body key := fun body key h =>
    Dict.get_erase_ne h body
  unfold shell
  split
  · simp only [isDefinition, hget _ "family" (by decide), hget _ "table" (by decide),
      hget _ "name" (by decide)]
  · rfl

theorem shell_eq_of_isDefinition {identity : Identity} {w : Value}
    (h : isDefinition identity w = true) : ∃ body, w = .obj [(Str.ofString "set", .obj body)] := by
  unfold isDefinition at h
  split at h
  · rename_i kind body
    simp only [Bool.and_eq_true, decide_eq_true_eq] at h
    exact ⟨body, by rw [h.1.1.1]⟩
  · cases h

variable {identities : List Str}

/-- The loop over the identities: every one is reviewed, the result has the shells of the objects,
and an object that is not where a set was found is kept. -/
theorem foldlM_spec {items : List Value} {start result : List Value}
    (h : identities.foldlM (fun result s => do
      let identity ← parseIdentity s
      let index ← reviewSet items identity
      return result.modify index hideMembers) start = some result) :
    (∀ s ∈ identities, ∃ identity index, parseIdentity s = some identity ∧
      reviewSet items identity = some index) ∧
    (∀ i : Nat, result[i]?.map shell = start[i]?.map shell) ∧
    ∀ i : Nat, (∀ s ∈ identities, ∀ identity, parseIdentity s = some identity →
      reviewSet items identity ≠ some i) → result[i]? = start[i]? := by
  induction identities generalizing start with
  | nil =>
    obtain rfl := Option.some.inj h
    exact ⟨fun s hs => (by cases hs), fun _ => rfl, fun _ _ => rfl⟩
  | cons s identities ih =>
    rw [List.foldlM_cons] at h
    obtain ⟨next, hnext, h⟩ := Option.bind_eq_some_iff.mp h
    obtain ⟨identity, hidentity, hnext⟩ := Option.bind_eq_some_iff.mp hnext
    obtain ⟨index, hindex, hnext⟩ := Option.bind_eq_some_iff.mp hnext
    obtain rfl := Option.some.inj hnext
    obtain ⟨hreviewed, hshell, hkept⟩ := ih h
    refine ⟨fun t ht => ?_, fun i => ?_, fun i hi => ?_⟩
    · rcases List.mem_cons.mp ht with rfl | ht
      · exact ⟨identity, index, hidentity, hindex⟩
      · exact hreviewed t ht
    · rw [hshell]
      by_cases hi : index = i
      · subst hi
        rw [List.getElem?_modify_eq]
        cases start[index]? with
        | none => rfl
        | some w => exact congrArg some (shell_hideMembers w)
      · rw [List.getElem?_modify_ne _ _ hi]
    · have hne : index ≠ i := by
        intro heq
        subst heq
        exact hi s (List.mem_cons_self ..) identity hidentity hindex
      rw [hkept i fun t ht => hi t (List.mem_cons_of_mem _ ht), List.getElem?_modify_ne _ _ hne]

theorem terminalSetSnapshot_spec {items result : List Value}
    (h : terminalSetSnapshot items identities = some result) :
    (∀ s ∈ identities, ∃ identity index, parseIdentity s = some identity ∧
      reviewSet items identity = some index) ∧
    (∀ i : Nat, result[i]?.map shell = items[i]?.map shell) ∧
    ∀ i : Nat, (∀ s ∈ identities, ∀ identity, parseIdentity s = some identity →
      reviewSet items identity ≠ some i) → result[i]? = items[i]? := by
  unfold terminalSetSnapshot at h
  obtain ⟨-, -, h⟩ := Option.bind_eq_some_iff.mp h
  obtain ⟨-, -, h⟩ := Option.bind_eq_some_iff.mp h
  exact foldlM_spec h

/-- Two objects that are the same, or define the same enrolled set and differ in its members. -/
def SameBut (identities : List Str) (w w' : Value) : Prop :=
  w = w' ∨ ∃ s ∈ identities, ∃ identity body body', parseIdentity s = some identity ∧
    w = .obj [(Str.ofString "set", .obj body)] ∧ w' = .obj [(Str.ofString "set", .obj body')] ∧
    isDefinition identity w = true ∧ isDefinition identity w' = true ∧
    Dict.erase "elem" body = Dict.erase "elem" body'

theorem sameBut_of_shell {s : Str} (hs : s ∈ identities) {identity : Identity}
    (hidentity : parseIdentity s = some identity) {w w' : Value} (hshell : shell w = shell w')
    (h : isDefinition identity w = true) : SameBut identities w w' := by
  have h' : isDefinition identity w' = true := by
    rwa [← isDefinition_shell, ← hshell, isDefinition_shell]
  obtain ⟨body, rfl⟩ := shell_eq_of_isDefinition h
  obtain ⟨body', rfl⟩ := shell_eq_of_isDefinition h'
  refine Or.inr ⟨s, hs, identity, body, body', hidentity, rfl, rfl, h, h', ?_⟩
  simpa [shell] using hshell

/-- **Only members are hidden.** Snapshots with the same result differ in nothing but the members of
enrolled sets; and in a snapshot that is accepted, every use of the name of an enrolled set in its
own table is the name of the definition, or the one lookup of a rule that denies. -/
theorem only_members_hidden {items items' result : List Value} {identities : List Str}
    (h : terminalSetSnapshot items identities = some result)
    (h' : terminalSetSnapshot items' identities = some result) :
    List.Forall₂ (SameBut identities) items items' ∧
    ∀ s ∈ identities, ∃ identity index protocol, parseIdentity s = some identity ∧
      (protocol = "ip" ∨ protocol = "ip6") ∧
      (∀ i w, items[i]? = some w → (isDefinition identity w = true ↔ i = index)) ∧
      ∀ i kind body, items[i]? = some (.obj [(kind, .obj body)]) →
        inTable identity kind body = true → Reviewed identity protocol index i kind body := by
  obtain ⟨hreviewed, hshell, hkept⟩ := terminalSetSnapshot_spec h
  obtain ⟨-, hshell', hkept'⟩ := terminalSetSnapshot_spec h'
  have hboth : ∀ i : Nat, items[i]?.map shell = items'[i]?.map shell := fun i =>
    (hshell i).symm.trans (hshell' i)
  refine ⟨?_, fun s hs => ?_⟩
  · rw [List.forall₂_iff_get]
    have hlength : items.length = items'.length := by
      have hmap : items.map shell = items'.map shell := List.ext_getElem? fun i => by
        rw [List.getElem?_map, List.getElem?_map, hboth i]
      simpa only [List.length_map] using congrArg List.length hmap
    refine ⟨hlength, fun i hi hi' => ?_⟩
    have hget : items[i]? = some (items.get ⟨i, hi⟩) := List.getElem?_eq_getElem hi
    have hget' : items'[i]? = some (items'.get ⟨i, hi'⟩) := List.getElem?_eq_getElem hi'
    have hsame := hboth i
    rw [hget, hget'] at hsame
    have hsame : shell (items.get ⟨i, hi⟩) = shell (items'.get ⟨i, hi'⟩) := Option.some.inj hsame
    by_cases hset : ∃ s ∈ identities, ∃ identity, parseIdentity s = some identity ∧
        (reviewSet items identity = some i ∨ reviewSet items' identity = some i)
    · obtain ⟨s, hs, identity, hidentity, hindex | hindex⟩ := hset
      · exact sameBut_of_shell hs hidentity hsame
          (((reviewSet_spec hindex).1 i _ hget).mpr rfl)
      · have hdefinition := ((reviewSet_spec hindex).1 i _ hget').mpr rfl
        rw [← isDefinition_shell, ← hsame, isDefinition_shell] at hdefinition
        exact sameBut_of_shell hs hidentity hsame hdefinition
    · have hkeep := hkept i fun s hs identity hid hindex =>
        hset ⟨s, hs, identity, hid, Or.inl hindex⟩
      have hkeep' := hkept' i fun s hs identity hid hindex =>
        hset ⟨s, hs, identity, hid, Or.inr hindex⟩
      exact Or.inl (Option.some.inj (hget.symm.trans ((hkeep.symm.trans hkeep').trans hget')))
  · obtain ⟨identity, index, hidentity, hindex⟩ := hreviewed s hs
    obtain ⟨honly, protocol, hprotocol, hall⟩ := reviewSet_spec hindex
    exact ⟨identity, index, protocol, hidentity, hprotocol, honly, hall⟩

/-! ### A small snapshot -/

/-- A table with a set of denied sources, and the rule that denies them. -/
def smallSnapshot (members : List String) : List Value :=
  [dict [("table", dict [("family", text "inet"), ("name", text "synthetic")])],
    dict [("set", dict [("elem", .arr (members.map text)), ("family", text "inet"),
      ("name", text "denied"), ("table", text "synthetic"), ("type", text "ipv4_addr")])],
    dict [("rule", dict [("chain", text "entry"),
      ("expr", .arr [dict [("match", dict [("left", payload "tcp" "dport"), ("op", text "=="),
          ("right", .int 8443)])],
        sourceLookup "ip" (Str.ofString "denied"), emptyCounter, dict [("drop", .null)]]),
      ("family", text "inet"), ("table", text "synthetic")])]]

def smallIdentities : List Str := [Str.ofString "inet/synthetic/denied"]

theorem smallSnapshot_accepted :
    terminalSetSnapshot (smallSnapshot ["192.0.2.8"]) smallIdentities
        = terminalSetSnapshot (smallSnapshot ["192.0.2.9", "198.51.100.5"]) smallIdentities ∧
      (terminalSetSnapshot (smallSnapshot ["192.0.2.8"]) smallIdentities).isSome = true := by
  decide +kernel

/-- The members of the set are changed, and nothing else could have been. -/
theorem small_members_hidden :
    List.Forall₂ (SameBut smallIdentities) (smallSnapshot ["192.0.2.8"])
      (smallSnapshot ["192.0.2.9", "198.51.100.5"]) := by
  obtain ⟨hsame, hsome⟩ := smallSnapshot_accepted
  obtain ⟨result, hresult⟩ := Option.isSome_iff_exists.mp hsome
  exact (only_members_hidden hresult (hsame.symm.trans hresult)).1

end RiskOps.Telemetry.Guard
