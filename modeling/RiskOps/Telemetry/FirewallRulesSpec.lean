import RiskOps.Telemetry.FirewallRules

/-!
# RiskOps.Telemetry.FirewallRulesSpec — what a fingerprint of the rules leaves out

Two snapshots have one normal form exactly when they are the same line by line, or object by object,
but for what is dropped (`normal_forms_exact`). What may differ is said by relations of its own:
`SameLine` for the lines of `iptables-save`, `SameObject` for the objects of `nft`. A normal form is
a list of partial results, so each level is compared by `mapM_eq_iff`.

The counters of the elements of a set are not dropped (`element_counter_kept`).
-/

namespace RiskOps.Telemetry.Firewall

open RiskOps.Lib (Str)
open RiskOps.Lib.PyJson
open RiskOps.Telemetry.Guard (emptyCounter)

/-- Two lists have the same results when their items are related one by one. -/
theorem mapM_eq_iff {α β : Type} {f : α → Option β} {R : α → α → Prop} {xs ys : List α}
    {as bs : List β} (hxs : xs.mapM f = some as) (hys : ys.mapM f = some bs)
    (h : ∀ x y a b, f x = some a → f y = some b → (a = b ↔ R x y)) :
    as = bs ↔ List.Forall₂ R xs ys := by
  induction xs generalizing ys as bs with
  | nil =>
    obtain rfl := Option.some.inj hxs
    cases ys with
    | nil =>
      obtain rfl := Option.some.inj hys
      exact ⟨fun _ => .nil, fun _ => rfl⟩
    | cons y ys =>
      rw [List.mapM_cons] at hys
      obtain ⟨b, -, hys⟩ := Option.bind_eq_some_iff.mp hys
      obtain ⟨bs', -, hys⟩ := Option.bind_eq_some_iff.mp hys
      obtain rfl := Option.some.inj hys
      exact ⟨fun heq => (by cases heq), fun hall => (by cases hall)⟩
  | cons x xs ih =>
    rw [List.mapM_cons] at hxs
    obtain ⟨a, ha, hxs⟩ := Option.bind_eq_some_iff.mp hxs
    obtain ⟨as', has, hxs⟩ := Option.bind_eq_some_iff.mp hxs
    obtain rfl := Option.some.inj hxs
    cases ys with
    | nil =>
      obtain rfl := Option.some.inj hys
      exact ⟨fun heq => (by cases heq), fun hall => (by cases hall)⟩
    | cons y ys =>
      rw [List.mapM_cons] at hys
      obtain ⟨b, hb, hys⟩ := Option.bind_eq_some_iff.mp hys
      obtain ⟨bs', hbs, hys⟩ := Option.bind_eq_some_iff.mp hys
      obtain rfl := Option.some.inj hys
      rw [List.cons.injEq, List.forall₂_cons, h x y a b ha hb, ih has hbs]

/-! ### iptables-save -/

/-- Two lines with the same tokens, but for the counters of a chain declaration. -/
inductive SameTokens : List Str → List Str → Prop
  | refl (tokens : List Str) : SameTokens tokens tokens
  | chain {name policy counters counters' : Str} (h : isCounters counters = true)
      (h' : isCounters counters' = true) :
      SameTokens [58 :: name, policy, counters] [58 :: name, policy, counters']

def SameLine (line line' : Str) : Prop :=
  ∃ tokens tokens', Lib.Shlex.split line = some tokens ∧ Lib.Shlex.split line' = some tokens' ∧
    SameTokens tokens tokens'

/-- The lines that are no comments. -/
def ruleLines (text : Str) : List Str := (Storage.splitlines text).filter fun l => !isComment l

/-- What a line that is accepted may look like. -/
theorem checkLine_cases {inTable inTable' : Bool} {tokens : List Str}
    (h : checkLine inTable tokens = some inTable') :
    (∃ name policy counters, tokens = [58 :: name, policy, counters] ∧
      isCounters counters = true) ∨ ∀ name rest, tokens ≠ (58 :: name) :: rest := by
  unfold checkLine at h
  split at h
  · rename_i htable
    refine Or.inr fun name rest heq => ?_
    rw [heq] at htable
    cases htable
  · split at h
    · rename_i hcommit
      refine Or.inr fun name rest heq => ?_
      rw [hcommit] at heq
      exact absurd (List.cons.inj heq).1 (by simp [Str.ofString])
    · split at h
      · rename_i name rest _ _
        split at h
        · rename_i hchain
          simp only [Bool.and_eq_true, decide_eq_true_eq] at hchain
          obtain ⟨⟨-, hlength⟩, hlast⟩ := hchain
          obtain ⟨policy, counters, rfl⟩ := List.length_eq_two.mp (Nat.succ.inj hlength)
          exact Or.inl ⟨name, policy, counters, rfl, by simpa using hlast⟩
        · cases h
      · rename_i hother
        exact Or.inr fun name rest heq => hother name rest heq

theorem dropCounters_chain {name policy counters : Str} (h : isCounters counters = true) :
    dropCounters [58 :: name, policy, counters] = [58 :: name, policy] := by
  rw [dropCounters, if_pos h]

theorem dropCounters_other {tokens : List Str} (h : ∀ name rest, tokens ≠ (58 :: name) :: rest) :
    dropCounters tokens = tokens := by
  unfold dropCounters
  split
  · exact absurd rfl (h _ _)
  · rfl

theorem dropCounters_eq_iff {a a' b b' : Bool} {tokens tokens' : List Str}
    (h : checkLine a tokens = some b) (h' : checkLine a' tokens' = some b') :
    dropCounters tokens = dropCounters tokens' ↔ SameTokens tokens tokens' := by
  constructor
  · intro heq
    rcases checkLine_cases h with ⟨name, policy, counters, rfl, hc⟩ | hother <;>
      rcases checkLine_cases h' with ⟨name', policy', counters', rfl, hc'⟩ | hother'
    · rw [dropCounters_chain hc, dropCounters_chain hc'] at heq
      obtain ⟨hname, htail⟩ := List.cons.inj heq
      obtain rfl := (List.cons.inj hname).2
      obtain rfl := (List.cons.inj htail).1
      exact .chain hc hc'
    · rw [dropCounters_chain hc, dropCounters_other hother'] at heq
      exact absurd heq.symm (hother' _ _)
    · rw [dropCounters_chain hc', dropCounters_other hother] at heq
      exact absurd heq (hother _ _)
    · rw [dropCounters_other hother, dropCounters_other hother'] at heq
      rw [heq]
      exact .refl _
  · intro hsame
    cases hsame with
    | refl => rfl
    | chain hc hc' => rw [dropCounters_chain hc, dropCounters_chain hc']

/-- One line that is accepted, and its normal form. -/
def normalizeLine (line : Str) : Option (List Str) := do
  let tokens ← Lib.Shlex.split line
  guard ((checkLine true tokens).isSome || (checkLine false tokens).isSome)
  return dropCounters tokens

theorem normalizeLine_eq {line : Str} {rule : List Str} (h : normalizeLine line = some rule) :
    ∃ tokens a b, Lib.Shlex.split line = some tokens ∧ checkLine a tokens = some b ∧
      rule = dropCounters tokens := by
  obtain ⟨tokens, htokens, h⟩ := Option.bind_eq_some_iff.mp h
  obtain ⟨_, hcheck, h⟩ := Option.bind_eq_some_iff.mp h
  obtain rfl := Option.some.inj h
  rw [Option.guard_eq_some', Bool.or_eq_true] at hcheck
  rcases hcheck with hcheck | hcheck
  all_goals
    obtain ⟨b, hb⟩ := Option.isSome_iff_exists.mp hcheck
    exact ⟨tokens, _, b, htokens, hb, rfl⟩

theorem normalizeLine_eq_iff {line line' : Str} {rule rule' : List Str}
    (h : normalizeLine line = some rule) (h' : normalizeLine line' = some rule') :
    rule = rule' ↔ SameLine line line' := by
  obtain ⟨tokens, a, b, htokens, hcheck, rfl⟩ := normalizeLine_eq h
  obtain ⟨tokens', a', b', htokens', hcheck', rfl⟩ := normalizeLine_eq h'
  rw [dropCounters_eq_iff hcheck hcheck']
  constructor
  · exact fun hsame => ⟨tokens, tokens', htokens, htokens', hsame⟩
  · intro ⟨ts, ts', hts, hts', hsame⟩
    obtain rfl := Option.some.inj (htokens.symm.trans hts)
    obtain rfl := Option.some.inj (htokens'.symm.trans hts')
    exact hsame

/-- The loop normalizes the lines one by one. -/
theorem normalizeLines_spec {inTable : Bool} {lines : List Str} {rules : List (List Str)}
    (h : normalizeLines true inTable lines = some rules) :
    (lines.filter fun l => !isComment l).mapM normalizeLine = some rules := by
  induction lines generalizing inTable rules with
  | nil =>
    unfold normalizeLines at h
    split at h
    · cases h
    · exact h
  | cons line lines ih =>
    unfold normalizeLines at h
    split at h
    · rename_i hcomment
      rw [List.filter_cons_of_neg (by simp [hcomment])]
      exact ih h
    · rename_i hcomment
      obtain ⟨tokens, htokens, h⟩ := Option.bind_eq_some_iff.mp h
      obtain ⟨next, hnext, h⟩ := Option.bind_eq_some_iff.mp h
      obtain ⟨rest, hrest, h⟩ := Option.bind_eq_some_iff.mp h
      obtain rfl := Option.some.inj h
      have hline : normalizeLine line = some (dropCounters tokens) := by
        have hsome : ((checkLine true tokens).isSome || (checkLine false tokens).isSome) = true := by
          cases inTable with
          | true => rw [hnext]; rfl
          | false => rw [hnext, Bool.or_comm]; rfl
        have hguard : (guard (((checkLine true tokens).isSome ||
            (checkLine false tokens).isSome) = true) : Option Unit) = some () := if_pos hsome
        refine Option.bind_eq_some_iff.mpr ⟨tokens, htokens, ?_⟩
        exact Option.bind_eq_some_iff.mpr ⟨(), hguard, rfl⟩
      rw [List.filter_cons_of_pos (by simpa using hcomment), List.mapM_cons, hline, ih hrest]
      rfl

/-! ### Expressions -/

/-- A counter without values, or with its two values. -/
def IsCounter (counter : Dict) : Prop :=
  counter = [] ∨ hasCounterValues counter = true ∧ (counter.all fun m => isNatural m.2) = true

/-- Two expressions that are the same, or both counters. -/
inductive SameExpr : Value → Value → Prop
  | refl (e : Value) : SameExpr e e
  | counter {c c' : Dict} (h : IsCounter c) (h' : IsCounter c') :
      SameExpr (.obj [(Str.ofString "counter", .obj c)]) (.obj [(Str.ofString "counter", .obj c')])

theorem normalizeExpr_counter {c : Dict} (h : IsCounter c) :
    normalizeExpr (.obj [(Str.ofString "counter", .obj c)]) = some emptyCounter := by
  rcases h with rfl | ⟨hvalues, hall⟩
  · rfl
  · rw [normalizeExpr, hvalues, if_pos (by rfl), if_pos hall]

theorem normalizeExpr_cases {e a : Value} (h : normalizeExpr e = some a) :
    (∃ c, IsCounter c ∧ e = .obj [(Str.ofString "counter", .obj c)] ∧ a = emptyCounter) ∨ a = e := by
  unfold normalizeExpr at h
  split at h
  · rename_i key c
    split at h
    · rename_i hcounter
      rw [Bool.and_eq_true, decide_eq_true_eq] at hcounter
      obtain ⟨rfl, hvalues⟩ := hcounter
      split at h
      · rename_i hall
        exact Or.inl ⟨c, Or.inr ⟨hvalues, hall⟩, rfl, (Option.some.inj h).symm⟩
      · cases h
    · exact Or.inr (Option.some.inj h).symm
  · exact Or.inr (Option.some.inj h).symm
  · cases h

theorem normalizeExpr_eq_iff {e e' a a' : Value} (h : normalizeExpr e = some a)
    (h' : normalizeExpr e' = some a') : a = a' ↔ SameExpr e e' := by
  constructor
  · intro heq
    rcases normalizeExpr_cases h with ⟨c, hc, rfl, ha⟩ | rfl <;>
      rcases normalizeExpr_cases h' with ⟨c', hc', rfl, ha'⟩ | rfl
    · exact .counter hc hc'
    · rw [← heq, ha]
      exact .counter hc (Or.inl rfl)
    · rw [heq, ha']
      exact .counter (Or.inl rfl) hc'
    · rw [heq]
      exact .refl _
  · intro hsame
    cases hsame with
    | refl => exact Option.some.inj (h.symm.trans h')
    | counter hc hc' =>
      rw [normalizeExpr_counter hc] at h
      rw [normalizeExpr_counter hc'] at h'
      exact (Option.some.inj h).symm.trans (Option.some.inj h')

/-! ### Objects -/

/-- Two objects of one kind that are the same but for the handle and the values of counters. -/
inductive SameObject : Str → Dict → Dict → Prop
  | rule {b b' : Dict} {es es' : List Value} (h : Dict.get b "expr" = some (.arr es))
      (h' : Dict.get b' "expr" = some (.arr es')) (exprs : List.Forall₂ SameExpr es es')
      (fields : Dict.erase "expr" (Dict.erase "handle" b) =
        Dict.erase "expr" (Dict.erase "handle" b')) :
      SameObject (Str.ofString "rule") b b'
  | counter {b b' : Dict}
      (fields : Dict.erase "bytes" (Dict.erase "packets" (Dict.erase "handle" b)) =
        Dict.erase "bytes" (Dict.erase "packets" (Dict.erase "handle" b'))) :
      SameObject (Str.ofString "counter") b b'
  | other {kind : Str} {b b' : Dict} (hrule : kind ≠ Str.ofString "rule")
      (hcounter : kind ≠ Str.ofString "counter")
      (fields : Dict.erase "handle" b = Dict.erase "handle" b') : SameObject kind b b'

inductive SameWrapper : Value → Value → Prop
  | mk {kind : Str} {b b' : Dict} (h : SameObject kind b b') :
      SameWrapper (.obj [(kind, .obj b)]) (.obj [(kind, .obj b')])

theorem dropHandle_eq {b d : Dict} (h : dropHandle b = some d) : d = Dict.erase "handle" b := by
  unfold dropHandle at h
  split at h
  · rename_i hnone
    obtain rfl := Option.some.inj h
    exact (Dict.erase_of_get hnone).symm
  · split at h
    · exact (Option.some.inj h).symm
    · cases h

theorem normalizeRule_eq {b a : Dict} (h : normalizeRule (Dict.erase "handle" b) = some a) :
    ∃ es rs, Dict.get b "expr" = some (.arr es) ∧ es.mapM normalizeExpr = some rs ∧
      a = Dict.put "expr" (.arr rs) (Dict.erase "handle" b) := by
  obtain ⟨_, -, h⟩ := Option.bind_eq_some_iff.mp h
  rw [Dict.get_erase_ne (by decide)] at h
  split at h
  · rename_i es hes
    obtain ⟨rs, hrs, h⟩ := Option.bind_eq_some_iff.mp h
    exact ⟨es, rs, hes, hrs, (Option.some.inj h).symm⟩
  · cases h

theorem dropCounterValues_eq {d a : Dict} (h : dropCounterValues d = some a) :
    a = Dict.erase "bytes" (Dict.erase "packets" d) := by
  obtain ⟨_, -, h⟩ := Option.bind_eq_some_iff.mp h
  exact (Option.some.inj h).symm

/-- The normal form of an object, by its kind. -/
theorem normalizeObject_cases {kind : Str} {b a : Dict} (h : normalizeObject kind b = some a) :
    (kind = Str.ofString "rule" ∧ normalizeRule (Dict.erase "handle" b) = some a) ∨
    (kind = Str.ofString "counter" ∧
      a = Dict.erase "bytes" (Dict.erase "packets" (Dict.erase "handle" b))) ∨
    kind ≠ Str.ofString "rule" ∧ kind ≠ Str.ofString "counter" ∧ a = Dict.erase "handle" b := by
  obtain ⟨_, -, h⟩ := Option.bind_eq_some_iff.mp h
  obtain ⟨d, hd, h⟩ := Option.bind_eq_some_iff.mp h
  obtain rfl := dropHandle_eq hd
  split at h
  · rename_i hrule
    exact Or.inl ⟨hrule, h⟩
  · rename_i hrule
    split at h
    · rename_i hcounter
      exact Or.inr (Or.inl ⟨hcounter, dropCounterValues_eq h⟩)
    · rename_i hcounter
      exact Or.inr (Or.inr ⟨hrule, hcounter, (Option.some.inj h).symm⟩)

theorem normalizeRule_eq_iff {b b' a a' : Dict}
    (h : normalizeRule (Dict.erase "handle" b) = some a)
    (h' : normalizeRule (Dict.erase "handle" b') = some a') :
    a = a' ↔ SameObject (Str.ofString "rule") b b' := by
  obtain ⟨es, rs, hes, hrs, rfl⟩ := normalizeRule_eq h
  obtain ⟨es', rs', hes', hrs', rfl⟩ := normalizeRule_eq h'
  have hexprs := mapM_eq_iff hrs hrs' fun e e' a a' => normalizeExpr_eq_iff
  constructor
  · intro heq
    obtain ⟨hrs, hfields⟩ := Dict.put_inj heq
    exact .rule hes hes' (hexprs.mp (Value.arr.inj hrs)) hfields
  · intro hsame
    cases hsame with
    | rule h h' exprs fields =>
      obtain rfl := Value.arr.inj (Option.some.inj (hes.symm.trans h))
      obtain rfl := Value.arr.inj (Option.some.inj (hes'.symm.trans h'))
      rw [hexprs.mpr exprs, Dict.put, Dict.put, fields]
    | other hrule _ _ => exact absurd rfl hrule

theorem normalizeObject_eq_iff {kind : Str} {b b' a a' : Dict}
    (h : normalizeObject kind b = some a) (h' : normalizeObject kind b' = some a') :
    a = a' ↔ SameObject kind b b' := by
  rcases normalizeObject_cases h with ⟨rfl, hb⟩ | ⟨rfl, rfl⟩ | ⟨hrule, hcounter, rfl⟩
  · have hb' : normalizeRule (Dict.erase "handle" b') = some a' := by
      rcases normalizeObject_cases h' with ⟨-, hb'⟩ | ⟨hkind, -⟩ | ⟨hkind, -⟩
      · exact hb'
      · exact absurd hkind (by decide)
      · exact absurd rfl hkind
    exact normalizeRule_eq_iff hb hb'
  · have ha' : a' = Dict.erase "bytes" (Dict.erase "packets" (Dict.erase "handle" b')) := by
      rcases normalizeObject_cases h' with ⟨hkind, -⟩ | ⟨-, ha'⟩ | ⟨-, hkind, -⟩
      · exact absurd hkind (by decide)
      · exact ha'
      · exact absurd rfl hkind
    subst ha'
    refine ⟨.counter, fun hsame => ?_⟩
    cases hsame with
    | counter fields => exact fields
    | other _ hcounter _ => exact absurd rfl hcounter
  · have ha' : a' = Dict.erase "handle" b' := by
      rcases normalizeObject_cases h' with ⟨hkind, -⟩ | ⟨hkind, -⟩ | ⟨-, -, ha'⟩
      · exact absurd hkind hrule
      · exact absurd hkind hcounter
      · exact ha'
    subst ha'
    refine ⟨.other hrule hcounter, fun hsame => ?_⟩
    cases hsame with
    | rule => exact absurd rfl hrule
    | counter => exact absurd rfl hcounter
    | other _ _ fields => exact fields

/-! ### Listings -/

def isMetainfo : Value → Bool
  | .obj [(kind, _)] => kind = Str.ofString "metainfo"
  | _ => false

/-- The objects that are no metainfo. -/
def objects (items : List Value) : List Value := items.filter fun w => !isMetainfo w

def normalizeWrapper : Value → Option Value
  | .obj [(kind, .obj obj)] => (normalizeObject kind obj).map fun a => .obj [(kind, .obj a)]
  | _ => none

theorem normalizeItems_spec {metadata : Nat} {items result : List Value}
    (h : normalizeItems metadata items = some result) :
    (objects items).mapM normalizeWrapper = some result := by
  induction items generalizing metadata result with
  | nil =>
    unfold normalizeItems at h
    split at h
    · exact h
    · cases h
  | cons w items ih =>
    unfold normalizeItems at h
    split at h
    · rename_i heq
      cases heq
    · rename_i kind obj items' heq
      obtain ⟨rfl, rfl⟩ := List.cons.inj heq
      split at h
      · rename_i hmeta
        split at h
        · rw [objects, List.filter_cons_of_neg (by simp [isMetainfo, hmeta])]
          exact ih h
        · cases h
      · rename_i hmeta
        obtain ⟨a, ha, h⟩ := Option.bind_eq_some_iff.mp h
        obtain ⟨rest, hrest, h⟩ := Option.bind_eq_some_iff.mp h
        obtain rfl := Option.some.inj h
        have hwrapper : normalizeWrapper (.obj [(kind, .obj obj)]) = some (.obj [(kind, .obj a)]) := by
          rw [normalizeWrapper, ha]
          rfl
        rw [objects, List.filter_cons_of_pos (by simpa [isMetainfo] using hmeta), List.mapM_cons,
          hwrapper, show (items.filter fun w => !isMetainfo w) = objects items from rfl, ih hrest]
        rfl
    · cases h

theorem normalizeWrapper_eq_iff {w w' a a' : Value} (h : normalizeWrapper w = some a)
    (h' : normalizeWrapper w' = some a') : a = a' ↔ SameWrapper w w' := by
  unfold normalizeWrapper at h h'
  split at h
  · rename_i kind b
    obtain ⟨d, hd, rfl⟩ := Option.map_eq_some_iff.mp h
    split at h'
    · rename_i kind' b'
      obtain ⟨d', hd', rfl⟩ := Option.map_eq_some_iff.mp h'
      constructor
      · intro heq
        simp only [Value.obj.injEq, List.cons.injEq, Prod.mk.injEq, and_true] at heq
        obtain ⟨rfl, heq⟩ := heq
        exact .mk ((normalizeObject_eq_iff hd hd').mp heq)
      · intro hsame
        cases hsame with
        | mk hsame => rw [(normalizeObject_eq_iff hd hd').mpr hsame]
    · cases h'
  · cases h

/-- **The normal forms are exact.** Those of two listings of `nft` are equal if and only if the
listings are the same object by object but for metainfo, handles and the counters that are dropped;
those of two outputs of `iptables-save` if and only if these are the same line by line but for
comments and the counters of chains. -/
theorem normal_forms_exact (decode : List UInt8 → Option Value) {raw raw' save save' : List UInt8}
    {result result' : List Value} {rules rules' : List (List Str)}
    (hraw : normalizedNftRules decode raw = some result)
    (hraw' : normalizedNftRules decode raw' = some result')
    (hsave : normalizedRules true save = some rules)
    (hsave' : normalizedRules true save' = some rules') :
    (∃ v v' items items', decode raw = some v ∧ decode raw' = some v' ∧
      listingItems v = some items ∧ listingItems v' = some items' ∧
      (result = result' ↔ List.Forall₂ SameWrapper (objects items) (objects items'))) ∧
    ∃ text text', JournalCollector.decodeUtf8 save = some text ∧
      JournalCollector.decodeUtf8 save' = some text' ∧
      (rules = rules' ↔ List.Forall₂ SameLine (ruleLines text) (ruleLines text')) := by
  constructor
  · obtain ⟨_, -, hraw⟩ := Option.bind_eq_some_iff.mp hraw
    obtain ⟨v, hv, hraw⟩ := Option.bind_eq_some_iff.mp hraw
    obtain ⟨items, hitems, hraw⟩ := Option.bind_eq_some_iff.mp hraw
    obtain ⟨_, -, hraw'⟩ := Option.bind_eq_some_iff.mp hraw'
    obtain ⟨v', hv', hraw'⟩ := Option.bind_eq_some_iff.mp hraw'
    obtain ⟨items', hitems', hraw'⟩ := Option.bind_eq_some_iff.mp hraw'
    exact ⟨v, v', items, items', hv, hv', hitems, hitems',
      mapM_eq_iff (normalizeItems_spec hraw) (normalizeItems_spec hraw')
        fun w w' a a' => normalizeWrapper_eq_iff⟩
  · obtain ⟨text, htext, hsave⟩ := Option.bind_eq_some_iff.mp hsave
    obtain ⟨text', htext', hsave'⟩ := Option.bind_eq_some_iff.mp hsave'
    exact ⟨text, text', htext, htext', mapM_eq_iff (normalizeLines_spec hsave)
      (normalizeLines_spec hsave') fun l l' r r' => normalizeLine_eq_iff⟩

/-! ### Small snapshots -/

/-- The decoder of a listing in which no key is repeated. -/
def jsonDecode (raw : List UInt8) : Option Value :=
  (JournalCollector.decodeUtf8 raw).bind fun s => (loads 900 s).toOption.map sortKeys

def smallCounter (packets : Int) : String × Value :=
  ("counter", dict [("bytes", .int 0), ("packets", .int packets)])

/-- The set of the listing; its element counts. -/
def smallSet (packets : Int) : Value :=
  dict [("set", dict [("elem", .arr [dict [("elem",
      dict [smallCounter packets, ("val", text "192.0.2.1")])]]),
    ("family", text "ip"), ("name", text "s"), ("table", text "t")])]

/-- A listing with a rule that counts and a set. -/
def smallListing (version : String) (handle packets elements : Int) : List UInt8 :=
  (dumps (dict [("nftables", .arr [
    dict [("metainfo", dict [("version", text version), ("json_schema_version", .int 1)])],
    dict [("rule", dict [("family", text "ip"), ("table", text "t"), ("chain", text "c"),
      ("handle", .int handle),
      ("expr", .arr [dict [smallCounter packets], dict [("drop", .null)]])])],
    smallSet elements])])).map UInt8.ofNat

/-- The normal form of the listing. -/
def smallNormal (elements : Int) : List Value :=
  [dict [("rule", dict [("chain", text "c"), ("expr", .arr [emptyCounter, dict [("drop", .null)]]),
    ("family", text "ip"), ("table", text "t")])], smallSet elements]

theorem smallListing_normal :
    normalizedNftRules jsonDecode (smallListing "1" 4 5 7) = some (smallNormal 7) := by
  decide +kernel

/-- **Counters of set elements are kept**: when only the packets of an element of a set change, the
normal form of the listing does. -/
theorem element_counter_kept :
    ∃ result result', normalizedNftRules jsonDecode (smallListing "1" 4 5 7) = some result ∧
      normalizedNftRules jsonDecode (smallListing "1" 4 5 8) = some result' ∧ result ≠ result' := by
  have hother : normalizedNftRules jsonDecode (smallListing "1" 4 5 8) = some (smallNormal 8) := by
    decide +kernel
  exact ⟨smallNormal 7, smallNormal 8, smallListing_normal, hother, by decide⟩

/-- A chain with a rule, after a comment. -/
def smallSave (comment packets : String) : List UInt8 :=
  ([35] ++ Str.ofString comment ++ [10] ++ Str.ofString "*filter" ++ [10]
    ++ Str.ofString ":INPUT ACCEPT [" ++ Str.ofString packets ++ Str.ofString ":0]" ++ [10]
    ++ Str.ofString "-A INPUT -j DROP" ++ [10] ++ Str.ofString "COMMIT" ++ [10]).map UInt8.ofNat

def smallRules : List (List Str) :=
  [["*filter"], [":INPUT", "ACCEPT"], ["-A", "INPUT", "-j", "DROP"], ["COMMIT"]].map
    (List.map Str.ofString)

theorem smallSave_normal : normalizedRules true (smallSave "one" "1") = some smallRules ∧
    normalizedRules true (smallSave "two" "2") = some smallRules := by
  decide +kernel

/-- The version, a handle, the packets of a rule and of a chain and a comment were changed, and
nothing else. -/
theorem small_snapshots_same :
    (∃ v v' items items', jsonDecode (smallListing "1" 4 5 7) = some v ∧
      jsonDecode (smallListing "2" 9 6 7) = some v' ∧
      listingItems v = some items ∧ listingItems v' = some items' ∧
      List.Forall₂ SameWrapper (objects items) (objects items')) ∧
    ∃ text text', JournalCollector.decodeUtf8 (smallSave "one" "1") = some text ∧
      JournalCollector.decodeUtf8 (smallSave "two" "2") = some text' ∧
      List.Forall₂ SameLine (ruleLines text) (ruleLines text') := by
  have hother : normalizedNftRules jsonDecode (smallListing "2" 9 6 7) = some (smallNormal 7) := by
    decide +kernel
  obtain ⟨⟨v, v', items, items', hv, hv', hitems, hitems', hlisting⟩, text, text', htext, htext',
    hlines⟩ := normal_forms_exact jsonDecode smallListing_normal hother smallSave_normal.1
      smallSave_normal.2
  exact ⟨⟨v, v', items, items', hv, hv', hitems, hitems', hlisting.mp rfl⟩, text, text', htext,
    htext', hlines.mp rfl⟩

end RiskOps.Telemetry.Firewall
