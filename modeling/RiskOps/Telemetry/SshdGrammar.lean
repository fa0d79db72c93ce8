import RiskOps.Lib.IpText
import RiskOps.Telemetry.SshdParse

/-!
# RiskOps.Telemetry.SshdGrammar — what each piece of the sshd patterns consumes

**Patterns read as equations between texts.** For the pieces the peer-bearing rules
are built from, `Regex.Steps` is spelled out as the concatenation it stands for and
the groups it captures. Since tokens hold no whitespace and every piece after a token
starts with a space, a text determines the tokens: that is stated through its words.
-/

namespace RiskOps.Telemetry.Sshd

open RiskOps.Lib RiskOps.Lib.Regex

/-! ### The rules a text can reach -/

/-- One of the two texts is a prefix of the other. -/
def compatible : List Char → List Char → Bool
  | [], _ => true
  | _ :: _, [] => true
  | a :: as, b :: bs => a == b && compatible as bs

variable {s t : List Char}

theorem compatible_of_append_eq {l m : List Char} (h : l ++ s = m ++ t) :
    compatible l m = true := by
  induction l generalizing m with
  | nil => rfl
  | cons a l ih =>
    cases m with
    | nil => rfl
    | cons b m =>
      obtain ⟨rfl, htail⟩ := List.cons.inj h
      simp [compatible, ih htail]

/-- The positions of the rules whose literal head agrees with a text that starts with
`start`. -/
def reachable (start : String) : List Nat :=
  (List.range rules.length).filter fun i =>
    (rules[i]?).any fun r => compatible r.head.toList start.toList

theorem reachable_heads (start : String) :
    reachable start = (List.range (rules.map fun r => r.head.toList).length).filter fun i =>
      ((rules.map fun r => r.head.toList)[i]?).any fun h => compatible h start.toList := by
  rw [reachable, List.length_map]
  refine List.filter_congr fun i _ => ?_
  rw [List.getElem?_map]
  cases rules[i]? <;> rfl

variable {g : Groups}

theorem mem_reachable {start : String} {r : Rule} (hr : r ∈ rules)
    (h : Steps r.pattern (start.toList ++ t) [] [] g) :
    ∃ i ∈ reachable start, rules[i]? = some r := by
  obtain ⟨mid, g₁, ⟨hhead, -⟩, -⟩ := h
  obtain ⟨i, hi⟩ := List.mem_iff_getElem?.mp hr
  refine ⟨i, List.mem_filter.mpr ⟨?_, ?_⟩, hi⟩
  · exact List.mem_range.mpr (List.getElem?_eq_some_iff.mp hi).1
  · rw [hi]
    exact compatible_of_append_eq hhead.symm

theorem parseSshd_eq {message text : List Char} (h : strip message = text) :
    parseSshd message = (rules.findSome? (·.apply text)).getD unknown := by
  subst h
  rfl

/-- The result is the verdict of a reachable rule that matches, or `unknown`. -/
theorem parseSshd_cases {message : List Char} {start : String}
    (htext : strip message = start.toList ++ t) :
    parseSshd message = unknown ∨ ∃ i ∈ reachable start, ∃ r g, rules[i]? = some r ∧
      r.pattern.fullmatch (start.toList ++ t) = some g ∧ parseSshd message = finish r.kind g := by
  have hparse := parseSshd_eq htext
  cases hfind : rules.findSome? (·.apply (start.toList ++ t)) with
  | none =>
    rw [hfind] at hparse
    exact Or.inl hparse
  | some v =>
    rw [hfind] at hparse
    obtain ⟨r, hr, hv⟩ := List.exists_of_findSome?_eq_some hfind
    obtain ⟨g, hg, rfl⟩ := Option.map_eq_some_iff.mp hv
    obtain ⟨i, hi, hri⟩ := mem_reachable hr (fullmatch_sound hg)
    exact Or.inr ⟨i, hi, r, g, hri, hg, hparse⟩

/-- When one rule is reachable and matches, it decides. -/
theorem parseSshd_of_single {message : List Char} {start : String} {i : Nat} {r : Rule}
    (htext : strip message = start.toList ++ t) (hreach : reachable start = [i])
    (hr : rules[i]? = some r) (hg : r.pattern.fullmatch (start.toList ++ t) = some g) :
    parseSshd message = finish r.kind g := by
  refine (parseSshd_eq htext).trans ?_
  cases hfind : rules.findSome? (·.apply (start.toList ++ t)) with
  | none =>
    have hnone := List.findSome?_eq_none_iff.mp hfind r (List.mem_of_getElem? hr)
    simp [Rule.apply, hg] at hnone
  | some v =>
    obtain ⟨r', hr', hv⟩ := List.exists_of_findSome?_eq_some hfind
    obtain ⟨g', hg', rfl⟩ := Option.map_eq_some_iff.mp hv
    obtain ⟨j, hj, hrj⟩ := mem_reachable hr' (fullmatch_sound hg')
    rw [hreach, List.mem_singleton] at hj
    rw [hj, hr] at hrj
    obtain rfl := Option.some.inj hrj
    rw [hg] at hg'
    rw [Option.some.inj hg', Option.getD_some]

/-! ### Tokens -/

/-- A nonempty text without whitespace. -/
structure Token (x : List Char) : Prop where
  ne_nil : x ≠ []
  solid : Solid x

variable {x : List Char}

theorem solid_iff : Solid x ↔ ∀ c ∈ x, nonSpace c = true := by
  simp [Solid, nonSpace]

/-- `_PORT` as text. -/
def portText (p : Option (List Char)) : List Char := p.elim [] (" port ".toList ++ ·)

/-- What `_PORT` captures. -/
def portGroup (p : Option (List Char)) : Groups := p.elim [] fun q => [("port", q)]

variable {g' : Groups}

/-- A literal that stands at the end of the pattern. -/
theorem steps_txt {l : String} {rest : List Char} :
    Steps (txt l) s rest g g' ↔ s = l.toList ++ rest ∧ g' = g := Iff.rfl

theorem steps_group {name : String} {p : Char → Bool} {min : Nat} {greedy : Bool} {rest : List Char}
    :
    Steps (.group name (.rep p min none greedy)) s rest g g' ↔
      ∃ x, s = x ++ rest ∧ (∀ c ∈ x, p c = true) ∧ min ≤ x.length ∧ g' = (name, x) :: g := by
  constructor
  · rintro ⟨g₁, ⟨x, hs, hx, hmin, -, hg₁⟩, hg'⟩
    refine ⟨x, hs, hx, hmin, ?_⟩
    rw [hg', hs, consumed_append, hg₁]
  · rintro ⟨x, hs, hx, hmin, hg'⟩
    refine ⟨g, ⟨x, hs, hx, hmin, by simp, rfl⟩, ?_⟩
    rw [hg', hs, consumed_append]

theorem steps_user {rest : List Char} :
    Steps user s rest g g' ↔ ∃ x, s = x ++ rest ∧ Solid x ∧ g' = ("user", x) :: g := by
  simp [user, many, steps_group, solid_iff]

theorem token_iff : Token x ↔ (∀ c ∈ x, nonSpace c = true) ∧ 1 ≤ x.length := by
  rw [← solid_iff, Nat.succ_le_iff, List.length_pos_iff]
  exact ⟨fun h => ⟨h.solid, h.ne_nil⟩, fun h => ⟨h.2, h.1⟩⟩

theorem steps_ip {rest : List Char} :
    Steps ip s rest g g' ↔ ∃ y, s = y ++ rest ∧ Token y ∧ g' = ("ip", y) :: g := by
  simp [ip, token, some1, steps_group, token_iff, and_assoc]

theorem steps_lazyIp {rest : List Char} :
    Steps (.group "ip" (.lazy1 nonSpace)) s rest g g' ↔
      ∃ y, s = y ++ rest ∧ Token y ∧ g' = ("ip", y) :: g := by
  simp [lazy1, steps_group, token_iff, and_assoc]

theorem steps_port {rest : List Char} :
    Steps port s rest g g' ↔ ∃ p, s = portText p ++ rest ∧ (∀ q, p = some q → Token q) ∧
      g' = portGroup p ++ g := by
  constructor
  · rintro (⟨mid, g₁, htxt, h⟩ | ⟨rfl, rfl⟩)
    · obtain ⟨hs, rfl⟩ := Iff.mp steps_txt htxt
      obtain ⟨q, hmid, hq, hmin, rfl⟩ := Iff.mp steps_group h
      subst hmid
      refine ⟨some q, hs.trans (List.append_assoc _ _ _).symm, ?_, rfl⟩
      rintro _ ⟨⟩
      exact Iff.mpr token_iff ⟨hq, hmin⟩
    · exact ⟨none, rfl, by simp, rfl⟩
  · rintro ⟨p, rfl, hp, rfl⟩
    cases p with
    | none => exact Or.inr ⟨rfl, rfl⟩
    | some q =>
      have hq := Iff.mp token_iff (hp q rfl)
      refine Or.inl ⟨q ++ rest, g, ⟨List.append_assoc _ _ _, rfl⟩, ?_⟩
      exact Iff.mpr steps_group ⟨q, rfl, hq.1, hq.2, rfl⟩

theorem steps_pre {rest : List Char} :
    Steps pre s rest g g' ↔ (s = " [preauth]".toList ++ rest ∨ rest = s) ∧ g' = g := by
  constructor
  · rintro (⟨hs, hg⟩ | ⟨hs, hg⟩)
    · exact ⟨Or.inl hs, hg⟩
    · exact ⟨Or.inr hs, hg⟩
  · rintro ⟨hs | hs, hg⟩
    · exact Or.inl ⟨hs, hg⟩
    · exact Or.inr ⟨hs, hg⟩

/-! ### What may follow the endpoint -/

/-- The end of a text read by `_PRE`. -/
inductive PreEnd : List Char → Prop where
  | none : PreEnd []
  | preauth : PreEnd " [preauth]".toList

/-- The end of a text read by `_AUTH_TAIL`. -/
inductive AuthEnd : List Char → Prop where
  | bare {f : List Char} (h : PreEnd f) : AuthEnd f
  | ssh2 {f : List Char} (h : PreEnd f) : AuthEnd (" ssh2".toList ++ f)
  | detail {w : List Char} (h : '\n' ∉ w) : AuthEnd (" ssh2: ".toList ++ w)

theorem steps_pre_end : Steps pre s [] g g' ↔ PreEnd s ∧ g' = g := by
  rw [steps_pre]
  constructor
  · rintro ⟨hs | hs, hg⟩
    · rw [List.append_nil] at hs
      exact ⟨hs ▸ .preauth, hg⟩
    · exact ⟨hs ▸ .none, hg⟩
  · rintro ⟨_ | _, hg⟩
    · exact ⟨Or.inr rfl, hg⟩
    · exact ⟨Or.inl (List.append_nil _).symm, hg⟩

theorem steps_anything {rest : List Char} :
    Steps anything s rest g g' ↔ ∃ w, s = w ++ rest ∧ '\n' ∉ w ∧ g' = g := by
  have hdot : ∀ w : List Char, (∀ c ∈ w, dot c = true) ↔ '\n' ∉ w := by
    intro w
    simp only [dot, bne_iff_ne, ne_eq]
    exact ⟨fun h hmem => h _ hmem rfl, fun h c hc heq => h (heq ▸ hc)⟩
  constructor
  · rintro ⟨w, hs, hw, -, -, hg⟩
    exact ⟨w, hs, (hdot w).mp hw, hg⟩
  · rintro ⟨w, hs, hw, hg⟩
    exact ⟨w, hs, (hdot w).mpr hw, Nat.zero_le _, by simp, hg⟩

theorem PreEnd.no_newline {f : List Char} (h : PreEnd f) : '\n' ∉ f := by
  cases h with
  | none => simp
  | preauth => decide

theorem steps_authTail : Steps authTail s [] g g' ↔ AuthEnd s ∧ g' = g := by
  constructor
  · rintro ⟨mid, g₁, h, hpre⟩
    obtain ⟨hend, rfl⟩ := Iff.mp steps_pre_end hpre
    rcases h with ⟨mid', g₂, ⟨hs, rfl⟩, ⟨mid'', g₃, ⟨hmid', rfl⟩, hany⟩ | ⟨hmid', rfl⟩⟩ | ⟨hs, rfl⟩
    · obtain ⟨w, hw, hnl, rfl⟩ := Iff.mp steps_anything hany
      rw [hs, hmid', hw]
      exact ⟨.detail (by simp [hnl, hend.no_newline]), rfl⟩
    · rw [hs, ← hmid']
      exact ⟨.ssh2 hend, rfl⟩
    · exact ⟨hs ▸ .bare hend, rfl⟩
  · rintro ⟨h, rfl⟩
    cases h with
    | bare h => exact ⟨s, g', Or.inr ⟨rfl, rfl⟩, Iff.mpr steps_pre_end ⟨h, rfl⟩⟩
    | @ssh2 f h =>
      exact ⟨f, g', Or.inl ⟨f, g', ⟨rfl, rfl⟩, Or.inr ⟨rfl, rfl⟩⟩, Iff.mpr steps_pre_end ⟨h, rfl⟩⟩
    | @detail w h =>
      refine ⟨[], g', Or.inl ⟨": ".toList ++ w, g', ⟨rfl, rfl⟩, Or.inl ⟨w, g', ⟨rfl, rfl⟩, ?_⟩⟩,
        Iff.mpr steps_pre_end ⟨.none, rfl⟩⟩
      exact Iff.mpr steps_anything ⟨w, (List.append_nil w).symm, h, rfl⟩

/-! ### Endpoints -/

/-- What `{_IP}{_PORT}` reads and captures in front of `rest`. -/
structure Endpoint (s rest : List Char) (y : List Char) (p : Option (List Char)) : Prop where
  eq : s = y ++ (portText p ++ rest)
  peer : Token y
  port : ∀ q, p = some q → Token q

theorem steps_ip_port {r : Regex} {rest : List Char} :
    Steps (.seq ip (.seq port r)) s rest g g' ↔
      ∃ y p mid, Endpoint s mid y p ∧ Steps r mid rest (portGroup p ++ ("ip", y) :: g) g' := by
  constructor
  · rintro ⟨mid₁, g₁, hip, mid, g₂, hport, hr⟩
    obtain ⟨y, hs, hy, rfl⟩ := Iff.mp steps_ip hip
    obtain ⟨p, hmid₁, hp, rfl⟩ := Iff.mp steps_port hport
    exact ⟨y, p, mid, ⟨by rw [hs, hmid₁], hy, hp⟩, hr⟩
  · rintro ⟨y, p, mid, ⟨hs, hy, hp⟩, hr⟩
    exact ⟨_, _, Iff.mpr steps_ip ⟨y, hs, hy, rfl⟩, _, _, Iff.mpr steps_port ⟨p, rfl, hp, rfl⟩, hr⟩

theorem steps_user_txt {l : String} {r : Regex} {rest : List Char} :
    Steps (.seq user (.seq (txt l) r)) s rest g g' ↔
      ∃ x mid, s = x ++ (l.toList ++ mid) ∧ Solid x ∧ Steps r mid rest (("user", x) :: g) g' := by
  constructor
  · rintro ⟨mid₁, g₁, huser, mid, g₂, ⟨hl, rfl⟩, hr⟩
    obtain ⟨x, hs, hx, rfl⟩ := steps_user.mp huser
    exact ⟨x, mid, by rw [hs, hl], hx, hr⟩
  · rintro ⟨x, mid, hs, hx, hr⟩
    exact ⟨_, _, steps_user.mpr ⟨x, hs, hx, rfl⟩, mid, _, ⟨rfl, rfl⟩, hr⟩

variable {p : Option (List Char)}

/-- What the groups of a peer-bearing rule hold. -/
theorem get_groups {y : List Char} :
    Groups.get (portGroup p ++ [("ip", y), ("user", x)]) "ip" = some y ∧
      Groups.get (portGroup p ++ [("ip", y), ("user", x)]) "port" = p := by
  cases p with
  | none => exact ⟨rfl, rfl⟩
  | some q => exact ⟨rfl, rfl⟩

theorem get_groups_nouser {y : List Char} :
    Groups.get (portGroup p ++ [("ip", y)]) "ip" = some y := by
  cases p with
  | none => rfl
  | some q => rfl

/-- A matched rule names a peer exactly when its tokens are an address and a port. -/
theorem finish_peerIp {kind : EventKind} {c : List Char} :
    (finish kind g).peerIp = some c ↔ ∃ y, g.get "ip" = some y ∧ canonicalPeer y = some c ∧
      ∀ q, g.get "port" = some q → validPort q = true := by
  unfold finish finishPort
  cases g.get "ip" with
  | none =>
    cases g.get "port" with
    | none => simp
    | some q => by_cases hq : validPort q = true <;> simp [hq, unknown]
  | some y =>
    cases hy : canonicalPeer y with
    | none => simp [unknown, hy]
    | some c' =>
      cases g.get "port" with
      | none => simp [hy]
      | some q =>
        by_cases hq : validPort q = true
        · simp [hy, hq]
        · simp [hy, hq, unknown]

/-! ### Words of endpoints -/

/-- `_PORT` as words. -/
def portWords (p : Option (List Char)) : List (List Char) :=
  p.elim [] fun q => ["port".toList, q]

/-- The words of a text that is empty or starts with a space. -/
def tailWords : List Char → List (List Char)
  | [] => []
  | _ :: e => words e

/-- Nothing follows, or a space does. -/
def Spaced (e : List Char) : Prop := e = [] ∨ ∃ e', e = ' ' :: e'

variable {e : List Char}

theorem spaced_portText (he : Spaced e) : Spaced (portText p ++ e) := by
  cases p with
  | none => exact he
  | some q => exact Or.inr ⟨"port ".toList ++ (q ++ e), rfl⟩

theorem words_spaced (hx : Solid x) (he : Spaced e) : words (x ++ e) = x :: tailWords e := by
  rcases he with rfl | ⟨e', rfl⟩
  · rw [List.append_nil]
    exact words_eq_singleton hx.no_blank
  · exact words_cons hx.no_blank e'

theorem tailWords_portText (hp : ∀ q, p = some q → Token q) (he : Spaced e) :
    tailWords (portText p ++ e) = portWords p ++ tailWords e := by
  cases p with
  | none => rfl
  | some q =>
    show words ("port".toList ++ ' ' :: (q ++ e)) = "port".toList :: q :: tailWords e
    rw [words_cons (by decide), words_spaced (hp q rfl).solid he]

/-- The words of an endpoint and what follows it. -/
theorem Endpoint.words {rest y : List Char} (h : Endpoint s rest y p) (hrest : Spaced rest) :
    words s = y :: (portWords p ++ tailWords rest) := by
  rw [h.eq, words_spaced h.peer.solid (spaced_portText hrest), tailWords_portText h.port hrest]

theorem PreEnd.spaced (h : PreEnd e) : Spaced e := by
  cases h with
  | none => exact Or.inl rfl
  | preauth => exact Or.inr ⟨"[preauth]".toList, rfl⟩

theorem PreEnd.length_tailWords (h : PreEnd e) : (tailWords e).length ≤ 1 := by
  cases h with
  | none => exact Nat.zero_le _
  | preauth =>
    have hwords : tailWords " [preauth]".toList = ["[preauth]".toList] :=
      words_eq_singleton (by decide)
    rw [hwords]
    exact Nat.le_refl _

theorem AuthEnd.spaced (h : AuthEnd e) : Spaced e := by
  cases h with
  | bare h => exact h.spaced
  | @ssh2 f h => exact Or.inr ⟨"ssh2".toList ++ f, rfl⟩
  | @detail w h => exact Or.inr ⟨"ssh2: ".toList ++ w, rfl⟩

/-- `_AUTH_TAIL` reads at most two words, unless a detail follows `ssh2:`. -/
theorem AuthEnd.tailWords (h : AuthEnd e) :
    (tailWords e).length ≤ 2 ∨ ∃ ws, tailWords e = "ssh2:".toList :: ws := by
  cases h with
  | bare h => exact Or.inl (Nat.le_succ_of_le h.length_tailWords)
  | @ssh2 f h =>
    have hwords : Sshd.tailWords (" ssh2".toList ++ f) = "ssh2".toList :: Sshd.tailWords f :=
      words_spaced (show Solid "ssh2".toList by decide) h.spaced
    rw [hwords]
    exact Or.inl (Nat.succ_le_succ h.length_tailWords)
  | @detail w h =>
    exact Or.inr ⟨words w, words_cons (show ' ' ∉ "ssh2:".toList by decide) w⟩

end RiskOps.Telemetry.Sshd
