import RiskOps.Telemetry.SshdForgery

/-!
# RiskOps.Telemetry.SshdFaithful — the line with a reason, and all six together

**The one line whose pattern has a choice.** Before a reason the peer is a lazy token,
so a text can be split in two ways, and the engine takes the shorter peer. With that
line settled, an attempt's lines are attributed to its own address exactly when the
user name forges in neither of the two ways.
-/

namespace RiskOps.Telemetry.Sshd

open RiskOps.Lib RiskOps.Lib.Regex

/-! ### A peer in front of a reason -/

variable {g g' : Groups}

theorem steps_colonPort {s rest : List Char} :
    Steps colonPort s rest g g' ↔ ∃ p, s = portText p ++ rest ∧
      (∀ q, p = some q → Token q ∧ ':' ∉ q) ∧ g' = portGroup p ++ g := by
  have hclass : ∀ q : List Char, (∀ c ∈ q, (nonSpace c && c != ':') = true) ∧ 1 ≤ q.length ↔
      Token q ∧ ':' ∉ q := by
    intro q
    simp only [Bool.and_eq_true, bne_iff_ne, ne_eq, token_iff]
    constructor
    · rintro ⟨h, hlen⟩
      exact ⟨⟨fun c hc => (h c hc).1, hlen⟩, fun hmem => (h _ hmem).2 rfl⟩
    · rintro ⟨⟨h, hlen⟩, hcolon⟩
      exact ⟨fun c hc => ⟨h c hc, fun heq => hcolon (heq ▸ hc)⟩, hlen⟩
  constructor
  · rintro (⟨mid, g₁, htxt, h⟩ | ⟨rfl, rfl⟩)
    · obtain ⟨hs, rfl⟩ := steps_txt.mp htxt
      obtain ⟨q, rfl, hq, hmin, rfl⟩ := steps_group.mp h
      refine ⟨some q, hs.trans (List.append_assoc _ _ _).symm, ?_, rfl⟩
      rintro _ ⟨⟩
      exact (hclass q).mp ⟨hq, hmin⟩
    · exact ⟨none, rfl, by simp, rfl⟩
  · rintro ⟨p, rfl, hp, rfl⟩
    cases p with
    | none => exact Or.inr ⟨rfl, rfl⟩
    | some q =>
      have hq := (hclass q).mpr (hp q rfl)
      refine Or.inl ⟨q ++ rest, g, steps_txt.mpr ⟨List.append_assoc _ _ _, rfl⟩, ?_⟩
      exact steps_group.mpr ⟨q, rfl, hq.1, hq.2, rfl⟩

/-- What follows the peer: an optional port, a colon, whitespace. -/
def afterPeer : Regex := .cat [colonPort, txt ":", .some1 isSpace]

theorem steps_afterPeer {s rest : List Char} (h : Steps afterPeer s rest g g') :
    ∃ p c w, s = portText p ++ ':' :: c :: w ∧ (∀ q, p = some q → Token q ∧ ':' ∉ q) ∧
      isSpace c = true ∧ g' = portGroup p ++ g := by
  obtain ⟨mid, g₁, hport, mid', g₂, htxt, ⟨x, hx, hspace, hlen, -, rfl⟩⟩ := h
  obtain ⟨p, hs, hp, rfl⟩ := Iff.mp steps_colonPort hport
  obtain ⟨hcolon, rfl⟩ := steps_txt.mp htxt
  match x, hlen with
  | c :: x, _ =>
    refine ⟨p, c, x ++ rest, ?_, hp, hspace c List.mem_cons_self, rfl⟩
    rw [hs, hcolon, hx]
    rfl

variable {p : Option (List Char)} {c : Char} {w : List Char}

theorem afterPeer_steps (hp : ∀ q, p = some q → Token q ∧ ':' ∉ q) (hc : isSpace c = true) :
    Steps afterPeer (portText p ++ ':' :: c :: w) w g (portGroup p ++ g) := by
  refine ⟨':' :: c :: w, _, Iff.mpr steps_colonPort ⟨p, rfl, hp, rfl⟩, c :: w, _,
    steps_txt.mpr ⟨rfl, rfl⟩, [c], rfl, ?_, Nat.le_refl _, by simp, rfl⟩
  intro d hd
  rwa [List.mem_singleton.mp hd]

/-- How a text `S` after the user name can be read: a peer, a port, a colon, whitespace. -/
structure ReasonMatch (S y : List Char) (p : Option (List Char)) : Prop where
  text : ∃ c w, S = y ++ (portText p ++ ':' :: c :: w) ∧ isSpace c = true
  peer : Token y
  port : ∀ q, p = some q → Token q ∧ ':' ∉ q

/-- The body of the rule after `invalid user `. -/
def reasonBody : Regex := .cat [user, txt " ", reasonPeer, anything]

theorem steps_reasonBody {T : List Char} (h : Steps reasonBody T [] [] g) :
    ∃ x S y p, T = x ++ (" ".toList ++ S) ∧ Solid x ∧ ReasonMatch S y p ∧
      g = portGroup p ++ [("ip", y), ("user", x)] := by
  obtain ⟨x, S, hT, hx, mid, g₁, ⟨s, g₂, hip, hafter⟩, hany⟩ := steps_user_txt.mp h
  obtain ⟨y, hS, hy, rfl⟩ := steps_lazyIp.mp hip
  obtain ⟨p, c, w, hs, hp, hc, rfl⟩ := steps_afterPeer hafter
  obtain ⟨-, -, -, rfl⟩ := steps_anything.mp hany
  exact ⟨x, S, y, p, hT, hx, ⟨⟨c, w, by rw [hS, hs], hc⟩, hy, hp⟩, rfl⟩

variable {y : List Char}

theorem reasonBody_steps {x : List Char} (hx : Solid x) (hy : Token y)
    (hp : ∀ q, p = some q → Token q ∧ ':' ∉ q) (hc : isSpace c = true) (hw : '\n' ∉ w) :
    Steps reasonBody (x ++ (" ".toList ++ (y ++ (portText p ++ ':' :: c :: w)))) [] []
      (portGroup p ++ [("ip", y), ("user", x)]) := by
  refine steps_user_txt.mpr ⟨x, _, rfl, hx, w, _, ⟨_, _, steps_lazyIp.mpr ⟨y, rfl, hy, rfl⟩,
    afterPeer_steps hp hc⟩, steps_anything.mpr ⟨w, (List.append_nil w).symm, hw, rfl⟩⟩

/-! ### The shorter peer comes first -/

/-- Inside a token that is followed by a colon and whitespace, no earlier position is the
end of a peer. -/
theorem afterPeer_inside {d : List Char} {rest : List Char} (hd : Solid d) (hne : d ≠ []) :
    ¬ Steps afterPeer (d ++ ':' :: c :: w) rest g g' := by
  intro h
  obtain ⟨p, c', w', hs, -, hc', -⟩ := steps_afterPeer h
  match d, hne with
  | a :: d, _ =>
    cases p with
    | none =>
      obtain ⟨-, hs⟩ := List.cons.inj hs
      match d with
      | [] =>
        obtain ⟨rfl, -⟩ := List.cons.inj hs
        exact absurd hc' (by decide)
      | b :: d =>
        obtain ⟨rfl, -⟩ := List.cons.inj hs
        rw [hd b (by simp)] at hc'
        exact absurd hc' (by simp)
    | some q =>
      obtain ⟨rfl, -⟩ := List.cons.inj
        (show a :: (d ++ ':' :: c :: w) = ' ' :: ("port ".toList ++ q ++ ':' :: c' :: w') from hs)
      exact absurd (hd ' ' List.mem_cons_self) (by decide)

/-- The end of a `fullmatch`. -/
def accept (rest : List Char) (g : Groups) : Option Groups := if rest = [] then some g else none

theorem run_afterPeer (hc : isSpace c = true) (hw : '\n' ∉ w) :
    run afterPeer (':' :: c :: w) g (fun s g' => run anything s g' accept) = some g := by
  have hsome : (run afterPeer (':' :: c :: w) g (fun s g' => run anything s g' accept)).isSome := by
    refine run_complete _ (afterPeer_steps (p := none) (by simp) hc) ?_
    refine run_complete _ (steps_anything.mpr ⟨w, (List.append_nil w).symm, hw, rfl⟩) ?_
    rfl
  obtain ⟨v, hv⟩ := Option.isSome_iff_exists.mp hsome
  obtain ⟨s, g₁, hafter, hany⟩ := run_sound _ hv
  obtain ⟨rest, g₂, hsteps, haccept⟩ := run_sound _ hany
  obtain ⟨p, c', w', hs, -, -, rfl⟩ := steps_afterPeer hafter
  obtain ⟨-, -, -, rfl⟩ := steps_anything.mp hsteps
  -- A text that starts with a colon has no port in front of it.
  obtain rfl : p = none := by
    cases p with
    | none => rfl
    | some q =>
      have hhead : ':' :: c :: w = ' ' :: ("port ".toList ++ q ++ ':' :: c' :: w') := hs
      exact absurd (List.cons.inj hhead).1 (by decide)
  unfold accept at haccept
  split at haccept
  · rw [hv, ← haccept]
    rfl
  · simp at haccept

theorem run_seq_txt {β : Type} {l : String} {r : Regex} {s : List Char}
    {k : List Char → Groups → Option β} :
    run (.seq (txt l) r) (l.toList ++ s) g k = run r s g k := by
  rw [run_seq, txt, run_lit_append]

/-- A token that ends right before a colon and whitespace is the peer, whatever follows. -/
theorem fullmatch_reason {kind : EventKind} {x : List Char} (hx : Solid x) (hy : Token y)
    (hc : isSpace c = true) (hw : '\n' ∉ w) :
    (Rule.pattern ⟨kind, "Disconnecting ",
        .cat [.alt (txt "invalid") (txt "authenticating"), txt " user ", user, txt " ", reasonPeer,
          anything]⟩).fullmatch
      ("Disconnecting ".toList ++ ("invalid".toList ++ (" user ".toList ++
        (x ++ (" ".toList ++ (y ++ ':' :: c :: w)))))) = some [("ip", y), ("user", x)] := by
  have hpeer : run (.group "ip" (.lazy1 nonSpace)) (y ++ ':' :: c :: w) [("user", x)]
      (fun s g => run afterPeer s g fun s g => run anything s g accept)
        = some [("ip", y), ("user", x)] := by
    refine run_lazy_first hy.ne_nil (solid_iff.mp hy.solid) ?_ (run_afterPeer hc hw)
    intro a d had ha hd
    cases hrun : run afterPeer (d ++ ':' :: c :: w) [("ip", a), ("user", x)]
        (fun s g => run anything s g accept) with
    | none => rfl
    | some v =>
      obtain ⟨rest, g', hsteps, -⟩ := run_sound _ hrun
      have hsolid : Solid d := fun b hb => hy.solid b (had ▸ List.mem_append_right a hb)
      exact absurd hsteps (afterPeer_inside hsolid hd)
  have huser : run reasonBody (x ++ (" ".toList ++ (y ++ ':' :: c :: w))) [] accept
      = some [("ip", y), ("user", x)] := by
    show run (.seq user (.seq (txt " ") (.seq reasonPeer anything))) _ _ _ = _
    rw [run_seq]
    refine run_greedy_first (solid_iff.mp hx) ?_ (run_seq_txt.trans hpeer)
    rintro _ ⟨⟩
    decide
  have hinvalid : run (.seq (.alt (txt "invalid") (txt "authenticating"))
      (.seq (txt " user ") reasonBody))
      ("invalid".toList ++ (" user ".toList ++ (x ++ (" ".toList ++ (y ++ ':' :: c :: w))))) [] accept
        = some [("ip", y), ("user", x)] := by
    rw [run_seq, run_alt, ← run_seq, run_seq_txt, run_seq_txt, huser]
    rfl
  exact run_seq_txt.trans hinvalid

/-! ### Ports and tokens -/

theorem validPort_digits {q : List Char} (h : validPort q = true) : ∀ c ∈ q, digit c = true := by
  simp only [validPort, Bool.and_eq_true] at h
  obtain ⟨g, hg⟩ := Option.isSome_iff_exists.mp h.1
  obtain ⟨x, hq, hx, -⟩ := fullmatch_sound hg
  rw [List.append_nil] at hq
  rwa [hq]

theorem validPort_not_mem {q : List Char} (h : validPort q = true) (hc : digit c = false) :
    c ∉ q := fun hmem => by
  rw [validPort_digits h c hmem] at hc
  exact absurd hc (by simp)

/-- A token at the start of `u` and a blank lies within `u`. -/
theorem token_inside {a u E : List Char} (ha : Solid a) (hc : isSpace c = true)
    (h : a ++ c :: w = u ++ ' ' :: E) :
    ∃ z, u = a ++ z ∧ z ++ ' ' :: E = c :: w ∧ ∀ d, z.head? = some d → isSpace d = true := by
  rcases solid_or_split u with hu | ⟨s, d, u', rfl, hs, hd⟩
  · obtain ⟨rfl, rfl, rfl⟩ := ha.split_unique hu hc isSpace_space h
    exact ⟨[], (List.append_nil a).symm, rfl, by simp⟩
  · rw [List.append_assoc, List.cons_append] at h
    obtain ⟨rfl, rfl, rfl⟩ := ha.split_unique hs hc hd h
    refine ⟨c :: u', rfl, rfl, ?_⟩
    rintro _ ⟨⟩
    exact hc

theorem Token.concat_colon (h : Token y) : Solid (y ++ [':']) :=
  h.solid.append (by decide)

namespace Attempt

variable {t : Attempt}

theorem endpoint_text (rest : List Char) :
    t.endpoint rest = t.peer ++ ' ' :: ("port ".toList ++ (t.portDigits ++ rest)) := rfl

/-- The first token of the endpoint is the peer, so it is neither `port` nor a port number
with a colon. -/
theorem endpoint_token {a rest : List Char} (ha : Solid a) (hc : isSpace c = true)
    (h : t.endpoint rest = a ++ c :: w) : a = t.peer := by
  rw [endpoint_text] at h
  exact (t.peer_token.solid.split_unique ha isSpace_space hc h).1.symm

/-! ### The line with a reason -/

/-- What follows the endpoint of the line. -/
def reasonTail (t : Attempt) : List Char := ": ".toList ++ (t.reason ++ " [preauth]".toList)

theorem not_newline_endpoint {rest : List Char} (hrest : '\n' ∉ rest) :
    '\n' ∉ t.endpoint rest := by
  have hport : '\n' ∉ t.portDigits := portDigits_token.solid.not_mem (by decide)
  have hpeer : '\n' ∉ t.peer := t.peer_token.solid.not_mem (by decide)
  have hlit : '\n' ∉ " port ".toList := by decide
  simp only [endpoint, portText, Option.elim_some, List.mem_append, not_or]
  exact ⟨hpeer, ⟨hlit, hport⟩, hrest⟩

theorem not_newline_reasonTail : '\n' ∉ t.reasonTail := by
  have hcolon : '\n' ∉ ": ".toList := by decide
  have hpre : '\n' ∉ " [preauth]".toList := by decide
  simp only [reasonTail, List.mem_append, not_or]
  exact ⟨hcolon, t.reason_line, hpre⟩

/-- The user name and what follows it on the line. -/
def named (t : Attempt) : List Char := t.user ++ ' ' :: t.endpoint t.reasonTail

theorem not_newline_named : '\n' ∉ t.named := by
  intro hmem
  rcases List.mem_append.mp hmem with h | h
  · exact t.user_line h
  · rcases List.mem_cons.mp h with h | h
    · exact absurd h (by decide)
    · exact not_newline_endpoint not_newline_reasonTail h

theorem rule_disconnecting :
    rules[10]? = some ⟨.preauthAbort, "Disconnecting ",
      .cat [.alt (txt "invalid") (txt "authenticating"), txt " user ", Sshd.user, txt " ",
        reasonPeer, anything]⟩ := rfl

/-- How the engine reads the line: a split of the text after the name, and the shorter
peer when there are two. -/
structure Reading (t : Attempt) (x S y : List Char) (p : Option (List Char)) : Prop where
  named : t.named = x ++ ' ' :: S
  solid : Solid x
  reads : ReasonMatch S y p
  first : ∀ y₀ c w, Token y₀ → isSpace c = true → S = y₀ ++ ':' :: c :: w → y = y₀ ∧ p = none

theorem head_disconnecting : "Disconnecting invalid user ".toList
    = "Disconnecting ".toList ++ ("invalid".toList ++ " user ".toList) := by
  decide

theorem disconnecting_eq : t.disconnecting = "Disconnecting ".toList ++ ("invalid".toList ++
    (" user ".toList ++ t.named)) := by
  show "Disconnecting invalid user ".toList ++ t.named = _
  rw [head_disconnecting, List.append_assoc, List.append_assoc]

theorem reading_of_fullmatch {r : Rule} (hr : rules[10]? = some r)
    (h : r.pattern.fullmatch t.disconnecting = some g) :
    ∃ x S y p, t.Reading x S y p ∧ g = portGroup p ++ [("ip", y), ("user", x)] := by
  rw [rule_disconnecting] at hr
  obtain rfl := Option.some.inj hr
  rw [disconnecting_eq] at h
  have hsteps := steps_pattern.mp (fullmatch_sound h)
  obtain ⟨x, S, y, p, hT, hx, hread, rfl⟩ := steps_reasonBody
    ((steps_alt_txt (by decide) (by decide) (by decide)).mp hsteps)
  refine ⟨x, S, y, p, ⟨hT, hx, hread, ?_⟩, rfl⟩
  intro y₀ c w hy₀ hc hS
  have hw : '\n' ∉ w := fun hmem => not_newline_named (t := t) (by
    rw [hT, hS]
    simp [hmem])
  rw [hT, hS, fullmatch_reason hx hy₀ hc hw] at h
  have hgroups := Option.some.inj h
  have hip := congrArg (Groups.get · "ip") hgroups
  have hport := congrArg (Groups.get · "port") hgroups
  exact ⟨(Option.some.inj (hip.trans get_groups.1)).symm, (hport.trans get_groups.2).symm⟩

/-- A reading that names another peer shows that the user name forges. -/
theorem forgesReason_of_reading {x S c : List Char} (hread : t.Reading x S y p)
    (hy : canonicalPeer y = some c) (hc : c ≠ t.address.toText)
    (hport : ∀ q, p = some q → validPort q = true) : t.ForgesReason := by
  obtain ⟨⟨c₀, w, hS, hc₀⟩, htoken, hp⟩ := hread.reads
  obtain ⟨hzone, a, ha, -⟩ := canonicalPeer_eq hy
  have hdecoy : t.Decoy y p :=
    ⟨htoken, ⟨c, hy, hc⟩, fun q hq => ⟨(hp q hq).1, hport q hq⟩⟩
  have hnamed : t.user ++ ' ' :: t.endpoint t.reasonTail = x ++ ' ' :: S := hread.named
  have hends : p ≠ none → y.getLast? ≠ some ':' := by
    intro hpne hlast
    obtain ⟨y₀, rfl⟩ := List.getLast?_eq_some_iff.mp hlast
    by_cases hne : y₀ = []
    · subst hne
      have hcolon := canonicalPeer_literals.2.2
      rw [show ([] : List Char) ++ [':'] = ":".toList from rfl, hcolon] at hy
      simp at hy
    · obtain ⟨q, rfl⟩ := Option.ne_none_iff_exists'.mp hpne
      have hsolid : Solid y₀ := fun b hb => htoken.solid b (List.mem_append_left _ hb)
      have hfirst := hread.first y₀ ' ' ("port ".toList ++ (q ++ ':' :: c₀ :: w)) ⟨hne, hsolid⟩
        isSpace_space (by rw [hS, List.append_assoc]; rfl)
      exact hpne hfirst.2
  rcases solid_or_split t.user with huser | ⟨x', d, u, huser, hx', hd⟩
  · -- The name is one word, so the text after it is the endpoint itself.
    obtain ⟨-, -, hE⟩ := huser.split_unique hread.solid isSpace_space isSpace_space hnamed
    rw [hS] at hE
    cases p with
    | none =>
      have hpeer : y ++ [':'] = t.peer :=
        endpoint_token htoken.concat_colon hc₀ (by rw [hE, List.append_assoc]; rfl)
      have hnone := IpAddress.parse_concat_colon hzone (by rw [ha]; rfl)
      rw [hpeer, t.peer_parses] at hnone
      exact absurd hnone (by simp)
    | some q => exact absurd (endpoint_token htoken.solid isSpace_space hE) (ne_peer hy hc)
  · rw [huser, List.append_assoc, List.cons_append] at hnamed
    obtain ⟨rfl, rfl, hE⟩ := hx'.split_unique hread.solid hd isSpace_space hnamed
    rw [hS] at hE
    cases p with
    | none =>
      obtain ⟨z, rfl, -, hz⟩ := token_inside htoken.concat_colon hc₀
        (show (y ++ [':']) ++ c₀ :: w = u ++ ' ' :: t.endpoint t.reasonTail by
          rw [hE, List.append_assoc]; rfl)
      refine ⟨x', y, none, z, ?_, hx', hdecoy, hends, hz⟩
      rw [huser, List.append_assoc]
      rfl
    | some q =>
      have hvalid := hport q rfl
      obtain ⟨z, rfl, hz, -⟩ := token_inside htoken.solid isSpace_space
        (show y ++ ' ' :: ("port".toList ++ ' ' :: (q ++ ':' :: c₀ :: w))
          = u ++ ' ' :: t.endpoint t.reasonTail from hE.symm)
      match z, hz with
      | [], hz =>
        -- The peer itself would be the word `port`.
        have hpeer := endpoint_token (show Solid "port".toList by decide) isSpace_space
          (List.cons.inj hz).2
        have hparses := t.peer_parses
        rw [← hpeer, parse_literals.2] at hparses
        exact absurd hparses (by simp)
      | e :: z, hz =>
        simp only [List.cons_append, List.cons.injEq] at hz
        obtain ⟨rfl, hport'⟩ := hz
        obtain ⟨z', rfl, hz', -⟩ := token_inside (show Solid "port".toList by decide)
          isSpace_space hport'.symm
        have hqsolid : Solid (q ++ [':']) := (hp q rfl).1.concat_colon
        match z', hz' with
        | [], hz' =>
          -- The peer itself would be the port number and a colon.
          have hpeer := endpoint_token (t := t) hqsolid hc₀
            (by rw [(List.cons.inj hz').2, List.append_assoc]; rfl)
          have hnone := IpAddress.parse_single_colon (hp q rfl).2
            (validPort_not_mem hvalid (by decide))
          rw [hpeer, t.peer_parses] at hnone
          exact absurd hnone (by simp)
        | e' :: z', hz' =>
          simp only [List.cons_append, List.cons.injEq] at hz'
          obtain ⟨rfl, hcolon⟩ := hz'
          obtain ⟨z'', rfl, -, hz''⟩ := token_inside hqsolid hc₀
            (show (q ++ [':']) ++ c₀ :: w = z' ++ ' ' :: t.endpoint t.reasonTail by
              rw [List.append_assoc]; exact hcolon.symm)
          refine ⟨x', y, some q, z'', ?_, hx', hdecoy, hends, hz''⟩
          rw [huser, List.append_assoc]
          rfl

theorem disconnecting_owns (h : ¬ t.ForgesReason) : t.Owns (parseSshd t.disconnecting).peerIp := by
  refine owns_parseSshd plainStart_lines.2.2.2.2.1 reachable_lines.2.2.2.2.1 ?_ ?_
  · refine ((endpoint_endsSolid (Or.inr ?_)).append_left _).append_left _
    exact (endsSolid_tails.2.2.append_left _).append_left _
  · intro i hi r g hr hmatch
    obtain rfl : i = 10 := by simpa using hi
    obtain ⟨x, S, y, p, hread, rfl⟩ := reading_of_fullmatch hr hmatch
    refine owns_finish fun y' c hip hy hc hport => h ?_
    obtain rfl : y = y' := Option.some.inj (get_groups.1.symm.trans hip)
    exact forgesReason_of_reading hread hy hc fun q hq => hport q (get_groups.2.trans hq)

/-! ### Names that do forge -/

/-- A verdict that names another peer is not the attempt's own. -/
theorem not_owns {kind : EventKind} (hip : g.get "ip" = some y) (hport : g.get "port" = p)
    (hdecoy : t.Decoy y p) : ¬ t.Owns (finish kind g).peerIp := by
  obtain ⟨c, hy, hc⟩ := hdecoy.other
  have hpeer : (finish kind g).peerIp = some c :=
    finish_peerIp.mpr ⟨y, hip, hy, fun q hq => (hdecoy.port q (hport.symm.trans hq)).2⟩
  rw [hpeer]
  rintro (h | h)
  · simp at h
  · exact hc (Option.some.inj h)

/-- The port words and the detail mark determine the port. -/
theorem port_eq {p' : Option (List Char)} {zs ws : List (List Char)}
    (hws : ws.length ≤ 2 ∨ ∃ zs', ws = "ssh2:".toList :: zs')
    (h : portWords p ++ "ssh2:".toList :: zs = portWords p' ++ ws) : p' = p := by
  cases p with
  | none =>
    cases p' with
    | none => rfl
    | some q' => exact absurd (List.cons.inj h).1 (by decide)
  | some q =>
    cases p' with
    | none =>
      have hlong : ws = "port".toList :: q :: "ssh2:".toList :: zs := h.symm
      rcases hws with hlen | ⟨zs', hzs⟩
      · rw [hlong] at hlen
        simp at hlen
      · rw [hlong] at hzs
        exact absurd (List.cons.inj hzs).1 (by decide)
    | some q' =>
      obtain ⟨-, h⟩ := List.cons.inj h
      rw [(List.cons.inj h).1]

theorem failed_forged (h : t.ForgesFrom) : ¬ t.Owns (parseSshd t.failed).peerIp := by
  obtain ⟨x, y, p, z, huser, hx, hdecoy, hz⟩ := h
  -- What follows the mark starts with a blank, in the name or after it.
  obtain ⟨w, hw⟩ : ∃ w, z ++ (" from ".toList ++ t.endpoint " ssh2".toList) = ' ' :: w := by
    rcases hz with rfl | ⟨z', rfl⟩
    · exact ⟨"from ".toList ++ t.endpoint " ssh2".toList, rfl⟩
    · exact ⟨z' ++ (" from ".toList ++ t.endpoint " ssh2".toList), rfl⟩
  have hline : '\n' ∉ w := by
    intro hmem
    have hmem' : '\n' ∈ z ++ (" from ".toList ++ t.endpoint " ssh2".toList) :=
      hw ▸ List.mem_cons_of_mem _ hmem
    rcases List.mem_append.mp hmem' with h | h
    · exact t.user_line (by rw [huser]; simp only [List.mem_append]; simp [h])
    · rcases List.mem_append.mp h with h | h
      · exact absurd h (by decide)
      · exact not_newline_endpoint (by decide) h
  have hT : t.user ++ (" from ".toList ++ t.endpoint " ssh2".toList)
      = x ++ (" from ".toList ++ (y ++ (portText p ++ (" ssh2: ".toList ++ w)))) := by
    rw [huser]
    simp only [List.append_assoc]
    rw [hw]
    rfl
  have hend : Endpoint (y ++ (portText p ++ (" ssh2: ".toList ++ w))) (" ssh2: ".toList ++ w) y p :=
    ⟨rfl, hdecoy.token, fun q hq => (hdecoy.port q hq).1⟩
  have hsteps := steps_failed.mpr
    (steps_authFrom.mpr ⟨x, _, y, p, _, hT, hx, hend, .detail hline, rfl⟩)
  obtain ⟨g, hg⟩ := fullmatch_complete (steps_pattern.mpr hsteps)
  have hstrip : strip t.failed = t.failed := strip_line plainStart_lines.1
    ((((endpoint_endsSolid (Or.inr endsSolid_tails.1)).append_left _).append_left _
      |>.append_left _).append_left _)
  rw [parseSshd_of_single hstrip reachable_lines.1 rule_failed hg]
  obtain ⟨x', mid, y', p', e, hT', hx', hend', htail, rfl⟩ :=
    steps_authFrom.mp (steps_failed.mp (steps_pattern.mp (fullmatch_sound hg)))
  have hwords : x :: "from".toList :: y :: (portWords p ++ "ssh2:".toList :: words w)
      = x' :: "from".toList :: y' :: (portWords p' ++ tailWords e) := by
    rw [← hend'.words htail.spaced, ← words_from_text hx'.no_blank, ← hT', hT,
      words_from_text hx.no_blank, hend.words (AuthEnd.detail hline).spaced]
    exact congrArg _ (congrArg _ (congrArg _ (congrArg _ (words_cons (by decide) w).symm)))
  simp only [List.cons.injEq, true_and] at hwords
  obtain ⟨-, rfl, hports⟩ := hwords
  exact not_owns get_groups.1 (get_groups.2.trans (port_eq htail.tailWords hports)) hdecoy

theorem disconnecting_forged (h : t.ForgesReason) :
    ¬ t.Owns (parseSshd t.disconnecting).peerIp := by
  obtain ⟨x, y, p, z, huser, hx, hdecoy, hends, hz⟩ := h
  obtain ⟨c, w, hw, hc⟩ : ∃ c w, z ++ ' ' :: t.endpoint t.reasonTail = c :: w ∧
      isSpace c = true := by
    cases z with
    | nil => exact ⟨' ', _, rfl, isSpace_space⟩
    | cons d z => exact ⟨d, _, rfl, hz d rfl⟩
  have hT : t.named = x ++ (" ".toList ++ (y ++ (portText p ++ ':' :: c :: w))) := by
    rw [named, huser]
    simp only [List.append_assoc]
    rw [hw]
    rfl
  have hline : '\n' ∉ w := fun hmem => not_newline_named (t := t) (by
    rw [hT]
    simp [hmem])
  have hp : ∀ q, p = some q → Token q ∧ ':' ∉ q := fun q hq =>
    ⟨(hdecoy.port q hq).1, validPort_not_mem (hdecoy.port q hq).2 (by decide)⟩
  have hsteps := reasonBody_steps hx hdecoy.token hp hc hline
  rw [← hT] at hsteps
  have hpattern : Steps (Rule.pattern ⟨.preauthAbort, "Disconnecting ",
      .seq (.alt (txt "invalid") (txt "authenticating")) (.seq (txt " user ") reasonBody)⟩)
      ("Disconnecting ".toList ++ ("invalid".toList ++ (" user ".toList ++ t.named))) [] []
      (portGroup p ++ [("ip", y), ("user", x)]) :=
    steps_pattern.mpr ((steps_alt_txt (by decide) (by decide) (by decide)).mpr hsteps)
  obtain ⟨g, hg⟩ := fullmatch_complete hpattern
  rw [← disconnecting_eq] at hg
  have hstrip : strip t.disconnecting = t.disconnecting := strip_line plainStart_lines.2.2.2.2.1
    (((endpoint_endsSolid (Or.inr ((endsSolid_tails.2.2.append_left _).append_left _))).append_left
      _).append_left _)
  rw [parseSshd_of_single hstrip reachable_lines.2.2.2.2.1 rule_disconnecting hg]
  obtain ⟨x', S, y', p', hread, rfl⟩ := reading_of_fullmatch rule_disconnecting hg
  obtain ⟨-, -, hS⟩ := hx.split_unique hread.solid isSpace_space isSpace_space
    (show x ++ ' ' :: (y ++ (portText p ++ ':' :: c :: w)) = x' ++ ' ' :: S from
      hT.symm.trans hread.named)
  suffices hsame : y' = y ∧ p' = p by
    obtain ⟨rfl, rfl⟩ := hsame
    exact not_owns get_groups.1 get_groups.2 hdecoy
  cases p with
  | none => exact hread.first y c w hdecoy.token hc hS.symm
  | some q =>
    obtain ⟨⟨c', w', hS', hc'⟩, htoken, hp'⟩ := hread.reads
    rw [hS'] at hS
    cases p' with
    | none =>
      have hlast := htoken.concat_colon.split_unique hdecoy.token.solid hc' isSpace_space
        (show (y' ++ [':']) ++ c' :: w' = y ++ ' ' :: ("port ".toList ++ (q ++ ':' :: c :: w)) by
          rw [List.append_assoc]; exact hS.symm)
      exact absurd (by rw [← hlast.1]; simp) (hends (by simp))
    | some q' =>
      obtain ⟨rfl, -, hq⟩ := hdecoy.token.solid.split_unique htoken.solid isSpace_space
        isSpace_space (show y ++ ' ' :: ("port ".toList ++ (q ++ ':' :: c :: w))
          = y' ++ ' ' :: ("port ".toList ++ (q' ++ ':' :: c' :: w')) from hS)
      have hcolon := List.append_cancel_left hq
      have hqq := (hp q rfl).1.concat_colon.split_unique (hp' q' rfl).1.concat_colon hc hc'
        (show (q ++ [':']) ++ c :: w = (q' ++ [':']) ++ c' :: w' by
          rw [List.append_assoc, List.append_assoc]; exact hcolon)
      exact ⟨rfl, by rw [List.append_cancel_right hqq.1]⟩

/-! ### All six lines -/

theorem owns_lines (hfrom : ¬ t.ForgesFrom) (hreason : ¬ t.ForgesReason) :
    ∀ line ∈ t.lines, t.Owns (parseSshd line).peerIp := by
  intro line hline
  simp only [lines, List.mem_cons, List.not_mem_nil, or_false] at hline
  rcases hline with rfl | rfl | rfl | rfl | rfl | rfl
  · exact failed_owns hfrom
  · exact invalidUser_owns
  · exact closed_owns
  · exact disconnected_owns
  · exact disconnecting_owns hreason
  · exact maximum_owns hfrom

theorem match_lines {isWord isDecimal : Char → Bool} :
    ∀ line ∈ t.lines, (sshPrefix isWord isDecimal).match line = none := by
  intro line hline
  simp only [lines, List.mem_cons, List.not_mem_nil, or_false] at hline
  rcases hline with rfl | rfl | rfl | rfl | rfl | rfl
  · exact match_sshPrefix plainStart_lines.1
  · exact match_sshPrefix plainStart_lines.2.1
  · exact match_sshPrefix plainStart_lines.2.2.1
  · exact match_sshPrefix plainStart_lines.2.2.2.1
  · exact match_sshPrefix plainStart_lines.2.2.2.2.1
  · exact match_sshPrefix plainStart_lines.2.2.2.2.2

/-- **No line of an attempt is attributed to another address, exactly when the user name
forges neither an endpoint with an `ssh2:` detail nor a peer in front of a reason.** -/
theorem faithful_iff (isWord isDecimal : Char → Bool) (t : Attempt) :
    t.Faithful isWord isDecimal ↔ ¬ (t.ForgesFrom ∨ t.ForgesReason) := by
  constructor
  · rintro hfaithful (hfrom | hreason)
    · exact failed_forged hfrom (hfaithful t.failed (by simp [lines])).1
    · exact disconnecting_forged hreason (hfaithful t.disconnecting (by simp [lines])).1
  · intro hforges line hline
    obtain ⟨hfrom, hreason⟩ := not_or.mp hforges
    have howns := owns_lines hfrom hreason line hline
    refine ⟨howns, fun identifier unit => ?_⟩
    rcases classify_peerIp (match_lines line hline) with hnone | hsame
    · exact Or.inl hnone
    · rw [hsame]
      exact howns

/-- A client at `203.0.113.9` whose name holds another endpoint. -/
def spoof : Attempt where
  user := "x from 198.51.100.7 port 22 ssh2: y".toList
  user_line := by decide
  method := "password".toList
  method_token := ⟨by decide, by decide⟩
  peer := "203.0.113.9".toList
  peer_token := ⟨by decide, by decide⟩
  address := .v4 ⟨3405803785, by decide⟩
  peer_parses := by decide +kernel
  port := 40022
  port_range := by decide
  reason := "Too many authentication failures".toList
  reason_line := by decide

/-- The failed login is attributed to the address in the name. -/
theorem spoofed_peer :
    spoof.failed = ("Failed password for invalid user x from 198.51.100.7 port 22 ssh2: y " ++
        "from 203.0.113.9 port 40022 ssh2").toList ∧
      (parseSshd spoof.failed).peerIp = some "198.51.100.7".toList ∧
      spoof.address.toText = "203.0.113.9".toList ∧
      ¬ spoof.Faithful Char.isAlphanum Char.isDigit := by
  have hpeer : (parseSshd spoof.failed).peerIp = some "198.51.100.7".toList := by decide +kernel
  have hown : spoof.address.toText = "203.0.113.9".toList := by decide
  refine ⟨by decide, hpeer, hown, fun hfaithful => ?_⟩
  have howns := (hfaithful spoof.failed (by simp [lines])).1
  rw [Owns, hpeer, hown] at howns
  exact absurd howns (by decide)

end Attempt

end RiskOps.Telemetry.Sshd
