import RiskOps.Telemetry.SshdGrammar

/-!
# RiskOps.Telemetry.SshdForgery — when a user name can forge a peer

**One authentication attempt, the six lines sshd prints for it, and whose address they
are attributed to.** The user name is the client's: any text without a line break.
Only two of the patterns read past it, the `ssh2: ..` detail and the lazy token before
a reason, and the main theorem says exactly which user names make one of the lines
name another peer.
-/

namespace RiskOps.Telemetry.Sshd

open RiskOps.Lib RiskOps.Lib.Regex

/-! ### An attempt and its lines -/

/-- One attempt: what the client sent and where it came from. -/
structure Attempt where
  user : List Char
  user_line : '\n' ∉ user
  method : List Char
  method_token : Token method
  peer : List Char
  peer_token : Token peer
  address : IpAddress
  peer_parses : IpAddress.parse peer = some address
  port : Nat
  port_range : 1 ≤ port ∧ port ≤ 65535
  reason : List Char
  reason_line : '\n' ∉ reason

namespace Attempt

variable (t : Attempt)

/-- The port as sshd prints it. -/
def portDigits : List Char := IpAddress.decText t.port

/-- `A port P`, then `rest`. -/
def endpoint (rest : List Char) : List Char := t.peer ++ (portText (some t.portDigits) ++ rest)

/-- `Failed M for invalid user u from A port P ssh2`. -/
def failed : List Char :=
  "Failed ".toList ++ (t.method ++ (" for invalid user ".toList ++
    (t.user ++ (" from ".toList ++ t.endpoint " ssh2".toList))))

/-- `Invalid user u from A port P`. -/
def invalidUser : List Char :=
  "Invalid user ".toList ++ (t.user ++ (" from ".toList ++ t.endpoint []))

/-- `Connection closed by invalid user u A port P [preauth]`. -/
def closed : List Char :=
  "Connection closed by invalid user ".toList ++ (t.user ++ (" ".toList ++
    t.endpoint " [preauth]".toList))

/-- `Disconnected from invalid user u A port P [preauth]`. -/
def disconnected : List Char :=
  "Disconnected from invalid user ".toList ++ (t.user ++ (" ".toList ++
    t.endpoint " [preauth]".toList))

/-- `Disconnecting invalid user u A port P: reason [preauth]`. -/
def disconnecting : List Char :=
  "Disconnecting invalid user ".toList ++ (t.user ++ (" ".toList ++
    t.endpoint (": ".toList ++ (t.reason ++ " [preauth]".toList))))

/-- `error: maximum authentication attempts exceeded for invalid user u from A port P
ssh2 [preauth]`. -/
def maximum : List Char :=
  "error: maximum authentication attempts exceeded for invalid user ".toList ++
    (t.user ++ (" from ".toList ++ t.endpoint " ssh2 [preauth]".toList))

/-- The lines sshd prints for the attempt. -/
def lines : List (List Char) :=
  [t.failed, t.invalidUser, t.closed, t.disconnected, t.disconnecting, t.maximum]

/-! ### What is claimed of them -/

/-- A peer is absent or the attempt's own, in canonical form. -/
def Owns (peer : Option (List Char)) : Prop := peer = none ∨ peer = some t.address.toText

/-- No line of the attempt is attributed to another address, neither by `parse_sshd` nor
by `_classify`, whatever the record's identifier and unit. -/
def Faithful (isWord isDecimal : Char → Bool) : Prop :=
  ∀ line ∈ t.lines, t.Owns (parseSshd line).peerIp ∧
    ∀ identifier unit, t.Owns (classify isWord isDecimal line identifier unit).peerIp

/-! ### User names that forge -/

/-- A peer token and an optional port that name another address. -/
structure Decoy (y : List Char) (p : Option (List Char)) : Prop where
  token : Token y
  other : ∃ c, canonicalPeer y = some c ∧ c ≠ t.address.toText
  port : ∀ q, p = some q → Token q ∧ validPort q = true

/-- The name holds ` from`, another endpoint and ` ssh2:`, and then ends or goes on with a
space: `x from 198.51.100.7 port 22 ssh2: ..`. -/
def ForgesFrom : Prop :=
  ∃ x y p z, t.user = x ++ (" from ".toList ++ (y ++ (portText p ++ (" ssh2:".toList ++ z)))) ∧
    Solid x ∧ t.Decoy y p ∧ Spaced z

/-- The name holds another endpoint and a colon, and then ends or goes on with whitespace:
`x 198.51.100.7: ..`. A peer token in front of a port must not end in a colon itself, since
the lazy token would stop before it. -/
def ForgesReason : Prop :=
  ∃ x y p z, t.user = x ++ (" ".toList ++ (y ++ (portText p ++ (":".toList ++ z)))) ∧
    Solid x ∧ t.Decoy y p ∧ (p ≠ none → y.getLast? ≠ some ':') ∧
    ∀ c, z.head? = some c → isSpace c = true

end Attempt

/-! ### Words in front of the attempt's endpoint -/

theorem canonicalPeer_literals :
    canonicalPeer "from".toList = none ∧ canonicalPeer "invalid".toList = none ∧
      canonicalPeer ":".toList = none := by
  repeat rw [String.toList_ofList]
  decide

theorem parse_literals : IpAddress.parse "ssh2:".toList = none ∧
    IpAddress.parse "port".toList = none := by
  repeat rw [String.toList_ofList]
  decide

section Words

variable {α : Type} {F R S A P x y : α} {us ws tail : List α} {p : Option α}

/-- `from y [port q] ..` after a first word, with `F`, `R` and `S` for `from`, `port` and
`ssh2:`: either the name `us` is one word and the peer is the attempt's own, or the name
holds everything up to `ssh2:`. -/
theorem words_from (hus : us ≠ []) (hFR : F ≠ R) (hFS : F ≠ S) (hy : y ≠ F) (hA : A ≠ S)
    (hws : ws.length ≤ 2 ∨ ∃ zs, ws = S :: zs)
    (h : us ++ F :: A :: R :: P :: tail
      = x :: F :: y :: ((p.elim [] fun q => [R, q]) ++ ws)) :
    y = A ∨ ∃ zs, us = x :: F :: y :: ((p.elim [] fun q => [R, q]) ++ S :: zs) := by
  -- A tail of more than two words starts with the detail mark.
  have hlong : 2 < ws.length → ∃ zs, ws = S :: zs := fun hlt =>
    hws.resolve_left (Nat.not_le_of_lt hlt)
  match us, hus with
  | [a], _ =>
    simp only [List.singleton_append, List.cons.injEq] at h
    exact Or.inl h.2.2.1.symm
  | [a, b], _ =>
    simp only [List.cons_append, List.nil_append, List.cons.injEq] at h
    exact absurd h.2.2.1.symm hy
  | [a, b, c], _ =>
    simp only [List.cons_append, List.nil_append, List.cons.injEq] at h
    obtain ⟨-, -, -, h⟩ := h
    cases p with
    | none =>
      simp only [Option.elim_none, List.nil_append] at h
      obtain ⟨zs, rfl⟩ := hlong (by rw [← h]; simp)
      exact absurd (List.cons.inj h).1 hFS
    | some q =>
      simp only [Option.elim_some, List.cons_append] at h
      exact absurd (List.cons.inj h).1 hFR
  | a :: b :: c :: d :: us, _ =>
    simp only [List.cons_append, List.cons.injEq] at h
    obtain ⟨rfl, rfl, rfl, h⟩ := h
    cases p with
    | none =>
      simp only [Option.elim_none, List.nil_append] at h ⊢
      obtain ⟨zs, rfl⟩ := hlong (by rw [← h]; simp; omega)
      obtain ⟨rfl, -⟩ := List.cons.inj h
      exact Or.inr ⟨us, rfl⟩
    | some q =>
      simp only [Option.elim_some, List.cons_append, List.nil_append,
        List.cons.injEq] at h
      obtain ⟨rfl, h⟩ := h
      match us with
      | [] =>
        -- The port would be the word `from` and the peer would be `ssh2:`.
        simp only [List.nil_append, List.cons.injEq] at h
        obtain ⟨-, h⟩ := h
        obtain ⟨zs, rfl⟩ := hlong (by rw [← h]; simp)
        exact absurd (List.cons.inj h).1 hA
      | [e] =>
        simp only [List.cons_append, List.nil_append, List.cons.injEq] at h
        obtain ⟨-, h⟩ := h
        obtain ⟨zs, rfl⟩ := hlong (by rw [← h]; simp)
        exact absurd (List.cons.inj h).1 hFS
      | e :: f :: us =>
        simp only [List.cons_append, List.cons.injEq] at h
        obtain ⟨rfl, h⟩ := h
        obtain ⟨zs, rfl⟩ := hlong (by rw [← h]; simp; omega)
        obtain ⟨rfl, -⟩ := List.cons.inj h
        exact Or.inr ⟨us, rfl⟩

/-- A pattern without a detail leaves no room for a second word in the name. -/
theorem words_from_bare (hus : us ≠ []) (hFR : F ≠ R) (hy : y ≠ F) (hws : ws.length ≤ 1)
    (h : us ++ [F, A, R, P] = x :: F :: y :: ((p.elim [] fun q => [R, q]) ++ ws)) :
    y = A := by
  match us, hus with
  | [a], _ =>
    simp only [List.singleton_append, List.cons.injEq] at h
    exact h.2.2.1.symm
  | [a, b], _ =>
    simp only [List.cons_append, List.nil_append, List.cons.injEq] at h
    exact absurd h.2.2.1.symm hy
  | a :: b :: c :: us, _ =>
    have hlen := congrArg List.length h
    simp only [List.cons_append, List.length_cons, List.length_append, List.length_nil] at hlen
    cases p with
    | none =>
      simp at hlen
      omega
    | some q =>
      simp at hlen
      match us with
      | [] =>
        simp only [List.cons_append, List.nil_append, List.cons.injEq, Option.elim_some] at h
        exact absurd h.2.2.2.1 hFR
      | d :: us =>
        simp at hlen
        omega

/-- The same for the lines that put the peer right after the name. -/
theorem words_user (hus : us ≠ []) {e : α} (hws : ws.length ≤ 1)
    (h : us ++ [A, R, P, e] = x :: y :: ((p.elim [] fun q => [R, q]) ++ ws)) : y = A := by
  match us, hus with
  | [a], _ =>
    simp only [List.singleton_append, List.cons.injEq] at h
    exact h.2.1.symm
  | a :: b :: us, _ =>
    have hlen := congrArg List.length h
    cases p with
    | none =>
      simp at hlen
      omega
    | some q =>
      simp at hlen
      omega

end Words

/-! ### Lines are read as they are -/

/-- The text ends in a character that is no whitespace. -/
def EndsSolid (s : List Char) : Prop := ∃ c, s.getLast? = some c ∧ isSpace c = false

variable {s : List Char}

theorem EndsSolid.append_left (h : EndsSolid s) (l : List Char) : EndsSolid (l ++ s) := by
  obtain ⟨c, hc, hspace⟩ := h
  exact ⟨c, by rw [List.getLast?_append, hc, Option.some_or], hspace⟩

theorem Token.endsSolid {x : List Char} (h : Token x) : EndsSolid x := by
  cases hlast : x.getLast? with
  | none => exact absurd (List.getLast?_eq_none_iff.mp hlast) h.ne_nil
  | some c => exact ⟨c, hlast, h.solid c (List.mem_of_getLast? hlast)⟩

/-- A start that is neither whitespace nor the beginning of a syslog prefix. -/
def plainStart : List Char → Bool
  | a :: _ :: _ :: d :: _ => !isSpace a && a != 's' && !isSpace d
  | _ => false

theorem plainStart_cases (h : plainStart s = true) :
    ∃ a b c d l, s = a :: b :: c :: d :: l ∧ isSpace a = false ∧ a ≠ 's' ∧ isSpace d = false := by
  match s, h with
  | a :: b :: c :: d :: l, h =>
    simp only [plainStart, Bool.and_eq_true, Bool.not_eq_true', bne_iff_ne, ne_eq] at h
    exact ⟨a, b, c, d, l, rfl, h.1.1, h.1.2, h.2⟩

theorem strip_line {start : String} (hstart : plainStart start.toList = true) (hend : EndsSolid s) :
    strip (start.toList ++ s) = start.toList ++ s := by
  obtain ⟨a, b, c, d, l, heq, ha, -, -⟩ := plainStart_cases hstart
  obtain ⟨e, he, hspace⟩ := hend.append_left start.toList
  refine strip_eq_self ?_ ?_
  · intro a' ha'
    rw [heq] at ha'
    obtain rfl : a = a' := by simpa using ha'
    exact ha
  · intro e' he'
    rw [he] at he'
    obtain rfl := Option.some.inj he'
    exact hspace

theorem match_sshPrefix {isWord isDecimal : Char → Bool} {start : String}
    (hstart : plainStart start.toList = true) :
    (sshPrefix isWord isDecimal).match (start.toList ++ s) = none := by
  obtain ⟨a, b, c, d, l, heq, -, ha, hd⟩ := plainStart_cases hstart
  cases hmatch : (sshPrefix isWord isDecimal).match (start.toList ++ s) with
  | none => rfl
  | some m =>
    obtain ⟨rest, g, ⟨mid, g₁, hstamp, mid', g₂, ⟨hsshd, -⟩, -⟩, -⟩ := run_sound _ hmatch
    rw [heq] at hstamp
    rcases hstamp with ⟨r₁, g₃, ⟨x, hx, -, hmin, hmax, -⟩, r₂, g₄, ⟨y, hy, hspace, hone, -, -⟩, -⟩
      | ⟨rfl, -⟩
    · -- A time stamp needs whitespace after three characters.
      have hlen : x.length = 3 := Nat.le_antisymm (hmax 3 rfl) hmin
      match x, hlen with
      | [a', b', c'], _ =>
        simp only [List.cons_append, List.nil_append, List.cons.injEq] at hx
        obtain ⟨-, -, -, rfl⟩ := hx
        match y, hone with
        | d' :: y, _ =>
          obtain ⟨rfl, -⟩ := List.cons.inj hy
          rw [hspace d List.mem_cons_self] at hd
          exact absurd hd (by simp)
    · exact absurd (List.cons.inj hsshd).1 ha

/-! ### The canonical peer -/

variable {y c : List Char}

theorem canonicalPeer_eq (h : canonicalPeer y = some c) :
    '%' ∉ y ∧ ∃ a, IpAddress.parse y = some a ∧ c = a.toText := by
  unfold canonicalPeer at h
  split at h
  · simp at h
  · rename_i hplain
    obtain ⟨a, ha, rfl⟩ := Option.map_eq_some_iff.mp h
    exact ⟨fun hmem => hplain (Or.inl hmem), a, ha, rfl⟩

/-- A peer `parse_sshd` names is the canonical text of an unscoped address. -/
theorem parseSshd_peerIp {message : List Char} (h : (parseSshd message).peerIp = some c) :
    IpAddress.parse c ≠ none ∧ ∀ a, IpAddress.parse c = some a → a.toText = c := by
  have hcases := parseSshd_cases (show strip message = "".toList ++ strip message from rfl)
  rcases hcases with hunknown | ⟨-, -, r, g, -, -, hfinish⟩
  · rw [hunknown] at h
    simp [unknown] at h
  · rw [hfinish] at h
    obtain ⟨y, -, hy, -⟩ := finish_peerIp.mp h
    obtain ⟨hzone, a, ha, rfl⟩ := canonicalPeer_eq hy
    have hback := IpAddress.parse_toText (IpAddress.zone_eq_none ha hzone)
    refine ⟨by simp [hback], fun a' ha' => ?_⟩
    rw [hback] at ha'
    rw [Option.some.inj ha']

/-- `_classify` names the same peer as `parse_sshd`, or none. -/
theorem classify_peerIp {isWord isDecimal : Char → Bool} {line identifier unit : List Char}
    (hnone : (sshPrefix isWord isDecimal).match line = none) :
    (classify isWord isDecimal line identifier unit).peerIp = none ∨
      (classify isWord isDecimal line identifier unit).peerIp = (parseSshd line).peerIp := by
  have hdrop : dropPrefix isWord isDecimal line = line := by
    simp only [dropPrefix, hnone]
  unfold classify
  split
  · simp only [hdrop]
    cases hpeer : (parseSshd line).peerIp with
    | none => exact Or.inl rfl
    | some c =>
      obtain ⟨hne, htext⟩ := parseSshd_peerIp hpeer
      obtain ⟨a, ha⟩ := Option.ne_none_iff_exists'.mp hne
      right
      simp [ha, htext a ha]
  · exact Or.inl rfl

variable {g : Groups}

namespace Attempt

variable {t : Attempt}

theorem portDigits_token : Token t.portDigits := by
  refine ⟨Nat.toDigits_ne_nil, ?_⟩
  intro c hc
  obtain ⟨d, hd, rfl⟩ := IpAddress.mem_toDigits (by decide) hc
  have hall : ∀ d : Fin 10, isSpace (Nat.digitChar d) = false := by decide
  exact hall ⟨d, hd⟩

theorem endpoint_endpoint (rest : List Char) :
    Endpoint (t.endpoint rest) rest t.peer (some t.portDigits) :=
  ⟨rfl, t.peer_token, by rintro _ ⟨⟩; exact portDigits_token⟩

theorem endpoint_words {rest : List Char} (h : Spaced rest) :
    words (t.endpoint rest) = t.peer :: "port".toList :: t.portDigits :: tailWords rest :=
  (endpoint_endpoint rest).words h

theorem endpoint_endsSolid {rest : List Char} (h : rest = [] ∨ EndsSolid rest) :
    EndsSolid (t.endpoint rest) := by
  refine EndsSolid.append_left ?_ _
  rcases h with rfl | h
  · rw [List.append_nil]
    exact portDigits_token.endsSolid.append_left " port ".toList
  · exact h.append_left _

/-- A peer that is not the attempt's own comes from a token that is not the attempt's. -/
theorem ne_peer (hy : canonicalPeer y = some c) (hc : c ≠ t.address.toText) : y ≠ t.peer := by
  rintro rfl
  obtain ⟨-, a, ha, rfl⟩ := canonicalPeer_eq hy
  rw [t.peer_parses] at ha
  exact hc (by rw [Option.some.inj ha])

/-- To own a verdict it is enough to refute every other peer. -/
theorem owns_finish {kind : EventKind}
    (h : ∀ y c, g.get "ip" = some y → canonicalPeer y = some c → c ≠ t.address.toText →
      (∀ q, g.get "port" = some q → validPort q = true) → False) :
    t.Owns (finish kind g).peerIp := by
  cases hpeer : (finish kind g).peerIp with
  | none => exact Or.inl rfl
  | some c =>
    obtain ⟨y, hip, hy, hport⟩ := finish_peerIp.mp hpeer
    by_cases hc : c = t.address.toText
    · exact Or.inr (by rw [hc])
    · exact (h y c hip hy hc hport).elim

end Attempt

/-! ### Lines with ` from ` -/

variable {T : List Char}

/-- `authFrom` on a line about an invalid user: the first word is the name, and the peer
follows ` from `. -/
theorem steps_authFrom :
    Steps authFrom ("invalid user ".toList ++ T) [] [] g ↔
      ∃ x mid y p e, T = x ++ (" from ".toList ++ mid) ∧ Solid x ∧ Endpoint mid e y p ∧
        AuthEnd e ∧ g = portGroup p ++ [("ip", y), ("user", x)] := by
  constructor
  · rintro ⟨s, g₁, hopt, h⟩
    obtain ⟨x, mid, hs, hx, h⟩ := steps_user_txt.mp h
    obtain ⟨y, p, e, hend, h⟩ := steps_ip_port.mp h
    obtain ⟨htail, hg⟩ := steps_authTail.mp h
    rcases hopt with htxt | ⟨hskip, -⟩
    · obtain ⟨hT, rfl⟩ := steps_txt.mp htxt
      exact ⟨x, mid, y, p, e, (List.append_cancel_left hT).trans hs, hx, hend, htail, hg⟩
    · -- Skipping `invalid user ` would make `invalid` the name, followed by ` user`.
      have hsplit : x ++ ' ' :: ("from ".toList ++ mid)
          = "invalid".toList ++ ' ' :: ("user ".toList ++ T) := hs.symm.trans hskip
      obtain ⟨-, -, hbad⟩ := hx.split_unique (by decide) isSpace_space isSpace_space hsplit
      exact absurd (List.cons.inj hbad).1 (by decide)
  · rintro ⟨x, mid, y, p, e, hT, hx, hend, htail, hg⟩
    refine ⟨T, [], Or.inl (steps_txt.mpr ⟨rfl, rfl⟩), steps_user_txt.mpr ⟨x, mid, hT, hx, ?_⟩⟩
    exact steps_ip_port.mpr ⟨y, p, e, hend, steps_authTail.mpr ⟨htail, hg⟩⟩

theorem words_from_text {x mid : List Char} (hx : ' ' ∉ x) :
    words (x ++ (" from ".toList ++ mid)) = x :: "from".toList :: words mid := by
  show words (x ++ ' ' :: ("from".toList ++ ' ' :: mid)) = _
  rw [words_cons hx, words_cons (by decide)]

theorem words_user_from (u mid : List Char) :
    words (u ++ (" from ".toList ++ mid)) = words u ++ "from".toList :: words mid := by
  show words (u ++ ' ' :: ("from".toList ++ ' ' :: mid)) = _
  rw [words_append, words_cons (by decide)]

namespace Attempt

variable {t : Attempt}

/-- A name whose words are `x from y [port q] ssh2: ..`, as text. -/
theorem text_of_words {u x : List Char} {p : Option (List Char)} {zs : List (List Char)}
    (h : words u = x :: "from".toList :: y :: (portWords p ++ "ssh2:".toList :: zs)) :
    ∃ z, u = x ++ (" from ".toList ++ (y ++ (portText p ++ (" ssh2:".toList ++ z)))) ∧
      Spaced z := by
  have hjoin : ∀ (w : List Char) (ws : List (List Char)), ∃ z, Spaced z ∧
      [' '].intercalate (w :: ws) = w ++ z := by
    intro w ws
    cases ws with
    | nil => exact ⟨[], Or.inl rfl, by simp⟩
    | cons w' ws =>
      exact ⟨' ' :: [' '].intercalate (w' :: ws), Or.inr ⟨_, rfl⟩, by
        rw [List.intercalate_cons_cons, List.append_assoc, List.singleton_append]⟩
  obtain ⟨z, hz, hzs⟩ := hjoin "ssh2:".toList zs
  refine ⟨z, ?_, hz⟩
  rw [← intercalate_words u, h]
  cases p with
  | none =>
    simp only [portWords, Option.elim_none, List.nil_append,
      List.intercalate_cons_cons, hzs, List.append_assoc]
    rfl
  | some q =>
    simp only [portWords, Option.elim_some, List.cons_append, List.nil_append,
      List.intercalate_cons_cons, hzs, List.append_assoc]
    rfl

/-- What both `authFrom` lines come down to. -/
theorem forgesFrom_of_steps {rest : List Char} (hrest : Spaced rest)
    (h : Steps authFrom ("invalid user ".toList ++ (t.user ++ (" from ".toList ++ t.endpoint rest)))
      [] [] g) (hip : g.get "ip" = some y) (hy : canonicalPeer y = some c)
    (hc : c ≠ t.address.toText) (hport : ∀ q, g.get "port" = some q → validPort q = true) :
    t.ForgesFrom := by
  obtain ⟨x, mid, y', p, e, hT, hx, hend, htail, rfl⟩ := Iff.mp steps_authFrom h
  obtain rfl : y' = y := Option.some.inj (get_groups.1.symm.trans hip)
  have hwords : words t.user ++ "from".toList :: t.peer :: "port".toList :: t.portDigits ::
      tailWords rest = x :: "from".toList :: y' :: (portWords p ++ tailWords e) := by
    rw [← endpoint_words hrest, ← words_user_from, hT, words_from_text hx.no_blank,
      hend.words htail.spaced]
  have hfrom : y' ≠ "from".toList := by
    rintro rfl
    rw [canonicalPeer_literals.1] at hy
    simp at hy
  have hA : t.peer ≠ "ssh2:".toList := by
    intro hpeer
    have hparses := t.peer_parses
    rw [hpeer, parse_literals.1] at hparses
    simp at hparses
  rcases words_from (words_ne_nil _) (by decide) (by decide) hfrom hA htail.tailWords hwords with
    heq | ⟨zs, hzs⟩
  · exact absurd heq (ne_peer hy hc)
  · obtain ⟨z, hz, hspaced⟩ := text_of_words hzs
    refine ⟨x, y', p, z, hz, hx, ⟨hend.peer, ⟨c, hy, hc⟩, fun q hq => ⟨hend.port q hq, ?_⟩⟩, hspaced⟩
    exact hport q (get_groups.2.trans hq)

end Attempt

/-! ### The rules the lines reach -/

theorem plainStart_lines :
    plainStart "Failed ".toList = true ∧ plainStart "Invalid user ".toList = true ∧
      plainStart "Connection closed by invalid user ".toList = true ∧
      plainStart "Disconnected from invalid user ".toList = true ∧
      plainStart "Disconnecting invalid user ".toList = true ∧
      plainStart
        "error: maximum authentication attempts exceeded for invalid user ".toList = true := by
  repeat rw [String.toList_ofList]
  decide

theorem reachable_lines :
    reachable "Failed " = [3] ∧ reachable "Invalid user " = [7] ∧
      reachable "Connection closed by invalid user " = [8, 11, 16] ∧
      reachable "Disconnected from invalid user " = [9, 12, 17] ∧
      reachable "Disconnecting invalid user " = [10] ∧
      reachable "error: maximum authentication attempts exceeded for invalid user " = [4] := by
  -- The kernel is slow to read a literal as a list, so the lists are written out first.
  simp only [reachable_heads, rules, List.map_cons, List.map_nil]
  repeat rw [String.toList_ofList]
  decide

theorem rule_failed :
    rules[3]? = some ⟨.authFailure, "Failed ", .cat [token, txt " for ", authFrom]⟩ := rfl

theorem rule_maximum :
    rules[4]? = some
      ⟨.authFailure, "error: maximum authentication attempts exceeded for ", authFrom⟩ := rfl

theorem rule_invalidUser :
    rules[7]? = some
      ⟨.invalidUser, "Invalid user ", .cat [user, txt " from ", ip, port, pre]⟩ := rfl

/-- The literal head of a rule is read off, the body does the rest. -/
theorem steps_pattern {kind : EventKind} {head : String} {body : Regex} :
    Steps (Rule.pattern ⟨kind, head, body⟩) (head.toList ++ s) [] [] g ↔
      Steps body s [] [] g := by
  constructor
  · rintro ⟨mid, g₁, htxt, h⟩
    obtain ⟨hmid, rfl⟩ := steps_txt.mp htxt
    rwa [← List.append_cancel_left hmid] at h
  · intro h
    exact ⟨s, [], steps_txt.mpr ⟨rfl, rfl⟩, h⟩

/-- A verdict on a line is owned when every match of every reachable rule is. -/
theorem Attempt.owns_parseSshd {t : Attempt} {start : String} {is : List Nat}
    (hplain : plainStart start.toList = true) (hreach : reachable start = is) (hend : EndsSolid s)
    (h : ∀ i ∈ is, ∀ r g, rules[i]? = some r → r.pattern.fullmatch (start.toList ++ s) = some g →
      t.Owns (finish r.kind g).peerIp) : t.Owns (parseSshd (start.toList ++ s)).peerIp := by
  rcases parseSshd_cases (strip_line hplain hend) with hunknown | ⟨i, hi, r, g, hr, hg, hfinish⟩
  · rw [hunknown]
    exact Or.inl rfl
  · rw [hfinish]
    exact h i (hreach ▸ hi) r g hr hg

namespace Attempt

variable {t : Attempt}

theorem spaced_ssh2 : Spaced " ssh2".toList ∧ Spaced " ssh2 [preauth]".toList ∧
    Spaced " [preauth]".toList :=
  ⟨Or.inr ⟨"ssh2".toList, rfl⟩, Or.inr ⟨"ssh2 [preauth]".toList, rfl⟩,
    Or.inr ⟨"[preauth]".toList, rfl⟩⟩

theorem endsSolid_tails : EndsSolid " ssh2".toList ∧ EndsSolid " ssh2 [preauth]".toList ∧
    EndsSolid " [preauth]".toList :=
  ⟨⟨'2', by decide, by decide⟩, ⟨']', by decide, by decide⟩, ⟨']', by decide, by decide⟩⟩

/-- The method is one token, so `authFrom` starts right after ` for `. -/
theorem steps_failed :
    Steps (.cat [token, txt " for ", authFrom]) (t.method ++ (" for invalid user ".toList ++
        (t.user ++ (" from ".toList ++ t.endpoint " ssh2".toList)))) [] [] g ↔
      Steps authFrom ("invalid user ".toList ++
        (t.user ++ (" from ".toList ++ t.endpoint " ssh2".toList))) [] [] g := by
  constructor
  · rintro ⟨mid, g₁, ⟨m, hm, hsolid, -, -, rfl⟩, mid', g₂, htxt, h⟩
    obtain ⟨hmid, rfl⟩ := steps_txt.mp htxt
    have hsplit : m ++ ' ' :: ("for ".toList ++ mid') = t.method ++ ' ' :: ("for ".toList ++
        ("invalid user ".toList ++ (t.user ++ (" from ".toList ++ t.endpoint " ssh2".toList)))) := by
      rw [hmid] at hm
      exact hm.symm
    obtain ⟨-, -, hrest⟩ := (solid_iff.mpr hsolid).split_unique t.method_token.solid
      isSpace_space isSpace_space hsplit
    rwa [List.append_cancel_left hrest] at h
  · intro h
    have hm := token_iff.mp t.method_token
    exact ⟨_, [], ⟨t.method, rfl, hm.1, hm.2, by simp, rfl⟩, _, [], steps_txt.mpr ⟨rfl, rfl⟩, h⟩

theorem failed_owns (h : ¬ t.ForgesFrom) : t.Owns (parseSshd t.failed).peerIp := by
  refine owns_parseSshd plainStart_lines.1 reachable_lines.1 ?_ ?_
  · exact (((endpoint_endsSolid (Or.inr endsSolid_tails.1)).append_left _).append_left _
      |>.append_left _).append_left _
  · intro i hi r g hr hmatch
    have hsteps := fullmatch_sound hmatch
    obtain rfl : i = 3 := by simpa using hi
    rw [rule_failed] at hr
    obtain rfl := Option.some.inj hr
    have hauth := Iff.mp steps_failed (Iff.mp steps_pattern hsteps)
    exact owns_finish fun y c hip hy hc hport =>
      h (forgesFrom_of_steps spaced_ssh2.1 hauth hip hy hc hport)

theorem maximum_owns (h : ¬ t.ForgesFrom) : t.Owns (parseSshd t.maximum).peerIp := by
  refine owns_parseSshd plainStart_lines.2.2.2.2.2 reachable_lines.2.2.2.2.2 ?_ ?_
  · exact ((endpoint_endsSolid (Or.inr endsSolid_tails.2.1)).append_left _).append_left _
  · intro i hi r g hr hmatch
    have hsteps := fullmatch_sound hmatch
    obtain rfl : i = 4 := by simpa using hi
    rw [rule_maximum] at hr
    obtain rfl := Option.some.inj hr
    have hhead : "error: maximum authentication attempts exceeded for invalid user ".toList
        = "error: maximum authentication attempts exceeded for ".toList ++
          "invalid user ".toList := by
      repeat rw [String.toList_ofList]
      rfl
    rw [hhead, List.append_assoc] at hsteps
    exact owns_finish fun y c hip hy hc hport =>
      h (forgesFrom_of_steps spaced_ssh2.2.1 (Iff.mp steps_pattern hsteps) hip hy hc hport)

theorem invalidUser_owns : t.Owns (parseSshd t.invalidUser).peerIp := by
  refine owns_parseSshd plainStart_lines.2.1 reachable_lines.2.1 ?_ ?_
  · exact ((endpoint_endsSolid (Or.inl rfl)).append_left _).append_left _
  · intro i hi r g hr hmatch
    have hsteps := fullmatch_sound hmatch
    obtain rfl : i = 7 := by simpa using hi
    rw [rule_invalidUser] at hr
    obtain rfl := Option.some.inj hr
    obtain ⟨x, mid, hT, hx, h⟩ := steps_user_txt.mp (Iff.mp steps_pattern hsteps)
    obtain ⟨y, p, e, hend, h⟩ := steps_ip_port.mp h
    obtain ⟨htail, rfl⟩ := steps_pre_end.mp h
    refine owns_finish fun y' c hip hy hc _ => ne_peer hy hc ?_
    obtain rfl : y = y' := Option.some.inj (get_groups.1.symm.trans hip)
    have hwords : words t.user ++ ["from".toList, t.peer, "port".toList, t.portDigits]
        = x :: "from".toList :: y :: (portWords p ++ tailWords e) := by
      have hendpoint : words (t.endpoint []) = [t.peer, "port".toList, t.portDigits] :=
        endpoint_words (Or.inl rfl)
      rw [← hendpoint, ← words_user_from, hT, words_from_text hx.no_blank, hend.words htail.spaced]
    have hfrom : y ≠ "from".toList := by
      rintro rfl
      rw [canonicalPeer_literals.1] at hy
      simp at hy
    exact words_from_bare (words_ne_nil _) (by decide) hfrom htail.length_tailWords hwords

end Attempt

/-! ### Lines with the peer right after the name -/

theorem rules_closed :
    rules[8]? = some ⟨.preauthAbort, "Connection ",
        .cat [.alt (txt "closed") (txt "reset"), txt " by ",
          .alt (txt "invalid") (txt "authenticating"), txt " user ", user, txt " ", ip, port, pre]⟩ ∧
      rules[11]? = some ⟨.preauthAbort, "Connection ",
        .cat [.alt (txt "closed") (txt "reset"), txt " by ", ip, port, txt " [preauth]"]⟩ ∧
      rules[16]? = some ⟨.disconnect, "Connection ",
        .cat [.alt (txt "closed") (txt "reset"), txt " by ", ip, port]⟩ :=
  ⟨rfl, rfl, rfl⟩

theorem rules_disconnected :
    rules[9]? = some ⟨.preauthAbort, "Disconnected from ",
        .cat [.alt (txt "invalid") (txt "authenticating"), txt " user ", user, txt " ", ip, port,
          pre]⟩ ∧
      rules[12]? = some ⟨.preauthAbort, "Disconnected from ", .cat [ip, port, txt " [preauth]"]⟩ ∧
      rules[17]? = some ⟨.disconnect, "Disconnected from ", .cat [ip, port]⟩ :=
  ⟨rfl, rfl, rfl⟩

variable {r : Regex}

/-- Of two literals with different first characters, the text chooses. -/
theorem steps_alt_txt {a b l : String} {rest : List Char} {g' : Groups}
    (hne : a.toList.head? ≠ b.toList.head?) (hb : b.toList ≠ []) (ha : a.toList ≠ []) :
    Steps (.seq (.alt (txt a) (txt b)) (.seq (txt l) r)) (a.toList ++ (l.toList ++ s)) rest g g' ↔
      Steps r s rest g g' := by
  constructor
  · rintro ⟨mid, g₁, halt, mid', g₂, hl, h⟩
    obtain ⟨hmid, rfl⟩ := steps_txt.mp hl
    rcases halt with htxt | htxt
    · obtain ⟨hs, rfl⟩ := steps_txt.mp htxt
      rw [← List.append_cancel_left hs] at hmid
      rwa [List.append_cancel_left hmid]
    · obtain ⟨hs, rfl⟩ := steps_txt.mp htxt
      have hhead := congrArg List.head? hs
      rw [List.head?_append_of_ne_nil _ ha, List.head?_append_of_ne_nil _ hb] at hhead
      exact absurd hhead hne
  · intro h
    exact ⟨_, g, Or.inl (steps_txt.mpr ⟨rfl, rfl⟩), s, g, steps_txt.mpr ⟨rfl, rfl⟩, h⟩

theorem steps_closed_by :
    Steps (.seq (.alt (txt "closed") (txt "reset")) (.seq (txt " by ") r))
        ("closed".toList ++ (" by ".toList ++ s)) [] [] g ↔ Steps r s [] [] g :=
  steps_alt_txt (by decide) (by decide) (by decide)

theorem steps_invalid_user :
    Steps (.seq (.alt (txt "invalid") (txt "authenticating")) (.seq (txt " user ") r))
        ("invalid user ".toList ++ s) [] [] g ↔ Steps r s [] [] g := by
  have hsplit : "invalid user ".toList = "invalid".toList ++ " user ".toList := by
    repeat rw [String.toList_ofList]
    rfl
  rw [hsplit, List.append_assoc]
  exact steps_alt_txt (by decide) (by decide) (by decide)

/-- A peer read right after `by` or `from` would be the word `invalid`. -/
theorem peer_invalid {E : List Char} (hy : Token y) (hE : Spaced E)
    (h : "invalid user ".toList ++ T = y ++ E) : y = "invalid".toList := by
  have hsplit : "invalid".toList ++ ' ' :: ("user ".toList ++ T) = y ++ E := h
  rcases hE with rfl | ⟨E', rfl⟩
  · rw [List.append_nil] at hsplit
    exact absurd (hsplit ▸ List.mem_append_right _ List.mem_cons_self) hy.solid.no_blank
  · have hsolid : Solid "invalid".toList := by decide
    exact (hsolid.split_unique hy.solid isSpace_space isSpace_space hsplit).1.symm

namespace Attempt

variable {t : Attempt}

theorem owns_of_peer_body {kind : EventKind} {mid : List Char} {p : Option (List Char)}
    (hend : Endpoint ("invalid user ".toList ++ T) mid y p) (hmid : Spaced mid)
    (hip : g.get "ip" = some y) : t.Owns (finish kind g).peerIp := by
  refine owns_finish fun y' c hip' hy _ _ => ?_
  obtain rfl : y = y' := Option.some.inj (hip.symm.trans hip')
  rw [peer_invalid hend.peer (spaced_portText hmid) hend.eq, canonicalPeer_literals.2.1] at hy
  simp at hy

theorem owns_of_preauth_body {kind : EventKind}
    (h : Steps (.cat [ip, Sshd.port, txt " [preauth]"]) ("invalid user ".toList ++ T) [] [] g) :
    t.Owns (finish kind g).peerIp := by
  obtain ⟨y, p, mid, hend, h⟩ := steps_ip_port.mp h
  obtain ⟨rfl, rfl⟩ := steps_txt.mp h
  exact owns_of_peer_body hend (Or.inr ⟨_, rfl⟩) get_groups_nouser

theorem owns_of_bare_body {kind : EventKind}
    (h : Steps (.cat [ip, Sshd.port]) ("invalid user ".toList ++ T) [] [] g) :
    t.Owns (finish kind g).peerIp := by
  obtain ⟨mid, g₁, hip, hport⟩ := h
  obtain ⟨y, hs, hy, rfl⟩ := steps_ip.mp hip
  obtain ⟨p, hmid, hp, rfl⟩ := steps_port.mp hport
  exact owns_of_peer_body ⟨by rw [hs, hmid], hy, hp⟩ (Or.inl rfl) get_groups_nouser

theorem owns_of_user_body {kind : EventKind}
    (h : Steps (.cat [.alt (txt "invalid") (txt "authenticating"), txt " user ", Sshd.user,
        txt " ", ip, Sshd.port, pre])
      ("invalid user ".toList ++ (t.user ++ (" ".toList ++ t.endpoint " [preauth]".toList)))
      [] [] g) : t.Owns (finish kind g).peerIp := by
  obtain ⟨x, mid, hT, hx, h⟩ := steps_user_txt.mp (Iff.mp steps_invalid_user h)
  obtain ⟨y, p, e, hend, h⟩ := steps_ip_port.mp h
  obtain ⟨htail, rfl⟩ := steps_pre_end.mp h
  refine owns_finish fun y' c hip hy hc _ => ne_peer hy hc ?_
  obtain rfl : y = y' := Option.some.inj (get_groups.1.symm.trans hip)
  have hT' : t.user ++ ' ' :: t.endpoint " [preauth]".toList = x ++ ' ' :: mid := hT
  have hwords : words t.user ++ [t.peer, "port".toList, t.portDigits, "[preauth]".toList]
      = x :: y :: (portWords p ++ tailWords e) := by
    have hendpoint : words (t.endpoint " [preauth]".toList)
        = [t.peer, "port".toList, t.portDigits, "[preauth]".toList] := by
      rw [endpoint_words spaced_ssh2.2.2]
      exact congrArg _ (congrArg _ (congrArg _ (words_eq_singleton (by decide))))
    rw [← hendpoint, ← words_append, hT', words_cons hx.no_blank, hend.words htail.spaced]
  exact words_user (words_ne_nil _) htail.length_tailWords hwords

theorem closed_owns : t.Owns (parseSshd t.closed).peerIp := by
  refine owns_parseSshd plainStart_lines.2.2.1 reachable_lines.2.2.1 ?_ ?_
  · exact ((endpoint_endsSolid (Or.inr endsSolid_tails.2.2)).append_left _).append_left _
  · intro i hi r g hr hmatch
    have hsteps := fullmatch_sound hmatch
    have hhead : "Connection closed by invalid user ".toList = "Connection ".toList ++
        ("closed".toList ++ (" by ".toList ++ "invalid user ".toList)) := by
      repeat rw [String.toList_ofList]
      rfl
    rw [hhead] at hsteps
    simp only [List.append_assoc] at hsteps
    simp only [List.mem_cons, List.not_mem_nil, or_false] at hi
    rcases hi with rfl | rfl | rfl
    · obtain rfl := Option.some.inj (rules_closed.1.symm.trans hr)
      exact owns_of_user_body (Iff.mp steps_closed_by (steps_pattern.mp hsteps))
    · obtain rfl := Option.some.inj (rules_closed.2.1.symm.trans hr)
      exact owns_of_preauth_body (Iff.mp steps_closed_by (steps_pattern.mp hsteps))
    · obtain rfl := Option.some.inj (rules_closed.2.2.symm.trans hr)
      exact owns_of_bare_body (Iff.mp steps_closed_by (steps_pattern.mp hsteps))

theorem disconnected_owns : t.Owns (parseSshd t.disconnected).peerIp := by
  refine owns_parseSshd plainStart_lines.2.2.2.1 reachable_lines.2.2.2.1 ?_ ?_
  · exact ((endpoint_endsSolid (Or.inr endsSolid_tails.2.2)).append_left _).append_left _
  · intro i hi r g hr hmatch
    have hsteps := fullmatch_sound hmatch
    have hhead : "Disconnected from invalid user ".toList = "Disconnected from ".toList ++
        "invalid user ".toList := by
      repeat rw [String.toList_ofList]
      rfl
    rw [hhead, List.append_assoc] at hsteps
    simp only [List.mem_cons, List.not_mem_nil, or_false] at hi
    rcases hi with rfl | rfl | rfl
    · obtain rfl := Option.some.inj (rules_disconnected.1.symm.trans hr)
      exact owns_of_user_body (steps_pattern.mp hsteps)
    · obtain rfl := Option.some.inj (rules_disconnected.2.1.symm.trans hr)
      exact owns_of_preauth_body (steps_pattern.mp hsteps)
    · obtain rfl := Option.some.inj (rules_disconnected.2.2.symm.trans hr)
      exact owns_of_bare_body (steps_pattern.mp hsteps)

end Attempt

end RiskOps.Telemetry.Sshd
