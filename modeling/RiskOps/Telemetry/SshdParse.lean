import RiskOps.Lib.Regex
import RiskOps.Lib.PyText
import RiskOps.Lib.IpAddress

/-!
# RiskOps.Telemetry.SshdParse — reading an sshd message

Model of `telemetry/sshd_parse.py` and of `_classify` in `telemetry/store.py`: **an
ordered list of patterns, the first one that matches the whole message decides.** The
peer it captured must be a plain address and the port a number in range, else the
message is `other`.

Every pattern starts with a literal; it is kept apart from the rest of the pattern so
that the rules a message can reach are read off its first characters.
-/

namespace RiskOps.Telemetry.Sshd

open RiskOps.Lib

/-- The kinds `parse_sshd` returns, then the store's own: a message that is not
sshd's, and the two names the column held before `parse_sshd`. -/
inductive EventKind where
  | authSuccess
  | sessionOpen
  | sessionClose
  | authFailure
  | invalidUser
  | preauthAbort
  | disconnect
  | probe
  | daemon
  | other
  | nonSshd
  | sshFailure
  | sshSuccess
  deriving DecidableEq, Repr

/-! ### Pieces of patterns -/

/-- `\S`. -/
def nonSpace (c : Char) : Bool := !isSpace c

/-- `.`. -/
def dot (c : Char) : Bool := c != '\n'

/-- `[0-9]`. -/
def digit (c : Char) : Bool := '0' ≤ c && c ≤ '9'

/-- A literal text. -/
def txt (s : String) : Regex := .lit s.toList

/-- `.*`. -/
def anything : Regex := .many dot

/-- `[0-9]+`. -/
def digits : Regex := .some1 digit

/-- `\S+`. -/
def token : Regex := .some1 nonSpace

/-- `_IP`. -/
def ip : Regex := .group "ip" token

/-- `_PORT`. -/
def port : Regex := .opt (.seq (txt " port ") (.group "port" token))

/-- `_PRE`. -/
def pre : Regex := .opt (txt " [preauth]")

/-- `_USER`. -/
def user : Regex := .group "user" (.many nonSpace)

/-- `_AUTH_TAIL`. -/
def authTail : Regex := .seq (.opt (.seq (txt " ssh2") (.opt (.seq (txt ": ") anything)))) pre

/-- `[^\s:]+` after ` port `. -/
def colonPort : Regex :=
  .opt (.seq (txt " port ") (.group "port" (.some1 fun c => nonSpace c && c != ':')))

/-- `_REASON_PEER`. -/
def reasonPeer : Regex :=
  .cat [.group "ip" (.lazy1 nonSpace), colonPort, txt ":", .some1 isSpace]

/-- `_CODE_PEER`. -/
def codePeer : Regex := .cat [ip, colonPort, txt ":", .many isSpace]

/-- `(?:invalid user )?{_USER} from {_IP}{_PORT}{_AUTH_TAIL}`. -/
def authFrom : Regex := .cat [.opt (txt "invalid user "), user, txt " from ", ip, port, authTail]

/-! ### The rules -/

/-- A rule: what a message is when the literal `head` and then `body` match it. -/
structure Rule where
  kind : EventKind
  head : String
  body : Regex

/-- The compiled pattern. -/
def Rule.pattern (r : Rule) : Regex := .seq (txt r.head) r.body

/-- `_RULES`, in order. -/
def rules : List Rule :=
  [⟨.authSuccess, "Accepted ", .cat [token, txt " for ", authFrom]⟩,
   ⟨.sessionOpen, "pam_unix(sshd:session): session opened for user ",
     .seq (.group "user" (.some1 fun c => c != ' ' && c != '(')) anything⟩,
   ⟨.sessionClose, "pam_unix(sshd:session): session closed for user ",
     .seq (.group "user" (.some1 fun c => c != ' ' && c != '(')) anything⟩,
   ⟨.authFailure, "Failed ", .cat [token, txt " for ", authFrom]⟩,
   ⟨.authFailure, "error: maximum authentication attempts exceeded for ", authFrom⟩,
   ⟨.authFailure, "error: PAM: ",
     .cat [.some1 (· != ':'), txt " for ", .opt (txt "illegal user "), user, txt " from ", ip, pre]⟩,
   ⟨.authFailure, "Authentication ",
     .cat [.alt (txt "failure") (.alt (txt "error") (txt "failed")), txt " for ", user,
       txt " from ", ip, port, pre]⟩,
   ⟨.invalidUser, "Invalid user ", .cat [user, txt " from ", ip, port, pre]⟩,
   ⟨.preauthAbort, "Connection ",
     .cat [.alt (txt "closed") (txt "reset"), txt " by ",
       .alt (txt "invalid") (txt "authenticating"), txt " user ", user, txt " ", ip, port, pre]⟩,
   ⟨.preauthAbort, "Disconnected from ",
     .cat [.alt (txt "invalid") (txt "authenticating"), txt " user ", user, txt " ", ip, port, pre]⟩,
   ⟨.preauthAbort, "Disconnecting ",
     .cat [.alt (txt "invalid") (txt "authenticating"), txt " user ", user, txt " ", reasonPeer,
       anything]⟩,
   ⟨.preauthAbort, "Connection ",
     .cat [.alt (txt "closed") (txt "reset"), txt " by ", ip, port, txt " [preauth]"]⟩,
   ⟨.preauthAbort, "Disconnected from ", .cat [ip, port, txt " [preauth]"]⟩,
   ⟨.disconnect, "Disconnected from user ", .cat [user, txt " ", ip, port, pre]⟩,
   ⟨.disconnect, "Received disconnect from ",
     .cat [codePeer, digits, txt ":",
       .opt (.seq (txt " disconnected by user")
         (.opt (.seq (txt " ")
           (.group "user" (.seq (.notAhead (.seq (txt "[preauth]") .dollar)) token))))), pre]⟩,
   ⟨.disconnect, "Received disconnect from ", .cat [codePeer, digits, txt ":", anything]⟩,
   ⟨.disconnect, "Connection ",
     .cat [.alt (txt "closed") (txt "reset"), txt " by ", ip, port]⟩,
   ⟨.disconnect, "Disconnected from ", .cat [ip, port]⟩,
   ⟨.probe, "Did not receive identification string from ", .cat [ip, port, pre]⟩,
   ⟨.probe, "banner exchange: Connection from ", .cat [reasonPeer, anything]⟩,
   ⟨.probe, "Bad protocol version identification ",
     .cat [anything, txt " from ", ip, port, pre]⟩,
   ⟨.probe, "Timeout before authentication for connection from ",
     .cat [ip, port, txt " to ", token, .opt (.seq (txt " port ") token),
       .opt (.seq (txt ", pid = ") digits), pre]⟩,
   ⟨.probe, "Unable to negotiate with ", .cat [reasonPeer, anything]⟩,
   ⟨.probe, "Connection from ",
     .cat [ip, port, .opt (.cat [txt " on ", token, .opt (.seq (txt " port ") digits),
       .opt (.seq (txt " rdomain ") anything)])]⟩,
   ⟨.probe, "error: kex_exchange_identification: ", .cat [anything, txt ": ", ip, pre]⟩,
   ⟨.probe, "ssh_dispatch_run_fatal: Connection from ",
     .cat [.opt (.cat [txt "user ", user, txt " "]), reasonPeer, anything]⟩,
   ⟨.probe, "error: Received disconnect from ", .cat [codePeer, txt "14:", anything]⟩,
   ⟨.probe, "error: kex_exchange_identification: ", anything⟩,
   ⟨.probe, "error: kex_protocol_error: ", anything⟩,
   ⟨.probe, "error: Protocol major versions differ", anything⟩,
   ⟨.probe, "padding error: ", anything⟩,
   ⟨.probe, "Bad packet length ", .seq digits (txt ".")⟩,
   ⟨.probe, "fatal: userauth_pubkey: ", anything⟩,
   ⟨.probe, "drop connection #",
     .cat [digits, txt " from [", .group "ip" (.some1 (· != ']')), txt "]:", .group "port" token,
       txt " on [", .some1 (· != ']'), txt "]:", digits, txt " past MaxStartups"]⟩,
   ⟨.daemon, "Server listening on ", anything⟩,
   ⟨.daemon, "Received signal ", .cat [digits, txt "; terminating", anything]⟩,
   ⟨.daemon, "Received SIGHUP; restarting", anything⟩,
   ⟨.daemon, "error: beginning MaxStartups throttling", txt ""⟩,
   ⟨.daemon, "exited MaxStartups throttling after ",
     .cat [.rep digit 2 (some 2) true, txt ":", .rep digit 2 (some 2) true, txt ":",
       .rep digit 2 (some 2) true, txt ", ", digits, txt " connection", .opt (txt "s"),
       txt " dropped"]⟩,
   ⟨.authFailure, "userauth_pubkey: ",
     .cat [.alt (txt "signature algorithm") (txt "key type"), txt " ", token, txt " not in ", token,
       pre]⟩]

/-! ### `parse_sshd` -/

/-- What one message says. -/
structure Parsed where
  eventKind : EventKind
  peerIp : Option (List Char)
  username : Option (List Char)
  deriving DecidableEq

/-- The result for a message no rule reads. -/
def unknown : Parsed := ⟨.other, none, none⟩

/-- `[0-9]{1,5}` with a value in `1..65535`. -/
def validPort (p : List Char) : Bool :=
  ((Regex.rep digit 1 (some 5) true).fullmatch p).isSome &&
    match IpAddress.digitsVal 10 p with
    | some n => 1 ≤ n && n ≤ 65535
    | none => false

/-- The captured peer in canonical form; `none` when the token is no plain address. -/
def canonicalPeer (peer : List Char) : Option (List Char) :=
  if '%' ∈ peer ∨ '[' ∈ peer ∨ ']' ∈ peer then none
  else (IpAddress.parse peer).map IpAddress.toText

/-- The result of a rule that matched, its port checked. -/
def finishPort (kind : EventKind) (g : Regex.Groups) (peer : Option (List Char)) : Parsed :=
  let result : Parsed := ⟨kind, peer, (g.get "user").filter (· ≠ [])⟩
  match g.get "port" with
  | some p => if validPort p then result else unknown
  | none => result

/-- The result of a rule that matched. -/
def finish (kind : EventKind) (g : Regex.Groups) : Parsed :=
  match g.get "ip" with
  | some peer =>
    match canonicalPeer peer with
    | some peer => finishPort kind g (some peer)
    | none => unknown
  | none => finishPort kind g none

/-- What one rule makes of a text. -/
def Rule.apply (r : Rule) (text : List Char) : Option Parsed :=
  (r.pattern.fullmatch text).map (finish r.kind)

/-- `parse_sshd`. -/
def parseSshd (message : List Char) : Parsed :=
  (rules.findSome? (·.apply (strip message))).getD unknown

/-! ### `_classify` -/

section Classify

-- `\w` and `\d` on one character.
variable (isWord isDecimal : Char → Bool)

/-- `\d{2}`. -/
def twoDecimals : Regex := .rep isDecimal 2 (some 2) true

/-- `_SSH_PREFIX`; it is anchored at the start of the message. -/
def sshPrefix : Regex :=
  .cat [.opt (.cat [.rep isWord 3 (some 3) true, .some1 isSpace, .rep isDecimal 1 (some 2) true,
      .some1 isSpace, twoDecimals isDecimal, txt ":", twoDecimals isDecimal, txt ":",
      twoDecimals isDecimal, .some1 isSpace, token, .some1 isSpace]),
    txt "sshd", .opt (.alt (txt "-session") (txt "-auth")),
    .opt (.cat [txt "[", .some1 isDecimal, txt "]"]), txt ":", .many isSpace]

/-- `_SSH_IDENTIFIERS`. -/
def sshIdentifiers : List (List Char) :=
  ["sshd".toList, "sshd-session".toList, "sshd-auth".toList]

/-- `_SSH_UNITS`. -/
def sshUnits : List (List Char) := ["ssh.service".toList, "sshd.service".toList]

/-- Is the record one of sshd's? -/
def fromSshd (message identifier unit : List Char) : Bool :=
  identifier ∈ sshIdentifiers ||
    (identifier = [] && (unit ∈ sshUnits || ((sshPrefix isWord isDecimal).match message).isSome))

/-- The message without a syslog prefix. -/
def dropPrefix (message : List Char) : List Char :=
  match (sshPrefix isWord isDecimal).match message with
  | some (_, rest) => rest
  | none => message

/-- `_classify`. -/
def classify (message identifier unit : List Char) : Parsed :=
  if fromSshd isWord isDecimal message identifier unit then
    let parsed := parseSshd (dropPrefix isWord isDecimal message)
    { parsed with
      peerIp := parsed.peerIp.bind fun peer => (IpAddress.parse peer).map IpAddress.toText }
  else ⟨.nonSshd, none, none⟩

end Classify

end RiskOps.Telemetry.Sshd
