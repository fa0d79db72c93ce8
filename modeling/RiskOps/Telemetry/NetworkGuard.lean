import RiskOps.Lib.IpAddress
import RiskOps.Lib.PyDict

/-!
# RiskOps.Telemetry.NetworkGuard — dynamic sets of denied addresses

Model of `network_guard`. A snapshot is the list of objects `nft` prints, each a dict with one
member that names its kind. `terminalSetSnapshot` takes the members of the enrolled sets out of it,
after it has found every use of each of them (`referencePaths`).

**Rejections.** There is one code, `unsafe_dynamic_terminal_set`, so a rejection is `none`.

**Dicts** keep their members in the order of their keys. `body is definition` says that the
definition of a set is met at the place it was found at.
-/

namespace RiskOps.Telemetry.Guard

open RiskOps.Lib (Str)
open RiskOps.Lib.PyJson

/-- `len(x) <= n` of a string, if there is one. -/
def shortText (n : Nat) : Option Value → Bool
  | none => true
  | some (.str s) => s.length ≤ n
  | some _ => false

def isText : Option Value → Bool
  | some (.str _) => true
  | _ => false

/-! ### Identities -/

def isNameChar (c : Nat) : Bool :=
  (65 ≤ c && c ≤ 90) || (97 ≤ c && c ≤ 122) || (48 ≤ c && c ≤ 57) || c = 95

/-- `[A-Za-z0-9_][A-Za-z0-9_.-]{0,63}`. -/
def isName : Str → Bool
  | [] => false
  | c :: rest => isNameChar c && rest.length ≤ 63 && rest.all fun c => isNameChar c || c = 46 || c = 45

/-- Family, table and name of a set. -/
structure Identity where
  family : Str
  table : Str
  name : Str
  deriving DecidableEq

/-- `_SET_ID` and `identity.split('/')`. -/
def parseIdentity (s : Str) : Option Identity :=
  match s.splitOn 47 with
  | [family, table, name] =>
    if (["ip", "ip6", "inet"].map Str.ofString).contains family && isName table && isName name then
      some ⟨family, table, name⟩
    else none
  | _ => none

/-- `validate_terminal_set_ids(identities)`. -/
def validateTerminalSetIds (identities : List Str) : Bool :=
  1 ≤ identities.length && identities.length ≤ 8
    && identities.all (fun s => (parseIdentity s).isSome) && decide identities.Nodup

/-! ### Expressions -/

/-- An integer up to `maximum`. -/
def isNumber (maximum : Int) : Value → Bool
  | .int n => 0 ≤ n && n ≤ maximum
  | _ => false

/-- `_literal_numbers(value, maximum)`. -/
def literalNumbers (maximum : Int) : Value → Bool
  | .obj [(key, .arr items)] =>
    if key = Str.ofString "set" then
      1 ≤ items.length && items.length ≤ 64 && items.all (isNumber maximum) && decide items.Nodup
    else if key = Str.ofString "range" then
      match items with
      | [.int a, .int b] => isNumber maximum (.int a) && isNumber maximum (.int b) && a ≤ b
      | _ => false
    else false
  | v => isNumber maximum v

/-- `{'payload': {'protocol': protocol, 'field': field}}`. -/
def payload (protocol field : String) : Value :=
  dict [("payload", dict [("field", text field), ("protocol", text protocol)])]

/-- The ports a static match may look at. -/
def ports : List Value :=
  [payload "tcp" "sport", payload "tcp" "dport", payload "udp" "sport", payload "udp" "dport"]

def l4proto : Value := dict [("meta", dict [("key", text "l4proto")])]

/-- `_static_match(expr)`. -/
def staticMatch : Value → Bool
  | .obj [(key, .obj m)] =>
    key = Str.ofString "match" && m.length = 3 && Dict.hasAll m ["left", "op", "right"]
      && Dict.get m "op" = some (text "==")
      && match Dict.get m "left", Dict.get m "right" with
        | some left, some right =>
          if ports.contains left then literalNumbers 65535 right
          else if left = l4proto then literalNumbers 255 right
          else false
        | _, _ => false
  | _ => false

/-- `_terminal(expr)`. -/
def terminal (expr : Value) : Bool :=
  expr = dict [("drop", .null)] || expr = dict [("reject", .null)] ||
    match expr with
    | .obj [(key, .obj reject)] =>
      key = Str.ofString "reject" && Dict.onlyKeys reject ["type", "expr"]
        && if Dict.get reject "type" = some (text "tcp reset") then
            Dict.get reject "expr" = none || Dict.get reject "expr" = some .null
          else ["icmp", "icmpv6", "icmpx"].any (fun t => Dict.get reject "type" = some (text t))
            && (Dict.get reject "expr").any (isNumber 255)
    | _ => false

/-! ### References -/

/-- One step into a value. -/
inductive Step
  | key (key : Str)
  | index (index : Nat)
  deriving DecidableEq

abbrev Path := List Step

def Step.named (key : String) : Step := .key (Str.ofString key)

/-- `value == name or '@' + name in value`. -/
def mentions (name s : Str) : Bool := s = name || decide (64 :: name <:+: s)

mutual

/-- `_reference_paths(value, name, path)`. -/
def referencePaths (name : Str) : Value → Path → List Path
  | .str s, path => if mentions name s then [path] else []
  | .arr vs, path => itemPaths name vs 0 path
  | .obj ms, path => memberPaths name ms path
  | _, _ => []

def itemPaths (name : Str) : List Value → Nat → Path → List Path
  | [], _, _ => []
  | v :: vs, i, path => referencePaths name v (path ++ [.index i]) ++ itemPaths name vs (i + 1) path

def memberPaths (name : Str) : List (Str × Value) → Path → List Path
  | [], _ => []
  | (key, v) :: ms, path =>
    (if mentions name key then [path ++ [.named "<key>", .key key]] else [])
      ++ referencePaths name v (path ++ [.key key]) ++ memberPaths name ms path

end

/-- `expected`: the lookup of a source address in a set. -/
def sourceLookup (protocol : String) (name : Str) : Value :=
  dict [("match", dict [("left", payload protocol "saddr"), ("op", text "=="),
    ("right", .str (64 :: name))])]

def emptyCounter : Value := dict [("counter", dict [])]

/-- Where the name of the set stands in the lookup at `index`. -/
def lookupPath (index : Nat) : Path :=
  [.named "rule", .named "expr", .index index, .named "match", .named "right"]

/-- The lookups among the expressions from `index` on, unless there is one of another kind. -/
def lookups (protocol : String) (name : Str) : Nat → List Value → Option (List Path)
  | _, [] => some []
  | index, expr :: exprs =>
    if expr = sourceLookup protocol name then
      (lookups protocol name (index + 1) exprs).map (lookupPath index :: ·)
    else if expr = emptyCounter || staticMatch expr then lookups protocol name (index + 1) exprs
    else none

/-- `_review_rule(rule, reference_paths, name, protocol)`. -/
def reviewRule (rule : Dict) (paths : List Path) (name : Str) (protocol : String) : Bool :=
  Dict.hasAll rule ["family", "table", "chain", "expr"]
    && Dict.onlyKeys rule ["family", "table", "chain", "expr", "comment"]
    && isText (Dict.get rule "chain") && shortText 256 (Dict.get rule "comment")
    && match Dict.get rule "expr" with
      | some (.arr exprs) =>
        2 ≤ exprs.length && exprs.length ≤ 16 && exprs.getLast?.any terminal
          && match lookups protocol name 0 exprs.dropLast with
            | some found => found.length = 1 && paths = found
            | none => false
      | _ => false

/-! ### The enrolled sets -/

/-- The object defines the set. -/
def isDefinition (identity : Identity) : Value → Bool
  | .obj [(kind, .obj body)] =>
    kind = Str.ofString "set" && Dict.get body "family" = some (.str identity.family)
      && Dict.get body "table" = some (.str identity.table)
      && Dict.get body "name" = some (.str identity.name)
  | _ => false

/-- `ipaddress.ip_address(member)`, canonical and of the version of the set. -/
def isMember (version : Nat) : Value → Bool
  | .str s =>
    s.length ≤ 45 && !s.contains 37
      && match (Str.encode s).bind fun m => (Lib.IpAddress.parse m.toList).map fun a => (m, a) with
        | some (m, .v4 n) => version = 4 && (Lib.IpAddress.v4 n).toText = m.toList
        | some (m, .v6 n zone) =>
          version = 6 && (Lib.IpAddress.v6 n zone).toText = m.toList
            && (Lib.IpAddress.v6 n zone).ipv4Mapped.isNone
        | none => false
  | _ => false

/-- The largest number of members, if it is configured. -/
def validSize : Option Value → Bool
  | none => true
  | some (.int n) => 1 ≤ n && n ≤ 10000000
  | some _ => false

/-- The version of the addresses of a set and the protocol a lookup of them names. -/
def addressVersion (type : Option Value) : Option (Nat × String) :=
  if type = some (text "ipv4_addr") then some (4, "ip")
  else if type = some (text "ipv6_addr") then some (6, "ip6")
  else none

/-- The checks on a definition: the protocol its lookup has to name. -/
def checkDefinition (family : Str) (definition : Dict) : Option String := do
  guard (Dict.hasAll definition ["family", "table", "name", "type"]
    && Dict.onlyKeys definition ["family", "table", "name", "type", "elem", "size", "comment"])
  let (version, protocol) ← addressVersion (Dict.get definition "type")
  guard (["inet", protocol].map Str.ofString |>.contains family)
  guard (validSize (Dict.get definition "size"))
  guard (shortText 256 (Dict.get definition "comment"))
  match (Dict.get definition "elem").getD (.arr []) with
  | .arr members =>
    guard (members.length ≤ 100000 && members.all (isMember version) && decide members.Nodup)
    return protocol
  | _ => none

/-- The object belongs to the table of the set. -/
def inTable (identity : Identity) (kind : Str) (body : Dict) : Bool :=
  Dict.get body "family" = some (.str identity.family)
    && Dict.get body (if kind = Str.ofString "table" then "name" else "table")
      = some (.str identity.table)

/-- The uses of the set in one object: whether there is one. -/
def reviewObject (identity : Identity) (protocol : String) (index : Nat) (obj : Value × Nat) :
    Option Bool :=
  match obj with
  | (.obj [(kind, .obj body)], i) =>
    if !inTable identity kind body then some false
    else
      let paths := referencePaths identity.name (.obj [(kind, .obj body)]) []
      let paths :=
        if kind = Str.ofString "set" && i = index then
          paths.filter fun path => path ≠ [.named "set", .named "name"]
        else paths
      if paths.isEmpty then some false
      else if kind ≠ Str.ofString "rule" then none
      else if reviewRule body paths identity.name protocol then some true
      else none
  | _ => none

/-- One round of the loop over the identities: the place of the definition. -/
def reviewSet (items : List Value) (identity : Identity) : Option Nat :=
  match items.zipIdx.filter fun w => isDefinition identity w.1 with
  | [(.obj [(_, .obj definition)], index)] => do
    let protocol ← checkDefinition identity.family definition
    let referenced ← items.zipIdx.mapM (reviewObject identity protocol index)
    guard (referenced.contains true)
    return index
  | _ => none

/-- `{'reviewed_dynamic_terminal_membership': True}`. -/
def reviewedMembership : Value := dict [("reviewed_dynamic_terminal_membership", .bool true)]

/-- `result[index]['set']['elem'] = …`. -/
def hideMembers : Value → Value
  | .obj [(kind, .obj body)] => .obj [(kind, .obj (Dict.put "elem" reviewedMembership body))]
  | w => w

def isObject : Value → Bool
  | .obj [(_, .obj _)] => true
  | _ => false

/-- `terminal_set_snapshot(items, identities)`. -/
def terminalSetSnapshot (items : List Value) (identities : List Str) : Option (List Value) := do
  guard (validateTerminalSetIds identities)
  guard (items.length ≤ 100000 && items.all isObject)
  identities.foldlM (fun result s => do
    let identity ← parseIdentity s
    let index ← reviewSet items identity
    return result.modify index hideMembers) items

end RiskOps.Telemetry.Guard
