import RiskOps.Lib.Shlex
import RiskOps.Telemetry.JournalCollector
import RiskOps.Telemetry.NetworkGuard

/-!
# RiskOps.Telemetry.FirewallRules — rule snapshots without their counters

Model of `normalized_rules` and `normalized_nft_rules` (`scripts/network_export.py`), which a
fingerprint of the firewall is taken of.

**Text** of `iptables-save` is split into lines and lines into tokens; only the counters of a chain
declaration are dropped. **Listings** of `nft` are decoded JSON, for which `decode` is a parameter;
dropped are the metainfo object, the handles, and the values of the counters among the expressions
of a rule and of the named counters. Counters anywhere else, such as those of the elements of a set,
stay.

A float stands for itself by its literal. Every rejection is `none`.
-/

namespace RiskOps.Telemetry.Firewall

open RiskOps.Lib (Str)
open RiskOps.Lib.PyJson
open RiskOps.Telemetry.Guard (isNameChar isText emptyCounter)

/-! ### iptables-save -/

/-- `\*[A-Za-z0-9_]{1,32}`. -/
def isTable : List Str → Bool
  | [42 :: name] => 1 ≤ name.length && name.length ≤ 32 && name.all isNameChar
  | _ => false

def isDigits (s : Str) : Bool := !s.isEmpty && s.all isDigit

/-- `\[[0-9]+:[0-9]+\]`. -/
def isCounters : Str → Bool
  | 91 :: rest =>
    rest.getLast? = some 93
      && match rest.dropLast.splitOn 58 with
        | [packets, bytes] => isDigits packets && isDigits bytes
        | _ => false
  | _ => false

/-- The checks on one line with `strict`: whether a table is open behind it. -/
def checkLine (inTable : Bool) (tokens : List Str) : Option Bool :=
  if isTable tokens then if inTable then none else some true
  else if tokens = [Str.ofString "COMMIT"] then if inTable then some false else none
  else match tokens with
    | (58 :: _) :: _ =>
      if inTable && tokens.length = 3 && tokens.getLast?.any isCounters then some inTable else none
    | _ =>
      if inTable && 3 ≤ tokens.length && tokens.head? = some (Str.ofString "-A") then some inTable
      else none

/-- The trailing counters of a chain declaration are dropped. -/
def dropCounters : List Str → List Str
  | [58 :: chain, policy, counters] =>
    if isCounters counters then [58 :: chain, policy] else [58 :: chain, policy, counters]
  | tokens => tokens

/-- `not line.strip() or line.lstrip().startswith('#')`. -/
def isComment (line : Str) : Bool :=
  Str.blank line
    || (line.dropWhile fun c => RiskOps.Lib.isSpace (Char.ofNat c)).head? = some 35

/-- The loop over the lines. -/
def normalizeLines (strict : Bool) : Bool → List Str → Option (List (List Str))
  | inTable, [] => if strict && inTable then none else some []
  | inTable, line :: lines =>
    if isComment line then normalizeLines strict inTable lines
    else do
      let tokens ← Lib.Shlex.split line
      let inTable ← if strict then checkLine inTable tokens else some inTable
      let rules ← normalizeLines strict inTable lines
      return dropCounters tokens :: rules

/-- `normalized_rules(raw, strict=strict)`. -/
def normalizedRules (strict : Bool) (raw : List UInt8) : Option (List (List Str)) := do
  normalizeLines strict false (Storage.splitlines (← JournalCollector.decodeUtf8 raw))

/-! ### nft listings -/

mutual

/-- The nodes the walk over a value visits. -/
def nodes : Value → Nat
  | .arr vs => 1 + itemNodes vs
  | .obj ms => 1 + memberNodes ms
  | _ => 1

def itemNodes : List Value → Nat
  | [] => 0
  | v :: vs => nodes v + itemNodes vs

def memberNodes : List (Str × Value) → Nat
  | [] => 0
  | (_, v) :: ms => nodes v + memberNodes ms

end

mutual

/-- The depth of the deepest node. -/
def depth : Value → Nat
  | .arr vs => itemDepth vs
  | .obj ms => memberDepth ms
  | _ => 0

def itemDepth : List Value → Nat
  | [] => 0
  | v :: vs => max (depth v + 1) (itemDepth vs)

def memberDepth : List (Str × Value) → Nat
  | [] => 0
  | (_, v) :: ms => max (depth v + 1) (memberDepth ms)

end

/-- `_NFT_OBJECTS`. -/
def nftObjects : List Str :=
  ["table", "chain", "rule", "set", "map", "element", "counter", "quota", "limit", "flowtable",
    "ct helper", "ct timeout", "ct expectation", "synproxy"].map Str.ofString

/-- `_NFT_FAMILIES`. -/
def nftFamilies : List String := ["ip", "ip6", "inet", "arp", "bridge", "netdev"]

def isNatural : Value → Bool
  | .int n => 0 ≤ n
  | _ => false

/-- A counter of an expression that has its two values. -/
def hasCounterValues (counter : Dict) : Bool :=
  counter.length = 2 && Dict.hasAll counter ["packets", "bytes"]

/-- One expression of a rule. -/
def normalizeExpr : Value → Option Value
  | .obj [(key, .obj counter)] =>
    if key = Str.ofString "counter" && hasCounterValues counter then
      if counter.all fun m => isNatural m.2 then some emptyCounter else none
    else some (.obj [(key, .obj counter)])
  | .obj [m] => some (.obj [m])
  | _ => none

/-- `del obj['handle']`. -/
def dropHandle (obj : Dict) : Option Dict :=
  match Dict.get obj "handle" with
  | none => some obj
  | some v => if isNatural v then some (Dict.erase "handle" obj) else none

/-- The part for rules. -/
def normalizeRule (obj : Dict) : Option Dict := do
  guard (isText (Dict.get obj "chain"))
  match Dict.get obj "expr" with
  | some (.arr exprs) => return Dict.put "expr" (.arr (← exprs.mapM normalizeExpr)) obj
  | _ => none

/-- The part for named counters. -/
def dropCounterValues (obj : Dict) : Option Dict := do
  guard ((Dict.get obj "packets").any isNatural && (Dict.get obj "bytes").any isNatural)
  return Dict.erase "bytes" (Dict.erase "packets" obj)

/-- The checks every object passes. -/
def validObject (kind : Str) (obj : Dict) : Bool :=
  nftObjects.contains kind && nftFamilies.any (fun f => Dict.get obj "family" = some (text f))
    && (kind = Str.ofString "table" || isText (Dict.get obj "table"))
    && (kind = Str.ofString "rule" || kind = Str.ofString "element" || isText (Dict.get obj "name"))

/-- One object that is not metainfo. -/
def normalizeObject (kind : Str) (obj : Dict) : Option Dict := do
  guard (validObject kind obj)
  let obj ← dropHandle obj
  if kind = Str.ofString "rule" then normalizeRule obj
  else if kind = Str.ofString "counter" then dropCounterValues obj
  else return obj

/-- The checks on the metainfo object. -/
def validMetainfo (obj : Dict) : Bool :=
  Dict.get obj "json_schema_version" = some (.int 1)
    && Dict.onlyKeys obj ["version", "release_name", "json_schema_version"]

/-- The loop over the objects, behind `metadata` metainfo objects. -/
def normalizeItems : Nat → List Value → Option (List Value)
  | metadata, [] => if metadata = 1 then some [] else none
  | metadata, .obj [(kind, .obj obj)] :: items =>
    if kind = Str.ofString "metainfo" then
      if metadata = 0 && validMetainfo obj then normalizeItems (metadata + 1) items else none
    else do
      let obj ← normalizeObject kind obj
      let result ← normalizeItems metadata items
      return .obj [(kind, .obj obj)] :: result
  | _, _ => none

/-- The objects of a decoded listing, if it is not too large. -/
def listingItems : Value → Option (List Value)
  | .obj [(key, .arr items)] =>
    if key = Str.ofString "nftables" && depth (.obj [(key, .arr items)]) ≤ 32
        && nodes (.obj [(key, .arr items)]) ≤ 100000 then some items
    else none
  | _ => none

/-- `MAX_RAW_PAGE_BYTES`. -/
def maxRawPageBytes : Nat := 4 * 1024 * 1024

/-- `normalized_nft_rules(raw)`. -/
def normalizedNftRules (decode : List UInt8 → Option Value) (raw : List UInt8) :
    Option (List Value) := do
  guard (raw.length ≤ maxRawPageBytes)
  normalizeItems 0 (← listingItems (← decode raw))

end RiskOps.Telemetry.Firewall
