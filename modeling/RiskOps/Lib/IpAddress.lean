import RiskOps.Lib.Lawful

/-!
# RiskOps.Lib.IpAddress — IPv4 and IPv6 addresses and their text

**Addresses as numbers, their textual forms, and networks.** `parse` accepts what
Python's `ipaddress.ip_address` accepts: dotted quads without leading zeros, and
IPv6 with at most one `::`, an optional dotted-quad tail and an optional zone.
`toText` prints the canonical form, the longest run of zero groups compressed.
-/

namespace RiskOps.Lib

/-- An address: 32 or 128 bits. A zone belongs to the address it scopes. -/
inductive IpAddress where
  | v4 (bits : Fin (2 ^ 32))
  | v6 (bits : Fin (2 ^ 128)) (zone : Option (List Char))
  deriving DecidableEq

namespace IpAddress

/-- The value of a decimal or hexadecimal digit. -/
def digitVal (c : Char) : Option Nat :=
  if '0' ≤ c ∧ c ≤ '9' then some (c.toNat - 48)
  else if 'a' ≤ c ∧ c ≤ 'f' then some (c.toNat - 87)
  else if 'A' ≤ c ∧ c ≤ 'F' then some (c.toNat - 55)
  else none

/-- The value of a text of digits below `base`, when it is one. -/
def digitsVal (base : Nat) (s : List Char) : Option Nat :=
  s.foldlM (fun acc c => (digitVal c).bind fun d => if d < base then some (acc * base + d) else none) 0

/-! ### IPv4 text -/

/-- `_parse_octet`: one to three ASCII digits, no leading zero, at most 255. -/
def parseOctet (s : List Char) : Option Nat :=
  if s = [] || 3 < s.length || (s ≠ ['0'] && s.head? = some '0') then none
  else (digitsVal 10 s).filter (· ≤ 255)

/-- `IPv4Address._ip_int_from_string`. -/
def parseV4 (s : List Char) : Option Nat :=
  match s.splitOn '.' with
  | [a, b, c, d] => do
      let a ← parseOctet a
      let b ← parseOctet b
      let c ← parseOctet c
      let d ← parseOctet d
      some (((a * 256 + b) * 256 + c) * 256 + d)
  | _ => none

/-! ### IPv6 text -/

/-- `_parse_hextet`. The empty text is no number. -/
def parseHextet (s : List Char) : Option Nat :=
  if s = [] || 4 < s.length then none else digitsVal 16 s

/-- `'%x' % n`. -/
def hexText (n : Nat) : List Char := Nat.toDigits 16 n

/-- A dotted-quad last part stands for two groups. -/
def expandTail (parts : List (List Char)) : Option (List (List Char)) :=
  match parts.getLast? with
  | some last =>
    if '.' ∈ last then
      (parseV4 last).map fun n => parts.dropLast ++ [hexText (n / 65536 % 65536), hexText (n % 65536)]
    else some parts
  | none => some parts

/-- The positions of the empty parts that are not at an end. -/
def skips (parts : List (List Char)) : List Nat :=
  (List.range parts.length).filter fun i => 0 < i && i < parts.length - 1 && parts[i]? = some []

/-- The groups of `parts` as one number. -/
def groupsVal (parts : List (List Char)) : Option (List Nat) := parts.mapM parseHextet

/-- The number eight groups stand for. -/
def ofGroups (groups : List Nat) : Nat := groups.foldl (fun acc g => acc * 65536 + g) 0

/-- The eight groups `parts` stand for: `::` fills in the missing ones. -/
def groups (parts : List (List Char)) : Option (List Nat) :=
  match skips parts with
  | [] =>
    if parts.length = 8 ∧ parts.head? ≠ some [] ∧ parts.getLast? ≠ some [] then groupsVal parts
    else none
  | [i] =>
    let hi := parts.take i
    let lo := parts.drop (i + 1)
    -- An empty part at an end belongs to the `::`, which must then stand there.
    let hi' := if parts.head? = some [] then hi.drop 1 else hi
    let lo' := if parts.getLast? = some [] then lo.dropLast else lo
    if (parts.head? = some [] ∧ hi' ≠ []) ∨ (parts.getLast? = some [] ∧ lo' ≠ []) ∨
        8 ≤ hi'.length + lo'.length then none
    else do
      let hiGroups ← groupsVal hi'
      let loGroups ← groupsVal lo'
      some (hiGroups ++ List.replicate (8 - (hi'.length + lo'.length)) 0 ++ loGroups)
  | _ => none

/-- `IPv6Address._ip_int_from_string`. -/
def parseV6 (s : List Char) : Option Nat := do
  let parts := s.splitOn ':'
  if s = [] ∨ parts.length < 3 then none
  else
    let parts ← expandTail parts
    if 9 < parts.length then none
    else (groups parts).map ofGroups

/-- `_split_scope_id`: the text before the zone, and the zone. -/
def splitZone (s : List Char) : Option (List Char × Option (List Char)) :=
  match s.splitOn '%' with
  | [addr] => some (addr, none)
  | [addr, zone] => if zone = [] then none else some (addr, some zone)
  | _ => none

/-- `ipaddress.ip_address(text)`. -/
def parse (s : List Char) : Option IpAddress :=
  if '/' ∈ s then none
  else match parseV4 s with
    | some n => if h : n < 2 ^ 32 then some (v4 ⟨n, h⟩) else none
    | none => do
        let (addr, zone) ← splitZone s
        let n ← parseV6 addr
        if h : n < 2 ^ 128 then some (v6 ⟨n, h⟩ zone) else none

/-! ### Canonical text -/

/-- `str(n)`. -/
def decText (n : Nat) : List Char := Nat.toDigits 10 n

/-- The text of an IPv4 number. -/
def textV4 (n : Nat) : List Char :=
  ['.'].intercalate [decText (n / 16777216 % 256), decText (n / 65536 % 256),
    decText (n / 256 % 256), decText (n % 256)]

/-- The eight groups of an IPv6 number, high to low. -/
def toGroups (n : Nat) : List Nat :=
  [n / 65536 ^ 7 % 65536, n / 65536 ^ 6 % 65536, n / 65536 ^ 5 % 65536, n / 65536 ^ 4 % 65536,
    n / 65536 ^ 3 % 65536, n / 65536 ^ 2 % 65536, n / 65536 % 65536, n % 65536]

/-- The scan of `_compress_hextets`: where the current run of zero groups starts and
how long it is, and the same for the longest run so far. -/
structure Scan where
  index : Nat
  start : Nat
  len : Nat
  bestStart : Nat
  bestLen : Nat

/-- One group of the scan. -/
def Scan.step (sc : Scan) (group : Nat) : Scan :=
  if group = 0 then
    let start := if sc.len = 0 then sc.index else sc.start
    let len := sc.len + 1
    if sc.bestLen < len then ⟨sc.index + 1, start, len, start, len⟩
    else ⟨sc.index + 1, start, len, sc.bestStart, sc.bestLen⟩
  else ⟨sc.index + 1, 0, 0, sc.bestStart, sc.bestLen⟩

/-- `_compress_hextets`: the leftmost longest run of two or more zero groups becomes
one empty part, doubled at an end. -/
def compress (groups : List Nat) : List (List Char) :=
  let sc := groups.foldl Scan.step ⟨0, 0, 0, 0, 0⟩
  if 1 < sc.bestLen then
    let hi := (groups.take sc.bestStart).map hexText
    let lo := (groups.drop (sc.bestStart + sc.bestLen)).map hexText
    (if hi = [] then [[]] else hi) ++ [[]] ++ (if lo = [] then [[]] else lo)
  else groups.map hexText

/-- The text of an IPv6 number. -/
def textV6 (n : Nat) : List Char := [':'].intercalate (compress (toGroups n))

/-- `str(address)`. -/
def toText : IpAddress → List Char
  | v4 n => textV4 n
  | v6 n zone => textV6 n ++ (zone.map ('%' :: ·)).getD []

/-! ### IPv4-mapped addresses -/

/-- `address.ipv4_mapped`. -/
def ipv4Mapped : IpAddress → Option (Fin (2 ^ 32))
  | v4 _ => none
  | v6 n _ =>
    if n.val / 2 ^ 32 = 0xFFFF then some ⟨n.val % 2 ^ 32, Nat.mod_lt _ (by decide)⟩ else none

/-! ### Networks -/

end IpAddress

/-- A network: its address and prefix length, of one version. -/
inductive Network where
  | v4 (bits : Fin (2 ^ 32)) (prefixLen : Fin 33)
  | v6 (bits : Fin (2 ^ 128)) (prefixLen : Fin 129)
  deriving DecidableEq

/-- `address in network`. -/
def Network.contains : Network → IpAddress → Bool
  | .v4 net len, .v4 ip => net.val / 2 ^ (32 - len.val) = ip.val / 2 ^ (32 - len.val)
  | .v6 net len, .v6 ip _ => net.val / 2 ^ (128 - len.val) = ip.val / 2 ^ (128 - len.val)
  | _, _ => false

namespace IpAddress

/-- `is_loopback`. -/
def isLoopback : IpAddress → Bool
  | v4 n => n.val / 2 ^ 24 = 127
  | v6 n _ => n.val = 1

/-- `is_link_local`: `169.254.0.0/16` and `fe80::/10`. -/
def isLinkLocal : IpAddress → Bool
  | v4 n => n.val / 2 ^ 16 = 169 * 256 + 254
  | v6 n _ => n.val / 2 ^ 118 = 0xFE80 / 64

/-- `is_multicast`: `224.0.0.0/4` and `ff00::/8`. -/
def isMulticast : IpAddress → Bool
  | v4 n => n.val / 2 ^ 28 = 14
  | v6 n _ => n.val / 2 ^ 120 = 255

/-- `is_unspecified`. -/
def isUnspecified : IpAddress → Bool
  | v4 n => n.val = 0
  | v6 n _ => n.val = 0

end IpAddress

end RiskOps.Lib
