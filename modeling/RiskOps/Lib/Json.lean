import RiskOps.Lib.Lawful

/-!
# RiskOps.Lib.Json — JSON values and their printer

**The values a JSON document can hold, and how an encoder prints them.** Objects
are member lists in insertion order, integers are unbounded, and a float is kept
as the literal it is printed with. Text is a list of Unicode scalar values.

`dumps` is parametrised by a `Style`, which says whether non-ASCII characters are
escaped and which separators stand between items and after keys; `sortKeys` orders
the members of every object first.
-/

namespace RiskOps.Lib

/-- A JSON value. -/
inductive Json where
  | null
  | bool (b : Bool)
  | int (n : Int)
  | float (literal : List Char)
  | str (s : List Char)
  | arr (items : List Json)
  | obj (members : List (List Char × Json))
  deriving Inhabited

namespace Json

/-- How an encoder writes: `ensure_ascii` and the two separators. -/
structure Style where
  ensureAscii : Bool
  itemSep : List Char
  keySep : List Char

/-- `separators=(",", ":"), ensure_ascii=False`. -/
def Style.compact : Style := ⟨false, [','], [':']⟩

/-- The encoder's defaults. -/
def Style.default : Style := ⟨true, [',', ' '], [':', ' ']⟩

/-! ### Printing -/

/-- `\uXXXX` with lower-case hexadecimal digits. -/
def unicodeEscape (n : Nat) : List Char :=
  ['\\', 'u', Nat.digitChar (n / 4096 % 16), Nat.digitChar (n / 256 % 16),
    Nat.digitChar (n / 16 % 16), Nat.digitChar (n % 16)]

/-- One character of a string literal. -/
def escapeChar (ensureAscii : Bool) (c : Char) : List Char :=
  if c = '"' then ['\\', '"']
  else if c = '\\' then ['\\', '\\']
  else if c = '\n' then ['\\', 'n']
  else if c = '\r' then ['\\', 'r']
  else if c = '\t' then ['\\', 't']
  else if c.toNat = 12 then ['\\', 'f']
  else if c.toNat = 8 then ['\\', 'b']
  else if c.toNat < 32 then unicodeEscape c.toNat
  else if ensureAscii && decide (126 < c.toNat) then
    if c.toNat < 65536 then unicodeEscape c.toNat
    -- Outside the basic plane the escape is a surrogate pair.
    else unicodeEscape (55296 + (c.toNat - 65536) / 1024) ++
      unicodeEscape (56320 + (c.toNat - 65536) % 1024)
  else [c]

/-- A string literal with its quotes. -/
def dumpStr (ensureAscii : Bool) (s : List Char) : List Char :=
  '"' :: (s.flatMap (escapeChar ensureAscii) ++ ['"'])

/-- A decimal integer. -/
def dumpInt : Int → List Char
  | .ofNat n => Nat.toDigits 10 n
  | .negSucc n => '-' :: Nat.toDigits 10 (n + 1)

mutual

/-- `json.dumps(value, …)`. -/
def dumps (st : Style) : Json → List Char
  | null => ['n', 'u', 'l', 'l']
  | bool true => ['t', 'r', 'u', 'e']
  | bool false => ['f', 'a', 'l', 's', 'e']
  | int n => dumpInt n
  | float l => l
  | str s => dumpStr st.ensureAscii s
  | arr [] => ['[', ']']
  | arr (v :: vs) => '[' :: (dumps st v ++ dumpItems st vs ++ [']'])
  | obj [] => ['{', '}']
  | obj ((k, v) :: ms) =>
    '{' :: (dumpStr st.ensureAscii k ++ st.keySep ++ dumps st v ++ dumpMembers st ms ++ ['}'])

/-- The items of an array after its first. -/
def dumpItems (st : Style) : List Json → List Char
  | [] => []
  | v :: vs => st.itemSep ++ dumps st v ++ dumpItems st vs

/-- The members of an object after its first. -/
def dumpMembers (st : Style) : List (List Char × Json) → List Char
  | [] => []
  | (k, v) :: ms =>
    st.itemSep ++ dumpStr st.ensureAscii k ++ st.keySep ++ dumps st v ++ dumpMembers st ms

end

mutual

/-- `sort_keys=True`: the members of every object in the order of their keys. -/
def sortKeys : Json → Json
  | arr vs => arr (sortItems vs)
  | obj ms => obj ((sortMembers ms).insertionSort fun a b => a.1 ≤ b.1)
  | v => v

/-- `sortKeys` on every item. -/
def sortItems : List Json → List Json
  | [] => []
  | v :: vs => sortKeys v :: sortItems vs

/-- `sortKeys` on every member's value. -/
def sortMembers : List (List Char × Json) → List (List Char × Json)
  | [] => []
  | (k, v) :: ms => (k, sortKeys v) :: sortMembers ms

end

/-- `value.get(key)` of an object. -/
def get? (members : List (List Char × Json)) (key : List Char) : Option Json :=
  members.lookup key

end Json

end RiskOps.Lib
