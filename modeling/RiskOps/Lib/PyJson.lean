import RiskOps.Lib.PyText

/-!
# RiskOps.Lib.PyJson — JSON text as Python's `json` reads and writes it

**Text is a list of code points.** A Python string may hold a lone surrogate, which no
Unicode scalar value stands for, so `Str` is a list of numbers. `Str.encode` is
`str.encode()`: it refuses a surrogate.

**`loads`** follows the decoder: the whole text is one value between blanks, a repeated key
keeps its first position and its last value, the literals `NaN`, `Infinity` and `-Infinity` are
numbers, an escaped surrogate pair is one code point and an escaped lone surrogate stays one.
It raises `ValueError` for text that is no JSON and `RecursionError` for an array or object
nested deeper than `limit`.

**`dumps`** is the encoder with `sort_keys=True`, `ensure_ascii=False` and compact separators.
-/

namespace RiskOps.Lib

/-! ### Strings -/

/-- A Python string: its code points. -/
abbrev Str := List Nat

namespace Str

/-- The code points of a literal. -/
def ofString (s : String) : Str := s.toList.map Char.toNat

/-- A code point UTF-8 does not encode. -/
def isSurrogate (c : Nat) : Bool := 0xD800 ≤ c && c ≤ 0xDFFF

/-- No lone surrogate stands in the text. -/
def encodable (s : Str) : Bool := s.all fun c => !isSurrogate c

/-- `s.encode()`, kept as the text it encodes; `none` is `UnicodeEncodeError`. -/
def encode (s : Str) : Option String :=
  if encodable s then some (String.ofList (s.map Char.ofNat)) else none

/-- `str.strip()` leaves nothing. -/
def blank (s : Str) : Bool := s.all fun c => isSpace (Char.ofNat c)

@[simp] theorem encodable_cons (c : Nat) (s : Str) :
    encodable (c :: s) = (!isSurrogate c && encodable s) := by
  simp [encodable]

@[simp] theorem encodable_append (s t : Str) :
    encodable (s ++ t) = (encodable s && encodable t) := by
  simp [encodable]

/-- Text below the surrogates is encodable. -/
theorem encodable_of_lt {s : Str} (h : ∀ c ∈ s, c < 0xD800) : encodable s = true := by
  simp only [encodable, List.all_eq_true, isSurrogate, Bool.not_eq_true', Bool.and_eq_false_iff,
    decide_eq_false_iff_not]
  intro c hc
  exact Or.inl (Nat.not_le.mpr (h c hc))

theorem encodable_ofString (s : String) : encodable (ofString s) = true := by
  simp only [encodable, ofString, List.all_map, List.all_eq_true, Function.comp_apply]
  intro c _
  have hvalid := c.valid
  simp only [UInt32.isValidChar, Nat.isValidChar] at hvalid
  simp only [isSurrogate, Bool.not_eq_true', Bool.and_eq_false_iff, decide_eq_false_iff_not]
  have : c.toNat = c.val.toNat := rfl
  omega

theorem encode_isSome (s : Str) : (encode s).isSome = encodable s := by
  unfold encode
  cases encodable s <;> rfl

end Str

namespace PyJson

/-- A decoded value. A float is kept as its literal. -/
inductive Value where
  | null
  | bool (b : Bool)
  | int (n : Int)
  | float (literal : Str)
  | str (s : Str)
  | arr (items : List Value)
  | obj (members : List (Str × Value))
  deriving Inhabited

/-- What `json.loads` raises. -/
inductive DecodeError
  | value
  | recursion
  deriving Repr, DecidableEq

/-! ### Scanning strings and numbers -/

def isBlank (c : Nat) : Bool := c = 32 || c = 9 || c = 10 || c = 13

/-- The decoder's whitespace. -/
def skipBlanks (text : Str) : Str := text.dropWhile isBlank

def isDigit (c : Nat) : Bool := 48 ≤ c && c ≤ 57

/-- The value of a hexadecimal digit. -/
def hexDigit (c : Nat) : Option Nat :=
  if 48 ≤ c && c ≤ 57 then some (c - 48)
  else if 97 ≤ c && c ≤ 102 then some (c - 87)
  else if 65 ≤ c && c ≤ 70 then some (c - 55)
  else none

/-- The four digits of `\uXXXX`. -/
def hexValue (a b c d : Nat) : Option Nat := do
  let a ← hexDigit a
  let b ← hexDigit b
  let c ← hexDigit c
  let d ← hexDigit d
  return a * 4096 + b * 256 + c * 16 + d

/-- The one-letter escapes. -/
def shortEscape (c : Nat) : Option Nat :=
  if c = 34 || c = 92 || c = 47 then some c
  else if c = 98 then some 8
  else if c = 102 then some 12
  else if c = 110 then some 10
  else if c = 114 then some 13
  else if c = 116 then some 9
  else none

/-- One code point of a literal, and whether it was written `\uXXXX`. -/
structure Piece where
  code : Nat
  escaped : Bool

/-- The pieces of a string literal up to its closing quote, and the text after it. -/
def scanPieces : Str → Option (List Piece × Str)
  | [] => none
  | c :: rest =>
    if c = 34 then some ([], rest)
    else if c = 92 then
      match rest with
      | 117 :: h₁ :: h₂ :: h₃ :: h₄ :: rest =>
        match hexValue h₁ h₂ h₃ h₄, scanPieces rest with
        | some n, some (ps, rest) => some (⟨n, true⟩ :: ps, rest)
        | _, _ => none
      | e :: rest =>
        match shortEscape e, scanPieces rest with
        | some n, some (ps, rest) => some (⟨n, false⟩ :: ps, rest)
        | _, _ => none
      | [] => none
    -- A raw control character is refused (`strict`).
    else if c < 32 then none
    else
      match scanPieces rest with
      | some (ps, rest) => some (⟨c, false⟩ :: ps, rest)
      | none => none

def isHigh (c : Nat) : Bool := 0xD800 ≤ c && c ≤ 0xDBFF

def isLow (c : Nat) : Bool := 0xDC00 ≤ c && c ≤ 0xDFFF

/-- Two escapes that form a surrogate pair are one code point. -/
def joinPieces : List Piece → Str
  | p :: q :: ps =>
    if p.escaped && isHigh p.code && q.escaped && isLow q.code then
      (0x10000 + (p.code - 0xD800) * 1024 + (q.code - 0xDC00)) :: joinPieces ps
    else p.code :: joinPieces (q :: ps)
  | [p] => [p.code]
  | [] => []

/-- `scanstring`: the text after the opening quote. -/
def scanString (text : Str) : Option (Str × Str) :=
  (scanPieces text).map fun r => (joinPieces r.1, r.2)

/-- The value of decimal digits. -/
def digitsValue (ds : Str) : Nat := ds.foldl (fun n d => n * 10 + (d - 48)) 0

/-- `int(text)` refuses more digits than this. -/
def maxStrDigits : Nat := 4300

/-- The integer part of a number and the text after it. -/
def scanDigits : Str → Option (Str × Str)
  | [] => none
  | c :: rest =>
    if c = 48 then some ([c], rest)
    else if 49 ≤ c && c ≤ 57 then some (c :: rest.takeWhile isDigit, rest.dropWhile isDigit)
    else none

/-- A fraction, when a digit follows the point. -/
def scanFraction : Str → Str × Str
  | 46 :: c :: rest =>
    if isDigit c then (46 :: c :: rest.takeWhile isDigit, rest.dropWhile isDigit)
    else ([], 46 :: c :: rest)
  | text => ([], text)

/-- An exponent, when a digit follows the letter and its sign. -/
def scanExponent : Str → Str × Str
  | e :: rest =>
    if e = 101 || e = 69 then
      let sign := match rest with
        | c :: _ => if c = 43 || c = 45 then [c] else []
        | [] => []
      let ds := (rest.drop sign.length).takeWhile isDigit
      if ds.isEmpty then ([], e :: rest)
      else (e :: sign ++ ds, (rest.drop sign.length).dropWhile isDigit)
    else ([], e :: rest)
  | [] => ([], [])

/-- `match_number`. -/
def scanNumber (text : Str) : Except DecodeError (Value × Str) :=
  let sign : Str := if text.head? = some 45 then [45] else []
  match scanDigits (text.drop sign.length) with
  | none => .error .value
  | some (ds, rest) =>
    let (fraction, rest) := scanFraction rest
    let (exponent, rest) := scanExponent rest
    if fraction.isEmpty && exponent.isEmpty then
      if maxStrDigits < ds.length then .error .value
      else .ok (.int (if sign.isEmpty then digitsValue ds else -digitsValue ds), rest)
    else .ok (.float (sign ++ ds ++ fraction ++ exponent), rest)

/-- The literals that are words. -/
def keywords : List (Str × Value) :=
  [(Str.ofString "null", .null), (Str.ofString "true", .bool true),
    (Str.ofString "false", .bool false), (Str.ofString "NaN", .float (Str.ofString "NaN")),
    (Str.ofString "Infinity", .float (Str.ofString "Infinity")),
    (Str.ofString "-Infinity", .float (Str.ofString "-Infinity"))]

/-- The keyword the text starts with. -/
def scanKeyword (text : Str) : Option (Value × Str) :=
  keywords.findSome? fun k =>
    if text.take k.1.length = k.1 then some (k.2, text.drop k.1.length) else none

/-! ### Decoding -/

/-- `d[key] = value` on the members of a dict. -/
def insertMember (key : Str) (v : Value) : List (Str × Value) → List (Str × Value)
  | [] => [(key, v)]
  | (k, w) :: ms => if k = key then (k, v) :: ms else (k, w) :: insertMember key v ms

mutual

/-- `scan_once` at `depth` open containers. Every call takes one unit of `fuel`. -/
def scanValue (limit : Nat) : Nat → Nat → Str → Except DecodeError (Value × Str)
  | 0, _, _ => .error .value
  | fuel + 1, depth, text =>
    match text with
    | [] => .error .value
    | c :: rest =>
      if c = 34 then
        match scanString rest with
        | none => .error .value
        | some (s, rest) => .ok (.str s, rest)
      else if c = 123 then
        if limit ≤ depth then .error .recursion
        else if (skipBlanks rest).head? = some 125 then .ok (.obj [], (skipBlanks rest).tail)
        else scanMembers limit fuel (depth + 1) (skipBlanks rest) []
      else if c = 91 then
        if limit ≤ depth then .error .recursion
        else if (skipBlanks rest).head? = some 93 then .ok (.arr [], (skipBlanks rest).tail)
        else scanItems limit fuel (depth + 1) (skipBlanks rest) []
      else
        match scanKeyword (c :: rest) with
        | some r => .ok r
        | none => scanNumber (c :: rest)

/-- The items of an array after those in `done`. -/
def scanItems (limit : Nat) : Nat → Nat → Str → List Value → Except DecodeError (Value × Str)
  | 0, _, _, _ => .error .value
  | fuel + 1, depth, text, done =>
    match scanValue limit fuel depth text with
    | .error e => .error e
    | .ok (v, rest) =>
      match skipBlanks rest with
      | 44 :: rest => scanItems limit fuel depth (skipBlanks rest) (done ++ [v])
      | 93 :: rest => .ok (.arr (done ++ [v]), rest)
      | _ => .error .value

/-- The members of an object after those in `done`. -/
def scanMembers (limit : Nat) :
    Nat → Nat → Str → List (Str × Value) → Except DecodeError (Value × Str)
  | 0, _, _, _ => .error .value
  | fuel + 1, depth, text, done =>
    match text with
    | 34 :: rest =>
      match scanString rest with
      | none => .error .value
      | some (key, rest) =>
        match skipBlanks rest with
        | 58 :: rest =>
          match scanValue limit fuel depth (skipBlanks rest) with
          | .error e => .error e
          | .ok (v, rest) =>
            match skipBlanks rest with
            | 44 :: rest =>
              scanMembers limit fuel depth (skipBlanks rest) (insertMember key v done)
            | 125 :: rest => .ok (.obj (insertMember key v done), rest)
            | _ => .error .value
        | _ => .error .value
    | _ => .error .value

end

/-- `json.loads(text)`. A level of nesting is a character and two calls. -/
def loads (limit : Nat) (text : Str) : Except DecodeError Value :=
  if text.head? = some 0xFEFF then .error .value
  else
    match scanValue limit (2 * text.length + 2) 0 (skipBlanks text) with
    | .error e => .error e
    | .ok (v, rest) => if (skipBlanks rest).isEmpty then .ok v else .error .value

/-! ### Encoding -/

/-- `\uXXXX`, as the encoder writes a control character. -/
def unicodeEscape (c : Nat) : Str :=
  [92, 117, 48, 48, 48 + c / 16, if c % 16 < 10 then 48 + c % 16 else 87 + c % 16]

def escape (c : Nat) : Str :=
  if c = 34 || c = 92 then [92, c]
  else if c = 10 then [92, 110]
  else if c = 13 then [92, 114]
  else if c = 9 then [92, 116]
  else if c = 12 then [92, 102]
  else if c = 8 then [92, 98]
  else if c < 32 then unicodeEscape c
  else [c]

def dumpStr (s : Str) : Str := 34 :: (s.flatMap escape ++ [34])

def dumpInt : Int → Str
  | .ofNat n => (Nat.toDigits 10 n).map Char.toNat
  | .negSucc n => 45 :: (Nat.toDigits 10 (n + 1)).map Char.toNat

mutual

/-- `json.dumps(value, sort_keys=True, ensure_ascii=False, separators=(",", ":"))` on a value
whose keys are sorted. -/
def dumps : Value → Str
  | .null => Str.ofString "null"
  | .bool true => Str.ofString "true"
  | .bool false => Str.ofString "false"
  | .int n => dumpInt n
  | .float l => l
  | .str s => dumpStr s
  | .arr vs => 91 :: (dumpItems vs ++ [93])
  | .obj ms => 123 :: (dumpMembers ms ++ [125])

def dumpItems : List Value → Str
  | [] => []
  | v :: vs => dumps v ++ (if vs.isEmpty then [] else 44 :: dumpItems vs)

def dumpMembers : List (Str × Value) → Str
  | [] => []
  | (k, v) :: ms =>
    dumpStr k ++ 58 :: dumps v ++ (if ms.isEmpty then [] else 44 :: dumpMembers ms)

end

mutual

/-- `sort_keys=True` at every object. -/
def sortKeys : Value → Value
  | .arr vs => .arr (sortItems vs)
  | .obj ms => .obj ((sortMembers ms).insertionSort fun a b => a.1 ≤ b.1)
  | v => v

def sortItems : List Value → List Value
  | [] => []
  | v :: vs => sortKeys v :: sortItems vs

def sortMembers : List (Str × Value) → List (Str × Value)
  | [] => []
  | (k, v) :: ms => (k, sortKeys v) :: sortMembers ms

end

/-! ### What the encoder can write -/

mutual

/-- Every string of the value, keys included, is encodable. -/
def Value.encodable : Value → Bool
  | .float l => Str.encodable l
  | .str s => Str.encodable s
  | .arr vs => encodableItems vs
  | .obj ms => encodableMembers ms
  | _ => true

def encodableItems : List Value → Bool
  | [] => true
  | v :: vs => v.encodable && encodableItems vs

def encodableMembers : List (Str × Value) → Bool
  | [] => true
  | (k, v) :: ms => Str.encodable k && v.encodable && encodableMembers ms

end

theorem encodable_unicodeEscape {c : Nat} (h : c < 32) :
    Str.encodable (unicodeEscape c) = true := by
  refine Str.encodable_of_lt fun d hd => ?_
  simp only [unicodeEscape, List.mem_cons, List.not_mem_nil, or_false] at hd
  split at hd <;> omega

theorem encodable_escape (c : Nat) : Str.encodable (escape c) = !Str.isSurrogate c := by
  have hsmall : ∀ d, d < 0xD800 → (!Str.isSurrogate d) = true := by
    intro d hd
    simpa [Str.encodable] using Str.encodable_of_lt (s := [d]) (by simpa using hd)
  unfold escape
  split
  · rename_i h
    simp only [Bool.or_eq_true, decide_eq_true_eq] at h
    rcases h with rfl | rfl <;> rfl
  repeat' split
  all_goals try (rename_i h; subst h; rfl)
  · rename_i h
    rw [encodable_unicodeEscape h, hsmall c (by omega)]
  · simp [Str.encodable]

theorem encodable_flatMap_escape (s : Str) :
    Str.encodable (s.flatMap escape) = Str.encodable s := by
  induction s with
  | nil => rfl
  | cons c s ih =>
    rw [List.flatMap_cons, Str.encodable_append, encodable_escape, ih, Str.encodable_cons]

@[simp] theorem encodable_dumpStr (s : Str) : Str.encodable (dumpStr s) = Str.encodable s := by
  rw [dumpStr, Str.encodable_cons, Str.encodable_append, encodable_flatMap_escape]
  simp [Str.encodable, Str.isSurrogate]

theorem encodable_digits (n : Nat) :
    Str.encodable ((Nat.toDigits 10 n).map Char.toNat) = true := by
  refine Str.encodable_of_lt fun d hd => ?_
  obtain ⟨c, hc, rfl⟩ := List.mem_map.mp hd
  have hdigit := Nat.isDigit_of_mem_toDigits (by decide) (by decide) hc
  simp only [Char.isDigit, Bool.and_eq_true, decide_eq_true_eq] at hdigit
  have hle : c.toNat ≤ 57 := hdigit.2
  omega

@[simp] theorem encodable_dumpInt (n : Int) : Str.encodable (dumpInt n) = true := by
  cases n with
  | ofNat n => exact encodable_digits n
  | negSucc n =>
    rw [dumpInt, Str.encodable_cons, encodable_digits]
    rfl

mutual

/-- **What is printed is encodable exactly when every string of the value is.** -/
theorem encodable_dumps : (v : Value) → Str.encodable (dumps v) = v.encodable
  | .null => by simp [dumps, Value.encodable]; rfl
  | .bool true => by simp [dumps, Value.encodable]; rfl
  | .bool false => by simp [dumps, Value.encodable]; rfl
  | .int n => by simp [dumps, Value.encodable]
  | .float l => by simp [dumps, Value.encodable]
  | .str s => by simp [dumps, Value.encodable]
  | .arr vs => by
    rw [dumps, Value.encodable, Str.encodable_cons, Str.encodable_append, encodable_dumpItems vs]
    simp [Str.encodable, Str.isSurrogate]
  | .obj ms => by
    rw [dumps, Value.encodable, Str.encodable_cons, Str.encodable_append,
      encodable_dumpMembers ms]
    simp [Str.encodable, Str.isSurrogate]

theorem encodable_dumpItems : (vs : List Value) → Str.encodable (dumpItems vs) = encodableItems vs
  | [] => rfl
  | v :: vs => by
    have htail := encodable_dumpItems vs
    rw [dumpItems, encodableItems, Str.encodable_append, encodable_dumps v]
    cases vs with
    | nil => simp [encodableItems, Str.encodable]
    | cons w ws => simp [htail, Str.isSurrogate]

theorem encodable_dumpMembers :
    (ms : List (Str × Value)) → Str.encodable (dumpMembers ms) = encodableMembers ms
  | [] => rfl
  | (k, v) :: ms => by
    have htail := encodable_dumpMembers ms
    rw [dumpMembers, encodableMembers, Str.encodable_append, Str.encodable_append,
      Str.encodable_cons, encodable_dumpStr, encodable_dumps v]
    cases ms with
    | nil => simp [encodableMembers, Str.encodable, Str.isSurrogate]
    | cons m ms => simp [htail, Str.isSurrogate]

end

theorem encodableMembers_eq_all (ms : List (Str × Value)) :
    encodableMembers ms = ms.all fun m => Str.encodable m.1 && m.2.encodable := by
  induction ms with
  | nil => rfl
  | cons m ms ih =>
    obtain ⟨k, v⟩ := m
    rw [encodableMembers, ih, List.all_cons]

theorem encodableItems_eq_all (vs : List Value) : encodableItems vs = vs.all Value.encodable := by
  induction vs with
  | nil => rfl
  | cons v vs ih => rw [encodableItems, ih, List.all_cons]

mutual

/-- **Sorting the keys keeps the strings.** -/
theorem encodable_sortKeys : (v : Value) → (sortKeys v).encodable = v.encodable
  | .null => rfl
  | .bool _ => rfl
  | .int _ => rfl
  | .float _ => rfl
  | .str _ => rfl
  | .arr vs => by rw [sortKeys, Value.encodable, Value.encodable, encodable_sortItems vs]
  | .obj ms => by
    rw [sortKeys, Value.encodable, Value.encodable, ← encodable_sortMembers ms,
      encodableMembers_eq_all, encodableMembers_eq_all]
    exact (List.perm_insertionSort _ _).all_eq

theorem encodable_sortItems :
    (vs : List Value) → encodableItems (sortItems vs) = encodableItems vs
  | [] => rfl
  | v :: vs => by
    rw [sortItems, encodableItems, encodableItems, encodable_sortKeys v, encodable_sortItems vs]

theorem encodable_sortMembers :
    (ms : List (Str × Value)) → encodableMembers (sortMembers ms) = encodableMembers ms
  | [] => rfl
  | (k, v) :: ms => by
    rw [sortMembers, encodableMembers, encodableMembers, encodable_sortKeys v,
      encodable_sortMembers ms]

end

end PyJson

end RiskOps.Lib
