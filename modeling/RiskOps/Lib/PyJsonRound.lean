import RiskOps.Lib.PyJson

/-!
# RiskOps.Lib.PyJsonRound — what the encoder writes, the decoder reads

**A printed value is read back.** `loads` applied to `dumps v` gives `v`, for every value that is
not nested deeper than the decoder's limit, whose objects have distinct keys, whose integers have no
more digits than `int` takes and whose floats are literals the scanner knows (`Readable`). Strings
are arbitrary, lone surrogates included: the encoder escapes only quotes, backslashes and control
characters, and none of these is half of a surrogate pair.

Each scanner is shown to stop where its text ends. What may follow a value is nothing, a comma or a
closing bracket (`Ends`).
-/

namespace RiskOps.Lib.PyJson

/-! ### Strings -/

/-- What the scanner takes an escaped code point for. -/
def piece (c : Nat) : Piece :=
  ⟨c, decide (c < 32) && !(c = 10 || c = 13 || c = 9 || c = 12 || c = 8)⟩

variable {c : Nat}

theorem hexDigit_low (h : c < 32) :
    hexValue 48 48 (48 + c / 16) (if c % 16 < 10 then 48 + c % 16 else 87 + c % 16) = some c := by
  interval_cases c <;> rfl

variable {n : Nat}

theorem scanPieces_short {e : Nat} (h : shortEscape e = some n) (he : e ≠ 117) (text : Str) :
    scanPieces (92 :: e :: text) = (scanPieces text).map fun r => (⟨n, false⟩ :: r.1, r.2) := by
  rw [scanPieces, if_neg (by omega), if_pos rfl]
  · rw [h]
    cases scanPieces text <;> rfl
  · intro _ _ _ _ _ heq
    exact absurd heq he

theorem scanPieces_escape (c : Nat) (text : Str) :
    scanPieces (escape c ++ text) = (scanPieces text).map fun r => (piece c :: r.1, r.2) := by
  by_cases hc : c < 32
  · by_cases hshort : c = 10 ∨ c = 13 ∨ c = 9 ∨ c = 12 ∨ c = 8
    · rcases hshort with rfl | rfl | rfl | rfl | rfl
      · exact scanPieces_short rfl (by decide) text
      · exact scanPieces_short rfl (by decide) text
      · exact scanPieces_short rfl (by decide) text
      · exact scanPieces_short rfl (by decide) text
      · exact scanPieces_short rfl (by decide) text
    · have hescape : escape c = unicodeEscape c := by
        unfold escape
        simp only [Bool.or_eq_true, decide_eq_true_eq]
        rw [if_neg (by omega), if_neg (by omega), if_neg (by omega), if_neg (by omega),
          if_neg (by omega), if_neg (by omega), if_pos hc]
      have hpiece : piece c = ⟨c, true⟩ := by
        simp only [piece, hc, decide_true, Bool.true_and, Piece.mk.injEq, true_and,
          Bool.not_eq_true', Bool.or_eq_false_iff, decide_eq_false_iff_not]
        omega
      rw [hescape, hpiece]
      simp only [unicodeEscape, List.cons_append, List.nil_append, scanPieces, hexDigit_low hc]
      cases scanPieces text <;> rfl
  · by_cases hquote : c = 34 ∨ c = 92
    · rcases hquote with rfl | rfl
      · exact scanPieces_short rfl (by decide) text
      · exact scanPieces_short rfl (by decide) text
    · have hescape : escape c = [c] := by
        unfold escape
        simp only [Bool.or_eq_true, decide_eq_true_eq]
        rw [if_neg hquote, if_neg (by omega), if_neg (by omega), if_neg (by omega),
          if_neg (by omega), if_neg (by omega), if_neg hc]
      have hpiece : piece c = ⟨c, false⟩ := by simp [piece, hc]
      rw [hescape, hpiece, List.cons_append, List.nil_append, scanPieces.eq_def]
      dsimp only
      rw [if_neg (by omega), if_neg (by omega), if_neg hc]
      cases scanPieces text <;> rfl

/-- A dumped text is scanned piece by piece. -/
theorem scanPieces_dumped (s rest : Str) :
    scanPieces (s.flatMap escape ++ 34 :: rest) = some (s.map piece, rest) := by
  induction s with
  | nil =>
    rw [List.flatMap_nil, List.nil_append, scanPieces.eq_def]
    rfl
  | cons c s ih =>
    rw [List.flatMap_cons, List.append_assoc, scanPieces_escape, ih]
    rfl

/-- No piece of a printed string is half of a pair. -/
theorem piece_not_high (c : Nat) : ((piece c).escaped && isHigh (piece c).code) = false := by
  by_cases hc : c < 32
  · have hhigh : isHigh c = false := by
      simp only [isHigh, Bool.and_eq_false_iff, decide_eq_false_iff_not]
      omega
    simp [piece, hhigh]
  · simp [piece, hc]

theorem joinPieces_piece : (s : Str) → joinPieces (s.map piece) = s
  | [] => rfl
  | [_] => rfl
  | c :: d :: s => by
    have ih := joinPieces_piece (d :: s)
    rw [List.map_cons, List.map_cons] at *
    rw [joinPieces, piece_not_high, Bool.false_and, Bool.false_and, if_neg (by simp), ih]
    rfl

/-- A dumped text is read back. -/
theorem scanString_dumped (s rest : Str) :
    scanString (s.flatMap escape ++ 34 :: rest) = some (s, rest) := by
  rw [scanString, scanPieces_dumped, Option.map_some, joinPieces_piece]

/-! ### Numbers -/

/-- What may follow a value. -/
def Ends (rest : Str) : Prop := ∀ c, rest.head? = some c → c = 44 ∨ c = 93 ∨ c = 125

theorem ends_nil : Ends [] := fun _ h => by cases h

theorem ends_cons {rest : Str} (h : c = 44 ∨ c = 93 ∨ c = 125) : Ends (c :: rest) := by
  intro d hd
  obtain rfl := Option.some.inj hd
  exact h

theorem Ends.skipBlanks {rest : Str} (h : Ends rest) : skipBlanks rest = rest := by
  cases rest with
  | nil => rfl
  | cons c rest =>
    have hc : isBlank c = false := by
      rcases h c rfl with rfl | rfl | rfl <;> rfl
    rw [PyJson.skipBlanks, List.dropWhile_cons, hc]
    rfl

theorem Ends.takeWhile_digit {rest : Str} (h : Ends rest) :
    rest.takeWhile isDigit = [] ∧ rest.dropWhile isDigit = rest := by
  cases rest with
  | nil => exact ⟨rfl, rfl⟩
  | cons c rest =>
    have hc : isDigit c = false := by
      rcases h c rfl with rfl | rfl | rfl <;> rfl
    simp [hc]

theorem Ends.scanFraction {rest : Str} (h : Ends rest) : scanFraction rest = ([], rest) := by
  unfold PyJson.scanFraction
  split
  · rename_i c rest
    rcases h 46 rfl with h | h | h <;> omega
  · rfl

theorem Ends.scanExponent {rest : Str} (h : Ends rest) : scanExponent rest = ([], rest) := by
  cases rest with
  | nil => rfl
  | cons c rest =>
    have hc : (c = 101 || c = 69) = false := by
      rcases h c rfl with rfl | rfl | rfl <;> rfl
    simp [PyJson.scanExponent, hc]

/-- The code points of a number's digits. -/
def digitCodes (n : Nat) : Str := (Nat.toDigits 10 n).map Char.toNat

variable {d : Nat}

theorem digitChar_code (h : d < 10) : (Nat.digitChar d).toNat = 48 + d := by
  interval_cases d <;> rfl

theorem digitCodes_lt (h : n < 10) : digitCodes n = [48 + n] := by
  rw [digitCodes, Nat.toDigits_of_lt_base h, List.map_singleton, digitChar_code h]

theorem digitCodes_step (h : 10 ≤ n) : digitCodes n = digitCodes (n / 10) ++ [48 + n % 10] := by
  rw [digitCodes, Nat.toDigits_of_base_le (by omega) h, List.map_append, List.map_singleton,
    digitChar_code (Nat.mod_lt n (by omega)), digitCodes]

theorem digitsValue_concat (ds : Str) (d : Nat) :
    digitsValue (ds ++ [d]) = digitsValue ds * 10 + (d - 48) := by
  rw [digitsValue, List.foldl_append]
  rfl

theorem digitsValue_digitCodes (n : Nat) : digitsValue (digitCodes n) = n := by
  induction n using Nat.strongRecOn with
  | ind n ih =>
    by_cases h : n < 10
    · rw [digitCodes_lt h]
      simp [digitsValue]
    · rw [digitCodes_step (by omega), digitsValue_concat, ih (n / 10) (by omega)]
      omega

/-- A positive number starts with a digit other than zero, and goes on with digits. -/
theorem digitCodes_shape (n : Nat) : (n = 0 ∧ digitCodes n = [48]) ∨
    ∃ c cs, digitCodes n = c :: cs ∧ 49 ≤ c ∧ c ≤ 57 ∧ ∀ d ∈ cs, isDigit d = true := by
  induction n using Nat.strongRecOn with
  | ind n ih =>
    by_cases h : n < 10
    · by_cases hzero : n = 0
      · exact .inl ⟨hzero, by rw [hzero]; rfl⟩
      · exact .inr ⟨48 + n, [], digitCodes_lt h, by omega, by omega, by simp⟩
    · have hstep := digitCodes_step (n := n) (by omega)
      rcases ih (n / 10) (by omega) with ⟨hzero, -⟩ | ⟨c, cs, hcs, hlo, hhi, hall⟩
      · omega
      · refine .inr ⟨c, cs ++ [48 + n % 10], by rw [hstep, hcs]; rfl, hlo, hhi, ?_⟩
        intro d hd
        rcases List.mem_append.mp hd with hd | hd
        · exact hall d hd
        · obtain rfl := List.mem_singleton.mp hd
          simp only [isDigit, Bool.and_eq_true, decide_eq_true_eq]
          omega

theorem scanDigits_digitCodes (n : Nat) {rest : Str} (h : Ends rest) :
    scanDigits (digitCodes n ++ rest) = some (digitCodes n, rest) := by
  rcases digitCodes_shape n with ⟨-, hcodes⟩ | ⟨c, cs, hcodes, hlo, hhi, hall⟩
  · rw [hcodes]
    rfl
  · obtain ⟨htake, hdrop⟩ := h.takeWhile_digit
    rw [hcodes, List.cons_append, scanDigits, if_neg (by omega),
      if_pos (by simp only [Bool.and_eq_true, decide_eq_true_eq]; omega)]
    rw [List.takeWhile_append_of_pos hall, List.dropWhile_append_of_pos hall, htake, hdrop,
      List.append_nil]

theorem scanNumber_digitCodes (n : Nat) {rest : Str} (h : Ends rest)
    (hlen : (digitCodes n).length ≤ maxStrDigits) :
    scanNumber (digitCodes n ++ rest) = .ok (.int n, rest) := by
  have hhead : (digitCodes n ++ rest).head? ≠ some 45 := by
    rcases digitCodes_shape n with ⟨-, hcodes⟩ | ⟨c, cs, hcodes, hlo, hhi, -⟩
    · rw [hcodes]
      simp
    · rw [hcodes]
      simp only [List.cons_append, List.head?_cons, ne_eq, Option.some.injEq]
      omega
  simp only [scanNumber, hhead, if_false, List.length_nil, List.drop_zero,
    scanDigits_digitCodes n h, h.scanFraction, h.scanExponent, List.isEmpty_nil, Bool.and_self,
    if_true, Nat.not_lt.mpr hlen, digitsValue_digitCodes]

theorem scanNumber_neg (n : Nat) {rest : Str} (h : Ends rest)
    (hlen : (digitCodes n).length ≤ maxStrDigits) :
    scanNumber (45 :: (digitCodes n ++ rest)) = .ok (.int (-n), rest) := by
  simp only [scanNumber, List.head?_cons, if_true, List.length_singleton, List.drop_one,
    List.tail_cons, scanDigits_digitCodes n h, h.scanFraction, h.scanExponent, List.isEmpty_nil,
    Bool.and_self, Nat.not_lt.mpr hlen, if_false, digitsValue_digitCodes, List.isEmpty_cons,
    Bool.false_eq_true]

/-! ### Keywords -/

theorem keywords_eq : keywords =
    [([110, 117, 108, 108], .null), ([116, 114, 117, 101], .bool true),
      ([102, 97, 108, 115, 101], .bool false), ([78, 97, 78], .float [78, 97, 78]),
      ([73, 110, 102, 105, 110, 105, 116, 121], .float [73, 110, 102, 105, 110, 105, 116, 121]),
      ([45, 73, 110, 102, 105, 110, 105, 116, 121],
        .float [45, 73, 110, 102, 105, 110, 105, 116, 121])] := by
  simp [keywords, Str.ofString]

theorem scanKeyword_digit (h : 48 ≤ c ∧ c ≤ 57) (rest : Str) : scanKeyword (c :: rest) = none := by
  have h₁ : c ≠ 110 := by omega
  have h₂ : c ≠ 116 := by omega
  have h₃ : c ≠ 102 := by omega
  have h₄ : c ≠ 78 := by omega
  have h₅ : c ≠ 73 := by omega
  have h₆ : c ≠ 45 := by omega
  simp [scanKeyword, keywords_eq, h₁, h₂, h₃, h₄, h₅, h₆]

theorem scanKeyword_neg (h : 48 ≤ c ∧ c ≤ 57) (rest : Str) :
    scanKeyword (45 :: c :: rest) = none := by
  have h₁ : c ≠ 73 := by omega
  simp [scanKeyword, keywords_eq, h₁]

theorem digitCodes_head (n : Nat) : ∃ c cs, digitCodes n = c :: cs ∧ 48 ≤ c ∧ c ≤ 57 := by
  rcases digitCodes_shape n with ⟨-, h⟩ | ⟨c, cs, h, hlo, hhi, -⟩
  · exact ⟨48, [], h, by omega, by omega⟩
  · exact ⟨c, cs, h, by omega, by omega⟩

/-! ### Values that are read back -/

/-- What `scanValue` does at anything that is not a string or a container. -/
def scanAtom (text : Str) : Except DecodeError (Value × Str) :=
  match scanKeyword text with
  | some r => .ok r
  | none => scanNumber text

/-- A literal that the scanner takes for a float, whatever follows the value. -/
structure FloatText (l : Str) : Prop where
  head : ∃ c cs, l = c :: cs ∧ c ≠ 34 ∧ c ≠ 123 ∧ c ≠ 91 ∧ c ≠ 93 ∧ c ≠ 125 ∧ isBlank c = false ∧
    c ≠ 0xFEFF
  ascii : ∀ c ∈ l, 32 < c ∧ c < 127
  scanned : ∀ rest, Ends rest → scanAtom (l ++ rest) = .ok (.float l, rest)

mutual

/-- Nothing in the value keeps the decoder from reading it back. -/
def Readable : Value → Prop
  | .int n => (digitCodes n.natAbs).length ≤ maxStrDigits
  | .float l => FloatText l
  | .arr vs => ReadableItems vs
  | .obj ms => (ms.map Prod.fst).Nodup ∧ ReadableMembers ms
  | _ => True

def ReadableItems : List Value → Prop
  | [] => True
  | v :: vs => Readable v ∧ ReadableItems vs

def ReadableMembers : List (Str × Value) → Prop
  | [] => True
  | (_, v) :: ms => Readable v ∧ ReadableMembers ms

end

mutual

/-- How deep containers are nested in a value. -/
def nesting : Value → Nat
  | .arr vs => nestingItems vs + 1
  | .obj ms => nestingMembers ms + 1
  | _ => 0

def nestingItems : List Value → Nat
  | [] => 0
  | v :: vs => max (nesting v) (nestingItems vs)

def nestingMembers : List (Str × Value) → Nat
  | [] => 0
  | (_, v) :: ms => max (nesting v) (nestingMembers ms)

end

variable {v : Value}

/-- A printed value starts with something that is neither a blank nor a closing bracket. -/
theorem dumps_head (h : Readable v) : ∃ c cs, dumps v = c :: cs ∧ isBlank c = false ∧
    c ≠ 93 ∧ c ≠ 125 ∧ c ≠ 0xFEFF := by
  cases v with
  | null => exact ⟨110, _, rfl, rfl, by decide, by decide, by decide⟩
  | bool b =>
    cases b with
    | false => exact ⟨102, _, rfl, rfl, by decide, by decide, by decide⟩
    | true => exact ⟨116, _, rfl, rfl, by decide, by decide, by decide⟩
  | int n =>
    cases n with
    | ofNat n =>
      obtain ⟨c, cs, hcs, hlo, hhi⟩ := digitCodes_head n
      refine ⟨c, cs, hcs, ?_, by omega, by omega, by omega⟩
      simp only [isBlank, Bool.or_eq_false_iff, decide_eq_false_iff_not]
      omega
    | negSucc n => exact ⟨45, _, rfl, rfl, by decide, by decide, by decide⟩
  | float l =>
    obtain ⟨c, cs, hcs, -, -, -, h₁, h₂, h₃, h₄⟩ := FloatText.head h
    exact ⟨c, cs, hcs, h₃, h₁, h₂, h₄⟩
  | str s => exact ⟨34, _, rfl, rfl, by decide, by decide, by decide⟩
  | arr vs => exact ⟨91, _, rfl, rfl, by decide, by decide, by decide⟩
  | obj ms => exact ⟨123, _, rfl, rfl, by decide, by decide, by decide⟩

theorem skipBlanks_cons {rest : Str} (h : isBlank c = false) :
    skipBlanks (c :: rest) = c :: rest := by
  rw [skipBlanks, List.dropWhile_cons, h]
  rfl

theorem skipBlanks_dumps (h : Readable v) (rest : Str) :
    skipBlanks (dumps v ++ rest) = dumps v ++ rest := by
  obtain ⟨c, cs, hcs, hblank, -⟩ := dumps_head h
  rw [hcs, List.cons_append]
  exact skipBlanks_cons hblank

variable {ms : List (Str × Value)}

theorem insertMember_fresh {key : Str} (h : key ∉ ms.map Prod.fst) :
    insertMember key v ms = ms ++ [(key, v)] := by
  induction ms with
  | nil => rfl
  | cons m ms ih =>
    obtain ⟨k, w⟩ := m
    simp only [List.map_cons, List.mem_cons, not_or] at h
    rw [insertMember, if_neg (Ne.symm h.1), ih h.2]
    rfl

section Scan

variable {limit : Nat}

variable {fuel : Nat}

theorem scanValue_scalar {depth : Nat} {text : Str} {rest : Str} {cs : Str} (htext : text = c :: cs)
    (h₁ : c ≠ 34) (h₂ : c ≠ 123) (h₃ : c ≠ 91) (h : scanAtom text = .ok (v, rest)) :
    scanValue limit (fuel + 1) depth text = .ok (v, rest) := by
  subst htext
  rw [scanValue, if_neg h₁, if_neg h₂, if_neg h₃]
  exact h

theorem scanValue_int {depth : Nat} (n : Int) {rest : Str} (hrest : Ends rest)
    (hlen : (digitCodes n.natAbs).length ≤ maxStrDigits) :
    scanValue limit (fuel + 1) depth (dumpInt n ++ rest) = .ok (.int n, rest) := by
  cases n with
  | ofNat n =>
    obtain ⟨c, cs, hcs, hlo, hhi⟩ := digitCodes_head n
    have htext : dumpInt (Int.ofNat n) ++ rest = c :: (cs ++ rest) := by
      rw [show dumpInt (Int.ofNat n) = digitCodes n from rfl, hcs, List.cons_append]
    refine scanValue_scalar htext (by omega) (by omega) (by omega) ?_
    have hkeyword : scanKeyword (dumpInt (Int.ofNat n) ++ rest) = none := by
      rw [htext]
      exact scanKeyword_digit ⟨hlo, hhi⟩ _
    rw [scanAtom, hkeyword]
    exact scanNumber_digitCodes n hrest hlen
  | negSucc n =>
    obtain ⟨c, cs, hcs, hlo, hhi⟩ := digitCodes_head (n + 1)
    have htext : dumpInt (Int.negSucc n) ++ rest = 45 :: (digitCodes (n + 1) ++ rest) := rfl
    refine scanValue_scalar htext (by omega) (by omega) (by omega) ?_
    have hkeyword : scanKeyword (dumpInt (Int.negSucc n) ++ rest) = none := by
      rw [htext, hcs, List.cons_append]
      exact scanKeyword_neg ⟨hlo, hhi⟩ _
    rw [scanAtom, hkeyword, htext]
    exact scanNumber_neg (n + 1) hrest hlen

theorem scanMembers_more {depth : Nat} {rest key text more : Str} {done : List (Str × Value)}
    (hkey : scanString rest = some (key, 58 :: text)) (hblank : skipBlanks text = text)
    (hv : scanValue limit fuel depth text = .ok (v, 44 :: more)) :
    scanMembers limit (fuel + 1) depth (34 :: rest) done =
      scanMembers limit fuel depth (skipBlanks more) (insertMember key v done) := by
  have h₁ : skipBlanks (58 :: text) = 58 :: text := skipBlanks_cons rfl
  have h₂ : skipBlanks (44 :: more) = 44 :: more := skipBlanks_cons rfl
  simp only [scanMembers, hkey, h₁, hblank, hv, h₂]

theorem scanMembers_last {depth : Nat} {rest key text more : Str} {done : List (Str × Value)}
    (hkey : scanString rest = some (key, 58 :: text)) (hblank : skipBlanks text = text)
    (hv : scanValue limit fuel depth text = .ok (v, 125 :: more)) :
    scanMembers limit (fuel + 1) depth (34 :: rest) done =
      .ok (.obj (insertMember key v done), more) := by
  have h₁ : skipBlanks (58 :: text) = 58 :: text := skipBlanks_cons rfl
  have h₂ : skipBlanks (125 :: more) = 125 :: more := skipBlanks_cons rfl
  simp only [scanMembers, hkey, h₁, hblank, hv, h₂]

mutual

/-- **The scanner reads a printed value and stops behind it.** -/
theorem scanValue_dumps : (v : Value) → ∀ {fuel depth : Nat} {rest : Str}, Readable v →
    depth + nesting v ≤ limit → (dumps v).length < fuel → Ends rest →
    scanValue limit fuel depth (dumps v ++ rest) = .ok (v, rest)
  | v, 0, _, _, _, _, hfuel, _ => by omega
  | .null, fuel + 1, depth, rest, _, _, _, _ => by
    refine scanValue_scalar (c := 110) rfl (by decide) (by decide) (by decide) ?_
    simp [scanAtom, scanKeyword, keywords_eq, dumps, Str.ofString]
  | .bool true, fuel + 1, depth, rest, _, _, _, _ => by
    refine scanValue_scalar (c := 116) rfl (by decide) (by decide) (by decide) ?_
    simp [scanAtom, scanKeyword, keywords_eq, dumps, Str.ofString]
  | .bool false, fuel + 1, depth, rest, _, _, _, _ => by
    refine scanValue_scalar (c := 102) rfl (by decide) (by decide) (by decide) ?_
    simp [scanAtom, scanKeyword, keywords_eq, dumps, Str.ofString]
  | .int n, fuel + 1, depth, rest, h, _, _, hrest => scanValue_int n hrest h
  | .float l, fuel + 1, depth, rest, h, _, _, hrest => by
    obtain ⟨c, cs, hcs, h₁, h₂, h₃, -⟩ := FloatText.head h
    have htext : dumps (.float l) ++ rest = c :: (cs ++ rest) := by
      rw [dumps, hcs, List.cons_append]
    exact scanValue_scalar htext h₁ h₂ h₃ (FloatText.scanned h rest hrest)
  | .str s, fuel + 1, depth, rest, _, _, _, _ => by
    have htext : dumps (.str s) ++ rest = 34 :: (s.flatMap escape ++ 34 :: rest) := by
      simp [dumps, dumpStr]
    rw [htext, scanValue, if_pos rfl, scanString_dumped]
  | .arr [], fuel + 1, depth, rest, _, hdepth, _, _ => by
    simp only [nesting, nestingItems] at hdepth
    simp only [dumps, dumpItems, List.nil_append, List.cons_append, scanValue]
    rw [if_neg (by decide), if_neg (by decide), if_pos (by decide), if_neg (by omega)]
    rfl
  | .arr (v :: vs), fuel + 1, depth, rest, h, hdepth, hfuel, hrest => by
    have hitems : ReadableItems (v :: vs) := h
    simp only [nesting] at hdepth
    simp only [dumps, List.length_cons, List.length_append, List.length_nil] at hfuel
    obtain ⟨c, cs, hcs, hblank, hclose, -⟩ := dumps_head hitems.1
    have htext : dumps (.arr (v :: vs)) ++ rest = 91 :: (dumpItems (v :: vs) ++ 93 :: rest) := by
      simp [dumps]
    have hskip : skipBlanks (dumpItems (v :: vs) ++ 93 :: rest) =
        dumpItems (v :: vs) ++ 93 :: rest := by
      rw [dumpItems, List.append_assoc]
      exact skipBlanks_dumps hitems.1 _
    have hhead : (dumpItems (v :: vs) ++ 93 :: rest).head? ≠ some 93 := by
      rw [dumpItems, hcs]
      simpa using hclose
    rw [htext, scanValue, if_neg (by decide), if_neg (by decide), if_pos rfl, if_neg (by omega), hskip,
      if_neg hhead]
    exact scanItems_dumps (v :: vs) (by simp) hitems (by omega) (by omega)
  | .obj [], fuel + 1, depth, rest, _, hdepth, _, _ => by
    simp only [nesting, nestingMembers] at hdepth
    simp only [dumps, dumpMembers, List.nil_append, List.cons_append, scanValue]
    rw [if_neg (by decide), if_pos (by decide), if_neg (by omega)]
    rfl
  | .obj (m :: ms), fuel + 1, depth, rest, h, hdepth, hfuel, hrest => by
    obtain ⟨hnodup, hmembers⟩ : ((m :: ms).map Prod.fst).Nodup ∧ ReadableMembers (m :: ms) := h
    simp only [nesting] at hdepth
    simp only [dumps, List.length_cons, List.length_append, List.length_nil] at hfuel
    have htext : dumps (.obj (m :: ms)) ++ rest = 123 :: (dumpMembers (m :: ms) ++ 125 :: rest) := by
      simp [dumps]
    obtain ⟨tail, htail⟩ : ∃ tail, dumpMembers (m :: ms) ++ 125 :: rest = 34 :: tail := by
      obtain ⟨k, v⟩ := m
      exact ⟨_, rfl⟩
    have hskip : skipBlanks (dumpMembers (m :: ms) ++ 125 :: rest) =
        dumpMembers (m :: ms) ++ 125 :: rest := by
      rw [htail]
      exact skipBlanks_cons rfl
    have hhead : (dumpMembers (m :: ms) ++ 125 :: rest).head? ≠ some 125 := by
      rw [htail]
      simp
    rw [htext, scanValue, if_neg (by decide), if_pos rfl, if_neg (by omega), hskip, if_neg hhead]
    exact scanMembers_dumps (m :: ms) (by simp) hnodup hmembers (by omega) (by omega)

/-- The items of a dumped array are read back. -/
theorem scanItems_dumps : (vs : List Value) → ∀ {fuel depth : Nat} {rest : Str} {done : List Value},
    vs ≠ [] → ReadableItems vs → depth + nestingItems vs ≤ limit →
    (dumpItems vs).length + 1 < fuel →
    scanItems limit fuel depth (dumpItems vs ++ 93 :: rest) done = .ok (.arr (done ++ vs), rest)
  | vs, 0, _, _, _, _, _, _, hfuel => by omega
  | [], fuel + 1, _, _, _, hne, _, _, _ => absurd rfl hne
  | [v], fuel + 1, depth, rest, done, _, h, hdepth, hfuel => by
    simp only [nestingItems] at hdepth
    simp only [dumpItems, List.isEmpty_nil, if_true, List.append_nil] at hfuel ⊢
    have hv : scanValue limit fuel depth (dumps v ++ 93 :: rest) = .ok (v, 93 :: rest) :=
      scanValue_dumps v h.1 (by omega) (by omega) (ends_cons (.inr (.inl rfl)))
    rw [scanItems, hv]
    dsimp only
    rw [skipBlanks_cons rfl]
    rfl
  | v :: w :: vs, fuel + 1, depth, rest, done, _, h, hdepth, hfuel => by
    obtain ⟨hv, hvs⟩ : Readable v ∧ ReadableItems (w :: vs) := h
    rw [nestingItems] at hdepth
    have htext : dumpItems (v :: w :: vs) ++ 93 :: rest =
        dumps v ++ 44 :: (dumpItems (w :: vs) ++ 93 :: rest) := by
      rw [dumpItems]
      simp
    have hlen : (dumpItems (v :: w :: vs)).length =
        (dumps v).length + 1 + (dumpItems (w :: vs)).length := by
      rw [dumpItems]
      simp
      omega
    have hscan : scanValue limit fuel depth (dumps v ++ 44 :: (dumpItems (w :: vs) ++ 93 :: rest)) =
        .ok (v, 44 :: (dumpItems (w :: vs) ++ 93 :: rest)) :=
      scanValue_dumps v hv (by omega) (by omega) (ends_cons (.inl rfl))
    have hskip : skipBlanks (dumpItems (w :: vs) ++ 93 :: rest) =
        dumpItems (w :: vs) ++ 93 :: rest := by
      rw [dumpItems, List.append_assoc]
      exact skipBlanks_dumps hvs.1 _
    obtain ⟨c, cs, hcs, -⟩ := dumps_head hv
    have hpos : 0 < (dumps v).length := by
      rw [hcs]
      simp
    rw [htext, scanItems, hscan]
    dsimp only
    rw [skipBlanks_cons rfl]
    change scanItems limit fuel depth (skipBlanks _) (done ++ [v]) = _
    rw [hskip, scanItems_dumps (w :: vs) (by simp) hvs (by omega) (by omega), List.append_assoc]
    rfl

theorem scanMembers_dumps : (ms : List (Str × Value)) →
    ∀ {fuel depth : Nat} {rest : Str} {done : List (Str × Value)},
    ms ≠ [] → ((done ++ ms).map Prod.fst).Nodup → ReadableMembers ms →
    depth + nestingMembers ms ≤ limit → (dumpMembers ms).length + 1 < fuel →
    scanMembers limit fuel depth (dumpMembers ms ++ 125 :: rest) done = .ok (.obj (done ++ ms), rest)
  | ms, 0, _, _, _, _, _, _, _, hfuel => by omega
  | [], fuel + 1, _, _, _, hne, _, _, _, _ => absurd rfl hne
  | [(k, v)], fuel + 1, depth, rest, done, _, hnodup, h, hdepth, hfuel => by
    have hv : Readable v := h.1
    simp only [nestingMembers] at hdepth
    have htext : dumpMembers [(k, v)] ++ 125 :: rest =
        34 :: (k.flatMap escape ++ 34 :: 58 :: (dumps v ++ 125 :: rest)) := by
      simp [dumpMembers, dumpStr]
    have hlen : (dumps v).length < fuel := by
      simp only [dumpMembers, dumpStr, List.isEmpty_nil, if_true, List.append_nil,
        List.length_append, List.length_cons] at hfuel
      omega
    have hfresh : k ∉ done.map Prod.fst := by
      rw [List.map_append] at hnodup
      exact fun hk => (List.nodup_append.mp hnodup).2.2 k hk k (by simp) rfl
    have hscan : scanValue limit fuel depth (dumps v ++ 125 :: rest) = .ok (v, 125 :: rest) :=
      scanValue_dumps v hv (by omega) hlen (ends_cons (.inr (.inr rfl)))
    rw [htext, scanMembers_last (scanString_dumped _ _) (skipBlanks_dumps hv _) hscan,
      insertMember_fresh hfresh]
  | (k, v) :: m :: ms, fuel + 1, depth, rest, done, _, hnodup, h, hdepth, hfuel => by
    obtain ⟨hv, hms⟩ : Readable v ∧ ReadableMembers (m :: ms) := h
    rw [nestingMembers] at hdepth
    have htext : dumpMembers ((k, v) :: m :: ms) ++ 125 :: rest =
        34 :: (k.flatMap escape ++ 34 :: 58 :: (dumps v ++
          44 :: (dumpMembers (m :: ms) ++ 125 :: rest))) := by
      rw [dumpMembers]
      simp [dumpStr]
    have hlen : (dumps v).length + 2 + (dumpMembers (m :: ms)).length < fuel := by
      rw [dumpMembers] at hfuel
      simp only [dumpStr, List.isEmpty_cons, Bool.false_eq_true, if_false, List.length_append,
        List.length_cons, List.length_nil] at hfuel
      omega
    have hfresh : k ∉ done.map Prod.fst := by
      rw [List.map_append] at hnodup
      exact fun hk => (List.nodup_append.mp hnodup).2.2 k hk k (by simp) rfl
    have hscan : scanValue limit fuel depth
        (dumps v ++ 44 :: (dumpMembers (m :: ms) ++ 125 :: rest)) =
        .ok (v, 44 :: (dumpMembers (m :: ms) ++ 125 :: rest)) :=
      scanValue_dumps v hv (by omega) (by omega) (ends_cons (.inl rfl))
    have hskip : skipBlanks (dumpMembers (m :: ms) ++ 125 :: rest) =
        dumpMembers (m :: ms) ++ 125 :: rest := by
      obtain ⟨k', v'⟩ := m
      exact skipBlanks_cons rfl
    have hnodup' : (((done ++ [(k, v)]) ++ m :: ms).map Prod.fst).Nodup := by
      simpa using hnodup
    rw [htext, scanMembers_more (scanString_dumped _ _) (skipBlanks_dumps hv _) hscan, hskip,
      insertMember_fresh hfresh,
      scanMembers_dumps (m :: ms) (by simp) hnodup' hms (by omega) (by omega), List.append_assoc]
    rfl

end

end Scan

/-- **What is printed is read back.** -/
theorem loads_dumps {limit : Nat} (h : Readable v) (hdepth : nesting v ≤ limit) :
    loads limit (dumps v) = .ok v := by
  obtain ⟨c, cs, hcs, -, -, -, hbom⟩ := dumps_head h
  have hhead : (dumps v).head? ≠ some 0xFEFF := by
    rw [hcs]
    simpa using hbom
  have hskip : skipBlanks (dumps v) = dumps v := by
    simpa using skipBlanks_dumps h []
  have hscan : scanValue limit (2 * (dumps v).length + 2) 0 (dumps v ++ []) = .ok (v, []) :=
    scanValue_dumps v h (by omega) (by omega) ends_nil
  rw [List.append_nil] at hscan
  rw [loads, if_neg hhead, hskip, hscan]
  rfl

/-! ### Sorting the keys -/

theorem sortItems_eq_map (vs : List Value) : sortItems vs = vs.map sortKeys := by
  induction vs with
  | nil => rfl
  | cons v vs ih => rw [sortItems, ih, List.map_cons]

theorem sortMembers_eq_map (ms : List (Str × Value)) :
    sortMembers ms = ms.map fun m => (m.1, sortKeys m.2) := by
  induction ms with
  | nil => rfl
  | cons m ms ih =>
    obtain ⟨k, v⟩ := m
    rw [sortMembers, ih, List.map_cons]

theorem sortMembers_keys (ms : List (Str × Value)) :
    (sortMembers ms).map Prod.fst = ms.map Prod.fst := by
  rw [sortMembers_eq_map, List.map_map]
  rfl

variable {vs : List Value}

theorem readableItems_iff : ReadableItems vs ↔ ∀ v ∈ vs, Readable v := by
  induction vs with
  | nil => simp [ReadableItems]
  | cons v vs ih => simp only [ReadableItems, ih, List.forall_mem_cons]

theorem readableMembers_iff : ReadableMembers ms ↔ ∀ m ∈ ms, Readable m.2 := by
  induction ms with
  | nil => simp [ReadableMembers]
  | cons m ms ih =>
    obtain ⟨k, v⟩ := m
    simp only [ReadableMembers, ih, List.forall_mem_cons]

theorem nestingMembers_le : nestingMembers ms ≤ d ↔ ∀ m ∈ ms, nesting m.2 ≤ d := by
  induction ms with
  | nil => simp [nestingMembers]
  | cons m ms ih =>
    obtain ⟨k, v⟩ := m
    simp only [nestingMembers, max_le_iff, ih, List.forall_mem_cons]

theorem perm_sorted (ms : List (Str × Value)) :
    ((sortMembers ms).insertionSort fun a b => a.1 ≤ b.1).Perm (sortMembers ms) :=
  List.perm_insertionSort _ _

mutual

theorem readable_sortKeys : (v : Value) → Readable v → Readable (sortKeys v)
  | .null, h => h
  | .bool _, h => h
  | .int _, h => h
  | .float _, h => h
  | .str _, h => h
  | .arr vs, h => readable_sortItems vs h
  | .obj ms, h => by
    refine ⟨?_, ?_⟩
    · rw [((perm_sorted ms).map Prod.fst).nodup_iff, sortMembers_keys]
      exact h.1
    · rw [readableMembers_iff]
      intro m hm
      exact readableMembers_iff.mp (readable_sortMembers ms h.2) m ((perm_sorted ms).mem_iff.mp hm)

theorem readable_sortItems : (vs : List Value) → ReadableItems vs → ReadableItems (sortItems vs)
  | [], _ => trivial
  | v :: vs, h => ⟨readable_sortKeys v h.1, readable_sortItems vs h.2⟩

theorem readable_sortMembers :
    (ms : List (Str × Value)) → ReadableMembers ms → ReadableMembers (sortMembers ms)
  | [], _ => trivial
  | (_, v) :: ms, h => ⟨readable_sortKeys v h.1, readable_sortMembers ms h.2⟩

end

mutual

theorem nesting_sortKeys : (v : Value) → nesting (sortKeys v) ≤ nesting v
  | .null => le_refl _
  | .bool _ => le_refl _
  | .int _ => le_refl _
  | .float _ => le_refl _
  | .str _ => le_refl _
  | .arr vs => Nat.succ_le_succ (nesting_sortItems vs)
  | .obj ms => by
    refine Nat.succ_le_succ (Iff.mpr nestingMembers_le fun m hm => ?_)
    exact Iff.mp nestingMembers_le (nesting_sortMembers ms) m ((perm_sorted ms).mem_iff.mp hm)

theorem nesting_sortItems : (vs : List Value) → nestingItems (sortItems vs) ≤ nestingItems vs
  | [] => le_refl _
  | v :: vs => max_le_max (nesting_sortKeys v) (nesting_sortItems vs)

theorem nesting_sortMembers :
    (ms : List (Str × Value)) → nestingMembers (sortMembers ms) ≤ nestingMembers ms
  | [] => le_refl _
  | (_, v) :: ms => max_le_max (nesting_sortKeys v) (nesting_sortMembers ms)

end

/-- **The canonical text of a value determines it**, up to the order of keys. -/
theorem sortKeys_eq_of_dumps_eq {w : Value} (hv : Readable v) (hw : Readable w)
    (h : dumps (sortKeys v) = dumps (sortKeys w)) : sortKeys v = sortKeys w := by
  have hv' : loads (max (nesting v) (nesting w)) (dumps (sortKeys v)) = .ok (sortKeys v) :=
    loads_dumps (readable_sortKeys v hv) ((nesting_sortKeys v).trans (le_max_left _ _))
  have hw' : loads (max (nesting v) (nesting w)) (dumps (sortKeys w)) = .ok (sortKeys w) :=
    loads_dumps (readable_sortKeys w hw) ((nesting_sortKeys w).trans (le_max_right _ _))
  rw [h, hw'] at hv'
  exact (Except.ok.inj hv').symm

/-- The two dicts hold the same members, with equal values. -/
def SameDict (a b : List (Str × Value)) : Prop := (sortMembers a).Perm (sortMembers b)

theorem SameDict.refl (a : List (Str × Value)) : SameDict a a := List.Perm.refl _

variable {a b : List (Str × Value)}

/-- Two objects of one sorted form are one dict. -/
theorem sameDict_of_sortKeys_eq (h : sortKeys (.obj a) = sortKeys (.obj b)) : SameDict a b := by
  have hsorted := Value.obj.inj h
  exact (perm_sorted a).symm.trans (hsorted ▸ perm_sorted b)

theorem SameDict.symm (h : SameDict a b) : SameDict b a :=
  List.Perm.symm h

/-! ### Looking up members -/

theorem insertMember_self {key : Str} (h : ms.lookup key = some v) :
    insertMember key v ms = ms := by
  induction ms with
  | nil => cases h
  | cons m ms ih =>
    obtain ⟨k, w⟩ := m
    rw [List.lookup_cons] at h
    rw [insertMember]
    by_cases hk : k = key
    · subst hk
      rw [if_pos rfl]
      simp only [beq_self_eq_true] at h
      rw [Option.some.inj h]
    · rw [if_neg hk]
      rw [beq_false_of_ne (Ne.symm hk)] at h
      rw [ih h]

theorem lookup_filter_ne {key other : Str} (h : key ≠ other) (ms : List (Str × Value)) :
    (ms.filter fun m => m.1 ≠ other).lookup key = ms.lookup key := by
  induction ms with
  | nil => rfl
  | cons m ms ih =>
    obtain ⟨k, w⟩ := m
    by_cases hk : k = other
    · subst hk
      rw [List.filter_cons_of_neg (by simp), ih, List.lookup_cons, beq_false_of_ne h]
    · rw [List.filter_cons_of_pos (by simpa using hk), List.lookup_cons, List.lookup_cons, ih]

theorem filter_ne_eq_self {key : Str} (h : key ∉ ms.map Prod.fst) :
    (ms.filter fun m => m.1 ≠ key) = ms := by
  rw [List.filter_eq_self]
  intro m hm
  have hne : m.1 ≠ key := fun heq => h (List.mem_map.mpr ⟨m, hm, heq⟩)
  simpa using hne

/-- A dict is one of its members and the others. -/
theorem perm_of_lookup {key : Str} (hnodup : (ms.map Prod.fst).Nodup) (h : ms.lookup key = some v) :
    ms.Perm ((key, v) :: ms.filter fun m => m.1 ≠ key) := by
  induction ms with
  | nil => cases h
  | cons m ms ih =>
    obtain ⟨k, w⟩ := m
    rw [List.map_cons, List.nodup_cons] at hnodup
    rw [List.lookup_cons] at h
    by_cases hk : k = key
    · subst hk
      simp only [beq_self_eq_true] at h
      obtain rfl := Option.some.inj h
      rw [List.filter_cons_of_neg (by simp), filter_ne_eq_self hnodup.1]
    · rw [beq_false_of_ne (Ne.symm hk)] at h
      rw [List.filter_cons_of_pos (by simpa using hk)]
      exact ((ih hnodup.2 h).cons _).trans (List.Perm.swap _ _ _)

theorem lookup_of_mem {key : Str} (hnodup : (ms.map Prod.fst).Nodup) (h : (key, v) ∈ ms) :
    ms.lookup key = some v := by
  induction ms with
  | nil => cases h
  | cons m ms ih =>
    obtain ⟨k, w⟩ := m
    rw [List.map_cons, List.nodup_cons] at hnodup
    rw [List.lookup_cons]
    rcases List.mem_cons.mp h with heq | hmem
    · obtain ⟨rfl, rfl⟩ := Prod.mk.inj heq
      simp
    · have hne : k ≠ key := fun heq => hnodup.1 (List.mem_map.mpr ⟨_, hmem, heq.symm⟩)
      rw [beq_false_of_ne (Ne.symm hne)]
      exact ih hnodup.2 hmem

variable {s : Str}

theorem sortKeys_eq_str (h : sortKeys v = .str s) : v = .str s := by
  cases v with
  | arr vs => cases h
  | obj ms => cases h
  | null => exact h
  | bool b => exact h
  | int n => exact h
  | float l => exact h
  | str t => exact h

/-- The same dicts hold the same texts. -/
theorem SameDict.lookup_str (h : SameDict a b) (ha : (a.map Prod.fst).Nodup)
    (hb : (b.map Prod.fst).Nodup) {key : Str} (hlookup : a.lookup key = some (.str s)) :
    b.lookup key = some (.str s) := by
  have hmem : (key, Value.str s) ∈ a := (perm_of_lookup ha hlookup).mem_iff.mpr (by simp)
  have hsorted : (key, Value.str s) ∈ sortMembers b := by
    refine h.mem_iff.mp ?_
    rw [sortMembers_eq_map]
    exact List.mem_map.mpr ⟨_, hmem, rfl⟩
  rw [sortMembers_eq_map] at hsorted
  obtain ⟨⟨k, v⟩, hmem', heq⟩ := List.mem_map.mp hsorted
  obtain ⟨rfl, hv⟩ : k = key ∧ sortKeys v = .str s := Prod.mk.inj heq
  rw [lookup_of_mem hb hmem', sortKeys_eq_str hv]

/-- Dicts that agree on one member and without it are the same. -/
theorem SameDict.of_lookup {key : Str} (ha : (a.map Prod.fst).Nodup) (hb : (b.map Prod.fst).Nodup)
    (hla : a.lookup key = some v) (hlb : b.lookup key = some v)
    (h : SameDict (a.filter fun m => m.1 ≠ key) (b.filter fun m => m.1 ≠ key)) : SameDict a b := by
  have hpa := (perm_of_lookup ha hla).map fun m => (m.1, sortKeys m.2)
  have hpb := (perm_of_lookup hb hlb).map fun m => (m.1, sortKeys m.2)
  unfold SameDict at h ⊢
  rw [sortMembers_eq_map, sortMembers_eq_map] at h ⊢
  exact hpa.trans ((h.cons _).trans hpb.symm)

/-- **Same dicts have the same canonical form.** -/
theorem SameDict.sortKeys_eq (h : SameDict a b) (ha : (a.map Prod.fst).Nodup) :
    sortKeys (.obj a) = sortKeys (.obj b) := by
  rw [sortKeys, sortKeys]
  refine congrArg Value.obj (List.Perm.eq_of_pairwise ?_ (List.pairwise_insertionSort _ _)
    (List.pairwise_insertionSort _ _) ((perm_sorted a).trans (h.trans (perm_sorted b).symm)))
  intro x y hx hy hxy hyx
  have hkey : x.1 = y.1 := le_antisymm hxy hyx
  have hx' : x ∈ sortMembers a := (perm_sorted a).mem_iff.mp hx
  have hy' : y ∈ sortMembers a := h.mem_iff.mpr ((perm_sorted b).mem_iff.mp hy)
  have hnodup : ((sortMembers a).map Prod.fst).Nodup := by rwa [sortMembers_keys]
  exact List.inj_on_of_nodup_map hnodup hx' hy' hkey

theorem SameDict.filter_ne (h : SameDict a b) (key : Str) :
    SameDict (a.filter fun m => m.1 ≠ key) (b.filter fun m => m.1 ≠ key) := by
  have hfilter : ∀ ms : List (Str × Value), sortMembers (ms.filter fun m => m.1 ≠ key) =
      (sortMembers ms).filter fun m => m.1 ≠ key := by
    intro ms
    rw [sortMembers_eq_map, sortMembers_eq_map, List.filter_map]
    rfl
  rw [SameDict, hfilter, hfilter]
  exact h.filter _

/-- Replacing a member is putting it before the others. -/
theorem insertMember_perm (key : Str) (v : Value) (h : (ms.map Prod.fst).Nodup) :
    (insertMember key v ms).Perm ((key, v) :: ms.filter fun m => m.1 ≠ key) := by
  induction ms with
  | nil => exact List.Perm.refl _
  | cons m ms ih =>
    obtain ⟨k, w⟩ := m
    rw [List.map_cons, List.nodup_cons] at h
    rw [insertMember]
    split
    · rename_i heq
      subst heq
      rw [List.filter_cons_of_neg (by simp), filter_ne_eq_self h.1]
    · rename_i hk
      rw [List.filter_cons_of_pos (by simpa using hk)]
      exact ((ih h.2).cons _).trans (List.Perm.swap _ _ _)

theorem insertMember_nodup (key : Str) (v : Value) (h : (ms.map Prod.fst).Nodup) :
    ((insertMember key v ms).map Prod.fst).Nodup := by
  rw [((insertMember_perm key v h).map Prod.fst).nodup_iff, List.map_cons, List.nodup_cons]
  refine ⟨?_, h.sublist (List.filter_sublist.map Prod.fst)⟩
  simp

theorem SameDict.insertMember (h : SameDict a b) (ha : (a.map Prod.fst).Nodup)
    (hb : (b.map Prod.fst).Nodup) (key : Str) (v : Value) :
    SameDict (PyJson.insertMember key v a) (PyJson.insertMember key v b) := by
  have hpa := (insertMember_perm key v ha).map fun m => (m.1, sortKeys m.2)
  have hpb := (insertMember_perm key v hb).map fun m => (m.1, sortKeys m.2)
  have hrest := h.filter_ne key
  unfold SameDict at hrest ⊢
  rw [sortMembers_eq_map, sortMembers_eq_map] at hrest ⊢
  exact hpa.trans ((hrest.cons _).trans hpb.symm)

/-! ### The code points of a text -/

/-- Induction over a value: the containers hold smaller ones. -/
theorem Value.induction {P : Value → Prop} (null : P .null) (bool : ∀ b, P (.bool b))
    (int : ∀ n, P (.int n)) (float : ∀ l, P (.float l)) (str : ∀ s, P (.str s))
    (arr : ∀ vs, (∀ v ∈ vs, P v) → P (.arr vs))
    (obj : ∀ ms, (∀ m ∈ ms, P m.2) → P (.obj ms)) (v : Value) : P v :=
  @Value.rec P (fun vs => ∀ v ∈ vs, P v) (fun ms => ∀ m ∈ ms, P m.2) (fun m => P m.2)
    null bool int float str (fun vs h => arr vs h) (fun ms h => obj ms h)
    (fun _ h => by cases h) (fun v vs hv hvs w hw => by
      rcases List.mem_cons.mp hw with rfl | hw
      · exact hv
      · exact hvs w hw)
    (fun _ h => by cases h) (fun m ms hm hms n hn => by
      rcases List.mem_cons.mp hn with rfl | hn
      · exact hm
      · exact hms n hn)
    (fun _ _ h => h) v

/-- Sorting twice is sorting once. -/
theorem sortKeys_sortKeys (v : Value) : sortKeys (sortKeys v) = sortKeys v := by
  induction v using Value.induction with
  | null => rfl
  | bool b => rfl
  | int n => rfl
  | float l => rfl
  | str s => rfl
  | arr vs ih =>
    rw [sortKeys, sortKeys, sortItems_eq_map, sortItems_eq_map, List.map_map]
    exact congrArg Value.arr (List.map_congr_left ih)
  | obj ms ih =>
    have hsorted : sortMembers ((sortMembers ms).insertionSort fun a b => a.1 ≤ b.1) =
        (sortMembers ms).insertionSort fun a b => a.1 ≤ b.1 := by
      rw [sortMembers_eq_map]
      refine (List.map_congr_left (g := id) ?_).trans (List.map_id _)
      intro n hn
      have hn' := (perm_sorted ms).mem_iff.mp hn
      rw [sortMembers_eq_map] at hn'
      obtain ⟨m, hm, rfl⟩ := List.mem_map.mp hn'
      exact Prod.ext rfl (ih m hm)
    rw [sortKeys, sortKeys, hsorted]
    exact congrArg Value.obj (List.pairwise_insertionSort _ _).insertionSort_eq

mutual

/-- The code points of the strings of a value, keys included. -/
def codes : Value → List Nat
  | .str s => s
  | .arr vs => codesItems vs
  | .obj ms => codesMembers ms
  | _ => []

def codesItems : List Value → List Nat
  | [] => []
  | v :: vs => codes v ++ codesItems vs

def codesMembers : List (Str × Value) → List Nat
  | [] => []
  | (k, v) :: ms => k ++ codes v ++ codesMembers ms

end

theorem mem_codesItems : c ∈ codesItems vs ↔ ∃ v ∈ vs, c ∈ codes v := by
  induction vs with
  | nil => simp [codesItems]
  | cons v vs ih => simp [codesItems, ih]

theorem mem_codesMembers : c ∈ codesMembers ms ↔ ∃ m ∈ ms, c ∈ m.1 ∨ c ∈ codes m.2 := by
  induction ms with
  | nil => simp [codesMembers]
  | cons m ms ih => simp [codesMembers, ih, or_assoc]

theorem mem_codes_sortKeys (v : Value) : c ∈ codes (sortKeys v) ↔ c ∈ codes v := by
  induction v using Value.induction with
  | null => rfl
  | bool b => rfl
  | int n => rfl
  | float l => rfl
  | str s => rfl
  | arr vs ih =>
    rw [sortKeys, codes, codes, mem_codesItems, mem_codesItems, sortItems_eq_map]
    constructor
    · rintro ⟨w, hw, hc⟩
      obtain ⟨v, hv, rfl⟩ := List.mem_map.mp hw
      exact ⟨v, hv, (ih v hv).mp hc⟩
    · rintro ⟨v, hv, hc⟩
      exact ⟨sortKeys v, List.mem_map_of_mem hv, (ih v hv).mpr hc⟩
  | obj ms ih =>
    rw [sortKeys, codes, codes, mem_codesMembers, mem_codesMembers]
    constructor
    · rintro ⟨n, hn, hc⟩
      have hn' := (perm_sorted ms).mem_iff.mp hn
      rw [sortMembers_eq_map] at hn'
      obtain ⟨m, hm, rfl⟩ := List.mem_map.mp hn'
      exact ⟨m, hm, hc.imp_right (ih m hm).mp⟩
    · rintro ⟨m, hm, hc⟩
      refine ⟨(m.1, sortKeys m.2), (perm_sorted ms).mem_iff.mpr ?_, hc.imp_right (ih m hm).mpr⟩
      rw [sortMembers_eq_map]
      exact List.mem_map_of_mem hm

/-- A plain character: neither a control character nor outside of ASCII. -/
def Plain (c : Nat) : Prop := 32 ≤ c ∧ c < 127

theorem mem_escape (h : d ∈ escape c) : Plain d ∨ d = c ∧ 127 ≤ c := by
  unfold escape at h
  simp only [Bool.or_eq_true, decide_eq_true_eq] at h
  split at h
  · rename_i hc
    simp only [List.mem_cons, List.not_mem_nil, or_false] at h
    unfold Plain
    omega
  all_goals split at h
  case isTrue =>
    simp only [List.mem_cons, List.not_mem_nil, or_false] at h
    unfold Plain
    omega
  all_goals split at h
  case isTrue =>
    simp only [List.mem_cons, List.not_mem_nil, or_false] at h
    unfold Plain
    omega
  all_goals split at h
  case isTrue =>
    simp only [List.mem_cons, List.not_mem_nil, or_false] at h
    unfold Plain
    omega
  all_goals split at h
  case isTrue =>
    simp only [List.mem_cons, List.not_mem_nil, or_false] at h
    unfold Plain
    omega
  all_goals split at h
  case isTrue =>
    simp only [List.mem_cons, List.not_mem_nil, or_false] at h
    unfold Plain
    omega
  all_goals split at h
  case isTrue =>
    simp only [unicodeEscape, List.mem_cons, List.not_mem_nil, or_false] at h
    unfold Plain
    split at h
    · omega
    · omega
  case isFalse =>
    obtain rfl := List.mem_singleton.mp h
    unfold Plain
    omega

theorem mem_dumpStr (h : d ∈ dumpStr s) : Plain d ∨ d ∈ s ∧ 127 ≤ d := by
  simp only [dumpStr, List.mem_cons, List.mem_append, List.mem_flatMap, List.not_mem_nil,
    or_false] at h
  rcases h with rfl | ⟨c, hc, hd⟩ | rfl
  · exact .inl ⟨by omega, by omega⟩
  · rcases mem_escape hd with hplain | ⟨rfl, hge⟩
    · exact .inl hplain
    · exact .inr ⟨hc, hge⟩
  · exact .inl ⟨by omega, by omega⟩

theorem mem_dumpStr_of_mem (hd : d ∈ s) (h : 127 ≤ d) : d ∈ dumpStr s := by
  simp only [dumpStr, List.mem_cons, List.mem_append, List.mem_flatMap]
  refine .inr (.inl ⟨d, hd, ?_⟩)
  have hescape : escape d = [d] := by
    unfold escape
    simp only [Bool.or_eq_true, decide_eq_true_eq]
    rw [if_neg (by omega), if_neg (by omega), if_neg (by omega), if_neg (by omega),
      if_neg (by omega), if_neg (by omega), if_neg (by omega)]
  rw [hescape]
  exact List.mem_singleton_self d

theorem mem_dumpItems (h : d ∈ dumpItems vs) : d = 44 ∨ ∃ v ∈ vs, d ∈ dumps v := by
  induction vs with
  | nil => cases h
  | cons v vs ih =>
    rw [dumpItems, List.mem_append] at h
    rcases h with h | h
    · exact .inr ⟨v, List.mem_cons_self, h⟩
    · split at h
      · cases h
      · rcases List.mem_cons.mp h with rfl | h
        · exact .inl rfl
        · rcases ih h with rfl | ⟨w, hw, hd⟩
          · exact .inl rfl
          · exact .inr ⟨w, List.mem_cons_of_mem _ hw, hd⟩

theorem mem_dumpItems_of_mem (hv : v ∈ vs) (hd : d ∈ dumps v) : d ∈ dumpItems vs := by
  induction vs with
  | nil => cases hv
  | cons w vs ih =>
    rw [dumpItems, List.mem_append]
    rcases List.mem_cons.mp hv with rfl | hv
    · exact .inl hd
    · have hne : vs.isEmpty = false := by
        cases vs with
        | nil => cases hv
        | cons w' vs => rfl
      rw [hne]
      exact .inr (List.mem_cons_of_mem _ (ih hv))

theorem mem_dumpMembers (h : d ∈ dumpMembers ms) :
    d = 44 ∨ d = 58 ∨ ∃ m ∈ ms, d ∈ dumpStr m.1 ∨ d ∈ dumps m.2 := by
  induction ms with
  | nil => cases h
  | cons m ms ih =>
    obtain ⟨k, v⟩ := m
    rw [dumpMembers, List.mem_append, List.mem_append, List.mem_cons] at h
    rcases h with (h | rfl | h) | h
    · exact .inr (.inr ⟨(k, v), List.mem_cons_self, .inl h⟩)
    · exact .inr (.inl rfl)
    · exact .inr (.inr ⟨(k, v), List.mem_cons_self, .inr h⟩)
    · split at h
      · cases h
      · rcases List.mem_cons.mp h with rfl | h
        · exact .inl rfl
        · rcases ih h with rfl | rfl | ⟨m, hm, hd⟩
          · exact .inl rfl
          · exact .inr (.inl rfl)
          · exact .inr (.inr ⟨m, List.mem_cons_of_mem _ hm, hd⟩)

theorem mem_dumpMembers_of_mem {m : Str × Value} (hm : m ∈ ms)
    (hd : d ∈ dumpStr m.1 ∨ d ∈ dumps m.2) : d ∈ dumpMembers ms := by
  induction ms with
  | nil => cases hm
  | cons n ms ih =>
    obtain ⟨k, v⟩ := n
    rw [dumpMembers, List.mem_append, List.mem_append, List.mem_cons]
    rcases List.mem_cons.mp hm with rfl | hm
    · rcases hd with hd | hd
      · exact .inl (.inl hd)
      · exact .inl (.inr (.inr hd))
    · have hne : ms.isEmpty = false := by
        cases ms with
        | nil => cases hm
        | cons n ms => rfl
      rw [hne]
      exact .inr (List.mem_cons_of_mem _ (ih hm))

/-- **A printed text holds plain characters and, above them, those of the value's strings.** -/
theorem mem_dumps (v : Value) : Readable v → d ∈ dumps v →
    Plain d ∨ d ∈ codes v ∧ 127 ≤ d := by
  induction v using Value.induction with
  | null =>
    intro _ h
    have hplain : ∀ d ∈ dumps .null, 32 ≤ d ∧ d < 127 := by decide
    exact .inl (hplain d h)
  | bool b =>
    intro _ h
    have hplain : ∀ b, ∀ d ∈ dumps (.bool b), 32 ≤ d ∧ d < 127 := by decide
    exact .inl (hplain b d h)
  | int n =>
    intro _ h
    have hdigits : ∀ n : Nat, ∀ d ∈ digitCodes n, Plain d := by
      intro n d hd
      rcases digitCodes_shape n with ⟨-, hcodes⟩ | ⟨c, cs, hcodes, hlo, hhi, hall⟩
      · rw [hcodes] at hd
        obtain rfl := List.mem_singleton.mp hd
        exact ⟨by omega, by omega⟩
      · rw [hcodes] at hd
        rcases List.mem_cons.mp hd with rfl | hd
        · exact ⟨by omega, by omega⟩
        · have hdigit := hall d hd
          simp only [isDigit, Bool.and_eq_true, decide_eq_true_eq] at hdigit
          exact ⟨by omega, by omega⟩
    cases n with
    | ofNat n => exact .inl (hdigits n d h)
    | negSucc n =>
      rcases List.mem_cons.mp h with rfl | h
      · exact .inl ⟨by omega, by omega⟩
      · exact .inl (hdigits (n + 1) d h)
  | float l =>
    intro hl h
    obtain ⟨hlo, hhi⟩ := FloatText.ascii hl d h
    exact .inl ⟨by omega, hhi⟩
  | str s =>
    intro _ h
    exact mem_dumpStr h
  | arr vs ih =>
    intro hvs h
    rw [dumps, List.mem_cons, List.mem_append] at h
    rcases h with rfl | h | h
    · exact .inl ⟨by omega, by omega⟩
    · rcases mem_dumpItems h with rfl | ⟨v, hv, hd⟩
      · exact .inl ⟨by omega, by omega⟩
      · rcases ih v hv (readableItems_iff.mp hvs v hv) hd with hplain | ⟨hcode, hge⟩
        · exact .inl hplain
        · exact .inr ⟨mem_codesItems.mpr ⟨v, hv, hcode⟩, hge⟩
    · obtain rfl := List.mem_singleton.mp h
      exact .inl ⟨by omega, by omega⟩
  | obj ms ih =>
    intro hms h
    rw [dumps, List.mem_cons, List.mem_append] at h
    rcases h with rfl | h | h
    · exact .inl ⟨by omega, by omega⟩
    · rcases mem_dumpMembers h with rfl | rfl | ⟨m, hm, hd⟩
      · exact .inl ⟨by omega, by omega⟩
      · exact .inl ⟨by omega, by omega⟩
      · have hread := readableMembers_iff.mp hms.2 m hm
        rcases hd.elim (fun hd => (mem_dumpStr hd).imp_right
          (And.imp_left (Or.inl (b := d ∈ codes m.2)))) (fun hd => (ih m hm hread hd).imp_right
          (And.imp_left Or.inr)) with hplain | ⟨hcode, hge⟩
        · exact .inl hplain
        · exact .inr ⟨mem_codesMembers.mpr ⟨m, hm, hcode⟩, hge⟩
    · obtain rfl := List.mem_singleton.mp h
      exact .inl ⟨by omega, by omega⟩

theorem mem_dumps_of_codes (hge : 127 ≤ d) (v : Value) : d ∈ codes v → d ∈ dumps v := by
  induction v using Value.induction with
  | null => intro h; cases h
  | bool b => intro h; cases h
  | int n => intro h; cases h
  | float l => intro h; cases h
  | str s =>
    intro h
    exact mem_dumpStr_of_mem h hge
  | arr vs ih =>
    intro h
    obtain ⟨v, hv, hd⟩ := mem_codesItems.mp h
    rw [dumps, List.mem_cons, List.mem_append]
    exact .inr (.inl (mem_dumpItems_of_mem hv (ih v hv hd)))
  | obj ms ih =>
    intro h
    obtain ⟨m, hm, hd⟩ := mem_codesMembers.mp h
    rw [dumps, List.mem_cons, List.mem_append]
    refine .inr (.inl (mem_dumpMembers_of_mem hm ?_))
    rcases hd with hd | hd
    · exact .inl (mem_dumpStr_of_mem hd hge)
    · exact .inr (ih m hm hd)

end RiskOps.Lib.PyJson
