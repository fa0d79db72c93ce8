import RiskOps.Lib.PyJsonRound

/-!
# RiskOps.Lib.PyJsonAscii — the encoder with `ensure_ascii=True`

Above ASCII the encoder writes escapes, everything else as `dumps` does. A text whose strings are
plain is therefore the text `dumps` writes (`dumpsAscii_eq`), and is read back; how long a text is at
most follows from the bytes of its strings (`length_dumpsAscii_le`).
-/

namespace RiskOps.Lib.PyJson

/-- A hexadecimal digit. -/
def hexCode (n : Nat) : Nat := if n < 10 then 48 + n else 87 + n

/-- `\uXXXX`. -/
def wideEscape (c : Nat) : Str :=
  [92, 117, hexCode (c / 4096 % 16), hexCode (c / 256 % 16), hexCode (c / 16 % 16), hexCode (c % 16)]

/-- One character of a text: above ASCII an escape, outside the basic plane a surrogate pair. -/
def asciiOf (c : Nat) : Str :=
  if c < 127 then [c]
  else if c < 65536 then wideEscape c
  else wideEscape (55296 + (c - 65536) / 1024) ++ wideEscape (56320 + (c - 65536) % 1024)

/-- `json.dumps(value, sort_keys=True, separators=(",", ":"), ensure_ascii=True)` on a value whose
keys are sorted. -/
def dumpsAscii (v : Value) : Str := (dumps v).flatMap asciiOf

/-- How many bytes UTF-8 takes for a character. -/
def utf8Width (c : Nat) : Nat := if c < 128 then 1 else if c < 2048 then 2 else if c < 65536 then 3 else 4

/-- `len(s.encode())`. -/
def utf8Length (s : Str) : Nat := (s.map utf8Width).sum

/-- A character that is written as it is. -/
def isVerbatim (c : Nat) : Bool := 32 ≤ c && c < 127 && c ≠ 34 && c ≠ 92

/-- How many characters a character takes at most: one, or six for each of its bytes. -/
def weight (c : Nat) : Nat := if isVerbatim c then 1 else 6 * utf8Width c

/-- How many characters a string takes at most, without its quotes. -/
def strWeight (s : Str) : Nat := (s.map weight).sum

theorem strWeight_cons (c : Nat) (s : Str) : strWeight (c :: s) = weight c + strWeight s := by
  simp [strWeight]

theorem strWeight_le (s : Str) : strWeight s ≤ 6 * utf8Length s := by
  induction s with
  | nil => simp [strWeight]
  | cons c s ih =>
    have hwidth : 1 ≤ utf8Width c := by
      unfold utf8Width
      split_ifs <;> omega
    have hweight : weight c ≤ 6 * utf8Width c := by
      unfold weight
      split <;> omega
    simp only [utf8Length, List.map_cons, List.sum_cons] at ih ⊢
    rw [strWeight_cons]
    omega

theorem strWeight_verbatim {s : Str} (h : ∀ c ∈ s, isVerbatim c = true) : strWeight s = s.length := by
  induction s with
  | nil => rfl
  | cons c s ih =>
    rw [strWeight_cons, ih fun d hd => h d (List.mem_cons_of_mem _ hd), weight,
      if_pos (h c List.mem_cons_self), List.length_cons]
    omega

/-- The bytes of a literal. -/
theorem utf8Length_ofString (s : String) : utf8Length (Str.ofString s) = s.utf8ByteSize := by
  have hlist : ∀ l : List Char, utf8Length (l.map Char.toNat) = (String.ofList l).utf8ByteSize := by
    intro l
    induction l with
    | nil => rfl
    | cons c l ih =>
      have happend : String.ofList (c :: l) = String.ofList [c] ++ String.ofList l :=
        @String.ofList_append [c] l
      have hone : (String.ofList [c]).utf8ByteSize = c.utf8Size := String.utf8ByteSize_singleton
      have hwidth : utf8Width c.toNat = c.utf8Size := by
        have hval : c.toNat = c.val.toNat := rfl
        simp only [utf8Width, Char.utf8Size, UInt32.le_iff_toNat_le, hval, UInt32.toNat_ofNatLT]
        split_ifs <;> omega
      simp only [utf8Length, List.map_cons, List.sum_cons] at ih ⊢
      rw [happend, String.utf8ByteSize_append, hone, ih, hwidth]
  have h := hlist s.toList
  rwa [String.ofList_toList] at h

/-- **Plain text is written as it is.** -/
theorem dumpsAscii_eq {v : Value} (hv : Readable v) (h : ∀ c ∈ codes v, c < 127) :
    dumpsAscii v = dumps v := by
  have hplain : ∀ d ∈ dumps v, d < 127 := by
    intro d hd
    rcases mem_dumps v hv hd with hplain | ⟨hcode, hge⟩
    · exact hplain.2
    · exact absurd (h d hcode) (by omega)
  have hflat : ∀ s : Str, (∀ d ∈ s, d < 127) → s.flatMap asciiOf = s := by
    intro s hs
    induction s with
    | nil => rfl
    | cons c s ih =>
      rw [List.flatMap_cons, asciiOf, if_pos (hs c List.mem_cons_self),
        ih fun d hd => hs d (List.mem_cons_of_mem _ hd), List.singleton_append]
  exact hflat _ hplain

/-- What is plain is read back. -/
theorem loads_dumpsAscii {limit : Nat} {v : Value} (hv : Readable v) (h : ∀ c ∈ codes v, c < 127)
    (hdepth : nesting v ≤ limit) : loads limit (dumpsAscii v) = .ok v := by
  rw [dumpsAscii_eq hv h, loads_dumps hv hdepth]

/-! ### How long a text is -/

mutual

/-- A bound on the length of a text. -/
def textBound : Value → Nat
  | .null => 4
  | .bool _ => 5
  | .int n => (dumpInt n).length
  | .float l => 12 * l.length
  | .str s => strWeight s + 2
  | .arr vs => itemsBound vs + 2
  | .obj ms => membersBound ms + 2

def itemsBound : List Value → Nat
  | [] => 0
  | v :: vs => textBound v + 1 + itemsBound vs

def membersBound : List (Str × Value) → Nat
  | [] => 0
  | (k, v) :: ms => strWeight k + 2 + 1 + textBound v + 1 + membersBound ms

end

theorem length_asciiOf_le (c : Nat) : (asciiOf c).length ≤ 12 := by
  unfold asciiOf
  split_ifs <;> simp [wideEscape]

theorem length_flatMap_asciiOf {s : Str} (h : ∀ d ∈ s, d < 127) :
    (s.flatMap asciiOf).length = s.length := by
  induction s with
  | nil => rfl
  | cons c s ih =>
    rw [List.flatMap_cons, List.length_append, asciiOf, if_pos (h c List.mem_cons_self),
      ih fun d hd => h d (List.mem_cons_of_mem _ hd)]
    simp only [List.length_cons, List.length_nil]
    omega

theorem length_escape_le (c : Nat) : ((escape c).flatMap asciiOf).length ≤ weight c := by
  unfold weight
  split
  · rename_i hverbatim
    simp only [isVerbatim, Bool.and_eq_true, decide_eq_true_eq, ne_eq] at hverbatim
    have hescape : escape c = [c] := by
      unfold escape
      rw [if_neg (by simp; omega), if_neg (by omega), if_neg (by omega), if_neg (by omega),
        if_neg (by omega), if_neg (by omega), if_neg (by omega)]
    rw [hescape, List.flatMap_cons, asciiOf, if_pos (by omega)]
    simp
  · rcases Nat.lt_or_ge c 127 with hlt | hge
    · have hascii : ∀ d ∈ escape c, d < 127 := by
        intro d hd
        rcases mem_escape hd with hplain | ⟨rfl, hge⟩
        · exact hplain.2
        · omega
      have hlen : (escape c).length ≤ 6 := by
        unfold escape
        split_ifs <;> simp [unicodeEscape]
      rw [length_flatMap_asciiOf hascii, utf8Width, if_pos (by omega)]
      omega
    · have hescape : escape c = [c] := by
        unfold escape
        rw [if_neg (by simp; omega), if_neg (by omega), if_neg (by omega), if_neg (by omega),
          if_neg (by omega), if_neg (by omega), if_neg (by omega)]
      rw [hescape, List.flatMap_cons, List.flatMap_nil, List.append_nil, asciiOf, if_neg (by omega),
        utf8Width]
      split_ifs <;> simp only [wideEscape, List.length_append, List.length_cons, List.length_nil] <;>
        omega

theorem length_dumpStr_le (s : Str) : ((dumpStr s).flatMap asciiOf).length ≤ strWeight s + 2 := by
  have hflat : ((s.flatMap escape).flatMap asciiOf).length ≤ strWeight s := by
    induction s with
    | nil => simp [strWeight]
    | cons c s ih =>
      have hc := length_escape_le c
      rw [strWeight_cons, List.flatMap_cons, List.flatMap_append, List.length_append]
      omega
  have hquote : asciiOf 34 = [34] := rfl
  rw [dumpStr, List.flatMap_cons, List.flatMap_append, List.length_append, List.length_append,
    List.flatMap_cons, hquote]
  simp only [List.length_singleton, List.flatMap_nil, List.length_append, List.length_nil]
  omega

theorem digit_code_lt {n c : Nat} (h : c ∈ (Nat.toDigits 10 n).map Char.toNat) : c < 127 := by
  obtain ⟨d, hd, rfl⟩ := List.mem_map.mp h
  have hd' := Nat.isDigit_of_mem_toDigits (by decide) (by decide) hd
  simp only [Char.isDigit, Bool.and_eq_true, decide_eq_true_eq] at hd'
  have h9 : ('9' : Char).val.toNat = 57 := rfl
  have hle := UInt32.le_iff_toNat_le.mp hd'.2
  have hval : d.toNat = d.val.toNat := rfl
  omega

theorem length_dumpInt (n : Int) : ((dumpInt n).flatMap asciiOf).length = (dumpInt n).length := by
  refine length_flatMap_asciiOf fun d hd => ?_
  cases n with
  | ofNat n => exact digit_code_lt hd
  | negSucc n =>
    rcases List.mem_cons.mp hd with rfl | hd
    · decide
    · exact digit_code_lt hd

theorem length_dumpInt_le {n : Int} {k : Nat} (h : 0 ≤ n ∧ n < 10 ^ k) (hk : 0 < k) :
    (dumpInt n).length ≤ k := by
  obtain ⟨m, rfl⟩ := Int.eq_ofNat_of_zero_le h.1
  rw [show dumpInt (m : Int) = (Nat.toDigits 10 m).map Char.toNat from rfl, List.length_map]
  refine (Nat.length_toDigits_le_iff (by omega) hk).mpr ?_
  exact_mod_cast h.2

theorem length_flatMap_le (s : Str) : (s.flatMap asciiOf).length ≤ 12 * s.length := by
  induction s with
  | nil => rfl
  | cons c s ih =>
    have := length_asciiOf_le c
    rw [List.flatMap_cons, List.length_append, List.length_cons]
    omega

mutual

/-- **A text is no longer than its bound.** -/
theorem length_dumpsAscii_le : (v : Value) → (dumpsAscii v).length ≤ textBound v
  | .null => by decide
  | .bool true => by decide
  | .bool false => by decide
  | .int n => Nat.le_of_eq (length_dumpInt n)
  | .float l => length_flatMap_le l
  | .str s => length_dumpStr_le s
  | .arr vs => by
    have h := length_dumpItems_le vs
    have hopen : asciiOf 91 = [91] := rfl
    have hclose : asciiOf 93 = [93] := rfl
    rw [dumpsAscii, dumps, List.flatMap_cons, List.flatMap_append, List.flatMap_cons, hopen, hclose,
      textBound]
    simp only [List.length_append, List.length_singleton, List.flatMap_nil, List.length_nil]
    omega
  | .obj ms => by
    have h := length_dumpMembers_le ms
    have hopen : asciiOf 123 = [123] := rfl
    have hclose : asciiOf 125 = [125] := rfl
    rw [dumpsAscii, dumps, List.flatMap_cons, List.flatMap_append, List.flatMap_cons, hopen, hclose,
      textBound]
    simp only [List.length_append, List.length_singleton, List.flatMap_nil, List.length_nil]
    omega

theorem length_dumpItems_le : (vs : List Value) →
    ((dumpItems vs).flatMap asciiOf).length ≤ itemsBound vs
  | [] => Nat.le_refl 0
  | v :: vs => by
    have hv := length_dumpsAscii_le v
    have hvs := length_dumpItems_le vs
    have hcomma : asciiOf 44 = [44] := rfl
    rw [dumpsAscii] at hv
    rw [dumpItems, List.flatMap_append, List.length_append, itemsBound]
    split
    · simp only [List.flatMap_nil, List.length_nil]
      omega
    · rw [List.flatMap_cons, hcomma, List.length_append, List.length_singleton]
      omega

theorem length_dumpMembers_le : (ms : List (Str × Value)) →
    ((dumpMembers ms).flatMap asciiOf).length ≤ membersBound ms
  | [] => Nat.le_refl 0
  | (k, v) :: ms => by
    have hk := length_dumpStr_le k
    have hv := length_dumpsAscii_le v
    have hms := length_dumpMembers_le ms
    have hcomma : asciiOf 44 = [44] := rfl
    have hcolon : asciiOf 58 = [58] := rfl
    rw [dumpsAscii] at hv
    rw [dumpMembers, List.flatMap_append, List.length_append, List.flatMap_append, List.flatMap_cons,
      hcolon, List.length_append, List.length_append, List.length_singleton, membersBound]
    split
    · simp only [List.flatMap_nil, List.length_nil]
      omega
    · rw [List.flatMap_cons, hcomma, List.length_append, List.length_singleton]
      omega

end

end RiskOps.Lib.PyJson
