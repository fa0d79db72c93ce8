import RiskOps.Lib.Lawful

/-!
# RiskOps.Lib.Base64 — URL-safe base64

`encode` writes the URL-safe alphabet with padding. `decode` reads it as
`base64.b64decode(…, altchars=b'-_', validate=True)` does: both spellings of the last two digits are
taken, the unused bits of a last group may be anything, and after whole groups padding is skipped.
What is encoded is decoded to itself (`decode_encode`).
-/

namespace RiskOps.Lib.Base64

/-- The digit of a number below 64. -/
def digit (n : Nat) : Nat :=
  if n < 26 then 65 + n else if n < 52 then 71 + n else if n < 62 then n - 4
  else if n = 62 then 45 else 95

/-- The number of a digit. -/
def value (c : Nat) : Option Nat :=
  if 65 ≤ c ∧ c ≤ 90 then some (c - 65)
  else if 97 ≤ c ∧ c ≤ 122 then some (c - 71)
  else if 48 ≤ c ∧ c ≤ 57 then some (c + 4)
  else if c = 45 ∨ c = 43 then some 62
  else if c = 95 ∨ c = 47 then some 63
  else none

/-- `urlsafe_b64encode(data)`. -/
def encode : List Nat → List Nat
  | [] => []
  | [a] => [digit (a / 4), digit (a % 4 * 16), 61, 61]
  | [a, b] => [digit (a / 4), digit (a % 4 * 16 + b / 16), digit (b % 16 * 4), 61]
  | a :: b :: c :: rest =>
    digit (a / 4) :: digit (a % 4 * 16 + b / 16) :: digit (b % 16 * 4 + c / 64) :: digit (c % 64)
      :: encode rest

/-- Groups of four digits, the last one possibly padded. -/
def decodeGroups : List Nat → Option (List Nat)
  | [] => some []
  | [w, x, 61, 61] => do
      let w ← value w
      let x ← value x
      return [w * 4 + x / 16]
  | [w, x, y, 61] => do
      let w ← value w
      let x ← value x
      let y ← value y
      return [w * 4 + x / 16, x % 16 * 16 + y / 4]
  | w :: x :: y :: z :: rest => do
      let w ← value w
      let x ← value x
      let y ← value y
      let z ← value z
      -- Padding after a whole group is skipped.
      (if rest.all (· = 61) then some [] else decodeGroups rest).map fun bytes =>
        (w * 4 + x / 16) :: (x % 16 * 16 + y / 4) :: (y % 4 * 64 + z) :: bytes
  | _ => none

/-- `b64decode(text, altchars=b'-_', validate=True)`. -/
def decode (text : List Nat) : Option (List Nat) := decodeGroups text

theorem value_digit {n : Nat} (h : n < 64) : value (digit n) = some n := by
  have hall : ∀ n < 64, value (digit n) = some n := by decide
  exact hall n h

theorem digit_ne_pad {n : Nat} (h : n < 64) : digit n ≠ 61 := by
  have hall : ∀ n < 64, digit n ≠ 61 := by decide
  exact hall n h

theorem digit_plain {n : Nat} (h : n < 64) : 45 ≤ digit n ∧ digit n < 123 := by
  have hall : ∀ n < 64, 45 ≤ digit n ∧ digit n < 123 := by decide
  exact hall n h

/-- A group of four digits none of which is padding. -/
theorem decodeGroups_four {w x y z : Nat} (hw : w < 64) (hx : x < 64) (hy : y < 64) (hz : z < 64)
    (rest : List Nat) :
    decodeGroups (digit w :: digit x :: digit y :: digit z :: rest) =
      ((if rest.all (· = 61) then some [] else decodeGroups rest).map fun bytes =>
        (w * 4 + x / 16) :: (x % 16 * 16 + y / 4) :: (y % 4 * 64 + z) :: bytes) := by
  have hz' := digit_ne_pad hz
  rw [decodeGroups]
  · simp only [value_digit hw, value_digit hx, value_digit hy, value_digit hz, bind, Option.bind]
  · intro _ hpad _
    exact hz' hpad
  · intro hpad _
    exact hz' hpad

theorem encode_not_pad {bytes : List Nat} (h : ∀ b ∈ bytes, b < 256) :
    (encode bytes).all (· = 61) = true ↔ bytes = [] := by
  constructor
  · intro hall
    match bytes with
    | [] => rfl
    | [a] =>
      have ha := h a (by simp)
      simp [encode, digit_ne_pad (n := a / 4) (by omega)] at hall
    | [a, b] =>
      have ha := h a (by simp)
      simp [encode, digit_ne_pad (n := a / 4) (by omega)] at hall
    | a :: b :: c :: rest =>
      have ha := h a (by simp)
      simp [encode, digit_ne_pad (n := a / 4) (by omega)] at hall
  · rintro rfl
    rfl

/-- **Round trip.** -/
theorem decode_encode {bytes : List Nat} (h : ∀ b ∈ bytes, b < 256) :
    decode (encode bytes) = some bytes := by
  unfold decode
  induction bytes using encode.induct with
  | case1 => rfl
  | case2 a =>
    have ha := h a (by simp)
    rw [encode, decodeGroups, value_digit (by omega), value_digit (by omega)]
    simp only [bind, Option.bind, pure, Option.some.injEq, List.cons.injEq, and_true]
    omega
  | case3 a b =>
    have ha := h a (by simp)
    have hb := h b (by simp)
    have hy := digit_ne_pad (n := b % 16 * 4) (by omega)
    rw [encode, decodeGroups]
    · rw [value_digit (by omega), value_digit (by omega), value_digit (by omega)]
      simp only [bind, Option.bind, pure, Option.some.injEq, List.cons.injEq, and_true]
      omega
    · exact hy
  | case4 a b c rest ih =>
    have ha := h a (by simp)
    have hb := h b (by simp)
    have hc := h c (by simp)
    have hrest : ∀ d ∈ rest, d < 256 := fun d hd => h d (by simp [hd])
    rw [encode, decodeGroups_four (by omega) (by omega) (by omega) (by omega), ih hrest]
    have htail : (if (encode rest).all (· = 61) then some [] else some rest) = some rest := by
      split
      · rename_i hall
        rw [(encode_not_pad hrest).mp hall]
      · rfl
    rw [htail, Option.map_some, Option.some.injEq]
    simp only [List.cons.injEq, and_true]
    omega

theorem length_encode (bytes : List Nat) : (encode bytes).length = (bytes.length + 2) / 3 * 4 := by
  induction bytes using encode.induct with
  | case1 => rfl
  | case2 a => simp [encode]
  | case3 a b => simp [encode]
  | case4 a b c rest ih =>
    simp only [encode, List.length_cons, ih]
    omega

/-- What is written is ASCII. -/
theorem encode_plain {bytes : List Nat} (h : ∀ b ∈ bytes, b < 256) :
    ∀ c ∈ encode bytes, 45 ≤ c ∧ c < 123 := by
  induction bytes using encode.induct with
  | case1 => simp [encode]
  | case2 a =>
    have ha := h a (by simp)
    simp only [encode, List.mem_cons, List.not_mem_nil, or_false, forall_eq_or_imp, forall_eq]
    exact ⟨digit_plain (by omega), digit_plain (by omega), by omega, by omega⟩
  | case3 a b =>
    have ha := h a (by simp)
    have hb := h b (by simp)
    simp only [encode, List.mem_cons, List.not_mem_nil, or_false, forall_eq_or_imp, forall_eq]
    exact ⟨digit_plain (by omega), digit_plain (by omega), digit_plain (by omega), by omega⟩
  | case4 a b c rest ih =>
    have ha := h a (by simp)
    have hb := h b (by simp)
    have hc := h c (by simp)
    simp only [encode, List.mem_cons, forall_eq_or_imp]
    exact ⟨digit_plain (by omega), digit_plain (by omega), digit_plain (by omega),
      digit_plain (by omega), ih fun d hd => h d (by simp [hd])⟩

end RiskOps.Lib.Base64
