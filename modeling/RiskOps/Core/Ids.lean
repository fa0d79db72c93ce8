import RiskOps.Lib.Lawful

/-!
# RiskOps.Core.Ids — sequential identifiers

Model of `core/ids.py`. Identifiers are numbered per prefix and printed with at
least four digits, so as *text* they only follow the order of their numbers while
the number of digits stays the same.
-/

namespace RiskOps.Core

/-- `IdFactory`: one counter for each prefix. -/
structure IdFactory where
  counters : String → Nat

/-- A factory that has issued nothing. -/
def IdFactory.init : IdFactory := ⟨fun _ => 0⟩

/-- `f"{n:04d}"`. -/
def pad4 (n : Nat) : List Char :=
  List.replicate (4 - (Nat.toDigits 10 n).length) '0' ++ Nat.toDigits 10 n

/-- `f"{prefix}-{n:04d}"`. -/
def formatId (pfx : String) (n : Nat) : String :=
  pfx ++ "-" ++ String.ofList (pad4 n)

/-- `IdFactory.next`. -/
def IdFactory.next (ids : IdFactory) (pfx : String) : String × IdFactory :=
  let n := ids.counters pfx + 1
  (formatId pfx n, ⟨fun p => if p = pfx then n else ids.counters p⟩)

@[simp] theorem IdFactory.next_counters (ids : IdFactory) (pfx p : String) :
    (ids.next pfx).2.counters p = if p = pfx then ids.counters pfx + 1 else ids.counters p := rfl

@[simp] theorem IdFactory.next_id (ids : IdFactory) (pfx : String) :
    (ids.next pfx).1 = formatId pfx (ids.counters pfx + 1) := rfl

/-! ### The order of identifiers of one width -/

/-- The `w` lowest decimal digits of `n`. -/
def fixedDigits : Nat → Nat → List Char
  | 0, _ => []
  | w + 1, n => fixedDigits w (n / 10) ++ [Nat.digitChar (n % 10)]

theorem fixedDigits_succ (w n : Nat) :
    fixedDigits (w + 1) n = fixedDigits w (n / 10) ++ [Nat.digitChar (n % 10)] := rfl

@[simp] theorem fixedDigits_length (w n : Nat) : (fixedDigits w n).length = w := by
  induction w generalizing n with
  | zero => rfl
  | succ w ih => simp [fixedDigits_succ, ih]

theorem fixedDigits_zero (w : Nat) : fixedDigits w 0 = List.replicate w '0' := by
  induction w with
  | zero => rfl
  | succ w ih =>
    have hdigit : Nat.digitChar (0 % 10) = '0' := rfl
    simp [fixedDigits_succ, ih, hdigit, List.replicate_succ']

/-- Left-padding a number that fits gives its digits at that width. -/
theorem replicate_append_toDigits {w n : Nat} (hw : 0 < w) (h : n < 10 ^ w) :
    List.replicate (w - (Nat.toDigits 10 n).length) '0' ++ Nat.toDigits 10 n = fixedDigits w n := by
  induction w generalizing n with
  | zero => omega
  | succ w ih =>
    by_cases hn : n < 10
    · rw [Nat.toDigits_of_lt_base hn, fixedDigits_succ, Nat.div_eq_of_lt hn, fixedDigits_zero,
        Nat.mod_eq_of_lt hn]
      simp
    · have hpos : 0 < w := by
        rcases Nat.eq_zero_or_pos w with rfl | hpos
        · omega
        · exact hpos
      have hdiv : n / 10 < 10 ^ w := by
        rw [pow_succ] at h
        exact Nat.div_lt_of_lt_mul (by omega)
      rw [Nat.toDigits_of_base_le (by omega) (by omega), fixedDigits_succ, ← ih hpos hdiv]
      simp

theorem digitChar_lt {a b : Nat} (h : a < b) (hb : b < 10) : Nat.digitChar a < Nat.digitChar b := by
  have : ∀ b < 10, ∀ a < b, Nat.digitChar a < Nat.digitChar b := by decide
  exact this b hb a h

theorem append_lt_append {l l' r r' : List Char} (hlen : l.length = l'.length) (h : l < l') :
    l ++ r < l' ++ r' := by
  induction l generalizing l' with
  | nil =>
    cases l' with
    | nil => exact absurd h (List.not_lt_nil _)
    | cons b l' => simp at hlen
  | cons a l ih =>
    cases l' with
    | nil => simp at hlen
    | cons b l' =>
      rw [List.cons_append, List.cons_append, List.cons_lt_cons_iff]
      rcases List.cons_lt_cons_iff.mp h with hab | ⟨hab, hl⟩
      · exact Or.inl hab
      · exact Or.inr ⟨hab, ih (by simpa using hlen) hl⟩

theorem append_lt_append_left (l : List Char) {r r' : List Char} (h : r < r') :
    l ++ r < l ++ r' := by
  induction l with
  | nil => exact h
  | cons a l ih => exact List.cons_lt_cons_iff.mpr (Or.inr ⟨rfl, ih⟩)

theorem fixedDigits_lt {w n m : Nat} (h : n < m) (hm : m < 10 ^ w) :
    fixedDigits w n < fixedDigits w m := by
  induction w generalizing n m with
  | zero => omega
  | succ w ih =>
    rcases Nat.lt_or_ge (n / 10) (m / 10) with hdiv | hdiv
    · refine append_lt_append (by simp) (ih hdiv ?_)
      rw [pow_succ] at hm
      exact Nat.div_lt_of_lt_mul (by omega)
    · have heq : n / 10 = m / 10 := by omega
      rw [fixedDigits_succ, fixedDigits_succ, heq]
      refine append_lt_append_left _ ?_
      exact List.cons_lt_cons_iff.mpr (Or.inl (digitChar_lt (by omega) (by omega)))

/-- Up to 9999, identifiers of one prefix sort as their numbers do. -/
theorem formatId_lt {pfx : String} {n m : Nat} (h : n < m) (hm : m ≤ 9999) :
    formatId pfx n < formatId pfx m := by
  have hpad : pad4 n < pad4 m := by
    rw [pad4, pad4, replicate_append_toDigits (by omega) (by omega),
      replicate_append_toDigits (by omega) (by omega)]
    exact fixedDigits_lt h (by omega)
  rw [String.lt_iff]
  simpa [formatId] using append_lt_append_left (pfx ++ "-").toList hpad

theorem ofDigitChars_replicate (k acc : Nat) (l : List Char) (h : acc = 0) :
    Nat.ofDigitChars 10 (List.replicate k '0' ++ l) acc = Nat.ofDigitChars 10 l acc := by
  subst h
  induction k with
  | zero => rfl
  | succ k ih => simpa [List.replicate_succ, Nat.ofDigitChars] using ih

/-- Two numbers never share an identifier. -/
theorem formatId_injective {pfx : String} {n m : Nat} (h : formatId pfx n = formatId pfx m) :
    n = m := by
  have hpad : pad4 n = pad4 m := by
    have := congrArg String.toList h
    simpa [formatId] using this
  have hval : ∀ k, Nat.ofDigitChars 10 (pad4 k) 0 = k := by
    intro k
    rw [pad4, ofDigitChars_replicate _ _ _ rfl]
    exact Nat.ofDigitChars_ten_toDigits
  rw [← hval n, hpad, hval m]

-- From five digits on they do not.
example : formatId "APR" 10000 < formatId "APR" 9999 := by decide

end RiskOps.Core
