import RiskOps.Lib.Lawful

/-!
# RiskOps.Lib.Decimal — decimal numbers of bounded precision

A non-negative decimal number is a coefficient with a power of ten. `round` leaves a number of
digits, ties to even, which is how a context of that precision rounds the result of an operation;
`toInt` drops what stands behind the point.

**Rounding and truncation.** Rounding can carry a number to the integer above it, and then the two
do not commute. `floor_round_le_iff` says when: the number is at most half a unit of its last digit
below that integer.
-/

namespace RiskOps.Lib

/-- `coefficient * 10 ^ exponent`. -/
structure Decimal where
  coefficient : Nat
  exponent : Int
  deriving DecidableEq, Repr

/-- The quotient that is nearest, the even one of two. -/
def roundHalfEven (c m : Nat) : Nat :=
  if 2 * (c % m) < m then c / m
  else if m < 2 * (c % m) then c / m + 1
  else if c / m % 2 = 0 then c / m
  else c / m + 1

namespace Decimal

def value (d : Decimal) : ℚ := d.coefficient * 10 ^ d.exponent

/-- The exact product with a number. -/
def scale (d : Decimal) (n : Nat) : Decimal := ⟨d.coefficient * n, d.exponent⟩

/-- How many digits more than `p` the coefficient has. -/
def excess (d : Decimal) (p : Nat) : Nat := Nat.log 10 d.coefficient + 1 - p

/-- The number with `p` digits. -/
def round (d : Decimal) (p : Nat) : Decimal :=
  ⟨roundHalfEven d.coefficient (10 ^ d.excess p), d.exponent + d.excess p⟩

/-- `int(…)`. -/
def toInt (d : Decimal) : Nat :=
  if 0 ≤ d.exponent then d.coefficient * 10 ^ d.exponent.toNat
  else d.coefficient / 10 ^ (-d.exponent).toNat

/-- The unit of the `p`-th digit of a number. -/
noncomputable def unit (v : ℚ) (p : Nat) : ℚ := 10 ^ (Int.log 10 v + 1 - p)

/-- The integer `q` is nearest to `x`, and even when another one is as near. -/
def Nearest (x : ℚ) (q : Int) : Prop := |x - q| ≤ 1 / 2 ∧ (|x - q| = 1 / 2 → Even q)

/-! ### The nearest integer -/

theorem nearest_self (q : Int) : Nearest q q := by
  constructor <;> norm_num

theorem nearest_roundHalfEven (c : Nat) {m : Nat} (hm : 0 < m) :
    Nearest (c / m) (roundHalfEven c m : Nat) := by
  have hm' : (0 : ℚ) < m := Nat.cast_pos.mpr hm
  have hdiv : (c : ℚ) / m = (c / m : Nat) + (c % m : Nat) / m := by
    rw [div_eq_iff hm'.ne', add_mul, div_mul_cancel₀ _ hm'.ne', mul_comm]
    exact_mod_cast (Nat.div_add_mod c m).symm
  have hfrac : (0 : ℚ) ≤ (c % m : Nat) / m := by positivity
  have hlt : c % m < m := Nat.mod_lt c hm
  rw [hdiv]
  unfold roundHalfEven
  generalize c / m = q, c % m = r at *
  split
  · -- below the half
    rename_i hlow
    have hhalf : (r : ℚ) / m < 1 / 2 := by
      rw [div_lt_div_iff₀ hm' two_pos, mul_comm, one_mul]
      exact_mod_cast hlow
    have habs : |(q : ℚ) + r / m - (q : Int)| =
        r / m := by
      rw [Int.cast_natCast, add_sub_cancel_left, abs_of_nonneg hfrac]
    rw [Nearest, habs]
    exact ⟨hhalf.le, fun htie => absurd htie hhalf.ne⟩
  · split
    · -- above it
      rename_i hhigh
      have hhalf : 1 / 2 < (r : ℚ) / m := by
        rw [div_lt_div_iff₀ two_pos hm', mul_comm _ (2 : ℚ), one_mul]
        exact_mod_cast hhigh
      have hone : (r : ℚ) / m < 1 := by
        rw [div_lt_one hm']
        exact_mod_cast hlt
      have habs : |(q : ℚ) + r / m - ((q + 1 : Nat) : Int)| =
          1 - r / m := by
        rw [abs_of_nonpos]
        · push_cast
          ring
        · push_cast
          linarith
      rw [Nearest, habs]
      exact ⟨by linarith, fun htie => by linarith⟩
    · -- in the middle the even one is taken
      rename_i hlow hhigh
      have hhalf : (r : ℚ) / m = 1 / 2 := by
        have heq : 2 * r = m := by omega
        rw [div_eq_div_iff hm'.ne' two_ne_zero, mul_comm, one_mul]
        exact_mod_cast heq
      rw [hhalf]
      split
      · rename_i heven
        refine ⟨by norm_num, fun _ => ?_⟩
        exact (Int.even_coe_nat _).mpr (Nat.even_iff.mpr heven)
      · rename_i hodd
        refine ⟨?_, fun _ => ?_⟩
        · rw [abs_le]
          constructor
          · push_cast
            linarith
          · push_cast
            linarith
        · exact (Int.even_coe_nat _).mpr (Nat.even_add_one.mpr fun h => hodd (Nat.even_iff.mp h))

/-- The nearest integer to what is at most a half below an even one is that. -/
theorem Nearest.eq_of_even {x : ℚ} {q m : Int} (h : Nearest x q) (hm : Even m) (hlt : x < m)
    (hle : (m : ℚ) - x ≤ 1 / 2) : q = m := by
  obtain ⟨hnear, htie⟩ := h
  obtain ⟨hlo, hhi⟩ := abs_le.mp hnear
  have hup : (q : ℚ) < m + 1 := by linarith
  have hdown : (m : ℚ) - 1 ≤ q := by linarith
  have hle' : q ≤ m := Int.lt_add_one_iff.mp (by exact_mod_cast hup)
  have hge' : m - 1 ≤ q := by exact_mod_cast hdown
  rcases eq_or_lt_of_le hle' with heq | hlt'
  · exact heq
  · -- the tie between `m - 1` and `m` goes to `m`
    have hq : q = m - 1 := by omega
    subst hq
    have hhalf : |x - ((m - 1 : Int) : ℚ)| = 1 / 2 := by
      push_cast at hnear hlo hhi ⊢
      rw [abs_of_nonneg (by linarith)]
      linarith
    have heven := htie hhalf
    rw [Int.even_sub_one] at heven
    exact absurd hm heven

/-! ### Rounding -/

variable {d : Decimal} {p : Nat}

theorem value_scale (d : Decimal) (n : Nat) : (d.scale n).value = d.value * n := by
  rw [scale, value, value, Nat.cast_mul]
  ring

theorem value_pos (h : 0 < d.coefficient) : 0 < d.value := by
  have hc : (0 : ℚ) < d.coefficient := Nat.cast_pos.mpr h
  unfold value
  positivity

theorem log_value (h : 0 < d.coefficient) :
    Int.log 10 d.value = Nat.log 10 d.coefficient + d.exponent := by
  have hlo : ((10 ^ Nat.log 10 d.coefficient : Nat) : ℚ) ≤ d.coefficient :=
    Nat.cast_le.mpr (Nat.pow_log_le_self 10 h.ne')
  have hhi : (d.coefficient : ℚ) < ((10 ^ (Nat.log 10 d.coefficient + 1) : Nat) : ℚ) :=
    Nat.cast_lt.mpr (Nat.lt_pow_succ_log_self (by decide) _)
  have hpos : (0 : ℚ) < 10 ^ d.exponent := by positivity
  apply le_antisymm
  · refine Int.lt_add_one_iff.mp ((Int.lt_zpow_iff_log_lt (by decide) (value_pos h)).mp ?_)
    have hsplit : ((10 : Nat) : ℚ) ^ ((Nat.log 10 d.coefficient : Int) + d.exponent + 1) =
        ((10 ^ (Nat.log 10 d.coefficient + 1) : Nat) : ℚ) * 10 ^ d.exponent := by
      rw [add_right_comm, zpow_add₀ (by norm_num)]
      norm_cast
    rw [hsplit]
    exact mul_lt_mul_of_pos_right hhi hpos
  · refine (Int.zpow_le_iff_le_log (by decide) (value_pos h)).mp ?_
    have hsplit : ((10 : Nat) : ℚ) ^ ((Nat.log 10 d.coefficient : Int) + d.exponent) =
        ((10 ^ Nat.log 10 d.coefficient : Nat) : ℚ) * 10 ^ d.exponent := by
      rw [zpow_add₀ (by norm_num)]
      norm_cast
    rw [hsplit]
    exact mul_le_mul_of_nonneg_right hlo hpos.le

theorem unit_value (h : 0 < d.coefficient) :
    unit d.value p = 10 ^ (Nat.log 10 d.coefficient + 1 - p + d.exponent : Int) := by
  rw [unit, log_value h]
  congr 1
  ring

theorem unit_pos (v : ℚ) (p : Nat) : 0 < unit v p := by
  unfold unit
  positivity

/-- **A rounded number** is the nearest multiple of the unit of its last digit. -/
theorem round_nearest (h : 0 < d.coefficient) :
    ∃ q : Nat, (d.round p).value = q * unit d.value p ∧ Nearest (d.value / unit d.value p) q := by
  rw [unit_value h]
  by_cases hp : Nat.log 10 d.coefficient + 1 ≤ p
  · -- there are not too many digits
    obtain ⟨k, rfl⟩ := Nat.exists_eq_add_of_le hp
    have hnone : d.excess (Nat.log 10 d.coefficient + 1 + k) = 0 := by unfold excess; omega
    have hsame : (d.round (Nat.log 10 d.coefficient + 1 + k)).value = d.value := by
      rw [round, hnone, roundHalfEven, if_pos (by rw [pow_zero, Nat.mod_one]; decide), pow_zero,
        Nat.div_one, value, value]
      simp
    have hunit : (10 : ℚ) ^ ((Nat.log 10 d.coefficient : Int) + 1 -
        (Nat.log 10 d.coefficient + 1 + k : Nat) + d.exponent) = 10 ^ d.exponent / 10 ^ k := by
      rw [show (Nat.log 10 d.coefficient : Int) + 1 - (Nat.log 10 d.coefficient + 1 + k : Nat) +
        d.exponent = d.exponent - k by push_cast; ring, zpow_sub₀ (by norm_num), zpow_natCast]
    have hdiv : d.value / (10 ^ d.exponent / 10 ^ k) = ((d.coefficient * 10 ^ k : Nat) : Int) := by
      have hpos : (10 : ℚ) ^ d.exponent ≠ 0 := by positivity
      rw [value]
      push_cast
      field_simp
    refine ⟨d.coefficient * 10 ^ k, ?_, ?_⟩
    · rw [hsame, hunit, ← div_eq_iff (by positivity), hdiv, Int.cast_natCast]
    · rw [hunit, hdiv]
      exact nearest_self _
  · obtain ⟨k, hk⟩ : ∃ k, Nat.log 10 d.coefficient + 1 = p + k :=
      Nat.exists_eq_add_of_le (Nat.le_of_not_le hp)
    have hexcess : d.excess p = k := by unfold excess; omega
    have hunit : (Nat.log 10 d.coefficient : Int) + 1 - p + d.exponent = d.exponent + k := by omega
    rw [hunit, round, hexcess]
    refine ⟨roundHalfEven d.coefficient (10 ^ k), rfl, ?_⟩
    have hdiv : d.value / 10 ^ (d.exponent + k) = d.coefficient / (10 ^ k : Nat) := by
      have hpos : (10 : ℚ) ^ d.exponent ≠ 0 := by positivity
      rw [value, zpow_add₀ (by norm_num), zpow_natCast]
      push_cast
      field_simp
    rw [hdiv]
    exact nearest_roundHalfEven _ (by positivity)

/-- **Truncation.** -/
theorem toInt_eq_floor (d : Decimal) : (d.toInt : Int) = ⌊d.value⌋ := by
  unfold toInt value
  split
  · rename_i hnonneg
    obtain ⟨k, hk⟩ := Int.eq_ofNat_of_zero_le hnonneg
    rw [hk, Int.toNat_natCast, zpow_natCast]
    norm_cast
  · rename_i hneg
    obtain ⟨k, hk⟩ := Int.eq_ofNat_of_zero_le (Int.le_of_lt (Int.neg_pos.mpr (not_le.mp hneg)))
    rw [hk, Int.toNat_natCast, Int.eq_neg_comm.mp hk.symm, zpow_neg, zpow_natCast, ← div_eq_mul_inv]
    norm_cast

theorem unit_of_le {v : ℚ} (h : unit v p ≤ 1 / 10) :
    ∃ k : Nat, unit v p * (10 ^ (k + 1) : Nat) = 1 := by
  have hle : Int.log 10 v + 1 - p ≤ -1 := by
    refine (zpow_le_zpow_iff_right₀ (by norm_num : (1 : ℚ) < 10)).mp ?_
    rw [zpow_neg_one, ← one_div]
    exact h
  obtain ⟨k, hk⟩ := Int.le.dest hle
  refine ⟨k, ?_⟩
  rw [unit, show Int.log 10 v + 1 - p = -((k + 1 : Nat) : Int) by push_cast; omega, zpow_neg,
    zpow_natCast, Nat.cast_pow]
  exact inv_mul_cancel₀ (by positivity)

/-- **Rounding against truncation.** Where the digits that are left include one behind the point,
rounding carries a number to another integer exactly when it is at most half a unit of the last
digit below it. -/
theorem floor_round_le_iff (h : 0 < d.coefficient) (hunit : unit d.value p ≤ 1 / 10) :
    ⌊(d.round p).value⌋ ≤ ⌊d.value⌋ ↔ unit d.value p / 2 < ⌊d.value⌋ + 1 - d.value := by
  obtain ⟨q, hq, hnearest⟩ := round_nearest (p := p) h
  obtain ⟨k, hk⟩ := unit_of_le hunit
  have hpos := unit_pos d.value p
  have hlt := Int.lt_floor_add_one d.value
  generalize unit d.value p = u at *
  generalize ⌊d.value⌋ = n at *
  rw [← Int.lt_add_one_iff, Int.floor_lt, hq]
  constructor
  · intro hround
    by_contra hclose
    -- the next integer is an even multiple of the unit
    have heven : Even ((n + 1) * (10 ^ (k + 1) : Nat)) :=
      ((Int.even_coe_nat _).mpr (Nat.even_pow.mpr ⟨by decide, k.succ_ne_zero⟩)).mul_left _
    have hgrid : (((n + 1) * (10 ^ (k + 1) : Nat) : Int) : ℚ) * u = n + 1 := by
      push_cast at hk ⊢
      rw [mul_assoc, mul_comm _ u, hk, mul_one]
    have heq := hnearest.eq_of_even heven
      (by rw [div_lt_iff₀ hpos, hgrid]; exact hlt)
      (by rw [sub_le_iff_le_add, ← mul_le_mul_iff_of_pos_right hpos, hgrid, add_mul,
            div_mul_cancel₀ _ hpos.ne']; linarith)
    have hcast : (q : ℚ) = (((n + 1) * (10 ^ (k + 1) : Nat) : Int) : ℚ) := by
      rw [← heq, Int.cast_natCast]
    rw [hcast, hgrid] at hround
    push_cast at hround
    exact lt_irrefl _ hround
  · intro hfar
    have hle := (abs_le.mp hnearest.1).1
    rw [Int.cast_natCast] at hle
    have hnear : (q : ℚ) ≤ d.value / u + 1 / 2 := by linarith
    have hmul : (q : ℚ) * u ≤ d.value + u / 2 :=
      calc (q : ℚ) * u ≤ (d.value / u + 1 / 2) * u := mul_le_mul_of_nonneg_right hnear hpos.le
        _ = d.value + u / 2 := by rw [add_mul, div_mul_cancel₀ _ hpos.ne']; ring
    push_cast
    linarith

/-- A rounded number keeps the size of its first digit. -/
theorem le_value_round (h : 0 < d.coefficient) :
    (10 ^ p : Nat) * unit d.value (p + 1) ≤ (d.round (p + 1)).value := by
  obtain ⟨q, hq, hnearest⟩ := round_nearest (p := p + 1) h
  have hpos := unit_pos d.value (p + 1)
  have hfirst : ((10 ^ p : Nat) : ℚ) * unit d.value (p + 1) ≤ d.value := by
    refine le_trans (le_of_eq ?_) (Int.zpow_log_le_self (b := 10) (by decide) (value_pos h))
    rw [unit, Nat.cast_pow, ← zpow_natCast, Nat.cast_ofNat, ← zpow_add₀ (by norm_num)]
    congr 1
    push_cast
    ring
  have hle : (10 ^ p : Nat) ≤ q := by
    have hnear := (abs_le.mp hnearest.1).2
    have hdiv := (le_div_iff₀ hpos).mpr hfirst
    rw [Int.cast_natCast] at hnear
    have hlt : ((10 ^ p : Nat) : ℚ) < (q + 1 : Nat) := by
      rw [Nat.cast_succ]
      linarith
    exact Nat.lt_succ_iff.mp (Nat.cast_lt.mp hlt)
  rw [hq]
  exact mul_le_mul_of_nonneg_right (Nat.cast_le.mpr hle) hpos.le

/-- A rounded number with fewer digits before the point has one behind it. -/
theorem unit_le_of_lt (h : 0 < d.coefficient) (hlt : (d.round (p + 1)).toInt < 10 ^ p) :
    unit d.value (p + 1) ≤ 1 / 10 := by
  by_contra hgt
  have hone : 1 ≤ unit d.value (p + 1) := by
    rw [unit, not_le, one_div, ← zpow_neg_one, zpow_lt_zpow_iff_right₀ (by norm_num)] at hgt
    exact one_le_zpow₀ (by norm_num) (by omega)
  have hvalue : ((10 ^ p : Nat) : ℚ) ≤ (d.round (p + 1)).value :=
    (le_mul_of_one_le_right (Nat.cast_nonneg _) hone).trans (le_value_round h)
  have hfloor : ((10 ^ p : Nat) : Int) ≤ (d.round (p + 1)).toInt := by
    rw [toInt_eq_floor, Int.le_floor]
    exact_mod_cast hvalue
  exact absurd (Nat.cast_le.mp hfloor) (not_le.mpr hlt)

/-! ### Operations -/

/-- The result of an operation whose exact value is `x ≥ 0`, in a context of precision `p` with the
least exponent `etiny`. -/
def roundTo (p : Nat) (etiny : Int) (x : ℚ) : ℚ :=
  let unit : ℚ := 10 ^ max (Int.log 10 x + 1 - p) etiny
  roundHalfEven (x / unit).num.toNat (x / unit).den * unit

theorem roundHalfEven_mul_le (c m : Nat) : roundHalfEven c m * m ≤ 2 * c := by
  have hsplit := Nat.div_add_mod' c m
  unfold roundHalfEven
  split
  · omega
  · split
    · rw [Nat.add_mul]
      omega
    · split
      · omega
      · rw [Nat.add_mul]
        omega

/-- Rounding at most doubles. -/
theorem roundTo_range {p : Nat} {etiny : Int} {x : ℚ} (h : 0 ≤ x) :
    0 ≤ roundTo p etiny x ∧ roundTo p etiny x ≤ 2 * x := by
  unfold roundTo
  generalize hunit : (10 : ℚ) ^ max (Int.log 10 x + 1 - p) etiny = unit
  have hpos : 0 < unit := by
    rw [← hunit]
    positivity
  have hnum : ((x / unit).num.toNat : ℚ) = (x / unit).num := by
    exact_mod_cast Int.toNat_of_nonneg (Rat.num_nonneg.mpr (by positivity))
  have hden : (0 : ℚ) < (x / unit).den := Nat.cast_pos.mpr (x / unit).den_pos
  have hle : (roundHalfEven (x / unit).num.toNat (x / unit).den : ℚ) * (x / unit).den ≤
      2 * (x / unit).num := by
    rw [← hnum]
    exact_mod_cast roundHalfEven_mul_le _ _
  have hquotient : (roundHalfEven (x / unit).num.toNat (x / unit).den : ℚ) ≤ 2 * (x / unit) := by
    calc (roundHalfEven (x / unit).num.toNat (x / unit).den : ℚ)
        ≤ 2 * (x / unit).num / (x / unit).den := (le_div_iff₀ hden).mpr hle
      _ = 2 * (x / unit) := by rw [mul_div_assoc, Rat.num_div_den]
  refine ⟨by positivity, (mul_le_mul_of_nonneg_right hquotient hpos.le).trans_eq ?_⟩
  rw [mul_assoc, div_mul_cancel₀ _ hpos.ne']

end Decimal

end RiskOps.Lib
