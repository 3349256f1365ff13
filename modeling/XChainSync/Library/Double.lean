import Mathlib

/-!
# Rounding to a double

Round to nearest with ties to even, at 53 bits and exponents from -1074. A value too large for a
double is none.
-/

namespace Double
set_option autoImplicit false

def roundEven (q : ℚ) : Int :=
  let below := ⌊q⌋
  let rest := q - below
  if rest < 1/2 then below
  else if 1/2 < rest then below + 1
  else if below % 2 = 0 then below
  else below + 1

/-- The exponent of the last bit kept. -/
def lastBit (q : ℚ) : Int := max (Int.log 2 |q| - 52) (-1074)

def round (q : ℚ) : Option ℚ :=
  let rounded : ℚ := roundEven (q / 2 ^ lastBit q) * 2 ^ lastBit q
  if |rounded| < 2 ^ 1024 then some rounded else none

/-- `Number.MAX_SAFE_INTEGER`. -/
def MAX_SAFE_INTEGER : Int := 2 ^ 53 - 1

/-- `Number.isSafeInteger`. -/
def isSafeInteger : Option ℚ → Bool
  | none => false
  | some q => q.den = 1 ∧ |q.num| ≤ MAX_SAFE_INTEGER

theorem roundEven_intCast (n : Int) : roundEven n = n := by
  simp [roundEven]

theorem le_roundEven {q : ℚ} {m : Int} (h : (m : ℚ) ≤ q) : m ≤ roundEven q := by
  have hfloor : m ≤ ⌊q⌋ := Int.le_floor.mpr h
  unfold roundEven
  dsimp only
  split_ifs
  all_goals omega

theorem roundEven_le {q : ℚ} {m : Int} (h : q ≤ m) : roundEven q ≤ m := by
  have hfloor : ⌊q⌋ ≤ m := by
    have := Int.floor_le q
    exact_mod_cast this.trans h
  by_cases heq : ⌊q⌋ = m
  · have hq : q = m := by
      have := Int.floor_le q
      rw [heq] at this
      exact le_antisymm h this
    rw [hq, roundEven_intCast]
  · unfold roundEven
    dsimp only
    split_ifs
    all_goals omega

/-- Integers below 2^53 are doubles. -/
theorem round_intCast {n : Int} (h : |n| ≤ MAX_SAFE_INTEGER) : round n = some (n : ℚ) := by
  have hlt : |(n : ℚ)| < 2 ^ 53 := by
    have : |n| < 2 ^ 53 := by
      unfold MAX_SAFE_INTEGER at h
      omega
    exact_mod_cast this
  have hlast : lastBit n ≤ 0 := by
    have hlog : Int.log 2 |(n : ℚ)| ≤ 52 := by
      by_cases hz : n = 0
      · simp [hz]
      · have hpos : 0 < |(n : ℚ)| := by simpa using hz
        have := (Int.lt_zpow_iff_log_lt (x := 53) Nat.one_lt_two hpos).mp (by exact_mod_cast hlt)
        omega
    unfold lastBit
    omega
  obtain ⟨k, hk⟩ := Int.eq_ofNat_of_zero_le (neg_nonneg.mpr hlast)
  have hlastBit : lastBit n = -(k : Int) := by omega
  have hscaled : (n : ℚ) / 2 ^ lastBit n = ((n * 2 ^ k : Int) : ℚ) := by
    rw [hlastBit, zpow_neg, div_inv_eq_mul, zpow_natCast]
    push_cast
    rfl
  have hrounded : (roundEven ((n : ℚ) / 2 ^ lastBit n) : ℚ) * 2 ^ lastBit n = n := by
    rw [hscaled, roundEven_intCast, ← hscaled]
    exact div_mul_cancel₀ _ (zpow_ne_zero _ (by norm_num))
  have hfits : |(n : ℚ)| < 2 ^ 1024 := hlt.trans (pow_lt_pow_right₀ (by norm_num) (by norm_num))
  unfold round
  simp only [hrounded, if_pos hfits]

/-- A number from 2^53 on rounds to none below it. -/
theorem le_abs_of_round {n : Int} (h : MAX_SAFE_INTEGER < |n|) {r : ℚ} (hr : round n = some r) :
    2 ^ 53 ≤ |r| := by
  have hge : (2 : ℚ) ^ 53 ≤ |(n : ℚ)| := by
    have : 2 ^ 53 ≤ |n| := by
      unfold MAX_SAFE_INTEGER at h
      omega
    exact_mod_cast this
  have hpos : 0 < |(n : ℚ)| := lt_of_lt_of_le (by norm_num) hge
  have hlog : 53 ≤ Int.log 2 |(n : ℚ)| :=
    (Int.zpow_le_iff_le_log (x := 53) Nat.one_lt_two hpos).mp (by exact_mod_cast hge)
  have hlast : lastBit n = Int.log 2 |(n : ℚ)| - 52 := by
    unfold lastBit
    omega
  have hunit : (2 : ℚ) ≤ 2 ^ lastBit n := by
    have := zpow_le_zpow_right₀ (a := (2 : ℚ)) (by norm_num) (show 1 ≤ lastBit n by omega)
    simpa using this
  have hunitPos : (0 : ℚ) < 2 ^ lastBit n := by linarith
  have hscaled : (2 : ℚ) ^ 52 ≤ |(n : ℚ) / 2 ^ lastBit n| := by
    rw [abs_div, abs_of_pos hunitPos, le_div_iff₀ hunitPos, hlast]
    have hself := Int.zpow_log_le_self (b := 2) Nat.one_lt_two hpos
    rw [zpow_sub₀ (by norm_num)]
    have hcancel : (2 : ℚ) ^ 52 * (2 ^ Int.log 2 |(n : ℚ)| / 2 ^ (52 : Int)) =
        2 ^ Int.log 2 |(n : ℚ)| := by
      rw [show (2 : ℚ) ^ (52 : Int) = 2 ^ 52 by norm_cast]
      field_simp
    rw [hcancel]
    exact_mod_cast hself
  have hrounded : 2 ^ 52 ≤ |roundEven ((n : ℚ) / 2 ^ lastBit n)| := by
    rcases le_abs.mp hscaled with hq | hq
    · have := le_roundEven (m := 2 ^ 52) (by exact_mod_cast hq)
      exact this.trans (le_abs_self _)
    · have hneg : (n : ℚ) / 2 ^ lastBit n ≤ ((-2 ^ 52 : Int) : ℚ) := by
        push_cast
        linarith
      have := roundEven_le hneg
      exact le_abs.mpr (Or.inr (by omega))
  unfold round at hr
  dsimp only at hr
  split at hr
  · rw [← Option.some.inj hr, abs_mul, abs_of_pos hunitPos]
    have hcast : (2 : ℚ) ^ 52 ≤ |(roundEven ((n : ℚ) / 2 ^ lastBit n) : ℚ)| := by
      exact_mod_cast hrounded
    calc (2 : ℚ) ^ 53 = 2 ^ 52 * 2 := by norm_num
      _ ≤ |(roundEven ((n : ℚ) / 2 ^ lastBit n) : ℚ)| * 2 ^ lastBit n := by gcongr
  · cases hr

/-- An integer rounds to a safe integer exactly where it is one. -/
theorem isSafeInteger_round (n : Int) :
    isSafeInteger (round n) = decide (|n| ≤ MAX_SAFE_INTEGER) := by
  by_cases h : |n| ≤ MAX_SAFE_INTEGER
  · rw [round_intCast h]
    simp [isSafeInteger, h]
  · rw [decide_eq_false h]
    cases hr : round n with
    | none => rfl
    | some r =>
      have hlarge := le_abs_of_round (lt_of_not_ge h) hr
      unfold isSafeInteger
      rw [decide_eq_false_iff_not]
      rintro ⟨hden, hnum⟩
      have hint : r = r.num := (Rat.den_eq_one_iff r).mp hden |>.symm
      rw [hint] at hlarge
      have : (2 : Int) ^ 53 ≤ |r.num| := by exact_mod_cast hlarge
      unfold MAX_SAFE_INTEGER at hnum
      omega

end Double
