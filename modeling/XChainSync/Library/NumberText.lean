import Mathlib
import XChainSync.Library.JsonText

/-!
# The text of a double

`Number.prototype.toString` for a finite double: the fewest decimal digits that round to the number,
the nearest of them, laid out with a point or with an exponent. The text reads back as the number.
-/

namespace NumberText
open JsonText
set_option autoImplicit false

structure Decimal where
  digits : Nat
  exponent : Int

def Decimal.value (d : Decimal) : ℚ := d.digits * 10 ^ d.exponent

/-- The decimals of so many digits on both sides of a number, the nearer first. -/
def candidates (q : ℚ) (count : Nat) : List Decimal :=
  let exponent := Int.log 10 q + 1 - count
  let scaled := q * 10 ^ (-exponent)
  let near := (Double.roundEven scaled).toNat
  let far := if (near : ℚ) ≤ scaled then near + 1 else near - 1
  [near, far].map fun digits =>
    if digits = 10 ^ count then ⟨10 ^ (count - 1), exponent + 1⟩ else ⟨digits, exponent⟩

/-- The decimals of the fewest digits come first. No double has as many digits as are tried. -/
def shortest (q : ℚ) : Option Decimal :=
  (List.range 2100).findSome? fun i =>
    (candidates q (i + 1)).find? fun d => 0 < d.digits ∧ Double.round d.value = some q

def exponentText (e : Int) : CodeUnits :=
  0x65 :: (if 0 ≤ e then 0x2B else 0x2D) :: natText e.natAbs

def Decimal.text (d : Decimal) : CodeUnits :=
  let ds := natText d.digits
  let k : Int := ds.length
  let n := d.exponent + k
  if k ≤ n ∧ n ≤ 21 then ds ++ List.replicate (n - k).toNat 0x30
  else if 0 < n ∧ n ≤ 21 then ds.take n.toNat ++ 0x2E :: ds.drop n.toNat
  else if -6 < n ∧ n ≤ 0 then 0x30 :: 0x2E :: (List.replicate (-n).toNat 0x30 ++ ds)
  else if k = 1 then ds ++ exponentText (n - 1)
  else ds.take 1 ++ 0x2E :: (ds.drop 1 ++ exponentText (n - 1))

/-- `Number::toString` of a finite number. -/
def numberText (q : ℚ) : CodeUnits :=
  if q = 0 then natText 0
  else if q < 0 then 0x2D :: ((shortest (-q)).elim [] Decimal.text)
  else (shortest q).elim [] Decimal.text

/-- A number value. -/
inductive Number where
  | NaN
  | infinity (negative : Bool)
  | negZero
  | finite (q : ℚ) (double : Double.round q = some q)

/-- `String` of a number. -/
def Number.text : Number → CodeUnits
  | NaN => ascii "NaN"
  | infinity negative => if negative then ascii "-Infinity" else ascii "Infinity"
  | negZero => natText 0
  | finite q _ => numberText q

/-! ### A decimal is found -/

theorem candidates_exact {q : ℚ} {count : Nat} {s : Nat}
    (hs : q * 10 ^ (-(Int.log 10 q + 1 - count)) = s) :
    ⟨s, Int.log 10 q + 1 - count⟩ ∈ candidates q count := by
  have hround : Double.roundEven (s : ℚ) = s := by
    exact_mod_cast Double.roundEven_intCast s
  have hlt : s < 10 ^ count := by
    have hq' : q < (10 : ℚ) ^ (Int.log 10 q + 1) := by
      exact_mod_cast Int.lt_zpow_succ_log_self (b := 10) (by decide) q
    have : (s : ℚ) < 10 ^ count := by
      rw [← hs, neg_sub, zpow_sub₀ (by norm_num), zpow_natCast, mul_div_assoc', div_lt_iff₀ (by positivity),
        mul_comm]
      gcongr
    exact_mod_cast this
  simp only [candidates, hs, hround, Int.toNat_natCast, List.map_cons, if_neg hlt.ne]
  exact List.mem_cons_self

theorem integer_of_round {q r : ℚ} (h : Double.round q = some r) : ∃ m : Int, r * 2 ^ 1074 = m := by
  rw [Double.round] at h
  split at h
  · obtain ⟨e, he⟩ := Int.eq_ofNat_of_zero_le (show 0 ≤ Double.lastBit q + (1074 : ℕ) by
      unfold Double.lastBit
      omega)
    refine ⟨Double.roundEven (q / 2 ^ Double.lastBit q) * 2 ^ e, ?_⟩
    rw [← Option.some.inj h, mul_assoc, ← zpow_natCast 2 1074, ← zpow_add₀ (by norm_num), he, zpow_natCast]
    push_cast
    rfl
  · cases h

theorem lt_of_round {q r : ℚ} (h : Double.round q = some r) : |r| < 2 ^ 1024 := by
  rw [Double.round] at h
  split at h
  · rename_i hlt
    rwa [← Option.some.inj h]
  · cases h

/-- A double times a high power of ten is an integer. -/
theorem scaled_integer {q : ℚ} (hq : 0 < q) (h : Double.round q = some q) :
    ∃ s : Nat, 0 < s ∧ q * 10 ^ 1074 = s := by
  obtain ⟨m, hm⟩ := integer_of_round h
  have hten : (10 : ℚ) ^ 1074 = 2 ^ 1074 * 5 ^ 1074 := by
    rw [← mul_pow]
    norm_num only
  have hint : q * 10 ^ 1074 = ((m * 5 ^ 1074 : Int) : ℚ) := by
    rw [hten, ← mul_assoc, hm, Int.cast_mul, Int.cast_pow, Int.cast_ofNat]
  have hpos : 0 < m * 5 ^ 1074 := by
    have : (0 : ℚ) < ((m * 5 ^ 1074 : Int) : ℚ) := by
      rw [← hint]
      exact mul_pos hq (pow_pos (by norm_num) _)
    exact Int.cast_pos.mp this
  obtain ⟨s, hs⟩ := Int.eq_ofNat_of_zero_le hpos.le
  refine ⟨s, by omega, ?_⟩
  rw [hint, hs, Int.cast_natCast]

theorem log_lt_of_round {q : ℚ} (hq : 0 < q) (h : Double.round q = some q) : Int.log 10 q < (1024 : ℕ) := by
  have hlt := lt_of_round h
  rw [abs_of_pos hq] at hlt
  rw [← Int.lt_zpow_iff_log_lt (by decide) hq, zpow_natCast]
  exact hlt.trans_le (pow_le_pow_left₀ (by norm_num) (by norm_num) 1024)

theorem le_log_of_round {q : ℚ} (hq : 0 < q) (h : Double.round q = some q) :
    -((1074 : ℕ) : Int) ≤ Int.log 10 q := by
  obtain ⟨s, hpos, hs⟩ := scaled_integer hq h
  rw [← Int.zpow_le_iff_le_log (by decide) hq, zpow_neg, zpow_natCast,
    inv_le_iff_one_le_mul₀ (pow_pos (by norm_num) _)]
  refine le_of_le_of_eq ?_ hs.symm
  exact_mod_cast hpos

/-- Of the decimals that are tried one is the number itself. -/
theorem shortest_isSome {q : ℚ} (hq : 0 < q) (h : Double.round q = some q) : (shortest q).isSome := by
  have hlog_lt := log_lt_of_round hq h
  have hlog_ge := le_log_of_round hq h
  obtain ⟨i, hi⟩ := Int.eq_ofNat_of_zero_le (show 0 ≤ Int.log 10 q + 1074 by omega)
  have hexponent : -(Int.log 10 q + 1 - ((i + 1 : Nat) : Int)) = ((1074 : Nat) : Int) := by
    push_cast
    omega
  obtain ⟨s, hpos, hs⟩ := scaled_integer hq h
  have hscaled : q * 10 ^ (-(Int.log 10 q + 1 - ((i + 1 : Nat) : Int))) = s := by
    rw [hexponent, zpow_natCast]
    exact hs
  have hmem := candidates_exact hscaled
  have hvalue : Decimal.value ⟨s, Int.log 10 q + 1 - ((i + 1 : Nat) : Int)⟩ = q := by
    rw [Decimal.value, ← hscaled, mul_assoc, ← zpow_add₀ (by norm_num), neg_add_cancel, zpow_zero, mul_one]
  rw [shortest, List.findSome?_isSome_iff]
  refine ⟨i, List.mem_range.mpr (by omega), ?_⟩
  rw [List.find?_isSome]
  refine ⟨_, hmem, ?_⟩
  rw [decide_eq_true_eq, hvalue]
  exact ⟨hpos, h⟩

theorem shortest_spec {q : ℚ} {d : Decimal} (h : shortest q = some d) :
    0 < d.digits ∧ Double.round d.value = some q := by
  obtain ⟨i, -, hi⟩ := List.exists_of_findSome?_eq_some h
  simpa using List.find?_some hi

/-! ### Reading a layout -/

def DigitUnits (ds : CodeUnits) : Prop := ∀ d ∈ ds, isDigit d = true

/-- What may follow a number: neither a digit nor a point nor an exponent. -/
def EndsNumber (rest : CodeUnits) : Prop :=
  ∀ c ∈ rest.head?, isDigit c = false ∧ c ≠ 0x2E ∧ c ≠ 0x65 ∧ c ≠ 0x45

theorem take_digits {ds rest : CodeUnits} (hds : DigitUnits ds)
    (hrest : ∀ c ∈ rest.head?, isDigit c = false) :
    (ds ++ rest).takeWhile isDigit = ds ∧ (ds ++ rest).dropWhile isDigit = rest := by
  have hend : rest.takeWhile isDigit = [] ∧ rest.dropWhile isDigit = rest := by
    cases rest with
    | nil => exact ⟨rfl, rfl⟩
    | cons c rest => simp [hrest c rfl]
  rw [List.takeWhile_append_of_pos hds, List.dropWhile_append_of_pos hds, hend.1, hend.2, List.append_nil]
  exact ⟨rfl, rfl⟩

theorem readDigits_append {ds rest : CodeUnits} (hds : DigitUnits ds) (hne : ds ≠ [])
    (hrest : ∀ c ∈ rest.head?, isDigit c = false) : readDigits (ds ++ rest) = some (ds, rest) := by
  obtain ⟨htake, hdrop⟩ := take_digits hds hrest
  rw [readDigits, htake, hdrop, if_neg]
  simpa using hne

/-- The digits before the point: no zero leads them, or zero is the only one. -/
def Whole (whole : CodeUnits) : Prop :=
  whole = [0x30] ∨ DigitUnits whole ∧ ∃ c ∈ whole.head?, c ≠ 0x30

theorem readInt_append {whole rest : CodeUnits} (hwhole : Whole whole)
    (hrest : ∀ c ∈ rest.head?, isDigit c = false) : readInt (whole ++ rest) = some (whole, rest) := by
  rcases hwhole with rfl | ⟨hdigits, c, hc, hne⟩
  · rfl
  · cases whole with
    | nil => cases hc
    | cons d ds =>
      obtain rfl := Option.some.inj hc
      have htail : DigitUnits ds := fun x hx => hdigits x (List.mem_cons_of_mem _ hx)
      obtain ⟨htake, hdrop⟩ := take_digits htail hrest
      rw [List.cons_append, readInt, if_neg hne, if_pos (hdigits d List.mem_cons_self), htake, hdrop]

def fractionText (fraction : CodeUnits) : CodeUnits := if fraction = [] then [] else 0x2E :: fraction

theorem readFraction_append {fraction rest : CodeUnits} (hdigits : DigitUnits fraction)
    (hrest : ∀ c ∈ rest.head?, isDigit c = false ∧ c ≠ 0x2E) :
    readFraction (fractionText fraction ++ rest) = some (fraction, rest) := by
  rw [fractionText]
  split
  · rename_i hnil
    rw [hnil, List.nil_append]
    cases rest with
    | nil => rfl
    | cons c rest =>
      have hc := (hrest c rfl).2
      unfold readFraction
      split
      · rename_i heq
        exact absurd (List.cons.inj heq).1 hc
      · rfl
  · rename_i hne
    exact readDigits_append hdigits hne fun c hc => (hrest c hc).1

theorem digitUnits_natText (n : Nat) : DigitUnits (natText n) := fun _ hd => isDigit_of_mem_natText hd

theorem natText_ne_nil (n : Nat) : natText n ≠ [] := by
  simp [natText, Nat.toDigits_ne_nil]

theorem readExponent_of_endsNumber {rest : CodeUnits} (h : EndsNumber rest) :
    readExponent rest = some (0, rest) := by
  cases rest with
  | nil => rfl
  | cons c rest =>
    have hc : ¬ (c = 0x65 ∨ c = 0x45) := not_or.mpr (h c rfl).2.2
    simp only [readExponent, if_neg hc]

theorem readExponent_append (e : Int) {rest : CodeUnits} (h : EndsNumber rest) :
    readExponent (exponentText e ++ rest) = some (e, rest) := by
  have hread : readDigits (natText e.natAbs ++ rest) = some (natText e.natAbs, rest) :=
    readDigits_append (digitUnits_natText _) (natText_ne_nil _) fun c hc => (h c hc).1
  rw [exponentText]
  split
  · rename_i hpos
    rw [List.cons_append, List.cons_append, readExponent, if_pos (.inl rfl)]
    simp only [hread, Option.map_some, digitsValue_natText]
    rw [Int.natAbs_of_nonneg hpos]
  · rename_i hneg
    rw [List.cons_append, List.cons_append, readExponent, if_pos (.inl rfl)]
    simp only [hread, Option.map_some, digitsValue_natText]
    rw [show -(e.natAbs : Int) = e by omega]

/-- A text of digits, a point where digits follow it, and an exponent where there is one. -/
theorem readMagnitude_layout {whole fraction rest : CodeUnits} (exponent : Option Int)
    (hwhole : Whole whole) (hfraction : DigitUnits fraction) (h : EndsNumber rest) :
    readMagnitude (whole ++ (fractionText fraction ++ (exponent.elim [] exponentText ++ rest))) =
      some ((digitsValue (whole ++ fraction) : ℚ) * 10 ^ (exponent.getD 0 - fraction.length), rest) := by
  have hexponent : readExponent (exponent.elim [] exponentText ++ rest) = some (exponent.getD 0, rest) := by
    cases exponent with
    | none => exact readExponent_of_endsNumber h
    | some e => exact readExponent_append e h
  have hafter : ∀ c ∈ (exponent.elim [] exponentText ++ rest).head?, isDigit c = false ∧ c ≠ 0x2E := by
    cases exponent with
    | none => exact fun c hc => ⟨(h c hc).1, (h c hc).2.1⟩
    | some e =>
      intro c hc
      obtain rfl := Option.some.inj hc
      decide
  have hpoint : ∀ c ∈ (fractionText fraction ++ (exponent.elim [] exponentText ++ rest)).head?,
      isDigit c = false := by
    rw [fractionText]
    split
    · exact fun c hc => (hafter c hc).1
    · intro c hc
      obtain rfl := Option.some.inj hc
      decide
  rw [readMagnitude, readInt_append hwhole hpoint]
  simp only [Option.bind_eq_bind, Option.bind_some, readFraction_append hfraction hafter, hexponent,
    Option.pure_def]

theorem digitsValue_append_zeros (ds : CodeUnits) (n : Nat) :
    digitsValue (ds ++ List.replicate n 0x30) = digitsValue ds * 10 ^ n := by
  induction n with
  | zero => rw [List.replicate_zero, List.append_nil, Nat.pow_zero, Nat.mul_one]
  | succ n ih =>
    have hone (es : CodeUnits) : digitsValue (es ++ [0x30]) = 10 * digitsValue es := by
      rw [digitsValue, List.map_append, Nat.ofDigitChars_append]
      rfl
    rw [List.replicate_succ', ← List.append_assoc, hone, ih, Nat.pow_succ]
    ring

theorem digitsValue_zeros_append (n : Nat) (ds : CodeUnits) :
    digitsValue (List.replicate n 0x30 ++ ds) = digitsValue ds := by
  induction n with
  | zero => rfl
  | succ n ih =>
    rw [List.replicate_succ, List.cons_append, ← ih]
    rfl

theorem digitUnits_zeros (n : Nat) : DigitUnits (List.replicate n 0x30) := by
  intro d hd
  rw [List.eq_of_mem_replicate hd]
  decide

theorem DigitUnits.append {ds es : CodeUnits} (hds : DigitUnits ds) (hes : DigitUnits es) :
    DigitUnits (ds ++ es) :=
  fun d hd => (List.mem_append.mp hd).elim (hds d) (hes d)

/-- The text of a decimal reads as its value. -/
theorem readMagnitude_text {d : Decimal} (hd : 0 < d.digits) {rest : CodeUnits} (h : EndsNumber rest) :
    readMagnitude (d.text ++ rest) = some (d.value, rest) := by
  obtain ⟨c, cs, hds, hc⟩ := head_natText hd
  have hdigits := digitUnits_natText d.digits
  have hvalue := digitsValue_natText d.digits
  have hhead {whole tail : CodeUnits} (hwhole : whole ++ tail = natText d.digits) (hne : whole ≠ []) :
      Whole whole := by
    refine .inr ⟨fun x hx => hdigits x (hwhole ▸ List.mem_append_left _ hx), c, ?_, hc⟩
    obtain ⟨x, xs, rfl⟩ := List.exists_cons_of_ne_nil hne
    rw [hds, List.cons_append] at hwhole
    rw [(List.cons.inj hwhole).1]
    rfl
  have hlength : 0 < (natText d.digits).length := by
    rw [hds]
    exact Nat.succ_pos _
  -- a layout with these digits and the decimal's exponent
  have hlayout {whole fraction : CodeUnits} (exponent : Option Int)
      (hsplit : whole ++ fraction = natText d.digits) (hne : whole ≠ [])
      (he : exponent.getD 0 - fraction.length = d.exponent) :
      readMagnitude (whole ++ (fractionText fraction ++ (exponent.elim [] exponentText ++ rest))) =
        some (d.value, rest) := by
    have hfraction : DigitUnits fraction :=
      fun x hx => hdigits x (hsplit ▸ List.mem_append_right _ hx)
    rw [readMagnitude_layout exponent (hhead hsplit hne) hfraction h, hsplit, hvalue, he, Decimal.value]
  rw [Decimal.text]
  generalize hk : (natText d.digits).length = k at hlength
  generalize hn : d.exponent + (k : Int) = n
  split
  · -- all the digits stand before the point, and zeros behind them
    rename_i hcase
    have hwhole : Whole (natText d.digits ++ List.replicate (n - k).toNat 0x30) := by
      refine .inr ⟨hdigits.append (digitUnits_zeros _), c, ?_, hc⟩
      rw [hds]
      rfl
    have hread := @readMagnitude_layout _ [] _ none hwhole nofun h
    rw [fractionText, if_pos rfl, Option.elim_none, List.nil_append, List.nil_append, List.append_nil,
      digitsValue_append_zeros, hvalue] at hread
    rw [hread, Decimal.value]
    congr 2
    rw [Option.getD_none, List.length_nil, Nat.cast_zero, sub_zero, zpow_zero, mul_one, Nat.cast_mul,
      Nat.cast_pow, Nat.cast_ofNat, ← zpow_natCast]
    congr 2
    omega
  split
  · -- the point stands between the digits
    rename_i hcase hpoint
    have hdrop : ((natText d.digits).drop n.toNat).length = k - n.toNat := by
      rw [List.length_drop, hk]
    have hsome : (natText d.digits).drop n.toNat ≠ [] := by
      rw [← List.length_pos_iff_ne_nil, hdrop]
      omega
    have hread := hlayout none (List.take_append_drop n.toNat (natText d.digits))
      (by rw [hds]; simp; omega) (by rw [hdrop, Option.getD_none]; omega)
    rw [fractionText, if_neg hsome, Option.elim_none, List.nil_append] at hread
    rw [List.append_assoc]
    exact hread
  split
  · -- zeros stand between the point and the digits
    rename_i hcase hpoint hzeros
    have hfraction := (digitUnits_zeros (-n).toNat).append hdigits
    have hread := readMagnitude_layout none (.inl rfl) hfraction h
    have hsome : List.replicate (-n).toNat 0x30 ++ natText d.digits ≠ [] := by
      rw [hds]
      simp
    have hzero : digitsValue ([0x30] ++ (List.replicate (-n).toNat 0x30 ++ natText d.digits)) = d.digits := by
      have hall := digitsValue_zeros_append ((-n).toNat + 1) (natText d.digits)
      rw [hvalue, List.replicate_succ] at hall
      exact hall
    rw [fractionText, if_neg hsome, Option.elim_none, List.nil_append, hzero] at hread
    have hexponent : (none.getD 0 - (List.replicate (-n).toNat 0x30 ++ natText d.digits).length : Int) =
        d.exponent := by
      rw [Option.getD_none, List.length_append, List.length_replicate, hk]
      omega
    rw [hexponent] at hread
    exact hread
  split
  · -- one digit and an exponent
    rename_i hone
    have hread := hlayout (some (n - 1)) (List.append_nil (natText d.digits)) (natText_ne_nil _)
      (by rw [Option.getD_some, List.length_nil]; omega)
    rw [List.append_assoc]
    exact hread
  · -- a point behind the first digit and an exponent
    rename_i hmany
    have hdrop : ((natText d.digits).drop 1).length = k - 1 := by
      rw [List.length_drop, hk]
    have hsome : (natText d.digits).drop 1 ≠ [] := by
      rw [← List.length_pos_iff_ne_nil, hdrop]
      omega
    have hread := hlayout (some (n - 1)) (List.take_append_drop 1 (natText d.digits))
      (by rw [hds]; simp) (by rw [hdrop, Option.getD_some]; omega)
    rw [fractionText, if_neg hsome, Option.elim_some] at hread
    rw [List.append_assoc, List.cons_append, List.append_assoc]
    exact hread

/-! ### Reading a number -/

theorem roundEven_neg (q : ℚ) : Double.roundEven (-q) = -Double.roundEven q := by
  by_cases hint : (⌊q⌋ : ℚ) = q
  · rw [← hint, ← Int.cast_neg, Double.roundEven_intCast, Double.roundEven_intCast]
  · have hfloor : ⌊-q⌋ = -⌊q⌋ - 1 := by
      have hlt : (⌊q⌋ : ℚ) < q := lt_of_le_of_ne (Int.floor_le q) hint
      have hlt' := Int.lt_floor_add_one q
      rw [Int.floor_eq_iff]
      push_cast
      constructor <;> linarith
    have hrest : -q - (⌊-q⌋ : ℚ) = 1 - (q - ⌊q⌋) := by
      rw [hfloor]
      push_cast
      ring
    unfold Double.roundEven
    dsimp only
    rw [hrest, hfloor]
    split_ifs <;> first | omega | linarith

theorem round_neg (q : ℚ) : Double.round (-q) = (Double.round q).map fun r => -r := by
  have hlast : Double.lastBit (-q) = Double.lastBit q := by
    rw [Double.lastBit, Double.lastBit, abs_neg]
  unfold Double.round
  dsimp only
  rw [hlast, neg_div, roundEven_neg, Int.cast_neg, neg_mul, abs_neg]
  split <;> rfl

theorem head_text {d : Decimal} (hd : 0 < d.digits) : ∃ c cs, d.text = c :: cs ∧ isDigit c := by
  obtain ⟨c, cs, hds, -⟩ := head_natText hd
  have hc : isDigit c = true := digitUnits_natText d.digits c (hds ▸ List.mem_cons_self)
  rw [Decimal.text]
  split
  · rw [hds]
    exact ⟨c, _, rfl, hc⟩
  split
  · rename_i hpoint
    obtain ⟨n, hn⟩ := Int.eq_succ_of_zero_lt hpoint.1
    rw [hn, hds]
    exact ⟨c, _, rfl, hc⟩
  split
  · exact ⟨0x30, _, rfl, by decide⟩
  split
  · rw [hds]
    exact ⟨c, _, rfl, hc⟩
  · rw [hds]
    exact ⟨c, _, rfl, hc⟩

theorem readNumber_unsigned {cs rest : CodeUnits} {q : ℚ}
    (hhead : ∃ c tail, cs = c :: tail ∧ isDigit c) (h : readMagnitude (cs ++ rest) = some (q, rest)) :
    readNumber (cs ++ rest) = some (Double.round q, rest) := by
  obtain ⟨c, tail, rfl, hc⟩ := hhead
  rw [List.cons_append] at h ⊢
  rw [readNumber]
  · rw [h, Option.map_some]
  · rintro tail' heq
    rw [(List.cons.inj heq).1] at hc
    exact absurd hc (by decide)

/-- The text of a double reads back as it. -/
theorem readNumber_numberText {q : ℚ} (hq : Double.round q = some q) {rest : CodeUnits} (h : EndsNumber rest) :
    readNumber (numberText q ++ rest) = some (some q, rest) := by
  rw [numberText]
  split
  · rename_i hzero
    have hread : readMagnitude (natText 0 ++ rest) = some (0, rest) := by
      have hlayout := @readMagnitude_layout _ [] _ none (.inl rfl) nofun h
      have hzeros : digitsValue ([0x30] ++ []) = 0 := by decide
      rw [hzeros, Nat.cast_zero, zero_mul] at hlayout
      exact hlayout
    have hhead : ∃ c tail, natText 0 = c :: tail ∧ isDigit c := ⟨0x30, [], rfl, by decide⟩
    rw [readNumber_unsigned hhead hread, ← hzero, hq]
  split
  · rename_i hneg
    have hround : Double.round (-q) = some (-q) := by
      rw [round_neg, hq, Option.map_some]
    obtain ⟨d, hd⟩ := Option.isSome_iff_exists.mp (shortest_isSome (neg_pos.mpr hneg) hround)
    obtain ⟨hpos, hvalue⟩ := shortest_spec hd
    rw [hd, Option.elim_some, List.cons_append, readNumber, readMagnitude_text hpos h, Option.map_some,
      round_neg, hvalue, Option.map_some, neg_neg]
  · rename_i hzero hneg
    have hpos : 0 < q := lt_of_le_of_ne (not_lt.mp hneg) (Ne.symm hzero)
    obtain ⟨d, hd⟩ := Option.isSome_iff_exists.mp (shortest_isSome hpos hq)
    obtain ⟨hdigits, hvalue⟩ := shortest_spec hd
    rw [hd, Option.elim_some, readNumber_unsigned (head_text hdigits) (readMagnitude_text hdigits h), hvalue]

theorem numberText_append_inj {q q' : ℚ} (hq : Double.round q = some q) (hq' : Double.round q' = some q')
    {rest rest' : CodeUnits} (h : EndsNumber rest) (h' : EndsNumber rest')
    (heq : numberText q ++ rest = numberText q' ++ rest') : q = q' ∧ rest = rest' := by
  have hread := readNumber_numberText hq h
  rw [heq, readNumber_numberText hq' h', Option.some_inj] at hread
  exact ⟨(Option.some.inj (Prod.mk.inj hread).1).symm, (Prod.mk.inj hread).2.symm⟩

theorem head_numberText {q : ℚ} (hq : Double.round q = some q) :
    ∃ c cs, numberText q = c :: cs ∧ (c = 0x2D ∨ isDigit c) := by
  rw [numberText]
  split
  · exact ⟨0x30, [], rfl, .inr (by decide)⟩
  split
  · exact ⟨_, _, rfl, .inl rfl⟩
  · rename_i hzero hneg
    have hpos : 0 < q := lt_of_le_of_ne (not_lt.mp hneg) (Ne.symm hzero)
    obtain ⟨d, hd⟩ := Option.isSome_iff_exists.mp (shortest_isSome hpos hq)
    obtain ⟨c, cs, htext, hc⟩ := head_text (shortest_spec hd).1
    rw [hd, Option.elim_some]
    exact ⟨c, cs, htext, .inr hc⟩

end NumberText
