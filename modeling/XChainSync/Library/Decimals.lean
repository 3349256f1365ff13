import Mathlib

/-!
# Decimal texts

Digit lists and the numbers they write, and the numerals of a decimal grammar with sign, point and
exponent, each with its rational value.
-/

namespace Decimals
set_option autoImplicit false

/-! ### Digit lists -/

def Digits (cs : List Char) : Prop := ∀ c ∈ cs, c.isDigit = true

def digitVal (c : Char) : Nat := c.toNat - 48

theorem isDigit_iff {c : Char} : c.isDigit = true ↔ 48 ≤ c.toNat ∧ c.toNat ≤ 57 := by
  simp only [Char.isDigit, Bool.and_eq_true, decide_eq_true_eq]
  exact Iff.rfl

theorem digitVal_lt {c : Char} (hc : c.isDigit = true) : digitVal c < 10 := by
  have := isDigit_iff.mp hc
  rw [digitVal]
  omega

theorem digitChar_digitVal {c : Char} (hc : c.isDigit = true) : (digitVal c).digitChar = c := by
  obtain ⟨hlo, hhi⟩ := isDigit_iff.mp hc
  have hofNat : c = Char.ofNat c.toNat := (Char.ofNat_toNat c).symm
  rw [digitVal]
  generalize c.toNat = n at *
  subst hofNat
  interval_cases n <;> rfl

/-- The number that a digit list writes. -/
def value (cs : List Char) : Nat := Nat.ofDigitChars 10 cs 0

theorem value_append (l m : List Char) : value (l ++ m) = 10 ^ m.length * value l + value m := by
  rw [value, Nat.ofDigitChars_append, Nat.ofDigitChars_eq_ofDigitChars_zero, value, value]

theorem value_singleton (c : Char) : value [c] = digitVal c := by
  rw [value, Nat.ofDigitChars_cons, Nat.ofDigitChars_nil, Nat.mul_zero, Nat.zero_add]
  rfl

theorem value_concat (l : List Char) (c : Char) : value (l ++ [c]) = 10 * value l + digitVal c := by
  rw [value_append, value_singleton, List.length_singleton, pow_one]

theorem value_replicate_zero (n : Nat) : value (List.replicate n '0') = 0 := by
  rw [value, Nat.ofDigitChars_replicate_zero, Nat.mul_zero]

theorem value_toDigits (n : Nat) : value (Nat.toDigits 10 n) = n := Nat.ofDigitChars_ten_toDigits

theorem Digits.append {l m : List Char} (hl : Digits l) (hm : Digits m) : Digits (l ++ m) :=
  fun c hc => (List.mem_append.mp hc).elim (hl c) (hm c)

theorem digits_toDigits (n : Nat) : Digits (Nat.toDigits 10 n) :=
  fun _ hc => Nat.isDigit_of_mem_toDigits (by decide) (by decide) hc

theorem digits_replicate_zero (n : Nat) : Digits (List.replicate n '0') := by
  intro c hc
  rw [(List.mem_replicate.mp hc).2]
  decide

theorem value_lt {cs : List Char} (hcs : Digits cs) : value cs < 10 ^ cs.length := by
  induction cs using List.reverseRecOn with
  | nil => decide
  | append_singleton l c ih =>
    have hl := ih fun d hd => hcs d (List.mem_append.mpr (Or.inl hd))
    have hc := digitVal_lt (hcs c (List.mem_append.mpr (Or.inr (List.mem_singleton_self c))))
    rw [value_concat, List.length_append, List.length_singleton, pow_succ]
    omega

/-- A digit list is the least one of its number, with zeros before it. -/
theorem leftpad_toDigits_value {cs : List Char} (hcs : Digits cs) (hne : cs ≠ []) :
    (Nat.toDigits 10 (value cs)).leftpad cs.length '0' = cs := by
  induction cs using List.reverseRecOn with
  | nil => exact absurd rfl hne
  | append_singleton l c ih =>
    have hl : Digits l := fun d hd => hcs d (List.mem_append.mpr (Or.inl hd))
    have hc : c.isDigit = true := hcs c (List.mem_append.mpr (Or.inr (List.mem_singleton_self c)))
    have hd := digitVal_lt hc
    have hdigit : Nat.toDigits 10 (digitVal c) = [c] := by
      rw [Nat.toDigits_of_lt_base hd, digitChar_digitVal hc]
    rw [value_concat]
    by_cases hzero : value l = 0
    · -- all digits before the last one are zeros
      have hzeros : l = List.replicate l.length '0' := by
        cases l with
        | nil => rfl
        | cons d ds =>
          have hpad := ih hl (List.cons_ne_nil d ds)
          rw [hzero, Nat.toDigits_zero] at hpad
          rw [← hpad, List.leftpad, List.length_append, List.length_replicate]
          simp [← List.replicate_succ']
      rw [hzero, Nat.mul_zero, Nat.zero_add, hdigit, List.leftpad, List.length_append,
        List.length_singleton, Nat.add_sub_cancel]
      rw [← hzeros]
    · have hlne : l ≠ [] := by
        rintro rfl
        exact hzero rfl
      rw [← Nat.toDigits_append_toDigits (by decide) (Nat.pos_of_ne_zero hzero) hd, hdigit]
      conv_rhs => rw [← ih hl hlne]
      rw [List.leftpad, List.leftpad, List.length_append, List.length_append, List.length_singleton,
        Nat.add_sub_add_right, List.append_assoc]

/-- The least digit list of a number begins with no zero. -/
theorem toDigits_head {n : Nat} (hn : 0 < n) :
    ∃ c cs, Nat.toDigits 10 n = c :: cs ∧ c ≠ '0' := by
  induction n using Nat.base_induction 10 (by decide) with
  | single m hm =>
    refine ⟨m.digitChar, [], Nat.toDigits_of_lt_base hm, ?_⟩
    interval_cases m <;> decide
  | digit m k hk hm ih =>
    obtain ⟨c, cs, hcs, hc⟩ := ih hm
    refine ⟨c, cs ++ Nat.toDigits 10 k, ?_, hc⟩
    rw [← Nat.toDigits_append_toDigits (by decide) hm hk, hcs, List.cons_append]

/-- Digits end where no digit follows. -/
theorem digits_append_inj {l l' r r' : List Char} (hl : Digits l) (hl' : Digits l')
    (hr : ∀ c ∈ r.head?, c.isDigit = false) (hr' : ∀ c ∈ r'.head?, c.isDigit = false)
    (heq : l ++ r = l' ++ r') : l = l' ∧ r = r' := by
  have htake : ∀ {l r : List Char}, Digits l → (∀ c ∈ r.head?, c.isDigit = false) →
      (l ++ r).takeWhile Char.isDigit = l := by
    intro l r hl hr
    rw [List.takeWhile_append_of_pos hl]
    cases r with
    | nil => rw [List.takeWhile_nil, List.append_nil]
    | cons c cs =>
      rw [List.takeWhile_cons_of_neg (by rw [hr c rfl]; exact Bool.false_ne_true), List.append_nil]
  have hsame : l = l' := by rw [← htake hl hr, heq, htake hl' hr']
  subst hsame
  exact ⟨rfl, List.append_cancel_left heq⟩

/-! ### Numerals -/

/-- A sign, digits with or without a point, and an exponent. -/
structure Numeral where
  sign : Option Char
  whole : List Char
  frac : Option (List Char)
  exponent : Option (Char × Option Char × List Char)
  sign_mem : ∀ c ∈ sign, c = '+' ∨ c = '-'
  whole_digits : Digits whole
  frac_digits : ∀ f ∈ frac, Digits f
  some_digit : whole ++ frac.getD [] ≠ []
  exponent_ok : ∀ e ∈ exponent, (e.1 = 'e' ∨ e.1 = 'E') ∧ (∀ c ∈ e.2.1, c = '+' ∨ c = '-') ∧
    Digits e.2.2 ∧ e.2.2 ≠ []

namespace Numeral

def signOf (sign : Option Char) : Int := if sign = some '-' then -1 else 1

def fracText (frac : Option (List Char)) : List Char := frac.elim [] fun f => '.' :: f

def exponentText (exponent : Option (Char × Option Char × List Char)) : List Char :=
  exponent.elim [] fun e => e.1 :: (e.2.1.toList ++ e.2.2)

def text (n : Numeral) : List Char :=
  n.sign.toList ++ (n.whole ++ (fracText n.frac ++ exponentText n.exponent))

def scale (n : Numeral) : Int :=
  n.exponent.elim 0 (fun e => signOf e.2.1 * (Decimals.value e.2.2 : Int)) -
    ((n.frac.getD []).length : Int)

def toRat (n : Numeral) : ℚ :=
  signOf n.sign * Decimals.value (n.whole ++ n.frac.getD []) * (10 : ℚ) ^ n.scale

/-- The numeral of digits and decimals. -/
def plain (whole frac : List Char) (hwhole : Digits whole) (hne : whole ≠ []) (hfrac : Digits frac) :
    Numeral where
  sign := none
  whole := whole
  frac := if frac = [] then none else some frac
  exponent := none
  sign_mem := nofun
  whole_digits := hwhole
  frac_digits := by
    intro f hf
    split at hf
    · cases hf
    · rwa [← Option.some.inj hf]
  some_digit := fun h => hne (List.append_eq_nil_iff.mp h).1
  exponent_ok := nofun

theorem plain_frac {whole frac : List Char} (hwhole : Digits whole) (hne : whole ≠ [])
    (hfrac : Digits frac) : (plain whole frac hwhole hne hfrac).frac.getD [] = frac := by
  have hoption : (plain whole frac hwhole hne hfrac).frac = if frac = [] then none else some frac :=
    rfl
  rw [hoption]
  split
  · rename_i hnil
    exact hnil.symm
  · rfl

theorem plain_text {whole frac : List Char} (hwhole : Digits whole) (hne : whole ≠ [])
    (hfrac : Digits frac) :
    (plain whole frac hwhole hne hfrac).text = whole ++ if frac = [] then [] else '.' :: frac := by
  have htext : (plain whole frac hwhole hne hfrac).text =
      whole ++ (fracText (if frac = [] then none else some frac) ++ []) := rfl
  rw [htext, List.append_nil]
  split
  · rfl
  · rfl

theorem exponentText_head (n : Numeral) : ∀ c ∈ (exponentText n.exponent).head?, c.isDigit = false := by
  intro c hc
  cases he : n.exponent with
  | none =>
    rw [he] at hc
    cases hc
  | some e =>
    rw [he] at hc
    obtain rfl := Option.some.inj hc
    rcases (n.exponent_ok e he).1 with h | h <;> rw [h] <;> rfl

/-- A text of digits and decimals is that of no other numeral. -/
theorem of_plain_text {n : Numeral} {whole frac : List Char} (hwhole : Digits whole)
    (hne : whole ≠ []) (hfrac : Digits frac)
    (htext : n.text = whole ++ if frac = [] then [] else '.' :: frac) :
    n.sign = none ∧ n.whole = whole ∧ n.frac.getD [] = frac ∧ n.exponent = none := by
  have hsign : n.sign = none := by
    cases hs : n.sign with
    | none => rfl
    | some c =>
      exfalso
      rw [text, hs] at htext
      obtain ⟨d, ds, rfl⟩ := List.exists_cons_of_ne_nil hne
      have hcd : c = d := (List.cons.inj htext).1
      have hdigit := hwhole d List.mem_cons_self
      rw [← hcd] at hdigit
      rcases n.sign_mem c hs with rfl | rfl <;> cases hdigit
  refine ⟨hsign, ?_⟩
  rw [text, hsign, Option.toList_none, List.nil_append] at htext
  have hrest : ∀ c ∈ (fracText n.frac ++ exponentText n.exponent).head?, c.isDigit = false := by
    intro c hc
    cases hf : n.frac with
    | none =>
      rw [hf, fracText, Option.elim_none, List.nil_append] at hc
      exact exponentText_head n c hc
    | some f =>
      rw [hf] at hc
      obtain rfl := Option.some.inj hc
      rfl
  have hrest' : ∀ c ∈ (if frac = [] then [] else '.' :: frac).head?, c.isDigit = false := by
    intro c hc
    split at hc
    · cases hc
    · obtain rfl := Option.some.inj hc
      rfl
  obtain ⟨hw, htail⟩ := digits_append_inj n.whole_digits hwhole hrest hrest' htext
  refine ⟨hw, ?_⟩
  cases hf : n.frac with
  | none =>
    rw [hf, fracText, Option.elim_none, List.nil_append] at htail
    cases he : n.exponent with
    | none =>
      rw [he] at htail
      split at htail
      · rename_i hnil
        exact ⟨hnil.symm, rfl⟩
      · cases htail
    | some e =>
      exfalso
      rw [he] at htail
      split at htail
      · cases htail
      · have hpoint : e.1 = '.' := (List.cons.inj htail).1
        rcases (n.exponent_ok e he).1 with h | h <;> rw [h] at hpoint <;> cases hpoint
  | some f =>
    rw [hf] at htail
    split at htail
    · cases htail
    · have htail' : f ++ exponentText n.exponent = frac ++ [] := by
        rw [List.append_nil]
        exact (List.cons.inj htail).2
      obtain ⟨hsame, hexp⟩ := digits_append_inj (n.frac_digits f hf) hfrac (exponentText_head n)
        (fun c hc => by cases hc) htail'
      refine ⟨hsame, ?_⟩
      cases he : n.exponent with
      | none => rfl
      | some e =>
        rw [he] at hexp
        cases hexp

end Numeral

end Decimals
