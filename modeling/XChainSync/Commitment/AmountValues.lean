import Mathlib
import XChainSync.Library.Decimals
import XChainSync.Commitment.Amounts

/-!
# The values of amounts

An accepted amount is a number of units of the 18th decimal, and its canonical form is the decimal
text of that number. `sumCanonicalAmounts` of src/merkle.js adds the units.
-/

namespace XChainSync.Commitment
open Decimals
set_option autoImplicit false

/-! ### Sums -/

/-- `canon.split('.')`. -/
def splitPoint (canon : List Char) : List Char × List Char :=
  (canon.takeWhile (· ≠ '.'), (canon.dropWhile (· ≠ '.')).tail)

/-- `BigInt(text)` of digits. -/
def bigInt (digits : List Char) : Nat := value digits

/-- `String.prototype.slice` and `padStart` on the text of the sum. -/
def unitsText (acc : Nat) : String :=
  let s := Nat.toDigits 10 acc
  let frac := if s.length > 18 then s.drop (s.length - 18) else s.leftpad 18 '0'
  let intp := if s.length > 18 then s.take (s.length - 18) else ['0']
  String.ofList (stripZeros intp ++ '.' :: frac)

def addAmount (acc : Nat) (a : String) : Except String Nat :=
  (canonicalAmount a).map fun canon =>
    let (i, f) := splitPoint canon.toList
    acc + bigInt i * 1000000000000000000 + bigInt f

def sumCanonicalAmounts (amounts : List String) : Except String String :=
  (amounts.foldlM addAmount 0).map unitsText

/-! ### Canonical texts -/

theorem stripZeros_cons {c : Char} (hc : c ≠ '0') (cs : List Char) : stripZeros (c :: cs) = c :: cs := by
  unfold stripZeros
  split
  · rename_i heq
    exact absurd (List.cons.inj heq).1 hc
  · rfl

theorem stripZeros_toDigits (n : Nat) : stripZeros (Nat.toDigits 10 n) = Nat.toDigits 10 n := by
  rcases Nat.eq_zero_or_pos n with rfl | hn
  · rfl
  · obtain ⟨c, cs, hcs, hc⟩ := toDigits_head hn
    rw [hcs, stripZeros_cons hc]

theorem stripZeros_replicate (k : Nat) {cs : List Char} (hne : cs ≠ []) :
    stripZeros (List.replicate k '0' ++ cs) = stripZeros cs := by
  induction k with
  | zero => rfl
  | succ k ih =>
    obtain ⟨c, ds, hds⟩ := List.exists_cons_of_ne_nil
      (List.append_ne_nil_of_right_ne_nil (List.replicate k '0') hne)
    rw [List.replicate_succ, List.cons_append, hds, stripZeros, ← hds, ih]

/-- Leading zeros go, and the digits of zero keep one. -/
theorem stripZeros_eq {cs : List Char} (hcs : Digits cs) (hne : cs ≠ []) :
    stripZeros cs = Nat.toDigits 10 (value cs) := by
  have hpad := leftpad_toDigits_value hcs hne
  rw [List.leftpad] at hpad
  conv_lhs => rw [← hpad]
  rw [stripZeros_replicate _ (toDigits_ne_nil _), stripZeros_toDigits]

/-- The decimals padded to 18. -/
def padded (frac : List Char) : List Char := (frac ++ List.replicate 18 '0').take 18

theorem padded_eq {frac : List Char} (hlen : frac.length ≤ 18) :
    padded frac = frac ++ List.replicate (18 - frac.length) '0' := by
  rw [padded, List.take_append, List.take_of_length_le hlen, List.take_replicate]
  congr 2
  omega

theorem length_padded (frac : List Char) : (padded frac).length = 18 := by
  rw [padded, List.length_take, List.length_append, List.length_replicate]
  omega

theorem digits_padded {frac : List Char} (hfrac : Digits frac) : Digits (padded frac) :=
  fun c hc => hfrac.append (digits_replicate_zero 18) c (List.mem_of_mem_take hc)

/-- An amount in units of the 18th decimal. -/
def units (whole frac : List Char) : Nat := value whole * 10 ^ 18 + value (padded frac)

theorem decimals_value {cs : List Char} (hcs : Digits cs) (hlen : cs.length = 18) :
    decimals (value cs) = cs := by
  have hlt := value_lt hcs
  rw [hlen] at hlt
  have hpad := leftpad_toDigits_value hcs (List.ne_nil_of_length_pos (by omega))
  rw [hlen] at hpad
  rw [decimals, Nat.mod_eq_of_lt hlt, hpad]

theorem value_decimals (n : Nat) : value (decimals n) = n % 10 ^ 18 := by
  rw [decimals, List.leftpad, value_append, value_replicate_zero, Nat.mul_zero, Nat.zero_add,
    value_toDigits]

theorem castChars_natCast (n : Nat) :
    castChars (n : Int) = Nat.toDigits 10 (n / 10 ^ 18) ++ '.' :: decimals n := by
  rw [castChars, if_neg (by omega), Int.natAbs_natCast]
  rfl

theorem splitAmount_eq_some {s whole frac : List Char} (h : splitAmount s = some (whole, frac)) :
    Digits whole ∧ whole ≠ [] ∧ Digits frac ∧ frac.length ≤ 18 ∧
      s = whole ++ if frac = [] then [] else '.' :: frac := by
  have hwhole : Digits (s.takeWhile Char.isDigit) := fun c hc => List.mem_takeWhile_imp hc
  have hs : s = s.takeWhile Char.isDigit ++ s.dropWhile Char.isDigit :=
    List.takeWhile_append_dropWhile.symm
  rw [splitAmount] at h
  split at h
  · cases h
  · rename_i hne
    cases hdrop : s.dropWhile Char.isDigit with
    | nil =>
      rw [hdrop] at h
      obtain ⟨rfl, rfl⟩ := Prod.mk.inj (Option.some.inj h)
      refine ⟨hwhole, hne, fun c hc => absurd hc List.not_mem_nil, Nat.zero_le _, ?_⟩
      rw [if_pos rfl, List.append_nil]
      rwa [hdrop, List.append_nil] at hs
    | cons c fracPart =>
      rw [hdrop] at h
      dsimp only at h
      split at h
      · rename_i hpoint
        obtain ⟨rfl, hfne, hlen, hall⟩ := hpoint
        obtain ⟨rfl, rfl⟩ := Prod.mk.inj (Option.some.inj h)
        refine ⟨hwhole, hne, List.all_eq_true.mp hall, hlen, ?_⟩
        rw [if_neg hfne]
        rwa [hdrop] at hs
      · cases h

/-- The canonical form of an amount is the decimal text of its units. -/
theorem canonicalText_eq {whole frac : List Char} (hwhole : Digits whole) (hne : whole ≠ [])
    (hfrac : Digits frac) : canonicalText whole frac = castChar (units whole frac : Nat) := by
  have hlt := value_lt (digits_padded hfrac)
  rw [length_padded] at hlt
  have hdiv : units whole frac / 10 ^ 18 = value whole := by
    rw [units]
    omega
  have hmod : decimals (units whole frac) = decimals (value (padded frac)) := by
    have : units whole frac % 10 ^ 18 = value (padded frac) % 10 ^ 18 := by
      rw [units]
      omega
    rw [decimals, decimals, this]
  rw [canonicalText, castChar, castChars_natCast, hdiv, hmod,
    decimals_value (digits_padded hfrac) (length_padded frac), stripZeros_eq hwhole hne]
  rfl

theorem splitAmount_castChars (n : Nat) :
    splitAmount (castChars n) = some (Nat.toDigits 10 (n / 10 ^ 18), decimals n) := by
  rw [castChars_natCast]
  exact splitAmount_point (toDigits_ne_nil _) (digits_toDigits _)
    (List.ne_nil_of_length_pos (by rw [length_decimals]; decide)) (length_decimals n).le
    fun c hc => isDigit_decimals hc

theorem units_castChars (n : Nat) : units (Nat.toDigits 10 (n / 10 ^ 18)) (decimals n) = n := by
  have hpadded : padded (decimals n) = decimals n := by
    rw [padded_eq (length_decimals n).le, length_decimals, Nat.sub_self, List.replicate_zero,
      List.append_nil]
  rw [units, hpadded, value_toDigits, value_decimals]
  omega

/-- The text of a sum is the decimal text of its units. -/
theorem unitsText_eq (acc : Nat) : unitsText acc = castChar (acc : Nat) := by
  have hvalue := value_toDigits acc
  rw [castChar, castChars_natCast, unitsText]
  split
  · rename_i hlong
    have hdigits := digits_toDigits acc
    generalize Nat.toDigits 10 acc = s at hvalue hlong hdigits ⊢
    have htake : Digits (s.take (s.length - 18)) := fun c hc => hdigits c (List.mem_of_mem_take hc)
    have hdrop : Digits (s.drop (s.length - 18)) := fun c hc => hdigits c (List.mem_of_mem_drop hc)
    have hlength : (s.drop (s.length - 18)).length = 18 := by
      rw [List.length_drop]
      omega
    have hne : s.take (s.length - 18) ≠ [] := by
      apply List.ne_nil_of_length_pos
      rw [List.length_take]
      omega
    have hlt := value_lt hdrop
    rw [hlength] at hlt
    have hsum := value_append (s.take (s.length - 18)) (s.drop (s.length - 18))
    rw [List.take_append_drop, hlength, hvalue] at hsum
    have hdiv : acc / 10 ^ 18 = value (s.take (s.length - 18)) := by omega
    have hmod : decimals acc = decimals (value (s.drop (s.length - 18))) := by
      rw [decimals, decimals]
      congr 2
      omega
    rw [stripZeros_eq htake hne, hdiv, hmod, decimals_value hdrop hlength]
  · rename_i hshort
    have hlt : acc < 10 ^ 18 := (Nat.length_toDigits_le_iff (by decide) (by decide)).mp (by omega)
    rw [Nat.div_eq_of_lt hlt, decimals, Nat.mod_eq_of_lt hlt]
    rfl

theorem splitPoint_castChars (n : Nat) :
    splitPoint (castChars n) = (Nat.toDigits 10 (n / 10 ^ 18), decimals n) := by
  have hint : ∀ c ∈ Nat.toDigits 10 (n / 10 ^ 18), decide (c ≠ '.') = true := by
    intro c hc
    rw [decide_eq_true_eq]
    rintro rfl
    cases digits_toDigits _ '.' hc
  rw [castChars_natCast, splitPoint, List.takeWhile_append_of_pos hint,
    List.dropWhile_append_of_pos hint]
  simp

/-! ### Values -/

/-- A text, its spaces trimmed, is a numeral of a rational. -/
def Denotes (s : String) (q : ℚ) : Prop :=
  ∃ n : Numeral, JsText.trimChars s.toList = n.text ∧ n.toRat = q

theorem toRat_of_plain {whole frac : List Char} (hlen : frac.length ≤ 18) {n : Numeral}
    (hsign : n.sign = none) (hn : n.whole = whole) (hf : n.frac.getD [] = frac)
    (hexp : n.exponent = none) : n.toRat = (units whole frac : ℚ) / 10 ^ 18 := by
  have hscale : n.scale = -(frac.length : ℤ) := by
    rw [Numeral.scale, hexp, hf, Option.elim_none, zero_sub]
  have hunits : units whole frac = value (whole ++ frac) * 10 ^ (18 - frac.length) := by
    have hsplit : 10 ^ 18 = 10 ^ frac.length * 10 ^ (18 - frac.length) := by
      rw [← pow_add]
      congr 1
      omega
    rw [units, padded_eq hlen, value_append whole, value_append frac, value_replicate_zero,
      List.length_replicate, hsplit]
    ring
  have hpow : (10 : ℚ) ^ 18 = 10 ^ frac.length * 10 ^ (18 - frac.length) := by
    rw [← pow_add]
    congr 1
    omega
  rw [Numeral.toRat, hsign, hn, hf, hscale, hunits, hpow, zpow_neg, zpow_natCast]
  simp only [Numeral.signOf, reduceCtorEq, if_false, Int.cast_one, one_mul, Nat.cast_mul, Nat.cast_pow,
    Nat.cast_ofNat]
  field_simp

/-- What an accepted amount is. -/
structure IsAmount (a : String) (n : Nat) : Prop where
  canonical : canonicalAmount a = .ok (castChar n)
  denotes : ∀ q, Denotes a q ↔ q = (n : ℚ) / 10 ^ 18

theorem isAmount_of_split {a : String} {whole frac : List Char}
    (hsplit : splitAmount (JsText.trimChars a.toList) = some (whole, frac)) :
    IsAmount a (units whole frac) := by
  obtain ⟨hwhole, hne, hfrac, hlen, htext⟩ := splitAmount_eq_some hsplit
  constructor
  · rw [canonicalAmount, hsplit]
    exact congrArg Except.ok (canonicalText_eq hwhole hne hfrac)
  · intro q
    constructor
    · rintro ⟨n, hn, rfl⟩
      obtain ⟨hsign, hw, hf, hexp⟩ := Numeral.of_plain_text hwhole hne hfrac (hn.symm.trans htext)
      exact toRat_of_plain hlen hsign hw hf hexp
    · rintro rfl
      refine ⟨Numeral.plain whole frac hwhole hne hfrac, ?_, ?_⟩
      · rw [htext, Numeral.plain_text]
      · exact toRat_of_plain hlen rfl rfl (Numeral.plain_frac hwhole hne hfrac) rfl

theorem isAmount_of_ok {a c : String} (h : canonicalAmount a = .ok c) :
    ∃ n : Nat, IsAmount a n ∧ c = castChar n := by
  rw [canonicalAmount] at h
  split at h
  · rename_i whole frac hsplit
    have hamount := isAmount_of_split hsplit
    refine ⟨_, hamount, ?_⟩
    have hcanonical := hamount.canonical
    rw [canonicalAmount, hsplit] at hcanonical
    exact Except.ok.inj (h.symm.trans hcanonical)
  · cases h

/-- The canonical form of a number of units is an amount of these units. -/
theorem isAmount_castChar (n : Nat) : IsAmount (castChar n) n := by
  have hchars : ∀ c ∈ castChars n, JsText.isSpace c = false := by
    intro c hc
    rw [castChars_natCast] at hc
    rcases List.mem_append.mp hc with hc | hc
    · exact isSpace_of_isDigit (digits_toDigits _ c hc)
    · rcases List.mem_cons.mp hc with rfl | hc
      · decide
      · exact isSpace_of_isDigit (isDigit_decimals hc)
  have hsplit : splitAmount (JsText.trimChars (castChar n).toList) =
      some (Nat.toDigits 10 (n / 10 ^ 18), decimals n) := by
    rw [castChar, String.toList_ofList, trimChars_eq_self hchars, splitAmount_castChars]
  have hamount := isAmount_of_split hsplit
  rwa [units_castChars] at hamount

theorem castChar_inj {n m : Nat} (h : castChar n = castChar m) : n = m := by
  have hn := (isAmount_castChar n).denotes ((n : ℚ) / 10 ^ 18)
  rw [h, (isAmount_castChar m).denotes] at hn
  have heq : (n : ℚ) = m := (div_left_inj' (by norm_num)).mp (hn.mpr rfl)
  exact_mod_cast heq

/-! ### The sum -/

theorem addAmount_eq {a : String} {n : Nat} (h : IsAmount a n) (acc : Nat) :
    addAmount acc a = .ok (acc + n) := by
  rw [addAmount, h.canonical]
  have hunits := units_castChars n
  rw [units] at hunits
  have hpadded : padded (decimals n) = decimals n := by
    rw [padded_eq (length_decimals n).le, length_decimals, Nat.sub_self, List.replicate_zero,
      List.append_nil]
  rw [hpadded] at hunits
  simp only [Except.map, castChar, String.toList_ofList, splitPoint_castChars, bigInt]
  congr 1
  omega

theorem foldlM_addAmount {amounts : List String} {ns : List Nat}
    (h : List.Forall₂ IsAmount amounts ns) (acc : Nat) :
    amounts.foldlM addAmount acc = .ok (acc + ns.sum) := by
  induction h generalizing acc with
  | nil => rfl
  | cons ha _ ih =>
    rw [List.foldlM_cons, addAmount_eq ha]
    simp only [bind, Except.bind]
    rw [ih, List.sum_cons, Nat.add_assoc]

theorem sumCanonicalAmounts_eq {amounts : List String} {ns : List Nat}
    (h : List.Forall₂ IsAmount amounts ns) :
    sumCanonicalAmounts amounts = .ok (castChar ns.sum) := by
  rw [sumCanonicalAmounts, foldlM_addAmount h, Nat.zero_add]
  exact congrArg Except.ok (unitsText_eq _)

/-- The amounts that a list of accepted texts has. -/
theorem isAmounts_of_denotes {amounts : List String} {qs : List ℚ}
    (h : List.Forall₂ (fun a q => (∃ c, canonicalAmount a = .ok c) ∧ Denotes a q) amounts qs) :
    ∃ ns : List Nat, List.Forall₂ IsAmount amounts ns ∧ qs.sum = (ns.sum : ℚ) / 10 ^ 18 := by
  induction h with
  | nil => exact ⟨[], .nil, by simp⟩
  | cons ha _ ih =>
    obtain ⟨⟨c, hc⟩, hq⟩ := ha
    obtain ⟨n, hn, -⟩ := isAmount_of_ok hc
    obtain ⟨ns, hns, hsum⟩ := ih
    refine ⟨n :: ns, .cons hn hns, ?_⟩
    rw [List.sum_cons, List.sum_cons, (hn.denotes _).mp hq, hsum, Nat.cast_add, add_div]

theorem sumCanonicalAmounts_perm {amounts amounts' : List String} (hperm : amounts'.Perm amounts)
    {ns : List Nat} (h : List.Forall₂ IsAmount amounts ns) :
    sumCanonicalAmounts amounts' = .ok (castChar ns.sum) := by
  obtain ⟨ns', hns', hperm'⟩ := List.perm_comp_forall₂ hperm h
  rw [sumCanonicalAmounts_eq hns', hperm'.sum_eq]

/-- No sign, no more than 18 decimals and no value between two units is accepted. -/
theorem canonicalAmount_rejects {a : String} {n : Numeral} (hn : JsText.trimChars a.toList = n.text)
    (hbad : n.sign ≠ none ∨ 18 < (n.frac.getD []).length ∨ ∀ k : Nat, n.toRat * 10 ^ 18 ≠ k) :
    ∃ e, canonicalAmount a = .error e := by
  rw [canonicalAmount]
  cases hsplit : splitAmount (JsText.trimChars a.toList) with
  | none => exact ⟨_, rfl⟩
  | some p =>
    obtain ⟨hwhole, hne, hfrac, hlen, htext⟩ := splitAmount_eq_some hsplit
    obtain ⟨hsign, hw, hf, hexp⟩ := Numeral.of_plain_text hwhole hne hfrac (hn.symm.trans htext)
    exfalso
    rcases hbad with hbad | hbad | hbad
    · exact hbad hsign
    · rw [hf] at hbad
      omega
    · apply hbad (units p.1 p.2)
      rw [toRat_of_plain hlen hsign hw hf hexp]
      exact div_mul_cancel₀ _ (by norm_num)

/-- Canonical amounts are equal just where the values are, canonical texts are fixed, what is no
number of units is rejected, and a sum of amounts is the canonical text of the sum. -/
theorem canonical_amounts_are_exact :
    (∀ a b ca cb, canonicalAmount a = .ok ca → canonicalAmount b = .ok cb →
      ∃ qa qb, (∀ q, Denotes a q ↔ q = qa) ∧ (∀ q, Denotes b q ↔ q = qb) ∧
        Denotes ca qa ∧ (ca = cb ↔ qa = qb)) ∧
    (∀ a ca, canonicalAmount a = .ok ca → canonicalAmount ca = .ok ca) ∧
    (∀ (a : String) (n : Numeral), JsText.trimChars a.toList = n.text →
      (n.sign ≠ none ∨ 18 < (n.frac.getD []).length ∨ ∀ k : Nat, n.toRat * 10 ^ 18 ≠ k) →
      ∃ e, canonicalAmount a = .error e) ∧
    ∀ (amounts : List String) (qs : List ℚ),
      List.Forall₂ (fun a q => (∃ c, canonicalAmount a = .ok c) ∧ Denotes a q) amounts qs →
      ∃ s, sumCanonicalAmounts amounts = .ok s ∧ canonicalAmount s = .ok s ∧ Denotes s qs.sum ∧
        ∀ amounts', amounts'.Perm amounts → sumCanonicalAmounts amounts' = .ok s := by
  refine ⟨?_, ?_, fun a n => canonicalAmount_rejects, ?_⟩
  · intro a b ca cb ha hb
    obtain ⟨n, hn, rfl⟩ := isAmount_of_ok ha
    obtain ⟨m, hm, rfl⟩ := isAmount_of_ok hb
    refine ⟨_, _, hn.denotes, hm.denotes, ((isAmount_castChar n).denotes _).mpr rfl, ?_⟩
    constructor
    · intro heq
      rw [castChar_inj heq]
    · intro heq
      have hsame : (n : ℚ) = m := (div_left_inj' (by norm_num)).mp heq
      rw [Nat.cast_inj.mp hsame]
  · intro a ca ha
    obtain ⟨n, -, rfl⟩ := isAmount_of_ok ha
    exact (isAmount_castChar n).canonical
  · intro amounts qs h
    obtain ⟨ns, hns, hsum⟩ := isAmounts_of_denotes h
    refine ⟨_, sumCanonicalAmounts_eq hns, (isAmount_castChar _).canonical, ?_, ?_⟩
    · exact ((isAmount_castChar _).denotes _).mpr hsum
    · exact fun amounts' hperm => sumCanonicalAmounts_perm hperm hns

end XChainSync.Commitment
