import Mathlib
import XChainSync.Library.JsText
import XChainSync.Merkle.BlockLeaves

/-!
# Canonical amounts

`canonicalAmount` of src/merkle/primitives.js, and the two texts in which the queries give a net
amount: all 18 decimals, or the least number of them. An amount is counted in units of the 18th
decimal.
-/

namespace XChainSync.Commitment
open Merkle
set_option autoImplicit false

/-! ### Texts -/

/-- `/^0+(?=\d)/` out of a run of digits. -/
def stripZeros : List Char → List Char
  | '0' :: c :: cs => stripZeros (c :: cs)
  | cs => cs

/-- The two parts of a text that `/^\d+(\.\d{1,18})?$/` matches. -/
def splitAmount (s : List Char) : Option (List Char × List Char) :=
  let intPart := s.takeWhile Char.isDigit
  if intPart = [] then none
  else
    match s.dropWhile Char.isDigit with
    | [] => some (intPart, [])
    | c :: fracPart =>
      if c = '.' ∧ fracPart ≠ [] ∧ fracPart.length ≤ 18 ∧ fracPart.all Char.isDigit then
        some (intPart, fracPart)
      else none

def canonicalText (intPart fracPart : List Char) : String :=
  String.ofList (stripZeros intPart ++ '.' :: (fracPart ++ List.replicate 18 '0').take 18)

def canonicalAmount (input : String) : Except String String :=
  match splitAmount (JsText.trimChars input.toList) with
  | some (intPart, fracPart) => .ok (canonicalText intPart fracPart)
  | none => .error ("merkle: non-canonical amount \x22" ++ input ++ "\x22")

def ZERO_CANON : String := "0.000000000000000000"

/-- What the leaf of an amount hashes, none for zero. -/
def leafOrNull (amountStr : String) : Except String (Option Buf) :=
  (canonicalAmount amountStr).map fun canon => if canon = ZERO_CANON then none else some (utf8 canon)

/-- `CAST(decimal AS CHAR)` at 18 decimals. -/
def castChars (net : Int) : List Char :=
  (if net < 0 then ['-'] else []) ++ (Nat.toDigits 10 (net.natAbs / 10 ^ 18) ++
    '.' :: (Nat.toDigits 10 (net.natAbs % 10 ^ 18)).leftpad 18 '0')

def castChar (net : Int) : String := String.ofList (castChars net)

/-- `TRIM(TRAILING '.' FROM TRIM(TRAILING '0' FROM CAST(decimal AS CHAR)))`. -/
def minimalDecimal (net : Int) : String :=
  String.ofList (((castChars net).rdropWhile (· = '0')).rdropWhile (· = '.'))

/-! ### Both texts are one amount -/

theorem trimChars_eq_self {cs : List Char} (h : ∀ c ∈ cs, JsText.isSpace c = false) :
    JsText.trimChars cs = cs := by
  have hdrop : cs.dropWhile JsText.isSpace = cs := by
    rw [List.dropWhile_eq_self_iff]
    intro hlength
    rw [h _ (List.getElem_mem hlength)]
    exact Bool.false_ne_true
  rw [JsText.trimChars, hdrop, List.rdropWhile_eq_self_iff]
  intro hne
  rw [h _ (List.getLast_mem hne)]
  exact Bool.false_ne_true

theorem isSpace_of_isDigit {c : Char} (h : c.isDigit = true) : JsText.isSpace c = false := by
  have hrange : 48 ≤ c.toNat ∧ c.toNat ≤ 57 := by
    simp only [Char.isDigit, Bool.and_eq_true, decide_eq_true_eq] at h
    exact ⟨h.1, h.2⟩
  simp only [JsText.isSpace]
  simp
  omega

theorem splitAmount_digits {intPart : List Char} (hne : intPart ≠ [])
    (hint : ∀ c ∈ intPart, c.isDigit = true) : splitAmount intPart = some (intPart, []) := by
  have htake : intPart.takeWhile Char.isDigit = intPart := List.takeWhile_eq_self_iff.mpr hint
  have hdrop : intPart.dropWhile Char.isDigit = [] := List.dropWhile_eq_nil_iff.mpr hint
  rw [splitAmount, htake, hdrop, if_neg hne]

theorem splitAmount_point {intPart fracPart : List Char} (hne : intPart ≠ [])
    (hint : ∀ c ∈ intPart, c.isDigit = true) (hfne : fracPart ≠ []) (hlen : fracPart.length ≤ 18)
    (hfrac : ∀ c ∈ fracPart, c.isDigit = true) :
    splitAmount (intPart ++ '.' :: fracPart) = some (intPart, fracPart) := by
  have htake : (intPart ++ '.' :: fracPart).takeWhile Char.isDigit = intPart := by
    rw [List.takeWhile_append_of_pos hint]
    simp
  have hdrop : (intPart ++ '.' :: fracPart).dropWhile Char.isDigit = '.' :: fracPart := by
    rw [List.dropWhile_append_of_pos hint]
    simp
  rw [splitAmount, htake, hdrop, if_neg hne]
  exact if_pos ⟨rfl, hfne, hlen, List.all_eq_true.mpr hfrac⟩

theorem canonicalAmount_ofList {cs : List Char} (hcs : ∀ c ∈ cs, c.isDigit = true ∨ c = '.')
    {intPart fracPart : List Char} (hsplit : splitAmount cs = some (intPart, fracPart)) :
    canonicalAmount (String.ofList cs) = .ok (canonicalText intPart fracPart) := by
  have htrim : JsText.trimChars cs = cs := by
    apply trimChars_eq_self
    intro c hc
    rcases hcs c hc with hdigit | rfl
    · exact isSpace_of_isDigit hdigit
    · decide
  rw [canonicalAmount, String.toList_ofList, htrim, hsplit]

/-- Only zeros are trimmed. -/
theorem trimmed_append_zeros (frac : List Char) :
    ∃ count, frac.rdropWhile (· = '0') ++ List.replicate count '0' = frac := by
  have hsplit : frac.rdropWhile (· = '0') ++ frac.rtakeWhile (· = '0') = frac := by
    rw [List.rdropWhile, List.rtakeWhile, ← List.reverse_append, List.takeWhile_append_dropWhile,
      List.reverse_reverse]
  have hzeros : frac.rtakeWhile (· = '0') =
      List.replicate (frac.rtakeWhile (· = '0')).length '0' := by
    rw [List.eq_replicate_iff]
    refine ⟨rfl, fun c hc => ?_⟩
    have := List.mem_rtakeWhile_imp hc
    simpa using this
  exact ⟨_, hzeros ▸ hsplit⟩

/-- Trailing zeros are padded back. -/
theorem take_trimmed (frac : List Char) (hlen : frac.length = 18) :
    (frac.rdropWhile (· = '0') ++ List.replicate 18 '0').take 18 = frac := by
  obtain ⟨count, hsplit⟩ := trimmed_append_zeros frac
  have hcount := congrArg List.length hsplit
  rw [List.length_append, List.length_replicate, hlen] at hcount
  rw [List.take_append, List.take_of_length_le (by omega), List.take_replicate]
  conv_rhs => rw [← hsplit]
  congr 2
  omega

theorem rdropWhile_append_cons {p : Char → Bool} (l : List Char) {c : Char} (hc : p c = false)
    (r : List Char) : (l ++ c :: r).rdropWhile p = l ++ c :: r.rdropWhile p := by
  induction r using List.reverseRecOn with
  | nil =>
    rw [List.rdropWhile_nil]
    exact List.rdropWhile_concat_neg p l c (by rw [hc]; exact Bool.false_ne_true)
  | append_singleton r d ih =>
    rw [← List.cons_append, ← List.append_assoc, List.rdropWhile_concat, List.rdropWhile_concat, ih]
    split
    · rfl
    · rw [List.append_assoc, List.cons_append]

theorem trim_decimal {whole frac : List Char} (hwhole : ∀ c ∈ whole, c ≠ '.')
    (hfrac : ∀ c ∈ frac, c.isDigit = true) :
    ((whole ++ '.' :: frac).rdropWhile (· = '0')).rdropWhile (· = '.') =
      if frac.rdropWhile (· = '0') = [] then whole else whole ++ '.' :: frac.rdropWhile (· = '0') := by
  rw [rdropWhile_append_cons whole (by decide)]
  split
  · rename_i hnil
    rw [hnil, List.rdropWhile_concat_pos _ _ _ (by decide), List.rdropWhile_eq_self_iff]
    intro hne
    simpa using hwhole _ (List.getLast_mem hne)
  · rename_i hne
    rw [List.rdropWhile_eq_self_iff]
    intro hne'
    rw [List.getLast_append_of_ne_nil _ (List.cons_ne_nil _ _), List.getLast_cons hne]
    have hdigit := hfrac _ ((List.rdropWhile_prefix _ _).subset (List.getLast_mem hne))
    intro hpoint
    rw [of_decide_eq_true hpoint] at hdigit
    cases hdigit

theorem isDigit_toDigits {n : Nat} {c : Char} (hc : c ∈ Nat.toDigits 10 n) : c.isDigit = true :=
  Nat.isDigit_of_mem_toDigits (by decide) (by decide) hc

theorem toDigits_ne_nil (n : Nat) : Nat.toDigits 10 n ≠ [] :=
  List.ne_nil_of_length_pos Nat.length_toDigits_pos

/-- The decimals of an amount. -/
def decimals (n : Nat) : List Char := (Nat.toDigits 10 (n % 10 ^ 18)).leftpad 18 '0'

theorem length_decimals (n : Nat) : (decimals n).length = 18 := by
  have hlen := Nat.toDigits_length 10 (n % 10 ^ 18) 18 (by decide) (Nat.mod_lt _ (by decide))
  rw [decimals, List.length_leftpad]
  omega

theorem isDigit_decimals {n : Nat} {c : Char} (hc : c ∈ decimals n) : c.isDigit = true := by
  rcases List.mem_append.mp hc with hc | hc
  · rw [(List.mem_replicate.mp hc).2]
    decide
  · exact isDigit_toDigits hc

theorem canonicalAmount_neg {cs : List Char} (hcs : ∀ c ∈ cs, c.isDigit = true ∨ c = '.') :
    (canonicalAmount (String.ofList ('-' :: cs))).toOption = none := by
  have htrim : JsText.trimChars ('-' :: cs) = '-' :: cs := by
    apply trimChars_eq_self
    intro c hc
    rcases List.mem_cons.mp hc with rfl | hc
    · decide
    · rcases hcs c hc with hdigit | rfl
      · exact isSpace_of_isDigit hdigit
      · decide
  have hsplit : splitAmount ('-' :: cs) = none := by
    rw [splitAmount, List.takeWhile_cons_of_neg (by decide), if_pos rfl]
  rw [canonicalAmount, String.toList_ofList, htrim, hsplit]
  rfl

/-- Both spellings of a net amount have one canonical form, and those of a negative one none. -/
theorem canonicalAmount_minimalDecimal (net : Int) :
    (canonicalAmount (minimalDecimal net)).toOption = (canonicalAmount (castChar net)).toOption := by
  have hint : ∀ c ∈ Nat.toDigits 10 (net.natAbs / 10 ^ 18), c.isDigit = true :=
    fun c hc => isDigit_toDigits hc
  have hfrac : ∀ c ∈ decimals net.natAbs, c.isDigit = true := fun c hc => isDigit_decimals hc
  have htrimmed : ∀ c ∈ (decimals net.natAbs).rdropWhile (· = '0'), c.isDigit = true :=
    fun c hc => hfrac c ((List.rdropWhile_prefix _ _).subset hc)
  have hpoint : ∀ c ∈ Nat.toDigits 10 (net.natAbs / 10 ^ 18), c ≠ '.' := by
    rintro c hc rfl
    cases hint '.' hc
  have hchars : ∀ fracPart : List Char, (∀ c ∈ fracPart, c.isDigit = true) →
      ∀ c ∈ Nat.toDigits 10 (net.natAbs / 10 ^ 18) ++ '.' :: fracPart, c.isDigit = true ∨ c = '.' := by
    intro fracPart hfracPart c hc
    rcases List.mem_append.mp hc with hc | hc
    · exact Or.inl (hint c hc)
    · rcases List.mem_cons.mp hc with rfl | hc
      · exact Or.inr rfl
      · exact Or.inl (hfracPart c hc)
  by_cases hneg : net < 0
  · have hcast : castChars net = '-' :: (Nat.toDigits 10 (net.natAbs / 10 ^ 18) ++
        '.' :: decimals net.natAbs) := by
      rw [castChars, if_pos hneg]
      rfl
    rw [castChar, hcast, canonicalAmount_neg (hchars _ hfrac), minimalDecimal, hcast,
      ← List.cons_append, trim_decimal ?_ hfrac]
    · split
      · exact canonicalAmount_neg fun c hc => Or.inl (hint c hc)
      · exact canonicalAmount_neg (hchars _ htrimmed)
    · intro c hc
      rcases List.mem_cons.mp hc with rfl | hc
      · decide
      · exact hpoint c hc
  · have hcast : castChars net = Nat.toDigits 10 (net.natAbs / 10 ^ 18) ++
        '.' :: decimals net.natAbs := by
      rw [castChars, if_neg hneg]
      rfl
    have hlen := length_decimals net.natAbs
    have hne := toDigits_ne_nil (net.natAbs / 10 ^ 18)
    have hfull : canonicalAmount (castChar net) =
        .ok (canonicalText (Nat.toDigits 10 (net.natAbs / 10 ^ 18)) (decimals net.natAbs)) := by
      rw [castChar, hcast]
      exact canonicalAmount_ofList (hchars _ hfrac)
        (splitAmount_point hne hint (List.ne_nil_of_length_pos (by omega)) hlen.le hfrac)
    have hpad : ∀ fracPart, (fracPart ++ List.replicate 18 '0').take 18 = decimals net.natAbs →
        canonicalText (Nat.toDigits 10 (net.natAbs / 10 ^ 18)) fracPart =
          canonicalText (Nat.toDigits 10 (net.natAbs / 10 ^ 18)) (decimals net.natAbs) := by
      intro fracPart hpad
      rw [canonicalText, canonicalText, hpad, List.take_append_of_le_length hlen.ge,
        List.take_of_length_le hlen.le]
    have hback := take_trimmed _ hlen
    rw [hfull, minimalDecimal, hcast, trim_decimal hpoint hfrac]
    split
    · rename_i hnil
      rw [hnil, List.nil_append] at hback
      rw [canonicalAmount_ofList (fun c hc => Or.inl (hint c hc)) (splitAmount_digits hne hint),
        hpad [] hback]
    · rename_i hsome
      have hle := (List.rdropWhile_prefix (· = '0') (decimals net.natAbs)).length_le
      rw [canonicalAmount_ofList (hchars _ htrimmed)
        (splitAmount_point hne hint hsome (by omega) htrimmed), hpad _ hback]

theorem leafOrNull_minimalDecimal (net : Int) :
    (leafOrNull (minimalDecimal net)).toOption = (leafOrNull (castChar net)).toOption := by
  have hcanon := canonicalAmount_minimalDecimal net
  rw [leafOrNull, leafOrNull]
  cases hmin : canonicalAmount (minimalDecimal net) with
  | error e =>
    cases hcast : canonicalAmount (castChar net) with
    | error e' => rfl
    | ok canon =>
      rw [hmin, hcast] at hcanon
      cases hcanon
  | ok canon =>
    cases hcast : canonicalAmount (castChar net) with
    | error e =>
      rw [hmin, hcast] at hcanon
      cases hcanon
    | ok canon' =>
      rw [hmin, hcast] at hcanon
      rw [Option.some.inj hcanon]

theorem leafOrNull_zero : leafOrNull (castChar 0) = .ok none := by decide

end XChainSync.Commitment
