import Mathlib
import XChainSync.Library.Double
import XChainSync.Library.JsText

/-!
# Column values

A column value as the database driver hands it over, and what JavaScript makes of it: loose equality
with a number, `isNull`, `isNumeric`, `parseInt` and `String`.
-/

namespace XChainSync.Tokens
open JsText
set_option autoImplicit false

/-- `null` and `undefined` are one value, and an integer column is a number. -/
inductive Cell where
  | null
  | num (n : Int)
  | nan
  | text (s : String)
  deriving DecidableEq, Repr

/-- The digits of a numeral in another radix. -/
def radixValue (radix : Nat) (ds : List Char) : Option ℚ :=
  if ds ≠ [] ∧ ds.all (fun c => (digit radix c).isSome) then some (digits radix ds : ℚ) else none

def exponentValue : List Char → Option Int
  | [] => some 0
  | _ :: cs =>
    let signed := splitSign cs
    if signed.2 ≠ [] ∧ signed.2.all isDigit then
      some (if signed.1 then -(digits 10 signed.2 : Int) else digits 10 signed.2)
    else none

/-- The exact value of the text that `Number` reads, none for one that is NaN or infinite. -/
def literal (cs : List Char) : Option ℚ :=
  match trimChars cs with
  | [] => some 0
  | '0' :: 'x' :: ds | '0' :: 'X' :: ds => radixValue 16 ds
  | '0' :: 'o' :: ds | '0' :: 'O' :: ds => radixValue 8 ds
  | '0' :: 'b' :: ds | '0' :: 'B' :: ds => radixValue 2 ds
  | cs =>
    let mantissa := cs.takeWhile fun c => c != 'e' && c != 'E'
    (decimal (String.ofList mantissa)).bind fun m =>
      (exponentValue (cs.drop mantissa.length)).map fun e => m * 10 ^ e

namespace Cell

/-- `Number(v)`, none for NaN and the infinities. -/
def toNumber : Cell → Option ℚ
  | null => some 0
  | num n => some n
  | nan => none
  | text s => (literal s.toList).bind Double.round

/-- `String(v)`. -/
def toString : Cell → String
  | null => "null"
  | num n => n.repr
  | nan => "NaN"
  | text s => s

/-- `v == 1`, which holds of no null. -/
def isOne (v : Cell) : Bool := v ≠ null ∧ v.toNumber = some 1

/-- `v > 0`. -/
def isPositive (v : Cell) : Bool := v.toNumber.any fun q => 0 < q

def isNull (v : Cell) : Bool := v = null ∨ v = text ""

/-- A text that `Number` reads as finite is one that `parseFloat` reads, unless it is blank. -/
def isNumeric : Cell → Bool
  | null => false
  | num _ => true
  | nan => false
  | text s => trimChars s.toList ≠ [] ∧ (text s).toNumber.isSome

/-- `parseInt(v)`. -/
def parseInt : Cell → Cell
  | null => nan
  | num n => num n
  | nan => nan
  | text s =>
    match (JsText.parseInt s).bind fun n => Double.round n with
    | some q => num q.num
    | none => nan

end Cell

def U64_MAX : Nat := 18446744073709551615

/-- An integer is compared as it stands, another number from the half below `2 ^ 64` on. -/
def exceedsU64 : Cell → Bool
  | .num n => n < 0 ∨ (U64_MAX : Int) < n
  | .text s =>
    let raw := trimChars s.toList
    let signed := splitSign raw
    if signed.2 ≠ [] ∧ signed.2.all isDigit then
      if signed.1 then 0 < digits 10 signed.2 else U64_MAX < digits 10 signed.2
    else
      match (literal raw).bind Double.round, literal raw with
      | some approx, some exact => approx < 0 ∨ (2 ^ 64 : ℚ) < approx ∨ (U64_MAX : ℚ) + 1 / 2 ≤ exact
      | _, _ => false
  | _ => false

/-! ### One character -/

theorem isNull_of_isOne {v : Cell} (h : v.isOne = true) : v.isNull = false := by
  simp only [Cell.isOne, decide_eq_true_eq] at h
  simp only [Cell.isNull, decide_eq_false_iff_not, not_or]
  refine ⟨h.1, ?_⟩
  rintro rfl
  have hround : Double.round 0 = some 0 := by simp [Double.round, Double.roundEven]
  have hblank : (Cell.text "").toNumber = some 0 := by
    simpa [Cell.toNumber, literal, trimChars] using hround
  have hone := h.2
  rw [hblank] at hone
  simp at hone

theorem round_nat {n : Nat} (h : n < 10) : Double.round (n : ℚ) = some (n : ℚ) := by
  have hsafe : |(n : Int)| ≤ Double.MAX_SAFE_INTEGER := by
    rw [Nat.abs_cast, Double.MAX_SAFE_INTEGER]
    omega
  simpa using Double.round_intCast hsafe

/-- What a text of one character other than a digit is worth. -/
theorem literal_singleton_of_not_digit {c : Char} (h : isDigit c = false) :
    literal [c] = if isSpace c then some 0 else none := by
  have htrim : trimChars [c] = if isSpace c then [] else [c] := by
    by_cases hspace : isSpace c <;> simp [trimChars, hspace]
  by_cases hspace : isSpace c
  · simp [literal, htrim, hspace]
  · have hdecimal : (decimal (String.ofList ([c].takeWhile fun c => c != 'e' && c != 'E'))) = none := by
      by_cases he : (c != 'e' && c != 'E') = true
      · have hmantissa : [c].takeWhile (fun c => c != 'e' && c != 'E') = [c] :=
          List.takeWhile_cons_of_pos he
        rw [hmantissa]
        unfold decimal
        by_cases hminus : c = '-'
        · subst hminus
          rfl
        by_cases hplus : c = '+'
        · subst hplus
          rfl
        have hsign : splitSign [c] = (false, [c]) := by
          unfold splitSign
          split <;> simp_all
        rw [String.toList_ofList, hsign]
        by_cases hdot : c = '.'
        · subst hdot
          rfl
        · simp only [List.takeWhile_cons, h, List.dropWhile_cons]
          split <;> simp_all
      · have hmantissa : [c].takeWhile (fun c => c != 'e' && c != 'E') = [] :=
          List.takeWhile_cons_of_neg he
        rw [hmantissa]
        rfl
    unfold literal
    rw [htrim, if_neg hspace, if_neg hspace]
    split <;> simp_all

/-- What a `VARCHAR(1)` column holds. -/
def Cell.Short : Cell → Prop
  | .text s => s.length ≤ 1
  | _ => True

instance (v : Cell) : Decidable v.Short := by
  unfold Cell.Short
  split <;> infer_instance

theorem toNumber_digit {n : Nat} (h : n < 10) :
    (Cell.text (String.ofList [n.digitChar])).toNumber = some (n : ℚ) := by
  have hvalue : literal [n.digitChar] = some (n : ℚ) := by
    interval_cases n <;> simp [literal, trimChars, List.rdropWhile, isSpace, decimal, splitSign,
      digits, digit, isDigit, exponentValue, Nat.digitChar, Option.filter]
  rw [Cell.toNumber, String.toList_ofList, hvalue, Option.bind_some, round_nat h]

theorem parseInt_digit {n : Nat} (h : n < 10) :
    (Cell.text (String.ofList [n.digitChar])).parseInt = .num n := by
  have hvalue : JsText.parseInt (String.ofList [n.digitChar]) = some (n : Int) := by
    interval_cases n <;> rfl
  have hround : Double.round ((n : Int) : ℚ) = some (n : ℚ) := by simpa using round_nat h
  rw [Cell.parseInt, hvalue, Option.bind_some, hround]
  rfl

end XChainSync.Tokens
