import Mathlib.Data.Rat.Defs
import Mathlib.Algebra.Order.Ring.Rat
import Mathlib.Data.List.DropRight

/-!
# Texts and numerals of JavaScript

White space, `trim()`, `parseInt` and plain decimal numerals, on the characters of a text.
-/

namespace JsText
set_option autoImplicit false

/-- White space and line terminators. -/
def isSpace (c : Char) : Bool :=
  let n := c.toNat
  (9 ≤ n && n ≤ 13) || n = 32 || n = 0xA0 || n = 0x1680 || (0x2000 ≤ n && n ≤ 0x200A) ||
    n = 0x2028 || n = 0x2029 || n = 0x202F || n = 0x205F || n = 0x3000 || n = 0xFEFF

def trimChars (cs : List Char) : List Char := (cs.dropWhile isSpace).rdropWhile isSpace

/-- `s.trim()`. -/
def trim (s : String) : String := String.ofList (trimChars s.toList)

theorem trimChars_trimChars (cs : List Char) : trimChars (trimChars cs) = trimChars cs := by
  -- what is cut on the right leaves the first character, which is no space
  have hhead : (trimChars cs).dropWhile isSpace = trimChars cs := by
    rw [List.dropWhile_eq_self_iff]
    intro hlength
    have hpre : trimChars cs <+: cs.dropWhile isSpace := List.rdropWhile_prefix _ _
    have hself := List.dropWhile_eq_self_iff.mp (List.dropWhile_idempotent isSpace (l := cs))
    rw [hpre.getElem hlength]
    exact hself (hlength.trans_le hpre.length_le)
  conv_lhs => rw [trimChars, hhead]
  exact List.rdropWhile_idempotent _ _

@[simp] theorem trim_trim (s : String) : trim (trim s) = trim s := by
  simp [trim, trimChars_trimChars]

def digit (radix : Nat) (c : Char) : Option Nat :=
  let n := c.toNat
  let d := if 48 ≤ n && n ≤ 57 then some (n - 48)
    else if 97 ≤ n && n ≤ 122 then some (n - 87)
    else if 65 ≤ n && n ≤ 90 then some (n - 55)
    else none
  d.filter (· < radix)

def isDigit (c : Char) : Bool := (digit 10 c).isSome

/-- The number that digits write, the highest place first. -/
def digits (radix : Nat) (cs : List Char) : Nat :=
  cs.foldl (fun n c => n * radix + (digit radix c).getD 0) 0

def splitSign : List Char → Bool × List Char
  | '-' :: cs => (true, cs)
  | '+' :: cs => (false, cs)
  | cs => (false, cs)

def splitRadix : List Char → Nat × List Char
  | '0' :: 'x' :: cs => (16, cs)
  | '0' :: 'X' :: cs => (16, cs)
  | cs => (10, cs)

/-- The least natural number that rounds to Infinity, `2 ^ 1024 - 2 ^ 970`. -/
def infiniteFrom : Nat := (2 ^ 54 - 1) * (2 ^ 194) ^ 5

/-- `parseInt(s)` where the result is finite. -/
def parseInt (s : String) : Option Int :=
  let signed := splitSign (s.toList.dropWhile isSpace)
  let based := splitRadix signed.2
  let written := based.2.takeWhile fun c => (digit based.1 c).isSome
  let n := digits based.1 written
  if written.isEmpty || infiniteFrom ≤ n then none
  else some (if signed.1 then -(n : Int) else n)

/-- The value of a text of the form `/^[+-]?(\d+\.?\d*|\.\d+)$/`. -/
def decimal (s : String) : Option ℚ :=
  let signed := splitSign s.toList
  let whole := signed.2.takeWhile isDigit
  let frac := match signed.2.dropWhile isDigit with
    | [] => some []
    | '.' :: cs => if cs.all isDigit then some cs else none
    | _ :: _ => none
  frac.bind fun cs =>
    if whole.isEmpty && cs.isEmpty then none
    else
      let value : ℚ := digits 10 (whole ++ cs) / (10 : ℚ) ^ cs.length
      some (if signed.1 then -value else value)

end JsText
