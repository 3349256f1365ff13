import XChainSync.Library.JsText

/-!
# Parsed JSON values and what JavaScript coerces them to

A number is the double's value, none where the literal was too large for one. `Engine` is how an
engine rounds a decimal literal to a double and writes a double as text: nothing here depends on
either. Members of a parsed object are never functions, so an own `toString` makes every coercion of
the object throw.
-/

namespace Json
set_option autoImplicit false

inductive Value where
  | null
  | bool (b : Bool)
  | num (value : Option ℚ)
  | str (s : String)
  | arr (elements : List Value)
  | obj (members : List (String × Value))

structure Engine where
  toDouble : ℚ → Option ℚ
  numText : Option ℚ → String

/-- What a coercion throws. -/
structure TypeError where
  deriving DecidableEq, Repr

namespace Value

/-- `v.name`, undefined where there is no such member. -/
def member (name : String) : Value → Option Value
  | obj members => members.lookup name
  | _ => none

/-- `!!v`. -/
def truthy : Value → Bool
  | null => false
  | bool b => b
  | num value => value ≠ some 0
  | str s => s ≠ ""
  | arr _ => true
  | obj _ => true

mutual

/-- `String(v)`. -/
def text (js : Engine) : Value → Except TypeError String
  | null => .ok "null"
  | bool b => .ok (if b then "true" else "false")
  | num value => .ok (js.numText value)
  | str s => .ok s
  | arr elements => (elementTexts js elements).map (String.intercalate ",")
  | obj members => if (members.lookup "toString").isSome then .error ⟨⟩ else .ok "[object Object]"

/-- The texts that `join` puts together: null is empty there. -/
def elementTexts (js : Engine) : List Value → Except TypeError (List String)
  | [] => .ok []
  | null :: rest => (elementTexts js rest).map ("" :: ·)
  | v :: rest => do
    let s ← text js v
    let ss ← elementTexts js rest
    return s :: ss

end

end Value

/-! ### Numeric literals -/

/-- `/^[+-]?\d+$/`. -/
def exponent (cs : List Char) : Option Int :=
  let signed := JsText.splitSign cs
  if signed.2.isEmpty || !signed.2.all JsText.isDigit then none
  else some (if signed.1 then -(JsText.digits 10 signed.2 : Int) else JsText.digits 10 signed.2)

/-- A decimal literal with an exponent or without one. -/
def decimalLiteral (cs : List Char) : Option ℚ :=
  let isE := fun c : Char => c = 'e' || c = 'E'
  let mantissa := JsText.decimal (String.ofList (cs.takeWhile fun c => !isE c))
  match cs.dropWhile fun c => !isE c with
  | [] => mantissa
  | _ :: power => mantissa.bind fun m => (exponent power).map fun p => m * (10 : ℚ) ^ p

def radixLiteral (radix : Nat) (cs : List Char) : Option ℚ :=
  if cs.isEmpty || !cs.all (fun c => (JsText.digit radix c).isSome) then none
  else some (JsText.digits radix cs)

/-- `Number(s)` where it is finite. `Infinity` is no literal below. -/
def numberOfText (js : Engine) (s : String) : Option ℚ :=
  (match JsText.trimChars s.toList with
    | [] => some 0
    | '0' :: 'x' :: cs => radixLiteral 16 cs
    | '0' :: 'X' :: cs => radixLiteral 16 cs
    | '0' :: 'o' :: cs => radixLiteral 8 cs
    | '0' :: 'O' :: cs => radixLiteral 8 cs
    | '0' :: 'b' :: cs => radixLiteral 2 cs
    | '0' :: 'B' :: cs => radixLiteral 2 cs
    | cs => decimalLiteral cs).bind js.toDouble

/-- `Number(v)` where it is finite. -/
def Value.number (js : Engine) : Value → Except TypeError (Option ℚ)
  | .null => .ok (some 0)
  | .bool b => .ok (some (if b then 1 else 0))
  | .num value => .ok value
  | v => (v.text js).map (numberOfText js)

end Json
