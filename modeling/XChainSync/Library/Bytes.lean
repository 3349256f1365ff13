import Mathlib.Data.Nat.Bitwise
import XChainSync.Library.JsText

/-!
# Bytes as hex text and as flags

`Buffer.from(s, 'hex')` stops at the first pair that is no byte, so many texts read as the same
bytes. Exactly one of them is what `toString('hex')` writes.
-/

namespace Bytes
set_option autoImplicit false

/-! ### Hex -/

def hexDigits : List Char := "0123456789abcdef".toList

def hexDigit (n : Nat) : Char := hexDigits.getD n '0'

def encodeChars (bs : List UInt8) : List Char :=
  bs.flatMap fun b => [hexDigit (b.toNat / 16), hexDigit (b.toNat % 16)]

/-- `buf.toString('hex')`. -/
def toHex (bs : List UInt8) : String := String.ofList (encodeChars bs)

def decodeChars : List Char → List UInt8
  | a :: b :: cs =>
    match JsText.digit 16 a, JsText.digit 16 b with
    | some x, some y => UInt8.ofNat (16 * x + y) :: decodeChars cs
    | _, _ => []
  | _ => []

/-- `Buffer.from(s, 'hex')`. -/
def fromHex (s : String) : List UInt8 := decodeChars s.toList

/-- The text is what some bytes are written as. -/
def IsHex (s : String) : Prop := s.toList.length % 2 = 0 ∧ ∀ c ∈ s.toList, c ∈ hexDigits

theorem digit_hexDigit : ∀ n < 16, JsText.digit 16 (hexDigit n) = some n := by decide

/-- The digits are those of the numbers below sixteen. -/
theorem hexDigits_eq : hexDigits = (List.range 16).map hexDigit := by rfl

theorem hexDigit_digit : ∀ c ∈ hexDigits, ∃ n < 16, JsText.digit 16 c = some n ∧ hexDigit n = c := by
  intro c hc
  rw [hexDigits_eq] at hc
  obtain ⟨n, hn, rfl⟩ := List.mem_map.mp hc
  have hlt : n < 16 := List.mem_range.mp hn
  exact ⟨n, hlt, digit_hexDigit n hlt, rfl⟩

theorem decodeChars_encodeChars (bs : List UInt8) : decodeChars (encodeChars bs) = bs := by
  induction bs with
  | nil => rfl
  | cons b bs ih =>
    have hb := b.toNat_lt
    unfold encodeChars at ih ⊢
    simp only [List.flatMap_cons, List.cons_append, List.nil_append, decodeChars,
      digit_hexDigit _ (show b.toNat / 16 < 16 by omega),
      digit_hexDigit _ (show b.toNat % 16 < 16 by omega), ih, Nat.div_add_mod]
    simp

@[simp] theorem fromHex_toHex (bs : List UInt8) : fromHex (toHex bs) = bs := by
  simp [fromHex, toHex, decodeChars_encodeChars]

theorem toHex_injective : Function.Injective toHex := by
  intro a b h
  have hdecode := congrArg fromHex h
  simpa using hdecode

theorem encodeChars_decodeChars : ∀ cs : List Char, cs.length % 2 = 0 → (∀ c ∈ cs, c ∈ hexDigits) →
    encodeChars (decodeChars cs) = cs
  | [], _, _ => rfl
  | [_], hlength, _ => by simp at hlength
  | a :: b :: cs, hlength, hdigits => by
    obtain ⟨x, hx, ha, hxa⟩ := hexDigit_digit a (hdigits a (by simp))
    obtain ⟨y, hy, hb, hyb⟩ := hexDigit_digit b (hdigits b (by simp))
    have ih := encodeChars_decodeChars cs (by simp only [List.length_cons] at hlength; omega)
      fun c hc => hdigits c (by simp [hc])
    have hbyte : (UInt8.ofNat (16 * x + y)).toNat = 16 * x + y := by
      rw [UInt8.toNat_ofNat_of_lt']
      simp only [UInt8.size]
      omega
    unfold encodeChars at ih ⊢
    simp only [decodeChars, ha, hb, List.flatMap_cons, hbyte, ih]
    rw [show (16 * x + y) / 16 = x by omega, show (16 * x + y) % 16 = y by omega, hxa, hyb]
    rfl

theorem toHex_fromHex {s : String} (h : IsHex s) : toHex (fromHex s) = s := by
  unfold toHex fromHex
  rw [encodeChars_decodeChars _ h.1 h.2]
  simp

theorem isHex_toHex (bs : List UInt8) : IsHex (toHex bs) := by
  have hdigit : ∀ n < 16, hexDigit n ∈ hexDigits := by decide
  unfold IsHex toHex
  rw [String.toList_ofList]
  constructor
  · simp [encodeChars]
  · intro c hc
    obtain ⟨b, -, hc⟩ := List.mem_flatMap.mp hc
    have hb := b.toNat_lt
    simp only [List.mem_cons, List.not_mem_nil, or_false] at hc
    rcases hc with rfl | rfl
    · exact hdigit _ (by omega)
    · exact hdigit _ (by omega)

/-! ### Flags, the first at the highest bit of the first byte -/

def getFlag (bs : List UInt8) (i : Nat) : Bool :=
  ((bs.getD (i >>> 3) 0).toNat >>> (7 - (i &&& 7))) &&& 1 == 1

def setFlag (bs : List UInt8) (i : Nat) : List UInt8 :=
  bs.modify (i >>> 3) fun b => b ||| (1 <<< UInt8.ofNat (7 - (i &&& 7)))

theorem and_seven (i : Nat) : i &&& 7 = i % 8 := by
  rw [show (7 : Nat) = 2^3 - 1 by rfl, Nat.and_two_pow_sub_one_eq_mod]

theorem shiftRight_three (i : Nat) : i >>> 3 = i / 8 := Nat.shiftRight_eq_div_pow i 3

theorem getFlag_eq_testBit (bs : List UInt8) (i : Nat) :
    getFlag bs i = (bs.getD (i / 8) 0).toNat.testBit (7 - i % 8) := by
  rw [getFlag, and_seven, shiftRight_three]
  generalize (bs.getD (i / 8) 0).toNat = byte
  simp only [Nat.testBit, Nat.one_and_eq_mod_two, Nat.and_one_is_mod]
  rcases Nat.mod_two_eq_zero_or_one (byte >>> (7 - i % 8)) with h | h <;> simp [h]

@[simp] theorem length_setFlag (bs : List UInt8) (i : Nat) : (setFlag bs i).length = bs.length := by
  simp [setFlag]

theorem testBit_flag : ∀ b < 8, ∀ b' < 8,
    (1 <<< UInt8.ofNat b : UInt8).toNat.testBit b' = decide (b = b') := by decide

theorem getFlag_setFlag {bs : List UInt8} {i : Nat} (hi : i < 8 * bs.length) (j : Nat) :
    getFlag (setFlag bs i) j = (getFlag bs j || decide (i = j)) := by
  rw [getFlag_eq_testBit, getFlag_eq_testBit, setFlag, and_seven, shiftRight_three]
  have hbyte : i / 8 < bs.length := by omega
  simp only [List.getD_eq_getElem?_getD, List.getElem?_modify]
  by_cases hsame : i / 8 = j / 8
  · have hj : j / 8 < bs.length := hsame ▸ hbyte
    simp only [hsame, if_true, List.getElem?_eq_getElem hj, Option.map_eq_map, Option.map_some,
      Option.getD_some, UInt8.toNat_or, Nat.testBit_or]
    rw [testBit_flag _ (by omega) _ (by omega)]
    congr 1
    simp only [decide_eq_decide]
    omega
  · have hne : i ≠ j := by
      rintro rfl
      exact hsame rfl
    simp [hsame, hne]

end Bytes
