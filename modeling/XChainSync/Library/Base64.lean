import Mathlib

/-!
# Base64 over code units

The decoder takes both alphabets and skips every other unit, the padding among them.
-/

/-- A string of the language: its UTF-16 code units. -/
abbrev CodeUnits := List UInt16

instance : LawfulBEq CodeUnits := inferInstanceAs (LawfulBEq (List UInt16))

namespace Base64
set_option autoImplicit false

def alphabet : List Char := "ABCDEFGHIJKLMNOPQRSTUVWXYZabcdefghijklmnopqrstuvwxyz0123456789+/".toList

def letters : CodeUnits := alphabet.map fun c => UInt16.ofNat c.toNat

def letter (n : Nat) : UInt16 := letters.getD n 0

def padding : UInt16 := 0x3D

def sextet (c : UInt16) : Option Nat :=
  if c = 0x2D then some 62
  else if c = 0x5F then some 63
  else letters.findIdx? (· = c)

/-- `toString('base64')`. -/
def encode : List UInt8 → CodeUnits
  | [] => []
  | [a] => [letter (a.toNat / 4), letter (a.toNat % 4 * 16), padding, padding]
  | [a, b] =>
    [letter (a.toNat / 4), letter (a.toNat % 4 * 16 + b.toNat / 16), letter (b.toNat % 16 * 4),
      padding]
  | a :: b :: c :: rest =>
    letter (a.toNat / 4) :: letter (a.toNat % 4 * 16 + b.toNat / 16) ::
      letter (b.toNat % 16 * 4 + c.toNat / 64) :: letter (c.toNat % 64) :: encode rest

def ofSextets : List Nat → List UInt8
  | p :: q :: r :: s :: rest =>
    UInt8.ofNat (p * 4 + q / 16) :: UInt8.ofNat (q % 16 * 16 + r / 4) ::
      UInt8.ofNat (r % 4 * 64 + s) :: ofSextets rest
  | [p, q, r] => [UInt8.ofNat (p * 4 + q / 16), UInt8.ofNat (q % 16 * 16 + r / 4)]
  | [p, q] => [UInt8.ofNat (p * 4 + q / 16)]
  | _ => []

/-- `Buffer.from(text, 'base64')`. -/
def decode (text : CodeUnits) : List UInt8 := ofSextets (text.filterMap sextet)

theorem sextet_letter : ∀ n < 64, sextet (letter n) = some n := by decide +kernel

theorem sextet_padding : sextet padding = none := by decide

theorem ofNat_eq {n : Nat} {b : UInt8} (h : n = b.toNat) : UInt8.ofNat n = b := by
  rw [h, UInt8.ofNat_toNat]

theorem filterMap_letter {n : Nat} (h : n < 64) (rest : CodeUnits) :
    (letter n :: rest).filterMap sextet = n :: rest.filterMap sextet :=
  List.filterMap_cons_some (sextet_letter n h)

theorem decode_encode (bytes : List UInt8) : decode (encode bytes) = bytes := by
  unfold decode
  fun_induction encode bytes with
  | case1 => rfl
  | case2 a =>
    have ha := a.toNat_lt
    rw [filterMap_letter (by omega), filterMap_letter (by omega),
      List.filterMap_cons_none sextet_padding, List.filterMap_cons_none sextet_padding,
      List.filterMap_nil, ofSextets, ofNat_eq (b := a) (by omega)]
  | case3 a b =>
    have ha := a.toNat_lt
    have hb := b.toNat_lt
    rw [filterMap_letter (by omega), filterMap_letter (by omega), filterMap_letter (by omega),
      List.filterMap_cons_none sextet_padding, List.filterMap_nil, ofSextets,
      ofNat_eq (b := a) (by omega), ofNat_eq (b := b) (by omega)]
  | case4 a b c rest ih =>
    have ha := a.toNat_lt
    have hb := b.toNat_lt
    have hc := c.toNat_lt
    rw [filterMap_letter (by omega), filterMap_letter (by omega), filterMap_letter (by omega),
      filterMap_letter (by omega), ofSextets, ih, ofNat_eq (b := a) (by omega),
      ofNat_eq (b := b) (by omega), ofNat_eq (b := c) (by omega)]

end Base64
