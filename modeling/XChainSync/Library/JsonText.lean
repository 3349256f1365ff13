import Mathlib
import XChainSync.Library.Base64
import XChainSync.Library.Bytes
import XChainSync.Library.Double
import XChainSync.Library.Json

/-!
# The text of a JSON value

`JSON.stringify` without indentation and `JSON.parse`, over code units. A number is the double's
value, none where it is not finite. `shortest` is what the engine writes for a number that is not an
integer below 10^21.
-/

namespace JsonText
set_option autoImplicit false

inductive Value where
  | null
  | bool (b : Bool)
  | num (value : Option ℚ)
  | str (s : CodeUnits)
  | arr (elements : List Value)
  | obj (members : List (CodeUnits × Value))

def unit (c : Char) : UInt16 := UInt16.ofNat c.toNat

/-- The units of a text of ASCII characters. -/
def ascii (s : String) : CodeUnits := s.toList.map unit

/-! ### Writing -/

def isLead (c : UInt16) : Bool := 0xD800 ≤ c ∧ c ≤ 0xDBFF

def isTrail (c : UInt16) : Bool := 0xDC00 ≤ c ∧ c ≤ 0xDFFF

def hex (n : Nat) : UInt16 := unit (Bytes.hexDigit n)

def unicodeEscape (c : UInt16) : CodeUnits :=
  [0x5C, 0x75, hex (c.toNat / 4096), hex (c.toNat / 256 % 16), hex (c.toNat / 16 % 16),
    hex (c.toNat % 16)]

/-- A unit of a string. A surrogate gets here only where it is not one of a pair. -/
def writeUnit (c : UInt16) : CodeUnits :=
  if c = 0x22 ∨ c = 0x5C then [0x5C, c]
  else if c = 0x08 then [0x5C, 0x62]
  else if c = 0x09 then [0x5C, 0x74]
  else if c = 0x0A then [0x5C, 0x6E]
  else if c = 0x0C then [0x5C, 0x66]
  else if c = 0x0D then [0x5C, 0x72]
  else if c < 0x20 ∨ isLead c ∨ isTrail c then unicodeEscape c
  else [c]

def writeUnits : CodeUnits → CodeUnits
  | [] => []
  | [c] => writeUnit c
  | c :: d :: rest =>
    if isLead c ∧ isTrail d then c :: d :: writeUnits rest
    else writeUnit c ++ writeUnits (d :: rest)

def writeString (s : CodeUnits) : CodeUnits := 0x22 :: (writeUnits s ++ [0x22])

def natText (n : Nat) : CodeUnits := (Nat.toDigits 10 n).map unit

def intText (n : Int) : CodeUnits := if n < 0 then 0x2D :: natText n.natAbs else natText n.natAbs

section Write
variable (shortest : ℚ → CodeUnits)

def writeNumber : Option ℚ → CodeUnits
  | none => ascii "null"
  | some q => if q.den = 1 ∧ q.num.natAbs < 10 ^ 21 then intText q.num else shortest q

mutual

/-- `JSON.stringify`. -/
def write : Value → CodeUnits
  | .null => ascii "null"
  | .bool b => if b then ascii "true" else ascii "false"
  | .num value => writeNumber shortest value
  | .str s => writeString s
  | .arr [] => ascii "[]"
  | .arr (v :: rest) => 0x5B :: (write v ++ writeElements rest)
  | .obj [] => ascii "\x7b\x7d"
  | .obj ((name, v) :: rest) => 0x7B :: (writeString name ++ 0x3A :: (write v ++ writeMembers rest))

def writeElements : List Value → CodeUnits
  | [] => [0x5D]
  | v :: rest => 0x2C :: (write v ++ writeElements rest)

def writeMembers : List (CodeUnits × Value) → CodeUnits
  | [] => [0x7D]
  | (name, v) :: rest => 0x2C :: (writeString name ++ 0x3A :: (write v ++ writeMembers rest))

end

end Write

/-! ### Reading -/

def isBlank (c : UInt16) : Bool := c = 0x20 ∨ c = 0x09 ∨ c = 0x0A ∨ c = 0x0D

def skip (cs : CodeUnits) : CodeUnits := cs.dropWhile isBlank

def unescape (c : UInt16) : Option UInt16 :=
  if c = 0x22 ∨ c = 0x5C ∨ c = 0x2F then some c
  else if c = 0x62 then some 0x08
  else if c = 0x66 then some 0x0C
  else if c = 0x6E then some 0x0A
  else if c = 0x72 then some 0x0D
  else if c = 0x74 then some 0x09
  else none

def hexValue (c : UInt16) : Option Nat := JsText.digit 16 (Char.ofNat c.toNat)

/-- The unit of four hexadecimal digits. -/
def unitOfHex (p q r s : UInt16) : Option UInt16 := do
  let p ← hexValue p
  let q ← hexValue q
  let r ← hexValue r
  let s ← hexValue s
  return UInt16.ofNat (p * 4096 + q * 256 + r * 16 + s)

/-- The rest of a string after its opening quote, and what follows the closing one. -/
def readUnits : CodeUnits → Option (CodeUnits × CodeUnits)
  | [] => none
  | 0x22 :: rest => some ([], rest)
  | 0x5C :: 0x75 :: p :: q :: r :: s :: rest => do
    let c ← unitOfHex p q r s
    let (cs, rest) ← readUnits rest
    return (c :: cs, rest)
  | 0x5C :: e :: rest => do
    let c ← unescape e
    let (cs, rest) ← readUnits rest
    return (c :: cs, rest)
  | c :: rest => do
    guard (c ≠ 0x5C ∧ 0x20 ≤ c)
    let (cs, rest) ← readUnits rest
    return (c :: cs, rest)

/-! Numbers -/

def isDigit (c : UInt16) : Bool := 0x30 ≤ c ∧ c ≤ 0x39

def digitsValue (ds : CodeUnits) : Nat := Nat.ofDigitChars 10 (ds.map fun c => Char.ofNat c.toNat) 0

def readInt : CodeUnits → Option (CodeUnits × CodeUnits)
  | [] => none
  | c :: rest =>
    if c = 0x30 then some ([c], rest)
    else if isDigit c then some (c :: rest.takeWhile isDigit, rest.dropWhile isDigit)
    else none

/-- One digit or more. -/
def readDigits (cs : CodeUnits) : Option (CodeUnits × CodeUnits) :=
  if (cs.takeWhile isDigit).isEmpty then none else some (cs.takeWhile isDigit, cs.dropWhile isDigit)

def readFraction : CodeUnits → Option (CodeUnits × CodeUnits)
  | 0x2E :: rest => readDigits rest
  | cs => some ([], cs)

def readExponent (cs : CodeUnits) : Option (Int × CodeUnits) :=
  match cs with
  | c :: rest =>
    if c = 0x65 ∨ c = 0x45 then
      match rest with
      | 0x2D :: ds => (readDigits ds).map fun p => (-(digitsValue p.1 : Int), p.2)
      | 0x2B :: ds => (readDigits ds).map fun p => ((digitsValue p.1 : Int), p.2)
      | ds => (readDigits ds).map fun p => ((digitsValue p.1 : Int), p.2)
    else some (0, cs)
  | [] => some (0, cs)

/-- A number without its sign. -/
def readMagnitude (cs : CodeUnits) : Option (ℚ × CodeUnits) := do
  let (whole, cs) ← readInt cs
  let (fraction, cs) ← readFraction cs
  let (power, cs) ← readExponent cs
  return ((digitsValue (whole ++ fraction) : ℚ) * 10 ^ (power - fraction.length), cs)

def readNumber : CodeUnits → Option (Option ℚ × CodeUnits)
  | 0x2D :: rest => (readMagnitude rest).map fun p => (Double.round (-p.1), p.2)
  | cs => (readMagnitude cs).map fun p => (Double.round p.1, p.2)

/-! Values. A member that is repeated takes its last value. -/

def setMember (members : List (CodeUnits × Value)) (name : CodeUnits) (v : Value) :
    List (CodeUnits × Value) :=
  if members.any (·.1 = name) then members.map fun m => if m.1 = name then (name, v) else m
  else members ++ [(name, v)]

def readLiteral (text : String) (v : Value) (cs : CodeUnits) : Option (Value × CodeUnits) :=
  if (ascii text).isPrefixOf cs then some (v, cs.drop (ascii text).length) else none

/-- The name of a member with the colon after it. -/
def readName (cs : CodeUnits) : Option (CodeUnits × CodeUnits) :=
  match skip cs with
  | 0x22 :: rest => do
    let (name, rest) ← readUnits rest
    match skip rest with
    | 0x3A :: rest => return (name, rest)
    | _ => none
  | _ => none

mutual

/-- `fuel` bounds the nesting. -/
def readValue (fuel : Nat) (cs : CodeUnits) : Option (Value × CodeUnits) :=
  match fuel with
  | 0 => none
  | fuel+1 =>
    match skip cs with
    | [] => none
    | c :: rest =>
      if c = 0x22 then (readUnits rest).map fun p => (.str p.1, p.2)
      else if c = 0x5B then
        match skip rest with
        | 0x5D :: rest => some (.arr [], rest)
        | _ => do
          let (v, rest) ← readValue fuel rest
          readElements fuel [v] rest
      else if c = 0x7B then
        match skip rest with
        | 0x7D :: rest => some (.obj [], rest)
        | _ => do
          let (name, rest) ← readName rest
          let (v, rest) ← readValue fuel rest
          readMembers fuel [(name, v)] rest
      else if c = 0x6E then readLiteral "null" .null (c :: rest)
      else if c = 0x74 then readLiteral "true" (.bool true) (c :: rest)
      else if c = 0x66 then readLiteral "false" (.bool false) (c :: rest)
      else (readNumber (c :: rest)).map fun p => (.num p.1, p.2)

def readElements (fuel : Nat) (elements : List Value) (cs : CodeUnits) :
    Option (Value × CodeUnits) :=
  match fuel with
  | 0 => none
  | fuel+1 =>
    match skip cs with
    | 0x5D :: rest => some (.arr elements, rest)
    | 0x2C :: rest => do
      let (v, rest) ← readValue fuel rest
      readElements fuel (elements ++ [v]) rest
    | _ => none

def readMembers (fuel : Nat) (members : List (CodeUnits × Value)) (cs : CodeUnits) :
    Option (Value × CodeUnits) :=
  match fuel with
  | 0 => none
  | fuel+1 =>
    match skip cs with
    | 0x7D :: rest => some (.obj members, rest)
    | 0x2C :: rest => do
      let (name, rest) ← readName rest
      let (v, rest) ← readValue fuel rest
      readMembers fuel (setMember members name v) rest
    | _ => none

end

/-- `JSON.parse`, none where it throws. A text nests no deeper than it is long. -/
def parse (cs : CodeUnits) : Option Value := do
  let (v, rest) ← readValue (cs.length + 1) cs
  guard (skip rest = [])
  return v

/-! ### Strings -/

/-- Reading goes on after one unit of a string. -/
def goOn (c : UInt16) (r : Option (CodeUnits × CodeUnits)) : Option (CodeUnits × CodeUnits) :=
  r.map fun p => (c :: p.1, p.2)

theorem readUnits_raw {c : UInt16} (hquote : c ≠ 0x22) (hslash : c ≠ 0x5C) (hlow : 0x20 ≤ c)
    (rest : CodeUnits) : readUnits (c :: rest) = goOn c (readUnits rest) := by
  rw [readUnits]
  · simp only [hslash, hlow, ne_eq, not_false_eq_true, and_self, guard_true, goOn]
    cases readUnits rest with
    | none => rfl
    | some p => rfl
  all_goals
    intros
    simp_all

theorem hexValue_hex : ∀ n < 16, hexValue (hex n) = some n := by decide

theorem unitOfHex_hex (c : UInt16) :
    unitOfHex (hex (c.toNat / 4096)) (hex (c.toNat / 256 % 16)) (hex (c.toNat / 16 % 16))
      (hex (c.toNat % 16)) = some c := by
  have hc := c.toNat_lt
  unfold unitOfHex
  rw [hexValue_hex _ (by omega), hexValue_hex _ (by omega), hexValue_hex _ (by omega),
    hexValue_hex _ (by omega)]
  have hsum : c.toNat / 4096 * 4096 + c.toNat / 256 % 16 * 256 + c.toNat / 16 % 16 * 16 +
      c.toNat % 16 = c.toNat := by omega
  simp only [Option.bind_eq_bind, Option.bind_some, Option.pure_def, hsum, UInt16.ofNat_toNat]

theorem readUnits_unicodeEscape (c : UInt16) (rest : CodeUnits) :
    readUnits (unicodeEscape c ++ rest) = goOn c (readUnits rest) := by
  rw [unicodeEscape, List.cons_append, List.cons_append, List.cons_append, List.cons_append,
    List.cons_append, List.cons_append, List.nil_append, readUnits, unitOfHex_hex]
  cases readUnits rest with
  | none => rfl
  | some p => rfl

theorem readUnits_escape {e c : UInt16} (he : unescape e = some c) (rest : CodeUnits) :
    readUnits (0x5C :: e :: rest) = goOn c (readUnits rest) := by
  have hu : e ≠ 0x75 := by
    rintro rfl
    have hnone : unescape 0x75 = none := by decide
    rw [hnone] at he
    cases he
  rw [readUnits]
  · rw [he]
    cases readUnits rest with
    | none => rfl
    | some p => rfl
  · intro p q r s rest' h
    exact absurd h hu

/-- What is written for one unit is read as it. -/
theorem readUnits_writeUnit (c : UInt16) (rest : CodeUnits) :
    readUnits (writeUnit c ++ rest) = goOn c (readUnits rest) := by
  unfold writeUnit
  split_ifs with h1 h2 h3 h4 h5 h6 h7
  · apply readUnits_escape
    rcases h1 with rfl | rfl <;> decide
  · exact readUnits_escape (by rw [h2]; decide) rest
  · exact readUnits_escape (by rw [h3]; decide) rest
  · exact readUnits_escape (by rw [h4]; decide) rest
  · exact readUnits_escape (by rw [h5]; decide) rest
  · exact readUnits_escape (by rw [h6]; decide) rest
  · exact readUnits_unicodeEscape c rest
  · apply readUnits_raw
    · exact fun h => h1 (Or.inl h)
    · exact fun h => h1 (Or.inr h)
    · exact UInt16.not_lt.mp fun h => h7 (Or.inl h)

theorem readUnits_surrogate {c : UInt16} (h : isLead c ∨ isTrail c) (rest : CodeUnits) :
    readUnits (c :: rest) = goOn c (readUnits rest) := by
  have hhigh : 0xD800 ≤ c := by
    rcases h with h | h
    · exact (of_decide_eq_true h).1
    · exact UInt16.le_trans (by decide) (of_decide_eq_true h).1
  apply readUnits_raw
  · rintro rfl
    exact absurd hhigh (by decide)
  · rintro rfl
    exact absurd hhigh (by decide)
  · exact UInt16.le_trans (by decide) hhigh

theorem readUnits_writeUnits (s rest : CodeUnits) :
    readUnits (writeUnits s ++ 0x22 :: rest) = some (s, rest) := by
  fun_induction writeUnits s with
  | case1 => rfl
  | case2 c =>
    rw [readUnits_writeUnit]
    rfl
  | case3 c d tail h ih =>
    rw [List.cons_append, List.cons_append, readUnits_surrogate (Or.inl h.1),
      readUnits_surrogate (Or.inr h.2), ih]
    rfl
  | case4 c d tail h ih =>
    rw [List.append_assoc, readUnits_writeUnit, ih]
    rfl

theorem writeString_append_inj {s t rest rest' : CodeUnits}
    (h : writeString s ++ rest = writeString t ++ rest') : s = t ∧ rest = rest' := by
  rw [writeString, writeString, List.cons_append, List.cons_append, List.append_assoc, List.append_assoc,
    List.singleton_append, List.singleton_append] at h
  have hread := readUnits_writeUnits s rest
  rw [(List.cons.inj h).2, readUnits_writeUnits, Option.some_inj] at hread
  exact ⟨(Prod.mk.inj hread).1.symm, (Prod.mk.inj hread).2.symm⟩

/-! ### Integers -/

/-- What may follow a value in a written text. -/
def Ends (rest : CodeUnits) : Prop := ∀ c ∈ rest.head?, c = 0x2C ∨ c = 0x5D ∨ c = 0x7D

theorem toNat_unit {c : Char} (hc : c.toNat < 2 ^ 16) : (unit c).toNat = c.toNat := by
  rw [unit, UInt16.toNat_ofNat', Nat.mod_eq_of_lt hc]

theorem toNat_of_isDigit {c : Char} (hc : c.isDigit) : 48 ≤ c.toNat ∧ c.toNat ≤ 57 := by
  simpa [Char.isDigit, UInt32.le_iff_toNat_le] using hc

theorem isDigit_unit {c : Char} (hc : c.isDigit) : isDigit (unit c) := by
  have hrange := toNat_of_isDigit hc
  have hnat := toNat_unit (c := c) (by omega)
  simp only [isDigit, UInt16.le_iff_toNat_le, hnat, decide_eq_true_eq]
  exact hrange

theorem ofNat_unit {c : Char} (hc : c.isDigit) : Char.ofNat (unit c).toNat = c := by
  have hrange := toNat_of_isDigit hc
  rw [toNat_unit (by omega), Char.ofNat_toNat]

theorem isDigit_of_mem_natText {n : Nat} {c : UInt16} (h : c ∈ natText n) : isDigit c := by
  obtain ⟨d, hd, rfl⟩ := List.mem_map.mp h
  exact isDigit_unit (Nat.isDigit_of_mem_toDigits (by decide) (by decide) hd)

theorem digitsValue_natText (n : Nat) : digitsValue (natText n) = n := by
  have hchars : (natText n).map (fun c => Char.ofNat c.toNat) = Nat.toDigits 10 n := by
    rw [natText, List.map_map]
    conv_rhs => rw [← List.map_id (Nat.toDigits 10 n)]
    apply List.map_congr_left
    intro c hc
    exact ofNat_unit (Nat.isDigit_of_mem_toDigits (by decide) (by decide) hc)
  rw [digitsValue, hchars, Nat.ofDigitChars_ten_toDigits]

theorem natText_injective : Function.Injective natText := by
  intro m n h
  rw [← digitsValue_natText m, h, digitsValue_natText]

theorem minus_not_mem_natText (n : Nat) : (0x2D : UInt16) ∉ natText n := by
  intro h
  exact absurd (isDigit_of_mem_natText h) (by decide)

theorem intText_injective : Function.Injective intText := by
  intro m n h
  unfold intText at h
  split_ifs at h with hm hn hn
  · have := natText_injective (List.cons.inj h).2
    omega
  · exact absurd (h ▸ List.mem_cons_self) (minus_not_mem_natText n.natAbs)
  · exact absurd (h ▸ List.mem_cons_self) (minus_not_mem_natText m.natAbs)
  · have := natText_injective h
    omega

/-- A number other than zero starts with another digit. -/
theorem head_natText {n : Nat} (hn : 0 < n) : ∃ c ds, natText n = c :: ds ∧ c ≠ 0x30 := by
  induction n using Nat.strongRecOn with
  | ind n ih =>
    by_cases hlt : n < 10
    · refine ⟨unit n.digitChar, [], ?_, ?_⟩
      · rw [natText, Nat.toDigits_of_lt_base hlt, List.map_singleton]
      · have hdigit : ∀ m < 10, 0 < m → unit m.digitChar ≠ 0x30 := by decide
        exact hdigit n hlt hn
    · obtain ⟨c, ds, hds, hc⟩ := ih (n / 10) (by omega) (by omega)
      refine ⟨c, ds ++ [unit (n % 10).digitChar], ?_, hc⟩
      unfold natText at hds ⊢
      rw [Nat.toDigits_of_base_le (by decide) (by omega), List.map_append, hds]
      rfl

theorem head_not_isDigit {rest : CodeUnits} (h : Ends rest) :
    rest.takeWhile isDigit = [] ∧ rest.dropWhile isDigit = rest := by
  cases rest with
  | nil => exact ⟨rfl, rfl⟩
  | cons c rest =>
    have hc : isDigit c = false := by
      rcases h c rfl with rfl | rfl | rfl <;> decide
    simp [hc]

theorem readInt_natText (n : Nat) {rest : CodeUnits} (h : Ends rest) :
    readInt (natText n ++ rest) = some (natText n, rest) := by
  rcases Nat.eq_zero_or_pos n with rfl | hn
  · rfl
  · obtain ⟨c, ds, hds, hc⟩ := head_natText hn
    have hdigits : ∀ d ∈ c :: ds, isDigit d := by
      rw [← hds]
      exact fun d hd => isDigit_of_mem_natText hd
    have htail : ∀ d ∈ ds, isDigit d := fun d hd => hdigits d (List.mem_cons_of_mem _ hd)
    rw [hds, List.cons_append, readInt, if_neg hc, if_pos (hdigits c List.mem_cons_self),
      List.takeWhile_append_of_pos htail, List.dropWhile_append_of_pos htail,
      (head_not_isDigit h).1, (head_not_isDigit h).2, List.append_nil]

theorem readFraction_of_ends {rest : CodeUnits} (h : Ends rest) :
    readFraction rest = some ([], rest) := by
  unfold readFraction
  split
  · rcases h _ rfl with hc | hc | hc <;> exact absurd hc (by decide)
  · rfl

theorem readExponent_of_ends {rest : CodeUnits} (h : Ends rest) :
    readExponent rest = some (0, rest) := by
  cases rest with
  | nil => rfl
  | cons c rest =>
    have hc : ¬ (c = 0x65 ∨ c = 0x45) := by
      rcases h c rfl with rfl | rfl | rfl <;> decide
    simp only [readExponent, if_neg hc]

theorem readMagnitude_natText (n : Nat) {rest : CodeUnits} (h : Ends rest) :
    readMagnitude (natText n ++ rest) = some ((n : ℚ), rest) := by
  unfold readMagnitude
  rw [readInt_natText n h]
  simp only [Option.bind_eq_bind, Option.bind_some, readFraction_of_ends h, readExponent_of_ends h,
    List.append_nil, digitsValue_natText, List.length_nil, Nat.cast_zero, sub_zero, zpow_zero,
    mul_one, Option.pure_def]

theorem readNumber_intText {n : Int} (hn : |n| ≤ Double.MAX_SAFE_INTEGER) {rest : CodeUnits}
    (h : Ends rest) : readNumber (intText n ++ rest) = some (some (n : ℚ), rest) := by
  have hround := Double.round_intCast hn
  unfold intText
  split_ifs with hneg
  · rw [List.cons_append, readNumber, readMagnitude_natText _ h]
    have hvalue : -(n.natAbs : ℚ) = n := by
      have : -(n.natAbs : Int) = n := by omega
      exact_mod_cast this
    rw [Option.map_some, hvalue, hround]
  · have hvalue : (n.natAbs : ℚ) = n := by
      rw [← Int.cast_natCast, Int.natAbs_of_nonneg (by omega)]
    rw [readNumber]
    · rw [readMagnitude_natText _ h, Option.map_some, hvalue, hround]
    · intro tail htail
      have hmem : (0x2D : UInt16) ∈ natText n.natAbs := by
        obtain ⟨c, ds, hds⟩ := List.exists_cons_of_ne_nil
          (l := natText n.natAbs) (by simp [natText, Nat.toDigits_ne_nil])
        rw [hds] at htail ⊢
        rw [(List.cons.inj htail).1]
        exact List.mem_cons_self
      exact minus_not_mem_natText _ hmem

/-! ### Values -/

mutual

/-- Every number is a safe integer and the members of every object have names of their own. -/
def Plain : Value → Prop
  | .num none => False
  | .num (some q) => q.den = 1 ∧ |q.num| ≤ Double.MAX_SAFE_INTEGER
  | .arr elements => PlainElements elements
  | .obj members => (members.map Prod.fst).Nodup ∧ PlainMembers members
  | _ => True

def PlainElements : List Value → Prop
  | [] => True
  | v :: rest => Plain v ∧ PlainElements rest

def PlainMembers : List (CodeUnits × Value) → Prop
  | [] => True
  | (_, v) :: rest => Plain v ∧ PlainMembers rest

end

section RoundTrip
variable {shortest : ℚ → CodeUnits}

theorem writeNumber_of_plain {q : ℚ} (h : Plain (.num (some q))) :
    writeNumber shortest (some q) = intText q.num ∧ (q.num : ℚ) = q := by
  rw [Plain] at h
  have hfits : q.num.natAbs < 10 ^ 21 := by
    have hsafe := h.2
    rw [Int.abs_eq_natAbs, Double.MAX_SAFE_INTEGER] at hsafe
    omega
  exact ⟨if_pos ⟨h.1, hfits⟩, (Rat.den_eq_one_iff q).mp h.1⟩

/-- A value that starts with this unit is read as a number. -/
def StartsNumber (c : UInt16) : Prop := c = 0x2D ∨ isDigit c

theorem head_intText (n : Int) : ∃ c ds, intText n = c :: ds ∧ StartsNumber c := by
  unfold intText
  split_ifs
  · exact ⟨_, _, rfl, Or.inl rfl⟩
  · obtain ⟨c, ds, hds⟩ := List.exists_cons_of_ne_nil
      (l := natText n.natAbs) (by simp [natText, Nat.toDigits_ne_nil])
    refine ⟨c, ds, hds, Or.inr (isDigit_of_mem_natText (n := n.natAbs) ?_)⟩
    rw [hds]
    exact List.mem_cons_self

theorem StartsNumber.apart {c : UInt16} (h : StartsNumber c) :
    isBlank c = false ∧ c ≠ 0x22 ∧ c ≠ 0x5B ∧ c ≠ 0x5D ∧ c ≠ 0x7B ∧ c ≠ 0x6E ∧ c ≠ 0x74 ∧
      c ≠ 0x66 := by
  rcases h with rfl | h
  · decide
  · have hrange := of_decide_eq_true h
    simp only [UInt16.le_iff_toNat_le, UInt16.reduceToNat] at hrange
    refine ⟨?_, ?_, ?_, ?_, ?_, ?_, ?_, ?_⟩
    · simp only [isBlank, decide_eq_false_iff_not]
      rintro (rfl | rfl | rfl | rfl) <;> exact absurd hrange (by decide)
    all_goals
      rintro rfl
      exact absurd hrange (by decide)

/-- A written value starts with no blank and with no closing bracket. -/
theorem head_write {v : Value} (h : Plain v) :
    ∃ c cs, write shortest v = c :: cs ∧ isBlank c = false ∧ c ≠ 0x5D := by
  match v with
  | .null => exact ⟨_, _, rfl, by decide, by decide⟩
  | .bool true => exact ⟨_, _, rfl, by decide, by decide⟩
  | .bool false => exact ⟨_, _, rfl, by decide, by decide⟩
  | .num none => exact h.elim
  | .num (some q) =>
    obtain ⟨c, cs, hcs, hc⟩ := head_intText q.num
    refine ⟨c, cs, ?_, hc.apart.1, hc.apart.2.2.2.1⟩
    rw [write, (writeNumber_of_plain h).1, hcs]
  | .str s => exact ⟨_, _, by rw [write, writeString], by decide, by decide⟩
  | .arr [] => exact ⟨_, _, by rw [write]; rfl, by decide, by decide⟩
  | .arr (v :: rest) => exact ⟨_, _, by rw [write], by decide, by decide⟩
  | .obj [] => exact ⟨_, _, by rw [write]; rfl, by decide, by decide⟩
  | .obj ((name, v) :: rest) => exact ⟨_, _, by rw [write], by decide, by decide⟩

theorem skip_cons {c : UInt16} (h : isBlank c = false) (cs : CodeUnits) :
    skip (c :: cs) = c :: cs := by
  rw [skip, List.dropWhile_cons, h]
  rfl

theorem skip_write {v : Value} (h : Plain v) (rest : CodeUnits) :
    skip (write shortest v ++ rest) = write shortest v ++ rest := by
  obtain ⟨c, cs, hcs, hc, -⟩ := @head_write shortest _ h
  rw [hcs, List.cons_append, skip_cons hc]

theorem readName_write (name rest : CodeUnits) :
    readName (writeString name ++ 0x3A :: rest) = some (name, rest) := by
  have hcolon : skip (0x3A :: rest) = 0x3A :: rest := skip_cons (by decide) rest
  rw [readName, writeString, List.cons_append, skip_cons (by decide), List.append_assoc,
    List.singleton_append]
  simp only [readUnits_writeUnits, Option.bind_eq_bind, Option.bind_some, hcolon, Option.pure_def]

theorem ends_writeElements (elements : List Value) (rest : CodeUnits) :
    Ends (writeElements shortest elements ++ rest) := by
  cases elements with
  | nil =>
    intro c hc
    exact Or.inr (Or.inl (Option.some.inj hc).symm)
  | cons v elements =>
    intro c hc
    rw [writeElements] at hc
    exact Or.inl (Option.some.inj hc).symm

theorem ends_writeMembers (members : List (CodeUnits × Value)) (rest : CodeUnits) :
    Ends (writeMembers shortest members ++ rest) := by
  cases members with
  | nil =>
    intro c hc
    exact Or.inr (Or.inr (Option.some.inj hc).symm)
  | cons m members =>
    intro c hc
    rw [writeMembers] at hc
    exact Or.inl (Option.some.inj hc).symm

theorem setMember_fresh {members : List (CodeUnits × Value)} {name : CodeUnits} (v : Value)
    (h : name ∉ members.map Prod.fst) : setMember members name v = members ++ [(name, v)] := by
  rw [setMember, if_neg]
  intro hany
  obtain ⟨m, hm, heq⟩ := List.any_eq_true.mp hany
  exact h (List.mem_map.mpr ⟨m, hm, of_decide_eq_true heq⟩)

mutual

/-- A plain value is read back from its text, whatever may follow it there. -/
theorem readValue_write : ∀ (v : Value) (fuel : Nat) (rest : CodeUnits), Plain v →
    (write shortest v).length ≤ fuel → Ends rest →
    readValue fuel (write shortest v ++ rest) = some (v, rest)
  | v, 0, rest, hplain, hfuel, _ => by
    obtain ⟨c, cs, hcs, -⟩ := @head_write shortest _ hplain
    rw [hcs] at hfuel
    cases hfuel
  | .null, fuel+1, rest, _, _, _ => by
    rw [write, readValue]
    rfl
  | .bool true, fuel+1, rest, _, _, _ => by
    rw [write, readValue]
    rfl
  | .bool false, fuel+1, rest, _, _, _ => by
    rw [write, readValue]
    rfl
  | .num none, fuel+1, rest, hplain, _, _ => hplain.elim
  | .num (some q), fuel+1, rest, hplain, _, hends => by
    obtain ⟨hwrite, hcast⟩ := @writeNumber_of_plain shortest q hplain
    rw [Plain] at hplain
    obtain ⟨c, ds, hds, hc⟩ := head_intText q.num
    obtain ⟨hblank, h1, h2, -, h3, h4, h5, h6⟩ := hc.apart
    have hread := readNumber_intText hplain.2 hends
    rw [hds, List.cons_append, hcast] at hread
    rw [write, hwrite, hds, List.cons_append, readValue, skip_cons hblank]
    simp only [if_neg h1, if_neg h2, if_neg h3, if_neg h4, if_neg h5, if_neg h6, hread,
      Option.map_some]
  | .str s, fuel+1, rest, _, _, _ => by
    rw [write, readValue, writeString, List.cons_append, skip_cons (by decide), List.append_assoc,
      List.singleton_append]
    simp only [if_true, readUnits_writeUnits, Option.map_some]
  | .arr [], fuel+1, rest, _, _, _ => by
    rw [write, readValue]
    rfl
  | .arr (v :: elements), fuel+1, rest, hplain, hfuel, hends => by
    rw [Plain, PlainElements] at hplain
    rw [write, List.length_cons, List.length_append] at hfuel
    have hv := readValue_write v fuel (writeElements shortest elements ++ rest) hplain.1 (by omega)
      (ends_writeElements elements rest)
    have hrest := readElements_write elements fuel [v] rest hplain.2 (by omega)
    obtain ⟨c, cs, hcs, hblank, hclose⟩ := @head_write shortest _ hplain.1
    rw [write, readValue, List.cons_append, skip_cons (by decide), List.append_assoc]
    simp only [show ¬ (0x5B : UInt16) = 0x22 by decide, if_false, if_true]
    rw [skip_write hplain.1, hcs, List.cons_append]
    split
    · rename_i heq
      exact absurd (List.cons.inj heq).1 hclose
    · rw [← List.cons_append, ← hcs, hv]
      exact hrest
  | .obj [], fuel+1, rest, _, _, _ => by
    rw [write, readValue]
    rfl
  | .obj ((name, v) :: members), fuel+1, rest, hplain, hfuel, hends => by
    rw [Plain, PlainMembers] at hplain
    rw [write, List.length_cons, List.length_append, List.length_cons, List.length_append] at hfuel
    have hv := readValue_write v fuel (writeMembers shortest members ++ rest) hplain.2.1 (by omega)
      (ends_writeMembers members rest)
    have hrest := readMembers_write members fuel [(name, v)] rest hplain.1 hplain.2.2 (by omega)
    have hname : readName (writeString name ++ 0x3A :: (write shortest v ++
        (writeMembers shortest members ++ rest))) = _ := readName_write name _
    rw [write, readValue, List.cons_append, skip_cons (by decide), List.append_assoc,
      List.cons_append, List.append_assoc]
    simp only [show ¬ (0x7B : UInt16) = 0x22 by decide, show ¬ (0x7B : UInt16) = 0x5B by decide,
      if_false, if_true]
    split
    · rename_i heq
      rw [writeString, List.cons_append, skip_cons (by decide)] at heq
      exact absurd (List.cons.inj heq).1 (by decide)
    · rw [hname]
      simp only [Option.bind_eq_bind, Option.bind_some, hv]
      exact hrest

theorem readElements_write : ∀ (elements : List Value) (fuel : Nat) (before : List Value)
    (rest : CodeUnits), PlainElements elements →
    (writeElements shortest elements).length ≤ fuel →
    readElements fuel before (writeElements shortest elements ++ rest) =
      some (.arr (before ++ elements), rest)
  | [], 0, _, _, _, hfuel => by
    rw [writeElements] at hfuel
    cases hfuel
  | [], fuel+1, before, rest, _, _ => by
    rw [writeElements, readElements, List.append_nil]
    rfl
  | v :: elements, 0, _, _, _, hfuel => by
    rw [writeElements] at hfuel
    cases hfuel
  | v :: elements, fuel+1, before, rest, hplain, hfuel => by
    rw [PlainElements] at hplain
    rw [writeElements, List.length_cons, List.length_append] at hfuel
    have hv := readValue_write v fuel (writeElements shortest elements ++ rest) hplain.1 (by omega)
      (ends_writeElements elements rest)
    have hrest := readElements_write elements fuel (before ++ [v]) rest hplain.2 (by omega)
    rw [List.append_assoc, List.singleton_append] at hrest
    rw [writeElements, readElements, List.cons_append, skip_cons (by decide), List.append_assoc]
    simp only [hv, Option.bind_eq_bind, Option.bind_some, hrest]

theorem readMembers_write : ∀ (members : List (CodeUnits × Value)) (fuel : Nat)
    (before : List (CodeUnits × Value)) (rest : CodeUnits),
    ((before ++ members).map Prod.fst).Nodup → PlainMembers members →
    (writeMembers shortest members).length ≤ fuel →
    readMembers fuel before (writeMembers shortest members ++ rest) =
      some (.obj (before ++ members), rest)
  | [], 0, _, _, _, _, hfuel => by
    rw [writeMembers] at hfuel
    cases hfuel
  | [], fuel+1, before, rest, _, _, _ => by
    rw [writeMembers, readMembers, List.append_nil]
    rfl
  | (name, v) :: members, 0, _, _, _, _, hfuel => by
    rw [writeMembers] at hfuel
    cases hfuel
  | (name, v) :: members, fuel+1, before, rest, hnames, hplain, hfuel => by
    rw [PlainMembers] at hplain
    rw [writeMembers, List.length_cons, List.length_append, List.length_cons,
      List.length_append] at hfuel
    have hfresh : name ∉ before.map Prod.fst := by
      rw [List.map_append, List.map_cons] at hnames
      intro hmem
      exact List.disjoint_of_nodup_append hnames hmem List.mem_cons_self
    have hsplit : before ++ (name, v) :: members = before ++ [(name, v)] ++ members := by
      rw [List.append_assoc, List.singleton_append]
    have hv := readValue_write v fuel (writeMembers shortest members ++ rest) hplain.1 (by omega)
      (ends_writeMembers members rest)
    have hrest := readMembers_write members fuel (before ++ [(name, v)]) rest (hsplit ▸ hnames)
      hplain.2 (by omega)
    have hname : readName (writeString name ++ 0x3A :: (write shortest v ++
        (writeMembers shortest members ++ rest))) = _ := readName_write name _
    rw [writeMembers, readMembers, List.cons_append, skip_cons (by decide), List.append_assoc,
      List.cons_append, List.append_assoc]
    simp only [hname, hv, Option.bind_eq_bind, Option.bind_some, setMember_fresh v hfresh, hrest,
      hsplit]

end

/-- `JSON.parse(JSON.stringify(v))`. -/
theorem parse_write {v : Value} (h : Plain v) : parse (write shortest v) = some v := by
  have hread := @readValue_write shortest v ((write shortest v).length + 1) [] h
    (by omega) (by intro c hc; cases hc)
  rw [List.append_nil] at hread
  rw [parse, hread]
  rfl

theorem write_inj {v w : Value} (hv : Plain v) (hw : Plain w) (h : write shortest v = write shortest w) :
    v = w := by
  rw [← Option.some_inj, ← @parse_write shortest v hv, h, parse_write hw]

end RoundTrip

/-! ### `Number()` of an integer's text -/

def decimalChars (n : Int) : List Char :=
  if n < 0 then '-' :: Nat.toDigits 10 n.natAbs else Nat.toDigits 10 n.natAbs

def decimalText (n : Int) : String := String.ofList (decimalChars n)

theorem ascii_decimalText (n : Int) : ascii (decimalText n) = intText n := by
  rw [ascii, decimalText, String.toList_ofList, decimalChars, intText]
  split_ifs
  · rfl
  · rfl

theorem digit_of_isDigit {c : Char} (hc : c.isDigit) : JsText.digit 10 c = some (c.toNat - 48) := by
  obtain ⟨hlow, hhigh⟩ := toNat_of_isDigit hc
  have hvalue : c.toNat - 48 < 10 := by omega
  simp [JsText.digit, hlow, hhigh, hvalue]

theorem digits_eq_ofDigitChars {cs : List Char} (h : ∀ c ∈ cs, c.isDigit) :
    JsText.digits 10 cs = Nat.ofDigitChars 10 cs 0 := by
  rw [JsText.digits, Nat.ofDigitChars_eq_foldl]
  apply List.foldl_ext
  intro n c hc
  rw [digit_of_isDigit (h c hc), Option.getD_some, Nat.mul_comm]
  rfl

theorem isDigit_of_mem_digits {n : Nat} {c : Char} (h : c ∈ Nat.toDigits 10 n) : c.isDigit :=
  Nat.isDigit_of_mem_toDigits (by decide) (by decide) h

theorem mem_decimalChars {n : Int} {c : Char} (h : c ∈ decimalChars n) :
    c = '-' ∨ c.isDigit := by
  unfold decimalChars at h
  split_ifs at h
  · rcases List.mem_cons.mp h with rfl | h
    · exact Or.inl rfl
    · exact Or.inr (isDigit_of_mem_digits h)
  · exact Or.inr (isDigit_of_mem_digits h)

theorem trimChars_of_no_space {cs : List Char} (h : ∀ c ∈ cs, JsText.isSpace c = false) :
    JsText.trimChars cs = cs := by
  have hdrop : cs.dropWhile JsText.isSpace = cs := by
    rw [List.dropWhile_eq_self_iff]
    intro hl
    rw [h _ (List.getElem_mem hl)]
    exact Bool.false_ne_true
  rw [JsText.trimChars, hdrop, List.rdropWhile_eq_self_iff]
  intro hl
  rw [h _ (List.getLast_mem hl)]
  exact Bool.false_ne_true

theorem no_letter_of_mem_decimalChars {n : Int} {c : Char} (h : c ∈ decimalChars n) :
    c.toNat < 58 ∧ JsText.isSpace c = false := by
  rcases mem_decimalChars h with rfl | hc
  · decide
  · obtain ⟨hlow, hhigh⟩ := toNat_of_isDigit hc
    refine ⟨by omega, ?_⟩
    simp only [JsText.isSpace, Bool.or_eq_false_iff, Bool.and_eq_false_iff, decide_eq_false_iff_not]
    omega

theorem takeWhile_toDigits (n : Nat) :
    (Nat.toDigits 10 n).takeWhile JsText.isDigit = Nat.toDigits 10 n ∧
      (Nat.toDigits 10 n).dropWhile JsText.isDigit = [] := by
  have hall : ∀ c ∈ Nat.toDigits 10 n, JsText.isDigit c = true := by
    intro c hc
    rw [JsText.isDigit, digit_of_isDigit (isDigit_of_mem_digits hc)]
    rfl
  exact ⟨List.takeWhile_eq_self_iff.mpr hall, List.dropWhile_eq_nil_iff.mpr hall⟩

theorem splitSign_decimalChars (n : Int) :
    JsText.splitSign (decimalChars n) = (decide (n < 0), Nat.toDigits 10 n.natAbs) := by
  unfold decimalChars
  split_ifs with hneg
  · simp [JsText.splitSign, hneg]
  · obtain ⟨c, ds, hds⟩ := List.exists_cons_of_ne_nil (@Nat.toDigits_ne_nil n.natAbs 10)
    have hc : c.isDigit := isDigit_of_mem_digits (n := n.natAbs) (hds ▸ List.mem_cons_self)
    rw [hds, decide_eq_false hneg]
    unfold JsText.splitSign
    split
    · rename_i heq
      rw [(List.cons.inj heq).1] at hc
      exact absurd hc (by decide)
    · rename_i heq
      rw [(List.cons.inj heq).1] at hc
      exact absurd hc (by decide)
    · rfl

theorem decimal_decimalText (n : Int) : JsText.decimal (decimalText n) = some (n : ℚ) := by
  have hdigits : JsText.digits 10 (Nat.toDigits 10 n.natAbs) = n.natAbs := by
    rw [digits_eq_ofDigitChars fun c hc => isDigit_of_mem_digits hc, Nat.ofDigitChars_ten_toDigits]
  rw [JsText.decimal, decimalText, String.toList_ofList, splitSign_decimalChars]
  simp only [takeWhile_toDigits, Option.bind_some, List.append_nil, List.length_nil, pow_zero,
    div_one, hdigits, List.isEmpty_eq_false_iff.mpr Nat.toDigits_ne_nil, Bool.false_and,
    Bool.false_eq_true, if_false, decide_eq_true_eq]
  split_ifs with hneg
  · have hvalue : -(n.natAbs : Int) = n := by omega
    have hcast : -(n.natAbs : ℚ) = n := by exact_mod_cast hvalue
    rw [hcast]
  · rw [← Int.cast_natCast, Int.natAbs_of_nonneg (by omega)]

/-- `Number(text)` of an integer's text rounds the integer. -/
theorem numberOfText_decimalText (js : Json.Engine) (n : Int) :
    Json.numberOfText js (decimalText n) = js.toDouble n := by
  have hchars : ∀ c ∈ decimalChars n, c.toNat < 58 ∧ JsText.isSpace c = false :=
    fun c hc => no_letter_of_mem_decimalChars hc
  have hliteral : Json.decimalLiteral (decimalChars n) = some (n : ℚ) := by
    have hnoE : ∀ c ∈ decimalChars n, (!(decide (c = 'e') || decide (c = 'E'))) = true := by
      intro c hc
      have hlow := (hchars c hc).1
      have he : c ≠ 'e' := by
        rintro rfl
        exact absurd hlow (by decide)
      have hE : c ≠ 'E' := by
        rintro rfl
        exact absurd hlow (by decide)
      simp [he, hE]
    simp only [Json.decimalLiteral, List.takeWhile_eq_self_iff.mpr hnoE,
      List.dropWhile_eq_nil_iff.mpr hnoE]
    exact decimal_decimalText n
  have hletter : ∀ c : Char, 58 ≤ c.toNat → ∀ cs, decimalChars n ≠ '0' :: c :: cs := by
    intro c hc cs heq
    have hlow := (hchars c (by rw [heq]; simp)).1
    omega
  have hne : decimalChars n ≠ [] := by
    unfold decimalChars
    split_ifs
    · simp
    · exact Nat.toDigits_ne_nil
  rw [Json.numberOfText, decimalText, String.toList_ofList,
    trimChars_of_no_space fun c hc => (hchars c hc).2]
  split
  case h_1 heq => exact absurd heq hne
  case h_8 => rw [hliteral, Option.bind_some]
  all_goals
    rename_i heq
    exact absurd heq (hletter _ (by decide) _)

end JsonText
