import Mathlib
import XChainSync.Library.NumberText
import XChainSync.Library.Utf16

/-!
# The armed map's serialisation

src/consensus/armed_map/canonical.js. A value is written with the fields of its objects in order of
their names, the rows are written in order of their keys, and the text of all rows is what is
hashed. A value of any other kind is refused with its place.
-/

namespace XChainSync.ArmedMap
open JsonText NumberText
set_option autoImplicit false

inductive Refused where
  | BigInt
  | function
  | symbol
  | Map
  | Set
  | Date
  | classInstance
  deriving DecidableEq, Repr

def Refused.text : Refused → String
  | BigInt => "BigInt"
  | function => "function"
  | symbol => "symbol"
  | Map => "Map"
  | Set => "Set"
  | Date => "Date"
  | classInstance => "class instance"

/-- An element of an array that is none is a hole. -/
inductive Value where
  | null
  | undefined
  | bool (b : Bool)
  | num (x : Number)
  | str (s : CodeUnits)
  | regexp (source flags : CodeUnits)
  | arr (elements : List (Option Value))
  | obj (members : List (CodeUnits × Value))
  | other (what : Refused)

def Value.isUndefined : Value → Bool
  | undefined => true
  | _ => false

mutual

/-- The fields of every object have names of their own. -/
def Value.Own : Value → Prop
  | .arr elements => OwnElements elements
  | .obj members => (members.map Prod.fst).Nodup ∧ OwnMembers members
  | _ => True

def OwnElements : List (Option Value) → Prop
  | [] => True
  | none :: rest => OwnElements rest
  | some v :: rest => v.Own ∧ OwnElements rest

def OwnMembers : List (CodeUnits × Value) → Prop
  | [] => True
  | (_, v) :: rest => v.Own ∧ OwnMembers rest

end

structure Row where
  key : CodeUnits
  value : Value
  own : value.Own

/-! ### Serialisation -/

/-- The message of an `ArmedMapCanonicalError`. -/
abbrev Message := CodeUnits

def refuse {α : Type} (what : CodeUnits) (place : CodeUnits) : Except Message α :=
  .error (ascii "refused " ++ what ++ ascii " at " ++ place)

def join (separator : CodeUnits) (texts : List CodeUnits) : CodeUnits := separator.intercalate texts

def serialiseNumber (x : Number) (place : CodeUnits) : Except Message CodeUnits :=
  match x with
  | .negZero => .ok (ascii "0")
  | .finite q _ => .ok (numberText q)
  | x => refuse (ascii "non-finite number " ++ x.text) place

def memberText (name text : CodeUnits) : CodeUnits := writeString name ++ 0x3A :: text

mutual

def serialise (v : Value) (place : CodeUnits) : Except Message CodeUnits :=
  match v with
  | .null => .ok (ascii "null")
  | .bool b => .ok (if b then ascii "true" else ascii "false")
  | .num x => serialiseNumber x place
  | .str s => .ok (writeString s)
  | .undefined => refuse (ascii "undefined") place
  | .other what => refuse (ascii what.text) place
  | .regexp source flags => .ok (ascii "re:" ++ writeString source ++ ascii ":" ++ writeString flags)
  | .arr elements => do
    let texts ← serialiseElements elements place 0
    return ascii "[" ++ join (ascii ",") texts ++ ascii "]"
  | .obj members => do
    let parts := Utf16.sortNamed (serialiseMembers members place)
    let texts ← parts.mapM fun p => p.2.map fun text => memberText p.1 text
    return ascii "\x7b" ++ join (ascii ",") texts ++ ascii "\x7d"

/-- `map` passes a hole over, and `join` writes nothing for it. -/
def serialiseElements (elements : List (Option Value)) (place : CodeUnits) (i : Nat) :
    Except Message (List CodeUnits) :=
  match elements with
  | [] => .ok []
  | none :: rest => do
    let texts ← serialiseElements rest place (i + 1)
    return [] :: texts
  | some v :: rest => do
    let text ← serialise v (place ++ ascii "[" ++ natText i ++ ascii "]")
    let texts ← serialiseElements rest place (i + 1)
    return text :: texts

/-- The fields that are not undefined, each with what it serialises to. -/
def serialiseMembers (members : List (CodeUnits × Value)) (place : CodeUnits) :
    List (CodeUnits × Except Message CodeUnits) :=
  match members with
  | [] => []
  | (name, v) :: rest =>
    if v.isUndefined then serialiseMembers rest place
    else (name, serialise v (place ++ ascii "." ++ name)) :: serialiseMembers rest place

end

def canonicalValue (v : Value) : Except Message CodeUnits := serialise v (ascii "$")

/-! ### Rows -/

def isName (c : UInt16) : Bool :=
  0x41 ≤ c ∧ c ≤ 0x5A ∨ 0x61 ≤ c ∧ c ≤ 0x7A ∨ isDigit c ∨ c = 0x5F

/-- `KEY_RE`: a stem, and names behind points. -/
def isKey (key : CodeUnits) : Bool :=
  match key.splitOn 0x2E with
  | stem :: name :: names =>
    stem ≠ [] ∧ stem.all (fun c => isName c || c = 0x2F || c = 0x2D) ∧
      ∀ n ∈ name :: names, n ≠ [] ∧ n.all isName
  | _ => false

def collect (seen : List CodeUnits) : List Row → Except Message (List (CodeUnits × CodeUnits))
  | [] => .ok []
  | row :: rest =>
    if ¬ isKey row.key then .error (ascii "key does not match the key grammar: " ++ writeString row.key)
    else if row.key ∈ seen then .error (ascii "duplicate key: " ++ row.key)
    else do
      let vcs ← (canonicalValue row.value).mapError fun message => row.key ++ ascii ": " ++ message
      let out ← collect (seen ++ [row.key]) rest
      return (row.key, vcs) :: out

def canonicalRows (rows : List Row) : Except Message (List (CodeUnits × CodeUnits)) :=
  (collect [] rows).map Utf16.sortNamed

def DOMAIN : CodeUnits := ascii "xchain-armed-map/v2\n"

def rowText (row : CodeUnits × CodeUnits) : CodeUnits := row.1 ++ ascii "=" ++ row.2 ++ ascii "\n"

def preimage (rows : List Row) : Except Message CodeUnits :=
  (canonicalRows rows).map fun sorted => DOMAIN ++ sorted.flatMap rowText

/-! ### Equal values -/

def sameNumber : Number → Number → Prop
  | .finite q _, .finite r _ => q = r
  | .negZero, .finite r _ => r = 0
  | .finite q _, .negZero => q = 0
  | .negZero, .negZero => True
  | _, _ => False

/-- A field that is not undefined. -/
def field (members : List (CodeUnits × Value)) (name : CodeUnits) : Option Value :=
  (members.lookup name).filter fun v => ! v.isUndefined

mutual

/-- Equal up to the order of fields, fields that are undefined, and the sign of zero. -/
def Same : Value → Value → Prop
  | .null, .null => True
  | .bool b, .bool b' => b = b'
  | .num x, .num y => sameNumber x y
  | .str s, .str s' => s = s'
  | .regexp source flags, .regexp source' flags' => source = source' ∧ flags = flags'
  | .arr elements, .arr elements' => SameElements elements elements'
  | .obj members, .obj members' =>
    SameMembers members members' ∧ ∀ name, field members name = none → field members' name = none
  | _, _ => False

def SameElements : List (Option Value) → List (Option Value) → Prop
  | [], [] => True
  | none :: rest, none :: rest' => SameElements rest rest'
  | some v :: rest, some v' :: rest' => Same v v' ∧ SameElements rest rest'
  | _, _ => False

def SameMembers : List (CodeUnits × Value) → List (CodeUnits × Value) → Prop
  | [], _ => True
  | (name, v) :: rest, members =>
    (v.isUndefined = false → ∃ v', field members name = some v' ∧ Same v v') ∧ SameMembers rest members

end

/-- The same keys, and equal values under each. -/
def SameRows (rows rows' : List Row) : Prop :=
  ∀ key, Option.Rel Same ((rows.map fun r => (r.key, r.value)).lookup key)
    ((rows'.map fun r => (r.key, r.value)).lookup key)

mutual

/-- A value whose arrays of one hole are read as empty arrays. -/
def fill : Value → Value
  | .arr [none] => .arr []
  | .arr elements => .arr (fillElements elements)
  | .obj members => .obj (fillMembers members)
  | v => v

def fillElements : List (Option Value) → List (Option Value)
  | [] => []
  | none :: rest => none :: fillElements rest
  | some v :: rest => some (fill v) :: fillElements rest

def fillMembers : List (CodeUnits × Value) → List (CodeUnits × Value)
  | [] => []
  | (name, v) :: rest => (name, fill v) :: fillMembers rest

end

end XChainSync.ArmedMap
