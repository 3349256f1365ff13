import Mathlib
import XChainSync.Library.Base64
import XChainSync.Library.Double
import XChainSync.Library.JsonText

/-!
# Rows on the wire

src/util/wire_codec.js with the batch that `prepareInsertBatch` of src/client/applier.js binds: how a
cell is read, tagged and written on the source, and what a follower restores from the text. A row
has columns with names of their own, none of which is `__proto__`.
-/

namespace XChainSync.Wire
set_option autoImplicit false
open JsonText (Value ascii intText decimalText)

/-- A column value in a row of the driver. -/
inductive Cell where
  | null
  | bool (b : Bool)
  | num (value : Option ℚ)
  | str (s : CodeUnits)
  | bigint (v : Int)
  | buffer (bytes : List UInt8)
  deriving DecidableEq

inductive ColumnType where
  | BIGINT
  | other
  deriving DecidableEq, Repr

structure Column where
  type : ColumnType
  /-- `column.string()`: the cell in the text protocol. -/
  string : Option String

def BINARY_TAG : CodeUnits := ascii "__xbin__"

/-- `Number(text)`, none where it is not finite. No number is written on the way. -/
def number (text : String) : Option ℚ :=
  Json.numberOfText { toDouble := Double.round, numText := fun _ => "" } text

def bigIntTypeCast (column : Column) (next : Unit → Cell) : Cell :=
  if column.type ≠ .BIGINT then next ()
  else
    match column.string with
    | none => .null
    | some text =>
      let approx := number text
      if Double.isSafeInteger approx then .num approx else .str (ascii text)

/-- A property of an encoded row. -/
inductive Property where
  | cell (c : Cell)
  /-- The object whose one member is the tag. -/
  | sentinel (text : CodeUnits)

structure Row (α : Type) where
  columns : List (CodeUnits × α)
  nodup : (columns.map Prod.fst).Nodup
  own : ascii "__proto__" ∉ columns.map Prod.fst

def Row.map {α β : Type} (f : α → β) (row : Row α) : Row β where
  columns := row.columns.map fun c => (c.1, f c.2)
  nodup := by
    rw [List.map_map]
    exact row.nodup
  own := by
    rw [List.map_map]
    exact row.own

def encodeCell : Cell → Property
  | .buffer bytes => .sentinel (Base64.encode bytes)
  | c => .cell c

def encodeRow (row : Row Cell) : Row Property := row.map encodeCell

/-- What `JSON.stringify` has of a property before the replacer. A BigInt is no value of JSON. -/
def toJSON : Property → Option Value
  | .cell .null => some .null
  | .cell (.bool b) => some (.bool b)
  | .cell (.num value) => some (.num value)
  | .cell (.str s) => some (.str s)
  | .cell (.bigint _) => none
  | .cell (.buffer bytes) =>
    some (.obj [(ascii "type", .str (ascii "Buffer")),
      (ascii "data", .arr (bytes.map fun b => .num (some b.toNat)))])
  | .sentinel text => some (.obj [(BINARY_TAG, .str text)])

def bigIntReplacer (raw : Property) (value : Option Value) : Option Value :=
  match raw with
  | .cell (.bigint v) => some (.str (intText v))
  | _ => value

/-- `JSON.stringify(row, bigIntReplacer)`, none where a BigInt is left. -/
def stringify (shortest : ℚ → CodeUnits) (row : Row Property) : Option CodeUnits :=
  (row.columns.mapM fun c => (bigIntReplacer c.2 (toJSON c.2)).map fun v => (c.1, v)).map
    fun members => JsonText.write shortest (.obj members)

/-- A value that is bound to an insert. -/
inductive Arg where
  | value (v : Value)
  | buffer (bytes : List UInt8)

def decodeValue (v : Value) : Arg :=
  match v with
  | .obj members =>
    match members.lookup BINARY_TAG with
    | some (.str text) => if members.length = 1 then .buffer (Base64.decode text) else .value v
    | _ => .value v
  | _ => .value v

/-- `row[col]`, none where it is undefined. -/
def get (row : Value) (col : CodeUnits) : Option Value :=
  match row with
  | .obj members => members.lookup col
  | _ => none

def prepareInsertBatch (rows : List Value) (columns : List CodeUnits) (start batchSize : Nat) :
    List Value × List Arg :=
  let batch := (rows.drop start).take batchSize
  (batch, batch.flatMap fun row => columns.map fun col => decodeValue ((get row col).getD .null))

/-! ### A row from one database to the other -/

/-- What a column holds on the source. -/
inductive Stored where
  | null (type : ColumnType)
  | bool (b : Bool)
  | int (n : Int) (safe : |n| ≤ Double.MAX_SAFE_INTEGER)
  | str (s : CodeUnits)
  | bigint (v : Int)
  | buffer (bytes : List UInt8)

/-- The cell that the driver returns. Its own reading of a BIGINT is a double. -/
def read : Stored → Cell
  | .null type => bigIntTypeCast ⟨type, none⟩ fun _ => .null
  | .bool b => bigIntTypeCast ⟨.other, none⟩ fun _ => .bool b
  | .int n _ => bigIntTypeCast ⟨.other, none⟩ fun _ => .num (some n)
  | .str s => bigIntTypeCast ⟨.other, none⟩ fun _ => .str s
  | .bigint v => bigIntTypeCast ⟨.BIGINT, some (decimalText v)⟩ fun _ => .num (Double.round v)
  | .buffer bytes => bigIntTypeCast ⟨.other, none⟩ fun _ => .buffer bytes

/-- The text of a row and the value a follower parses from it. -/
def transported (shortest : ℚ → CodeUnits) (row : Row Stored) : Option Value :=
  (stringify shortest (encodeRow (row.map read))).bind JsonText.parse

/-- What stands for a stored value after the trip: the same value, and for a BIGINT a number or a
decimal text of exactly that integer. -/
def Restores : Stored → Arg → Prop
  | .null _, .value .null => True
  | .bool b, .value (.bool b') => b' = b
  | .int n _, .value (.num q) => q = some (n : ℚ)
  | .str s, .value (.str s') => s' = s
  | .bigint v, .value (.num q) => q = some (v : ℚ)
  | .bigint v, .value (.str s) => s = intText v
  | .buffer bytes, .buffer bytes' => bytes' = bytes
  | _, _ => False

/-- The value that stands in the text for a stored one. -/
def wireValue : Stored → Value
  | .null _ => .null
  | .bool b => .bool b
  | .int n _ => .num (some n)
  | .str s => .str s
  | .bigint v => if |v| ≤ Double.MAX_SAFE_INTEGER then .num (some v) else .str (intText v)
  | .buffer bytes => .obj [(BINARY_TAG, .str (Base64.encode bytes))]

theorem number_decimalText (v : Int) : number (decimalText v) = Double.round v :=
  JsonText.numberOfText_decimalText _ v

theorem read_bigint (v : Int) : read (.bigint v) =
    if |v| ≤ Double.MAX_SAFE_INTEGER then .num (some (v : ℚ)) else .str (intText v) := by
  simp only [read, bigIntTypeCast, number_decimalText, Double.isSafeInteger_round,
    JsonText.ascii_decimalText, decide_eq_true_eq, ne_eq, not_true_eq_false, if_false]
  split_ifs with hsafe
  · rw [Double.round_intCast hsafe]
  · rfl

/-- Reading, tagging and the replacer together. -/
theorem replaced_read (stored : Stored) :
    bigIntReplacer (encodeCell (read stored)) (toJSON (encodeCell (read stored))) =
      some (wireValue stored) := by
  cases stored with
  | null type =>
    cases type with
    | BIGINT => rfl
    | other => rfl
  | bool b => rfl
  | int n safe => rfl
  | str s => rfl
  | bigint v =>
    rw [read_bigint, wireValue]
    split_ifs
    · rfl
    · rfl
  | buffer bytes => rfl

theorem plain_wireValue (stored : Stored) : JsonText.Plain (wireValue stored) := by
  cases stored with
  | null type => trivial
  | bool b => trivial
  | int n safe =>
    rw [wireValue, JsonText.Plain]
    exact ⟨Rat.den_intCast n, by rwa [Rat.num_intCast]⟩
  | str s => trivial
  | bigint v =>
    rw [wireValue]
    split_ifs with hsafe
    · rw [JsonText.Plain]
      exact ⟨Rat.den_intCast v, by rwa [Rat.num_intCast]⟩
    · trivial
  | buffer bytes =>
    rw [wireValue, JsonText.Plain]
    exact ⟨List.nodup_singleton _, trivial, trivial⟩

theorem plainMembers_wireValue (columns : List (CodeUnits × Stored)) :
    JsonText.PlainMembers (columns.map fun c => (c.1, wireValue c.2)) := by
  induction columns with
  | nil => trivial
  | cons c columns ih => exact ⟨plain_wireValue c.2, ih⟩

/-- A follower parses the members that were written. -/
theorem transported_eq (shortest : ℚ → CodeUnits) (row : Row Stored) :
    transported shortest row = some (.obj (row.columns.map fun c => (c.1, wireValue c.2))) := by
  have hmembers : (encodeRow (row.map read)).columns.mapM (fun c =>
      (bigIntReplacer c.2 (toJSON c.2)).map fun v => (c.1, v)) =
      some (row.columns.map fun c => (c.1, wireValue c.2)) := by
    simp only [encodeRow, Row.map, List.map_map]
    induction row.columns with
    | nil => rfl
    | cons c columns ih =>
      rw [List.map_cons, List.mapM_cons, ih]
      simp only [Function.comp, replaced_read]
      rfl
  have hplain : JsonText.Plain (.obj (row.columns.map fun c => (c.1, wireValue c.2))) := by
    rw [JsonText.Plain, List.map_map]
    exact ⟨row.nodup, plainMembers_wireValue row.columns⟩
  rw [transported, stringify, hmembers]
  exact JsonText.parse_write hplain

theorem restores_decodeValue (stored : Stored) : Restores stored (decodeValue (wireValue stored)) := by
  cases stored with
  | null type => trivial
  | bool b => rfl
  | int n safe => rfl
  | str s => rfl
  | bigint v =>
    rw [wireValue]
    split_ifs
    · rfl
    · rfl
  | buffer bytes =>
    have hdecode : decodeValue (wireValue (.buffer bytes)) = .buffer bytes := by
      simp [wireValue, decodeValue, List.lookup, Base64.decode_encode]
    rw [hdecode]
    rfl

/-- A column that a row lacks is null. -/
def Row.stored (row : Row Stored) (col : CodeUnits) : Stored :=
  (row.columns.lookup col).getD (.null .other)

theorem lookup_map_snd {α β : Type} (f : α → β) (columns : List (CodeUnits × α)) (col : CodeUnits) :
    (columns.map fun c => (c.1, f c.2)).lookup col = (columns.lookup col).map f := by
  induction columns with
  | nil => rfl
  | cons c columns ih =>
    rw [List.map_cons, List.lookup_cons, List.lookup_cons, ih]
    split
    · rfl
    · rfl

/-- What a follower binds for a column of a row. -/
def bound (shortest : ℚ → CodeUnits) (row : Row Stored) (col : CodeUnits) : Option Arg :=
  (transported shortest row).map fun parsed => decodeValue ((get parsed col).getD .null)

theorem bound_restores (shortest : ℚ → CodeUnits) (row : Row Stored) (col : CodeUnits) :
    ∃ arg, bound shortest row col = some arg ∧ Restores (row.stored col) arg := by
  refine ⟨_, by rw [bound, transported_eq, Option.map_some], ?_⟩
  rw [get, lookup_map_snd, Row.stored]
  cases row.columns.lookup col with
  | none => trivial
  | some stored => exact restores_decodeValue stored

theorem stored_of_restores {stored : Stored} {bytes : List UInt8}
    (h : Restores stored (.buffer bytes)) : stored = .buffer bytes := by
  cases stored with
  | buffer bytes' => rw [show bytes = bytes' from h]
  | null _ | bool _ | int _ _ | str _ | bigint _ => exact h.elim

theorem bigint_of_restores {v w : Int} {arg : Arg} (hv : Restores (.bigint v) arg)
    (hw : Restores (.bigint w) arg) : v = w := by
  match arg with
  | .value (.num q) =>
    have h : some (v : ℚ) = some (w : ℚ) := Eq.trans (Eq.symm hv) hw
    exact_mod_cast Option.some.inj h
  | .value (.str s) => exact JsonText.intText_injective (Eq.trans (Eq.symm hv) hw)
  | .value .null | .value (.bool _) | .value (.arr _) | .value (.obj _) | .buffer _ => exact hv.elim

theorem args_eq_bound (shortest : ℚ → CodeUnits) (rows : List (Row Stored)) :
    ∃ parsed, rows.mapM (transported shortest) = some parsed ∧
      ∀ columns start batchSize, (prepareInsertBatch parsed columns start batchSize).2.map some =
        ((rows.drop start).take batchSize).flatMap fun row => columns.map (bound shortest row) := by
  let members : Row Stored → Value := fun row => .obj (row.columns.map fun c => (c.1, wireValue c.2))
  have hparsed : rows.mapM (transported shortest) = some (rows.map members) := by
    induction rows with
    | nil => rfl
    | cons row rows ih =>
      rw [List.mapM_cons, transported_eq, ih]
      rfl
  refine ⟨rows.map members, hparsed, fun columns start batchSize => ?_⟩
  rw [prepareInsertBatch, ← List.map_drop, ← List.map_take, List.flatMap_map, List.map_flatMap]
  apply List.flatMap_congr
  intro row _
  rw [List.map_map]
  apply List.map_congr_left
  intro col _
  rw [bound, transported_eq]
  rfl

/-- Rows pass through reading, encoding, JSON and decoding: every bound value restores what its
column holds on the source, only a buffer becomes a buffer, and two BIGINT cells that are bound to
one value are equal. -/
theorem rows_survive_the_wire (shortest : ℚ → CodeUnits) :
    (∀ rows : List (Row Stored), ∃ parsed, rows.mapM (transported shortest) = some parsed ∧
      ∀ columns start batchSize, (prepareInsertBatch parsed columns start batchSize).2.map some =
        ((rows.drop start).take batchSize).flatMap fun row => columns.map (bound shortest row)) ∧
    (∀ row col, ∃ arg, bound shortest row col = some arg ∧ Restores (row.stored col) arg) ∧
    (∀ row col bytes, bound shortest row col = some (.buffer bytes) →
      row.stored col = .buffer bytes) ∧
    (∀ row row' col col' v w, row.stored col = .bigint v → row'.stored col' = .bigint w →
      bound shortest row col = bound shortest row' col' → v = w) := by
  refine ⟨args_eq_bound shortest, bound_restores shortest, ?_, ?_⟩
  · intro row col bytes h
    obtain ⟨arg, harg, hrestores⟩ := bound_restores shortest row col
    obtain rfl := Option.some.inj (harg.symm.trans h)
    exact stored_of_restores hrestores
  · intro row row' col col' v w hv hw h
    obtain ⟨arg, harg, hrestores⟩ := bound_restores shortest row col
    obtain ⟨arg', harg', hrestores'⟩ := bound_restores shortest row' col'
    rw [harg, harg'] at h
    obtain rfl := Option.some.inj h
    rw [hv] at hrestores
    rw [hw] at hrestores'
    exact bigint_of_restores hrestores hrestores'

end XChainSync.Wire
