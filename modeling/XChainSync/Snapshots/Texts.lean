import Mathlib
import XChainSync.Snapshots.Streaming

/-!
# The text of a snapshot

The texts that a stream puts together are those of JSON values. A stream that stops early leaves a
part of such a text. Where a later page of a table meets a schema gap the array of the table is left
open and the stream goes on: then nothing that a client may receive is JSON.
-/

namespace XChainSync.Snapshots
set_option autoImplicit false
open CutStream (Emits Puts Stop)
open JsonText (ascii natText Value Plain PlainMembers PlainElements writeString writeElements
  memberTexts Dead DeadElements DeadMembers Ends)
open Wire (Row Stored)

/-! ### Names -/

theorem writeUnit_of_isWordUnit {c : UInt16} (h : isWordUnit c) :
    JsonText.writeUnit c = [c] ∧ JsonText.isLead c = false := by
  have hrange : 0x30 ≤ c.toNat ∧ c.toNat ≤ 0x7A ∧ c.toNat ≠ 0x5C := by
    simp only [isWordUnit, decide_eq_true_eq, UInt16.le_iff_toNat_le, ← UInt16.toNat_inj,
      UInt16.reduceToNat] at h
    omega
  constructor
  · unfold JsonText.writeUnit
    simp only [← UInt16.toNat_inj, UInt16.lt_iff_toNat_lt, UInt16.reduceToNat, JsonText.isLead,
      JsonText.isTrail, UInt16.le_iff_toNat_le, decide_eq_true_eq]
    repeat rw [if_neg (by omega)]
  · simp only [JsonText.isLead, UInt16.le_iff_toNat_le, UInt16.reduceToNat, decide_eq_false_iff_not]
    omega

theorem writeUnits_of_isWordUnit {name : CodeUnits} (h : name.all isWordUnit = true) :
    JsonText.writeUnits name = name := by
  fun_induction JsonText.writeUnits name with
  | case1 => rfl
  | case2 c =>
    rw [List.all_cons, Bool.and_eq_true] at h
    exact (writeUnit_of_isWordUnit h.1).1
  | case3 c d rest hpair ih =>
    rw [List.all_cons, Bool.and_eq_true] at h
    rw [(writeUnit_of_isWordUnit h.1).2] at hpair
    exact absurd hpair.1 (by decide)
  | case4 c d rest hpair ih =>
    rw [List.all_cons, Bool.and_eq_true] at h
    rw [(writeUnit_of_isWordUnit h.1).1, ih h.2]
    rfl

theorem writeString_units (t : Identifier) :
    writeString t.units = ascii "\"" ++ t.units ++ ascii "\"" := by
  have hvalid := t.valid
  simp only [validateIdentifier, decide_eq_true_eq] at hvalid
  rw [writeString, writeUnits_of_isWordUnit hvalid.2.2]
  rfl

theorem units_injective : Function.Injective Identifier.units := by
  rintro ⟨s, hs⟩ ⟨t, ht⟩ h
  cases h
  rfl

/-! ### Rows and tables -/

/-- The value that stands for a row in a text. -/
def rowValue (row : Row Stored) : Value := .obj (row.columns.map fun c => (c.1, Wire.wireValue c.2))

theorem plain_rowValue (row : Row Stored) : Plain (rowValue row) := by
  rw [rowValue, Plain, List.map_map]
  exact ⟨row.nodup, Wire.plainMembers_wireValue row.columns⟩

theorem rowToJSON_encodeRow (row : Row Stored) :
    rowToJSON (Wire.encodeRow (row.map Wire.read)) = some (rowValue row) := by
  rw [rowToJSON, Option.map_eq_some_iff]
  refine ⟨_, ?_, rfl⟩
  simp only [Wire.encodeRow, Row.map, List.map_map]
  induction row.columns with
  | nil => rfl
  | cons c columns ih =>
    rw [List.map_cons, List.mapM_cons, ih]
    simp only [Function.comp, Wire.replaced_read]
    rfl

abbrev Table : Type := Identifier × List (Row Stored)

def tableValue (t : Table) : CodeUnits × Value := (t.1.units, .arr (t.2.map rowValue))

theorem plainElements_rows (rows : List (Row Stored)) : PlainElements (rows.map rowValue) := by
  induction rows with
  | nil => trivial
  | cons row rows ih => exact ⟨plain_rowValue row, ih⟩

theorem plainMembers_tables (tables : List Table) : PlainMembers (tables.map tableValue) := by
  induction tables with
  | nil => trivial
  | cons t tables ih =>
    refine ⟨?_, ih⟩
    rw [Plain]
    exact plainElements_rows t.2

section Texts
variable (shortest : ℚ → CodeUnits)

def commaText (first : Bool) : CodeUnits := if first then [] else [0x2C]

def rowsText : Bool → List (Row Stored) → CodeUnits
  | _, [] => []
  | first, row :: rows =>
    commaText first ++ JsonText.write shortest (rowValue row) ++ rowsText false rows

/-- The key of a table and the bracket of its array. -/
def keyText (first : Bool) (t : Identifier) : CodeUnits :=
  commaText first ++ (writeString t.units ++ [0x3A, 0x5B])

/-- A table whose array is open. -/
def openText (first : Bool) (t : Identifier) (rows : List (Row Stored)) : CodeUnits :=
  keyText first t ++ rowsText shortest true rows

def tableText (first : Bool) (t : Table) : CodeUnits := openText shortest first t.1 t.2 ++ [0x5D]

def tablesText : Bool → List Table → CodeUnits
  | _, [] => []
  | first, t :: tables => tableText shortest first t ++ tablesText false tables

variable {shortest}

theorem rowJson_eq (row : Row Stored) :
    rowJson shortest row = .ok (JsonText.write shortest (rowValue row)) := by
  have hrow := rowToJSON_encodeRow row
  obtain ⟨members, hmembers, hvalue⟩ := Option.map_eq_some_iff.mp hrow
  rw [rowJson, Wire.stringify, hmembers, Option.map_some, hvalue]

theorem tablesJson_eq (tables : List (CodeUnits × List (Row Stored))) :
    tablesJson shortest tables = .ok (JsonText.write shortest
      (.obj (tables.map fun t => (t.1, .arr (t.2.map rowValue))))) := by
  have hrows : ∀ rows : List (Row Stored),
      rows.mapM (fun row => rowToJSON (Wire.encodeRow (row.map Wire.read))) =
        some (rows.map rowValue) := by
    intro rows
    induction rows with
    | nil => rfl
    | cons row rows ih =>
      rw [List.mapM_cons, rowToJSON_encodeRow, ih]
      rfl
  have htables : tables.mapM (fun t => (t.2.mapM fun row =>
      rowToJSON (Wire.encodeRow (row.map Wire.read))).map fun rows => (t.1, Value.arr rows)) =
        some (tables.map fun t => (t.1, .arr (t.2.map rowValue))) := by
    induction tables with
    | nil => rfl
    | cons t tables ih =>
      rw [List.mapM_cons, hrows, ih]
      rfl
  rw [tablesJson, htables]

theorem writeElements_rows (rows : List (Row Stored)) :
    writeElements shortest (rows.map rowValue) = rowsText shortest false rows ++ [0x5D] := by
  induction rows with
  | nil =>
    rw [List.map_nil, writeElements]
    rfl
  | cons row rows ih =>
    rw [List.map_cons, writeElements, ih, rowsText, commaText, List.append_assoc, List.append_assoc]
    rfl

theorem write_rows (rows : List (Row Stored)) :
    JsonText.write shortest (.arr (rows.map rowValue)) =
      0x5B :: (rowsText shortest true rows ++ [0x5D]) := by
  cases rows with
  | nil =>
    rw [List.map_nil, JsonText.write]
    rfl
  | cons row rows =>
    rw [List.map_cons, JsonText.write, writeElements_rows, rowsText, commaText, List.append_assoc,
      List.append_assoc]
    rfl

theorem tableText_eq (first : Bool) (t : Table) :
    tableText shortest first t = commaText first ++
      (writeString t.1.units ++ 0x3A :: JsonText.write shortest (.arr (t.2.map rowValue))) := by
  rw [tableText, openText, keyText, write_rows, List.append_assoc, List.append_assoc,
    List.append_assoc]
  rfl

theorem tablesText_false (tables : List Table) :
    tablesText shortest false tables = memberTexts shortest (tables.map tableValue) := by
  induction tables with
  | nil => rfl
  | cons t tables ih =>
    rw [tablesText, ih, tableText_eq, List.map_cons, memberTexts, memberTexts, List.flatMap_cons]
    rfl

theorem write_tables (tables : List Table) :
    JsonText.write shortest (.obj (tables.map tableValue)) =
      0x7B :: (tablesText shortest true tables ++ [0x7D]) := by
  cases tables with
  | nil =>
    rw [List.map_nil, JsonText.write]
    rfl
  | cons t tables =>
    rw [List.map_cons, tableValue, JsonText.write_obj_cons, tablesText, tableText_eq,
      tablesText_false, commaText]
    simp only [List.append_assoc, List.cons_append, if_true, List.nil_append]

theorem tablesText_append (first : Bool) (tables more : List Table) :
    tablesText shortest first (tables ++ more) =
      tablesText shortest first tables ++ tablesText shortest (first && tables.isEmpty) more := by
  induction tables generalizing first with
  | nil => rw [List.nil_append, tablesText, List.nil_append, List.isEmpty_nil, Bool.and_true]
  | cons t tables ih =>
    rw [List.cons_append, tablesText, ih, tablesText, List.append_assoc, List.isEmpty_cons,
      Bool.and_false, Bool.false_and]

/-! ### Documents -/

/-- A snapshot: numbers, its tables and what comes after them. -/
def document (field : CodeUnits × Value) (fields : List (CodeUnits × Value)) (tables : List Table)
    (after : List (CodeUnits × Value)) : List (CodeUnits × Value) :=
  field :: (fields ++ (ascii "tables", .obj (tables.map tableValue)) :: after)

variable (shortest) in
/-- A snapshot up to its first table. -/
def headText (field : CodeUnits × Value) (fields : List (CodeUnits × Value)) : CodeUnits :=
  0x7B :: (writeString field.1 ++ 0x3A :: (JsonText.write shortest field.2 ++
    (memberTexts shortest fields ++ 0x2C :: (writeString (ascii "tables") ++ [0x3A, 0x7B]))))

theorem write_document (field : CodeUnits × Value) (fields : List (CodeUnits × Value))
    (tables : List Table) (after : List (CodeUnits × Value)) :
    JsonText.write shortest (.obj (document field fields tables after)) =
      headText shortest field fields ++ (tablesText shortest true tables ++
        0x7D :: (memberTexts shortest after ++ [0x7D])) := by
  obtain ⟨name, v⟩ := field
  rw [document, JsonText.write_obj_cons, headText, memberTexts, List.flatMap_append, List.flatMap_cons,
    write_tables]
  simp only [memberTexts, List.append_assoc, List.cons_append, List.nil_append]

/-- No part that a client may receive parses. -/
def Unparsable (text : CodeUnits) : Prop := ∀ part, part <+: text → JsonText.parse part = none

theorem unparsable_of_strict {members : List (CodeUnits × Value)} (hplain : Plain (.obj members))
    {text : CodeUnits} (htext : text <+: JsonText.write shortest (.obj members))
    (hne : text ≠ JsonText.write shortest (.obj members)) : Unparsable text := by
  intro part hpart
  cases hparse : JsonText.parse part with
  | none => rfl
  | some v =>
    have hwhole := JsonText.eq_of_prefix_of_parse hplain (hpart.trans htext) hparse
    rw [hwhole] at hpart
    exact absurd (htext.eq_of_length_le hpart.length_le) hne

/-! ### Arrays that stay open -/

/-- What may be put out after a table whose array was left open. -/
def Stray (tail : CodeUnits) : Prop :=
  tail = [] ∨ (∃ cs, tail = 0x22 :: cs) ∨ ∃ name cs, tail = 0x2C :: (writeString name ++ 0x3A :: cs)

theorem stray_tableText (first : Bool) (t : Identifier) (rows : List (Row Stored)) (more : CodeUnits) :
    Stray (openText shortest first t rows ++ more) := by
  cases first with
  | true => exact Or.inr (Or.inl ⟨_, rfl⟩)
  | false =>
    refine Or.inr (Or.inr ⟨t.units, 0x5B :: (rowsText shortest true rows ++ more), ?_⟩)
    rw [openText, keyText, commaText, List.append_assoc, List.append_assoc, List.append_assoc]
    rfl

theorem stray_tablesText {first : Bool} {tables : List Table} {more : CodeUnits}
    (h : tables = [] → Stray more) : Stray (tablesText shortest first tables ++ more) := by
  cases tables with
  | nil => exact h rfl
  | cons t tables =>
    rw [tablesText, tableText, List.append_assoc, List.append_assoc]
    exact stray_tableText first t.1 t.2 _

theorem deadElements_stray {tail more part : CodeUnits} (h : Stray tail)
    (hpart : part <+: tail ++ 0x7D :: more) : DeadElements part := by
  cases part with
  | nil => exact JsonText.deadElements_nil
  | cons c part =>
    rcases h with rfl | ⟨cs, rfl⟩ | ⟨name, cs, rfl⟩
    · rw [List.nil_append, List.cons_prefix_cons] at hpart
      rw [hpart.1]
      exact JsonText.deadElements_cons (by decide) (by decide) (by decide) part
    · rw [List.cons_append, List.cons_prefix_cons] at hpart
      rw [hpart.1]
      exact JsonText.deadElements_cons (by decide) (by decide) (by decide) part
    · rw [List.cons_append, List.cons_prefix_cons, List.append_assoc, List.cons_append] at hpart
      rw [hpart.1]
      exact JsonText.deadElements_member hpart.2

theorem not_isNumber_rowValue (row : Row Stored) : ¬ JsonText.IsNumber (rowValue row) := id

theorem deadElements_rows {rows : List (Row Stored)} {rest : CodeUnits} (h : DeadElements rest) :
    DeadElements (rowsText shortest false rows ++ rest) := by
  induction rows with
  | nil => exact h
  | cons row rows ih =>
    rw [rowsText, commaText, List.append_assoc, List.append_assoc]
    exact ih.element (plain_rowValue row) (Or.inr (not_isNumber_rowValue row))

theorem dead_rows {rows : List (Row Stored)} {rest : CodeUnits} (hrows : rows ≠ [])
    (h : DeadElements rest) : Dead (0x5B :: (rowsText shortest true rows ++ rest)) := by
  obtain ⟨row, rows, rfl⟩ := List.exists_cons_of_ne_nil hrows
  rw [rowsText, commaText, List.append_assoc, List.append_assoc]
  exact (deadElements_rows h).array (plain_rowValue row) (Or.inr (not_isNumber_rowValue row))

theorem dead_openTable {tables : List Table} {t : Identifier} {rows : List (Row Stored)}
    {rest : CodeUnits} (hrows : rows ≠ []) (h : DeadElements rest) :
    Dead (0x7B :: (tablesText shortest true tables ++
      (openText shortest tables.isEmpty t rows ++ rest))) := by
  have hopen := @dead_rows shortest rows rest hrows h
  cases tables with
  | nil =>
    rw [tablesText, openText, keyText, commaText, List.append_assoc, List.append_assoc,
      List.append_assoc]
    exact hopen.object t.units
  | cons u tables =>
    have hmembers : DeadMembers (memberTexts shortest (tables.map tableValue) ++
        0x2C :: (writeString t.units ++ 0x3A :: 0x5B :: (rowsText shortest true rows ++ rest))) :=
      (hopen.member t.units).members (plainMembers_tables tables) (JsonText.ends_comma _)
    have hplain : Plain (.arr (u.2.map rowValue)) := by
      rw [Plain]
      exact plainElements_rows u.2
    have hobject : Dead (0x7B :: (writeString u.1.units ++
        0x3A :: (JsonText.write shortest (.arr (u.2.map rowValue)) ++ _))) :=
      hmembers.object u.1.units hplain (Or.inr id)
    rw [tablesText, tableText_eq, tablesText_false, List.isEmpty_cons, openText, keyText]
    simpa only [commaText, if_true, List.append_assoc, List.cons_append, List.nil_append,
      Bool.false_eq_true, if_false] using hobject

theorem prefix_append_cases {first more part : CodeUnits} (h : part <+: first ++ more) :
    part <+: first ∨ ∃ rest, part = first ++ rest ∧ rest <+: more := by
  rcases List.prefix_or_prefix_of_prefix h (List.prefix_append first more) with hshort | ⟨rest, rfl⟩
  · exact Or.inl hshort
  · exact Or.inr ⟨rest, rfl, (List.prefix_append_right_inj first).mp h⟩

/-- A stream that leaves the array of a table open is no JSON from there on. -/
theorem unparsable_torn {field : CodeUnits × Value} {fields : List (CodeUnits × Value)}
    {tables : List Table} {t : Identifier} {rows : List (Row Stored)} {tail more : CodeUnits}
    (hplain : Plain (.obj (document field fields (tables ++ [(t, rows)]) []))) (hrows : rows ≠ [])
    (htail : Stray tail) :
    Unparsable (headText shortest field fields ++ (tablesText shortest true tables ++
      (openText shortest tables.isEmpty t rows ++ (tail ++ 0x7D :: more)))) := by
  intro part hpart
  have hwhole : JsonText.write shortest (.obj (document field fields (tables ++ [(t, rows)]) [])) =
      headText shortest field fields ++ (tablesText shortest true tables ++
        openText shortest tables.isEmpty t rows) ++ [0x5D, 0x7D, 0x7D] := by
    rw [write_document, tablesText_append, Bool.true_and]
    simp only [tablesText, tableText, memberTexts, List.flatMap_nil, List.append_nil,
      List.append_assoc, List.cons_append, List.nil_append]
  rw [← List.append_assoc (tablesText shortest true tables), ← List.append_assoc] at hpart
  rcases prefix_append_cases hpart with hshort | ⟨rest, rfl, hrest⟩
  · refine @unparsable_of_strict shortest _ hplain _ ?_ ?_ part hshort
    · rw [hwhole]
      exact List.prefix_append _ _
    · intro heq
      have hlength := congrArg List.length (heq.trans hwhole)
      rw [List.length_append] at hlength
      simp at hlength
  · apply JsonText.parse_of_dead
    rw [Plain, document, PlainMembers, JsonText.plainMembers_append] at hplain
    have hopen := @dead_openTable shortest tables t rows rest hrows (deadElements_stray htail hrest)
    have hmembers : DeadMembers (memberTexts shortest fields ++ 0x2C ::
        (writeString (ascii "tables") ++ 0x3A :: 0x7B :: (tablesText shortest true tables ++
          (openText shortest tables.isEmpty t rows ++ rest)))) :=
      (hopen.member (ascii "tables")).members hplain.2.2.1 (JsonText.ends_comma _)
    have hobject : Dead (0x7B :: (writeString field.1 ++
        0x3A :: (JsonText.write shortest field.2 ++ _))) :=
      hmembers.object field.1 hplain.2.1
        (Or.inl (JsonText.ends_memberTexts fields (JsonText.ends_comma _)))
    simpa only [headText, List.append_assoc, List.cons_append, List.nil_append] using hobject

end Texts

end XChainSync.Snapshots
