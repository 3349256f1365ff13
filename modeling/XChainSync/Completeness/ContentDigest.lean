import Mathlib
import XChainSync.Library.Bytes
import XChainSync.Library.NumberText
import XChainSync.Library.Utf16
import XChainSync.Merkle.BlockLeaves
import XChainSync.Wire.Codec

/-!
# The content digest of a table

`contentDigest` of src/client/block_hasher.js with `getDataHash` of src/util/index.js: every row
becomes a text of its columns in order, the texts are sorted, and the table's name is hashed with
them. A date has a time.
-/

namespace XChainSync.Completeness
open JsonText NumberText
open Wire (Row)
set_option autoImplicit false

/-! ### Values -/

/-- Milliseconds since 1970. -/
structure Date where
  time : Int
  in_range : |time| ≤ 8640000000000000

inductive ColumnValue where
  | null
  | undefined
  | number (x : Number)
  | bigint (n : Int)
  | str (s : CodeUnits)
  | date (d : Date)
  | buffer (bytes : List UInt8)

def padded (width n : Nat) : CodeUnits :=
  List.replicate (width - (natText n).length) 0x30 ++ natText n

/-- Year, month and day of a day number; a year begins in March here until the end. -/
def civil (days : Int) : Int × Nat × Nat :=
  let shifted := days + 719468
  let era := shifted / 146097
  let dayOfEra := (shifted % 146097).toNat
  let yearOfEra := (dayOfEra - dayOfEra / 1460 + dayOfEra / 36524 - dayOfEra / 146096) / 365
  let dayOfYear := dayOfEra - (365 * yearOfEra + yearOfEra / 4 - yearOfEra / 100)
  let m := (5 * dayOfYear + 2) / 153
  let month := if m < 10 then m + 3 else m - 9
  (era * 400 + yearOfEra + (if month ≤ 2 then 1 else 0), month, dayOfYear - (153 * m + 2) / 5 + 1)

def yearText (year : Int) : CodeUnits :=
  if 0 ≤ year ∧ year ≤ 9999 then padded 4 year.toNat
  else (if year < 0 then 0x2D else 0x2B) :: padded 6 year.natAbs

def Date.toISOString (d : Date) : CodeUnits :=
  let (year, month, day) := civil (d.time / 86400000)
  let ms := (d.time % 86400000).toNat
  yearText year ++ ascii "-" ++ padded 2 month ++ ascii "-" ++ padded 2 day ++ ascii "T" ++
    padded 2 (ms / 3600000) ++ ascii ":" ++ padded 2 (ms / 60000 % 60) ++ ascii ":" ++
    padded 2 (ms / 1000 % 60) ++ ascii "." ++ padded 3 (ms % 1000) ++ ascii "Z"

example : Date.toISOString ⟨1709210096789, by decide⟩ = ascii "2024-02-29T12:34:56.789Z" := by decide

/-- The text of a value, none for a null. -/
def canonical : ColumnValue → Option CodeUnits
  | .null => none
  | .undefined => none
  | .buffer bytes => some (ascii (Bytes.toHex bytes))
  | .date d => some d.toISOString
  | .number x => some x.text
  | .bigint n => some (intText n)
  | .str s => some s

/-! ### Objects -/

/-- The integer that a property name is, below 2^32 - 1. -/
def arrayIndex (name : CodeUnits) : Option Nat :=
  if name.all isDigit ∧ natText (digitsValue name) = name ∧ digitsValue name < 2 ^ 32 - 1 then
    some (digitsValue name)
  else none

/-- The properties as they are enumerated: the integers in order, then the others as they came. -/
def ownProperties {α : Type} (members : List (CodeUnits × α)) : List (CodeUnits × α) :=
  (members.filter fun p => (arrayIndex p.1).isSome).insertionSort
      (fun p q => (arrayIndex p.1).getD 0 ≤ (arrayIndex q.1).getD 0) ++
    members.filter fun p => (arrayIndex p.1).isNone

/-- The names are distinct, so that each of them makes a property of its own. -/
def canonicalColumns (excluded : List CodeUnits) (row : Row ColumnValue) :
    List (CodeUnits × Option CodeUnits) :=
  (Utf16.sort ((row.columns.map Prod.fst).filter (· ∉ excluded))).map fun key =>
    (key, (row.columns.lookup key).bind canonical)

def memberValue (v : Option CodeUnits) : Value := v.elim .null .str

def rowText (excluded : List CodeUnits) (row : Row ColumnValue) : CodeUnits :=
  write numberText (.obj ((ownProperties (canonicalColumns excluded row)).map fun p =>
    (p.1, memberValue p.2)))

/-! ### The digest -/

section Digest
variable {Digest : Type} (sha256 : Merkle.Buf → Digest)

/-- `createHash('sha256').update(text)`. -/
def hashText (text : CodeUnits) : Digest := sha256 (Merkle.utf8 (String.ofList (Utf16.scalars text)))

def getDataHash (data : Value) : Digest := hashText sha256 (write numberText data)

def contentDigest (table : CodeUnits) (rows : List (Row ColumnValue)) (excluded : List CodeUnits) : Digest :=
  let canon := Utf16.sort (rows.map (rowText excluded))
  getDataHash sha256 (.obj [(ascii "table", .str table), (ascii "rows", .arr (canon.map .str))])

end Digest

/-- What a row says after the excluded columns are dropped: a text or null under a column. -/
def rendered (excluded : List CodeUnits) (row : Row ColumnValue) : CodeUnits → Option (Option CodeUnits) :=
  fun key => if key ∈ excluded then none else (row.columns.lookup key).map canonical

/-! ### One row -/

theorem ownProperties_perm {α : Type} (members : List (CodeUnits × α)) :
    (ownProperties members).Perm members := by
  rw [ownProperties]
  have hrest : members.filter (fun p => (arrayIndex p.1).isNone) =
      members.filter fun p => ! (arrayIndex p.1).isSome := by
    simp
  rw [hrest]
  exact ((List.perm_insertionSort _ _).append_right _).trans (List.filter_append_perm _ members)

section OneRow
variable {excluded : List CodeUnits} {row row' : Row ColumnValue}

theorem names_canonicalColumns (excluded : List CodeUnits) (row : Row ColumnValue) :
    (canonicalColumns excluded row).map Prod.fst =
      Utf16.sort ((row.columns.map Prod.fst).filter (· ∉ excluded)) := by
  rw [canonicalColumns, List.map_map]
  exact List.map_id _

theorem nodup_canonicalColumns (excluded : List CodeUnits) (row : Row ColumnValue) :
    ((canonicalColumns excluded row).map Prod.fst).Nodup := by
  rw [names_canonicalColumns, Utf16.nodup_sort]
  exact row.nodup.filter _

theorem mem_names_iff (row : Row ColumnValue) (key : CodeUnits) :
    key ∈ row.columns.map Prod.fst ↔ (row.columns.lookup key).isSome := by
  rw [List.lookup_isSome_iff, List.mem_map]
  constructor
  · rintro ⟨p, hp, rfl⟩
    exact ⟨p, hp, beq_self_eq_true _⟩
  · rintro ⟨p, hp, hkey⟩
    exact ⟨p, hp, (eq_of_beq hkey).symm⟩

theorem mem_kept_iff (key : CodeUnits) :
    key ∈ (row.columns.map Prod.fst).filter (· ∉ excluded) ↔ (rendered excluded row key).isSome := by
  rw [List.mem_filter, decide_eq_true_eq, mem_names_iff, rendered]
  split
  · rename_i hkey
    simp [hkey]
  · rename_i hkey
    simp [hkey]

/-- The columns are those that the row says, in the order of their names. -/
theorem canonicalColumns_eq_rendered (excluded : List CodeUnits) (row : Row ColumnValue) :
    canonicalColumns excluded row =
      (Utf16.sort ((row.columns.map Prod.fst).filter (· ∉ excluded))).map fun key =>
        (key, (rendered excluded row key).join) := by
  apply List.map_congr_left
  intro key hkey
  rw [Utf16.mem_sort, List.mem_filter, decide_eq_true_eq] at hkey
  rw [rendered, if_neg hkey.2]
  cases row.columns.lookup key <;> rfl

theorem canonicalColumns_eq (h : rendered excluded row = rendered excluded row') :
    canonicalColumns excluded row = canonicalColumns excluded row' := by
  have hkept : ((row.columns.map Prod.fst).filter (· ∉ excluded)).Perm
      ((row'.columns.map Prod.fst).filter (· ∉ excluded)) := by
    rw [List.perm_ext_iff_of_nodup (row.nodup.filter _) (row'.nodup.filter _)]
    intro key
    rw [mem_kept_iff, mem_kept_iff, h]
  rw [canonicalColumns_eq_rendered, canonicalColumns_eq_rendered, h, Utf16.sort_eq_iff_perm.mpr hkept]

theorem mem_canonicalColumns {key : CodeUnits} {v : Option CodeUnits} :
    (key, v) ∈ canonicalColumns excluded row ↔ rendered excluded row key = some v := by
  rw [canonicalColumns_eq_rendered, List.mem_map]
  constructor
  · rintro ⟨key', hkey, heq⟩
    obtain ⟨rfl, rfl⟩ := Prod.mk.inj heq
    rw [Utf16.mem_sort, mem_kept_iff] at hkey
    obtain ⟨w, hw⟩ := Option.isSome_iff_exists.mp hkey
    rw [hw]
    rfl
  · intro h
    refine ⟨key, ?_, by rw [h]; rfl⟩
    rw [Utf16.mem_sort, mem_kept_iff, h]
    rfl

theorem rendered_eq_of_columns (h : (canonicalColumns excluded row).Perm (canonicalColumns excluded row')) :
    rendered excluded row = rendered excluded row' := by
  funext key
  apply Option.ext
  intro v
  rw [← mem_canonicalColumns, ← mem_canonicalColumns, h.mem_iff]

/-! The text of a row is that of an object, and an object has one text. -/

theorem memberValue_injective : Function.Injective memberValue := by
  intro v w h
  cases v <;> cases w <;> cases h <;> rfl

theorem plainMembers_memberValue (members : List (CodeUnits × Option CodeUnits)) :
    PlainMembers (members.map fun p => (p.1, memberValue p.2)) := by
  induction members with
  | nil => trivial
  | cons p members ih =>
    refine ⟨?_, ih⟩
    cases p.2 <;> trivial

theorem plain_row (excluded : List CodeUnits) (row : Row ColumnValue) :
    Plain (.obj ((ownProperties (canonicalColumns excluded row)).map fun p =>
      (p.1, memberValue p.2))) := by
  refine ⟨?_, plainMembers_memberValue _⟩
  rw [List.map_map]
  exact ((ownProperties_perm _).map Prod.fst).nodup_iff.mpr (nodup_canonicalColumns excluded row)

theorem rowText_eq_iff :
    rowText excluded row = rowText excluded row' ↔ rendered excluded row = rendered excluded row' := by
  constructor
  · intro h
    have hobj := Value.obj.inj (write_inj (plain_row excluded row) (plain_row excluded row') h)
    have hinj : Function.Injective fun p : CodeUnits × Option CodeUnits => (p.1, memberValue p.2) := by
      rintro ⟨key, v⟩ ⟨key', v'⟩ heq
      obtain ⟨hkey, hv⟩ := Prod.mk.inj heq
      exact Prod.ext hkey (memberValue_injective hv)
    have hown := List.map_injective_iff.mpr hinj hobj
    apply rendered_eq_of_columns
    exact ((ownProperties_perm _).symm.trans (hown ▸ List.Perm.refl _)).trans (ownProperties_perm _)
  · intro h
    rw [rowText, rowText, canonicalColumns_eq h]

end OneRow

/-! ### All the rows -/

/-- Two functions that tell the same elements apart make the same multisets equal. -/
theorem perm_map_of_same {α β γ : Type} [Nonempty γ] {f : α → β} {g : α → γ}
    (hsame : ∀ a b, f a = f b → g a = g b) {l l' : List α} (h : (l.map f).Perm (l'.map f)) :
    (l.map g).Perm (l'.map g) := by
  obtain ⟨e, rfl⟩ := (Function.factorsThrough_iff g).mp fun a b => hsame a b
  rw [← List.map_map, ← List.map_map]
  exact h.map e

theorem rowTexts_perm_iff {excluded : List CodeUnits} {rows rows' : List (Row ColumnValue)} :
    (rows.map (rowText excluded)).Perm (rows'.map (rowText excluded)) ↔
      (rows.map (rendered excluded)).Perm (rows'.map (rendered excluded)) :=
  ⟨perm_map_of_same fun _ _ => rowText_eq_iff.mp, perm_map_of_same fun _ _ => rowText_eq_iff.mpr⟩

/-- What is hashed for a table. -/
def tableData (table : CodeUnits) (texts : List CodeUnits) : Value :=
  .obj [(ascii "table", .str table), (ascii "rows", .arr (texts.map .str))]

theorem plainElements_str (texts : List CodeUnits) : PlainElements (texts.map .str) := by
  induction texts with
  | nil => trivial
  | cons text texts ih => exact ⟨trivial, ih⟩

theorem plain_tableData (table : CodeUnits) (texts : List CodeUnits) : Plain (tableData table texts) := by
  have hnames : [ascii "table", ascii "rows"].Nodup := by decide
  exact ⟨hnames, trivial, plainElements_str texts, trivial⟩

theorem wellFormed_elements (texts : List CodeUnits) :
    Utf16.WellFormed (writeElements numberText (texts.map .str)) := by
  induction texts with
  | nil => exact Utf16.wellFormed_single (by decide)
  | cons text texts ih =>
    rw [List.map_cons, writeElements, write]
    exact .cons (by decide) ((Utf16.wellFormed_writeString text).append ih)

theorem wellFormed_tableData (table : CodeUnits) (texts : List CodeUnits) :
    Utf16.WellFormed (write numberText (tableData table texts)) := by
  have harray : Utf16.WellFormed (write numberText (.arr (texts.map .str))) := by
    cases texts with
    | nil => exact .cons (by decide) (Utf16.wellFormed_single (by decide))
    | cons text texts =>
      rw [List.map_cons, write, write]
      exact .cons (by decide) ((Utf16.wellFormed_writeString text).append (wellFormed_elements texts))
  rw [tableData, write, writeMembers, writeMembers, write]
  refine .cons (by decide) <| (Utf16.wellFormed_writeString _).append <| .cons (by decide) <|
    (Utf16.wellFormed_writeString table).append <| .cons (by decide) <|
      (Utf16.wellFormed_writeString _).append <| .cons (by decide) <| harray.append ?_
  exact Utf16.wellFormed_single (by decide)

section Digest
variable {Digest : Type} {sha256 : Merkle.Buf → Digest}

theorem hashText_injOn (hinj : Function.Injective sha256) {s t : CodeUnits} (hs : Utf16.WellFormed s)
    (ht : Utf16.WellFormed t) (h : hashText sha256 s = hashText sha256 t) : s = t := by
  apply Utf16.scalars_inj hs ht
  exact String.ofList_injective (Merkle.utf8_injective (hinj h))

theorem contentDigest_eq_iff (hinj : Function.Injective sha256) (table : CodeUnits)
    (rows rows' : List (Row ColumnValue)) (excluded : List CodeUnits) :
    contentDigest sha256 table rows excluded = contentDigest sha256 table rows' excluded ↔
      (rows.map (rendered excluded)).Perm (rows'.map (rendered excluded)) := by
  rw [← rowTexts_perm_iff, ← Utf16.sort_eq_iff_perm]
  constructor
  · intro h
    have htext := hashText_injOn hinj (wellFormed_tableData table _) (wellFormed_tableData table _) h
    have hdata := write_inj (plain_tableData table _) (plain_tableData table _) htext
    have hrows := (List.cons.inj (List.cons.inj (Value.obj.inj hdata)).2).1
    have hstr : Function.Injective Value.str := fun _ _ => Value.str.inj
    exact List.map_injective_iff.mpr hstr (Value.arr.inj (Prod.mk.inj hrows).2)
  · intro h
    rw [contentDigest, contentDigest, h]

theorem rendered_of_columns_perm (excluded : List CodeUnits) {row row' : Row ColumnValue}
    (h : row.columns.Perm row'.columns) : rendered excluded row = rendered excluded row' := by
  have hlookup := Utf16.lookup_of_perm row.nodup row'.nodup h
  funext key
  rw [rendered, rendered, hlookup]

theorem contentDigest_of_perm (table : CodeUnits) (excluded : List CodeUnits)
    {rows rows' : List (Row ColumnValue)} (h : rows.Perm rows') :
    contentDigest sha256 table rows excluded = contentDigest sha256 table rows' excluded := by
  rw [contentDigest, contentDigest, Utf16.sort_eq_iff_perm.mpr (h.map _)]

theorem contentDigest_of_columns_perm (table : CodeUnits) (excluded : List CodeUnits)
    {rows rows' : List (Row ColumnValue)}
    (h : List.Forall₂ (fun row row' => row.columns.Perm row'.columns) rows rows') :
    contentDigest sha256 table rows excluded = contentDigest sha256 table rows' excluded := by
  have htexts : rows.map (rowText excluded) = rows'.map (rowText excluded) := by
    induction h with
    | nil => rfl
    | cons hrow _ ih =>
      rw [List.map_cons, List.map_cons, ih, rowText_eq_iff.mpr (rendered_of_columns_perm excluded hrow)]
  rw [contentDigest, contentDigest, htexts]

/-- Two lists of rows have one digest exactly where they say the same rows, each as often; the order
of the rows and of their columns never shows, whatever the hash. -/
theorem content_digest_is_of_the_multiset (sha256 : Merkle.Buf → Digest) (table : CodeUnits)
    (excluded : List CodeUnits) (rows rows' : List (Row ColumnValue)) :
    (Function.Injective sha256 →
      (contentDigest sha256 table rows excluded = contentDigest sha256 table rows' excluded ↔
        (rows.map (rendered excluded)).Perm (rows'.map (rendered excluded)))) ∧
    (rows.Perm rows' →
      contentDigest sha256 table rows excluded = contentDigest sha256 table rows' excluded) ∧
    (List.Forall₂ (fun row row' => row.columns.Perm row'.columns) rows rows' →
      contentDigest sha256 table rows excluded = contentDigest sha256 table rows' excluded) :=
  ⟨fun hinj => contentDigest_eq_iff hinj table rows rows' excluded,
    contentDigest_of_perm table excluded, contentDigest_of_columns_perm table excluded⟩

/-- A source's row with a surrogate id, and the same row of a follower. -/
def sourceRow : Row ColumnValue :=
  ⟨[(ascii "id", .bigint 1), (ascii "amount", .bigint 9007199254740993)], by decide, by decide⟩

def followerRow : Row ColumnValue :=
  ⟨[(ascii "amount", .str (ascii "9007199254740993")), (ascii "id", .bigint 7)], by decide, by decide⟩

theorem digest_of_two_forms :
    contentDigest id (ascii "credits") [sourceRow] [ascii "id"] =
        contentDigest id (ascii "credits") [followerRow] [ascii "id"] ∧
      contentDigest id (ascii "credits") [sourceRow] [] ≠
        contentDigest id (ascii "credits") [followerRow] [] := by
  constructor
  · rw [(content_digest_is_of_the_multiset id (ascii "credits") [ascii "id"] [sourceRow]
      [followerRow]).1 Function.injective_id]
    suffices hrow : rendered [ascii "id"] sourceRow = rendered [ascii "id"] followerRow by
      rw [List.map_singleton, List.map_singleton, hrow]
    funext key
    by_cases hid : key = ascii "id"
    · simp [rendered, hid]
    · by_cases hkey : key = ascii "amount"
      · simp [rendered, hkey, sourceRow, followerRow, List.lookup, canonical]
        decide
      · have hid' : (key == ascii "id") = false := beq_false_of_ne hid
        have hkey' : (key == ascii "amount") = false := beq_false_of_ne hkey
        simp [rendered, sourceRow, followerRow, List.lookup, hid', hkey']
  · rw [Ne, (content_digest_is_of_the_multiset id (ascii "credits") [] [sourceRow]
      [followerRow]).1 Function.injective_id]
    intro h
    have hid := congrFun (List.cons.inj (List.perm_singleton.mp h)).1 (ascii "id")
    revert hid
    decide

end Digest

end XChainSync.Completeness
