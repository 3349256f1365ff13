import Mathlib
import XChainSync.Library.Utf16
import XChainSync.Wire.Codec

/-!
# Payload rows into a table

`insertRows` and `upsertRows` of src/client/applier.js with the statements they send. A call that
throws has no result: its transaction is rolled back. The server is a parameter with what an INSERT
does of its own accord.
-/

namespace XChainSync.Wire
set_option autoImplicit false
open JsonText (Value ascii)

/-- A JSON object. -/
structure Payload where
  members : List (CodeUnits × Value)
  nodup : (members.map Prod.fst).Nodup

def Payload.value (row : Payload) : Value := .obj row.members

/-- `Object.keys`, up to their order. -/
def Payload.keys (row : Payload) : List CodeUnits := row.members.map Prod.fst

/-! ### The server -/

/-- A column name may stand for no column, and two names for one. -/
structure Server (Col Cell : Type) where
  column : CodeUnits → Option Col
  generated : Col → Bool
  /-- What the column makes of a bound value. -/
  cast : Col → Arg → Cell
  /-- A column that an INSERT does not name: its default, or the next id. -/
  fill : List (Col → Cell) → (Col → Option Cell) → Col → Cell
  compute : (Col → Cell) → Col → Cell
  /-- The two share a unique key. -/
  conflict : (Col → Cell) → (Col → Cell) → Bool
  /-- Another constraint fails. -/
  refuses : (Col → Cell) → Bool
  /-- `=` in a WHERE clause. -/
  equals : Col → Cell → Arg → Bool

inductive Effect (Col Cell : Type) where
  | inserted (record : Col → Cell)
  | updated (old new : Col → Cell)
  | skipped

/-- What one row of a statement does to the table. -/
structure Step (Col Cell : Type) where
  effect : Effect Col Cell
  before : List (Col → Cell)
  after : List (Col → Cell)

namespace Server
variable {Col Cell : Type} [DecidableEq Col] (server : Server Col Cell)

def complete (record : Col → Cell) (x : Col) : Cell :=
  if server.generated x then server.compute record x else record x

/-- The assigned values over those that a column has otherwise. -/
def overwrite (assigned : List (Col × Cell)) (otherwise : Col → Cell) : Col → Cell :=
  server.complete fun x => (assigned.lookup x).getD (otherwise x)

/-- One row of an INSERT, with IGNORE or ON DUPLICATE KEY UPDATE. -/
def writeRow (useIgnore useUpsert : Bool) (assigned : List (Col × Cell)) (table : List (Col → Cell)) :
    Option (Step Col Cell) :=
  let record := server.overwrite assigned (server.fill table fun x => assigned.lookup x)
  match table.findIdx? (server.conflict record) with
  | none =>
    if server.refuses record then (if useIgnore then some ⟨.skipped, table, table⟩ else none)
    else some ⟨.inserted record, table, table ++ [record]⟩
  | some i =>
    if useUpsert then
      table[i]?.bind fun old =>
        let new := server.overwrite assigned old
        if server.refuses new || (table.eraseIdx i).any (server.conflict new) then none
        else some ⟨.updated old new, table, table.set i new⟩
    else if useIgnore then some ⟨.skipped, table, table⟩
    else none

def writeRows (useIgnore useUpsert : Bool) :
    List (List (Col × Cell)) → List (Col → Cell) → Option (List (Step Col Cell) × List (Col → Cell))
  | [], table => some ([], table)
  | assigned :: rest, table => do
    let step ← server.writeRow useIgnore useUpsert assigned table
    let (steps, table) ← writeRows useIgnore useUpsert rest step.after
    return (step :: steps, table)

/-- The statement of `insertRowValues`. It fails on a column that is unknown, generated or named
twice; without columns its ON DUPLICATE KEY UPDATE is no clause. -/
def insertRowValues (columns : List CodeUnits) (rowCount : Nat) (args : List Arg)
    (useIgnore useUpsert : Bool) (table : List (Col → Cell)) :
    Option (List (Step Col Cell) × List (Col → Cell)) := do
  let cols ← columns.mapM server.column
  guard (cols.Nodup ∧ (∀ x ∈ cols, server.generated x = false) ∧ (useUpsert && columns.isEmpty) = false)
  let assigned := (List.range rowCount).map fun i =>
    (cols.zip ((args.drop (i * columns.length)).take columns.length)).map fun p =>
      (p.1, server.cast p.1 p.2)
  server.writeRows useIgnore useUpsert assigned table

def deleteRowsByKeyValues (naturalKey : CodeUnits) (slice : List Arg) (table : List (Col → Cell)) :
    Option (List (Col → Cell)) :=
  (server.column naturalKey).map fun x =>
    table.filter fun record => !slice.any (server.equals x (record x))

end Server

/-! ### The applier -/

structure ClientApplier where
  ignoreTables : List CodeUnits
  upsertFullDumpTables : List CodeUnits
  authoritativeSnapshotUpsertTables : List CodeUnits
  localSurrogateIdTables : List (CodeUnits × CodeUnits)
  localSurrogateIdOnlyTables : List CodeUnits

def generatedColumns (table : CodeUnits) : List CodeUnits :=
  if table = ascii "contract_state" then [ascii "state_key_bin"] else []

def isIdentifierUnit (c : UInt16) : Bool :=
  (0x41 ≤ c ∧ c ≤ 0x5A) ∨ (0x61 ≤ c ∧ c ≤ 0x7A) ∨ (0x30 ≤ c ∧ c ≤ 0x39) ∨ c = 0x5F

def validateIdentifier (name : CodeUnits) : Bool :=
  name ≠ [] ∧ name.length ≤ 64 ∧ name.all isIdentifierUnit

def sameKeyValue : Arg → Arg → Bool
  | .buffer a, .buffer b => a = b
  | .value (.bool a), .value (.bool b) => a = b
  | .value (.num (some a)), .value (.num (some b)) => a = b
  | .value (.str a), .value (.str b) => a = b
  | _, _ => false

structure Prepared where
  columns : List CodeUnits
  naturalKey : Option CodeUnits
  keyValues : List Arg

/-- The columns without some of them; none must not be left. -/
def without (strip : CodeUnits → Bool) (columns : List CodeUnits) : Option (List CodeUnits) :=
  let columns := columns.filter fun c => !strip c
  if columns = [] then none else some columns

/-- The columns of the first row that a statement may name. -/
def ungenerated (table : CodeUnits) (first : Payload) : Option (List CodeUnits) :=
  if generatedColumns table ≠ [] then without (· ∈ generatedColumns table) first.keys
  else some first.keys

def surrogateId : CodeUnits := ascii "id"

namespace ClientApplier
variable (applier : ClientApplier)

def prepareInsertColumns (table : CodeUnits) (first : Payload) : Option (List CodeUnits) := do
  let columns ← ungenerated table first
  if table ∈ applier.localSurrogateIdOnlyTables ∧ surrogateId ∈ columns then without (· = surrogateId) columns
  else some columns

/-- A row without its natural key is refused. -/
def keyValues (naturalKey : CodeUnits) : List Payload → List Arg → Option (List Arg)
  | [], keys => some keys
  | row :: rows, keys =>
    match get row.value naturalKey with
    | none => none
    | some .null => none
    | some v =>
      keyValues naturalKey rows
        (if keys.any fun k => sameKeyValue k (decodeValue v) then keys else keys ++ [decodeValue v])

def prepareNaturalKeyRows (table : CodeUnits) (rows : List Payload) (columns : List CodeUnits) :
    Option Prepared :=
  match applier.localSurrogateIdTables.lookup table with
  | none => some ⟨columns, none, []⟩
  | some naturalKey =>
    if surrogateId ∉ columns then some ⟨columns, none, []⟩
    else do
      guard (validateIdentifier naturalKey)
      let columns ← without (· = surrogateId) columns
      let values ← keyValues naturalKey rows []
      return ⟨columns, some naturalKey, values⟩

def useUpsert (table : CodeUnits) (authoritativeSnapshot : Bool) : Bool :=
  table ∈ applier.upsertFullDumpTables ∨
    (authoritativeSnapshot ∧ table ∈ applier.authoritativeSnapshotUpsertTables)

def useIgnore (table : CodeUnits) (authoritativeSnapshot : Bool) : Bool :=
  table ∈ applier.ignoreTables ∧ !applier.useUpsert table authoritativeSnapshot

def prepareTableRows (table : CodeUnits) (first : Payload) (rows : List Payload) : Option Prepared := do
  guard (validateIdentifier table)
  let columns ← applier.prepareInsertColumns table first
  applier.prepareNaturalKeyRows table rows columns

end ClientApplier

def deleteBatch : Nat := 500

def batchSize : Nat := 100

/-- The starts of the slices of a list. -/
def starts (length size : Nat) : List Nat := (List.range ((length + size - 1) / size)).map (size * ·)

/-- What SHOW WARNINGS after a batch leads to: an exception, nothing, or in a repair pass rows that
are retired before the batch is sent again and looked at once more. -/
structure Review (Col Cell : Type) where
  inspect : List Payload → List (Col → Cell) → Option (Option (List (Col → Cell)))
  accepts : List Payload → List (Col → Cell) → Bool

section Calls
variable {Col Cell : Type} [DecidableEq Col] (server : Server Col Cell) (review : Review Col Cell)

/-- One INSERT of rows from `start` on, with what each did. -/
def insertRowBatch (columns : List CodeUnits) (rows : List Payload) (start : Nat)
    (useIgnore useUpsert : Bool) (table : List (Col → Cell)) :
    Option (List (Payload × Step Col Cell) × List (Col → Cell)) :=
  let prepared := prepareInsertBatch (rows.map Payload.value) columns start batchSize
  (server.insertRowValues columns prepared.1.length prepared.2 useIgnore useUpsert table).map
    fun sent => (((rows.drop start).take batchSize).zip sent.1, sent.2)

def sendBatch (columns : List CodeUnits) (rows : List Payload) (useIgnore useUpsert : Bool)
    (sent : List (Payload × Step Col Cell) × List (Col → Cell)) (start : Nat) :
    Option (List (Payload × Step Col Cell) × List (Col → Cell)) := do
  let batch := (rows.drop start).take batchSize
  let (turns, table) ← insertRowBatch server columns rows start useIgnore useUpsert sent.2
  match ← review.inspect batch table with
  | none => return (sent.1 ++ turns, table)
  | some table =>
    let (again, table) ← insertRowBatch server columns rows start useIgnore useUpsert table
    guard (review.accepts batch table)
    return (sent.1 ++ turns ++ again, table)

/-- The rows that hold a natural key of the list go first. -/
def replaceHolders (prepared : Prepared) (content : List (Col → Cell)) : Option (List (Col → Cell)) :=
  match prepared.naturalKey with
  | none => some content
  | some naturalKey =>
    (starts prepared.keyValues.length deleteBatch).foldlM (fun content start =>
      server.deleteRowsByKeyValues naturalKey ((prepared.keyValues.drop start).take deleteBatch) content)
      content

def ClientApplier.insertRows (applier : ClientApplier) (authoritativeSnapshot : Bool)
    (table : CodeUnits) (rows : List Payload) (content : List (Col → Cell)) :
    Option (List (Payload × Step Col Cell) × List (Col → Cell)) :=
  match rows with
  | [] => some ([], content)
  | first :: _ => do
    let prepared ← applier.prepareTableRows table first rows
    let content ← replaceHolders server prepared content
    guard (prepared.columns.all validateIdentifier)
    (starts rows.length batchSize).foldlM
      (sendBatch server review prepared.columns rows (applier.useIgnore table authoritativeSnapshot)
        (applier.useUpsert table authoritativeSnapshot)) ([], content)

def upsertRows (table : CodeUnits) (rows : List Payload) (content : List (Col → Cell)) :
    Option (List (Payload × Step Col Cell) × List (Col → Cell)) :=
  match rows with
  | [] => some ([], content)
  | first :: _ => do
    guard (validateIdentifier table)
    let columns ← ungenerated table first
    guard (columns.all validateIdentifier)
    (starts rows.length batchSize).foldlM
      (fun sent start => (insertRowBatch server columns rows start false true sent.2).map
        fun more => (sent.1 ++ more.1, more.2)) ([], content)

end Calls

theorem flatMap_starts {α : Type} (rows : List α) {size : Nat} (hsize : 0 < size) :
    ((starts rows.length size).flatMap fun start => (rows.drop start).take size) = rows := by
  have hslices : ∀ count : Nat, (((List.range count).map (size * ·)).flatMap fun start =>
      (rows.drop start).take size) = rows.take (size * count) := by
    intro count
    induction count with
    | zero => simp
    | succ count ih =>
      rw [List.range_succ, List.map_append, List.flatMap_append, ih, Nat.mul_succ, List.take_add]
      simp
  rw [starts, hslices]
  apply List.take_of_length_le
  have hdiv := Nat.div_add_mod (rows.length + size - 1) size
  have hmod := Nat.mod_lt (rows.length + size - 1) hsize
  omega

/-! ### What a statement writes -/

section Statement
variable {Col Cell : Type} [DecidableEq Col] {server : Server Col Cell}

/-- A step has the assigned values in their columns, and leaves the other columns of an existing row. -/
def Step.Writes (server : Server Col Cell) (useIgnore : Bool) (assigned : List (Col × Cell))
    (step : Step Col Cell) : Prop :=
  match step.effect with
  | .inserted record => step.after = step.before ++ [record] ∧
      ∀ x v, server.generated x = false → assigned.lookup x = some v → record x = v
  | .updated old new => (∃ i : Nat, step.before[i]? = some old ∧ step.after = step.before.set i new) ∧
      ∀ x, server.generated x = false → new x = (assigned.lookup x).getD (old x)
  | .skipped => step.after = step.before ∧ useIgnore = true

theorem Server.writeRow_writes {useIgnore useUpsert : Bool} {assigned : List (Col × Cell)}
    {table : List (Col → Cell)} {step : Step Col Cell}
    (h : server.writeRow useIgnore useUpsert assigned table = some step) :
    step.Writes server useIgnore assigned := by
  unfold Server.writeRow at h
  dsimp only at h
  split at h
  · split_ifs at h with hrefuses hignore
    · obtain rfl := Option.some.inj h
      exact ⟨rfl, hignore⟩
    · obtain rfl := Option.some.inj h
      refine ⟨rfl, fun x v hx hv => ?_⟩
      simp [Server.overwrite, Server.complete, hx, hv]
  · rename_i i _
    split_ifs at h with hupsert hignore
    · obtain ⟨old, hold, h⟩ := Option.bind_eq_some_iff.mp h
      split_ifs at h
      obtain rfl := Option.some.inj h
      exact ⟨⟨i, hold, rfl⟩, fun x hx => by simp [Server.overwrite, Server.complete, hx]⟩
    · obtain rfl := Option.some.inj h
      exact ⟨rfl, hignore⟩

theorem Server.writeRows_writes {useIgnore useUpsert : Bool} {assigned : List (List (Col × Cell))}
    {table final : List (Col → Cell)} {steps : List (Step Col Cell)}
    (h : server.writeRows useIgnore useUpsert assigned table = some (steps, final)) :
    List.Forall₂ (Step.Writes server useIgnore) assigned steps := by
  induction assigned generalizing table final steps with
  | nil =>
    obtain ⟨rfl, -⟩ := Prod.mk.inj (Option.some.inj h)
    exact .nil
  | cons a rest ih =>
    simp only [Server.writeRows, Option.bind_eq_bind, Option.bind_eq_some_iff] at h
    obtain ⟨step, hstep, ⟨steps', final'⟩, hrest, h⟩ := h
    obtain ⟨rfl, -⟩ := Prod.mk.inj (Option.some.inj h)
    exact .cons (Server.writeRow_writes hstep) (ih hrest)

/-- Flat arguments fall apart into those of each row. -/
theorem slices_flatMap {α β : Type} (f : α → List β) (n : Nat) (rows : List α)
    (hf : ∀ a ∈ rows, (f a).length = n) :
    (List.range rows.length).map (fun i => ((rows.flatMap f).drop (i * n)).take n) = rows.map f := by
  induction rows with
  | nil => rfl
  | cons a rows ih =>
    have ha : (f a).length = n := hf a List.mem_cons_self
    rw [List.length_cons, List.range_succ_eq_map, List.map_cons, List.map_map, List.map_cons,
      ← ih fun b hb => hf b (List.mem_cons_of_mem a hb)]
    congr 1
    · simp [← ha]
    · apply List.map_congr_left
      intro i _
      have hdrop : (i + 1) * n = (f a).length + i * n := by rw [ha]; ring
      simp only [Function.comp_apply, List.flatMap_cons, Nat.succ_eq_add_one, hdrop,
        ← List.drop_drop, List.drop_left]

/-- What a statement assigns for a row. -/
def assignments (server : Server Col Cell) (columns : List CodeUnits) (cols : List Col) (row : Payload) :
    List (Col × Cell) :=
  (cols.zip (columns.map fun c => decodeValue ((get row.value c).getD .null))).map fun p =>
    (p.1, server.cast p.1 p.2)

omit [DecidableEq Col] in
theorem mem_of_mapM_column {columns : List CodeUnits} {cols : List Col} {c : CodeUnits} {x : Col}
    (h : columns.mapM server.column = some cols) (hc : c ∈ columns) (hx : server.column c = some x) :
    x ∈ cols := by
  induction columns generalizing cols with
  | nil => cases hc
  | cons d ds ih =>
    simp only [List.mapM_cons, Option.bind_eq_bind, Option.bind_eq_some_iff] at h
    obtain ⟨y, hy, ys, hys, h⟩ := h
    obtain rfl := Option.some.inj h
    rcases List.mem_cons.mp hc with rfl | hc
    · rw [hx] at hy
      exact List.mem_cons.mpr (Or.inl (Option.some.inj hy))
    · exact List.mem_cons_of_mem y (ih hys hc)

theorem lookup_assignments {columns : List CodeUnits} {cols : List Col} {row : Payload}
    {c : CodeUnits} {x : Col} (h : columns.mapM server.column = some cols) (hnodup : cols.Nodup)
    (hc : c ∈ columns) (hx : server.column c = some x) :
    (assignments server columns cols row).lookup x =
      some (server.cast x (decodeValue ((get row.value c).getD .null))) := by
  induction columns generalizing cols with
  | nil => cases hc
  | cons d ds ih =>
    simp only [List.mapM_cons, Option.bind_eq_bind, Option.bind_eq_some_iff] at h
    obtain ⟨y, hy, ys, hys, h⟩ := h
    obtain rfl := Option.some.inj h
    obtain ⟨hfresh, hnodup⟩ := List.nodup_cons.mp hnodup
    rcases List.mem_cons.mp hc with rfl | hc
    · obtain rfl : x = y := Option.some.inj (hx.symm.trans hy)
      simp [assignments]
    · have hmem : x ∈ ys := mem_of_mapM_column hys hc hx
      have hne : (x == y) = false := beq_false_of_ne fun heq => hfresh (heq ▸ hmem)
      simpa [assignments, List.lookup, hne] using ih hys hnodup hc

theorem lookup_assignments_none {columns : List CodeUnits} {cols : List Col} {row : Payload} {x : Col}
    (h : columns.mapM server.column = some cols) (hx : ∀ c ∈ columns, server.column c ≠ some x) :
    (assignments server columns cols row).lookup x = none := by
  induction columns generalizing cols with
  | nil =>
    obtain rfl := Option.some.inj h
    rfl
  | cons d ds ih =>
    simp only [List.mapM_cons, Option.bind_eq_bind, Option.bind_eq_some_iff] at h
    obtain ⟨y, hy, ys, hys, h⟩ := h
    obtain rfl := Option.some.inj h
    have hne : (x == y) = false := beq_false_of_ne fun heq => hx d List.mem_cons_self (heq ▸ hy)
    simpa [assignments, List.lookup, hne] using ih hys fun c hc => hx c (List.mem_cons_of_mem d hc)

theorem Server.insertRowValues_writes {columns : List CodeUnits} {batch : List Payload}
    {useIgnore useUpsert : Bool} {table final : List (Col → Cell)} {steps : List (Step Col Cell)}
    (h : server.insertRowValues columns batch.length
      (batch.flatMap fun row => columns.map fun c => decodeValue ((get row.value c).getD .null))
      useIgnore useUpsert table = some (steps, final)) :
    ∃ cols, columns.mapM server.column = some cols ∧ cols.Nodup ∧
      (∀ x ∈ cols, server.generated x = false) ∧
      List.Forall₂ (fun row step => Step.Writes server useIgnore (assignments server columns cols row) step)
        batch steps := by
  simp only [Server.insertRowValues, Option.bind_eq_bind, Option.bind_eq_some_iff] at h
  obtain ⟨cols, hcols, hguard, hfits, h⟩ := h
  obtain ⟨hnodup, hplain, -⟩ := (Option.guard_eq_some' _).mp hfits
  refine ⟨cols, hcols, hnodup, hplain, ?_⟩
  have hrows := slices_flatMap
    (fun row : Payload => columns.map fun c => decodeValue ((get row.value c).getD .null))
    columns.length batch fun row _ => List.length_map _
  have hassigned : (List.range batch.length).map (fun i =>
      (cols.zip (((batch.flatMap fun row => columns.map fun c =>
        decodeValue ((get row.value c).getD .null)).drop (i * columns.length)).take columns.length)).map
        fun p => (p.1, server.cast p.1 p.2)) = batch.map (assignments server columns cols) := by
    have hmap := congrArg (List.map fun args => (cols.zip args).map fun p => (p.1, server.cast p.1 p.2)) hrows
    rw [List.map_map, List.map_map] at hmap
    exact hmap
  rw [hassigned] at h
  exact List.forall₂_map_left_iff.mp (Server.writeRows_writes h)

theorem insertRowBatch_writes {columns : List CodeUnits} {rows : List Payload} {start : Nat}
    {useIgnore useUpsert : Bool} {table final : List (Col → Cell)}
    {turns : List (Payload × Step Col Cell)}
    (h : insertRowBatch server columns rows start useIgnore useUpsert table = some (turns, final)) :
    turns.map Prod.fst = (rows.drop start).take batchSize ∧
    ∃ cols, columns.mapM server.column = some cols ∧ cols.Nodup ∧
      (∀ x ∈ cols, server.generated x = false) ∧
      ∀ turn ∈ turns, turn.2.Writes server useIgnore (assignments server columns cols turn.1) := by
  simp only [insertRowBatch, prepareInsertBatch, Option.map_eq_some_iff] at h
  obtain ⟨⟨steps, final'⟩, hsent, h⟩ := h
  obtain ⟨rfl, rfl⟩ := Prod.mk.inj h
  set batch := (rows.drop start).take batchSize with hbatch
  rw [← List.map_drop, ← List.map_take, ← hbatch, List.length_map, List.flatMap_map] at hsent
  obtain ⟨cols, hcols, hnodup, hplain, hwrites⟩ := Server.insertRowValues_writes hsent
  refine ⟨List.map_fst_zip hwrites.length_eq.le, cols, hcols, hnodup, hplain, ?_⟩
  rintro ⟨row, step⟩ hturn
  exact (List.forall₂_iff_zip.mp hwrites).2 hturn

end Statement

/-! ### The columns of a list -/

theorem mem_of_without {strip : CodeUnits → Bool} {columns left : List CodeUnits} {c : CodeUnits}
    (h : without strip columns = some left) : c ∈ left ↔ c ∈ columns ∧ strip c = false := by
  simp only [without] at h
  split_ifs at h
  obtain rfl := Option.some.inj h
  simp

/-- The columns that never go into a statement. -/
def ClientApplier.Stripped (applier : ClientApplier) (table c : CodeUnits) : Prop :=
  c ∈ generatedColumns table ∨
    (c = surrogateId ∧
      (table ∈ applier.localSurrogateIdOnlyTables ∨ (applier.localSurrogateIdTables.lookup table).isSome))

instance (applier : ClientApplier) (table c : CodeUnits) : Decidable (applier.Stripped table c) :=
  inferInstanceAs (Decidable (_ ∨ _))

theorem mem_ungenerated {table c : CodeUnits} {first : Payload} {columns : List CodeUnits}
    (h : ungenerated table first = some columns) :
    c ∈ columns ↔ c ∈ first.keys ∧ c ∉ generatedColumns table := by
  unfold ungenerated at h
  split_ifs at h with hgenerated
  · simpa using mem_of_without h
  · obtain rfl := Option.some.inj h
    simp [not_not.mp hgenerated]

theorem mem_prepared {applier : ClientApplier} {table c : CodeUnits} {first : Payload}
    {rows : List Payload} {prepared : Prepared}
    (h : applier.prepareTableRows table first rows = some prepared) :
    c ∈ prepared.columns ↔ c ∈ first.keys ∧ ¬ applier.Stripped table c := by
  simp only [ClientApplier.prepareTableRows, ClientApplier.prepareInsertColumns, Option.bind_eq_bind,
    Option.bind_eq_some_iff] at h
  obtain ⟨-, -, columns, ⟨carried, hcarried, hcolumns⟩, h⟩ := h
  have honly : c ∈ columns ↔
      c ∈ carried ∧ ¬ (table ∈ applier.localSurrogateIdOnlyTables ∧ c = surrogateId) := by
    split_ifs at hcolumns with hid
    · simp [mem_of_without hcolumns, hid.1]
    · obtain rfl := Option.some.inj hcolumns
      refine ⟨fun hc => ⟨hc, fun hdrop => hid ⟨hdrop.1, hdrop.2 ▸ hc⟩⟩, fun hc => hc.1⟩
  have hnatural : c ∈ prepared.columns ↔
      c ∈ columns ∧ ¬ ((applier.localSurrogateIdTables.lookup table).isSome ∧ c = surrogateId) := by
    unfold ClientApplier.prepareNaturalKeyRows at h
    split at h
    · rename_i hnone
      obtain rfl := Option.some.inj h
      simp [hnone]
    · rename_i naturalKey hsome
      split_ifs at h with hid
      · simp only [Option.bind_eq_bind, Option.bind_eq_some_iff] at h
        obtain ⟨-, -, left, hleft, values, -, h⟩ := h
        obtain rfl := Option.some.inj h
        simp [mem_of_without hleft, hsome]
      · obtain rfl := Option.some.inj h
        exact ⟨fun hc => ⟨hc, fun hdrop => hid (hdrop.2 ▸ hc)⟩, fun hc => hc.1⟩
  rw [hnatural, honly, mem_ungenerated hcarried, ClientApplier.Stripped]
  tauto

/-! ### What a list of rows stores -/

section Lists
variable {Col Cell : Type} [DecidableEq Col] {server : Server Col Cell} {review : Review Col Cell}

/-- The record has the row's values in its columns among `names`, those left out apart. -/
def Holds (server : Server Col Cell) (leftOut : CodeUnits → Prop) (names : List CodeUnits) (row : Payload)
    (record : Col → Cell) : Prop :=
  ∀ c v x, (c, v) ∈ row.members → c ∈ names → ¬ leftOut c → server.column c = some x →
    record x = server.cast x (decodeValue v)

/-- The row is stored with its columns among `names`, and an existing row keeps all other columns. -/
def Step.Keeps (server : Server Col Cell) (leftOut : CodeUnits → Prop) (names : List CodeUnits)
    (row : Payload) (step : Step Col Cell) : Prop :=
  match step.effect with
  | .inserted record => step.after = step.before ++ [record] ∧ Holds server leftOut names row record
  | .updated old new => (∃ i : Nat, step.before[i]? = some old ∧ step.after = step.before.set i new) ∧
      Holds server leftOut names row new ∧
      ∀ x, server.generated x = false → (∀ c ∈ names, server.column c ≠ some x) → new x = old x
  | .skipped => ∃ record ∈ step.after, Holds server leftOut names row record

theorem Step.Writes.keeps {useIgnore : Bool} {leftOut : CodeUnits → Prop}
    {columns names : List CodeUnits} {cols : List Col} {row : Payload} {step : Step Col Cell}
    (hcols : columns.mapM server.column = some cols) (hnodup : cols.Nodup)
    (hplain : ∀ x ∈ cols, server.generated x = false)
    (hnames : ∀ c, c ∈ columns ↔ c ∈ names ∧ ¬ leftOut c)
    (h : step.Writes server useIgnore (assignments server columns cols row))
    (hwritten : step.effect ≠ .skipped) : step.Keeps server leftOut names row := by
  have hlookup : ∀ c v x, (c, v) ∈ row.members → c ∈ names → ¬ leftOut c → server.column c = some x →
      server.generated x = false ∧
      (assignments server columns cols row).lookup x = some (server.cast x (decodeValue v)) := by
    intro c v x hmember hc hleft hx
    have hcolumn : c ∈ columns := (hnames c).mpr ⟨hc, hleft⟩
    have hget : get row.value c = some v := (Utf16.lookup_eq_some_iff_mem row.nodup).mpr hmember
    refine ⟨hplain x (mem_of_mapM_column hcols hcolumn hx), ?_⟩
    rw [lookup_assignments hcols hnodup hcolumn hx, hget]
    rfl
  unfold Step.Writes at h
  unfold Step.Keeps
  cases heffect : step.effect with
  | inserted record =>
    rw [heffect] at h
    refine ⟨h.1, fun c v x hmember hc hleft hx => ?_⟩
    obtain ⟨hgenerated, hassigned⟩ := hlookup c v x hmember hc hleft hx
    exact h.2 x _ hgenerated hassigned
  | updated old new =>
    rw [heffect] at h
    refine ⟨h.1, fun c v x hmember hc hleft hx => ?_, fun x hgenerated hx => ?_⟩
    · obtain ⟨hgenerated, hassigned⟩ := hlookup c v x hmember hc hleft hx
      rw [h.2 x hgenerated, hassigned]
      rfl
    · have hnone : (assignments server columns cols row).lookup x = none :=
        lookup_assignments_none hcols fun c hc => hx c ((hnames c).mp hc).1
      rw [h.2 x hgenerated, hnone]
      rfl
  | skipped => exact absurd heffect hwritten

/-- A turn of the list is stored in the columns `names`, or skipped by IGNORE. -/
def Settled (server : Server Col Cell) (leftOut : CodeUnits → Prop) (names : List CodeUnits)
    (useIgnore : Bool) (rows : List Payload) (turn : Payload × Step Col Cell) : Prop :=
  turn.1 ∈ rows ∧
    (turn.2.Keeps server leftOut names turn.1 ∨
      (useIgnore = true ∧ turn.2.effect = .skipped ∧ turn.2.after = turn.2.before))

variable {leftOut : CodeUnits → Prop} {columns names : List CodeUnits} {rows : List Payload}
  {useIgnore useUpsert : Bool} {start : Nat} {table final : List (Col → Cell)}
  {turns : List (Payload × Step Col Cell)}

theorem insertRowBatch_settled (hnames : ∀ c, c ∈ columns ↔ c ∈ names ∧ ¬ leftOut c)
    (h : insertRowBatch server columns rows start useIgnore useUpsert table = some (turns, final)) :
    (∀ turn ∈ turns, Settled server leftOut names useIgnore rows turn) ∧
      ∀ row ∈ (rows.drop start).take batchSize, ∃ step, (row, step) ∈ turns := by
  obtain ⟨hrows, cols, hcols, hnodup, hplain, hwrites⟩ := insertRowBatch_writes h
  refine ⟨fun turn hturn => ⟨?_, ?_⟩, fun row hrow => ?_⟩
  · have hmem : turn.1 ∈ turns.map Prod.fst := List.mem_map_of_mem hturn
    rw [hrows] at hmem
    exact List.mem_of_mem_drop (List.mem_of_mem_take hmem)
  · by_cases hskipped : turn.2.effect = .skipped
    · have hturn := hwrites turn hturn
      unfold Step.Writes at hturn
      rw [hskipped] at hturn
      exact Or.inr ⟨hturn.2, hskipped, hturn.1⟩
    · exact Or.inl ((hwrites turn hturn).keeps hcols hnodup hplain hnames hskipped)
  · rw [← hrows] at hrow
    obtain ⟨⟨row', step⟩, hturn, rfl⟩ := List.mem_map.mp hrow
    exact ⟨step, hturn⟩

/-- A batch adds settled turns, one or more for each of its rows. -/
def Adds (good : Payload × Step Col Cell → Prop) (batch : List Payload)
    (before after : List (Payload × Step Col Cell)) : Prop :=
  ∃ more, after = before ++ more ∧ (∀ turn ∈ more, good turn) ∧ ∀ row ∈ batch, ∃ step, (row, step) ∈ more

theorem sendBatch_adds (hnames : ∀ c, c ∈ columns ↔ c ∈ names ∧ ¬ leftOut c)
    {sent sent' : List (Payload × Step Col Cell) × List (Col → Cell)}
    (h : sendBatch server review columns rows useIgnore useUpsert sent start = some sent') :
    Adds (Settled server leftOut names useIgnore rows) ((rows.drop start).take batchSize)
      sent.1 sent'.1 := by
  simp only [sendBatch, Option.bind_eq_bind, Option.bind_eq_some_iff] at h
  obtain ⟨⟨turns, table⟩, hturns, review', -, h⟩ := h
  obtain ⟨hsettled, hrows⟩ := insertRowBatch_settled hnames hturns
  cases review' with
  | none =>
    obtain rfl := Option.some.inj h
    exact ⟨turns, rfl, hsettled, hrows⟩
  | some retired =>
    simp only [Option.bind_eq_some_iff] at h
    obtain ⟨⟨again, table'⟩, hagain, -, -, h⟩ := h
    obtain rfl := Option.some.inj h
    obtain ⟨hsettled', -⟩ := insertRowBatch_settled hnames hagain
    refine ⟨turns ++ again, List.append_assoc _ _ _, fun turn hturn => ?_, fun row hrow => ?_⟩
    · rcases List.mem_append.mp hturn with hturn | hturn
      · exact hsettled turn hturn
      · exact hsettled' turn hturn
    · obtain ⟨step, hstep⟩ := hrows row hrow
      exact ⟨step, List.mem_append_left _ hstep⟩

omit [DecidableEq Col] in
theorem foldlM_adds {good : Payload × Step Col Cell → Prop} {batch : Nat → List Payload}
    {send : List (Payload × Step Col Cell) × List (Col → Cell) → Nat →
      Option (List (Payload × Step Col Cell) × List (Col → Cell))}
    (hsend : ∀ sent start sent', send sent start = some sent' → Adds good (batch start) sent.1 sent'.1)
    {ss : List Nat} {sent sent' : List (Payload × Step Col Cell) × List (Col → Cell)}
    (h : ss.foldlM send sent = some sent') : Adds good (ss.flatMap batch) sent.1 sent'.1 := by
  induction ss generalizing sent with
  | nil =>
    obtain rfl := Option.some.inj h
    exact ⟨[], (List.append_nil _).symm, by simp, by simp⟩
  | cons start ss ih =>
    simp only [List.foldlM_cons, Option.bind_eq_bind, Option.bind_eq_some_iff] at h
    obtain ⟨sent₁, hfirst, hrest⟩ := h
    obtain ⟨more, hmore, hgood, hrows⟩ := hsend _ _ _ hfirst
    obtain ⟨more', hmore', hgood', hrows'⟩ := ih hrest
    refine ⟨more ++ more', by rw [hmore', hmore, List.append_assoc], fun turn hturn => ?_,
      fun row hrow => ?_⟩
    · exact (List.mem_append.mp hturn).elim (hgood turn) (hgood' turn)
    · rcases List.mem_append.mp hrow with hrow | hrow
      · obtain ⟨step, hstep⟩ := hrows row hrow
        exact ⟨step, List.mem_append_left _ hstep⟩
      · obtain ⟨step, hstep⟩ := hrows' row hrow
        exact ⟨step, List.mem_append_right _ hstep⟩

/-- The batches cover the list. -/
theorem mem_batches {row : Payload} (h : row ∈ rows) :
    row ∈ (starts rows.length batchSize).flatMap fun start => (rows.drop start).take batchSize := by
  rwa [flatMap_starts rows (by decide)]

omit [DecidableEq Col] in
theorem Step.Keeps.congr {row : Payload} {step : Step Col Cell} {names' : List CodeUnits}
    (h : step.Keeps server leftOut names row) (hnames : ∀ c, c ∈ names' ↔ c ∈ names) :
    step.Keeps server leftOut names' row := by
  unfold Step.Keeps Holds at h ⊢
  simpa only [hnames] using h

/-- Every row of the list has its turn; a turn stores the row's columns among those of the first row,
or IGNORE skips it; a row with the columns of the first row keeps all of its own. -/
def Stores (server : Server Col Cell) (leftOut : CodeUnits → Prop) (useIgnore : Bool) (rows : List Payload)
    (turns : List (Payload × Step Col Cell)) : Prop :=
  (∀ row ∈ rows, ∃ step, (row, step) ∈ turns) ∧
  ∀ turn ∈ turns, ∃ first ∈ rows.head?, Settled server leftOut first.keys useIgnore rows turn ∧
    ((∀ c, c ∈ turn.1.keys ↔ c ∈ first.keys) → Settled server leftOut turn.1.keys useIgnore rows turn)

omit [DecidableEq Col] in
theorem stores_of_adds {first : Payload} {rest : List Payload}
    (h : Adds (Settled server leftOut first.keys useIgnore (first :: rest))
      ((starts (first :: rest).length batchSize).flatMap fun start =>
        ((first :: rest).drop start).take batchSize) [] turns) :
    Stores server leftOut useIgnore (first :: rest) turns := by
  obtain ⟨more, rfl, hgood, hrows⟩ := h
  refine ⟨fun row hrow => hrows row (mem_batches hrow), fun turn hturn => ⟨first, rfl, hgood turn hturn, ?_⟩⟩
  intro hkeys
  exact ⟨(hgood turn hturn).1, (hgood turn hturn).2.imp_left fun hkeeps => hkeeps.congr hkeys⟩

theorem insertRows_stores {applier : ClientApplier} {authoritativeSnapshot : Bool} {name : CodeUnits}
    (h : applier.insertRows server review authoritativeSnapshot name rows table = some (turns, final)) :
    Stores server (applier.Stripped name) (applier.useIgnore name authoritativeSnapshot) rows turns := by
  cases rows with
  | nil =>
    obtain ⟨rfl, -⟩ := Prod.mk.inj (Option.some.inj h)
    exact ⟨by simp, by simp⟩
  | cons first rest =>
    simp only [ClientApplier.insertRows, Option.bind_eq_bind, Option.bind_eq_some_iff] at h
    obtain ⟨prepared, hprepared, content, -, -, -, h⟩ := h
    refine stores_of_adds (foldlM_adds (fun sent start sent' hsent => ?_) h)
    exact sendBatch_adds (fun c => mem_prepared hprepared) hsent

theorem upsertRows_stores {name : CodeUnits}
    (h : upsertRows server name rows table = some (turns, final)) :
    Stores server (· ∈ generatedColumns name) false rows turns := by
  cases rows with
  | nil =>
    obtain ⟨rfl, -⟩ := Prod.mk.inj (Option.some.inj h)
    exact ⟨by simp, by simp⟩
  | cons first rest =>
    simp only [upsertRows, Option.bind_eq_bind, Option.bind_eq_some_iff] at h
    obtain ⟨-, -, columns, hcolumns, -, -, h⟩ := h
    refine stores_of_adds (foldlM_adds (fun sent start sent' hsent => ?_) h)
    obtain ⟨⟨turns, final⟩, hbatch, rfl⟩ := Option.map_eq_some_iff.mp hsent
    obtain ⟨hsettled, hrows⟩ := insertRowBatch_settled (fun c => mem_ungenerated hcolumns) hbatch
    exact ⟨turns, rfl, hsettled, hrows⟩

end Lists

/-! ### Rows that differ from the first -/

def ClientApplier.initial : ClientApplier where
  ignoreTables := ["index_addresses", "index_tickers", "index_actions", "index_coins", "index_fiats",
    "index_memos", "index_mime_types", "index_pubkeys", "index_statuses", "index_transactions",
    "pubkeys", "events", "sync_meta", "merkle_epochs", "validator_rewards", "rollcalls",
    "rollcall_absences", "rollcall_gates"].map ascii
  upsertFullDumpTables := ["markets", "attest_validator_stats"].map ascii
  authoritativeSnapshotUpsertTables := [ascii "merkle_epochs"]
  localSurrogateIdTables := [(ascii "blocks", ascii "block_index")]
  localSurrogateIdOnlyTables := ["attest_validator_stats", "sync_meta", "merkle_epochs"].map ascii

/-- A table of nullable columns with `id` as its one key. -/
def idKeyed : Server CodeUnits Arg where
  column := some
  generated _ := false
  cast _ a := a
  fill _ _ _ := .value .null
  compute record := record
  conflict a b := sameKeyValue (a surrogateId) (b surrogateId)
  refuses _ := false
  equals _ := sameKeyValue

def unreviewed : Review CodeUnits Arg := ⟨fun _ _ => some none, fun _ _ => true⟩

def order (n : Nat) : Payload := ⟨[(surrogateId, .num (some n))], List.nodup_singleton surrogateId⟩

def price : CodeUnits := ascii "price"

def pricedOrder (n p : Nat) : Payload where
  members := [(surrogateId, .num (some n)), (price, .num (some p))]
  nodup := by
    change [surrogateId, price].Nodup
    decide

def unpricedOrder (n : Nat) : Payload where
  members := [(surrogateId, .num (some n)), (price, .null)]
  nodup := by
    change [surrogateId, price].Nodup
    decide

def Payload.over (row : Payload) (old : CodeUnits → Arg) : CodeUnits → Arg :=
  idKeyed.overwrite (row.members.map fun m => (m.1, decodeValue m.2)) old

def Payload.record (row : Payload) : CodeUnits → Arg := row.over fun _ => .value .null

/-- Every turn keeps the columns that its own row carries. -/
def Lossless (leftOut : CodeUnits → Prop) (turns : List (Payload × Step CodeUnits Arg)) : Prop :=
  ∀ turn ∈ turns, turn.2.Keeps idKeyed leftOut turn.1.keys turn.1

end XChainSync.Wire
