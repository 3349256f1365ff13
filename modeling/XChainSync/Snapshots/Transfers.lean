import Mathlib
import XChainSync.Snapshots.Runs

/-!
# What a client takes for a snapshot

A client parses what it received of a stream, be it cut off anywhere. Where that parses it is the
whole snapshot.
-/

namespace XChainSync.Snapshots
set_option autoImplicit false
open Client (DbType)
open CutStream (Emits Puts Stop Cut Turn Writer await attempt)
open JsonText (ascii natText Value Plain PlainMembers writeString memberTexts)
open Wire (Row Stored)

/-- Every query is answered. -/
structure View.Answers (db : View) : Prop where
  begin : db.beginReadSnapshot = .ok ()
  commit : db.commitReadSnapshot = .ok ()
  tableNames : ∃ names, db.findStreamableTableNames = .ok names
  hashRow : ∀ height, ∃ row, db.getBlockHashRow height = .ok row
  count : ∀ t, ∃ n, db.getTableCount t = .ok n
  tableRows : ∀ t, (db.streamTableRows t).2 = .ok ()
  firstAction : ∀ since, ∃ index, db.getFirstActionIndex since = .ok index
  selected : ∀ t since index, ∃ rows, db.selectIncrementalRows t since index = .ok rows
  page : ∀ t after, db.lookupPage t after = .ok ()
  updated : ∀ since last delay, ∃ rows, db.collectUpdatedRows since last delay = .ok rows

/-! ### Documents that are cut off -/

theorem Unparsable.part {text out : CodeUnits} (h : Unparsable text) (hout : out <+: text) :
    Unparsable out :=
  fun part hpart => h part (hpart.trans hout)

section Cuts
variable {shortest : ℚ → CodeUnits} {field : CodeUnits × Value} {fields : List (CodeUnits × Value)}

theorem plain_tables {tables : List Table} (h : (tables.map Prod.fst).Nodup) :
    Plain (.obj (tables.map tableValue)) := by
  rw [Plain]
  refine ⟨?_, plainMembers_tables tables⟩
  have hunits : (tables.map tableValue).map Prod.fst = (tables.map Prod.fst).map Identifier.units := by
    rw [List.map_map, List.map_map]
    rfl
  rw [hunits]
  exact h.map units_injective

theorem plain_document {tables : List Table} {after : List (CodeUnits × Value)}
    (hnames : (field.1 :: (fields.map Prod.fst ++ ascii "tables" :: after.map Prod.fst)).Nodup)
    (hfield : Plain field.2) (hfields : PlainMembers fields) (hafter : PlainMembers after)
    (htables : (tables.map Prod.fst).Nodup) : Plain (.obj (document field fields tables after)) := by
  rw [Plain, document, List.map_cons, List.map_append, List.map_cons]
  refine ⟨hnames, ?_⟩
  obtain ⟨name, v⟩ := field
  rw [PlainMembers, JsonText.plainMembers_append, PlainMembers]
  exact ⟨hfield, hfields, plain_tables htables, hafter⟩

theorem unparsable_open {tables : List Table} {out : CodeUnits}
    (hplain : Plain (.obj (document field fields tables [])))
    (hout : out <+: headText shortest field fields ++ (tablesText shortest true tables ++ [0x7D])) :
    Unparsable out := by
  have hwhole : JsonText.write shortest (.obj (document field fields tables [])) =
      headText shortest field fields ++ (tablesText shortest true tables ++ [0x7D]) ++ [0x7D] := by
    rw [write_document, memberTexts, List.flatMap_nil, List.append_assoc, List.append_assoc]
    rfl
  apply @unparsable_of_strict shortest _ hplain
  · rw [hwhole]
    exact hout.trans (List.prefix_append _ _)
  · intro heq
    have hlength := hout.length_le
    rw [heq, hwhole] at hlength
    simp at hlength

theorem unparsable_tables {tables : List Table} {out : CodeUnits}
    (hplain : Plain (.obj (document field fields tables [])))
    (hout : out <+: headText shortest field fields ++ tablesText shortest true tables) :
    Unparsable out :=
  unparsable_open hplain
    (hout.trans ((List.prefix_append_right_inj _).mpr (List.prefix_append _ _)))

/-- The documents of a stream are plain whatever their tables. -/
def PlainFrame (field : CodeUnits × Value) (fields : List (CodeUnits × Value)) : Prop :=
  ∀ tables : List Table, (tables.map Prod.fst).Nodup → Plain (.obj (document field fields tables []))

theorem unparsable_shaped {ts : List Identifier} (hframe : PlainFrame field fields) (hts : ts.Nodup)
    {full out : CodeUnits} (hfull : Shaped shortest true ts full)
    (hout : out <+: headText shortest field fields ++ full) : Unparsable out := by
  rcases hfull with ⟨tables, hnames, rfl⟩ | ⟨tables, t, rows, tail, rfl, hrows, hnames, htail⟩
  · exact unparsable_tables (hframe tables (hts.sublist hnames)) hout
  · have hplain := hframe (tables ++ [(t, rows)])
      (by rw [List.map_append]; exact hts.sublist hnames)
    refine (@unparsable_torn shortest _ _ _ _ _ _ [] hplain hrows htail).part (hout.trans ?_)
    rw [Bool.true_and]
    exact ⟨[0x7D], by simp only [List.append_assoc]⟩

theorem unparsable_closed {ts : List Identifier} (hframe : PlainFrame field fields) (hts : ts.Nodup)
    {full : CodeUnits} (hfull : Torn shortest true ts full) (more : CodeUnits) :
    Unparsable (headText shortest field fields ++ (full ++ 0x7D :: more)) := by
  obtain ⟨tables, t, rows, tail, rfl, hrows, hnames, htail⟩ := hfull
  have hplain := hframe (tables ++ [(t, rows)])
    (by rw [List.map_append]; exact hts.sublist hnames)
  have htorn := @unparsable_torn shortest _ _ _ _ _ _ more hplain hrows htail
  rw [Bool.true_and]
  simpa only [List.append_assoc] using htorn

end Cuts

/-! ### Full snapshots -/

section Full
variable {registry : Registry} {shortest : ℚ → CodeUnits} {db : View} {stays : Prop}

/-- The rows of a table in a full snapshot, none where the table is empty. -/
def fullRows (db : View) (t : Identifier) : Except Fault (Option (List (Row Stored))) := do
  let count ← db.getTableCount t
  if count = 0 then return none
  else
    (db.streamTableRows t).2
    return some (db.streamTableRows t).1

/-- Where a client leaves a part of the table is put out. -/
theorem part_of_cut {whole out : CodeUnits} {first : Bool} {t : Identifier}
    {rows : List (Row Stored)} {sound : Prop} {e : Stop Fault} (h : Cut stays whole e out)
    (hwhole : whole <+: tableText shortest first (t, rows)) :
    Excused stays sound e ∧ ∃ rows, out <+: tableText shortest first (t, rows) := by
  obtain ⟨rfl, hleft, hout⟩ := h
  exact ⟨excused_aborted hleft, rows, hout.trans hwhole⟩

theorem streamsTable_full (t : Identifier) :
    StreamsTable stays db.Answers shortest (streamFullSnapshotTable shortest db) (fullRows db) t := by
  intro first
  unfold streamFullSnapshotTable
  cases hcount : db.getTableCount t with
  | error e =>
    refine Emits.stop ⟨excused_error fun h => ?_, [], List.nil_prefix⟩
    obtain ⟨n, hn⟩ := h.count t
    rw [hcount] at hn
    cases hn
  | ok count =>
    rw [CutStream.await_ok_bind]
    split
    · rename_i hzero
      refine Emits.pure (Or.inl ⟨none, ?_, rfl, (Bool.and_true first).symm⟩)
      rw [fullRows, hcount, hzero]
      rfl
    · rename_i hzero
      have hopen : keyText first t ++ rowsText shortest true (db.streamTableRows t).1 <+:
          tableText shortest first (t, (db.streamTableRows t).1) := List.prefix_append _ _
      apply (puts_tableKey first t).emits
      · apply (puts_rows true _).emits
        · cases hrows : (db.streamTableRows t).2 with
          | error e =>
            refine Emits.stop ⟨excused_error fun h => ?_, (db.streamTableRows t).1, ?_⟩
            · have hanswer := h.tableRows t
              rw [hrows] at hanswer
              cases hanswer
            · rw [List.append_nil]
              exact hopen
          | ok u =>
            rw [CutStream.await_ok_bind]
            apply (Puts.write _).emits
            · refine Emits.pure (Or.inl ⟨some (db.streamTableRows t).1, ?_, ?_, ?_⟩)
              · have hread : fullRows db t =
                    if count = 0 then .ok none else (db.streamTableRows t).2 >>= fun _ =>
                      .ok (some (db.streamTableRows t).1) := by
                  rw [fullRows, hcount]
                  rfl
                rw [hread, if_neg hzero, hrows]
                rfl
              · rw [List.append_nil, carriedText, tableText, openText, List.append_assoc]
                rfl
              · exact (Bool.and_false first).symm
            · intro e out h
              have hwhole : keyText first t ++ (rowsText shortest true (db.streamTableRows t).1 ++
                  ascii "]") <+: tableText shortest first (t, (db.streamTableRows t).1) := by
                rw [← List.append_assoc]
                exact List.prefix_refl _
              exact part_of_cut h.append.append hwhole
        · intro e out h
          exact part_of_cut h.append hopen
      · intro e out h
        exact part_of_cut h ((List.prefix_append _ _).trans hopen)

/-! The whole text -/

/-- The tables of a snapshot, read one by one. -/
def snapshotTables (registry : Registry) (db : View)
    (carried : Identifier → Except Fault (Option (List (Row Stored)))) : Except Fault (List Table) := do
  let order ← getOrderedTables registry db
  readTables carried order

def numField (name : String) (n : Nat) : CodeUnits × Value := (ascii name, .num (some n))

theorem plain_num {n : Nat} (h : (n : Int) ≤ Double.MAX_SAFE_INTEGER) :
    Plain (.num (some (n : ℚ))) := by
  rw [Plain]
  refine ⟨Rat.den_natCast n, ?_⟩
  rw [Rat.num_natCast, Nat.abs_cast]
  exact h

theorem write_num {n : Nat} (h : (n : Int) ≤ Double.MAX_SAFE_INTEGER) :
    JsonText.write shortest (.num (some (n : ℚ))) = natText n := by
  rw [JsonText.write, (JsonText.writeNumber_of_plain (plain_num h)).1, Rat.num_natCast,
    JsonText.intText, if_neg (by omega), Int.natAbs_natCast]

theorem schemaVersion_safe (dbType : DbType) :
    (SCHEMA_VERSION dbType : Int) ≤ Double.MAX_SAFE_INTEGER := by
  cases dbType <;> decide

/-- A full snapshot. -/
def fullSnapshot (db : View) (lastBlock : Height) (tables : List Table) : List (CodeUnits × Value) :=
  document (numField "schema_version" (SCHEMA_VERSION db.dbType))
    [numField "block_height" lastBlock.value] tables []

/-- A full snapshot of a view that is read one query after another. -/
def fullDocument (registry : Registry) (db : View) (lastBlock : Height) :
    Except Fault (List (CodeUnits × Value)) := do
  let tables ← snapshotTables registry db (fullRows db)
  return fullSnapshot db lastBlock tables

theorem plain_fullSnapshot (db : View) (lastBlock : Height) :
    PlainFrame (numField "schema_version" (SCHEMA_VERSION db.dbType))
      [numField "block_height" lastBlock.value] := by
  intro tables htables
  apply plain_document
  · exact (by decide : [ascii "schema_version", ascii "block_height", ascii "tables"].Nodup)
  · exact plain_num (schemaVersion_safe db.dbType)
  · exact ⟨plain_num lastBlock.safe, trivial⟩
  · trivial
  · exact htables

theorem headText_full (db : View) (lastBlock : Height) :
    ascii "\x7b\"schema_version\":" ++ natText (SCHEMA_VERSION db.dbType) ++
        ascii ",\"block_height\":" ++ natText lastBlock.value ++ ascii ",\"tables\":\x7b" =
      headText shortest (numField "schema_version" (SCHEMA_VERSION db.dbType))
        [numField "block_height" lastBlock.value] := by
  rw [headText, numField, numField, write_num (schemaVersion_safe db.dbType), memberTexts,
    List.flatMap_singleton, write_num lastBlock.safe]
  simp only [List.append_assoc]
  rfl

/-- What is put out of a snapshot: all that is read, or a text of which nothing parses. -/
def Holds (shortest : ℚ → CodeUnits) (db : View) (read : Except Fault (List (CodeUnits × Value)))
    (out : CodeUnits) : Prop :=
  (∃ members, read = .ok members ∧ out = JsonText.write shortest (.obj members)) ∨
    (¬ db.Answers ∧ Unparsable out)

/-- What has been put out of a snapshot where the stream stops. -/
def Stops (shortest : ℚ → CodeUnits) (stays : Prop) (db : View)
    (read : Except Fault (List (CodeUnits × Value))) (e : Stop Fault) (out : CodeUnits) : Prop :=
  Excused stays db.Answers e ∧
    ((∃ members, read = .ok members ∧ out <+: JsonText.write shortest (.obj members)) ∨
      Unparsable out)

/-- What the tables of a snapshot have put out at their end. -/
def TablesHold (shortest : ℚ → CodeUnits) (db : View) (read : Except Fault (List Table))
    (out : CodeUnits) : Prop :=
  (∃ tables, read = .ok tables ∧ out = tablesText shortest true tables) ∨
    (¬ db.Answers ∧ ∃ order : List Identifier, order.Nodup ∧ Torn shortest true order out)

def TablesStop (shortest : ℚ → CodeUnits) (stays : Prop) (db : View) (e : Stop Fault)
    (out : CodeUnits) : Prop :=
  Excused stays db.Answers e ∧ ∃ (order : List Identifier) (full : CodeUnits), order.Nodup ∧
    out <+: full ∧ Shaped shortest true order full

theorem nodup_getOrderedTables {order : List Identifier}
    (h : getOrderedTables registry db = .ok order) : order.Nodup := by
  unfold getOrderedTables at h
  cases hnames : db.findStreamableTableNames with
  | error e =>
    rw [hnames] at h
    cases h
  | ok names =>
    rw [hnames] at h
    cases h
    exact nodup_orderSnapshotTables (names.nodup.filter _)

theorem emits_order {carried : Identifier → Except Fault (Option (List (Row Stored)))}
    {streamTable : Bool → Identifier → Streamed Bool} {order : List Identifier}
    (horder : getOrderedTables registry db = .ok order)
    (h : ∀ t, StreamsTable stays db.Answers shortest streamTable carried t) :
    Emits stays (streamTables streamTable true order)
      (fun _ => TablesHold shortest db (snapshotTables registry db carried))
      (TablesStop shortest stays db) := by
  have hnodup := nodup_getOrderedTables horder
  apply Emits.weaken (emits_tables (fun t _ => h t) true)
  · rintro _ out (⟨tables, hread, rfl⟩ | ⟨hsound, htorn⟩)
    · refine Or.inl ⟨tables, ?_, rfl⟩
      rw [snapshotTables, horder]
      exact hread
    · exact Or.inr ⟨hsound, order, hnodup, htorn⟩
  · rintro e out ⟨hexcused, full, hout, hfull⟩
    exact ⟨hexcused, order, full, hnodup, hout, hfull⟩

/-- Nothing was put out of the tables when their names could not be read. -/
theorem tablesStop_order {e : Fault} (h : getOrderedTables registry db = .error e) :
    TablesStop shortest stays db (.error e) [] := by
  refine ⟨excused_error fun hanswers => ?_, [], [], List.nodup_nil, List.nil_prefix,
    Or.inl ⟨[], List.Sublist.slnil, rfl⟩⟩
  obtain ⟨names, hnames⟩ := hanswers.tableNames
  rw [getOrderedTables, hnames] at h
  cases h

theorem emits_fullTables : Emits stays (streamFullSnapshotTables registry shortest db)
    (fun _ => TablesHold shortest db (snapshotTables registry db (fullRows db)))
    (TablesStop shortest stays db) := by
  unfold streamFullSnapshotTables
  cases horder : getOrderedTables registry db with
  | error e => exact Emits.stop (tablesStop_order horder)
  | ok order =>
    rw [CutStream.await_ok_bind]
    apply Emits.bind (emits_order horder streamsTable_full)
    · intro _ out hout
      refine Emits.pure ?_
      rw [List.append_nil]
      exact hout
    · exact fun _ _ h => h

theorem excused_commit {e : Fault} (h : db.commitReadSnapshot = .error e) :
    Excused stays db.Answers (.error e) := by
  refine excused_error fun hanswers => ?_
  have hcommit := hanswers.commit
  rw [h] at hcommit
  cases hcommit

theorem emits_full (lastBlock : Height) :
    Emits stays (streamFullSnapshotBody registry shortest db lastBlock)
      (fun _ => Holds shortest db (fullDocument registry db lastBlock))
      (Stops shortest stays db (fullDocument registry db lastBlock)) := by
  have hframe := plain_fullSnapshot db lastBlock
  unfold streamFullSnapshotBody
  rw [@headText_full shortest]
  apply (Puts.write _).emits
  · apply Emits.bind emits_fullTables
    · rintro _ out (⟨tables, hread, rfl⟩ | ⟨hsound, order, hnodup, htorn⟩)
      · have hdoc : headText shortest (numField "schema_version" (SCHEMA_VERSION db.dbType))
              [numField "block_height" lastBlock.value] ++
              (tablesText shortest true tables ++ (ascii "\x7d\x7d" ++ [])) =
            JsonText.write shortest (.obj (fullSnapshot db lastBlock tables)) := by
          rw [fullSnapshot, write_document]
          rfl
        have hread : fullDocument registry db lastBlock = .ok (fullSnapshot db lastBlock tables) := by
          rw [fullDocument, hread]
          rfl
        apply (Puts.write _).emits
        · exact Emits.await (fun _ _ => Or.inl ⟨_, hread, hdoc⟩) fun e he =>
            ⟨excused_commit he, Or.inl ⟨_, hread, hdoc ▸ List.prefix_refl _⟩⟩
        · rintro e out ⟨rfl, hleft, hout⟩
          refine ⟨excused_aborted hleft, Or.inl ⟨_, hread, ?_⟩⟩
          rw [← hdoc, List.append_nil]
          exact (List.prefix_append_right_inj _).mpr ((List.prefix_append_right_inj _).mpr hout)
      · have hclosed := @unparsable_closed shortest _ _ order hframe hnodup _ htorn [0x7D]
        apply (Puts.write _).emits
        · exact Emits.await (fun _ _ => Or.inr ⟨hsound, hclosed⟩) fun e he =>
            ⟨excused_commit he, Or.inr hclosed⟩
        · rintro e more ⟨rfl, hleft, hmore⟩
          refine ⟨excused_aborted hleft, Or.inr (hclosed.part ?_)⟩
          exact (List.prefix_append_right_inj _).mpr ((List.prefix_append_right_inj _).mpr hmore)
    · rintro e out ⟨hexcused, order, full, hnodup, hout, hfull⟩
      exact ⟨hexcused, Or.inr (unparsable_shaped hframe hnodup hfull
        ((List.prefix_append_right_inj _).mpr hout))⟩
  · rintro e out ⟨rfl, hleft, hout⟩
    refine ⟨excused_aborted hleft, Or.inr ?_⟩
    apply unparsable_tables (hframe [] List.nodup_nil)
    rw [tablesText, List.append_nil]
    exact hout

/-! ### What a client parses -/

theorem parses_prefix {members : List (CodeUnits × Value)} {out part : CodeUnits} {v : Value}
    (hplain : Plain (.obj members)) (hout : out <+: JsonText.write shortest (.obj members))
    (hpart : part <+: out) (hparse : JsonText.parse part = some v) :
    part = out ∧ v = .obj members := by
  have hwhole := JsonText.eq_of_prefix_of_parse hplain (hpart.trans hout) hparse
  refine ⟨hpart.eq_of_length_le ?_, ?_⟩
  · rw [hwhole]
    exact hout.length_le
  · rw [hwhole, JsonText.parse_write hplain] at hparse
    exact (Option.some.inj hparse).symm

/-- The response of a stream with a body that holds or stops. -/
theorem respond_parses {m : Streamed Unit} {client : List Turn} {headers : Headers}
    {read : Except Fault (List (CodeUnits × Value))}
    (h : Emits (client = []) m (fun _ => Holds shortest db read) (Stops shortest (client = []) db read))
    (hplain : ∀ members, read = .ok members → Plain (.obj members)) :
    (∀ part v, part <+: (respond headers (m (.start client))).text → JsonText.parse part = some v →
      part = (respond headers (m (.start client))).text ∧
        ∃ members, read = .ok members ∧ v = .obj members) ∧
    (client = [] → db.Answers → (respond headers (m (.start client))).outcome = .finished ∧
      ∃ v, JsonText.parse (respond headers (m (.start client))).text = some v) := by
  obtain ⟨out, htext, -, hout⟩ := h (.start client) fun hclient => ⟨rfl, hclient⟩
  have hrespond : (respond headers (m (.start client))).text = out := htext
  rw [hrespond]
  constructor
  · intro part v hpart hparse
    have hprefix : ∃ members, read = .ok members ∧ out <+: JsonText.write shortest (.obj members) := by
      cases hrun : (m (.start client)).1 with
      | ok u =>
        rw [hrun] at hout
        rcases hout with ⟨members, hread, heq⟩ | ⟨-, hnone⟩
        · exact ⟨members, hread, heq ▸ List.prefix_refl out⟩
        · rw [hnone part hpart] at hparse
          cases hparse
      | error e =>
        rw [hrun] at hout
        rcases hout.2 with hpre | hnone
        · exact hpre
        · rw [hnone part hpart] at hparse
          cases hparse
    obtain ⟨members, hread, hpre⟩ := hprefix
    obtain ⟨hwhole, hvalue⟩ := parses_prefix (hplain members hread) hpre hpart hparse
    exact ⟨hwhole, members, hread, hvalue⟩
  · intro hclient hanswers
    rw [respond]
    cases hrun : (m (.start client)).1 with
    | ok u =>
      rw [hrun] at hout
      rcases hout with ⟨members, hread, rfl⟩ | ⟨hnot, -⟩
      · exact ⟨rfl, _, JsonText.parse_write (hplain members hread)⟩
      · exact absurd hanswers hnot
    | error e =>
      rw [hrun] at hout
      cases e with
      | aborted => exact absurd hclient (hout.1.1 rfl)
      | error fault => exact absurd hanswers (hout.1.2 fault rfl)

theorem parse_of_prefix_nil {part : CodeUnits} (h : part <+: []) : JsonText.parse part = none := by
  rw [List.prefix_nil.mp h]
  rfl

theorem plain_fullDocument {lastBlock : Height} {members : List (CodeUnits × Value)}
    (h : fullDocument registry db lastBlock = .ok members) : Plain (.obj members) := by
  obtain ⟨tables, htables, h⟩ := ok_of_bind h
  obtain ⟨order, horder, htables⟩ := ok_of_bind htables
  cases h
  exact plain_fullSnapshot db lastBlock tables
    ((nodup_getOrderedTables horder).sublist (readTables_sublist htables))

/-- What parses of a full snapshot is the whole text, and has the last block and every table of the
view. Where the client stays and the view answers it is all sent. -/
theorem full_snapshot_fails_closed (registry : Registry) (shortest : ℚ → CodeUnits) (db : View)
    (client : List Turn) :
    (∀ part v, part <+: (streamFullSnapshotLocked registry shortest db client).text →
      JsonText.parse part = some v →
      part = (streamFullSnapshotLocked registry shortest db client).text ∧
        ∃ lastBlock members, db.getLastBlock = .ok (some lastBlock) ∧
          fullDocument registry db lastBlock = .ok members ∧ v = .obj members) ∧
    (client = [] → db.Answers → ∀ lastBlock, db.getLastBlock = .ok (some lastBlock) →
      (streamFullSnapshotLocked registry shortest db client).outcome = .finished ∧
        ∃ v, JsonText.parse (streamFullSnapshotLocked registry shortest db client).text = some v) := by
  constructor
  · intro part v hpart hparse
    unfold streamFullSnapshotLocked at hpart ⊢
    split at hpart
    · split at hpart
      · rw [parse_of_prefix_nil hpart] at hparse
        cases hparse
      · rw [parse_of_prefix_nil hpart] at hparse
        cases hparse
    · rename_i lastBlock hbegin hlast
      split at hpart
      · rename_i hashRow hrow
        obtain ⟨hwhole, members, hread, hvalue⟩ :=
          (respond_parses (emits_full lastBlock) fun _ => plain_fullDocument).1 part v hpart hparse
        exact ⟨hwhole, lastBlock, members, hlast, hread, hvalue⟩
      · rw [parse_of_prefix_nil hpart] at hparse
        cases hparse
    · rw [parse_of_prefix_nil hpart] at hparse
      cases hparse
  · intro hclient hanswers lastBlock hlast
    obtain ⟨row, hrow⟩ := hanswers.hashRow lastBlock
    rw [streamFullSnapshotLocked, hanswers.begin, hlast]
    simp only [hrow]
    exact (respond_parses (emits_full lastBlock) fun _ => plain_fullDocument).2 hclient hanswers

theorem oneRow_answers : oneRow.Answers where
  begin := rfl
  commit := rfl
  tableNames := ⟨_, rfl⟩
  hashRow _ := ⟨_, rfl⟩
  count _ := ⟨_, rfl⟩
  tableRows _ := rfl
  firstAction _ := ⟨_, rfl⟩
  selected _ _ _ := ⟨_, rfl⟩
  page _ _ := rfl
  updated _ _ _ := ⟨_, rfl⟩

theorem oneRow_arrives :
    (streamFullSnapshotLocked ⟨[], fun _ => []⟩ (fun _ => []) oneRow []).outcome = .finished ∧
      ∃ v, JsonText.parse
        (streamFullSnapshotLocked ⟨[], fun _ => []⟩ (fun _ => []) oneRow []).text = some v :=
  (full_snapshot_fails_closed ⟨[], fun _ => []⟩ (fun _ => []) oneRow []).2 rfl oneRow_answers
    ⟨7, seven_safe⟩ rfl

end Full

end XChainSync.Snapshots
