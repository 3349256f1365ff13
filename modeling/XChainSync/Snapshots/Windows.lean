import Mathlib
import XChainSync.Snapshots.Transfers

/-!
# Incremental snapshots

The lookup tables of an incremental snapshot are paged, and a schema gap leaves out a table. A gap
that a later page meets leaves the array of the table open; the client then parses nothing.
-/

namespace XChainSync.Snapshots
set_option autoImplicit false
open Client (DbType)
open CutStream (Emits Puts Stop Cut Turn Writer await attempt)
open JsonText (ascii natText Value Plain PlainMembers writeString memberTexts)
open Wire (Row Stored)

section Incremental
variable {registry : Registry} {shortest : ℚ → CodeUnits} {db : View} {stays : Prop}

/-! ### Pages -/

/-- The rows of a lookup table after a cursor. -/
def rowsAfter (db : View) (t : Identifier) (after : Nat) : List (Nat × Row Stored) :=
  (db.lookup t).rows.filter (after < ·.1)

theorem rowsAfter_zero (t : Identifier) : rowsAfter db t 0 = (db.lookup t).rows :=
  List.filter_eq_self.mpr fun r hr => decide_eq_true ((db.lookup t).positive r hr)

/-- The rows after the last row of a page are those behind the page. -/
theorem rowsAfter_last {t : Identifier} {after limit : Nat} {last : Nat × Row Stored}
    (h : ((rowsAfter db t after).take limit).getLast? = some last) :
    rowsAfter db t last.1 = (rowsAfter db t after).drop limit := by
  have hsorted : (rowsAfter db t after).Pairwise fun r s => r.1 < s.1 :=
    (List.pairwise_map.mp (db.lookup t).ascending).filter _
  have hmem : last ∈ rowsAfter db t after := List.mem_of_mem_take (List.mem_of_getLast? h)
  have hafter : after < last.1 := of_decide_eq_true (List.mem_filter.mp hmem).2
  have hfilter : rowsAfter db t last.1 = (rowsAfter db t after).filter (last.1 < ·.1) := by
    rw [rowsAfter, rowsAfter, List.filter_filter]
    apply List.filter_congr
    intro r _
    rw [← Bool.decide_and, decide_eq_decide]
    omega
  rw [hfilter]
  conv_lhs => rw [← List.take_append_drop limit (rowsAfter db t after)]
  rw [← List.take_append_drop limit (rowsAfter db t after), List.pairwise_append] at hsorted
  obtain ⟨init, hinit⟩ := List.getLast?_eq_some_iff.mp h
  rw [List.filter_append, List.filter_eq_nil_iff.mpr, List.nil_append, List.filter_eq_self]
  · intro r hr
    exact decide_eq_true (hsorted.2.2 last (List.mem_of_getLast? h) r hr)
  · intro r hr
    have hle : r.1 ≤ last.1 := by
      rw [hinit] at hr
      rcases List.mem_append.mp hr with hr | hr
      · have hpair := hsorted.1
        rw [hinit, List.pairwise_append] at hpair
        exact (hpair.2.2 r hr last (List.mem_singleton_self last)).le
      · rw [List.mem_singleton.mp hr]
    simpa using hle

/-- Rows of a table, with its key unless that stands there already. -/
def pagesText (shortest : ℚ → CodeUnits) (first wrote : Bool) (t : Identifier)
    (rows : List (Row Stored)) : CodeUnits :=
  if rows = [] then []
  else (if wrote then [] else keyText first t) ++ rowsText shortest (!wrote) rows

theorem rowsText_append (first : Bool) (rows more : List (Row Stored)) :
    rowsText shortest first (rows ++ more) =
      rowsText shortest first rows ++ rowsText shortest (first && rows.isEmpty) more := by
  induction rows generalizing first with
  | nil => rw [List.nil_append, rowsText, List.nil_append, List.isEmpty_nil, Bool.and_true]
  | cons row rows ih =>
    rw [List.cons_append, rowsText, ih, rowsText, List.append_assoc, List.append_assoc,
      List.append_assoc, List.isEmpty_cons, Bool.and_false, Bool.false_and]

theorem pagesText_append {first wrote : Bool} {t : Identifier} {rows : List (Row Stored)}
    (hrows : rows ≠ []) (more : List (Row Stored)) :
    pagesText shortest first wrote t (rows ++ more) =
      pagesText shortest first wrote t rows ++ pagesText shortest false true t more := by
  have hempty : rows.isEmpty = false := List.isEmpty_eq_false_iff.mpr hrows
  rw [pagesText, pagesText, pagesText, if_neg hrows, if_neg (by simp [hrows]), rowsText_append,
    hempty, Bool.and_false, List.append_assoc]
  cases more with
  | nil => rfl
  | cons row more => rfl

/-- Pages that stop have put out some of the rows after the cursor. A fault comes between two pages. -/
def PagesStop (shortest : ℚ → CodeUnits) (stays : Prop) (db : View) (t : Identifier)
    (first wrote : Bool) (after : Nat) (e : Stop Fault) (out : CodeUnits) : Prop :=
  Cut stays (pagesText shortest first wrote t ((rowsAfter db t after).map Prod.snd)) e out ∨
    ∃ fault read, e = .error fault ∧ (∃ cursor, db.lookupPage t cursor = .error fault) ∧
      read <+: (rowsAfter db t after).map Prod.snd ∧
      (read = [] → db.lookupPage t after = .error fault) ∧
      out = pagesText shortest first wrote t read

theorem puts_page {first wrote : Bool} {t : Identifier} {rows : List (Row Stored)} (hrows : rows ≠ []) :
    Puts stays (putKeyOnce wrote first t >>= fun _ => putRows shortest (!wrote) rows)
      (pagesText shortest first wrote t rows) := by
  have hkey : Puts stays (putKeyOnce wrote first t) (if wrote then [] else keyText first t) := by
    cases wrote with
    | true => exact Puts.pure
    | false => exact puts_tableKey first t
  rw [pagesText, if_neg hrows]
  exact hkey.bind (puts_rows _ rows)

theorem emits_pages (t : Identifier) (fuel after : Nat) (first wrote : Bool)
    (hfuel : (rowsAfter db t after).length < fuel) (hfirst : wrote = true → first = false) :
    Emits stays (streamLookupPages shortest db t fuel after first wrote (!wrote))
      (fun r out => db.lookupPage t after = .ok () ∧
        out = pagesText shortest first wrote t ((rowsAfter db t after).map Prod.snd) ∧
        r = (first && (rowsAfter db t after).isEmpty, wrote || !(rowsAfter db t after).isEmpty))
      (PagesStop shortest stays db t first wrote after) := by
  induction fuel generalizing after first wrote with
  | zero => exact absurd hfuel (Nat.not_lt_zero _)
  | succ fuel ih =>
    have hpage : db.findLookupPageAfter t after pageSize =
        (db.lookupPage t after).map fun _ => (rowsAfter db t after).take pageSize := rfl
    rw [streamLookupPages, hpage]
    cases hanswer : db.lookupPage t after with
    | error fault =>
      exact Emits.stop (Or.inr ⟨fault, [], rfl, ⟨after, hanswer⟩, List.nil_prefix,
        fun _ => hanswer, rfl⟩)
    | ok u =>
      rw [Except.map, CutStream.await_ok_bind]
      cases hlast : ((rowsAfter db t after).take pageSize).getLast? with
      | none =>
        have hnil : rowsAfter db t after = [] := by
          have htake := List.getLast?_eq_none_iff.mp hlast
          exact (List.take_eq_nil_iff.mp htake).resolve_left (by decide)
        refine Emits.pure ⟨rfl, ?_, ?_⟩
        · rw [hnil, List.map_nil, pagesText, if_pos rfl]
        · rw [hnil, List.isEmpty_nil, Bool.and_true, Bool.not_true, Bool.or_false]
      | some last =>
        have hpageRows : ((rowsAfter db t after).take pageSize).map Prod.snd ≠ [] := by
          intro hnil
          rw [List.map_eq_nil_iff] at hnil
          rw [hnil] at hlast
          cases hlast
        have hsplit : (rowsAfter db t after).map Prod.snd =
            ((rowsAfter db t after).take pageSize).map Prod.snd ++
              (rowsAfter db t last.1).map Prod.snd := by
          rw [rowsAfter_last hlast, ← List.map_append, List.take_append_drop]
        have hempty : (rowsAfter db t after).isEmpty = false := by
          cases hrows : rowsAfter db t after with
          | nil =>
            rw [hrows] at hlast
            cases hlast
          | cons r rows => rfl
        have hnext : (wrote && first) = false := by
          cases wrote with
          | true => exact hfirst rfl
          | false => rfl
        rw [hnext, hempty, hsplit, pagesText_append hpageRows]
        show Emits stays (putKeyOnce wrote first t >>= fun _ =>
          putRows shortest (!wrote) (((rowsAfter db t after).take pageSize).map Prod.snd) >>= fun _ => _) _ _
        rw [← bind_assoc]
        apply (puts_page hpageRows).emits
        · split
          · rename_i hshort
            have hrest : rowsAfter db t last.1 = [] := by
              rw [List.length_take] at hshort
              rw [rowsAfter_last hlast, List.drop_eq_nil_iff]
              omega
            refine Emits.pure ⟨rfl, ?_, ?_⟩
            · rw [hrest, List.map_nil]
              rfl
            · rw [Bool.and_false, Bool.not_false, Bool.or_true]
          · have hshorter : (rowsAfter db t last.1).length < fuel := by
              have hpos := List.length_pos_iff.mpr (List.isEmpty_eq_false_iff.mp hempty)
              rw [rowsAfter_last hlast, List.length_drop, pageSize]
              omega
            apply Emits.weaken (ih last.1 false true hshorter fun _ => rfl)
            · rintro r out ⟨-, rfl, rfl⟩
              refine ⟨rfl, rfl, ?_⟩
              rw [Bool.false_and, Bool.true_or, Bool.and_false, Bool.not_false, Bool.or_true]
            · rintro e out (hcut | ⟨fault, read, rfl, hfault, hread, -, rfl⟩)
              · left
                rw [hsplit, pagesText_append hpageRows]
                exact hcut.append
              · refine Or.inr ⟨fault, _ ++ read, rfl, hfault, ?_, fun hnil => ?_,
                  (pagesText_append hpageRows read).symm⟩
                · rw [hsplit]
                  exact (List.prefix_append_right_inj _).mpr hread
                · exact absurd (List.append_eq_nil_iff.mp hnil).1 hpageRows
        · rintro e out ⟨haborted, hleft, hout⟩
          refine Or.inl ⟨haborted, hleft, ?_⟩
          rw [hsplit, pagesText_append hpageRows]
          exact hout.trans (List.prefix_append _ _)

/-! ### One table -/

/-- A lookup table in an incremental snapshot: none where it is empty, or where its first page meets a
schema gap. -/
def pagedRows (db : View) (t : Identifier) : Except Fault (Option (List (Row Stored))) :=
  match db.lookupPage t 0 with
  | .ok _ => .ok (if (db.lookup t).rows = [] then none else some ((db.lookup t).rows.map Prod.snd))
  | .error .schemaGap => .ok none
  | .error .other => .error .other

/-- The rows of a table in an incremental snapshot, none where the table is left out. -/
def incrementalRows (registry : Registry) (db : View) (req : Request) (firstActionIndex : Option Nat)
    (t : Identifier) : Except Fault (Option (List (Row Stored))) :=
  if t ∈ registry.index db.dbType then if req.skipLookups then .ok none else pagedRows db t
  else if db.dbType = .indexer ∧ t ∈ INDEXER_INBAND_PAGED then pagedRows db t
  else
    match db.selectIncrementalRows t req.sinceBlock firstActionIndex with
    | .ok none => .ok none
    | .ok (some []) => .ok none
    | .ok (some rows) => .ok (some rows)
    | .error .schemaGap => .ok none
    | .error .other => .error .other

/-- What a table has put out before its errors are passed over. -/
def TableStops (shortest : ℚ → CodeUnits) (stays : Prop) (db : View) (first : Bool) (t : Identifier)
    (carried : Except Fault (Option (List (Row Stored)))) (e : Stop Fault) (out : CodeUnits) : Prop :=
  ∃ rows, (e = .aborted ∧ ¬ stays ∧ out <+: tableText shortest first (t, rows)) ∨
    ∃ fault, e = .error fault ∧ ¬ db.Answers ∧ out = pagesText shortest first false t rows ∧
      (rows = [] → fault = .schemaGap → carried = .ok none)

/-- What a table has put out at its end. -/
def TableHolds (shortest : ℚ → CodeUnits) (first : Bool) (t : Identifier)
    (carried : Except Fault (Option (List (Row Stored)))) (next : Bool) (out : CodeUnits) : Prop :=
  ∃ rows, carried = .ok rows ∧ out = carriedText shortest first t rows ∧ next = (first && rows.isNone)

theorem pagesText_prefix {first : Bool} {t : Identifier} {rows : List (Row Stored)} :
    pagesText shortest first false t rows <+: tableText shortest first (t, rows) := by
  unfold pagesText
  split
  · exact List.nil_prefix
  · exact List.prefix_append _ _

theorem emits_paged (t : Identifier) (first : Bool) :
    Emits stays (streamLookupPaged shortest db t first)
      (TableHolds shortest first t (pagedRows db t))
      (TableStops shortest stays db first t (pagedRows db t)) := by
  have hpages := @emits_pages shortest db stays t
    ((db.lookup t).rows.length + 1) 0 first false (by rw [rowsAfter_zero]; omega)
    (fun h => by cases h)
  rw [rowsAfter_zero] at hpages
  rw [streamLookupPaged]
  apply Emits.bind hpages
  · rintro r out ⟨hpage, rfl, rfl⟩
    cases hrows : (db.lookup t).rows with
    | nil =>
      apply Puts.emits Puts.pure
      · refine Emits.pure ⟨none, ?_, rfl, rfl⟩
        rw [pagedRows, hpage, hrows]
        rfl
      · rintro e out ⟨rfl, hleft, hout⟩
        refine ⟨[], Or.inl ⟨rfl, hleft, ?_⟩⟩
        rw [List.prefix_nil.mp hout]
        exact List.nil_prefix
    | cons row rows =>
      have htext : pagesText shortest first false t ((row :: rows).map Prod.snd) ++ ascii "]" =
          tableText shortest first (t, (row :: rows).map Prod.snd) := rfl
      apply (Puts.write (ascii "]")).emits
      · refine Emits.pure ⟨some ((row :: rows).map Prod.snd), ?_, ?_, rfl⟩
        · rw [pagedRows, hpage, hrows]
          rfl
        · rw [List.append_nil, htext]
          rfl
      · rintro e out ⟨rfl, hleft, hout⟩
        refine ⟨(row :: rows).map Prod.snd, Or.inl ⟨rfl, hleft, ?_⟩⟩
        rw [← htext]
        exact (List.prefix_append_right_inj _).mpr hout
  · rintro e out (⟨rfl, hleft, hout⟩ | ⟨fault, read, rfl, ⟨cursor, hfault⟩, -, hnil, rfl⟩)
    · rw [rowsAfter_zero] at hout
      exact ⟨(db.lookup t).rows.map Prod.snd, Or.inl ⟨rfl, hleft, hout.trans pagesText_prefix⟩⟩
    · refine ⟨read, Or.inr ⟨fault, rfl, fun hanswers => ?_, rfl, fun hread hgap => ?_⟩⟩
      · rw [hanswers.page t cursor] at hfault
        cases hfault
      · rw [pagedRows, hnil hread, hgap]

theorem tableStops_of_cut {whole out : CodeUnits} {first : Bool} {t : Identifier}
    {rows : List (Row Stored)} {carried : Except Fault (Option (List (Row Stored)))} {e : Stop Fault}
    (h : Cut stays whole e out) (hwhole : whole <+: tableText shortest first (t, rows)) :
    TableStops shortest stays db first t carried e out := by
  obtain ⟨rfl, hleft, hout⟩ := h
  exact ⟨rows, Or.inl ⟨rfl, hleft, hout.trans hwhole⟩⟩

theorem emits_selected {req : Request} {index : Option Nat} {t : Identifier}
    (hlookup : t ∉ registry.index db.dbType) (hinband : ¬ (db.dbType = .indexer ∧ t ∈ INDEXER_INBAND_PAGED))
    (first : Bool) :
    Emits stays (await (db.selectIncrementalRows t req.sinceBlock index) >>= fun rows =>
        match rows with
        | none => pure first
        | some [] => pure first
        | some rows => writeIncrementalTableRows shortest t rows first)
      (TableHolds shortest first t (incrementalRows registry db req index t))
      (TableStops shortest stays db first t (incrementalRows registry db req index t)) := by
  rw [incrementalRows, if_neg hlookup, if_neg hinband]
  cases hselect : db.selectIncrementalRows t req.sinceBlock index with
  | error fault =>
    refine Emits.stop ⟨[], Or.inr ⟨fault, rfl, fun hanswers => ?_, rfl, fun _ hgap => ?_⟩⟩
    · obtain ⟨rows, hrows⟩ := hanswers.selected t req.sinceBlock index
      rw [hselect] at hrows
      cases hrows
    · rw [hgap]
  | ok selected =>
    rw [CutStream.await_ok_bind]
    match selected with
    | none => exact Emits.pure ⟨none, rfl, rfl, (Bool.and_true first).symm⟩
    | some [] => exact Emits.pure ⟨none, rfl, rfl, (Bool.and_true first).symm⟩
    | some (row :: rows) =>
      have hopen : keyText first t ++ rowsText shortest true (row :: rows) <+:
          tableText shortest first (t, row :: rows) := List.prefix_append _ _
      apply (puts_tableKey first t).emits
      · apply (puts_rows true (row :: rows)).emits
        · apply (Puts.write (ascii "]")).emits
          · refine Emits.pure ⟨some (row :: rows), rfl, ?_, (Bool.and_false first).symm⟩
            rw [List.append_nil, ← List.append_assoc]
            rfl
          · intro e out h
            have hwhole : keyText first t ++ (rowsText shortest true (row :: rows) ++ ascii "]") <+:
                tableText shortest first (t, row :: rows) := by
              rw [← List.append_assoc]
              exact List.prefix_refl _
            exact tableStops_of_cut h.append.append hwhole
        · intro e out h
          exact tableStops_of_cut h.append hopen
      · intro e out h
        exact tableStops_of_cut h ((List.prefix_append _ _).trans hopen)

theorem streamsTable_incremental (req : Request) (index : Option Nat) (t : Identifier) :
    StreamsTable stays db.Answers shortest (streamIncrementalTable registry shortest db req index)
      (incrementalRows registry db req index) t := by
  intro first
  have hbody : Emits stays
      (if t ∈ registry.index db.dbType then
        if req.skipLookups then pure first else streamLookupPaged shortest db t first
      else if db.dbType = .indexer ∧ t ∈ INDEXER_INBAND_PAGED then streamLookupPaged shortest db t first
      else await (db.selectIncrementalRows t req.sinceBlock index) >>= fun rows =>
        match rows with
        | none => pure first
        | some [] => pure first
        | some rows => writeIncrementalTableRows shortest t rows first)
      (TableHolds shortest first t (incrementalRows registry db req index t))
      (TableStops shortest stays db first t (incrementalRows registry db req index t)) := by
    by_cases hlookup : t ∈ registry.index db.dbType
    · rw [if_pos hlookup, incrementalRows, if_pos hlookup]
      split
      · exact Emits.pure ⟨none, rfl, rfl, (Bool.and_true first).symm⟩
      · exact emits_paged t first
    · rw [if_neg hlookup]
      by_cases hinband : db.dbType = .indexer ∧ t ∈ INDEXER_INBAND_PAGED
      · rw [if_pos hinband, incrementalRows, if_neg hlookup, if_pos hinband]
        exact emits_paged t first
      · rw [if_neg hinband]
        exact emits_selected hlookup hinband first
  apply Emits.attempt (Emits.weaken hbody (fun _ _ => Or.inl) fun _ _ => id)
  rintro e out ⟨rows, ⟨rfl, hleft, hout⟩ | ⟨fault, rfl, hsound, rfl, hnone⟩⟩
  · refine Emits.stop ⟨excused_aborted hleft, rows, ?_⟩
    rw [List.append_nil]
    exact hout
  · cases fault with
    | schemaGap =>
      apply Emits.pure
      rw [List.append_nil]
      by_cases hrows : rows = []
      · refine Or.inl ⟨none, hnone hrows rfl, ?_, (Bool.and_true first).symm⟩
        rw [hrows]
        rfl
      · refine Or.inr ⟨hsound, rfl, rows, hrows, ?_⟩
        rw [pagesText, if_neg hrows]
        rfl
    | other =>
      refine Emits.stop ⟨excused_error hsound, rows, ?_⟩
      rw [List.append_nil]
      exact pagesText_prefix

/-! ### The whole text -/

/-- The value of the rows that were changed in place. -/
def updatedRows (updated : UpdatedRows) : Value :=
  .obj (updated.tables.map fun t => (t.1, .arr (t.2.map rowValue)))

/-- What comes after the tables. -/
def updatedMembers (db : View) (req : Request) (lastBlock : Height) :
    Except Fault (List (CodeUnits × Value)) :=
  if db.dbType ≠ .indexer then .ok []
  else do
    let delay ← requireIncrementalActivationDelay req
    let updated ← db.collectUpdatedRows req.sinceBlock lastBlock delay
    return [(ascii "updated_rows", updatedRows updated)]

/-- An incremental snapshot. -/
def incrementalSnapshot (db : View) (req : Request) (lastBlock : Height) (tables : List Table)
    (after : List (CodeUnits × Value)) : List (CodeUnits × Value) :=
  document (numField "schema_version" (SCHEMA_VERSION db.dbType))
    [numField "block_height" lastBlock.value, numField "since_block" req.sinceBlock.value] tables after

/-- An incremental snapshot of a view that is read one query after another. -/
def incrementalDocument (registry : Registry) (db : View) (req : Request) (lastBlock : Height) :
    Except Fault (List (CodeUnits × Value)) := do
  let order ← getOrderedTables registry db
  let firstActionIndex ← selectFirstActionIndex db req
  let tables ← readTables (incrementalRows registry db req firstActionIndex) order
  let after ← updatedMembers db req lastBlock
  return incrementalSnapshot db req lastBlock tables after

theorem plainMembers_updated {req : Request} {lastBlock : Height} {after : List (CodeUnits × Value)}
    (h : updatedMembers db req lastBlock = .ok after) :
    PlainMembers after ∧ (after = [] ∨ after.map Prod.fst = [ascii "updated_rows"]) := by
  unfold updatedMembers at h
  split at h
  · cases h
    exact ⟨trivial, Or.inl rfl⟩
  · obtain ⟨delay, -, h⟩ := ok_of_bind h
    obtain ⟨updated, -, h⟩ := ok_of_bind h
    cases h
    refine ⟨⟨?_, trivial⟩, Or.inr rfl⟩
    rw [updatedRows, Plain, List.map_map]
    refine ⟨updated.nodup, ?_⟩
    induction updated.tables with
    | nil => trivial
    | cons t tables ih =>
      refine ⟨?_, ih⟩
      rw [Plain]
      exact plainElements_rows t.2

theorem plain_incrementalSnapshot {req : Request} {lastBlock : Height} {tables : List Table}
    {after : List (CodeUnits × Value)} (htables : (tables.map Prod.fst).Nodup)
    (hafter : PlainMembers after ∧ (after = [] ∨ after.map Prod.fst = [ascii "updated_rows"])) :
    Plain (.obj (incrementalSnapshot db req lastBlock tables after)) := by
  apply plain_document
  · rcases hafter.2 with rfl | hnames
    · exact (by decide : [ascii "schema_version", ascii "block_height", ascii "since_block",
        ascii "tables"].Nodup)
    · rw [hnames]
      exact (by decide : [ascii "schema_version", ascii "block_height", ascii "since_block",
        ascii "tables", ascii "updated_rows"].Nodup)
  · exact plain_num (schemaVersion_safe db.dbType)
  · exact ⟨plain_num lastBlock.safe, plain_num req.sinceBlock.safe, trivial⟩
  · exact hafter.1
  · exact htables

theorem headText_incremental (db : View) (req : Request) (lastBlock : Height) :
    ascii "\x7b\"schema_version\":" ++ natText (SCHEMA_VERSION db.dbType) ++
        ascii ",\"block_height\":" ++ natText lastBlock.value ++
        ascii ",\"since_block\":" ++ natText req.sinceBlock.value ++ ascii ",\"tables\":\x7b" =
      headText shortest (numField "schema_version" (SCHEMA_VERSION db.dbType))
        [numField "block_height" lastBlock.value, numField "since_block" req.sinceBlock.value] := by
  rw [headText, numField, numField, numField, write_num (schemaVersion_safe db.dbType), memberTexts,
    List.flatMap_cons, List.flatMap_singleton, write_num lastBlock.safe, write_num req.sinceBlock.safe]
  simp only [List.append_assoc]
  rfl

theorem emits_updated {req : Request} {lastBlock : Height}
    (hcoin : ¬ (db.dbType = .indexer ∧ (requireIncrementalActivationDelay req).isOk = false)) :
    Emits stays (writeIncrementalUpdatedRows shortest db req lastBlock)
      (fun _ out => ∃ after, updatedMembers db req lastBlock = .ok after ∧
        out = memberTexts shortest after)
      (fun e out => Excused stays db.Answers e ∧ (out = [] ∨
        ∃ after, updatedMembers db req lastBlock = .ok after ∧ out <+: memberTexts shortest after)) := by
  unfold writeIncrementalUpdatedRows updatedMembers
  split
  · exact Emits.pure ⟨[], rfl, rfl⟩
  · rename_i hindexer
    cases hdelay : requireIncrementalActivationDelay req with
    | error fault =>
      rw [hdelay] at hcoin
      exact absurd ⟨Classical.not_not.mp hindexer, rfl⟩ hcoin
    | ok delay =>
      rw [CutStream.await_ok_bind]
      cases hupdated : db.collectUpdatedRows req.sinceBlock lastBlock delay with
      | error fault =>
        refine Emits.stop ⟨excused_error fun hanswers => ?_, Or.inl rfl⟩
        obtain ⟨rows, hrows⟩ := hanswers.updated req.sinceBlock lastBlock delay
        rw [hupdated] at hrows
        cases hrows
      | ok updated =>
        have htext : ascii ",\"updated_rows\":" ++ JsonText.write shortest (updatedRows updated) =
            memberTexts shortest [(ascii "updated_rows", updatedRows updated)] := by
          rw [memberTexts, List.flatMap_singleton]
          rfl
        have hread : (do
              let delay ← (Except.ok delay : Except Fault (Option Nat))
              let updated ← db.collectUpdatedRows req.sinceBlock lastBlock delay
              return [(ascii "updated_rows", updatedRows updated)]) =
            Except.ok [(ascii "updated_rows", updatedRows updated)] := by
          show (db.collectUpdatedRows req.sinceBlock lastBlock delay >>= _) = _
          rw [hupdated]
          rfl
        rw [CutStream.await_ok_bind, tablesJson_eq, CutStream.await_ok_bind]
        apply Emits.write
        · exact ⟨_, hread, htext⟩
        · intro hleft out hout
          exact ⟨excused_aborted hleft, Or.inr ⟨_, hread, htext ▸ hout⟩⟩

/-- After the tables. -/
theorem emits_end {req : Request} {lastBlock : Height}
    (hcoin : ¬ (db.dbType = .indexer ∧ (requireIncrementalActivationDelay req).isOk = false)) :
    Emits stays (put (ascii "\x7d") >>= fun _ => writeIncrementalUpdatedRows shortest db req lastBlock >>=
        fun _ => put (ascii "\x7d") >>= fun _ => await db.commitReadSnapshot)
      (fun _ out => ∃ after, updatedMembers db req lastBlock = .ok after ∧
        out = 0x7D :: (memberTexts shortest after ++ [0x7D]))
      (fun e out => Excused stays db.Answers e ∧ (out <+: [0x7D] ∨
        ∃ after, updatedMembers db req lastBlock = .ok after ∧
          out <+: 0x7D :: (memberTexts shortest after ++ [0x7D]))) := by
  apply (Puts.write _).emits
  · apply Emits.bind (emits_updated hcoin)
    · rintro _ out ⟨after, hread, rfl⟩
      apply (Puts.write _).emits
      · refine Emits.await (fun _ _ => ⟨after, hread, ?_⟩) fun e he =>
          ⟨excused_commit he, Or.inr ⟨after, hread, ?_⟩⟩
        · rw [List.append_nil]
          rfl
        · rw [List.append_nil]
          exact List.prefix_refl _
      · rintro e out ⟨rfl, hleft, hout⟩
        refine ⟨excused_aborted hleft, Or.inr ⟨after, hread, ?_⟩⟩
        exact (List.prefix_append_right_inj [0x7D]).mpr ((List.prefix_append_right_inj _).mpr hout)
    · rintro e out ⟨hexcused, rfl | ⟨after, hread, hout⟩⟩
      · exact ⟨hexcused, Or.inl (List.prefix_refl _)⟩
      · refine ⟨hexcused, Or.inr ⟨after, hread, ?_⟩⟩
        exact (List.prefix_append_right_inj [0x7D]).mpr (hout.trans (List.prefix_append _ _))
  · rintro e out ⟨rfl, hleft, hout⟩
    exact ⟨excused_aborted hleft, Or.inl hout⟩

/-- The tables of an incremental snapshot, read one by one. -/
def incrementalTables (registry : Registry) (db : View) (req : Request) : Except Fault (List Table) := do
  let order ← getOrderedTables registry db
  let firstActionIndex ← selectFirstActionIndex db req
  readTables (incrementalRows registry db req firstActionIndex) order

theorem emits_incrementalTables (req : Request) :
    Emits stays (streamIncrementalTables registry shortest db req)
      (fun _ => TablesHold shortest db (incrementalTables registry db req))
      (TablesStop shortest stays db) := by
  unfold streamIncrementalTables
  cases horder : getOrderedTables registry db with
  | error e => exact Emits.stop (tablesStop_order horder)
  | ok order =>
    rw [CutStream.await_ok_bind]
    cases hindex : selectFirstActionIndex db req with
    | error e =>
      refine Emits.stop ⟨excused_error fun hanswers => ?_, [], [], List.nodup_nil, List.nil_prefix,
        Or.inl ⟨[], List.Sublist.slnil, rfl⟩⟩
      obtain ⟨index, hfirst⟩ := hanswers.firstAction req.sinceBlock
      rw [selectFirstActionIndex] at hindex
      split at hindex
      · rw [hfirst] at hindex
        cases hindex
      · cases hindex
    | ok index =>
      rw [CutStream.await_ok_bind]
      apply Emits.bind (emits_order horder (streamsTable_incremental req index))
      · rintro _ out hout
        refine Emits.pure ?_
        rw [List.append_nil]
        have hread : incrementalTables registry db req =
            snapshotTables registry db (incrementalRows registry db req index) := by
          rw [incrementalTables, snapshotTables, horder, hindex]
          rfl
        rw [hread]
        exact hout
      · exact fun _ _ h => h

theorem emits_incremental {req : Request} {lastBlock : Height}
    (hcoin : ¬ (db.dbType = .indexer ∧ (requireIncrementalActivationDelay req).isOk = false)) :
    Emits stays (streamIncrementalSnapshotBody registry shortest db req lastBlock)
      (fun _ => Holds shortest db (incrementalDocument registry db req lastBlock))
      (Stops shortest stays db (incrementalDocument registry db req lastBlock)) := by
  have hframe : PlainFrame (numField "schema_version" (SCHEMA_VERSION db.dbType))
      [numField "block_height" lastBlock.value, numField "since_block" req.sinceBlock.value] :=
    fun tables htables => plain_incrementalSnapshot htables ⟨trivial, Or.inl rfl⟩
  unfold streamIncrementalSnapshotBody
  rw [@headText_incremental shortest]
  apply (Puts.write _).emits
  · apply Emits.bind (emits_incrementalTables req)
    · rintro _ out (⟨tables, htables, rfl⟩ | ⟨hsound, order, hnodup, htorn⟩)
      · have hdoc : ∀ after, updatedMembers db req lastBlock = .ok after →
            incrementalDocument registry db req lastBlock =
              .ok (incrementalSnapshot db req lastBlock tables after) := by
          intro after hafter
          obtain ⟨order, horder, hrest⟩ := ok_of_bind htables
          obtain ⟨index, hindex, hread⟩ := ok_of_bind hrest
          rw [incrementalDocument, horder, hindex]
          show (readTables _ order >>= _) = _
          rw [hread]
          show (updatedMembers db req lastBlock >>= _) = _
          rw [hafter]
          rfl
        apply Emits.weaken (emits_end hcoin)
        · rintro _ out ⟨after, hafter, rfl⟩
          refine Or.inl ⟨_, hdoc after hafter, ?_⟩
          rw [incrementalSnapshot, write_document]
        · rintro e out ⟨hexcused, hout | ⟨after, hafter, hout⟩⟩
          · obtain ⟨order, horder, hrest⟩ := ok_of_bind htables
            obtain ⟨index, hindex, hread⟩ := ok_of_bind hrest
            refine ⟨hexcused, Or.inr (@unparsable_open shortest _ _ _ _ (hframe tables
              ((nodup_getOrderedTables horder).sublist (readTables_sublist hread))) ?_)⟩
            exact (List.prefix_append_right_inj _).mpr ((List.prefix_append_right_inj _).mpr hout)
          · refine ⟨hexcused, Or.inl ⟨_, hdoc after hafter, ?_⟩⟩
            rw [incrementalSnapshot, write_document]
            exact (List.prefix_append_right_inj _).mpr ((List.prefix_append_right_inj _).mpr hout)
      · apply Emits.weaken (emits_end hcoin)
        · rintro _ out ⟨after, -, rfl⟩
          exact Or.inr ⟨hsound, unparsable_closed hframe hnodup htorn _⟩
        · rintro e out ⟨hexcused, hout | ⟨after, -, hout⟩⟩
          · refine ⟨hexcused, Or.inr ((unparsable_closed hframe hnodup htorn []).part ?_)⟩
            exact (List.prefix_append_right_inj _).mpr ((List.prefix_append_right_inj _).mpr hout)
          · refine ⟨hexcused, Or.inr ((unparsable_closed hframe hnodup htorn
              (memberTexts shortest after ++ [0x7D])).part ?_)⟩
            exact (List.prefix_append_right_inj _).mpr ((List.prefix_append_right_inj _).mpr hout)
    · rintro e out ⟨hexcused, order, full, hnodup, hout, hfull⟩
      exact ⟨hexcused, Or.inr (unparsable_shaped hframe hnodup hfull
        ((List.prefix_append_right_inj _).mpr hout))⟩
  · rintro e out ⟨rfl, hleft, hout⟩
    refine ⟨excused_aborted hleft, Or.inr ?_⟩
    apply unparsable_tables (hframe [] List.nodup_nil)
    rw [tablesText, List.append_nil]
    exact hout

theorem plain_incrementalDocument {req : Request} {lastBlock : Height}
    {members : List (CodeUnits × Value)}
    (h : incrementalDocument registry db req lastBlock = .ok members) : Plain (.obj members) := by
  obtain ⟨order, horder, h⟩ := ok_of_bind h
  obtain ⟨index, -, h⟩ := ok_of_bind h
  obtain ⟨tables, htables, h⟩ := ok_of_bind h
  obtain ⟨after, hafter, h⟩ := ok_of_bind h
  cases h
  exact plain_incrementalSnapshot
    ((nodup_getOrderedTables horder).sublist (readTables_sublist htables)) (plainMembers_updated hafter)

theorem text_noDataAfter (req : Request) : (noDataAfter db req).text = [] := by
  unfold noDataAfter
  split
  · rfl
  · rfl

end Incremental

end XChainSync.Snapshots
