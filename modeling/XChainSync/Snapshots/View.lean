import Mathlib
import XChainSync.Client.Events
import XChainSync.Wire.Codec

/-!
# What a snapshot reads

The read view that a snapshot is streamed from, and the order of its tables
(src/server/snapshot_builder/table_sets.js). A query of the view answers or faults, always in the same
way within one stream.
-/

namespace XChainSync.Snapshots
set_option autoImplicit false
open Client (DbType)
open JsonText (ascii)
open Wire (Row Stored)

/-- An error of a query. A schema gap is a table or a column that the database lacks (errno 1146 or
1054). -/
inductive Fault where
  | schemaGap
  | other
  deriving DecidableEq, Repr

def isSchemaGapError (e : Fault) : Bool := e = .schemaGap

/-! ### Tables -/

/-- A unit of `[A-Za-z0-9_]`. -/
def isWordUnit (c : UInt16) : Bool :=
  (0x41 ≤ c ∧ c ≤ 0x5A) ∨ (0x61 ≤ c ∧ c ≤ 0x7A) ∨ (0x30 ≤ c ∧ c ≤ 0x39) ∨ c = 0x5F

def validateIdentifier (name : CodeUnits) : Bool :=
  name ≠ [] ∧ name.length ≤ 64 ∧ name.all isWordUnit

/-- The name of a table: `assertValidIdentifier` lets it through. -/
structure Identifier where
  units : CodeUnits
  valid : validateIdentifier units = true
  deriving DecidableEq

def table (name : String) (valid : validateIdentifier (ascii name) = true) : Identifier :=
  ⟨ascii name, valid⟩

/-- What the table registry says of the tables. -/
structure Registry where
  /-- The tables that are kept from snapshots: local ones, mirrors of the hub, and those that a
  follower derives. -/
  unshipped : List Identifier
  /-- The append-only lookup tables of a database. -/
  index : DbType → List Identifier

def Registry.operatorLocalTables (registry : Registry) : List Identifier :=
  registry.unshipped ++ [table "mempool_transactions" rfl, table "dispenser_extension_undo" rfl,
    table "sync_halt" rfl, table "sync_state" rfl]

def SOURCE_UNSTREAMED_TABLES : List Identifier := [table "merkle_reorgs" rfl]

def REPLICA_LEDGER_TABLES : List Identifier := [table "schema_migrations" rfl]

def PRIORITY_TABLES : List Identifier :=
  [table "index_actions" rfl, table "index_addresses" rfl, table "index_coins" rfl,
    table "index_fiats" rfl, table "index_memos" rfl, table "index_mime_types" rfl,
    table "index_pubkeys" rfl, table "index_statuses" rfl, table "index_tickers" rfl,
    table "index_transactions" rfl, table "blocks" rfl, table "transactions" rfl,
    table "actions" rfl]

def TRAILING_TABLES : List Identifier :=
  [table "balances" rfl, table "sync_meta" rfl, table "pubkeys" rfl]

/-- The members of `indexerFullDump` that are paged but are no lookup tables. -/
def INDEXER_INBAND_PAGED : List Identifier := [table "events" rfl, table "pubkeys" rfl]

/-- The order of names without a comparator: by code units. -/
def sortNames (names : List Identifier) : List Identifier :=
  names.insertionSort fun s t => s.units ≤ t.units

def orderSnapshotTables (allTables : List Identifier) : List Identifier :=
  PRIORITY_TABLES.filter (· ∈ allTables) ++
    sortNames (allTables.filter fun t => t ∉ PRIORITY_TABLES ∧ t ∉ TRAILING_TABLES) ++
    TRAILING_TABLES.filter (· ∈ allTables)

/-- The base tables of a database. -/
structure TableNames where
  names : List Identifier
  nodup : names.Nodup

/-- Those of the base tables that a source ships. -/
def shipped (registry : Registry) (names : TableNames) : List Identifier :=
  names.names.filter fun t =>
    t ∉ registry.operatorLocalTables ∧ t ∉ SOURCE_UNSTREAMED_TABLES ∧ t ∉ REPLICA_LEDGER_TABLES

/-! ### The view -/

/-- A number of a block. -/
structure Height where
  value : Nat
  safe : (value : Int) ≤ Double.MAX_SAFE_INTEGER

/-- A lookup table in the order of its cursor column. -/
structure Lookup where
  rows : List (Nat × Row Stored)
  positive : ∀ r ∈ rows, 0 < r.1
  ascending : (rows.map Prod.fst).Pairwise (· < ·)

structure HashRow where
  ledger_hash : Option String
  actions_hash : Option String
  contract_hash : Option String
  block_hash : Option String
  deriving DecidableEq, Repr

/-- The tables of the channel for rows that were changed in place. -/
structure UpdatedRows where
  tables : List (CodeUnits × List (Row Stored))
  nodup : (tables.map Prod.fst).Nodup

structure View where
  dbType : DbType
  beginReadSnapshot : Except Fault Unit
  commitReadSnapshot : Except Fault Unit
  getLastBlock : Except Fault (Option Height)
  getBlockHashRow : Height → Except Fault (Option HashRow)
  findStreamableTableNames : Except Fault TableNames
  getTableCount : Identifier → Except Fault Nat
  /-- The rows that a stream yields, and the error that it ends with. -/
  streamTableRows : Identifier → List (Row Stored) × Except Fault Unit
  getFirstActionIndex : Height → Except Fault (Option Nat)
  /-- The rows of a table from a block and its first action on, none where the table is left out. -/
  selectIncrementalRows : Identifier → Height → Option Nat →
    Except Fault (Option (List (Row Stored)))
  lookup : Identifier → Lookup
  /-- The error of the page after a cursor. -/
  lookupPage : Identifier → Nat → Except Fault Unit
  /-- From a block to the last one, with the activation delay of the coin. -/
  collectUpdatedRows : Height → Height → Option Nat → Except Fault UpdatedRows

/-- A page of a lookup table after a cursor. -/
def View.findLookupPageAfter (db : View) (t : Identifier) (after limit : Nat) :
    Except Fault (List (Nat × Row Stored)) :=
  (db.lookupPage t after).map fun _ => ((db.lookup t).rows.filter (after < ·.1)).take limit

def getOrderedTables (registry : Registry) (db : View) : Except Fault (List Identifier) :=
  db.findStreamableTableNames.map fun names => orderSnapshotTables (shipped registry names)

/-! ### Every table once -/

theorem mem_orderSnapshotTables {allTables : List Identifier} {t : Identifier} :
    t ∈ orderSnapshotTables allTables ↔ t ∈ allTables := by
  unfold orderSnapshotTables sortNames
  simp only [List.mem_append, List.mem_filter, List.mem_insertionSort, decide_eq_true_eq]
  tauto

theorem nodup_orderSnapshotTables {allTables : List Identifier} (h : allTables.Nodup) :
    (orderSnapshotTables allTables).Nodup := by
  have hpriority : PRIORITY_TABLES.Nodup := by decide
  have htrailing : TRAILING_TABLES.Nodup := by decide
  have hapart : ∀ t ∈ PRIORITY_TABLES, t ∉ TRAILING_TABLES := by decide
  unfold orderSnapshotTables sortNames
  refine List.Nodup.append (List.Nodup.append (hpriority.filter _) ?_ ?_) (htrailing.filter _) ?_
  · exact (List.perm_insertionSort _ _).nodup_iff.mpr (h.filter _)
  · intro t hfirst hmiddle
    rw [List.mem_insertionSort, List.mem_filter, decide_eq_true_eq] at hmiddle
    exact hmiddle.2.1 (List.mem_of_mem_filter hfirst)
  · intro t hbefore hlast
    have hlast := List.mem_of_mem_filter hlast
    rcases List.mem_append.mp hbefore with hfirst | hmiddle
    · exact hapart t (List.mem_of_mem_filter hfirst) hlast
    · rw [List.mem_insertionSort, List.mem_filter, decide_eq_true_eq] at hmiddle
      exact hmiddle.2.2 hlast

/-- The ordered tables are those that the source ships, each once. -/
theorem orderSnapshotTables_perm (registry : Registry) (names : TableNames) :
    (orderSnapshotTables (shipped registry names)).Perm (shipped registry names) :=
  (List.perm_ext_iff_of_nodup (nodup_orderSnapshotTables (names.nodup.filter _))
    (names.nodup.filter _)).mpr fun _ => mem_orderSnapshotTables

theorem seven_safe : ((7 : Nat) : Int) ≤ Double.MAX_SAFE_INTEGER := by decide

/-- A view at block 7 with one table of one row. -/
def oneRow : View where
  dbType := .indexer
  beginReadSnapshot := .ok ()
  commitReadSnapshot := .ok ()
  getLastBlock := .ok (some ⟨7, seven_safe⟩)
  getBlockHashRow _ := .ok none
  findStreamableTableNames := .ok ⟨[table "index_memos" rfl], List.nodup_singleton _⟩
  getTableCount _ := .ok 1
  streamTableRows _ := ([⟨[(ascii "memo", .null .other)], by decide, by decide⟩], .ok ())
  getFirstActionIndex _ := .ok none
  selectIncrementalRows _ _ _ := .ok none
  lookup _ :=
    { rows := [(1, ⟨[(ascii "memo", .null .other)], by decide, by decide⟩)]
      positive := by simp
      ascending := List.pairwise_singleton _ _ }
  lookupPage _ _ := .ok ()
  collectUpdatedRows _ _ _ := .ok ⟨[], List.nodup_nil⟩

end XChainSync.Snapshots
