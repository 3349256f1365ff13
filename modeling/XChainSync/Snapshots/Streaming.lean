import Mathlib
import XChainSync.Library.CutStream
import XChainSync.Library.JsonPrefixes
import XChainSync.Snapshots.View

/-!
# Snapshots as they are streamed

The full and the incremental snapshot of src/server/snapshot_builder: the JSON text is put together
chunk by chunk while the view is read. The headers of a response are set before its first chunk.
-/

namespace XChainSync.Snapshots
set_option autoImplicit false
open Client (DbType)
open CutStream (Stream Stop Turn Writer await attempt)
open JsonText (ascii natText Value)
open Wire (Row Stored)

abbrev Streamed (β : Type) : Type := Stream UInt16 Fault β

/-- `SnapshotStreamWriter.write`. -/
def put (chunk : CodeUnits) : Streamed Unit := CutStream.write chunk

def SCHEMA_VERSION : DbType → Nat
  | .indexer => 21
  | .decoder => 5

/-- `this.pageSize` of the builder. -/
def pageSize : Nat := 10000

structure Headers where
  blockHeight : Nat
  sinceBlock : Option Nat
  schemaVersion : Nat
  hashes : List (String × String)
  deriving DecidableEq, Repr

inductive Outcome where
  /-- `res.status(status).json({ error })`. -/
  | answered (status : Nat) (error : String)
  /-- The stream was ended. -/
  | finished
  /-- The client left; the stream is dropped without an error. -/
  | left
  /-- The stream is dropped and the error goes to the route. -/
  | failed
  deriving DecidableEq, Repr

structure Response where
  headers : Option Headers
  /-- What the stream was given. A client may receive any part of it from the start. -/
  text : CodeUnits
  outcome : Outcome

section Rows
variable (shortest : ℚ → CodeUnits)

/-- `JSON.stringify(encodeRow(row), bigIntReplacer)`. -/
def rowJson (row : Row Stored) : Except Fault CodeUnits :=
  match Wire.stringify shortest (Wire.encodeRow (row.map Wire.read)) with
  | some text => .ok text
  | none => .error .other

/-- The comma before a row or a table that is not the first. -/
def putComma (first : Bool) : Streamed Unit := if first then pure () else put (ascii ",")

def putRows : Bool → List (Row Stored) → Streamed Unit
  | _, [] => pure ()
  | firstRow, row :: rows => do
    putComma firstRow
    put (← await (rowJson shortest row))
    putRows false rows

def putTableKey (first : Bool) (t : Identifier) : Streamed Unit := do
  putComma first
  put (ascii "\"" ++ t.units ++ ascii "\":[")

end Rows

section Full
variable (registry : Registry) (shortest : ℚ → CodeUnits) (db : View)

def streamFullSnapshotTable (first : Bool) (t : Identifier) : Streamed Bool := do
  let count ← await (db.getTableCount t)
  if count = 0 then pure first
  else
    putTableKey first t
    putRows shortest true (db.streamTableRows t).1
    await (db.streamTableRows t).2
    put (ascii "]")
    pure false

def streamTables (streamTable : Bool → Identifier → Streamed Bool) :
    Bool → List Identifier → Streamed Bool
  | first, [] => pure first
  | first, t :: ts => do
    let first ← streamTable first t
    streamTables streamTable first ts

def streamFullSnapshotTables : Streamed Unit := do
  let tableOrder ← await (getOrderedTables registry db)
  let _ ← streamTables (streamFullSnapshotTable shortest db) true tableOrder

def setFullSnapshotHeaders (lastBlock : Height) (hashRow : Option HashRow) : Headers where
  blockHeight := lastBlock.value
  sinceBlock := none
  schemaVersion := SCHEMA_VERSION db.dbType
  hashes :=
    match hashRow with
    | none => []
    | some row => [("X-Ledger-Hash", row.ledger_hash.getD ""),
        ("X-Actions-Hash", row.actions_hash.getD ""), ("X-Contract-Hash", row.contract_hash.getD "")]

/-- What is written of a full snapshot. -/
def streamFullSnapshotBody (lastBlock : Height) : Streamed Unit := do
  put (ascii "\x7b\"schema_version\":" ++ natText (SCHEMA_VERSION db.dbType) ++
    ascii ",\"block_height\":" ++ natText lastBlock.value ++ ascii ",\"tables\":\x7b")
  streamFullSnapshotTables registry shortest db
  put (ascii "\x7d\x7d")
  await db.commitReadSnapshot

/-- The end of a stream that was started. -/
def respond (headers : Headers) (run : Except (Stop Fault) Unit × Writer UInt16) : Response where
  headers := some headers
  text := run.2.text
  outcome :=
    match run.1 with
    | .ok () => .finished
    | .error .aborted => .left
    | .error (.error _) => .failed

def streamFullSnapshotLocked (client : List Turn) : Response :=
  match db.beginReadSnapshot, db.getLastBlock with
  | .ok (), .ok none =>
    match db.commitReadSnapshot with
    | .ok () => ⟨none, [], .answered 404 "No blocks in database"⟩
    | .error _ => ⟨none, [], .failed⟩
  | .ok (), .ok (some lastBlock) =>
    match db.getBlockHashRow lastBlock with
    | .ok hashRow =>
      respond (setFullSnapshotHeaders db lastBlock hashRow)
        (streamFullSnapshotBody registry shortest db lastBlock (.start client))
    | .error _ => ⟨none, [], .failed⟩
  | _, _ => ⟨none, [], .failed⟩

end Full

section Incremental
variable (registry : Registry) (shortest : ℚ → CodeUnits) (db : View)

structure Request where
  sinceBlock : Height
  skipLookups : Bool
  /-- `activationDelayBlocks(coin)`: none where the coin is not recognized, none within where no coin
  is given. -/
  activationDelay : Option (Option Nat)

/-- The key of a table goes before its first page. -/
def putKeyOnce (wrote first : Bool) (t : Identifier) : Streamed Unit :=
  if wrote then pure () else putTableKey first t

/-- Pages from a cursor on: `first` as it is then, and whether the table was written. -/
def streamLookupPages (t : Identifier) :
    Nat → (after : Nat) → (first wrote firstRow : Bool) → Streamed (Bool × Bool)
  | 0, _, first, wrote, _ => pure (first, wrote)
  | fuel+1, after, first, wrote, firstRow => do
    let page ← await (db.findLookupPageAfter t after pageSize)
    match page.getLast? with
    | none => pure (first, wrote)
    | some last =>
      putKeyOnce wrote first t
      putRows shortest firstRow (page.map Prod.snd)
      if page.length < pageSize then pure (wrote && first, true)
      else streamLookupPages t fuel last.1 (wrote && first) true false

/-- Every page leaves fewer rows for the next. -/
def putBracket (wrote : Bool) : Streamed Unit := if wrote then put (ascii "]") else pure ()

def streamLookupPaged (t : Identifier) (first : Bool) : Streamed Bool := do
  let r ← streamLookupPages shortest db t ((db.lookup t).rows.length + 1) 0 first false true
  putBracket r.2
  pure r.1

def writeIncrementalTableRows (t : Identifier) (rows : List (Row Stored)) (first : Bool) :
    Streamed Bool := do
  putTableKey first t
  putRows shortest true rows
  put (ascii "]")
  pure false

/-- Only a schema gap is passed over. -/
def tolerateIncrementalTableError (first : Bool) (e : Stop Fault) : Streamed Bool :=
  match e with
  | .aborted => throw .aborted
  | .error fault => if isSchemaGapError fault then pure first else CutStream.fail fault

def streamIncrementalTable (req : Request) (firstActionIndex : Option Nat) (first : Bool)
    (t : Identifier) : Streamed Bool :=
  attempt
    (if t ∈ registry.index db.dbType then
      if req.skipLookups then pure first else streamLookupPaged shortest db t first
    else if db.dbType = .indexer ∧ t ∈ INDEXER_INBAND_PAGED then streamLookupPaged shortest db t first
    else do
      match ← await (db.selectIncrementalRows t req.sinceBlock firstActionIndex) with
      | none => pure first
      | some [] => pure first
      | some rows => writeIncrementalTableRows shortest t rows first)
    (tolerateIncrementalTableError first)

/-- The part of the selection context that is read. -/
def selectFirstActionIndex (req : Request) : Except Fault (Option Nat) :=
  if db.dbType = .indexer then db.getFirstActionIndex req.sinceBlock else .ok none

def streamIncrementalTables (req : Request) : Streamed Unit := do
  let tableOrder ← await (getOrderedTables registry db)
  let firstActionIndex ← await (selectFirstActionIndex db req)
  let _ ← streamTables (streamIncrementalTable registry shortest db req firstActionIndex)
    true tableOrder

/-- What `JSON.stringify` has of an encoded row. -/
def rowToJSON (row : Row Wire.Property) : Option Value :=
  (row.columns.mapM fun c => (Wire.bigIntReplacer c.2 (Wire.toJSON c.2)).map fun v => (c.1, v)).map .obj

/-- `JSON.stringify(encodeTables(tables), bigIntReplacer)`. -/
def tablesJson (tables : List (CodeUnits × List (Row Stored))) : Except Fault CodeUnits :=
  let members := tables.mapM fun t =>
    (t.2.mapM fun row => rowToJSON (Wire.encodeRow (row.map Wire.read))).map fun rows =>
      (t.1, Value.arr rows)
  match members with
  | some members => .ok (JsonText.write shortest (.obj members))
  | none => .error .other

def requireIncrementalActivationDelay (req : Request) : Except Fault (Option Nat) :=
  match req.activationDelay with
  | some delay => .ok delay
  | none => .error .other

def writeIncrementalUpdatedRows (req : Request) (lastBlock : Height) : Streamed Unit :=
  if db.dbType ≠ .indexer then pure ()
  else do
    let delay ← await (requireIncrementalActivationDelay req)
    let updated ← await (db.collectUpdatedRows req.sinceBlock lastBlock delay)
    let text ← await (tablesJson shortest updated.tables)
    put (ascii ",\"updated_rows\":" ++ text)

def setIncrementalHeaders (req : Request) (lastBlock : Height) (hashRow : Option HashRow) :
    Headers where
  blockHeight := lastBlock.value
  sinceBlock := some req.sinceBlock.value
  schemaVersion := SCHEMA_VERSION db.dbType
  hashes :=
    match hashRow with
    | none => []
    | some row =>
      match db.dbType with
      | .decoder => [("X-Block-Hash", row.block_hash.getD "")]
      | .indexer => [("X-Ledger-Hash", row.ledger_hash.getD ""),
          ("X-Actions-Hash", row.actions_hash.getD ""),
          ("X-Contract-Hash", row.contract_hash.getD "")]

def streamIncrementalSnapshotBody (req : Request) (lastBlock : Height) : Streamed Unit := do
  put (ascii "\x7b\"schema_version\":" ++ natText (SCHEMA_VERSION db.dbType) ++
    ascii ",\"block_height\":" ++ natText lastBlock.value ++
    ascii ",\"since_block\":" ++ natText req.sinceBlock.value ++ ascii ",\"tables\":\x7b")
  streamIncrementalTables registry shortest db req
  put (ascii "\x7d")
  writeIncrementalUpdatedRows shortest db req lastBlock
  put (ascii "\x7d")
  await db.commitReadSnapshot

/-- The answer where no block is at or after the first one asked for. -/
def noDataAfter (req : Request) : Response :=
  match db.commitReadSnapshot with
  | .ok () => ⟨none, [], .answered 404 s!"No data available after block {req.sinceBlock.value}"⟩
  | .error _ => ⟨none, [], .failed⟩

def streamIncrementalSnapshotLocked (req : Request) (client : List Turn) : Response :=
  if db.dbType = .indexer ∧ (requireIncrementalActivationDelay req).isOk = false then
    ⟨none, [], .failed⟩
  else
    match db.beginReadSnapshot, db.getLastBlock with
    | .ok (), .ok none => noDataAfter db req
    | .ok (), .ok (some lastBlock) =>
      if lastBlock.value < req.sinceBlock.value then noDataAfter db req
      else
        match db.getBlockHashRow lastBlock with
        | .ok hashRow =>
          respond (setIncrementalHeaders db req lastBlock hashRow)
            (streamIncrementalSnapshotBody registry shortest db req lastBlock (.start client))
        | .error _ => ⟨none, [], .failed⟩
    | _, _ => ⟨none, [], .failed⟩

end Incremental

end XChainSync.Snapshots
