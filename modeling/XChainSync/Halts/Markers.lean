import Mathlib
import XChainSync.Client.RollbackGuard
import XChainSync.Library.JsonText

/-!
# Durable markers

`sync_state` (src/db/sync_meta.js) over `doQuery` (src/db/index.js), and two of its users: the streak
of the rollback guard and the copy of a pending halt. A call that throws has no result.
-/

namespace XChainSync.Markers
set_option autoImplicit false

open Client (Streak RollbackGuard)
open JsonText (ascii parse write)

universe u
variable {Key : Type u} [DecidableEq Key]

/-- What the server does with a statement: a lost one took effect and its answer never came. -/
inductive Reply where
  | done
  | refused
  | lost
  deriving DecidableEq, Repr

/-- Outside a transaction the pool gives a connection and takes it back. -/
structure Answer where
  connected : Bool
  reply : Reply
  released : Bool
  deriving DecidableEq, Repr

def Answer.arrives (a : Answer) (tx : Bool) : Bool := tx || (a.connected && a.released)

def Answer.good : Answer := ⟨true, .done, true⟩

/-- Two keys are one where the collation of `state_key` says so. -/
structure Database (Key : Type u) where
  sync_state : Option (Key → Option (Option CodeUnits))
  syncStateReady : Bool

/-- The `state_value` of the key's row. -/
def Database.stored (db : Database Key) (key : Key) : Option (Option CodeUnits) :=
  db.sync_state.bind fun rows => rows key

inductive Query (Key : Type u) where
  | createTable
  | select (key : Key)
  | upsert (key : Key) (value : Option CodeUnits)
  | delete (key : Key)

/-- The rows and the database after it, none where there is no table. -/
def Query.run (q : Query Key) (db : Database Key) : Option (List (Option CodeUnits) × Database Key) :=
  match q with
  | createTable => some ([], { db with sync_state := some (db.sync_state.getD fun _ => none) })
  | select key => db.sync_state.map fun rows => ((rows key).toList, db)
  | upsert key value => db.sync_state.map fun rows =>
      ([], { db with sync_state := some (Function.update rows key (some value)) })
  | delete key => db.sync_state.map fun rows =>
      ([], { db with sync_state := some (Function.update rows key none) })

/-- The server's part. -/
def Query.execute (q : Query Key) (reply : Reply) (db : Database Key) :
    Option (List (Option CodeUnits)) × Database Key :=
  match reply, q.run db with
  | .done, some (rows, db') => (some rows, db')
  | .lost, some (_, db') => (none, db')
  | _, _ => (none, db)

/-- `tx`: the transaction slot holds a connection. -/
def doQuery (tx rethrow : Bool) (a : Answer) (q : Query Key) (db : Database Key) :
    Option (List (Option CodeUnits)) × Database Key :=
  if !tx && !a.connected then (none, db)
  else
    match q.execute a.reply db with
    | (results, db) =>
      let caught := if tx || rethrow then none else some []
      (if !tx && !a.released then none else results <|> caught, db)

def ensureSyncStateTable (tx rethrow : Bool) (a : Answer) (db : Database Key) :
    Option Unit × Database Key :=
  if db.syncStateReady then (some (), db)
  else
    match doQuery tx rethrow a .createTable db with
    | (none, db) => (none, db)
    | (some _, db) => (some (), { db with syncStateReady := true })

/-- The answers to the two statements of a call. -/
structure Answers where
  create : Answer
  statement : Answer
  deriving DecidableEq, Repr

/-- The `try` block that the three calls share. -/
def attempt (tx rethrow : Bool) (a : Answers) (q : Query Key) (db : Database Key) :
    Option (List (Option CodeUnits)) × Database Key :=
  match ensureSyncStateTable tx rethrow a.create db with
  | (none, db) => (none, db)
  | (some _, db) => doQuery tx rethrow a.statement q db

def getSyncState (tx strict : Bool) (a : Answers) (key : Key) (db : Database Key) :
    Option (Option CodeUnits) × Database Key :=
  match attempt tx strict a (.select key) db with
  | (some rows, db) => (some rows.head?.join, db)
  | (none, db) => (if strict then none else some none, db)

def setSyncState (tx strict : Bool) (a : Answers) (key : Key) (value : Option CodeUnits)
    (db : Database Key) : Option Bool × Database Key :=
  match attempt tx strict a (.upsert key value) db with
  | (some _, db) => (some true, db)
  | (none, db) => (if strict then none else some false, db)

def deleteSyncState (tx : Bool) (a : Answers) (key : Key) (db : Database Key) :
    Bool × Database Key :=
  match attempt tx false a (.delete key) db with
  | (some _, db) => (true, db)
  | (none, db) => (false, db)

/-! ### The streak -/

inductive GuardState where
  | ok
  | unreadable
  | invalid
  deriving DecidableEq, Repr

def safeInteger : JsonText.Value → Option Int
  | .num (some q) => if Double.isSafeInteger (some q) then some q.num else none
  | _ => none

def property (name : String) : JsonText.Value → Option JsonText.Value
  | .obj members => members.lookup (ascii name)
  | _ => none

/-- The coherent streak that a saved row holds. -/
def readStreak (raw : CodeUnits) : Option Streak := do
  let state ← parse raw
  let peak ← (property "peak" state).bind safeInteger
  let low ← (property "low" state).bind safeInteger
  if peak < 0 ∨ low < 0 ∨ low > peak then none else some ⟨peak, low⟩

def loadRollbackGuardState (tx : Bool) (a : Answers) (key : Key) (rollbackGuard : RollbackGuard)
    (db : Database Key) : GuardState × RollbackGuard :=
  match (getSyncState tx false a key db).1 with
  | none => (.unreadable, rollbackGuard)
  | some none => (.ok, rollbackGuard)
  | some (some raw) =>
    match readStreak raw with
    | none => (.invalid, rollbackGuard)
    | some streak => (.ok, some streak)

def streakText (shortest : ℚ → CodeUnits) (streak : Streak) : CodeUnits :=
  write shortest (.obj [(ascii "peak", .num (some streak.peak)), (ascii "low", .num (some streak.low))])

/-- `persistRollbackGuardState` with a streak in the guard: none where it throws. -/
def persistRollbackGuardState (shortest : ℚ → CodeUnits) (tx : Bool) (a : Answers) (key : Key)
    (streak : Streak) (db : Database Key) : Option Unit × Database Key :=
  match setSyncState tx true a key (some (streakText shortest streak)) db with
  | (none, db) => (none, db)
  | (some saved, db) => (if saved then some () else none, db)

/-- The copy is gone or blank, as far as `dropPendingHaltCopy` can tell. -/
def dropPendingHaltCopy (tx : Bool) (a a' : Answers) (key : Key) (db : Database Key) :
    Bool × Database Key :=
  match deleteSyncState tx a key db with
  | (true, db) => (true, db)
  | (false, db) =>
    match setSyncState tx false a' key (some []) db with
    | (saved, db) => (saved ≠ some false, db)

/-! ### One statement -/

section Statement
variable {tx rethrow : Bool} {a : Answer} {q : Query Key} {db : Database Key}
  {rows : List (Option CodeUnits)}

theorem Query.execute_eq_some_iff {reply : Reply} :
    (q.execute reply db).1 = some rows ↔ reply = .done ∧ (q.run db).map Prod.fst = some rows := by
  cases reply <;> cases hrun : q.run db <;> simp [Query.execute, hrun]

/-- A statement has no effect, or that of its run. -/
theorem Query.execute_snd (q : Query Key) (reply : Reply) (db : Database Key) :
    (q.execute reply db).2 = db ∨ ∃ r, q.run db = some r ∧ (q.execute reply db).2 = r.2 := by
  cases reply <;> cases hrun : q.run db <;> simp [Query.execute, hrun]

theorem doQuery_of_arrives (h : a.arrives tx) :
    doQuery tx rethrow a q db =
      ((q.execute a.reply db).1 <|> if tx || rethrow then none else some [], (q.execute a.reply db).2) := by
  have hreach : (!tx && !a.connected) = false ∧ (!tx && !a.released) = false := by
    revert h
    cases tx <;> simp +contextual [Answer.arrives]
  simp [doQuery, hreach]

theorem doQuery_of_not_arrives (h : a.arrives tx = false) : (doQuery tx rethrow a q db).1 = none := by
  revert h
  cases tx <;> cases hc : a.connected <;> simp +contextual [Answer.arrives, doQuery, hc]

theorem doQuery_eq_some_iff :
    (doQuery tx rethrow a q db).1 = some rows ↔ a.arrives tx ∧
      ((q.execute a.reply db).1 = some rows ∨
        (tx = false ∧ rethrow = false ∧ (q.execute a.reply db).1 = none ∧ rows = [])) := by
  by_cases harrives : a.arrives tx
  · rw [doQuery_of_arrives harrives]
    cases (q.execute a.reply db).1 <;> cases tx <;> cases rethrow <;> simp [harrives, eq_comm]
  · have hnone : (doQuery tx rethrow a q db).1 = none := doQuery_of_not_arrives (by simpa using harrives)
    simp [hnone, harrives]

theorem doQuery_snd (tx rethrow : Bool) (a : Answer) (q : Query Key) (db : Database Key) :
    (doQuery tx rethrow a q db).2 = db ∨ (doQuery tx rethrow a q db).2 = (q.execute a.reply db).2 := by
  unfold doQuery
  split
  · exact Or.inl rfl
  · exact Or.inr rfl

end Statement

/-! ### The table -/

section Table
variable {tx rethrow : Bool} {a : Answer} {db : Database Key}

theorem stored_of_run_createTable {r : List (Option CodeUnits) × Database Key}
    (h : Query.createTable.run db = some r) (key : Key) : r.2.stored key = db.stored key := by
  obtain rfl := Option.some.inj h
  cases hrows : db.sync_state <;> simp [Database.stored, hrows]

theorem stored_ensure (key : Key) :
    (ensureSyncStateTable tx rethrow a db).2.stored key = db.stored key := by
  have hcreate : (doQuery tx rethrow a .createTable db).2.stored key = db.stored key := by
    rcases doQuery_snd tx rethrow a .createTable db with h | h
    · rw [h]
    · rw [h]
      rcases Query.execute_snd .createTable a.reply db with h | ⟨r, hr, h⟩
      · rw [h]
      · rw [h, stored_of_run_createTable hr]
  unfold ensureSyncStateTable
  split
  · rfl
  · split
    all_goals
      rename_i heq
      rw [heq] at hcreate
      exact hcreate

theorem ensure_eq_some_iff :
    (ensureSyncStateTable tx rethrow a db).1 = some () ↔
      db.syncStateReady ∨ (a.arrives tx ∧ (a.reply = .done ∨ (tx = false ∧ rethrow = false))) := by
  have hdone : (doQuery tx rethrow a .createTable db).1.isSome ↔
      a.arrives tx ∧ (a.reply = .done ∨ (tx = false ∧ rethrow = false)) := by
    rw [Option.isSome_iff_exists]
    simp only [doQuery_eq_some_iff]
    cases a.reply <;> simp [Query.execute, Query.run]
  rw [← hdone]
  unfold ensureSyncStateTable
  cases db.syncStateReady
  case true => simp
  case false =>
    rcases doQuery tx rethrow a .createTable db with ⟨_ | rows, db'⟩
    · simp
    · simp

/-- The table is missing after a call that went through only where its statement was not run. -/
theorem table_ensure (h : (ensureSyncStateTable tx rethrow a db).1 = some ()) :
    (ensureSyncStateTable tx rethrow a db).2.sync_state = none ↔
      db.sync_state = none ∧ (db.syncStateReady ∨ a.reply = .refused) := by
  cases hready : db.syncStateReady
  case true => simp [ensureSyncStateTable, hready]
  case false =>
    have harrives := (ensure_eq_some_iff.mp h).resolve_left (by simp [hready])
    have hdo : doQuery tx rethrow a .createTable db = _ := doQuery_of_arrives harrives.1
    unfold ensureSyncStateTable
    rw [hdo]
    cases hreply : a.reply <;> cases tx <;> cases rethrow <;> simp_all [Query.execute, Query.run]

end Table

/-! ### One call -/

/-- The statement of the call is refused and the refusal swallowed. -/
def Dropped (tx rethrow : Bool) (a : Answers) (db : Database Key) : Prop :=
  tx = false ∧ rethrow = false ∧ (db.syncStateReady ∨ a.create.arrives tx) ∧ a.statement.arrives tx ∧
    (a.statement.reply = .refused ∨
      (db.sync_state = none ∧ (db.syncStateReady ∨ a.create.reply = .refused)))

/-- Nothing fails in a call that reads an existing table, or nothing that is not swallowed before the
statement. -/
def ReadsBack (tx rethrow : Bool) (a : Answers) (db : Database Key) : Prop :=
  (db.syncStateReady ∨
    (a.create.arrives tx ∧ (a.create.reply = .done ∨ (tx = false ∧ rethrow = false)))) ∧
  a.statement.arrives tx ∧ a.statement.reply = .done

section Call
variable {tx rethrow strict : Bool} {a : Answers} {q : Query Key} {db : Database Key} {key : Key}
  {value : Option CodeUnits} {rows : List (Option CodeUnits)}

theorem attempt_eq_some_iff :
    (attempt tx rethrow a q db).1 = some rows ↔
      (ensureSyncStateTable tx rethrow a.create db).1 = some () ∧
        (doQuery tx rethrow a.statement q (ensureSyncStateTable tx rethrow a.create db).2).1 =
          some rows := by
  unfold attempt
  rcases ensureSyncStateTable tx rethrow a.create db with ⟨_ | _, db'⟩
  · simp
  · simp

theorem attempt_of_ensure (h : (ensureSyncStateTable tx rethrow a.create db).1 = some ()) :
    attempt tx rethrow a q db =
      doQuery tx rethrow a.statement q (ensureSyncStateTable tx rethrow a.create db).2 := by
  unfold attempt
  rcases hensure : ensureSyncStateTable tx rethrow a.create db with ⟨_ | _, db'⟩
  · simp [hensure] at h
  · rfl

/-- `q` is one of the statements on the table. -/
def Query.OnTable (q : Query Key) : Prop := ∀ db : Database Key, q.run db = none ↔ db.sync_state = none

/-- A call that comes back without an exception ran its statement, or dropped it and changed nothing. -/
theorem attempt_cases (hq : q.OnTable) (h : (attempt tx rethrow a q db).1 = some rows) :
    (∃ db' r, (∀ key, db'.stored key = db.stored key) ∧ q.run db' = some r ∧
      (attempt tx rethrow a q db).2 = r.2) ∨
    (Dropped tx rethrow a db ∧ ∀ key, (attempt tx rethrow a q db).2.stored key = db.stored key) := by
  obtain ⟨hensure, hdo⟩ := attempt_eq_some_iff.mp h
  rw [attempt_of_ensure hensure]
  set db' := (ensureSyncStateTable tx rethrow a.create db).2 with hdb'
  have hstored : ∀ key, db'.stored key = db.stored key := fun key => stored_ensure key
  obtain ⟨harrives, hresult⟩ := doQuery_eq_some_iff.mp hdo
  rw [doQuery_of_arrives harrives]
  cases hrun : q.run db' with
  | some r =>
    cases hreply : a.statement.reply
    case done => exact Or.inl ⟨db', r, hstored, hrun, by simp [Query.execute, hrun]⟩
    case lost => exact Or.inl ⟨db', r, hstored, hrun, by simp [Query.execute, hrun]⟩
    case refused =>
      rw [hreply] at hresult
      obtain ⟨htx, hrethrow, -⟩ := hresult.resolve_left (by simp [Query.execute])
      refine Or.inr ⟨⟨htx, hrethrow, ?_, harrives, Or.inl hreply⟩, fun key => ?_⟩
      · exact (ensure_eq_some_iff.mp hensure).imp_right And.left
      · simpa [Query.execute] using hstored key
  | none =>
    have hexecute : q.execute a.statement.reply db' = (none, db') := by
      cases a.statement.reply <;> simp [Query.execute, hrun]
    rw [hexecute] at hresult ⊢
    obtain ⟨htx, hrethrow, -⟩ := hresult.resolve_left (by simp)
    refine Or.inr ⟨⟨htx, hrethrow, ?_, harrives, Or.inr ?_⟩, hstored⟩
    · exact (ensure_eq_some_iff.mp hensure).imp_right And.left
    · exact (table_ensure hensure).mp ((hq db').mp hrun)

theorem attempt_of_dropped (hq : q.OnTable) (h : Dropped tx rethrow a db) :
    (attempt tx rethrow a q db).1 = some [] ∧
      ∀ key, (attempt tx rethrow a q db).2.stored key = db.stored key := by
  obtain ⟨rfl, rfl, hcreate, harrives, hrefused⟩ := h
  have hensure : (ensureSyncStateTable false false a.create db).1 = some () :=
    ensure_eq_some_iff.mpr (hcreate.imp_right fun h => ⟨h, Or.inr ⟨rfl, rfl⟩⟩)
  rw [attempt_of_ensure hensure, doQuery_of_arrives harrives]
  set db' := (ensureSyncStateTable false false a.create db).2
  have hexecute : q.execute a.statement.reply db' = (none, db') := by
    rcases hrefused with hreply | hnone
    · simp [Query.execute, hreply]
    · have hrun := (hq db').mpr ((table_ensure hensure).mpr hnone)
      cases a.statement.reply <;> simp [Query.execute, hrun]
  rw [hexecute]
  exact ⟨rfl, fun key => stored_ensure key⟩

/-- What a statement leaves under the key holds after every call that comes back, but a dropped one. -/
theorem attempt_promise_iff {target : Option (Option CodeUnits)} (hq : q.OnTable)
    (hrun : ∀ db r, q.run db = some r → r.2.stored key = target) :
    ((∃ rows, (attempt tx rethrow a q db).1 = some rows) →
        (attempt tx rethrow a q db).2.stored key = target) ↔
      (Dropped tx rethrow a db → db.stored key = target) := by
  constructor
  · intro h hdropped
    obtain ⟨hresult, hstored⟩ := attempt_of_dropped hq hdropped
    rw [← hstored key]
    exact h ⟨[], hresult⟩
  · rintro h ⟨rows, hresult⟩
    rcases attempt_cases hq hresult with ⟨db', r, -, hr, heq⟩ | ⟨hdropped, hstored⟩
    · rw [heq, hrun db' r hr]
    · rw [hstored, h hdropped]

theorem attempt_select (h : ReadsBack tx rethrow a db) (hrow : db.stored key = some value) :
    (attempt tx rethrow a (.select key) db).1 = some [value] := by
  obtain ⟨hcreate, harrives, hdone⟩ := h
  have hensure := ensure_eq_some_iff.mpr hcreate
  rw [attempt_of_ensure hensure, doQuery_of_arrives harrives, hdone]
  set db' := (ensureSyncStateTable tx rethrow a.create db).2
  have hstored : db'.stored key = some value := (stored_ensure key).trans hrow
  obtain ⟨rows, htable, hrow⟩ := Option.bind_eq_some_iff.mp hstored
  simp [Query.execute, Query.run, htable, hrow]

theorem readsBack_of_attempt (h : (attempt tx rethrow a (.select key) db).1 = some rows) :
    (ReadsBack tx rethrow a db ∧ rows = (db.stored key).toList) ∨
      (tx = false ∧ rethrow = false ∧ rows = []) := by
  obtain ⟨hensure, hdo⟩ := attempt_eq_some_iff.mp h
  obtain ⟨harrives, hresult⟩ := doQuery_eq_some_iff.mp hdo
  refine hresult.imp (fun hdone => ?_) fun ⟨htx, hrethrow, _, hrows⟩ => ⟨htx, hrethrow, hrows⟩
  obtain ⟨hdone, hrun⟩ := Query.execute_eq_some_iff.mp hdone
  refine ⟨⟨ensure_eq_some_iff.mp hensure, harrives, hdone⟩, ?_⟩
  set db' := (ensureSyncStateTable tx rethrow a.create db).2
  have hstored : db'.stored key = db.stored key := stored_ensure key
  rw [← hstored]
  simp only [Query.run, Option.map_map, Option.map_eq_some_iff, Function.comp_apply] at hrun
  obtain ⟨table, htable, rfl⟩ := hrun
  rw [Database.stored, htable, Option.bind_some]

end Call

/-! ### What the calls promise -/

section Promises
variable {tx strict : Bool} {a : Answers} {db : Database Key} {key : Key} {value : Option CodeUnits}

/-- `true` means that the value is stored. -/
def SetHonest (tx strict : Bool) (a : Answers) (key : Key) (value : Option CodeUnits) (db : Database Key) :
    Prop :=
  (setSyncState tx strict a key value db).1 = some true →
    (setSyncState tx strict a key value db).2.stored key = some value

/-- `true` means that the key is absent. -/
def DeleteHonest (tx : Bool) (a : Answers) (key : Key) (db : Database Key) : Prop :=
  (deleteSyncState tx a key db).1 = true → (deleteSyncState tx a key db).2.stored key = none

/-- With rethrow, null means that no row is stored. -/
def GetHonest (tx : Bool) (a : Answers) (key : Key) (db : Database Key) : Prop :=
  (getSyncState tx true a key db).1 = some none → db.stored key = none

def StreakStored (key : Key) (db : Database Key) : Prop :=
  ∃ raw streak, db.stored key = some (some raw) ∧ readStreak raw = some streak

/-- At startup, an empty streak means that none is stored. -/
def LoadHonest (tx : Bool) (a : Answers) (key : Key) (db : Database Key) : Prop :=
  loadRollbackGuardState tx a key none db = (.ok, none) → ¬ StreakStored key db

theorem setSyncState_eq_some_true :
    (setSyncState tx strict a key value db).1 = some true ↔
      ∃ rows, (attempt tx strict a (.upsert key value) db).1 = some rows := by
  unfold setSyncState
  rcases attempt tx strict a (.upsert key value) db with ⟨_ | rows, db'⟩
  · cases strict <;> simp
  · simp

theorem setSyncState_snd :
    (setSyncState tx strict a key value db).2 = (attempt tx strict a (.upsert key value) db).2 := by
  unfold setSyncState
  rcases attempt tx strict a (.upsert key value) db with ⟨_ | rows, db'⟩ <;> rfl

theorem setHonest_iff :
    SetHonest tx strict a key value db ↔
      (Dropped tx strict a db → db.stored key = some value) := by
  rw [SetHonest, setSyncState_eq_some_true, setSyncState_snd]
  refine attempt_promise_iff (fun db => by simp [Query.run]) fun db r hr => ?_
  simp only [Query.run, Option.map_eq_some_iff] at hr
  obtain ⟨table, -, rfl⟩ := hr
  simp [Database.stored]

theorem deleteSyncState_eq_true :
    (deleteSyncState tx a key db).1 = true ↔
      ∃ rows, (attempt tx false a (.delete key) db).1 = some rows := by
  unfold deleteSyncState
  rcases attempt tx false a (.delete key) db with ⟨_ | rows, db'⟩ <;> simp

theorem deleteSyncState_snd :
    (deleteSyncState tx a key db).2 = (attempt tx false a (.delete key) db).2 := by
  unfold deleteSyncState
  rcases attempt tx false a (.delete key) db with ⟨_ | rows, db'⟩ <;> rfl

theorem deleteHonest_iff :
    DeleteHonest tx a key db ↔ (Dropped tx false a db → db.stored key = none) := by
  rw [DeleteHonest, deleteSyncState_eq_true, deleteSyncState_snd]
  refine attempt_promise_iff (fun db => by simp [Query.run]) fun db r hr => ?_
  simp only [Query.run, Option.map_eq_some_iff] at hr
  obtain ⟨table, -, rfl⟩ := hr
  simp [Database.stored]

theorem getSyncState_of_readsBack (h : ReadsBack tx strict a db) (hrow : db.stored key = some value) :
    (getSyncState tx strict a key db).1 = some value := by
  have hselect : (attempt tx strict a (.select key) db).1 = some [value] := attempt_select h hrow
  unfold getSyncState
  rcases hattempt : attempt tx strict a (.select key) db with ⟨result, db'⟩
  rw [hattempt] at hselect
  obtain rfl : result = some [value] := hselect
  rfl

/-- A read that fails has no row. -/
theorem getSyncState_of_not_readsBack (h : ¬ ReadsBack tx strict a db) :
    (getSyncState tx strict a key db).1 = if strict then none else some none := by
  unfold getSyncState
  rcases hattempt : attempt tx strict a (.select key) db with ⟨_ | rows, db'⟩
  · rfl
  · obtain ⟨-, rfl, rfl⟩ := (readsBack_of_attempt (by rw [hattempt])).resolve_left fun hr => h hr.1
    rfl

theorem getHonest_iff :
    GetHonest tx a key db ↔ (db.stored key = some none → ¬ ReadsBack tx true a db) := by
  constructor
  · intro h hrow hreads
    have hnone := h (getSyncState_of_readsBack hreads hrow)
    simp [hrow] at hnone
  · intro h hnull
    by_cases hreads : ReadsBack tx true a db
    · rcases hrow : db.stored key with _ | value
      · rfl
      · rw [getSyncState_of_readsBack hreads hrow, Option.some_inj] at hnull
        exact absurd hreads (h (by rw [hrow, hnull]))
    · rw [getSyncState_of_not_readsBack hreads] at hnull
      cases hnull

theorem loadRollbackGuardState_of_readsBack {raw : CodeUnits} {streak : Streak} {g : RollbackGuard}
    (h : ReadsBack tx false a db) (hrow : db.stored key = some (some raw))
    (hstreak : readStreak raw = some streak) :
    loadRollbackGuardState tx a key g db = (.ok, some streak) := by
  rw [loadRollbackGuardState, getSyncState_of_readsBack h hrow]
  simp [hstreak]

theorem loadHonest_iff :
    LoadHonest tx a key db ↔ (StreakStored key db → ReadsBack tx false a db) := by
  constructor
  · intro h hstored
    by_contra hreads
    refine h ?_ hstored
    rw [loadRollbackGuardState, getSyncState_of_not_readsBack hreads]
    rfl
  · rintro h hload ⟨raw, streak, hrow, hstreak⟩
    rw [loadRollbackGuardState_of_readsBack (h ⟨raw, streak, hrow, hstreak⟩) hrow hstreak] at hload
    simp at hload

/-- A swallowed refusal counts as the copy gone, and the overwriting is not tried. -/
theorem dropPendingHaltCopy_of_dropped {a' : Answers} (h : Dropped tx false a db) :
    (dropPendingHaltCopy tx a a' key db).1 = true ∧
      (dropPendingHaltCopy tx a a' key db).2.stored key = db.stored key := by
  obtain ⟨hresult, hstored⟩ := attempt_of_dropped (q := .delete key) (fun db => by simp [Query.run]) h
  have htrue := deleteSyncState_eq_true.mpr ⟨[], hresult⟩
  have hsame : (deleteSyncState tx a key db).2.stored key = db.stored key := by
    rw [deleteSyncState_snd, hstored]
  unfold dropPendingHaltCopy
  rcases hdelete : deleteSyncState tx a key db with ⟨deleted, db'⟩
  rw [hdelete] at htrue hsame
  obtain rfl : deleted = true := htrue
  exact ⟨rfl, hsame⟩

end Promises

theorem markers_honest_iff (tx strict : Bool) (a : Answers) (key : Key) (value : Option CodeUnits)
    (db : Database Key) :
    (SetHonest tx strict a key value db ↔ (Dropped tx strict a db → db.stored key = some value)) ∧
    (DeleteHonest tx a key db ↔ (Dropped tx false a db → db.stored key = none)) ∧
    (GetHonest tx a key db ↔ (db.stored key = some none → ¬ ReadsBack tx true a db)) ∧
    (LoadHonest tx a key db ↔ (StreakStored key db → ReadsBack tx false a db)) :=
  ⟨setHonest_iff, deleteHonest_iff, getHonest_iff, loadHonest_iff⟩

/-! ### A streak survives a restart -/

section Restart
variable {tx : Bool} {a : Answers} {db : Database Key} {key : Key} {streak : Streak}
  {shortest : ℚ → CodeUnits}

theorem safeInteger_intCast {n : Int} (h : |n| ≤ Double.MAX_SAFE_INTEGER) :
    safeInteger (.num (some n)) = some n := by
  simp [safeInteger, Double.isSafeInteger, h]

theorem readStreak_streakText (hvalid : streak.Valid) (hsafe : streak.peak ≤ Double.MAX_SAFE_INTEGER) :
    readStreak (streakText shortest streak) = some streak := by
  obtain ⟨hpeak, hlow, hle⟩ := hvalid
  have hpeakSafe : |streak.peak| ≤ Double.MAX_SAFE_INTEGER := by rwa [abs_of_nonneg hpeak]
  have hlowSafe : |streak.low| ≤ Double.MAX_SAFE_INTEGER := by
    rw [abs_of_nonneg hlow]
    exact hle.trans hsafe
  have hnames : ascii "peak" ≠ ascii "low" := by decide
  have hplain : JsonText.Plain (.obj [(ascii "peak", .num (some (streak.peak : ℚ))),
      (ascii "low", .num (some (streak.low : ℚ)))]) := by
    simp [JsonText.Plain, JsonText.PlainMembers, hnames, hpeakSafe, hlowSafe]
  have hne : (ascii "low" == ascii "peak") = false := by decide
  rw [readStreak, streakText, JsonText.parse_write hplain]
  simp [property, List.lookup, hne, safeInteger_intCast hpeakSafe, safeInteger_intCast hlowSafe,
    Int.not_lt.mpr hpeak, Int.not_lt.mpr hlow, Int.not_lt.mpr hle]

/-- A persisted streak is stored, whatever fails: the write is strict. -/
theorem stored_of_persisted
    (h : (persistRollbackGuardState shortest tx a key streak db).1 = some ()) :
    (persistRollbackGuardState shortest tx a key streak db).2.stored key =
      some (some (streakText shortest streak)) := by
  have hhonest : SetHonest tx true a key (some (streakText shortest streak)) db :=
    setHonest_iff.mpr fun hdropped => absurd hdropped.2.1 (by decide)
  unfold persistRollbackGuardState at h ⊢
  rcases hset : setSyncState tx true a key (some (streakText shortest streak)) db with ⟨_ | _ | _, db'⟩
  · simp [hset] at h
  · simp [hset] at h
  · have hstored := hhonest (by rw [hset])
    rwa [hset] at hstored

theorem load_of_persisted {tx' : Bool} {a' : Answers} (hvalid : streak.Valid)
    (hsafe : streak.peak ≤ Double.MAX_SAFE_INTEGER)
    (h : (persistRollbackGuardState shortest tx a key streak db).1 = some ())
    (hreads : ReadsBack tx' false a' (persistRollbackGuardState shortest tx a key streak db).2) :
    loadRollbackGuardState tx' a' key none (persistRollbackGuardState shortest tx a key streak db).2 =
      (.ok, some streak) :=
  loadRollbackGuardState_of_readsBack hreads (stored_of_persisted h) (readStreak_streakText hvalid hsafe)

end Restart

/-- Outside a transaction, with the table there: the statement is refused. -/
def refused : Answers := ⟨.good, { Answer.good with reply := .refused }⟩

def spentDepth (shortest : ℚ → CodeUnits) : Database Unit :=
  ⟨some fun _ => some (some (streakText shortest ⟨7, 3⟩)), true⟩

theorem a_refused_read_forgets_the_streak :
    ¬ LoadHonest false refused () (spentDepth fun _ => []) ∧
    ¬ DeleteHonest false refused () (spentDepth fun _ => []) ∧
    ¬ SetHonest false false refused () (some []) (spentDepth fun _ => []) := by
  have hdropped : Dropped false false refused (spentDepth fun _ => []) :=
    ⟨rfl, rfl, Or.inl rfl, rfl, Or.inl rfl⟩
  refine ⟨fun h => ?_, fun h => ?_, fun h => ?_⟩
  · have hstreak : readStreak (streakText (fun _ => []) ⟨7, 3⟩) = some ⟨7, 3⟩ :=
      readStreak_streakText (by decide) (by decide)
    have hreads := loadHonest_iff.mp h ⟨_, _, rfl, hstreak⟩
    exact absurd hreads.2.2 (by decide)
  · exact absurd (deleteHonest_iff.mp h hdropped) (by simp [spentDepth, Database.stored])
  · have hstored := setHonest_iff.mp h hdropped
    revert hstored
    simp [spentDepth, Database.stored, streakText, write]

end XChainSync.Markers
