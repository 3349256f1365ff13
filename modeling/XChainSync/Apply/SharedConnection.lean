import Mathlib.Logic.Function.Basic
import XChainSync.Library.Runs

/-!
# Apply units on the one Database object

`doQuery` runs every statement on the open transaction's connection when there is one, whoever
issues it. An event is one statement reaching the server, or one call of the unit that holds the
apply lock. The fields after the connection slot are the history of the unit: the code does not
keep them.
-/

namespace XChainSync.Apply
set_option autoImplicit false

/-- Who wrote a row: units are numbered in the order they begin. -/
inductive Writer where
  | earlier
  | bystander
  | unit (n : Nat)
  deriving DecidableEq, Repr

inductive Caller where
  | bystander
  | unit
  deriving DecidableEq, Repr

universe u v
variable {K : Type u} {V : Type v}

/-- A row with its last writer, none where it is deleted. -/
structure Cell (V : Type v) where
  writer : Writer
  value : Option V
  deriving DecidableEq, Repr

abbrev Rows (K : Type u) (V : Type v) := K → Cell V

/-- A connection: inside a transaction with the rows as it sees them, or committing each statement. -/
inductive Connection (K : Type u) (V : Type v) where
  | inTransaction (working : Rows K V)
  | autocommit

inductive Statement (K : Type u) (V : Type v) where
  | read (key : K)
  | write (key : K) (value : Option V)
  /-- CREATE TABLE, ALTER TABLE and the like, which commit implicitly. -/
  | ddl

structure Database (K : Type u) (V : Type v) where
  committed : Rows K V
  transactionConnection : Option (Connection K V)
  /-- The number of the last unit, and whether it has neither committed nor rolled back. -/
  unit : Nat
  running : Bool
  /-- The rows when the unit began. -/
  base : Rows K V
  /-- The rows that the unit has written. -/
  wrote : List K
  /-- The writes of bystanders since the unit began. -/
  joined : List (K × Option V)
  /-- What the reads of bystanders since then have returned. -/
  returned : List (Cell V)
  /-- One of them was of a row that the unit had written. -/
  overlaps : Bool

inductive Event (K : Type u) (V : Type v) where
  | beginTransaction
  /-- A write of the unit, and whether the server accepts it. -/
  | unitQuery (key : K) (value : Option V) (accepted : Bool)
  /-- A statement of a bystander, and whether the server accepts it. -/
  | doQuery (statement : Statement K V) (accepted : Bool)
  | commitTransaction
  /-- A rollback, or a commit that fails. -/
  | rollbackTransaction
  /-- The slot is cleared once the server has answered. -/
  | release

namespace Database
variable [DecidableEq K]

def getConnection (s : Database K V) : Connection K V :=
  s.transactionConnection.getD .autocommit

/-- The rows as the chosen connection sees them. -/
def visible (s : Database K V) : Rows K V :=
  match s.getConnection with
  | .inTransaction working => working
  | .autocommit => s.committed

def writerOf (s : Database K V) : Caller → Writer
  | .bystander => .bystander
  | .unit => .unit s.unit

/-- A statement on the chosen connection. -/
def execute (s : Database K V) (caller : Caller) : Statement K V → Database K V
  | .read _ => s
  | .write key value =>
    let cell : Cell V := ⟨s.writerOf caller, value⟩
    match s.getConnection with
    | .inTransaction working =>
      { s with transactionConnection := some (.inTransaction (Function.update working key cell)) }
    | .autocommit => { s with committed := Function.update s.committed key cell }
  | .ddl =>
    match s.getConnection with
    | .inTransaction working =>
      { s with committed := working, transactionConnection := some .autocommit }
    | .autocommit => s

/-- The history of a bystander's statement. -/
def note (s : Database K V) : Statement K V → Database K V
  | .read key =>
    { s with
      returned := s.visible key :: s.returned
      overlaps := s.overlaps || key ∈ s.wrote }
  | .write key value => { s with joined := s.joined ++ [(key, value)] }
  | .ddl => s

def step (s : Database K V) : Event K V → Database K V
  | .beginTransaction =>
    -- a second begin is refused
    if s.transactionConnection.isSome then s
    else
      { s with
        transactionConnection := some (.inTransaction s.committed)
        unit := s.unit + 1
        running := true
        base := s.committed
        wrote := []
        joined := []
        returned := []
        overlaps := false }
  | .unitQuery key value accepted =>
    if accepted then { s.execute .unit (.write key value) with wrote := key :: s.wrote } else s
  | .doQuery statement accepted =>
    if accepted then (s.note statement).execute .bystander statement else s
  | .commitTransaction =>
    match s.transactionConnection with
    | none => s
    | some (.inTransaction working) =>
      { s with committed := working, transactionConnection := some .autocommit, running := false }
    | some .autocommit => { s with running := false }
  | .rollbackTransaction =>
    match s.transactionConnection with
    | none => s
    | some _ => { s with transactionConnection := some .autocommit, running := false }
  | .release => if s.running then s else { s with transactionConnection := none }

/-- Rows after the writes of bystanders in order. -/
def written (base : Rows K V) (writes : List (K × Option V)) : Rows K V :=
  writes.foldl (fun rows w => Function.update rows w.1 ⟨.bystander, w.2⟩) base

/-- Between and after the units: nothing is running. -/
structure Idle (s : Database K V) : Prop where
  running : s.running = false
  slot : s.transactionConnection = none
  past : ∀ k n, (s.committed k).writer = .unit n → n ≤ s.unit

/-- What a step owes to the bystanders of a unit. -/
structure Isolates (s : Database K V) (e : Event K V) : Prop where
  /-- The writes of bystanders are still there after a rollback. -/
  kept : e = .rollbackTransaction → s.running = true →
    (s.step e).committed = written s.base s.joined
  /-- No row of a unit is permanent before it commits. -/
  atomic : (s.step e).running = true → ∀ k, ((s.step e).committed k).writer ≠ .unit (s.step e).unit
  /-- No read of a bystander has returned a row of a unit that is rolled back. -/
  clean : e = .rollbackTransaction → s.running = true → ∀ c ∈ s.returned, c.writer ≠ .unit s.unit

/-- No unit is rolled back over a statement of a bystander on its rows or a write of one, and no
bystander's DDL runs inside a unit. -/
def Undisturbed (s : Database K V) : Event K V → Prop
  | .doQuery .ddl accepted => s.running = true → accepted = false
  | .rollbackTransaction => s.running = true → s.joined = [] ∧ s.overlaps = false
  | _ => True

/-- What a running unit has of the rows: everything permanent is from before it, and its connection
sees its writes on top. -/
structure Holds (s : Database K V) (working : Rows K V) : Prop where
  slot : s.transactionConnection = some (.inTransaction working)
  base : s.committed = s.base
  past : ∀ k n, (s.committed k).writer = .unit n → n < s.unit
  tags : ∀ k n, (working k).writer = .unit n → n ≤ s.unit
  own : ∀ k, (working k).writer = .unit s.unit → k ∈ s.wrote
  clean : s.overlaps = false → ∀ c ∈ s.returned, c.writer ≠ .unit s.unit

/-- The invariant of a run without disturbances. -/
structure Inv (s : Database K V) : Prop where
  past : ∀ k n, (s.committed k).writer = .unit n → n ≤ s.unit
  stopped : s.running = false → ∀ working, s.transactionConnection ≠ some (.inTransaction working)
  running : s.running = true → ∃ working, s.Holds working

omit [DecidableEq K] in
theorem Idle.inv {s : Database K V} (h : s.Idle) : s.Inv where
  past := h.past
  stopped := by simp [h.slot]
  running := by simp [h.running]

omit [DecidableEq K] in
theorem Holds.getConnection {s : Database K V} {working : Rows K V} (h : s.Holds working) :
    s.getConnection = .inTransaction working := by
  simp [Database.getConnection, h.slot]

omit [DecidableEq K] in
theorem getConnection_stopped {s : Database K V} (h : s.Inv) (hstopped : s.running = false) :
    s.getConnection = .autocommit := by
  cases hslot : s.transactionConnection with
  | none => simp [getConnection, hslot]
  | some connection =>
    cases connection with
    | inTransaction working => exact absurd hslot (h.stopped hstopped working)
    | autocommit => simp [getConnection, hslot]

/-- A write on the connection of a running unit. -/
theorem Holds.write {s : Database K V} {working : Rows K V} (h : s.Holds working) (key : K)
    (wrote : List K) (joined : List (K × Option V)) {cell : Cell V}
    (hcell : ∀ n, cell.writer = .unit n → n ≤ s.unit)
    (hown : cell.writer = .unit s.unit → key ∈ wrote) (hwrote : ∀ k ∈ s.wrote, k ∈ wrote) :
    Holds { s with
      transactionConnection := some (.inTransaction (Function.update working key cell))
      wrote := wrote
      joined := joined } (Function.update working key cell) where
  slot := rfl
  base := h.base
  past := h.past
  tags := by
    intro k n hk
    by_cases hkey : k = key
    · subst hkey
      exact hcell n (by simpa using hk)
    · exact h.tags k n (by simpa [Function.update_of_ne hkey] using hk)
  own := by
    intro k hk
    by_cases hkey : k = key
    · subst hkey
      exact hown (by simpa using hk)
    · exact hwrote k (h.own k (by simpa [Function.update_of_ne hkey] using hk))
  clean := h.clean

/-- A write outside a unit. -/
theorem Inv.write {s : Database K V} (h : s.Inv) (hstopped : s.running = false) (key : K)
    {cell : Cell V} {wrote : List K} {joined : List (K × Option V)}
    (hcell : ∀ n, cell.writer = .unit n → n ≤ s.unit) :
    Inv { s with
      committed := Function.update s.committed key cell
      wrote := wrote
      joined := joined } where
  past := by
    intro k n hk
    by_cases hkey : k = key
    · subst hkey
      exact hcell n (by simpa using hk)
    · exact h.past k n (by simpa [Function.update_of_ne hkey] using hk)
  stopped := h.stopped
  running := by simp [hstopped]

/-- The history of a bystander's read. -/
theorem Inv.read {s : Database K V} (h : s.Inv) (key : K) : (s.note (.read key)).Inv where
  past := h.past
  stopped := h.stopped
  running := by
    intro hrunning
    obtain ⟨working, hw⟩ := h.running hrunning
    refine ⟨working, hw.slot, hw.base, hw.past, hw.tags, hw.own, ?_⟩
    intro hoverlaps c hc
    simp only [note, Bool.or_eq_false_iff, decide_eq_false_iff_not] at hoverlaps
    rcases List.mem_cons.mp hc with rfl | hc
    · -- a row the unit has not written is not its own
      intro hwriter
      simp only [visible, hw.getConnection] at hwriter
      exact hoverlaps.2 (hw.own key hwriter)
    · exact hw.clean hoverlaps.1 c hc

theorem inv_beginTransaction {s : Database K V} (h : s.Inv) : (s.step .beginTransaction).Inv := by
  simp only [step]
  split
  · exact h
  · refine ⟨fun k n hk => Nat.le_succ_of_le (h.past k n hk), by simp, fun _ => ?_⟩
    refine ⟨s.committed, rfl, rfl, fun k n hk => Nat.lt_succ_of_le (h.past k n hk),
      fun k n hk => Nat.le_succ_of_le (h.past k n hk), fun k hk => ?_, by simp⟩
    exact absurd (h.past k _ hk) (by simp)

theorem inv_unitQuery {s : Database K V} (h : s.Inv) (key : K) (value : Option V) (accepted : Bool) :
    (s.step (.unitQuery key value accepted)).Inv := by
  have hcell : ∀ n, (Cell.mk (s.writerOf .unit) value).writer = .unit n → n ≤ s.unit := by
    intro n hn
    cases hn
    exact Nat.le_refl _
  simp only [step]
  split
  · cases hrunning : s.running with
    | false =>
      simp only [execute, getConnection_stopped h hrunning]
      exact h.write hrunning key hcell
    | true =>
      obtain ⟨working, hw⟩ := h.running hrunning
      simp only [execute, hw.getConnection]
      have hnext := hw.write key (key :: s.wrote) s.joined hcell
        (fun _ => List.mem_cons_self) (fun k hk => List.mem_cons_of_mem _ hk)
      exact ⟨h.past, fun hstopped => by simp [hrunning] at hstopped, fun _ => ⟨_, hnext⟩⟩
  · exact h

theorem inv_doQuery {s : Database K V} (h : s.Inv) {statement : Statement K V} {accepted : Bool}
    (he : s.Undisturbed (.doQuery statement accepted)) :
    (s.step (.doQuery statement accepted)).Inv := by
  simp only [step]
  split
  · rename_i haccepted
    cases statement with
    | read key => exact h.read key
    | write key value =>
      have hcell : ∀ n, (Cell.mk (s.writerOf .bystander) value).writer = .unit n → n ≤ s.unit := by
        intro n hn
        cases hn
      have hslot : (s.note (.write key value)).getConnection = s.getConnection := rfl
      cases hrunning : s.running with
      | false =>
        simp only [execute, hslot, getConnection_stopped h hrunning]
        exact h.write hrunning key hcell
      | true =>
        obtain ⟨working, hw⟩ := h.running hrunning
        simp only [execute, hslot, hw.getConnection]
        have hnext := hw.write key s.wrote (s.joined ++ [(key, value)]) hcell
          (fun hn => by cases hn) (fun k hk => hk)
        exact ⟨h.past, fun hstopped => by simp [note, hrunning] at hstopped, fun _ => ⟨_, hnext⟩⟩
    | ddl =>
      cases hrunning : s.running with
      | false =>
        have hnote : s.note .ddl = s := rfl
        simp only [hnote, execute, getConnection_stopped h hrunning]
        exact h
      | true =>
        have hrefused : accepted = false := he hrunning
        simp [hrefused] at haccepted
  · exact h

omit [DecidableEq K] in
/-- A unit that has ended and not cleared its slot. -/
theorem inv_ended {s : Database K V} {rows : Rows K V}
    (hpast : ∀ k n, (rows k).writer = .unit n → n ≤ s.unit) :
    Inv { s with
      committed := rows
      transactionConnection := some .autocommit
      running := false } where
  past := hpast
  stopped := by simp
  running := by simp

theorem inv_commitTransaction {s : Database K V} (h : s.Inv) : (s.step .commitTransaction).Inv := by
  cases hslot : s.transactionConnection with
  | none => simpa only [step, hslot] using h
  | some connection =>
    cases connection with
    | inTransaction working =>
      have htags : ∀ k n, (working k).writer = .unit n → n ≤ s.unit := by
        cases hrunning : s.running with
        | false => exact absurd hslot (h.stopped hrunning working)
        | true =>
          obtain ⟨held, hw⟩ := h.running hrunning
          obtain rfl : held = working := by simpa [hslot] using hw.slot.symm
          exact hw.tags
      simp only [step, hslot]
      exact inv_ended htags
    | autocommit =>
      simp only [step, hslot]
      exact inv_ended h.past

theorem inv_rollbackTransaction {s : Database K V} (h : s.Inv) :
    (s.step .rollbackTransaction).Inv := by
  cases hslot : s.transactionConnection with
  | none => simpa only [step, hslot] using h
  | some connection =>
    simp only [step, hslot]
    exact inv_ended h.past

theorem inv_release {s : Database K V} (h : s.Inv) : (s.step .release).Inv := by
  simp only [step]
  split
  · exact h
  · rename_i hstopped
    exact ⟨h.past, by simp, fun hrunning => absurd hrunning hstopped⟩

/-- One step without disturbance keeps the invariant. -/
theorem inv_step {s : Database K V} (h : s.Inv) {e : Event K V} (he : s.Undisturbed e) :
    (s.step e).Inv := by
  cases e with
  | beginTransaction => exact inv_beginTransaction h
  | unitQuery key value accepted => exact inv_unitQuery h key value accepted
  | doQuery statement accepted => exact inv_doQuery h he
  | commitTransaction => exact inv_commitTransaction h
  | rollbackTransaction => exact inv_rollbackTransaction h
  | release => exact inv_release h

/-- A step without disturbance from the invariant isolates. -/
theorem isolates_step {s : Database K V} (h : s.Inv) {e : Event K V} (he : s.Undisturbed e) :
    s.Isolates e := by
  have hnext := inv_step h he
  refine ⟨?_, ?_, ?_⟩
  · rintro rfl hrunning
    obtain ⟨working, hw⟩ := h.running hrunning
    obtain ⟨hjoined, -⟩ := he hrunning
    simp [step, hw.slot, hjoined, written, hw.base]
  · intro hrunning k hk
    obtain ⟨working, hw⟩ := hnext.running hrunning
    exact absurd (hw.past k _ hk) (Nat.lt_irrefl _)
  · rintro rfl hrunning
    obtain ⟨working, hw⟩ := h.running hrunning
    exact hw.clean (he hrunning).2

def fresh : Database String String where
  committed _ := ⟨.earlier, none⟩
  transactionConnection := none
  unit := 0
  running := false
  base _ := ⟨.earlier, none⟩
  wrote := []
  joined := []
  returned := []
  overlaps := false

/-- A unit that has inserted its block. -/
def applying : Database String String :=
  (fresh.step .beginTransaction).step (.unitQuery "blocks" (some "100") true)

end Database

end XChainSync.Apply
