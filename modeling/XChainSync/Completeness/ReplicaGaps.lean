import Mathlib
import XChainSync.Library.KeyedRows
import XChainSync.Library.Decimals

/-!
# Persistent replica gaps

`trackReplicaGaps` and `recordReplicaGaps` of src/client/sync.js. A completed sweep ages the gap of
every table it found short and drops the others, and the gaps that are old enough are recorded under
three keys of `sync_state`. The writes of that record succeed here.
-/

namespace XChainSync.Completeness
open KeyedRows
set_option autoImplicit false

structure Shortfall where
  table : String
  delta : Int
  sourceCount : Int
  localCount : Int

/-- One call: an element without a table is passed over. -/
structure Sweep where
  shortfalls : List (Option Shortfall)
  now : Int
  blockIndex : Option Int
  repaired : List String

structure GapEntry where
  table : String
  firstSeenAt : Int
  firstDelta : Int
  worstDelta : Int
  sweeps : Nat
  alerts : Nat
  lastAlertAt : Int
  repairAttempts : Nat
  lastSeenAt : Int
  lastDelta : Int
  sourceCount : Int
  localCount : Int
  lastBlock : Option Int

structure GapSettings where
  alertSweeps : ℚ
  alertRepeatMs : ℚ
  dbType : String

/-- `gaps` is `_replicaGaps`, `recorded` the flag that something is written. -/
structure Tracker where
  gaps : List GapEntry
  recorded : Bool
  sync_state : String → Option String

def Tracker.start (sync_state : String → Option String) : Tracker := ⟨[], false, sync_state⟩

/-! ### The sweep -/

def lookup (gaps : List GapEntry) (table : String) : Option GapEntry :=
  gaps.find? fun e => e.table = table

def newEntry (m : Shortfall) (now : Int) : GapEntry where
  table := m.table
  firstSeenAt := now
  firstDelta := m.delta
  worstDelta := m.delta
  sweeps := 0
  alerts := 0
  lastAlertAt := 0
  repairAttempts := 0
  lastSeenAt := now
  lastDelta := m.delta
  sourceCount := m.sourceCount
  localCount := m.localCount
  lastBlock := none

def ageEntry (w : Sweep) (m : Shortfall) (entry : GapEntry) : GapEntry :=
  { entry with
    sweeps := entry.sweeps + 1
    lastSeenAt := w.now
    lastDelta := m.delta
    sourceCount := m.sourceCount
    localCount := m.localCount
    lastBlock := w.blockIndex.or entry.lastBlock
    repairAttempts := if m.table ∈ w.repaired then entry.repairAttempts + 1 else entry.repairAttempts
    worstDelta := if m.delta > entry.worstDelta then m.delta else entry.worstDelta }

/-- The entry of a shortfall, a new one where there is none. -/
def aged (w : Sweep) (m : Shortfall) (entry : Option GapEntry) : GapEntry :=
  ageEntry w m (entry.getD (newEntry m w.now))

structure Pass where
  gaps : List GapEntry
  seen : List String
  escalate : List String

def escalates (cfg : GapSettings) (w : Sweep) (m : Shortfall) (entry : Option GapEntry) : Bool :=
  let grew := entry.any fun e => m.delta > e.worstDelta
  let next := aged w m entry
  let due := next.lastAlertAt = 0 ∨ cfg.alertRepeatMs ≤ (w.now - next.lastAlertAt : Int)
  cfg.alertSweeps ≤ next.sweeps && (grew || due)

def visit (cfg : GapSettings) (w : Sweep) (p : Pass) (m : Option Shortfall) : Pass :=
  match m with
  | none => p
  | some m =>
    if m.table = "" ∨ m.table ∈ p.seen then p
    else
      let entry := lookup p.gaps m.table
      { gaps := mapSet GapEntry.table p.gaps (aged w m entry)
        seen := p.seen ++ [m.table]
        escalate := if escalates cfg w m entry then p.escalate ++ [m.table] else p.escalate }

def alertPersistentReplicaGaps (now : Int) (escalate : List String) (gaps : List GapEntry) :
    List GapEntry :=
  gaps.map fun e =>
    if e.table ∈ escalate then { e with alerts := e.alerts + 1, lastAlertAt := now } else e

/-! ### The record -/

inductive GapValue where
  | undefined
  | num (n : Int)
  | str (s : String)

/-- The properties of an object literal. -/
abbrev ReplicaGap := List (String × GapValue)

/-- A property that is not there is undefined. -/
def ReplicaGap.get (g : ReplicaGap) (name : String) : GapValue :=
  ((g.find? fun p => p.1 = name).map Prod.snd).getD .undefined

def GapValue.text : GapValue → String
  | undefined => "undefined"
  | num n => toString n
  | str s => s

/-- As a number, none for NaN; no text is asked for one. -/
def GapValue.number : GapValue → Option Int
  | num n => some n
  | _ => none

def mathMin (xs : List (Option Int)) : Option Int := (xs.mapM id).bind List.min?

def mathMax (xs : List (Option Int)) : Option Int := (xs.mapM id).bind List.max?

def countText : Option Int → String
  | some n => toString n
  | none => "NaN"

def toReplicaGap (e : GapEntry) : ReplicaGap :=
  [("table", .str e.table), ("delta", .num e.lastDelta), ("source_count", .num e.sourceCount),
    ("local_count", .num e.localCount), ("sweeps", .num e.sweeps),
    ("first_seen_at", .num e.firstSeenAt), ("alerts", .num e.alerts),
    ("repair_attempts", .num e.repairAttempts),
    ("last_block", e.lastBlock.elim .undefined .num)]

/-- Of the gaps that are old enough, the worst first. -/
def persistentEntries (cfg : GapSettings) (gaps : List GapEntry) : List GapEntry :=
  (gaps.filter fun e => cfg.alertSweeps ≤ e.sweeps).insertionSort fun a b => b.lastDelta ≤ a.lastDelta

def getReplicaGaps (cfg : GapSettings) (gaps : List GapEntry) : List ReplicaGap :=
  (persistentEntries cfg gaps).map toReplicaGap

def setSyncState (key value : String) (sync_state : String → Option String) : String → Option String :=
  Function.update sync_state key (some value)

def recordReplicaGaps (cfg : GapSettings) (s : Tracker) : Tracker :=
  let persistent := getReplicaGaps cfg s.gaps
  match persistent with
  | [] =>
    if s.recorded then
      { s with
        recorded := false
        sync_state := setSyncState ("replica_gap_sweeps:" ++ cfg.dbType) "0" <|
          setSyncState ("replica_gap_since:" ++ cfg.dbType) "" <|
          setSyncState ("replica_gap_tables:" ++ cfg.dbType) "" s.sync_state }
    else s
  | first :: _ =>
    let names := ",".intercalate ((persistent.take 20).map fun g =>
      (g.get "table").text ++ ":" ++ (g.get "delta").text)
    let oldest := mathMin (persistent.map fun g => (g.get "firstSeenAt").number)
    let sweeps := mathMax (persistent.map fun g => (g.get "sweeps").number)
    let lastBlock := match first.get "last_block" with
      | .undefined => ""
      | v => v.text
    { s with
      recorded := true
      sync_state := setSyncState ("replica_gap_last_block:" ++ cfg.dbType) lastBlock <|
        setSyncState ("replica_gap_sweeps:" ++ cfg.dbType) (countText sweeps) <|
        setSyncState ("replica_gap_since:" ++ cfg.dbType) (countText oldest) <|
        setSyncState ("replica_gap_tables:" ++ cfg.dbType) names s.sync_state }

def trackReplicaGaps (cfg : GapSettings) (s : Tracker) (w : Sweep) : Tracker :=
  let p := w.shortfalls.foldl (visit cfg w) ⟨s.gaps, [], []⟩
  let kept := p.gaps.filter fun e => e.table ∈ p.seen
  recordReplicaGaps cfg { s with gaps := alertPersistentReplicaGaps w.now p.escalate kept }

/-! ### What the sweeps say -/

/-- The first shortfall of a table in a list. -/
def firstShort (table : String) (ms : List (Option Shortfall)) : Option Shortfall :=
  (ms.find? fun m => m.any fun m => m.table = table ∧ m.table ≠ "").join

def Sweep.short (w : Sweep) (table : String) : Option Shortfall := firstShort table w.shortfalls

/-- The last sweeps in a row in which a table was short. -/
def shortRun (hist : List Sweep) (table : String) : List Sweep :=
  hist.rtakeWhile fun w => (w.short table).isSome

/-- The first-seen time of a gap, and by how much it was short last. -/
def firstSeen (hist : List Sweep) (table : String) : Option Int :=
  (shortRun hist table).head?.map Sweep.now

def lastShort (hist : List Sweep) (table : String) : Option Shortfall :=
  hist.getLast?.bind fun w => w.short table

def IsPersistent (cfg : GapSettings) (hist : List Sweep) (table : String) : Prop :=
  shortRun hist table ≠ [] ∧ cfg.alertSweeps ≤ (shortRun hist table).length

theorem shortRun_concat (hist : List Sweep) (w : Sweep) (table : String) :
    shortRun (hist ++ [w]) table =
      if (w.short table).isSome then shortRun hist table ++ [w] else [] := by
  rw [shortRun, List.rtakeWhile_concat]
  rfl

theorem firstShort_cons (table : String) (m : Option Shortfall) (ms : List (Option Shortfall)) :
    firstShort table (m :: ms) =
      if m.any (fun m => m.table = table ∧ m.table ≠ "") then m else firstShort table ms := by
  rw [firstShort, List.find?_cons]
  split
  · rename_i h
    rw [if_pos h]
    rfl
  · rename_i h
    rw [h]
    rfl

theorem firstShort_spec {table : String} {ms : List (Option Shortfall)} {m : Shortfall}
    (h : firstShort table ms = some m) : m.table = table ∧ table ≠ "" := by
  rw [firstShort, Option.join_eq_some_iff] at h
  have hp := List.find?_some h
  rw [Option.any_some, decide_eq_true_eq] at hp
  exact ⟨hp.1, hp.1 ▸ hp.2⟩

/-! ### One pass -/

theorem lookup_mapSet (gaps : List GapEntry) (e : GapEntry) (table : String) :
    lookup (mapSet GapEntry.table gaps e) table = if e.table = table then some e else lookup gaps table :=
  find?_mapSet GapEntry.table gaps e table

theorem aged_table {w : Sweep} {m : Shortfall} {entry : Option GapEntry}
    (h : ∀ e ∈ entry, e.table = m.table) : (aged w m entry).table = m.table := by
  cases entry with
  | none => rfl
  | some e => exact h e rfl

theorem lookup_table {gaps : List GapEntry} {table : String} {e : GapEntry}
    (h : lookup gaps table = some e) : e.table = table := by
  simpa using List.find?_some h

theorem visit_of_short (cfg : GapSettings) (w : Sweep) (p : Pass) {m : Shortfall}
    (hne : m.table ≠ "") (hseen : m.table ∉ p.seen) :
    (visit cfg w p (some m)).gaps = mapSet GapEntry.table p.gaps (aged w m (lookup p.gaps m.table)) ∧
      (visit cfg w p (some m)).seen = p.seen ++ [m.table] := by
  have hpass : ¬ (m.table = "" ∨ m.table ∈ p.seen) := by
    rw [not_or]
    exact ⟨hne, hseen⟩
  rw [visit, if_neg hpass]
  exact ⟨rfl, rfl⟩

/-- A pass ages the entry of every table it finds short, once, and notes the table. -/
theorem pass_spec (cfg : GapSettings) (w : Sweep) (ms : List (Option Shortfall)) (p : Pass)
    (table : String) :
    (lookup (ms.foldl (visit cfg w) p).gaps table =
      if table ∈ p.seen then lookup p.gaps table
      else (firstShort table ms).elim (lookup p.gaps table) fun m =>
        some (aged w m (lookup p.gaps table))) ∧
    (table ∈ (ms.foldl (visit cfg w) p).seen ↔ table ∈ p.seen ∨ (firstShort table ms).isSome) := by
  induction ms generalizing p with
  | nil =>
    refine ⟨?_, by simp [firstShort]⟩
    split <;> rfl
  | cons m ms ih =>
    rw [List.foldl_cons, firstShort_cons]
    obtain ⟨hlookup, hseen⟩ := ih (visit cfg w p m)
    rw [hlookup, hseen]
    by_cases hpass : ∃ m', m = some m' ∧ m'.table ≠ "" ∧ m'.table ∉ p.seen
    · obtain ⟨m', rfl, hne, hnew⟩ := hpass
      obtain ⟨hgaps', hseen'⟩ := visit_of_short cfg w p hne hnew
      rw [hgaps', hseen', lookup_mapSet, aged_table fun e he => lookup_table he]
      simp only [List.mem_append, List.mem_singleton, Option.any_some]
      by_cases htable : m'.table = table
      · subst htable
        simp [hne, hnew]
      · have hne' : ¬ table = m'.table := fun h => htable h.symm
        simp [htable, hne']
    · have hskip : visit cfg w p m = p := by
        cases m with
        | none => rfl
        | some m =>
          rw [visit, if_pos]
          by_contra hnot
          rw [not_or] at hnot
          exact hpass ⟨m, rfl, hnot.1, hnot.2⟩
      rw [hskip]
      by_cases hin : table ∈ p.seen
      · simp [hin]
      · have hother : ¬ (m.any fun m => m.table = table ∧ m.table ≠ "") = true := by
          cases m with
          | none => exact Bool.false_ne_true
          | some m =>
            rw [Option.any_some, decide_eq_true_eq]
            rintro ⟨rfl, hne⟩
            exact hpass ⟨m, rfl, hne, hin⟩
        rw [if_neg hother]
        exact ⟨rfl, Iff.rfl⟩

theorem nodup_pass (cfg : GapSettings) (w : Sweep) (ms : List (Option Shortfall)) (p : Pass)
    (h : (p.gaps.map GapEntry.table).Nodup) :
    ((ms.foldl (visit cfg w) p).gaps.map GapEntry.table).Nodup := by
  induction ms generalizing p with
  | nil => exact h
  | cons m ms ih =>
    apply ih
    cases m with
    | none => exact h
    | some m =>
      rw [visit]
      split
      · exact h
      · exact nodup_mapSet h

/-! ### What is known of a table's gap -/

/-- The sweeps, the first-seen time and the last delta of an entry. -/
def GapEntry.core (e : GapEntry) : Nat × Int × Int := (e.sweeps, e.firstSeenAt, e.lastDelta)

/-- The same of a table's last short sweeps in a row. -/
def gapOf (hist : List Sweep) (table : String) : Option (Nat × Int × Int) :=
  (firstSeen hist table).bind fun since =>
    (lastShort hist table).map fun m => ((shortRun hist table).length, since, m.delta)

theorem lastShort_concat (hist : List Sweep) (w : Sweep) (table : String) :
    lastShort (hist ++ [w]) table = w.short table := by
  simp [lastShort]

theorem shortRun_ne_nil_iff (hist : List Sweep) (table : String) :
    shortRun hist table ≠ [] ↔ (lastShort hist table).isSome := by
  induction hist using List.reverseRecOn with
  | nil => simp [shortRun, lastShort]
  | append_singleton hist w _ =>
    rw [shortRun_concat, lastShort_concat]
    split <;> simp_all

theorem gapOf_concat (hist : List Sweep) (w : Sweep) (table : String) :
    gapOf (hist ++ [w]) table = (w.short table).map fun m =>
      ((gapOf hist table).elim 1 fun g => g.1 + 1,
        (gapOf hist table).elim w.now fun g => g.2.1, m.delta) := by
  cases hshort : w.short table with
  | none => simp [gapOf, lastShort_concat, hshort]
  | some m =>
    have hrun : shortRun (hist ++ [w]) table = shortRun hist table ++ [w] := by
      rw [shortRun_concat, hshort]
      rfl
    rw [gapOf, firstSeen, lastShort_concat, hshort, hrun]
    cases hold : shortRun hist table with
    | nil => simp [gapOf, firstSeen, hold]
    | cons first rest =>
      have hlast : (lastShort hist table).isSome := by
        rw [← shortRun_ne_nil_iff, hold]
        exact List.cons_ne_nil _ _
      obtain ⟨last, hlast⟩ := Option.isSome_iff_exists.mp hlast
      simp [gapOf, firstSeen, hold, hlast]

theorem isPersistent_iff (cfg : GapSettings) (hist : List Sweep) (table : String) :
    IsPersistent cfg hist table ↔ ∃ g, gapOf hist table = some g ∧ cfg.alertSweeps ≤ g.1 := by
  cases hrun : shortRun hist table with
  | nil => simp [IsPersistent, gapOf, firstSeen, hrun]
  | cons first rest =>
    have hlast : (lastShort hist table).isSome := by
      rw [← shortRun_ne_nil_iff, hrun]
      exact List.cons_ne_nil _ _
    obtain ⟨last, hlast⟩ := Option.isSome_iff_exists.mp hlast
    simp [IsPersistent, gapOf, firstSeen, hrun, hlast]

/-- The gaps are the tables that were short in the last sweep, aged over their last short run. -/
structure Follows (hist : List Sweep) (gaps : List GapEntry) : Prop where
  nodup : (gaps.map GapEntry.table).Nodup
  core_eq : ∀ table, (lookup gaps table).map GapEntry.core = gapOf hist table

theorem lookup_filter (gaps : List GapEntry) (seen : List String) (table : String) :
    lookup (gaps.filter fun e => e.table ∈ seen) table =
      if table ∈ seen then lookup gaps table else none := by
  rw [lookup, List.find?_filter]
  split
  · rename_i h
    apply congrArg (fun p => gaps.find? p)
    funext e
    by_cases htable : e.table = table <;> simp [htable, h]
  · rename_i h
    rw [List.find?_eq_none]
    rintro e -
    by_cases htable : e.table = table <;> simp [htable, h]

theorem lookup_alert (now : Int) (escalate : List String) (gaps : List GapEntry) (table : String) :
    (lookup (alertPersistentReplicaGaps now escalate gaps) table).map GapEntry.core =
      (lookup gaps table).map GapEntry.core := by
  rw [lookup, alertPersistentReplicaGaps, List.find?_map, Option.map_map]
  have hp : (fun e : GapEntry => decide (e.table = table)) ∘
      (fun e => if e.table ∈ escalate then { e with alerts := e.alerts + 1, lastAlertAt := now } else e) =
      fun e => decide (e.table = table) := by
    funext e
    rw [Function.comp_apply]
    split <;> rfl
  have hcore : GapEntry.core ∘
      (fun e => if e.table ∈ escalate then { e with alerts := e.alerts + 1, lastAlertAt := now } else e) =
      GapEntry.core := by
    funext e
    rw [Function.comp_apply]
    split <;> rfl
  rw [hp, hcore]
  rfl

theorem tables_alert (now : Int) (escalate : List String) (gaps : List GapEntry) :
    (alertPersistentReplicaGaps now escalate gaps).map GapEntry.table = gaps.map GapEntry.table := by
  rw [alertPersistentReplicaGaps, List.map_map]
  apply List.map_congr_left
  rintro e -
  rw [Function.comp_apply]
  split <;> rfl

theorem core_aged (w : Sweep) (m : Shortfall) (entry : Option GapEntry) :
    (aged w m entry).core = ((entry.map GapEntry.core).elim 1 fun g => g.1 + 1,
      (entry.map GapEntry.core).elim w.now fun g => g.2.1, m.delta) := by
  cases entry <;> rfl

/-- The gaps after a sweep, before the record is written. -/
def sweepGaps (cfg : GapSettings) (gaps : List GapEntry) (w : Sweep) : List GapEntry :=
  let p := w.shortfalls.foldl (visit cfg w) ⟨gaps, [], []⟩
  alertPersistentReplicaGaps w.now p.escalate (p.gaps.filter fun e => e.table ∈ p.seen)

theorem Follows.sweep {cfg : GapSettings} {hist : List Sweep} {gaps : List GapEntry}
    (h : Follows hist gaps) (w : Sweep) : Follows (hist ++ [w]) (sweepGaps cfg gaps w) where
  nodup := by
    rw [sweepGaps, tables_alert]
    exact (nodup_pass cfg w w.shortfalls ⟨gaps, [], []⟩ h.nodup).sublist
      (List.filter_sublist.map GapEntry.table)
  core_eq := by
    intro table
    obtain ⟨hlookup, hseen⟩ := pass_spec cfg w w.shortfalls ⟨gaps, [], []⟩ table
    rw [sweepGaps, lookup_alert, lookup_filter, hlookup, gapOf_concat, ← h.core_eq]
    change _ = Option.map _ (firstShort table w.shortfalls)
    cases hshort : firstShort table w.shortfalls with
    | none =>
      rw [if_neg]
      · rfl
      · rw [hseen, hshort]
        simp
    | some m =>
      rw [if_pos, if_neg List.not_mem_nil]
      · exact congrArg some (core_aged w m (lookup gaps table))
      · rw [hseen, hshort]
        exact .inr rfl

/-! ### The record that is asked for -/

def lastDelta (hist : List Sweep) (table : String) : Int :=
  ((lastShort hist table).map Shortfall.delta).getD 0

/-- The tables with a persistent gap, the worst first. -/
structure WorstFirst (cfg : GapSettings) (hist : List Sweep) (tables : List String) : Prop where
  nodup : tables.Nodup
  mem_iff : ∀ table, table ∈ tables ↔ IsPersistent cfg hist table
  sorted : tables.Pairwise fun a b => lastDelta hist b ≤ lastDelta hist a

def gapNames (hist : List Sweep) (tables : List String) : String :=
  ",".intercalate ((tables.take 20).map fun table => table ++ ":" ++ toString (lastDelta hist table))

def NamesRecorded (cfg : GapSettings) (hist : List Sweep) (sync_state : String → Option String) : Prop :=
  ∃ tables, WorstFirst cfg hist tables ∧
    sync_state ("replica_gap_tables:" ++ cfg.dbType) = some (gapNames hist tables)

def SinceRecorded (cfg : GapSettings) (hist : List Sweep) (sync_state : String → Option String) : Prop :=
  ∃ since, IsLeast {t | ∃ table, IsPersistent cfg hist table ∧ firstSeen hist table = some t} since ∧
    sync_state ("replica_gap_since:" ++ cfg.dbType) = some (toString (since : Int))

def SweepsRecorded (cfg : GapSettings) (hist : List Sweep) (sync_state : String → Option String) : Prop :=
  ∃ sweeps, IsGreatest
      {n | ∃ table, IsPersistent cfg hist table ∧ (shortRun hist table).length = n} sweeps ∧
    sync_state ("replica_gap_sweeps:" ++ cfg.dbType) = some (toString (sweeps : Nat))

/-- The three values where no gap is persistent and one has been. -/
def Cleared (cfg : GapSettings) (sync_state : String → Option String) : Prop :=
  sync_state ("replica_gap_tables:" ++ cfg.dbType) = some "" ∧
    sync_state ("replica_gap_since:" ++ cfg.dbType) = some "" ∧
    sync_state ("replica_gap_sweeps:" ++ cfg.dbType) = some "0"

def AnyPersistent (cfg : GapSettings) (hist : List Sweep) : Prop :=
  ∃ table, IsPersistent cfg hist table

/-- Some sweep so far has left a persistent gap, and so has written a record. -/
def EverPersistent (cfg : GapSettings) (hist : List Sweep) : Prop :=
  ∃ earlier, earlier <+: hist ∧ AnyPersistent cfg earlier

/-- The record describes the gaps of the sweeps so far. -/
def DescribesGaps (cfg : GapSettings) (hist : List Sweep) (sync_state : String → Option String) : Prop :=
  (AnyPersistent cfg hist → NamesRecorded cfg hist sync_state ∧ SinceRecorded cfg hist sync_state ∧
    SweepsRecorded cfg hist sync_state) ∧
  (¬ AnyPersistent cfg hist → EverPersistent cfg hist → Cleared cfg sync_state)

/-! ### The gaps that are recorded -/

theorem mem_persistentEntries {cfg : GapSettings} {gaps : List GapEntry} {e : GapEntry} :
    e ∈ persistentEntries cfg gaps ↔ e ∈ gaps ∧ cfg.alertSweeps ≤ e.sweeps := by
  rw [persistentEntries, List.mem_insertionSort, List.mem_filter, decide_eq_true_eq]

theorem mem_iff_lookup {gaps : List GapEntry} (h : (gaps.map GapEntry.table).Nodup) {e : GapEntry} :
    e ∈ gaps ↔ lookup gaps e.table = some e :=
  mem_iff_find? h

section Recorded
variable {cfg : GapSettings} {hist : List Sweep} {gaps : List GapEntry}

/-- What an entry says of its table is what the sweeps say. -/
theorem Follows.entry (h : Follows hist gaps) {e : GapEntry} (he : e ∈ gaps) :
    gapOf hist e.table = some e.core := by
  rw [← h.core_eq, (mem_iff_lookup h.nodup).mp he]
  rfl

theorem gapOf_eq_some {table : String} {g : Nat × Int × Int} (h : gapOf hist table = some g) :
    (shortRun hist table).length = g.1 ∧ firstSeen hist table = some g.2.1 ∧
      lastDelta hist table = g.2.2 := by
  rw [gapOf, Option.bind_eq_some_iff] at h
  obtain ⟨since, hsince, h⟩ := h
  obtain ⟨m, hm, rfl⟩ := Option.map_eq_some_iff.mp h
  refine ⟨rfl, hsince, ?_⟩
  rw [lastDelta, hm]
  rfl

theorem Follows.isPersistent_iff_mem (h : Follows hist gaps) (table : String) :
    IsPersistent cfg hist table ↔ ∃ e ∈ persistentEntries cfg gaps, e.table = table := by
  rw [isPersistent_iff]
  constructor
  · rintro ⟨g, hg, hsweeps⟩
    rw [← h.core_eq, Option.map_eq_some_iff] at hg
    obtain ⟨e, he, rfl⟩ := hg
    have htable := lookup_table he
    subst htable
    exact ⟨e, mem_persistentEntries.mpr ⟨(mem_iff_lookup h.nodup).mpr he, hsweeps⟩, rfl⟩
  · rintro ⟨e, he, rfl⟩
    obtain ⟨he, hsweeps⟩ := mem_persistentEntries.mp he
    exact ⟨e.core, h.entry he, hsweeps⟩

theorem Follows.worstFirst (h : Follows hist gaps) :
    WorstFirst cfg hist ((persistentEntries cfg gaps).map GapEntry.table) where
  nodup := by
    have hperm : (persistentEntries cfg gaps).Perm (gaps.filter fun e => cfg.alertSweeps ≤ e.sweeps) :=
      List.perm_insertionSort _ _
    rw [(hperm.map GapEntry.table).nodup_iff]
    exact h.nodup.sublist (List.filter_sublist.map GapEntry.table)
  mem_iff := by
    intro table
    rw [h.isPersistent_iff_mem, List.mem_map]
  sorted := by
    rw [List.pairwise_map]
    have hsorted : (persistentEntries cfg gaps).Pairwise fun a b => b.lastDelta ≤ a.lastDelta := by
      have : Std.Total fun a b : GapEntry => b.lastDelta ≤ a.lastDelta :=
        ⟨fun a b => le_total b.lastDelta a.lastDelta⟩
      have : IsTrans GapEntry fun a b => b.lastDelta ≤ a.lastDelta := ⟨fun _ _ _ hab hbc => hbc.trans hab⟩
      exact List.pairwise_insertionSort _ _
    apply hsorted.imp_of_mem
    intro a b ha hb hab
    rw [(gapOf_eq_some (h.entry (mem_persistentEntries.mp ha).1)).2.2,
      (gapOf_eq_some (h.entry (mem_persistentEntries.mp hb).1)).2.2]
    exact hab

/-! ### What is written -/

theorem intercalate_getReplicaGaps (gaps : List GapEntry) :
    ((getReplicaGaps cfg gaps).take 20).map
        (fun g => (g.get "table").text ++ ":" ++ (g.get "delta").text) =
      ((persistentEntries cfg gaps).take 20).map
        fun e => e.table ++ ":" ++ toString e.lastDelta := by
  rw [getReplicaGaps, ← List.map_take, List.map_map]
  rfl

/-- The projection has no `firstSeenAt`, so the least of them is not a number. -/
theorem since_getReplicaGaps {gaps : List GapEntry} (hne : getReplicaGaps cfg gaps ≠ []) :
    mathMin ((getReplicaGaps cfg gaps).map fun g => (g.get "firstSeenAt").number) = none := by
  rw [getReplicaGaps] at hne ⊢
  cases hentries : persistentEntries cfg gaps with
  | nil => exact absurd (by rw [hentries]; rfl) hne
  | cons first rest => rfl

theorem mathMax_some (xs : List Int) : mathMax (xs.map some) = xs.max? := by
  have hall : (xs.map some).mapM id = some xs := by
    induction xs with
    | nil => rfl
    | cons x xs ih =>
      rw [List.map_cons, List.mapM_cons, ih]
      rfl
  rw [mathMax, hall]
  rfl

theorem sweeps_getReplicaGaps (gaps : List GapEntry) :
    mathMax ((getReplicaGaps cfg gaps).map fun g => (g.get "sweeps").number) =
      ((persistentEntries cfg gaps).map fun e => (e.sweeps : Int)).max? := by
  rw [← mathMax_some, getReplicaGaps, List.map_map, List.map_map]
  rfl

theorem anyPersistent_iff (h : Follows hist gaps) :
    AnyPersistent cfg hist ↔ getReplicaGaps cfg gaps ≠ [] := by
  rw [getReplicaGaps, Ne, List.map_eq_nil_iff, List.eq_nil_iff_forall_not_mem, not_forall_not]
  constructor
  · rintro ⟨table, htable⟩
    obtain ⟨e, he, -⟩ := (h.isPersistent_iff_mem table).mp htable
    exact ⟨e, he⟩
  · rintro ⟨e, he⟩
    exact ⟨e.table, (h.isPersistent_iff_mem e.table).mpr ⟨e, he, rfl⟩⟩

theorem Follows.gapNames_eq (h : Follows hist gaps) :
    gapNames hist ((persistentEntries cfg gaps).map GapEntry.table) =
      ",".intercalate (((getReplicaGaps cfg gaps).take 20).map fun g =>
        (g.get "table").text ++ ":" ++ (g.get "delta").text) := by
  rw [gapNames, intercalate_getReplicaGaps, ← List.map_take, List.map_map]
  apply congrArg (String.intercalate ",")
  apply List.map_congr_left
  intro e he
  have hmem := (mem_persistentEntries.mp (List.mem_of_mem_take he)).1
  rw [Function.comp_apply, (gapOf_eq_some (h.entry hmem)).2.2]
  rfl

theorem Follows.sweeps_isGreatest (h : Follows hist gaps) (hany : AnyPersistent cfg hist) :
    ∃ n : Nat, IsGreatest
        {n | ∃ table, IsPersistent cfg hist table ∧ (shortRun hist table).length = n} n ∧
      mathMax ((getReplicaGaps cfg gaps).map fun g => (g.get "sweeps").number) = some (n : Int) := by
  rw [sweeps_getReplicaGaps]
  cases hmax : ((persistentEntries cfg gaps).map fun e => (e.sweeps : Int)).max? with
  | none =>
    rw [List.max?_eq_none_iff, List.map_eq_nil_iff] at hmax
    exact absurd (congrArg (List.map toReplicaGap) hmax) ((anyPersistent_iff h).mp hany)
  | some top =>
    obtain ⟨hmem, htop⟩ := List.max?_eq_some_iff.mp hmax
    obtain ⟨e, he, rfl⟩ := List.mem_map.mp hmem
    refine ⟨e.sweeps, ⟨⟨e.table, (h.isPersistent_iff_mem e.table).mpr ⟨e, he, rfl⟩, ?_⟩, ?_⟩, rfl⟩
    · exact (gapOf_eq_some (h.entry (mem_persistentEntries.mp he).1)).1
    · rintro n ⟨table, htable, rfl⟩
      obtain ⟨e', he', rfl⟩ := (h.isPersistent_iff_mem table).mp htable
      rw [(gapOf_eq_some (h.entry (mem_persistentEntries.mp he').1)).1]
      exact_mod_cast htop _ (List.mem_map_of_mem he')

end Recorded

theorem toString_ne_NaN (n : Int) : toString n ≠ "NaN" := by
  intro h
  have hN : 'N' ∈ (toString n).toList := by
    rw [h]
    decide
  have hdigit : ¬ 'N'.isDigit = true := by decide
  cases n with
  | ofNat n =>
    have htext : (toString (Int.ofNat n)).toList = Nat.toDigits 10 n := String.toList_ofList
    rw [htext] at hN
    exact hdigit (Decimals.digits_toDigits n _ hN)
  | negSucc n =>
    have htext : (toString (Int.negSucc n)).toList = '-' :: Nat.toDigits 10 (n + 1) := by
      change ("-" ++ String.ofList (Nat.toDigits 10 (n + 1))).toList = _
      rw [String.toList_append]
      exact congrArg ('-' :: ·) String.toList_ofList
    rw [htext] at hN
    rcases List.mem_cons.mp hN with hN | hN
    · exact absurd hN (by decide)
    · exact hdigit (Decimals.digits_toDigits (n + 1) _ hN)

/-! ### The keys of a state -/

theorem keys_ne (dbType : String) :
    "replica_gap_tables:" ++ dbType ≠ "replica_gap_since:" ++ dbType ∧
      "replica_gap_tables:" ++ dbType ≠ "replica_gap_sweeps:" ++ dbType ∧
      "replica_gap_since:" ++ dbType ≠ "replica_gap_sweeps:" ++ dbType ∧
      "replica_gap_tables:" ++ dbType ≠ "replica_gap_last_block:" ++ dbType ∧
      "replica_gap_since:" ++ dbType ≠ "replica_gap_last_block:" ++ dbType ∧
      "replica_gap_sweeps:" ++ dbType ≠ "replica_gap_last_block:" ++ dbType := by
  simp only [Ne, String.append_left_inj]
  decide

theorem record_of_persistent (cfg : GapSettings) (s : Tracker) (hne : getReplicaGaps cfg s.gaps ≠ []) :
    (recordReplicaGaps cfg s).recorded = true ∧
      (recordReplicaGaps cfg s).sync_state ("replica_gap_tables:" ++ cfg.dbType) =
        some (",".intercalate (((getReplicaGaps cfg s.gaps).take 20).map fun g =>
          (g.get "table").text ++ ":" ++ (g.get "delta").text)) ∧
      (recordReplicaGaps cfg s).sync_state ("replica_gap_since:" ++ cfg.dbType) = some "NaN" ∧
      (recordReplicaGaps cfg s).sync_state ("replica_gap_sweeps:" ++ cfg.dbType) =
        some (countText (mathMax
          ((getReplicaGaps cfg s.gaps).map fun g => (g.get "sweeps").number))) := by
  obtain ⟨h12, h13, h23, h14, h24, h34⟩ := keys_ne cfg.dbType
  have hsince := since_getReplicaGaps hne
  rw [recordReplicaGaps]
  cases hgaps : getReplicaGaps cfg s.gaps with
  | nil => exact absurd hgaps hne
  | cons first rest =>
    rw [hgaps] at hsince
    simp only [hsince, setSyncState]
    simp [Function.update, h12, h13, h23, h14, h24, h34, countText]

theorem record_of_none (cfg : GapSettings) (s : Tracker) (hnil : getReplicaGaps cfg s.gaps = []) :
    (recordReplicaGaps cfg s).recorded = false ∧
      (s.recorded = true → Cleared cfg (recordReplicaGaps cfg s).sync_state) ∧
      (s.recorded = false → (recordReplicaGaps cfg s).sync_state = s.sync_state) := by
  obtain ⟨h12, h13, h23, -, -, -⟩ := keys_ne cfg.dbType
  rw [recordReplicaGaps, hnil]
  simp only
  by_cases hrecorded : s.recorded = true
  · rw [if_pos hrecorded]
    refine ⟨rfl, fun _ => ?_, fun h => absurd hrecorded (h ▸ Bool.false_ne_true)⟩
    simp [Cleared, setSyncState, Function.update, h12, h13, h23]
  · rw [if_neg hrecorded]
    exact ⟨Bool.not_eq_true _ ▸ hrecorded, fun h => absurd h hrecorded, fun _ => rfl⟩

theorem gaps_record (cfg : GapSettings) (s : Tracker) : (recordReplicaGaps cfg s).gaps = s.gaps := by
  rw [recordReplicaGaps]
  split
  · split <;> rfl
  · rfl

/-! ### Every sequence of sweeps -/

/-- What holds after the sweeps so far. -/
structure Tracks (cfg : GapSettings) (hist : List Sweep) (s : Tracker) : Prop where
  follows : Follows hist s.gaps
  recorded_iff : s.recorded = true ↔ AnyPersistent cfg hist
  names : AnyPersistent cfg hist → NamesRecorded cfg hist s.sync_state
  since : AnyPersistent cfg hist → s.sync_state ("replica_gap_since:" ++ cfg.dbType) = some "NaN"
  sweeps : AnyPersistent cfg hist → SweepsRecorded cfg hist s.sync_state
  cleared : ¬ AnyPersistent cfg hist → EverPersistent cfg hist → Cleared cfg s.sync_state

theorem not_anyPersistent_nil (cfg : GapSettings) : ¬ AnyPersistent cfg [] := by
  rintro ⟨table, hne, -⟩
  exact hne rfl

theorem Tracks.start (cfg : GapSettings) (before : String → Option String) :
    Tracks cfg [] (Tracker.start before) where
  follows := ⟨List.nodup_nil, fun _ => rfl⟩
  recorded_iff := ⟨fun h => (Bool.false_ne_true h).elim, fun h => (not_anyPersistent_nil cfg h).elim⟩
  names h := (not_anyPersistent_nil cfg h).elim
  since h := (not_anyPersistent_nil cfg h).elim
  sweeps h := (not_anyPersistent_nil cfg h).elim
  cleared := by
    rintro - ⟨earlier, hearlier, hany⟩
    rw [List.prefix_nil.mp hearlier] at hany
    exact (not_anyPersistent_nil cfg hany).elim

theorem Tracks.step {cfg : GapSettings} {hist : List Sweep} {s : Tracker} (h : Tracks cfg hist s)
    (w : Sweep) : Tracks cfg (hist ++ [w]) (trackReplicaGaps cfg s w) := by
  have hfollows : Follows (hist ++ [w]) (sweepGaps cfg s.gaps w) := h.follows.sweep w
  have htrack : trackReplicaGaps cfg s w =
      recordReplicaGaps cfg { s with gaps := sweepGaps cfg s.gaps w } := rfl
  have hany := @anyPersistent_iff cfg _ _ hfollows
  rw [htrack]
  by_cases hgaps : getReplicaGaps cfg (sweepGaps cfg s.gaps w) = []
  · have hnot : ¬ AnyPersistent cfg (hist ++ [w]) := fun hp => hany.mp hp hgaps
    obtain ⟨hflag, hclear, hkeep⟩ := record_of_none cfg { s with gaps := sweepGaps cfg s.gaps w } hgaps
    refine ⟨?_, by simp [hflag, hnot], fun hp => (hnot hp).elim, fun hp => (hnot hp).elim,
      fun hp => (hnot hp).elim, ?_⟩
    · rw [gaps_record]
      exact hfollows
    · rintro - ⟨earlier, hearlier, hp⟩
      by_cases hbefore : AnyPersistent cfg hist
      · exact hclear (h.recorded_iff.mpr hbefore)
      · have hoff : s.recorded = false := by
          rw [← Bool.not_eq_true, h.recorded_iff]
          exact hbefore
        rw [hkeep hoff]
        apply h.cleared hbefore
        rcases List.prefix_concat_iff.mp hearlier with rfl | hearlier
        · exact (hnot hp).elim
        · exact ⟨earlier, hearlier, hp⟩
  · have hp : AnyPersistent cfg (hist ++ [w]) := hany.mpr hgaps
    obtain ⟨hflag, hnames, hsince, hsweeps⟩ :=
      record_of_persistent cfg { s with gaps := sweepGaps cfg s.gaps w } hgaps
    refine ⟨?_, by simp [hflag, hp], fun _ => ?_, fun _ => hsince, fun _ => ?_, fun hnot => (hnot hp).elim⟩
    · rw [gaps_record]
      exact hfollows
    · refine ⟨_, hfollows.worstFirst, ?_⟩
      rw [hnames, hfollows.gapNames_eq]
    · obtain ⟨n, hn, hmax⟩ := hfollows.sweeps_isGreatest hp
      refine ⟨n, hn, ?_⟩
      rw [hsweeps, hmax]
      rfl

theorem tracks_run (cfg : GapSettings) (before : String → Option String) (hist : List Sweep) :
    Tracks cfg hist (hist.foldl (trackReplicaGaps cfg) (Tracker.start before)) := by
  induction hist using List.reverseRecOn with
  | nil => exact Tracks.start cfg before
  | append_singleton hist w ih =>
    rw [List.foldl_concat]
    exact ih.step w

/-- The record describes the gaps exactly where none is persistent: where one is, its tables and
sweeps are written but `NaN` stands for the first-seen time. -/
theorem record_describes_gaps_iff (cfg : GapSettings) (before : String → Option String)
    (hist : List Sweep) :
    let sync_state := (hist.foldl (trackReplicaGaps cfg) (Tracker.start before)).sync_state
    (DescribesGaps cfg hist sync_state ↔ ¬ AnyPersistent cfg hist) ∧
      (AnyPersistent cfg hist → NamesRecorded cfg hist sync_state ∧ SweepsRecorded cfg hist sync_state ∧
        sync_state ("replica_gap_since:" ++ cfg.dbType) = some "NaN") := by
  have h := tracks_run cfg before hist
  refine ⟨⟨?_, ?_⟩, fun hp => ⟨h.names hp, h.sweeps hp, h.since hp⟩⟩
  · rintro ⟨hrecord, -⟩ hp
    obtain ⟨-, ⟨since, -, hsince⟩, -⟩ := hrecord hp
    rw [h.since hp, Option.some_inj] at hsince
    exact toString_ne_NaN since hsince.symm
  · intro hnot
    exact ⟨fun hp => (hnot hp).elim, h.cleared⟩

def shortSweep (now : Int) : Sweep where
  shortfalls := [some ⟨"index_transactions", 5, 10, 5⟩]
  now := now
  blockIndex := some 100
  repaired := []

theorem record_of_two_short_sweeps :
    ¬ DescribesGaps ⟨2, 3600000, "mempool"⟩ [shortSweep 1000, shortSweep 2000]
      (([shortSweep 1000, shortSweep 2000].foldl (trackReplicaGaps ⟨2, 3600000, "mempool"⟩)
        (Tracker.start fun _ => none)).sync_state) := by
  rintro ⟨hrecord, -⟩
  have hp : AnyPersistent ⟨2, 3600000, "mempool"⟩ [shortSweep 1000, shortSweep 2000] := by
    refine ⟨"index_transactions", by decide, ?_⟩
    have hlen : (shortRun [shortSweep 1000, shortSweep 2000] "index_transactions").length = 2 := by
      decide
    rw [hlen]
    norm_num
  obtain ⟨-, ⟨since, -, hsince⟩, -⟩ := hrecord hp
  have hNaN : (([shortSweep 1000, shortSweep 2000].foldl (trackReplicaGaps ⟨2, 3600000, "mempool"⟩)
      (Tracker.start fun _ => none)).sync_state) ("replica_gap_since:" ++ "mempool") = some "NaN" := by
    decide +kernel
  rw [hNaN, Option.some_inj] at hsince
  exact toString_ne_NaN since hsince.symm

end XChainSync.Completeness
