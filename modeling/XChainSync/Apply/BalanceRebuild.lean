import Mathlib
import XChainSync.Commitment.Amounts
import XChainSync.Library.Aggregates
import XChainSync.Library.Runs

/-!
# The balances table

`rebuildBalances` of src/db/balance_helpers.js, whole or in the rectangle of the ids that the rows of
a payload touch (src/client/applier.js). An amount is a decimal of scale 18, an id that is not there
is NULL.
-/

namespace XChainSync.BalanceRebuild
set_option autoImplicit false
open Aggregates
open Commitment (minimalDecimal castChars decimals)

/-- `address_id` and `tick_id`. -/
abbrev Pair := Option Int × Option Int

structure LedgerRow where
  address_id : Option Int
  tick_id : Option Int
  amount : Int
  deriving DecidableEq, Repr

def LedgerRow.pair (row : LedgerRow) : Pair := (row.address_id, row.tick_id)

structure Replica where
  credits : List LedgerRow
  debits : List LedgerRow
  balances : List (Pair × String)
  deriving DecidableEq, Repr

/-! ### The statements -/

/-- The union of `credits` and `debits` where `pred` holds, signed by the CASE. -/
def union (pred : Pair → Bool) (credits debits : List LedgerRow) : List (Pair × Int) :=
  (credits.filter (pred ·.pair)).map (fun row => (row.pair, row.amount)) ++
    (debits.filter (pred ·.pair)).map fun row => (row.pair, -row.amount)

/-- `SUM_LEDGER` of a group. -/
def sumLedger (rows : List (Pair × Int)) (k : Pair) : Int := ((rows.filter (·.1 = k)).map Prod.snd).sum

/-- The group's row, which HAVING leaves out where the sum is zero. -/
def grouped (rows : List (Pair × Int)) (k : Pair) : Option String :=
  if sumLedger rows k = 0 then none else some (minimalDecimal (sumLedger rows k))

def rebuildWhere (pred : Pair → Bool) (db : Replica) : Replica :=
  let t := union pred db.credits db.debits
  { db with balances := db.balances.filter (fun row => !pred row.1) ++
      (t.map Prod.fst).dedup.filterMap fun k => (grouped t k).map (k, ·) }

structure Scope where
  addressIds : List Int
  tickIds : List Int
  deriving DecidableEq, Repr

/-- `address_id IN (..) AND tick_id IN (..)`: a NULL is in no list. -/
def Scope.contains (scope : Scope) (k : Pair) : Bool :=
  k.1.any (· ∈ scope.addressIds) && k.2.any (· ∈ scope.tickIds)

def rebuildBalances (scope : Option Scope) (db : Replica) : Replica :=
  match scope with
  | none => rebuildWhere (fun _ => true) db
  | some scope =>
    if scope.addressIds = [] ∨ scope.tickIds = [] then db else rebuildWhere scope.contains db

/-! ### The applier -/

def MAX_SCOPED_REBUILD_IDS : Nat := 1000

/-- `Set.add`. -/
def addId (ids : List Int) (id : Int) : List Int := if id ∈ ids then ids else ids ++ [id]

/-- None where the rows cannot be scoped. -/
def collectRebuildScope : List LedgerRow → Scope → Option Scope
  | [], scope => some scope
  | row :: rows, scope =>
    match row.address_id, row.tick_id with
    | some k, some t =>
      let scope := ⟨addId scope.addressIds k, addId scope.tickIds t⟩
      if MAX_SCOPED_REBUILD_IDS < scope.addressIds.length ∨ MAX_SCOPED_REBUILD_IDS < scope.tickIds.length
      then none
      else collectRebuildScope rows scope
    | _, _ => none

def rebuildBalancesTouchedBy (credits debits : List LedgerRow) (db : Replica) : Replica :=
  match collectRebuildScope (credits ++ debits) ⟨[], []⟩ with
  | none => rebuildBalances none db
  | some scope => if scope.addressIds = [] then db else rebuildBalances (some scope) db

/-- The rows of a payload, none where it has no such table. -/
def applyRows (credits debits : Option (List LedgerRow)) (db : Replica) : Replica :=
  let db := { db with credits := db.credits ++ credits.getD [], debits := db.debits ++ debits.getD [] }
  if credits.isSome ∨ debits.isSome then rebuildBalancesTouchedBy (credits.getD []) (debits.getD []) db
  else db

/-- A committed transaction. A rollback leaves some of the ledger rows. -/
inductive Committed where
  | applyBlock (credits debits : Option (List LedgerRow))
  | applyIncrementalSnapshot (credits debits : Option (List LedgerRow))
  | rollback (credits debits : List LedgerRow)
  deriving DecidableEq, Repr

def Replica.next (db : Replica) : Committed → Replica
  | .applyBlock credits debits => applyRows credits debits db
  | .applyIncrementalSnapshot credits debits => applyRows credits debits db
  | .rollback credits debits => rebuildBalances none { db with credits := credits, debits := debits }

/-! ### Consistency -/

/-- Credits minus debits. -/
def Replica.net (db : Replica) (k : Pair) : Int :=
  ((db.credits.filter (·.pair = k)).map LedgerRow.amount).sum -
    ((db.debits.filter (·.pair = k)).map LedgerRow.amount).sum

def Replica.value (db : Replica) (k : Pair) : Option String :=
  if db.net k = 0 then none else some (minimalDecimal (db.net k))

/-- One row for each pair with a sum other than zero, and no other row. -/
def Replica.Consistent (db : Replica) : Prop := Agrees db.value db.balances

section Rebuild
variable {pred : Pair → Bool} {db : Replica} {k : Pair}

/-- A pair in the region has all its rows there. -/
theorem sumLedger_union (hk : pred k = true) (credits debits : List LedgerRow) :
    sumLedger (union pred credits debits) k =
      ((credits.filter (·.pair = k)).map LedgerRow.amount).sum -
        ((debits.filter (·.pair = k)).map LedgerRow.amount).sum := by
  have hfilter : ∀ rows : List LedgerRow,
      (rows.filter (pred ·.pair)).filter (·.pair = k) = rows.filter (·.pair = k) := by
    intro rows
    rw [List.filter_filter]
    apply List.filter_congr
    intro row _
    by_cases hrow : row.pair = k
    · simp [hrow, hk]
    · simp [hrow]
  have hneg : ∀ rows : List LedgerRow,
      (rows.map fun row => -row.amount).sum = -(rows.map LedgerRow.amount).sum := by
    intro rows
    induction rows with
    | nil => rfl
    | cons row rows ih => simp [ih]; ring
  rw [sumLedger, union, List.filter_append, List.map_append, List.sum_append, List.filter_map,
    List.filter_map, List.map_map, List.map_map]
  have hcredits := hfilter credits
  have hdebits := hfilter debits
  simp only [Function.comp_def] at hcredits hdebits ⊢
  rw [hcredits, hdebits, hneg, sub_eq_add_neg]

theorem grouped_union (hk : pred k = true) : grouped (union pred db.credits db.debits) k = db.value k := by
  rw [grouped, Replica.value, sumLedger_union hk]
  rfl

theorem keys_union (credits debits : List LedgerRow) :
    (union pred credits debits).map Prod.fst = ((credits ++ debits).map LedgerRow.pair).filter pred := by
  simp [union, List.map_append, List.filter_append, List.filter_map, Function.comp_def]

theorem rebuildWhere_eq_refresh (pred : Pair → Bool) (db : Replica) :
    (rebuildWhere pred db).balances =
      refresh pred ((db.credits ++ db.debits).map LedgerRow.pair) db.value db.balances := by
  have hvalues : refresh pred ((db.credits ++ db.debits).map LedgerRow.pair)
      (grouped (union pred db.credits db.debits)) db.balances =
      refresh pred ((db.credits ++ db.debits).map LedgerRow.pair) db.value db.balances :=
    refresh_congr fun k hk => grouped_union hk
  rw [← hvalues, refresh, ← keys_union]
  rfl

/-- A pair with a value has a ledger row. -/
theorem mem_pairs_of_value (h : db.value k ≠ none) :
    k ∈ (db.credits ++ db.debits).map LedgerRow.pair := by
  by_contra hmem
  apply h
  have hnone : ∀ rows : List LedgerRow, (∀ row ∈ rows, row ∈ db.credits ++ db.debits) →
      rows.filter (·.pair = k) = [] := by
    intro rows hrows
    rw [List.filter_eq_nil_iff]
    intro row hrow hpair
    exact hmem (List.mem_map.mpr ⟨row, hrows row hrow, by simpa using hpair⟩)
  have hnet : db.net k = 0 := by
    rw [Replica.net, hnone db.credits fun row => List.mem_append_left _,
      hnone db.debits fun row => List.mem_append_right _]
    rfl
  simp [Replica.value, hnet]

/-- A table that is right outside the region is right after the rebuild. -/
theorem consistent_rebuildWhere {value : Pair → Option String} (h : Agrees value db.balances)
    (hsame : ∀ k, pred k = false → db.value k = value k) : (rebuildWhere pred db).Consistent := by
  have hagrees := agrees_refresh h hsame fun k => mem_pairs_of_value
  rw [← rebuildWhere_eq_refresh] at hagrees
  exact hagrees

theorem consistent_full (db : Replica) : (rebuildBalances none db).Consistent := by
  intro k
  have hagrees : AgreesAt db.value (refresh (fun _ => true) _ db.value db.balances) k :=
    agreesAt_refresh rfl mem_pairs_of_value
  rw [← rebuildWhere_eq_refresh] at hagrees
  exact hagrees

end Rebuild

/-! ### The scope -/

section Scope
variable {rows : List LedgerRow} {scope scope' : Scope}

theorem mem_addId {ids : List Int} {id j : Int} : j ∈ addId ids id ↔ j ∈ ids ∨ j = id := by
  unfold addId
  split_ifs with h
  · constructor
    · exact Or.inl
    · rintro (hj | rfl)
      · exact hj
      · exact h
  · simp

/-- The rectangle grows, and has the pair of every row. -/
theorem collectRebuildScope_contains (h : collectRebuildScope rows scope = some scope') :
    (∀ k, scope.contains k → scope'.contains k) ∧ ∀ row ∈ rows, scope'.contains row.pair := by
  induction rows generalizing scope with
  | nil =>
    obtain rfl := Option.some.inj h
    exact ⟨fun _ hk => hk, by simp⟩
  | cons row rows ih =>
    unfold collectRebuildScope at h
    split at h
    · rename_i k t hk ht
      dsimp only at h
      split_ifs at h
      obtain ⟨hgrows, hrows⟩ := ih h
      have hadded : ∀ p, scope.contains p → (Scope.mk (addId scope.addressIds k) (addId scope.tickIds t)).contains p := by
        rintro ⟨a, b⟩ hp
        cases a <;> cases b <;> simp_all [Scope.contains, mem_addId]
      refine ⟨fun p hp => hgrows p (hadded p hp), fun r hr => ?_⟩
      rcases List.mem_cons.mp hr with rfl | hr
      · apply hgrows
        simp [Scope.contains, LedgerRow.pair, hk, ht, mem_addId]
      · exact hrows r hr
    · cases h

/-- The first row's address is in the list. -/
theorem collectRebuildScope_nil (h : collectRebuildScope rows ⟨[], []⟩ = some scope)
    (hempty : scope.addressIds = []) : rows = [] := by
  cases rows with
  | nil => rfl
  | cons row rows =>
    have hcontains := (collectRebuildScope_contains h).2 row List.mem_cons_self
    simp [Scope.contains, hempty] at hcontains

end Scope

/-! ### Runs -/

section Runs
variable {db : Replica} {credits debits : List LedgerRow} {k : Pair}

def Replica.add (db : Replica) (credits debits : List LedgerRow) : Replica :=
  { db with credits := db.credits ++ credits, debits := db.debits ++ debits }

theorem value_add (h : ∀ row ∈ credits ++ debits, row.pair ≠ k) : (db.add credits debits).value k = db.value k := by
  have hnone : ∀ rows : List LedgerRow, (∀ row ∈ rows, row ∈ credits ++ debits) →
      rows.filter (·.pair = k) = [] := by
    intro rows hrows
    rw [List.filter_eq_nil_iff]
    intro row hrow
    simpa using h row (hrows row hrow)
  have hnet : (db.add credits debits).net k = db.net k := by
    simp only [Replica.net, Replica.add, List.filter_append, hnone credits fun row => List.mem_append_left _,
      hnone debits fun row => List.mem_append_right _, List.append_nil]
  rw [Replica.value, Replica.value, hnet]

/-- Outside the rectangle of the added rows no sum has changed. -/
theorem consistent_scoped (h : db.Consistent) {scope : Scope}
    (hscope : ∀ row ∈ credits ++ debits, scope.contains row.pair) :
    (rebuildBalances (some scope) (db.add credits debits)).Consistent := by
  have hsame : ∀ k, scope.contains k = false → (db.add credits debits).value k = db.value k := by
    intro k hk
    apply value_add
    rintro row hrow rfl
    simp [hscope row hrow] at hk
  unfold rebuildBalances
  dsimp only
  split_ifs with hempty
  · have hnothing : ∀ k, scope.contains k = false := by
      rintro ⟨a, b⟩
      rcases hempty with hempty | hempty <;> cases a <;> cases b <;> simp [Scope.contains, hempty]
    intro k
    rw [AgreesAt, hsame k (hnothing k)]
    exact h k
  · exact consistent_rebuildWhere h hsame

theorem consistent_touchedBy (h : db.Consistent) :
    (rebuildBalancesTouchedBy credits debits (db.add credits debits)).Consistent := by
  unfold rebuildBalancesTouchedBy
  cases hcollect : collectRebuildScope (credits ++ debits) ⟨[], []⟩ with
  | none => exact consistent_full _
  | some scope =>
    dsimp only
    split_ifs with hempty
    · obtain ⟨rfl, rfl⟩ := List.append_eq_nil_iff.mp (collectRebuildScope_nil hcollect hempty)
      simpa [Replica.add] using h
    · exact consistent_scoped h (collectRebuildScope_contains hcollect).2

theorem consistent_applyRows (h : db.Consistent) (credits debits : Option (List LedgerRow)) :
    (applyRows credits debits db).Consistent := by
  unfold applyRows
  dsimp only
  split_ifs with hrows
  · exact consistent_touchedBy h
  · push Not at hrows
    simp only [Option.not_isSome_iff_eq_none] at hrows
    simpa [hrows] using h

theorem consistent_next (h : db.Consistent) (e : Committed) : (db.next e).Consistent := by
  cases e with
  | applyBlock credits debits => exact consistent_applyRows h credits debits
  | applyIncrementalSnapshot credits debits => exact consistent_applyRows h credits debits
  | rollback credits debits => exact consistent_full _

theorem consistent_runAll (h : db.Consistent) (es : List Committed) :
    (Runs.runAll Replica.next db es).Consistent := by
  induction es generalizing db with
  | nil => exact h
  | cons e es ih => exact ih (consistent_next h e)

end Runs

/-! ### The rendering -/

/-- The sign, the whole part, and the decimals up to the last that is not zero. -/
def IsMinimalDecimal (text : String) (net : Int) : Prop :=
  ∃ (frac : List Char) (zeros : Nat),
    text.toList = (if net < 0 then ['-'] else []) ++ Nat.toDigits 10 (net.natAbs / 10 ^ 18) ++
      (if frac = [] then [] else '.' :: frac) ∧
    frac.getLast? ≠ some '0' ∧ frac ++ List.replicate zeros '0' = decimals net.natAbs

theorem isMinimalDecimal (net : Int) : IsMinimalDecimal (minimalDecimal net) net := by
  have hpoint : ∀ c ∈ (if net < 0 then ['-'] else []) ++ Nat.toDigits 10 (net.natAbs / 10 ^ 18), c ≠ '.' := by
    rintro c hc rfl
    rcases List.mem_append.mp hc with hc | hc
    · split_ifs at hc <;> simp at hc
    · cases Commitment.isDigit_toDigits hc
  have hcast : castChars net = ((if net < 0 then ['-'] else []) ++ Nat.toDigits 10 (net.natAbs / 10 ^ 18)) ++
      '.' :: decimals net.natAbs := (List.append_assoc _ _ _).symm
  obtain ⟨zeros, hzeros⟩ := Commitment.trimmed_append_zeros (decimals net.natAbs)
  refine ⟨_, zeros, ?_, fun hlast => ?_, hzeros⟩
  · rw [minimalDecimal, String.toList_ofList, hcast,
      Commitment.trim_decimal hpoint fun c hc => Commitment.isDigit_decimals hc]
    split
    · rw [List.append_nil]
    · rfl
  · have hne : (decimals net.natAbs).rdropWhile (· = '0') ≠ [] := by
      intro hnil
      rw [hnil] at hlast
      cases hlast
    rw [List.getLast?_eq_some_getLast hne, Option.some_inj] at hlast
    exact List.rdropWhile_last_not _ _ hne (decide_eq_true hlast)

theorem scoped_rebuilds_equal_the_full_one (db : Replica) (h : db.Consistent) (es : List Committed) :
    let after := Runs.runAll Replica.next db es
    (∀ k, after.balances.filter (·.1 = k) =
      if after.net k = 0 then [] else [(k, minimalDecimal (after.net k))]) ∧
    (∀ k, IsMinimalDecimal (minimalDecimal (after.net k)) (after.net k)) ∧
    after.balances.Perm (rebuildBalances none after).balances := by
  have hafter := consistent_runAll h es
  refine ⟨fun k => ?_, fun k => isMinimalDecimal _, perm_of_agrees hafter (consistent_full _)⟩
  rw [hafter k, Replica.value]
  split_ifs <;> rfl

def oneCredit : List Committed :=
  [.applyBlock (some [⟨some 1, some 2, 5 * 10 ^ 17⟩]) none, .rollback [] []]

theorem after_one_credit :
    let after := Runs.runAll Replica.next ⟨[], [], []⟩ oneCredit
    (∀ k, after.balances.filter (·.1 = k) =
      if after.net k = 0 then [] else [(k, minimalDecimal (after.net k))]) ∧
    (∀ k, IsMinimalDecimal (minimalDecimal (after.net k)) (after.net k)) ∧
    after.balances.Perm (rebuildBalances none after).balances :=
  scoped_rebuilds_equal_the_full_one ⟨[], [], []⟩ (fun _ => rfl) oneCredit

end XChainSync.BalanceRebuild
