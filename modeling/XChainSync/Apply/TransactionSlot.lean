import Mathlib
import XChainSync.Library.Leases
import XChainSync.Library.Runs

/-!
# The transaction slot

`beginTransaction`, `doQuery`, `commitTransaction` and `rollbackTransaction` of src/db/index.js as
coroutines run them: a call runs up to what it awaits, and an event is a call or the answer to what
one awaits. A connection is numbered when the pool hands it out. A query on a connection of its own
caller is not one of these calls, and the pool's retries are one answer.
-/

namespace XChainSync.TransactionSlot
set_option autoImplicit false

abbrev Connection := Nat

/-- What a coroutine awaits. -/
inductive Call where
  | idle
  /-- `beginTransaction`: the pool, the begin on its connection, the release after it failed. -/
  | beginAcquiring
  | beginStarting (c : Connection)
  | beginReleasing (c : Connection)
  /-- `commitTransaction`: the commit and the release after it. -/
  | committing (c : Connection)
  | commitReleasing (c : Connection)
  /-- `rollbackTransaction`, and the catch of `commitTransaction`: the rollback and the release. -/
  | rollingBack (c : Connection)
  | finallyReleasing (c : Connection)
  /-- `doQuery`: the pool, the statement, in a transaction or not, and the release after it. -/
  | queryAcquiring
  | querying (c : Connection) (tx : Bool)
  | queryReleasing (c : Connection)
  deriving DecidableEq, Repr

/-- A release after which the code tries no other. -/
def Call.lastRelease : Call → Bool
  | beginReleasing _ => true
  | finallyReleasing _ => true
  | queryReleasing _ => true
  | _ => false

universe u
variable {K : Type u}

/-- `unit k` is the connection that a unit of `k` began on, while neither its commit nor its rollback
has finished. A statement is kept with that connection of its caller's and the one it ran on. -/
structure Database (K : Type u) where
  transactionConnection : Option Connection
  taken : Nat
  call : K → Call
  unit : K → Option Connection
  released : Connection → Nat
  statements : List (Option Connection × Connection)

def Database.start : Database K := ⟨none, 0, fun _ => .idle, fun _ => none, fun _ => 0, []⟩

inductive Action where
  | beginTransaction
  | commitTransaction
  | rollbackTransaction
  | doQuery
  | resolves
  | rejects
  deriving DecidableEq, Repr

structure Event (K : Type u) where
  coroutine : K
  action : Action

namespace Database
variable [DecidableEq K]

def enter (s : Database K) (k : K) (call : Call) : Database K :=
  { s with call := Function.update s.call k call }

/-- The end of a commit or rollback: a unit of the coroutine is over. -/
def finish (s : Database K) (k : K) : Database K :=
  { s with call := Function.update s.call k .idle, unit := Function.update s.unit k none }

def release (s : Database K) (c : Connection) : Database K :=
  { s with released := Function.update s.released c (s.released c + 1) }

def clearSlot (s : Database K) : Database K := { s with transactionConnection := none }

def note (s : Database K) (k : K) (c : Connection) : Database K :=
  { s with statements := s.statements ++ [(s.unit k, c)] }

/-- The catch of `commitTransaction`. Without a connection its rollback and release both throw. -/
def catchCommit (s : Database K) (k : K) : Database K :=
  match s.transactionConnection with
  | none => s.finish k
  | some c => s.enter k (.rollingBack c)

/-- The answer to what a coroutine awaits. -/
def settle (s : Database K) (k : K) (ok : Bool) : Call → Database K
  | .idle => s
  | .beginAcquiring =>
    if ok then
      { s.enter k (.beginStarting s.taken) with
        transactionConnection := some s.taken
        taken := s.taken + 1 }
    else s.enter k .idle
  | .beginStarting c =>
    if ok then { s.enter k .idle with unit := Function.update s.unit k (some c) }
    else
      match s.transactionConnection with
      | none => s.enter k .idle
      | some d => s.enter k (.beginReleasing d)
  | .beginReleasing c => if ok then ((s.release c).clearSlot).enter k .idle else s.enter k .idle
  | .committing _ =>
    if ok then
      match s.transactionConnection with
      | none => s.catchCommit k
      | some d => s.enter k (.commitReleasing d)
    else s.catchCommit k
  | .commitReleasing c => if ok then ((s.release c).clearSlot).finish k else s.catchCommit k
  | .rollingBack _ =>
    match s.transactionConnection with
    | none => s.finish k
    | some d => s.enter k (.finallyReleasing d)
  | .finallyReleasing c => if ok then ((s.release c).clearSlot).finish k else s.finish k
  | .queryAcquiring =>
    if ok then { (s.note k s.taken).enter k (.querying s.taken false) with taken := s.taken + 1 }
    else s.enter k .idle
  | .querying c tx => if tx then s.enter k .idle else s.enter k (.queryReleasing c)
  | .queryReleasing c => if ok then (s.release c).enter k .idle else s.enter k .idle

/-- A call of a coroutine that awaits nothing. -/
def issue (s : Database K) (k : K) : Action → Database K
  | .beginTransaction => if s.transactionConnection.isSome then s else s.enter k .beginAcquiring
  | .commitTransaction =>
    match s.transactionConnection with
    | none => s.finish k
    | some c => s.enter k (.committing c)
  | .rollbackTransaction =>
    match s.transactionConnection with
    | none => s.finish k
    | some c => s.enter k (.rollingBack c)
  | .doQuery =>
    match s.transactionConnection with
    | none => s.enter k .queryAcquiring
    | some c => (s.note k c).enter k (.querying c true)
  | _ => s

def step (s : Database K) (e : Event K) : Database K :=
  match e.action with
  | .resolves => s.settle e.coroutine true (s.call e.coroutine)
  | .rejects => s.settle e.coroutine false (s.call e.coroutine)
  | action => if s.call e.coroutine = .idle then s.issue e.coroutine action else s

/-- Nothing is awaited and no unit is open. -/
def Settled (s : Database K) : Prop := ∀ k, s.call k = .idle ∧ s.unit k = none

/-- At most one transaction. -/
structure Honest (s : Database K) : Prop where
  /-- No begin resolves while a unit is open. -/
  one : ∀ k k' c c', s.unit k = some c → s.unit k' = some c' → k = k'
  /-- A begin is refused then, and none is starting. -/
  refuses : ∀ k c, s.unit k = some c →
    s.transactionConnection ≠ none ∧ ∀ k' d, s.call k' ≠ .beginStarting d
  own : ∀ p ∈ s.statements, ∀ c ∈ p.1, p.2 = c
  once : ∀ c, s.released c ≤ 1
  all : s.Settled → ∀ c, c < s.taken → s.released c = 1

/-- The pool answers no begin while the slot is taken, only the coroutine whose unit is open calls
commit or rollback on it, and no release fails but the one after a commit. -/
def Orderly (s : Database K) (e : Event K) : Prop :=
  match e.action with
  | .resolves => s.call e.coroutine = .beginAcquiring → s.transactionConnection = none
  | .commitTransaction => s.transactionConnection = none ∨ (s.unit e.coroutine).isSome
  | .rollbackTransaction => s.transactionConnection = none ∨ (s.unit e.coroutine).isSome
  | .rejects => (s.call e.coroutine).lastRelease = false
  | _ => True

instance (s : Database K) : ∀ e : Event K, Decidable (s.Orderly e)
  | ⟨k, .resolves⟩ => inferInstanceAs (Decidable (s.call k = .beginAcquiring → s.transactionConnection = none))
  | ⟨k, .commitTransaction⟩ =>
    inferInstanceAs (Decidable (s.transactionConnection = none ∨ (s.unit k).isSome))
  | ⟨k, .rollbackTransaction⟩ =>
    inferInstanceAs (Decidable (s.transactionConnection = none ∨ (s.unit k).isSome))
  | ⟨k, .rejects⟩ => inferInstanceAs (Decidable ((s.call k).lastRelease = false))
  | ⟨_, .beginTransaction⟩ => inferInstanceAs (Decidable True)
  | ⟨_, .doQuery⟩ => inferInstanceAs (Decidable True)

/-! ### Who holds the slot -/

/-- A call that a coroutine without a transaction may await. -/
def Bystanding : Call → Prop
  | .idle => True
  | .beginAcquiring => True
  | .queryAcquiring => True
  | .querying _ _ => True
  | .queryReleasing _ => True
  | _ => False

/-- What the coroutine that holds a connection in the slot awaits, and its unit. -/
def Holding (c : Connection) : Call → Option Connection → Prop
  | .beginStarting d, unit => d = c ∧ unit = none
  | .beginReleasing d, unit => d = c ∧ unit = none
  | .idle, unit => unit = some c
  | .querying _ tx, unit => tx = true ∧ unit = some c
  | .committing d, unit => d = c ∧ unit = some c
  | .commitReleasing d, unit => d = c ∧ unit = some c
  | .rollingBack d, unit => d = c ∧ unit = some c
  | .finallyReleasing d, unit => d = c ∧ unit = some c
  | _, _ => False

/-- A coroutine where `holder` has the slot. -/
def View (holder : Option (K × Connection)) (k : K) (call : Call) (unit : Option Connection) : Prop :=
  match holder with
  | none => Bystanding call ∧ unit = none
  | some (h, c) => if k = h then Holding c call unit else Bystanding call ∧ unit = none

/-- The connection that a call gives back. -/
def owedCall : Call → Option Connection
  | .beginStarting c => some c
  | .beginReleasing c => some c
  | .querying c tx => if tx then none else some c
  | .queryReleasing c => some c
  | _ => none

def owesOf (call : Call) (unit : Option Connection) (c : Connection) : Prop :=
  owedCall call = some c ∨ unit = some c

structure Inv (s : Database K) (holder : Option (K × Connection)) : Prop where
  slot : s.transactionConnection = holder.map Prod.snd
  view : ∀ k, View holder k (s.call k) (s.unit k)
  account : Leases.Account (fun k c => owesOf (s.call k) (s.unit k) c) s.taken s.released
  own : ∀ p ∈ s.statements, ∀ c ∈ p.1, p.2 = c

/-! ### One coroutine moves -/

section Views
variable {holder holder' : Option (K × Connection)} {k k' : K} {call : Call} {unit : Option Connection}

theorem view_self (c : Connection) : View (some (k, c)) k call unit ↔ Holding c call unit := by
  rw [View, if_pos rfl]

/-- Whoever is not the holder stands by. -/
theorem view_of_ne (hne : ∀ p ∈ holder, p.1 ≠ k) : View holder k call unit ↔ Bystanding call ∧ unit = none := by
  cases holder with
  | none => exact Iff.rfl
  | some p => rw [View, if_neg fun h => hne p rfl h.symm]

theorem holder_of_not_bystanding (h : View holder k call unit) (hcall : ¬ Bystanding call) :
    ∃ c, holder = some (k, c) ∧ Holding c call unit := by
  by_cases hk : ∃ c, holder = some (k, c)
  · obtain ⟨c, rfl⟩ := hk
    exact ⟨c, rfl, (view_self c).mp h⟩
  · rw [view_of_ne] at h
    · exact absurd h.1 hcall
    · rintro ⟨x, c⟩ hp rfl
      exact hk ⟨c, hp⟩

theorem unit_of_holding {c d : Connection} (h : Holding c call (some d)) : d = c := by
  cases call <;> simp_all [Holding]

theorem holder_of_unit {d : Connection} (h : View holder k call (some d)) :
    holder = some (k, d) ∧ Holding d call (some d) := by
  by_cases hk : ∃ c, holder = some (k, c)
  · obtain ⟨c, rfl⟩ := hk
    rw [view_self] at h
    obtain rfl := unit_of_holding h
    exact ⟨rfl, h⟩
  · rw [view_of_ne] at h
    · exact absurd h.2 (Option.some_ne_none d)
    · rintro ⟨x, c⟩ hp rfl
      exact hk ⟨c, hp⟩

/-- The slot passes between nobody and one coroutine, or stays. -/
def Passes (k : K) (holder holder' : Option (K × Connection)) : Prop :=
  holder' = holder ∨ (∀ p ∈ holder, p.1 = k) ∧ ∀ p ∈ holder', p.1 = k

theorem Passes.other (h : Passes k holder holder') (hne : k' ≠ k) (hview : View holder k' call unit) :
    View holder' k' call unit := by
  rcases h with rfl | ⟨hold, hnew⟩
  · exact hview
  · rw [view_of_ne fun p hp heq => hne (heq.symm.trans (hold p hp))] at hview
    rwa [view_of_ne fun p hp heq => hne (heq.symm.trans (hnew p hp))]

end Views

section Moves
variable {s s' : Database K} {holder holder' : Option (K × Connection)} {k : K} {call : Call}
  {unit : Option Connection}

/-- What each coroutine owes after one of them has gone on. -/
def owesAfter (s : Database K) (k : K) (call : Call) (unit : Option Connection) (x : K) (c : Connection) :
    Prop :=
  owesOf (Function.update s.call k call x) (Function.update s.unit k unit x) c

theorem owesAfter_iff (x : K) (c : Connection) : s.owesAfter k call unit x c ↔
    if x = k then owesOf call unit c else owesOf (s.call x) (s.unit x) c := by
  rw [owesAfter]
  by_cases hx : x = k
  · rw [if_pos hx, hx, Function.update_self, Function.update_self]
  · rw [if_neg hx, Function.update_of_ne hx, Function.update_of_ne hx]

/-- One coroutine goes on, and the accounts are right. -/
theorem Inv.move (h : Inv s holder) (hcall : s'.call = Function.update s.call k call)
    (hunit : s'.unit = Function.update s.unit k unit) (hpass : Passes k holder holder')
    (hslot : s'.transactionConnection = holder'.map Prod.snd) (hview : View holder' k call unit)
    (haccount : Leases.Account (s.owesAfter k call unit) s'.taken s'.released)
    (hown : ∀ p ∈ s'.statements, ∀ c ∈ p.1, p.2 = c) : Inv s' holder' where
  slot := hslot
  view := by
    intro x
    rw [hcall, hunit]
    by_cases hx : x = k
    · subst hx
      rw [Function.update_self, Function.update_self]
      exact hview
    · rw [Function.update_of_ne hx, Function.update_of_ne hx]
      exact hpass.other hx (h.view x)
  account := by
    rw [hcall, hunit]
    exact haccount
  own := hown

theorem account_same (h : Inv s holder) (howes : ∀ c, owesOf call unit c ↔ owesOf (s.call k) (s.unit k) c) :
    Leases.Account (s.owesAfter k call unit) s.taken s.released := by
  apply h.account.congr
  intro x c
  rw [owesAfter_iff]
  split
  · rename_i hx
    rw [howes, hx]
  · exact Iff.rfl

theorem account_take (h : Inv s holder)
    (howes : ∀ c, owesOf call unit c ↔ owesOf (s.call k) (s.unit k) c ∨ c = s.taken) :
    Leases.Account (s.owesAfter k call unit) (s.taken + 1) s.released := by
  apply h.account.take k
  intro x c
  rw [owesAfter_iff]
  split
  · rename_i hx
    subst hx
    rw [howes]
    simp
  · rename_i hx
    simp [hx]

theorem account_giveBack (h : Inv s holder) {thing : Connection}
    (hthing : owesOf (s.call k) (s.unit k) thing)
    (howes : ∀ c, owesOf call unit c ↔ owesOf (s.call k) (s.unit k) c ∧ c ≠ thing) :
    Leases.Account (s.owesAfter k call unit) s.taken
      (Function.update s.released thing (s.released thing + 1)) := by
  apply h.account.giveBack hthing
  intro x c
  rw [owesAfter_iff]
  split
  · rename_i hx
    rw [howes, hx]
  · rename_i hx
    refine ⟨fun hc => ⟨hc, ?_⟩, fun hc => hc.1⟩
    rintro rfl
    exact hx (h.account.alone x k c hc hthing)

theorem not_owes_idle (d : Connection) : ¬ owesOf .idle none d := by
  rintro (h | h) <;> cases h

/-- A coroutine awaits another thing and owes the same. -/
theorem Inv.enter (h : Inv s holder) (hview : View holder k call (s.unit k))
    (howes : ∀ c, owesOf call (s.unit k) c ↔ owesOf (s.call k) (s.unit k) c) :
    Inv (s.enter k call) holder := by
  have hunit : (s.enter k call).unit = Function.update s.unit k (s.unit k) :=
    (Function.update_eq_self k s.unit).symm
  exact h.move rfl hunit (.inl rfl) h.slot hview (account_same h howes) h.own

/-- A commit or rollback is over where there was no unit. -/
theorem Inv.finish_none (h : Inv s holder) (hslot : s.transactionConnection = none)
    (hidle : s.call k = .idle) : Inv (s.finish k) holder := by
  have hholder : holder = none := by
    rw [h.slot, Option.map_eq_none_iff] at hslot
    exact hslot
  subst hholder
  have hunit : s.unit k = none := (h.view k).2
  exact h.move rfl rfl (.inl rfl) h.slot ⟨trivial, rfl⟩ (account_same h (by simp [hidle, hunit])) h.own

/-- The connection goes back and the slot is cleared; the coroutine awaits nothing more. -/
theorem Inv.endUnit {c : Connection} (h : Inv s (some (k, c)))
    (howed : ∀ d, owesOf (s.call k) (s.unit k) d ↔ d = c) (s' : Database K)
    (hcall : s'.call = Function.update s.call k .idle) (hunit : s'.unit = Function.update s.unit k none)
    (hslot : s'.transactionConnection = none) (htaken : s'.taken = s.taken)
    (hreleased : s'.released = Function.update s.released c (s.released c + 1))
    (hstatements : s'.statements = s.statements) : Inv s' none := by
  have howes : ∀ d, owesOf .idle none d ↔ owesOf (s.call k) (s.unit k) d ∧ d ≠ c := by
    intro d
    rw [howed]
    exact ⟨fun hd => (not_owes_idle d hd).elim, fun hd => absurd hd.1 hd.2⟩
  refine h.move hcall hunit (.inr ⟨?_, nofun⟩) hslot ⟨trivial, rfl⟩ ?_ (hstatements ▸ h.own)
  · rintro p hp
    rw [← Option.some.inj hp]
  · rw [htaken, hreleased]
    exact account_giveBack h ((howed c).mpr rfl) howes

/-- A statement of a coroutine on a connection that it began on, if it has a unit. -/
theorem Inv.note {c : Connection} (h : Inv s holder) (hc : ∀ d ∈ s.unit k, c = d) :
    Inv (s.note k c) holder where
  slot := h.slot
  view := h.view
  account := h.account
  own := by
    intro p hp
    rcases List.mem_append.mp hp with hp | hp
    · exact h.own p hp
    · rw [List.mem_singleton.mp hp]
      exact hc

end Moves

/-! ### Every step -/

section Steps
variable {s : Database K} {holder : Option (K × Connection)} {k : K}

theorem Inv.slot_none (h : Inv s holder) (hslot : s.transactionConnection = none) : holder = none := by
  rw [h.slot, Option.map_eq_none_iff] at hslot
  exact hslot

theorem Inv.of_unit (h : Inv s holder) {c : Connection} (hunit : s.unit k = some c) :
    holder = some (k, c) ∧ Holding c (s.call k) (some c) := by
  have hview := h.view k
  rw [hunit] at hview
  exact holder_of_unit hview

theorem view_query (c : Connection) {unit : Option Connection} (h : View holder k .idle unit) :
    View holder k (.querying c true) unit := by
  cases holder with
  | none => exact ⟨trivial, h.2⟩
  | some p =>
    rw [View] at h ⊢
    split
    · rename_i hk
      rw [if_pos hk] at h
      exact ⟨rfl, h⟩
    · rename_i hk
      rw [if_neg hk] at h
      exact ⟨trivial, h.2⟩

/-- The caller of a commit or rollback on an open connection has its unit there. -/
theorem Inv.own_unit (h : Inv s holder) {c : Connection} (hslot : s.transactionConnection = some c)
    (hok : s.transactionConnection = none ∨ (s.unit k).isSome) :
    holder = some (k, c) ∧ s.unit k = some c := by
  rcases hok with hnone | hunit
  · rw [hslot] at hnone
    cases hnone
  · obtain ⟨d, hd⟩ := Option.isSome_iff_exists.mp hunit
    have hholder := (h.of_unit hd).1
    rw [h.slot, hholder] at hslot
    obtain rfl := Option.some.inj hslot
    exact ⟨hholder, hd⟩

theorem Inv.issue (h : Inv s holder) (hidle : s.call k = .idle) (action : Action)
    (hok : s.Orderly ⟨k, action⟩) : ∃ holder', Inv (s.issue k action) holder' := by
  cases action with
  | resolves => exact ⟨holder, h⟩
  | rejects => exact ⟨holder, h⟩
  | beginTransaction =>
    refine ⟨holder, ?_⟩
    rw [Database.issue]
    split
    · exact h
    · rename_i hslot
      have hholder := h.slot_none (by simpa using hslot)
      subst hholder
      refine h.enter ⟨trivial, (h.view k).2⟩ ?_
      simp [owesOf, owedCall, hidle]
  | doQuery =>
    refine ⟨holder, ?_⟩
    rw [Database.issue]
    split
    · rename_i hslot
      have hholder := h.slot_none hslot
      subst hholder
      refine h.enter ⟨trivial, (h.view k).2⟩ ?_
      simp [owesOf, owedCall, hidle]
    · rename_i c hslot
      have hnote : Inv (s.note k c) holder := by
        apply h.note
        intro d hd
        rw [h.slot, (h.of_unit hd).1] at hslot
        exact (Option.some.inj hslot).symm
      have hview := h.view k
      rw [hidle] at hview
      refine hnote.enter (view_query c hview) ?_
      simp [owesOf, owedCall, Database.note, hidle]
  | commitTransaction =>
    refine ⟨holder, ?_⟩
    rw [Database.issue]
    split
    · rename_i hslot
      exact h.finish_none hslot hidle
    · rename_i c hslot
      obtain ⟨rfl, hunit⟩ := h.own_unit hslot hok
      refine h.enter ((view_self c).mpr ⟨rfl, hunit⟩) ?_
      simp [owesOf, owedCall, hidle]
  | rollbackTransaction =>
    refine ⟨holder, ?_⟩
    rw [Database.issue]
    split
    · rename_i hslot
      exact h.finish_none hslot hidle
    · rename_i c hslot
      obtain ⟨rfl, hunit⟩ := h.own_unit hslot hok
      refine h.enter ((view_self c).mpr ⟨rfl, hunit⟩) ?_
      simp [owesOf, owedCall, hidle]

/-- A coroutine that awaits nothing of the slot has no unit and may await any such thing. -/
theorem view_stand {call : Call} {unit : Option Connection} (h : View holder k call unit)
    (hcall : ∀ c u, ¬ Holding c call u) :
    unit = none ∧ ∀ call', Bystanding call' → View holder k call' unit := by
  cases holder with
  | none => exact ⟨h.2, fun call' hcall' => ⟨hcall', h.2⟩⟩
  | some p =>
    rw [View] at h
    split at h
    · exact absurd h (hcall _ _)
    · rename_i hk
      refine ⟨h.2, fun call' hcall' => ?_⟩
      rw [View, if_neg hk]
      exact ⟨hcall', h.2⟩

theorem view_idle {c : Connection} {unit : Option Connection} (h : View holder k (.querying c true) unit) :
    View holder k .idle unit := by
  cases holder with
  | none => exact ⟨trivial, h.2⟩
  | some p =>
    rw [View] at h ⊢
    split
    · rename_i hk
      rw [if_pos hk] at h
      exact h.2
    · rename_i hk
      rw [if_neg hk] at h
      exact ⟨trivial, h.2⟩

/-- What a coroutine knows that awaits something on the slot's connection. -/
theorem Inv.holding (h : Inv s holder) {call : Call} (hcall : s.call k = call)
    (hstand : ¬ Bystanding call) : ∃ c, holder = some (k, c) ∧ s.transactionConnection = some c ∧
      Holding c call (s.unit k) := by
  have hview := h.view k
  rw [hcall] at hview
  obtain ⟨c, hholder, hholding⟩ := holder_of_not_bystanding hview hstand
  refine ⟨c, hholder, ?_, hholding⟩
  rw [h.slot, hholder]
  rfl

theorem Inv.catchCommit (h : Inv s holder) {c : Connection} (hslot : s.transactionConnection = some c)
    (hunit : s.unit k = some c) (howes : ∀ d, owesOf (s.call k) (some c) d ↔ some c = some d) :
    ∃ holder', Inv (s.catchCommit k) holder' := by
  have hholder := (h.of_unit hunit).1
  subst hholder
  refine ⟨some (k, c), ?_⟩
  rw [Database.catchCommit, hslot]
  refine h.enter ((view_self c).mpr ⟨rfl, hunit⟩) ?_
  intro d
  rw [hunit, howes]
  simp [owesOf, owedCall]

theorem Inv.settle (h : Inv s holder) (ok : Bool)
    (hok : s.Orderly ⟨k, if ok then .resolves else .rejects⟩) :
    ∃ holder', Inv (s.settle k ok (s.call k)) holder' := by
  have hlast : ok = false → (s.call k).lastRelease = false := by
    rintro rfl
    exact hok
  cases hcall : s.call k with
  | idle => exact ⟨holder, h⟩
  | beginAcquiring =>
    cases ok with
    | false =>
      have hview := h.view k
      rw [hcall] at hview
      refine ⟨holder, h.enter ((view_stand hview fun _ _ => id).2 _ trivial) ?_⟩
      simp [owesOf, owedCall, hcall]
    | true =>
      have hslot := hok hcall
      have hholder := h.slot_none hslot
      subst hholder
      have hunit : s.unit k = none := (h.view k).2
      refine ⟨some (k, s.taken), ?_⟩
      have hupdate : s.unit = Function.update s.unit k (s.unit k) := (Function.update_eq_self k s.unit).symm
      refine h.move (k := k) rfl hupdate (.inr ⟨nofun, ?_⟩) rfl ((view_self _).mpr ⟨rfl, hunit⟩) ?_ h.own
      · rintro p hp
        rw [← Option.some.inj hp]
      · apply account_take h
        intro c
        simp [owesOf, owedCall, hcall, hunit, eq_comm]
  | beginStarting c =>
    obtain ⟨d, rfl, hslot, rfl, hunit⟩ := h.holding hcall id
    cases ok with
    | false =>
      refine ⟨some (k, c), ?_⟩
      rw [Database.settle, if_neg Bool.false_ne_true, hslot]
      refine h.enter ((view_self c).mpr ⟨rfl, hunit⟩) ?_
      simp [owesOf, owedCall, hcall]
    | true =>
      refine ⟨some (k, c), ?_⟩
      refine h.move (k := k) rfl rfl (.inl rfl) h.slot ((view_self c).mpr rfl) ?_ h.own
      apply account_same h
      intro d
      simp [owesOf, owedCall, hcall, hunit]
  | beginReleasing c =>
    obtain ⟨d, rfl, hslot, rfl, hunit⟩ := h.holding hcall id
    cases ok with
    | false =>
      rw [hcall] at hlast
      cases hlast rfl
    | true =>
      refine ⟨none, h.endUnit ?_ _ rfl ?_ rfl rfl rfl rfl⟩
      · intro d
        simp [owesOf, owedCall, hcall, hunit, eq_comm]
      · have hupdate := Function.update_eq_self k s.unit
        rw [hunit] at hupdate
        exact hupdate.symm
  | committing c =>
    obtain ⟨d, rfl, hslot, rfl, hunit⟩ := h.holding hcall id
    have howes : ∀ d, owesOf (s.call k) (some c) d ↔ some c = some d := by
      simp [owesOf, owedCall, hcall]
    cases ok with
    | false => exact h.catchCommit hslot hunit howes
    | true =>
      refine ⟨some (k, c), ?_⟩
      rw [Database.settle, if_pos rfl, hslot]
      refine h.enter ((view_self c).mpr ⟨rfl, hunit⟩) ?_
      simp [owesOf, owedCall, hcall]
  | commitReleasing c =>
    obtain ⟨d, rfl, hslot, rfl, hunit⟩ := h.holding hcall id
    cases ok with
    | false =>
      apply h.catchCommit hslot hunit
      simp [owesOf, owedCall, hcall]
    | true =>
      refine ⟨none, h.endUnit ?_ _ rfl rfl rfl rfl rfl rfl⟩
      intro d
      simp [owesOf, owedCall, hcall, hunit, eq_comm]
  | rollingBack c =>
    obtain ⟨d, rfl, hslot, rfl, hunit⟩ := h.holding hcall id
    refine ⟨some (k, c), ?_⟩
    rw [Database.settle, hslot]
    refine h.enter ((view_self c).mpr ⟨rfl, hunit⟩) ?_
    simp [owesOf, owedCall, hcall]
  | finallyReleasing c =>
    obtain ⟨d, rfl, hslot, rfl, hunit⟩ := h.holding hcall id
    cases ok with
    | false =>
      rw [hcall] at hlast
      cases hlast rfl
    | true =>
      refine ⟨none, h.endUnit ?_ _ rfl rfl rfl rfl rfl rfl⟩
      intro d
      simp [owesOf, owedCall, hcall, hunit, eq_comm]
  | queryAcquiring =>
    have hview := h.view k
    rw [hcall] at hview
    obtain ⟨hunit, hstand⟩ := view_stand hview fun _ _ => id
    cases ok with
    | false =>
      refine ⟨holder, h.enter (hstand _ trivial) ?_⟩
      simp [owesOf, owedCall, hcall]
    | true =>
      have hnote : Inv (s.note k s.taken) holder := by
        apply h.note
        rw [hunit]
        exact nofun
      have hupdate : s.unit = Function.update s.unit k (s.unit k) := (Function.update_eq_self k s.unit).symm
      refine ⟨holder, hnote.move (k := k) rfl hupdate (.inl rfl) h.slot (hstand _ trivial) ?_ hnote.own⟩
      apply account_take h
      intro c
      simp [owesOf, owedCall, hcall, hunit, eq_comm]
  | querying c tx =>
    have hview := h.view k
    rw [hcall] at hview
    cases tx with
    | false =>
      obtain ⟨hunit, hstand⟩ := view_stand hview fun _ _ hholding => Bool.false_ne_true hholding.1
      refine ⟨holder, h.enter (hstand _ trivial) ?_⟩
      simp [owesOf, owedCall, hcall]
    | true =>
      refine ⟨holder, h.enter (view_idle hview) ?_⟩
      simp [owesOf, owedCall, hcall]
  | queryReleasing c =>
    have hview := h.view k
    rw [hcall] at hview
    obtain ⟨hunit, hstand⟩ := view_stand hview fun _ _ => id
    cases ok with
    | false =>
      rw [hcall] at hlast
      cases hlast rfl
    | true =>
      have hupdate : s.unit = Function.update s.unit k (s.unit k) := (Function.update_eq_self k s.unit).symm
      refine ⟨holder, h.move (k := k) rfl hupdate (.inl rfl) h.slot (hstand _ trivial) ?_ h.own⟩
      apply account_giveBack h (.inl (by rw [hcall]; rfl))
      intro d
      simp [owesOf, owedCall, hcall, hunit, eq_comm]

theorem Inv.step (h : Inv s holder) (e : Event K) (hok : s.Orderly e) : ∃ holder', Inv (s.step e) holder' := by
  obtain ⟨k, action⟩ := e
  have hcalls (hplain : action ≠ .resolves ∧ action ≠ .rejects) : ∃ holder',
      Inv (if s.call k = .idle then s.issue k action else s) holder' := by
    split
    · rename_i hidle
      exact h.issue hidle action hok
    · exact ⟨holder, h⟩
  cases action with
  | resolves => exact h.settle true hok
  | rejects => exact h.settle false hok
  | beginTransaction => exact hcalls ⟨nofun, nofun⟩
  | commitTransaction => exact hcalls ⟨nofun, nofun⟩
  | rollbackTransaction => exact hcalls ⟨nofun, nofun⟩
  | doQuery => exact hcalls ⟨nofun, nofun⟩

theorem Inv.honest (h : Inv s holder) : s.Honest where
  one := by
    intro k k' c c' hk hk'
    have heq := (h.of_unit hk).1.symm.trans (h.of_unit hk').1
    exact (Prod.mk.inj (Option.some.inj heq)).1
  refuses := by
    intro k c hk
    obtain ⟨hholder, -⟩ := h.of_unit hk
    refine ⟨?_, ?_⟩
    · rw [h.slot, hholder]
      exact Option.some_ne_none c
    · intro k' d hstarting
      obtain ⟨c', hholder', -, hholding⟩ := h.holding hstarting id
      obtain ⟨rfl, -⟩ := Prod.mk.inj (Option.some.inj (hholder.symm.trans hholder'))
      rw [hholding.2] at hk
      cases hk
  own := h.own
  once := h.account.returned_le_one
  all := by
    intro hsettled c hc
    apply h.account.settled c hc
    intro k howes
    rw [(hsettled k).1, (hsettled k).2] at howes
    exact not_owes_idle c howes

theorem Inv.start : Inv (Database.start : Database K) none where
  slot := rfl
  view := fun _ => ⟨trivial, rfl⟩
  account := by
    apply Leases.Account.initial.congr
    intro x c
    exact iff_of_false (not_owes_idle c) id
  own := nofun

end Steps

/-- Whatever coroutines call and whatever they are answered: where no begin is answered by the pool
while the slot is taken, nobody ends another's transaction and no release fails but the one after a
commit, there is at most one transaction in every state. -/
theorem at_most_one_transaction {s : Database K}
    (h : Runs.Run (fun s e t => t = Database.step s e) Orderly Database.start s) : s.Honest := by
  have hinv : ∃ holder, Inv s holder := by
    refine h.invariant (I := fun t => ∃ holder, Inv t holder) ⟨none, Inv.start⟩ ?_
    rintro t e u ⟨holder, ht⟩ hok rfl
    exact ht.step e hok
  obtain ⟨holder, hinv⟩ := hinv
  exact hinv.honest

end Database

def call (k : Nat) (action : Action) : Event Nat := ⟨k, action⟩

/-- Two begins that both wait for the pool. -/
def twoBegins : List (Event Nat) :=
  [call 0 .beginTransaction, call 1 .beginTransaction, call 0 .resolves, call 1 .resolves,
    call 0 .resolves, call 1 .resolves]

theorem two_transactions_after_two_begins :
    ¬ (Runs.runAll Database.step Database.start twoBegins).Honest := by
  intro h
  have hfirst : (Runs.runAll Database.step Database.start twoBegins).unit 0 = some 0 := by decide
  have hsecond : (Runs.runAll Database.step Database.start twoBegins).unit 1 = some 1 := by decide
  exact absurd (h.one 0 1 0 1 hfirst hsecond) (by decide)

/-- A unit of one coroutine, with a statement in it, while another is refused. -/
def oneUnit : List (Event Nat) :=
  [call 0 .beginTransaction, call 0 .resolves, call 0 .resolves, call 1 .beginTransaction,
    call 0 .doQuery, call 0 .resolves, call 0 .commitTransaction, call 0 .resolves, call 0 .rejects,
    call 0 .resolves, call 0 .resolves]

theorem one_transaction_in_one_unit :
    (Runs.runAll Database.step Database.start oneUnit).Honest ∧
      (Runs.runAll Database.step Database.start oneUnit).transactionConnection = none ∧
      (Runs.runAll Database.step Database.start oneUnit).released 0 = 1 :=
  ⟨Database.at_most_one_transaction (Runs.run_okAll (by decide)), by decide, by decide⟩

end XChainSync.TransactionSlot
