import Mathlib
import XChainSync.Library.Runs

/-!
# The circuit breaker of the connection pool

Callers of `acquirePoolConnection` retry side by side and share the breaker: an attempt of one counts
for all. A call is turned away just while the cooldown of a failure runs that was the tenth in a row.
-/

namespace XChainSync.Database
open Runs (Run)
set_option autoImplicit false

inductive CircuitState where
  | closed
  | open
  | halfOpen
  deriving DecidableEq, Repr

def circuitThreshold : Nat := 10
def circuitCooldown : Int := 30000
def maxAttempts : Nat := 30
def baseDelay : Nat := 500
def maxDelay : Nat := 15000

/-- One call, from its admission to its end. -/
inductive Caller where
  | idle
  /-- Before the answer of the pool, after so many failed attempts. -/
  | trying (attempts : Nat)
  | sleeping (attempts : Nat) (wakesAt : Int)
  | connected
  | threw (message : String)
  deriving DecidableEq, Repr

inductive Attempt where
  | connected (now : Int)
  | failed (now : Int)
  deriving DecidableEq, Repr

structure Pool where
  circuitState : CircuitState
  circuitFailures : Nat
  circuitOpenUntil : Int
  callers : Nat → Caller
  now : Int
  /-- Every attempt of any caller, newest first. -/
  attempts : List Attempt

inductive PoolEvent where
  | call (c : Nat)
  | connect (c : Nat)
  /-- With what `Math.random` makes of the jitter. -/
  | fail (c : Nat) (jitter : Nat)
  | wake (c : Nat)
  | wait (ms : Nat)

def rejected : Caller :=
  .threw "Circuit breaker open: database connections rejected until cooldown expires"

def retryDelay (attempts jitter : Nat) : Int :=
  let delay := min (baseDelay * 2 ^ (attempts - 1)) maxDelay
  (delay + min jitter (delay * 3 / 10) : Nat)

namespace Pool

def start (now : Int) : Pool := ⟨.closed, 0, 0, fun _ => .idle, now, []⟩

def setCaller (s : Pool) (c : Nat) (caller : Caller) : Pool :=
  { s with callers := Function.update s.callers c caller }

/-- The check before the first attempt. -/
def call (s : Pool) (c : Nat) : Pool :=
  if s.circuitState = .open then
    if s.now < s.circuitOpenUntil then s.setCaller c rejected
    else { s.setCaller c (.trying 0) with circuitState := .halfOpen }
  else s.setCaller c (.trying 0)

def connect (s : Pool) (c : Nat) : Pool :=
  { s.setCaller c .connected with
    circuitState := if s.circuitState = .halfOpen then .closed else s.circuitState
    circuitFailures := 0
    attempts := .connected s.now :: s.attempts }

def fail (s : Pool) (c attempts jitter : Nat) : Pool :=
  let failures := s.circuitFailures + 1
  let s := { s with circuitFailures := failures, attempts := .failed s.now :: s.attempts }
  if circuitThreshold ≤ failures then
    { s.setCaller c (.threw ("Circuit breaker opened after " ++ toString failures ++
        " consecutive failures")) with
      circuitState := .open
      circuitOpenUntil := s.now + circuitCooldown }
  else if maxAttempts ≤ attempts + 1 then
    s.setCaller c (.threw ("Could not connect to MariaDB after " ++ toString maxAttempts ++
      " attempts"))
  else s.setCaller c (.sleeping (attempts + 1) (s.now + retryDelay (attempts + 1) jitter))

def next (s : Pool) : PoolEvent → Pool
  | .call c =>
    match s.callers c with
    | .trying _ => s
    | .sleeping _ _ => s
    | _ => s.call c
  | .connect c =>
    match s.callers c with
    | .trying _ => s.connect c
    | _ => s
  | .fail c jitter =>
    match s.callers c with
    | .trying attempts => s.fail c attempts jitter
    | _ => s
  | .wake c =>
    match s.callers c with
    | .sleeping attempts wakesAt => if wakesAt ≤ s.now then s.setCaller c (.trying attempts) else s
    | _ => s
  | .wait ms => { s with now := s.now + ms }

end Pool

/-! ### Failures in a row -/

/-- The failures since the last connection. -/
def failuresInRow : List Attempt → Nat
  | .failed _ :: earlier => failuresInRow earlier + 1
  | _ => 0

/-- At `t` an attempt failed that was the tenth in a row or a later one. -/
def TrippedAt (attempts : List Attempt) (t : Int) : Prop :=
  ∃ later earlier, attempts = later ++ .failed t :: earlier ∧
    circuitThreshold ≤ failuresInRow (.failed t :: earlier)

theorem trippedAt_cons {a : Attempt} {attempts : List Attempt} {t : Int} :
    TrippedAt (a :: attempts) t ↔
      (a = .failed t ∧ circuitThreshold ≤ failuresInRow (a :: attempts)) ∨ TrippedAt attempts t := by
  constructor
  · rintro ⟨later, earlier, heq, hlong⟩
    cases later with
    | nil =>
      obtain ⟨rfl, rfl⟩ := List.cons.inj heq
      exact .inl ⟨rfl, hlong⟩
    | cons b later =>
      obtain ⟨rfl, rfl⟩ := List.cons.inj heq
      exact .inr ⟨later, earlier, rfl, hlong⟩
  · rintro (⟨rfl, hlong⟩ | ⟨later, earlier, rfl, hlong⟩)
    · exact ⟨[], attempts, rfl, hlong⟩
    · exact ⟨a :: later, earlier, rfl, hlong⟩

theorem trippedAt_connected {attempts : List Attempt} {t now : Int} :
    TrippedAt (.connected now :: attempts) t ↔ TrippedAt attempts t := by
  simp [trippedAt_cons]

/-! ### The invariant -/

structure Pool.Kept (s : Pool) : Prop where
  failures : s.circuitFailures = failuresInRow s.attempts
  closed : s.circuitState = .closed → s.circuitFailures < circuitThreshold
  past : ∀ t, TrippedAt s.attempts t → t ≤ s.now
  tripped : s.circuitState = .open → ∃ t, TrippedAt s.attempts t ∧
    s.circuitOpenUntil = t + circuitCooldown ∧ ∀ t', TrippedAt s.attempts t' → t' ≤ t
  cooled : s.circuitState ≠ .open → ∀ t, TrippedAt s.attempts t → t + circuitCooldown ≤ s.now
  bounded : ∀ c attempts, (s.callers c = .trying attempts ∨ ∃ t, s.callers c = .sleeping attempts t) →
    attempts < maxAttempts

namespace Pool
variable {s s' : Pool}

theorem kept_start (now : Int) : (start now).Kept where
  failures := rfl
  closed _ := (by decide : 0 < circuitThreshold)
  past t h := by
    obtain ⟨later, earlier, heq, -⟩ := h
    simp [start] at heq
  tripped h := by cases h
  cooled _ t h := by
    obtain ⟨later, earlier, heq, -⟩ := h
    simp [start] at heq
  bounded c attempts h := by
    rcases h with h | ⟨t, h⟩ <;> cases h

/-- What a step leaves of a caller's count. -/
theorem bounded_setCaller {c : Nat} {caller : Caller}
    (h : ∀ c attempts, (s.callers c = .trying attempts ∨ ∃ t, s.callers c = .sleeping attempts t) →
      attempts < maxAttempts)
    (hcaller : ∀ attempts, (caller = .trying attempts ∨ ∃ t, caller = .sleeping attempts t) →
      attempts < maxAttempts) (c' attempts : Nat)
    (hc' : (s.setCaller c caller).callers c' = .trying attempts ∨
      ∃ t, (s.setCaller c caller).callers c' = .sleeping attempts t) : attempts < maxAttempts := by
  by_cases heq : c' = c
  · subst heq
    simp only [setCaller, Function.update_self] at hc'
    exact hcaller attempts hc'
  · simp only [setCaller, Function.update_of_ne heq] at hc'
    exact h c' attempts hc'

theorem bounded_zero (attempts : Nat)
    (h : Caller.trying 0 = .trying attempts ∨ ∃ t, Caller.trying 0 = .sleeping attempts t) :
    attempts < maxAttempts := by
  rcases h with h | ⟨t, h⟩
  · obtain rfl := Caller.trying.inj h
    decide
  · cases h

theorem Kept.call (h : s.Kept) (c : Nat) : (s.call c).Kept := by
  unfold Pool.call
  split
  · rename_i hopen
    split
    · exact ⟨h.failures, h.closed, h.past, h.tripped, h.cooled, bounded_setCaller h.bounded
        fun attempts hc => by rcases hc with hc | ⟨t, hc⟩ <;> cases hc⟩
    · rename_i hexpired
      obtain ⟨t, -, huntil, hlast⟩ := h.tripped hopen
      refine ⟨h.failures, fun hc => (by cases hc), h.past, fun hc => (by cases hc), fun _ t' ht' => ?_,
        bounded_setCaller h.bounded bounded_zero⟩
      have := hlast t' ht'
      show t' + circuitCooldown ≤ s.now
      omega
  · exact ⟨h.failures, h.closed, h.past, h.tripped, h.cooled,
      bounded_setCaller h.bounded bounded_zero⟩

theorem Kept.connect (h : s.Kept) (c : Nat) : (s.connect c).Kept := by
  refine ⟨rfl, fun _ => (by decide : 0 < circuitThreshold), fun t ht => ?_, fun hopen => ?_,
    fun hnot t ht => ?_, bounded_setCaller h.bounded fun attempts hc => by
      rcases hc with hc | ⟨t, hc⟩ <;> cases hc⟩
  · exact h.past t (trippedAt_connected.mp ht)
  · have hs : s.circuitState = .open := by
      simp only [Pool.connect] at hopen
      split at hopen
      · cases hopen
      · exact hopen
    obtain ⟨t, ht, huntil, hlast⟩ := h.tripped hs
    exact ⟨t, trippedAt_connected.mpr ht, huntil, fun t' ht' => hlast t' (trippedAt_connected.mp ht')⟩
  · have hs : s.circuitState ≠ .open := by
      intro heq
      simp [Pool.connect, heq] at hnot
    exact h.cooled hs t (trippedAt_connected.mp ht)

theorem Kept.fail (h : s.Kept) (c attempts jitter : Nat) :
    (s.fail c attempts jitter).Kept := by
  have hrow : s.circuitFailures + 1 = failuresInRow (.failed s.now :: s.attempts) := by
    rw [failuresInRow, h.failures]
  unfold Pool.fail
  dsimp only
  split
  · rename_i htrips
    have hnow : TrippedAt (.failed s.now :: s.attempts) s.now :=
      trippedAt_cons.mpr (.inl ⟨rfl, hrow ▸ htrips⟩)
    have hpast : ∀ t, TrippedAt (.failed s.now :: s.attempts) t → t ≤ s.now := by
      intro t ht
      rcases trippedAt_cons.mp ht with ⟨heq, -⟩ | ht
      · obtain rfl := Attempt.failed.inj heq
        exact Int.le_refl _
      · exact h.past t ht
    exact ⟨hrow, fun hc => (by cases hc), hpast, fun _ => ⟨s.now, hnow, rfl, hpast⟩,
      fun hc => absurd rfl hc, bounded_setCaller h.bounded fun attempts hc => by
        rcases hc with hc | ⟨t, hc⟩ <;> cases hc⟩
  · rename_i hbelow
    have hsame : ∀ t, TrippedAt (.failed s.now :: s.attempts) t ↔ TrippedAt s.attempts t := by
      intro t
      rw [trippedAt_cons, ← hrow]
      exact ⟨fun ht => ht.resolve_left fun h => hbelow h.2, .inr⟩
    have hstate : ∀ caller : Caller, (∀ attempts, (caller = .trying attempts ∨
        ∃ t, caller = .sleeping attempts t) → attempts < maxAttempts) →
        (({ s with
          circuitFailures := s.circuitFailures + 1
          attempts := .failed s.now :: s.attempts } : Pool).setCaller c caller).Kept := by
      intro caller hcaller
      refine ⟨hrow, fun _ => Nat.lt_of_not_le hbelow, fun t ht => h.past t ((hsame t).mp ht),
        fun hopen => ?_, fun hnot t ht => h.cooled hnot t ((hsame t).mp ht),
        bounded_setCaller h.bounded hcaller⟩
      obtain ⟨t, ht, huntil, hlast⟩ := h.tripped hopen
      exact ⟨t, (hsame t).mpr ht, huntil, fun t' ht' => hlast t' ((hsame t').mp ht')⟩
    split
    · exact hstate _ fun attempts hc => by rcases hc with hc | ⟨t, hc⟩ <;> cases hc
    · rename_i hmore
      refine hstate _ fun attempts' hc => ?_
      rcases hc with hc | ⟨t, hc⟩
      · cases hc
      · obtain ⟨rfl, -⟩ := Caller.sleeping.inj hc
        omega

theorem Kept.next (h : s.Kept) (e : PoolEvent) : (s.next e).Kept := by
  cases e with
  | call c =>
    simp only [Pool.next]
    split
    · exact h
    · exact h
    · exact h.call c
  | connect c =>
    simp only [Pool.next]
    split
    · exact h.connect c
    · exact h
  | fail c jitter =>
    simp only [Pool.next]
    split
    · exact h.fail c _ jitter
    · exact h
  | wake c =>
    simp only [Pool.next]
    split
    · rename_i attempts wakesAt hc
      split
      · refine ⟨h.failures, h.closed, h.past, h.tripped, h.cooled, bounded_setCaller h.bounded
          fun attempts' hc' => ?_⟩
        rcases hc' with hc' | ⟨t, hc'⟩
        · obtain rfl := Caller.trying.inj hc'
          exact h.bounded c attempts (.inr ⟨wakesAt, hc⟩)
        · cases hc'
      · exact h
    · exact h
  | wait ms =>
    have hle : s.now ≤ s.now + ms := by omega
    exact ⟨h.failures, h.closed, fun t ht => Int.le_trans (h.past t ht) hle, h.tripped,
      fun hnot t ht => Int.le_trans (h.cooled hnot t ht) hle, h.bounded⟩

/-- In every interleaving of callers, a call is turned away without an attempt just while the cooldown
runs of some attempt that was at least the tenth failure in a row over all callers; and no caller is
ever past its thirtieth attempt. -/
theorem call_rejected_iff_cooling {now : Int}
    (hrun : Run (fun s e s' => s' = s.next e) (fun _ _ => True) (start now) s) (c : Nat) :
    ((s.call c).callers c = rejected ↔
      ∃ t, TrippedAt s.attempts t ∧ s.now < t + circuitCooldown) ∧
    ∀ attempts, s.callers c = .trying attempts → attempts < maxAttempts := by
  have h : s.Kept := by
    refine hrun.invariant (kept_start now) ?_
    rintro s e s' h - rfl
    exact h.next e
  refine ⟨?_, fun attempts hc => h.bounded c attempts (.inl hc)⟩
  unfold Pool.call
  constructor
  · intro hrejected
    split at hrejected
    · rename_i hopen
      split at hrejected
      · rename_i hbefore
        obtain ⟨t, ht, huntil, -⟩ := h.tripped hopen
        exact ⟨t, ht, huntil ▸ hbefore⟩
      · simp [setCaller, rejected] at hrejected
    · simp [setCaller, rejected] at hrejected
  · rintro ⟨t, ht, hcooling⟩
    by_cases hopen : s.circuitState = .open
    · obtain ⟨t', -, huntil, hlast⟩ := h.tripped hopen
      have := hlast t ht
      rw [if_pos hopen, if_pos (by omega)]
      simp [setCaller]
    · have := h.cooled hopen t ht
      omega

/-- Two callers fail five times each in turn; while the breaker they opened cools down one of them is
turned away. -/
def fiveEach : List PoolEvent :=
  [.call 0, .call 1] ++ (List.replicate 5 [PoolEvent.fail 0 0, .fail 1 0, .wait 20000, .wake 0,
    .wake 1]).flatten

def afterFiveEach : Pool := Runs.runAll next (start 0) fiveEach

theorem five_each_open_the_breaker : (afterFiveEach.call 1).callers 1 = rejected ∧
    ∃ t, TrippedAt afterFiveEach.attempts t ∧ afterFiveEach.now < t + circuitCooldown :=
  ⟨by decide, (call_rejected_iff_cooling (Runs.run_okAll (by decide)) 1).1.mp (by decide)⟩

end Pool

end XChainSync.Database
