import Mathlib.Data.List.Basic

/-!
# Columns flipped in place under a block stamp

A request is resolved, a poll finalized, a feed latched or ended, a bet settled, a delegation
deactivated: each flip writes a stamp of the block it happened in next to the columns it changes, and
`rollbackIndexer` resets the rows whose stamp is orphaned. NULL is none.
-/

namespace XChainSync.Rollback
set_option autoImplicit false

/-- `stamp >= B`, which is not true of NULL. -/
def atOrAbove (b : Int) (stamp : Option Int) : Bool := stamp.any (b ≤ ·)

@[simp] theorem atOrAbove_none (b : Int) : atOrAbove b none = false := rfl

@[simp] theorem atOrAbove_some (b s : Int) : atOrAbove b (some s) = decide (b ≤ s) := rfl

/-- Stamped no later than `h`. -/
def stampedBy (h : Int) (stamp : Option Int) : Prop := ∀ s, stamp = some s → s ≤ h

theorem not_atOrAbove {h b : Int} {stamp : Option Int} (hs : stampedBy h stamp) (hb : h < b) :
    atOrAbove b stamp = false := by
  cases stamp with
  | none => rfl
  | some s =>
    have := hs s rfl
    simp only [atOrAbove_some, decide_eq_false_iff_not]
    omega

/-- A table of rows that are flipped in place: the reset of the rollback to a block, and what its
columns keep to at the end of a block. -/
structure InPlace (R : Type) where
  key : R → Int
  undo : Int → R → R
  Sound : Int → R → Prop
  undo_key : ∀ b r, key (undo b r) = key r
  undo_settled : ∀ h b r, Sound h r → h < b → undo b r = r
  sound_mono : ∀ h h' r, Sound h r → h ≤ h' → Sound h' r

/-- A flip at a height that every rollback to that height or below takes back. -/
def InPlace.IsFlip {R : Type} (t : InPlace R) (flip : Int → R → Option R) : Prop :=
  ∀ h r r', t.Sound h r → flip h r = some r' →
    t.key r' = t.key r ∧ t.Sound h r' ∧ ∀ b ≤ h, t.undo b r' = t.undo b r

/-! ### attests and xcalls -/

inductive RequestStatus where
  | pending
  | fulfilled
  | errored
  | expired
  | completed
  deriving DecidableEq, Repr

/-- An ATTEST v0 request. -/
structure Attest where
  action_index : Int
  request_status : RequestStatus
  resolved_block : Option Int
  deriving DecidableEq, Repr

def Attest.reset (b : Int) (r : Attest) : Attest :=
  if (r.request_status = .fulfilled || r.request_status = .errored ||
      r.request_status = .expired) && atOrAbove b r.resolved_block then
    { r with request_status := .pending, resolved_block := none }
  else r

/-- A response or an expiry resolves a pending request. -/
def Attest.resolve (status : RequestStatus) (h : Int) (r : Attest) : Option Attest :=
  if r.request_status = .pending && (status = .fulfilled || status = .errored || status = .expired)
  then some { r with request_status := status, resolved_block := some h } else none

def attests : InPlace Attest where
  key := Attest.action_index
  undo := Attest.reset
  Sound h r := stampedBy h r.resolved_block ∧
    (r.request_status = .pending → r.resolved_block = none)
  undo_key b r := by
    unfold Attest.reset
    split <;> rfl
  undo_settled h b r hr hb := by
    rw [Attest.reset, not_atOrAbove hr.1 hb]
    simp
  sound_mono h h' r hr hle := ⟨fun s hs => Int.le_trans (hr.1 s hs) hle, hr.2⟩

theorem attests_resolve (status : RequestStatus) : attests.IsFlip (Attest.resolve status) := by
  intro h r r' hr hflip
  unfold Attest.resolve at hflip
  split at hflip
  · rename_i hguard
    simp only [Bool.and_eq_true, decide_eq_true_eq, Bool.or_eq_true] at hguard
    obtain rfl := Option.some.inj hflip
    have hnone := hr.2 hguard.1
    obtain ⟨a, q, s⟩ := r
    obtain ⟨rfl, hstatus⟩ := hguard
    obtain rfl := hnone
    refine ⟨rfl, ⟨?_, ?_⟩, ?_⟩
    · rintro s ⟨⟩
      exact Int.le_refl h
    · rintro rfl
      simp at hstatus
    · intro b hb
      rcases hstatus with (rfl | rfl) | rfl <;> simp [attests, Attest.reset, hb]
  · simp at hflip

/-- An XCALL v0 request. -/
structure Xcall where
  action_index : Int
  request_status : RequestStatus
  result_status : Option String
  result_payload : Option String
  resolved_block : Option Int
  callback_action_index : Option Int
  deriving DecidableEq, Repr

def Xcall.reset (b : Int) (r : Xcall) : Xcall :=
  if (r.request_status = .completed || r.request_status = .expired) &&
      atOrAbove b r.resolved_block then
    { r with
      request_status := .pending, result_status := none, result_payload := none,
      resolved_block := none, callback_action_index := none }
  else r

/-- What a result callback or a deadline expiry writes on the request. -/
structure XcallResult where
  request_status : RequestStatus
  result_status : Option String
  result_payload : Option String
  callback_action_index : Option Int
  deriving DecidableEq, Repr

def Xcall.resolve (result : XcallResult) (h : Int) (r : Xcall) : Option Xcall :=
  if r.request_status = .pending &&
      (result.request_status = .completed || result.request_status = .expired) then
    some ⟨r.action_index, result.request_status, result.result_status, result.result_payload, some h,
      result.callback_action_index⟩
  else none

def xcalls : InPlace Xcall where
  key := Xcall.action_index
  undo := Xcall.reset
  Sound h r := stampedBy h r.resolved_block ∧ (r.request_status = .pending →
    r.result_status = none ∧ r.result_payload = none ∧ r.resolved_block = none ∧
      r.callback_action_index = none)
  undo_key b r := by
    unfold Xcall.reset
    split <;> rfl
  undo_settled h b r hr hb := by
    rw [Xcall.reset, not_atOrAbove hr.1 hb]
    simp
  sound_mono h h' r hr hle := ⟨fun s hs => Int.le_trans (hr.1 s hs) hle, hr.2⟩

theorem xcalls_resolve (result : XcallResult) : xcalls.IsFlip (Xcall.resolve result) := by
  intro h r r' hr hflip
  unfold Xcall.resolve at hflip
  split at hflip
  · rename_i hguard
    simp only [Bool.and_eq_true, decide_eq_true_eq, Bool.or_eq_true] at hguard
    obtain rfl := Option.some.inj hflip
    obtain ⟨rs, rp, rb, ca⟩ := hr.2 hguard.1
    obtain ⟨a, q, s, p, rb', c⟩ := r
    obtain ⟨status, s', p', c'⟩ := result
    dsimp only at rs rp rb ca hguard
    obtain ⟨rfl, hstatus⟩ := hguard
    subst rs rp rb ca
    refine ⟨rfl, ⟨?_, ?_⟩, ?_⟩
    · rintro s ⟨⟩
      exact Int.le_refl h
    · rintro rfl
      simp at hstatus
    · intro b hb
      rcases hstatus with rfl | rfl <;> simp [xcalls, Xcall.reset, hb]
  · simp at hflip

/-! ### polls -/

inductive PollStatus where
  | isOpen
  | finalized
  | failed_quorum
  deriving DecidableEq, Repr

/-- The columns a finalization writes together. -/
structure PollSummary where
  winning_option : Option String
  total_weight : Option String
  total_voters : Option Nat
  quorum_met : Option Bool
  min_voters_met : Option Bool
  fail_reason : Option String
  decided_early : Option Bool
  effective_close_block : Option Int
  finalized_action_index : Option Int
  deposit_resolved : Option Bool
  deriving DecidableEq, Repr

structure Poll where
  action_index : Int
  poll_status : PollStatus
  /-- None where all its columns are NULL. -/
  summary : Option PollSummary
  resolved_block : Option Int
  callback_due_block : Option Int
  callback_execute_action_index : Option Int
  deriving DecidableEq, Repr

def Poll.reopen (b : Int) (r : Poll) : Poll :=
  if (r.poll_status = .finalized || r.poll_status = .failed_quorum) && atOrAbove b r.resolved_block
  then ⟨r.action_index, .isOpen, none, none, none, none⟩ else r

/-- The fire of a deferred callback is orphaned and its finalization is not. -/
def Poll.unfire (b : Int) (r : Poll) : Poll :=
  if (r.poll_status = .finalized || r.poll_status = .failed_quorum) &&
      atOrAbove b r.callback_due_block && r.callback_execute_action_index.isSome then
    { r with callback_execute_action_index := none }
  else r

/-- A finalization; with a due block ahead the callback is left to that block. -/
def Poll.finalize (status : PollStatus) (summary : PollSummary) (due execute : Option Int) (h : Int)
    (r : Poll) : Option Poll :=
  if r.poll_status = .isOpen && status ≠ .isOpen && due.all (h < ·) &&
      (due.isNone || execute.isNone) then
    some ⟨r.action_index, status, some summary, some h, due, execute⟩
  else none

def Poll.fire (execute h : Int) (r : Poll) : Option Poll :=
  if r.poll_status ≠ .isOpen && r.callback_due_block = some h &&
      r.callback_execute_action_index.isNone then
    some { r with callback_execute_action_index := some execute }
  else none

def polls : InPlace Poll where
  key := Poll.action_index
  undo b r := (r.reopen b).unfire b
  Sound h r := stampedBy h r.resolved_block ∧
    (r.poll_status = .isOpen → r = ⟨r.action_index, .isOpen, none, none, none, none⟩) ∧
    (r.callback_execute_action_index.isSome → stampedBy h r.callback_due_block)
  undo_key b r := by
    unfold Poll.unfire Poll.reopen
    split <;> split <;> rfl
  undo_settled h b r hr hb := by
    have hopen : r.reopen b = r := by
      rw [Poll.reopen, not_atOrAbove hr.1 hb]
      simp
    rw [hopen, Poll.unfire]
    by_cases hfired : r.callback_execute_action_index.isSome
    · rw [not_atOrAbove (hr.2.2 hfired) hb]
      simp
    · simp [hfired]
  sound_mono h h' r hr hle :=
    ⟨fun s hs => Int.le_trans (hr.1 s hs) hle, hr.2.1,
      fun hf s hs => Int.le_trans (hr.2.2 hf s hs) hle⟩

theorem polls_finalize (status : PollStatus) (summary : PollSummary) (due execute : Option Int) :
    polls.IsFlip (Poll.finalize status summary due execute) := by
  intro h r r' hr hflip
  unfold Poll.finalize at hflip
  split at hflip
  · rename_i hguard
    simp only [Bool.and_eq_true, decide_eq_true_eq, ne_eq, Bool.or_eq_true] at hguard
    obtain ⟨⟨⟨hopen, hstatus⟩, hdue⟩, hnow⟩ := hguard
    obtain rfl := Option.some.inj hflip
    have hr' := hr.2.1 hopen
    refine ⟨rfl, ⟨?_, fun h => absurd h hstatus, ?_⟩, ?_⟩
    · rintro s ⟨⟩
      exact Int.le_refl h
    · intro hfired d hd
      rcases hnow with hnone | hnone
      · simp only at hd
        simp [hd] at hnone
      · simp only at hfired
        simp [Option.isNone_iff_eq_none.mp hnone] at hfired
    · intro b hb
      have hnew : status = .finalized ∨ status = .failed_quorum := by
        cases status <;> simp at hstatus ⊢
      rw [hr']
      rcases hnew with rfl | rfl <;> simp [polls, Poll.reopen, Poll.unfire, hb]
  · simp at hflip

theorem polls_fire (execute : Int) : polls.IsFlip (Poll.fire execute) := by
  intro h r r' hr hflip
  unfold Poll.fire at hflip
  split at hflip
  · rename_i hguard
    simp only [Bool.and_eq_true, decide_eq_true_eq, ne_eq, Option.isNone_iff_eq_none] at hguard
    obtain ⟨⟨hopen, hdue⟩, hnone⟩ := hguard
    obtain rfl := Option.some.inj hflip
    refine ⟨rfl, ⟨hr.1, fun h => absurd h hopen, ?_⟩, ?_⟩
    · intro _ s hs
      simp only [hdue, Option.some.injEq] at hs
      omega
    · intro b hb
      obtain ⟨a, q, m, rb, db, e⟩ := r
      dsimp only at hopen hdue hnone
      subst hdue hnone
      by_cases hres : atOrAbove b rb
      · cases q <;> simp_all [polls, Poll.reopen, Poll.unfire]
      · cases q <;> simp_all [polls, Poll.reopen, Poll.unfire]
  · simp at hflip

/-! ### bet_feeds and bets -/

inductive FeedStatus where
  | isOpen
  | closed
  | terminal (name : String)
  deriving DecidableEq, Repr

structure BetFeed where
  action_index : Int
  feed_status : FeedStatus
  closed_block : Option Int
  terminal_block : Option Int
  deriving DecidableEq, Repr

/-- A terminal feed whose latch survives goes back to closed. -/
def BetFeed.reclose (b : Int) (r : BetFeed) : BetFeed :=
  if atOrAbove b r.terminal_block && r.closed_block.any (· < b) then
    { r with feed_status := .closed, terminal_block := none }
  else r

/-- A terminal feed without a surviving latch goes back to open. -/
def BetFeed.reopen (b : Int) (r : BetFeed) : BetFeed :=
  if atOrAbove b r.terminal_block && (r.closed_block.isNone || atOrAbove b r.closed_block) then
    { r with feed_status := .isOpen, terminal_block := none }
  else r

def BetFeed.unlatch (b : Int) (r : BetFeed) : BetFeed :=
  if atOrAbove b r.closed_block then { r with feed_status := .isOpen, closed_block := none } else r

def BetFeed.latch (h : Int) (r : BetFeed) : Option BetFeed :=
  if r.feed_status = .isOpen then some { r with feed_status := .closed, closed_block := some h }
  else none

def BetFeed.terminate (name : String) (h : Int) (r : BetFeed) : Option BetFeed :=
  if r.feed_status = .isOpen || r.feed_status = .closed then
    some { r with feed_status := .terminal name, terminal_block := some h }
  else none

def betFeeds : InPlace BetFeed where
  key := BetFeed.action_index
  undo b r := ((r.reclose b).reopen b).unlatch b
  Sound h r := stampedBy h r.closed_block ∧ stampedBy h r.terminal_block ∧
    (r.feed_status = .isOpen → r.closed_block = none ∧ r.terminal_block = none) ∧
    (r.feed_status = .closed → r.closed_block.isSome ∧ r.terminal_block = none)
  undo_key b r := by
    unfold BetFeed.unlatch BetFeed.reopen BetFeed.reclose
    split <;> split <;> split <;> rfl
  undo_settled h b r hr hb := by
    have hterminal := not_atOrAbove hr.2.1 hb
    have hclosed := not_atOrAbove hr.1 hb
    have h1 : r.reclose b = r := by simp [BetFeed.reclose, hterminal]
    have h2 : r.reopen b = r := by simp [BetFeed.reopen, hterminal]
    have h3 : r.unlatch b = r := by simp [BetFeed.unlatch, hclosed]
    rw [h1, h2, h3]
  sound_mono h h' r hr hle :=
    ⟨fun s hs => Int.le_trans (hr.1 s hs) hle, fun s hs => Int.le_trans (hr.2.1 s hs) hle,
      hr.2.2.1, hr.2.2.2⟩

theorem betFeeds_latch : betFeeds.IsFlip BetFeed.latch := by
  intro h r r' hr hflip
  unfold BetFeed.latch at hflip
  split at hflip
  · rename_i hopen
    obtain rfl := Option.some.inj hflip
    obtain ⟨a, q, c, t⟩ := r
    obtain ⟨rfl, rfl⟩ := hr.2.2.1 hopen
    obtain rfl := hopen
    refine ⟨rfl, ⟨?_, hr.2.1, by simp, by simp⟩, ?_⟩
    · rintro s ⟨⟩
      exact Int.le_refl h
    · intro b hb
      simp [betFeeds, BetFeed.reclose, BetFeed.reopen, BetFeed.unlatch, hb]
  · simp at hflip

theorem betFeeds_terminate (name : String) : betFeeds.IsFlip (BetFeed.terminate name) := by
  intro h r r' hr hflip
  unfold BetFeed.terminate at hflip
  split at hflip
  · rename_i hguard
    simp only [Bool.or_eq_true, decide_eq_true_eq] at hguard
    obtain rfl := Option.some.inj hflip
    refine ⟨rfl, ⟨hr.1, ?_, by simp, by simp⟩, ?_⟩
    · rintro s ⟨⟩
      exact Int.le_refl h
    · intro b hb
      obtain ⟨a, q, c, t⟩ := r
      rcases hguard with hopen | hclosed
      · obtain ⟨rfl, rfl⟩ := hr.2.2.1 hopen
        obtain rfl := hopen
        simp [betFeeds, BetFeed.reclose, BetFeed.reopen, BetFeed.unlatch, hb]
      · obtain ⟨hc, rfl⟩ := hr.2.2.2 hclosed
        obtain ⟨c, rfl⟩ := Option.isSome_iff_exists.mp hc
        obtain rfl := hclosed
        -- the latch survives, or goes with the end
        by_cases hcb : c < b
        · have hnot : ¬ b ≤ c := by omega
          simp [betFeeds, BetFeed.reclose, BetFeed.reopen, BetFeed.unlatch, hb, hcb, hnot]
        · have hle : b ≤ c := by omega
          simp [betFeeds, BetFeed.reclose, BetFeed.reopen, BetFeed.unlatch, hb, hcb, hle]
  · simp at hflip

structure Bet where
  action_index : Int
  /-- None is open; won, lost and refunded by name. -/
  bet_status : Option String
  settled_block : Option Int
  deriving DecidableEq, Repr

def Bet.reset (b : Int) (r : Bet) : Bet :=
  if atOrAbove b r.settled_block then { r with bet_status := none, settled_block := none } else r

def Bet.settle (status : String) (h : Int) (r : Bet) : Option Bet :=
  if r.bet_status.isNone then some { r with bet_status := some status, settled_block := some h }
  else none

def bets : InPlace Bet where
  key := Bet.action_index
  undo := Bet.reset
  Sound h r := stampedBy h r.settled_block ∧ (r.bet_status = none → r.settled_block = none)
  undo_key b r := by
    unfold Bet.reset
    split <;> rfl
  undo_settled h b r hr hb := by simp [Bet.reset, not_atOrAbove hr.1 hb]
  sound_mono h h' r hr hle := ⟨fun s hs => Int.le_trans (hr.1 s hs) hle, hr.2⟩

theorem bets_settle (status : String) : bets.IsFlip (Bet.settle status) := by
  intro h r r' hr hflip
  unfold Bet.settle at hflip
  split at hflip
  · rename_i hopen
    rw [Option.isNone_iff_eq_none] at hopen
    obtain rfl := Option.some.inj hflip
    have hnone := hr.2 hopen
    obtain ⟨a, q, s⟩ := r
    dsimp only at hopen hnone
    subst hopen hnone
    refine ⟨rfl, ⟨?_, by simp⟩, ?_⟩
    · rintro s ⟨⟩
      exact Int.le_refl h
    · intro b hb
      simp [bets, Bet.reset, hb]
  · simp at hflip

/-! ### delegations and contract_delegations -/

structure Delegation where
  action_index : Int
  deactivation_block : Option Int
  deriving DecidableEq, Repr

/-- The re-NULL by value: an orphaned revocation or eviction stamped at least `b + delay`. -/
def Delegation.reset (delay b : Int) (r : Delegation) : Delegation :=
  if atOrAbove (b + delay) r.deactivation_block then { r with deactivation_block := none } else r

def Delegation.deactivate (delay h : Int) (r : Delegation) : Option Delegation :=
  if r.deactivation_block.isNone then some { r with deactivation_block := some (h + delay) } else none

def delegations (delay : Int) : InPlace Delegation where
  key := Delegation.action_index
  undo := Delegation.reset delay
  Sound h r := stampedBy (h + delay) r.deactivation_block
  undo_key b r := by
    unfold Delegation.reset
    split <;> rfl
  undo_settled h b r hr hb := by
    rw [Delegation.reset, not_atOrAbove hr (by omega)]
    simp
  sound_mono h h' r hr hle := fun s hs => by
    have := hr s hs
    omega

theorem delegations_deactivate (delay : Int) :
    (delegations delay).IsFlip (Delegation.deactivate delay) := by
  intro h r r' hr hflip
  unfold Delegation.deactivate at hflip
  split at hflip
  · rename_i hactive
    rw [Option.isNone_iff_eq_none] at hactive
    obtain rfl := Option.some.inj hflip
    obtain ⟨a, s⟩ := r
    obtain rfl := hactive
    refine ⟨rfl, ?_, ?_⟩
    · rintro s ⟨⟩
      exact Int.le_refl _
    · intro b hb
      have : b + delay ≤ h + delay := by omega
      simp [delegations, Delegation.reset, this]
  · simp at hflip

end XChainSync.Rollback
