import Mathlib.Data.List.Nodup

/-!
# The source's ledger, block by block

The tables both delivery paths read, and what one block writes to them. A ledger row has no
`block_index` of its own: it is placed by the block of its action, and a refund or release written
when a cooldown matures keeps the action of the unstake, which is older. `Stamped` notes the block that
wrote a row. No column has it and no query reads it.
-/

namespace XChainSync.Delivery
set_option autoImplicit false

/-! ### Tables -/

structure Stamped (R : Type) where
  row : R
  written : Nat
  deriving DecidableEq, Repr

structure Action where
  action_index : Nat
  block_index : Nat
  deriving DecidableEq, Repr

/-- The four protocol columns of `contract_emissions`. An internal emission has no action. -/
structure Emission where
  execution_index : Nat
  emitted_action : String
  action_index : Option Nat
  position : Nat
  deriving DecidableEq, Repr

/-- A row of `credits`, `debits` or `escrows`. -/
structure LedgerRow where
  action_index : Nat
  address_id : Option Nat
  tick_id : Option Nat
  amount : Int
  deriving DecidableEq, Repr

inductive UnstakeTable where
  | unstakes
  | contract_unstakes
  deriving DecidableEq, Repr

/-- A row of `unstakes` or `contract_unstakes`. `completed` is its status. -/
structure Unstake where
  table : UnstakeTable
  action_index : Nat
  source_id : Nat
  tick_id : Nat
  cooldown_end_block : Nat
  completed : Bool
  deriving DecidableEq, Repr

structure IndexPubkey where
  id : Nat
  pubkey : String
  deriving DecidableEq, Repr

/-- A row of `recovery_pending_rewards` that has been applied. -/
structure PendingReward where
  source_id : Nat
  validator_pubkey : String
  reward_type : String
  round_reference : Option Nat
  amount : Nat
  block_index : Nat
  applied_block : Nat
  deriving DecidableEq, Repr

/-- The columns of `reward_unique`, in key order. -/
structure RewardIdentity where
  source_id : Nat
  signing_pubkey_id : Nat
  reward_type : String
  round_reference : Option Nat
  round_qualifier : Nat
  deriving DecidableEq, Repr

/-- A row of `validator_rewards`. -/
structure Reward where
  id : Nat
  identity : RewardIdentity
  amount : Nat
  block_index : Nat
  derive_block_index : Option Nat
  deriving DecidableEq, Repr

/-- A row of `anchor_reward_reconcile_log`. -/
structure ReconcileLog where
  identity : RewardIdentity
  block_index : Nat
  deriving DecidableEq, Repr

structure Source where
  tip : Nat
  actions : List Action
  contract_executions : List Nat
  contract_emissions : List (Stamped Emission)
  credits : List (Stamped LedgerRow)
  debits : List (Stamped LedgerRow)
  escrows : List (Stamped LedgerRow)
  unstakes : List Unstake
  index_pubkeys : List IndexPubkey
  recovery_pending_rewards : List PendingReward
  validator_rewards : List (Stamped Reward)
  anchor_reward_reconcile_log : List ReconcileLog
  /-- The last `AUTO_INCREMENT` value `validator_rewards` has given out. -/
  last_reward_id : Nat
  deriving DecidableEq, Repr

/-! ### The unstake a row belongs to -/

/-- The tick a matured unstake is paid in. -/
def Unstake.paidIn (gas : Nat) (u : Unstake) : Nat :=
  match u.table with
  | .unstakes => gas
  | .contract_unstakes => u.tick_id

/-- The join of the finders of `db/credits.js`, without its window. -/
def Unstake.owns (gas : Nat) (u : Unstake) (r : LedgerRow) : Bool :=
  u.action_index = r.action_index && r.address_id = some u.source_id &&
    r.tick_id = some (u.paidIn gas)

def Unstake.ledgerRow (gas : Nat) (u : Unstake) (amount : Int) : LedgerRow :=
  ⟨u.action_index, some u.source_id, some (u.paidIn gas), amount⟩

theorem Unstake.owns_ledgerRow (gas : Nat) (u : Unstake) (amount : Int) :
    u.owns gas (u.ledgerRow gas amount) = true := by
  simp [Unstake.owns, Unstake.ledgerRow]

theorem Unstake.action_index_eq_of_owns {gas : Nat} {u : Unstake} {r : LedgerRow}
    (h : u.owns gas r = true) : u.action_index = r.action_index := by
  simp only [Unstake.owns, Bool.and_eq_true, decide_eq_true_eq] at h
  exact h.1.1

theorem Unstake.isSome_of_owns {gas : Nat} {u : Unstake} {r : LedgerRow} (h : u.owns gas r = true) :
    r.address_id.isSome = true ∧ r.tick_id.isSome = true := by
  simp only [Unstake.owns, Bool.and_eq_true, decide_eq_true_eq] at h
  rw [h.1.2, h.2]
  exact ⟨rfl, rfl⟩

/-! ### Blocks -/

/-- A cooldown that ends. Before the completion actions the refund and the release reuse the unstake's
action. Since then they are ordinary rows of the block and neither is here. -/
structure Maturity where
  unstake : Unstake
  refund : Option Int
  release : Option Int
  deriving DecidableEq, Repr

structure Block where
  actions : List Nat := []
  executions : List Nat := []
  emissions : List Emission := []
  credits : List LedgerRow := []
  debits : List LedgerRow := []
  escrows : List LedgerRow := []
  unstakes : List Unstake := []
  matured : List Maturity := []
  pubkeys : List IndexPubkey := []
  /-- The pending rewards this block applies. -/
  applied : List PendingReward := []
  rewards : List Reward := []
  /-- The ids of the rewards an anchor reconcile of this block deletes. -/
  reconciled : List Nat := []
  deriving DecidableEq, Repr

namespace Block

def payouts (gas : Nat) (amount : Maturity → Option Int) (b : Block) : List LedgerRow :=
  b.matured.filterMap fun m => (amount m).map (m.unstake.ledgerRow gas)

def refunds (gas : Nat) (b : Block) : List LedgerRow := b.payouts gas Maturity.refund

def releases (gas : Nat) (b : Block) : List LedgerRow := b.payouts gas Maturity.release

def completes (b : Block) (u : Unstake) : Bool :=
  b.matured.any (·.unstake.action_index = u.action_index)

end Block

namespace Source

def empty (start : Nat) : Source where
  tip := start
  actions := []
  contract_executions := []
  contract_emissions := []
  credits := []
  debits := []
  escrows := []
  unstakes := []
  index_pubkeys := []
  recovery_pending_rewards := []
  validator_rewards := []
  anchor_reward_reconcile_log := []
  last_reward_id := 0

def stamp {R : Type} (height : Nat) (rows : List R) : List (Stamped R) := rows.map (⟨·, height⟩)

/-- The rewards before the block's reconcile. -/
def written (S : Source) (b : Block) : List (Stamped Reward) :=
  S.validator_rewards ++ stamp (S.tip + 1) b.rewards

def step (gas : Nat) (S : Source) (b : Block) : Source where
  tip := S.tip + 1
  actions := S.actions ++ b.actions.map (⟨·, S.tip + 1⟩)
  contract_executions := S.contract_executions ++ b.executions
  contract_emissions := S.contract_emissions ++ stamp (S.tip + 1) b.emissions
  credits := S.credits ++ stamp (S.tip + 1) (b.credits ++ b.refunds gas)
  debits := S.debits ++ stamp (S.tip + 1) b.debits
  escrows := S.escrows ++ stamp (S.tip + 1) (b.escrows ++ b.releases gas)
  unstakes := (S.unstakes ++ b.unstakes).map fun u =>
    if b.completes u then { u with completed := true } else u
  index_pubkeys := S.index_pubkeys ++ b.pubkeys
  recovery_pending_rewards := S.recovery_pending_rewards ++ b.applied
  validator_rewards := (S.written b).filter (·.row.id ∉ b.reconciled)
  anchor_reward_reconcile_log := S.anchor_reward_reconcile_log ++
    ((S.written b).filter (·.row.id ∈ b.reconciled)).map fun r => ⟨r.row.identity, S.tip + 1⟩
  last_reward_id := (b.rewards.map Reward.id).foldl max S.last_reward_id

def run (gas : Nat) (S : Source) (blocks : List Block) : Source := blocks.foldl (step gas) S

end Source

/-! ### What the source writes -/

/-- Two identities the unique key does not admit together. A NULL in the key conflicts with nothing. -/
def RewardIdentity.conflicts (i j : RewardIdentity) : Bool := i.round_reference.isSome && i = j

theorem RewardIdentity.conflicts_comm (i j : RewardIdentity) : i.conflicts j = j.conflicts i := by
  unfold RewardIdentity.conflicts
  by_cases heq : i = j
  · rw [heq]
  · simp [heq, Ne.symm heq]

/-- The join of `findRedrivenValidatorRewards`, without its window. -/
def PendingReward.covers (pubkeys : List IndexPubkey) (p : PendingReward) (r : Reward) : Bool :=
  p.source_id = r.identity.source_id && p.reward_type = r.identity.reward_type &&
    p.round_reference = r.identity.round_reference && p.amount = r.amount &&
      p.block_index = r.block_index &&
        pubkeys.any fun ip => ip.id = r.identity.signing_pubkey_id && ip.pubkey = p.validator_pubkey

/-- A reward is earned in the block that writes it, or in an earlier one. Then it is derived by the block
or the block applies its pending reward. -/
def Reward.WrittenAt (height : Nat) (pubkeys : List IndexPubkey) (applied : List PendingReward)
    (r : Reward) : Prop :=
  (∀ d ∈ r.derive_block_index, d ≤ height) ∧
    (r.block_index = height ∨ r.block_index < height ∧
      (r.derive_block_index = some height ∨ ∃ p ∈ applied, p.covers pubkeys r = true))

instance (height : Nat) (pubkeys : List IndexPubkey) (applied : List PendingReward) (r : Reward) :
    Decidable (r.WrittenAt height pubkeys applied) :=
  inferInstanceAs (Decidable (_ ∧ _))

namespace Source

/-- A block the source can write after `S`. -/
structure Admits (gas : Nat) (S : Source) (b : Block) : Prop where
  actions_later : ∀ a ∈ S.actions, ∀ i ∈ b.actions, a.action_index < i
  actions_nodup : b.actions.Nodup
  executions_acted : ∀ i ∈ b.executions, i ∈ b.actions
  executions_nodup : b.executions.Nodup
  emissions_executed : ∀ e ∈ b.emissions, e.execution_index ∈ b.executions
  credits_acted : ∀ r ∈ b.credits, r.action_index ∈ b.actions
  debits_acted : ∀ r ∈ b.debits, r.action_index ∈ b.actions
  escrows_acted : ∀ r ∈ b.escrows, r.action_index ∈ b.actions
  unstakes_acted : ∀ u ∈ b.unstakes, u.action_index ∈ b.actions
  unstakes_nodup : (b.unstakes.map (·.action_index)).Nodup
  unstakes_pending : ∀ u ∈ b.unstakes, u.completed = false
  -- the action of an unstake writes no other credit or escrow to its source in that tick
  unstakes_alone : ∀ u ∈ b.unstakes, ∀ r ∈ b.credits ++ b.escrows, u.owns gas r = false
  matured_known : ∀ m ∈ b.matured, m.unstake ∈ S.unstakes ++ b.unstakes
  matured_pending : ∀ m ∈ b.matured, m.unstake.completed = false
  matured_due : ∀ m ∈ b.matured, m.unstake.cooldown_end_block = S.tip + 1
  matured_nodup : (b.matured.map (·.unstake.action_index)).Nodup
  applied_now : ∀ p ∈ b.applied, p.applied_block = S.tip + 1
  rewards_written : ∀ r ∈ b.rewards,
    r.WrittenAt (S.tip + 1) (S.index_pubkeys ++ b.pubkeys) b.applied
  reward_ids_later : ∀ r ∈ b.rewards, S.last_reward_id < r.id
  reward_ids_nodup : (b.rewards.map Reward.id).Nodup
  reward_unique : (S.written b).Pairwise fun r r' =>
    r.row.identity.conflicts r'.row.identity = false
  -- an identity that a reconcile removed is not written again
  rewards_not_again : ∀ r ∈ b.rewards, ∀ d ∈ S.anchor_reward_reconcile_log, d.identity ≠ r.identity

/-- One of the two finders selects the reward, in some window. -/
def backdated (S : Source) (r : Reward) : Bool :=
  (r.derive_block_index.any fun d => r.block_index < d) ||
    S.recovery_pending_rewards.any fun p =>
      p.covers S.index_pubkeys r && r.block_index < p.applied_block

/-- The rewards can be told apart by the five columns, a NULL reference being equal to another: one that
a finder selects shares them at most with rewards earned before it that no finder selects, and a standing
reward with none a reconcile removed. -/
structure RewardsApart (S : Source) : Prop where
  backdated_apart : ∀ r ∈ S.validator_rewards, ∀ r' ∈ S.validator_rewards,
    r'.row.identity = r.row.identity → S.backdated r.row = true → r' ≠ r →
      r'.row.block_index < r.row.block_index ∧ S.backdated r'.row = false
  reconciled_apart : ∀ r ∈ S.validator_rewards, ∀ d ∈ S.anchor_reward_reconcile_log,
    d.identity ≠ r.row.identity

/-- A history of blocks the source writes one after the other. -/
def AdmitsAll (gas : Nat) : Source → List Block → Prop
  | _, [] => True
  | S, b :: bs => S.Admits gas b ∧ AdmitsAll gas (S.step gas b) bs

/-- A source that has written admissible blocks from the start. -/
def Reached (gas : Nat) (S : Source) : Prop :=
  ∃ start blocks, AdmitsAll gas (empty start) blocks ∧ S = (empty start).run gas blocks

/-- After each block of the history the rewards are apart. -/
def ApartThrough (gas : Nat) : Source → List Block → Prop
  | _, [] => True
  | S, b :: bs => (S.step gas b).RewardsApart ∧ ApartThrough gas (S.step gas b) bs

end Source

end XChainSync.Delivery
