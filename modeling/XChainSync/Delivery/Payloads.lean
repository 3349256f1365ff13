import XChainSync.Library.KeyedRows
import XChainSync.Delivery.Source

/-!
# The two delivery paths

The block payload the poller builds, the incremental snapshot of `snapshot_builder.js`, and what the
replica does with either. `gas` is the id of the GAS tick. A table a payload does not carry is empty here.
-/

namespace XChainSync.Delivery
set_option autoImplicit false

open KeyedRows

/-- The tables of a payload. -/
structure Payload where
  credits : List LedgerRow
  debits : List LedgerRow
  escrows : List LedgerRow
  contract_emissions : List Emission
  validator_rewards : List Reward
  anchor_reward_reconcile_log : List ReconcileLog
  deriving DecidableEq, Repr

inductive LedgerTable where
  | credits
  | debits
  | escrows
  deriving DecidableEq, Repr

namespace Source

def rows {R : Type} (table : List (Stamped R)) : List R := table.map Stamped.row

def stamped (S : Source) : LedgerTable → List (Stamped LedgerRow)
  | .credits => S.credits
  | .debits => S.debits
  | .escrows => S.escrows

def ledger (S : Source) (table : LedgerTable) : List LedgerRow := rows (S.stamped table)

/-! ### Queries by action -/

def getFirstActionIndex (S : Source) (block_index : Nat) : Option Nat :=
  ((S.actions.filter (block_index ≤ ·.block_index)).map (·.action_index)).min?

def getActionScopedRows (S : Source) (table : LedgerTable) (block_index : Nat) : List LedgerRow :=
  joined (fun t a => a.action_index = t.action_index && a.block_index = block_index)
    (S.ledger table) S.actions

def findRowsFromActionIndex (S : Source) (table : LedgerTable) (firstActionIndex : Nat) :
    List LedgerRow :=
  (S.ledger table).filter (firstActionIndex ≤ ·.action_index)

/-- `contract_executions` joined with `actions`. -/
def executedActions (S : Source) : List Action :=
  joined (fun a execution => execution = a.action_index) S.actions S.contract_executions

def getEmissionRowsForBlock (S : Source) (block_index : Nat) : List Emission :=
  joined (fun em a => a.action_index = em.execution_index && a.block_index = block_index)
    (rows S.contract_emissions) S.executedActions

def findEmissionRowsFromBlock (S : Source) (sinceBlock : Nat) : List Emission :=
  joined (fun em a => a.action_index = em.execution_index && sinceBlock ≤ a.block_index)
    (rows S.contract_emissions) S.executedActions

/-! ### Matured cooldowns -/

def findMatured (gas : Nat) (S : Source) (unstakes : UnstakeTable) (table : LedgerTable)
    (fromBlock toBlock : Nat) : List LedgerRow :=
  joined (fun c u => u.table = unstakes && u.owns gas c && u.completed &&
    fromBlock ≤ u.cooldown_end_block && u.cooldown_end_block ≤ toBlock) (S.ledger table) S.unstakes

def findMaturedCapabilityCooldownCredits (gas : Nat) (S : Source) (fromBlock toBlock : Nat) :
    List LedgerRow :=
  S.findMatured gas .unstakes .credits fromBlock toBlock

def findMaturedContractCooldownCredits (gas : Nat) (S : Source) (fromBlock toBlock : Nat) :
    List LedgerRow :=
  S.findMatured gas .contract_unstakes .credits fromBlock toBlock

def findMaturedCapabilityCooldownEscrows (gas : Nat) (S : Source) (fromBlock toBlock : Nat) :
    List LedgerRow :=
  S.findMatured gas .unstakes .escrows fromBlock toBlock

def findMaturedContractCooldownEscrows (gas : Nat) (S : Source) (fromBlock toBlock : Nat) :
    List LedgerRow :=
  S.findMatured gas .contract_unstakes .escrows fromBlock toBlock

end Source

def ledgerRowKey (r : LedgerRow) : Nat × Option Nat × Option Nat :=
  (r.action_index, r.address_id, r.tick_id)

/-- What the two finders of one ledger table select, one row for each key. -/
def collectMatured (capability contract : List LedgerRow) : List LedgerRow :=
  collect ledgerRowKey ((capability ++ contract).filter fun r =>
    r.address_id.isSome && r.tick_id.isSome)

def collectMaturedCooldownCredits (gas : Nat) (S : Source) (fromBlock toBlock : Nat) : List LedgerRow :=
  collectMatured (S.findMaturedCapabilityCooldownCredits gas fromBlock toBlock)
    (S.findMaturedContractCooldownCredits gas fromBlock toBlock)

def collectMaturedCooldownEscrows (gas : Nat) (S : Source) (fromBlock toBlock : Nat) : List LedgerRow :=
  collectMatured (S.findMaturedCapabilityCooldownEscrows gas fromBlock toBlock)
    (S.findMaturedContractCooldownEscrows gas fromBlock toBlock)

def mergeMaturedRows (rows matured : List LedgerRow) : List LedgerRow :=
  appendNew ledgerRowKey rows matured

/-! ### Rewards -/

namespace Source

def findRedrivenValidatorRewards (S : Source) (fromBlock toBlock : Nat) : List Reward :=
  joined (fun vr rpr => rpr.covers S.index_pubkeys vr && fromBlock ≤ rpr.applied_block &&
    rpr.applied_block ≤ toBlock && vr.block_index < rpr.applied_block)
    (rows S.validator_rewards) S.recovery_pending_rewards

def findDerivedValidatorRewards (S : Source) (fromBlock toBlock : Nat) : List Reward :=
  (rows S.validator_rewards).filter fun vr => vr.derive_block_index.any fun d =>
    fromBlock ≤ d && d ≤ toBlock && vr.block_index < d

end Source

/-- A NULL reference reads as `null` in the key, so two of them are equal. -/
def validatorRewardKey (r : Reward) : RewardIdentity := r.identity

def collectRedrivenValidatorRewards (S : Source) (fromBlock toBlock : Nat) : List Reward :=
  collect validatorRewardKey (S.findRedrivenValidatorRewards fromBlock toBlock)

def collectDerivedAnchorRewards (S : Source) (fromBlock toBlock : Nat) : List Reward :=
  collect validatorRewardKey (S.findDerivedValidatorRewards fromBlock toBlock)

/-- `mergeValidatorRewardRows` of the poller, and `appendNewRewardRows` of the snapshot builder. -/
def mergeRewardRows (existing rows : List Reward) : List Reward :=
  appendNew validatorRewardKey existing rows

/-! ### Payloads -/

namespace Source

def buildBlockPayload (gas : Nat) (S : Source) (block_index : Nat) : Payload where
  credits := mergeMaturedRows (S.getActionScopedRows .credits block_index)
    (collectMaturedCooldownCredits gas S block_index block_index)
  debits := S.getActionScopedRows .debits block_index
  escrows := mergeMaturedRows (S.getActionScopedRows .escrows block_index)
    (collectMaturedCooldownEscrows gas S block_index block_index)
  contract_emissions := S.getEmissionRowsForBlock block_index
  validator_rewards :=
    mergeRewardRows
      (mergeRewardRows ((rows S.validator_rewards).filter (·.block_index = block_index))
        (collectRedrivenValidatorRewards S block_index block_index))
      (collectDerivedAnchorRewards S block_index block_index)
  anchor_reward_reconcile_log :=
    S.anchor_reward_reconcile_log.filter (·.block_index = block_index)

/-- A window without any action has no floor: `credits` and `escrows` start empty, and another table is
skipped. -/
def selectIndexerRows (S : Source) (table : LedgerTable) (sinceBlock : Nat) : Option (List LedgerRow) :=
  match S.getFirstActionIndex sinceBlock with
  | some firstActionIndex => some (S.findRowsFromActionIndex table firstActionIndex)
  | none =>
    match table with
    | .credits | .escrows => some []
    | .debits => none

def selectIncrementalRows (gas : Nat) (S : Source) (table : LedgerTable) (sinceBlock lastBlock : Nat) :
    Option (List LedgerRow) :=
  (S.selectIndexerRows table sinceBlock).map fun rows =>
    match table with
    | .credits => mergeMaturedRows rows (collectMaturedCooldownCredits gas S sinceBlock lastBlock)
    | .escrows => mergeMaturedRows rows (collectMaturedCooldownEscrows gas S sinceBlock lastBlock)
    | .debits => rows

/-- `none` is the answer that there is no data after the block. -/
def streamIncrementalSnapshot (gas : Nat) (S : Source) (sinceBlock : Nat) : Option Payload :=
  if S.tip < sinceBlock then none
  else some
    { credits := (S.selectIncrementalRows gas .credits sinceBlock S.tip).getD []
      debits := (S.selectIncrementalRows gas .debits sinceBlock S.tip).getD []
      escrows := (S.selectIncrementalRows gas .escrows sinceBlock S.tip).getD []
      contract_emissions := S.findEmissionRowsFromBlock sinceBlock
      validator_rewards :=
        mergeRewardRows
          (mergeRewardRows ((rows S.validator_rewards).filter (sinceBlock ≤ ·.block_index))
            (collectRedrivenValidatorRewards S sinceBlock S.tip))
          (collectDerivedAnchorRewards S sinceBlock S.tip)
      anchor_reward_reconcile_log :=
        S.anchor_reward_reconcile_log.filter (sinceBlock ≤ ·.block_index) }

end Source

/-! ### The replica -/

structure Replica where
  credits : List LedgerRow
  debits : List LedgerRow
  escrows : List LedgerRow
  contract_emissions : List Emission
  validator_rewards : List Reward
  anchor_reward_reconcile_log : List ReconcileLog
  deriving DecidableEq, Repr

/-- The two keys of `validator_rewards` on which `INSERT IGNORE` drops a row. -/
def Reward.duplicates (r e : Reward) : Bool := e.id = r.id || r.identity.conflicts e.identity

namespace Replica

def insertRows (replica : Replica) (data : Payload) : Replica where
  credits := replica.credits ++ data.credits
  debits := replica.debits ++ data.debits
  escrows := replica.escrows ++ data.escrows
  contract_emissions := replica.contract_emissions ++ data.contract_emissions
  validator_rewards := insertNew Reward.duplicates replica.validator_rewards data.validator_rewards
  anchor_reward_reconcile_log :=
    replica.anchor_reward_reconcile_log ++ data.anchor_reward_reconcile_log

/-- `deleteReconciledValidatorRewards` over the log rows in scope. -/
def mirrorAnchorRewardReconcile (scope : ReconcileLog → Bool) (replica : Replica) : Replica :=
  { replica with
    validator_rewards := replica.validator_rewards.filter fun r =>
      !replica.anchor_reward_reconcile_log.any fun d => scope d && d.identity = r.identity }

def applyData (scope : ReconcileLog → Bool) (replica : Replica) (data : Payload) : Replica :=
  if data.anchor_reward_reconcile_log.isEmpty then replica.insertRows data
  else (replica.insertRows data).mirrorAnchorRewardReconcile scope

def applyBlock (replica : Replica) (block_index : Nat) (data : Payload) : Replica :=
  replica.applyData (·.block_index = block_index) data

def applyIncrementalSnapshot (replica : Replica) (since_block : Nat) (data : Payload) : Replica :=
  replica.applyData (since_block ≤ ·.block_index) data

/-- The payload of each block, built while that block is the source's tip, one after the other. -/
def follow (gas : Nat) : Replica → Source → List Block → Replica
  | replica, _, [] => replica
  | replica, S, b :: bs =>
    let S' := S.step gas b
    follow gas (replica.applyBlock S'.tip (S'.buildBlockPayload gas S'.tip)) S' bs

/-- The one snapshot since a block. -/
def catchUp (gas : Nat) (replica : Replica) (S : Source) (sinceBlock : Nat) : Replica :=
  match S.streamIncrementalSnapshot gas sinceBlock with
  | none => replica
  | some data => replica.applyIncrementalSnapshot sinceBlock data

/-- The replica has the source's rows, each as often as the source. -/
structure Holds (replica : Replica) (S : Source) : Prop where
  credits : replica.credits.Perm (Source.rows S.credits)
  debits : replica.debits.Perm (Source.rows S.debits)
  escrows : replica.escrows.Perm (Source.rows S.escrows)
  contract_emissions : replica.contract_emissions.Perm (Source.rows S.contract_emissions)
  validator_rewards : replica.validator_rewards.Perm (Source.rows S.validator_rewards)
  anchor_reward_reconcile_log :
    replica.anchor_reward_reconcile_log.Perm S.anchor_reward_reconcile_log

end Replica

end XChainSync.Delivery
