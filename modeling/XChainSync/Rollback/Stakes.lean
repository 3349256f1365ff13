import Mathlib.Algebra.Order.Ring.Unbundled.Rat
import Mathlib.Data.List.Nodup
import XChainSync.Library.UndoJournal
import XChainSync.Rollback.Flips

/-!
# Stake rows: slashes, key rotations, deactivations and cooldowns

The capability rail (`stakes`, `unstakes`, `capability_slash_debits`) and the contract rail
(`contract_stakes`, `contract_unstakes`, `contract_slash_debits`, `contract_delegation_rotations`)
have the same shape. They differ in what orders the debits of a row, in how a stake is joined to the
unstake that stamped it, and in the keys, which rotate in place on the contract rail only.
-/

namespace XChainSync.Rollback
set_option autoImplicit false
open UndoJournal

/-- An amount is the text the column holds. -/
structure Params (A : Type) where
  /-- `CAST(amount AS DECIMAL(60,18))` -/
  cast : A → Rat
  /-- `ACTIVATION_DELAY_BLOCKS` -/
  activationDelay : Int
  gasTick : Int

inductive RailKind where
  | capability
  | contract
  deriving DecidableEq, Repr

inductive TargetTable where
  | stakes
  | unstakes
  deriving DecidableEq, Repr

structure Bond (A : Type) where
  action_index : Int
  source_id : Int
  target_contract_index : Option Int
  tick_id : Int
  signing_pubkey_id : Int
  amount : A
  deriving DecidableEq, Repr

structure Stake (A : Type) extends Bond A where
  deactivation_block : Option Int
  deriving DecidableEq, Repr

inductive UnstakeStatus where
  | valid
  | completed
  deriving DecidableEq, Repr

structure Unstake (A : Type) extends Bond A where
  block_index : Int
  cooldown_end_block : Int
  status : UnstakeStatus
  deriving DecidableEq, Repr

/-- `slash_action_index` is a column of the capability rail, the two after it of the contract rail. -/
structure SlashPlace where
  slash_action_index : Int
  execution_index : Int
  slash_position : Int
  deriving DecidableEq, Repr

structure SlashDebit (A : Type) extends SlashPlace where
  target_table : TargetTable
  stake_action_index : Int
  block_index : Int
  prev_amount : A
  deriving DecidableEq, Repr

structure Rotation where
  target_table : TargetTable
  stake_action_index : Int
  block_index : Int
  delegation_action_index : Int
  prev_signing_pubkey_id : Int
  deriving DecidableEq, Repr

structure Rail (A : Type) where
  stakes : List (Stake A)
  unstakes : List (Unstake A)
  slash_debits : List (SlashDebit A)
  rotations : List Rotation
  deriving DecidableEq, Repr

variable {A : Type}

/-! ### The rollback of a rail -/

/-- The NOT EXISTS of the restores: `e` is an older debit than `d`. -/
def RailKind.before (p : Params A) : RailKind → SlashDebit A → SlashDebit A → Bool
  | .capability, e, d => e.block_index < d.block_index ||
      (e.block_index = d.block_index && e.slash_action_index < d.slash_action_index)
  | .contract, e, d => p.cast d.prev_amount < p.cast e.prev_amount ||
      (p.cast e.prev_amount = p.cast d.prev_amount &&
        (e.block_index < d.block_index || (e.block_index = d.block_index &&
          (e.execution_index < d.execution_index || (e.execution_index = d.execution_index &&
            e.slash_position < d.slash_position)))))

def RailKind.debits (p : Params A) (kind : RailKind) :
    Journal (SlashDebit A) (TargetTable × Int) A where
  key d := (d.target_table, d.stake_action_index)
  block := SlashDebit.block_index
  prev := SlashDebit.prev_amount
  before := kind.before p

def rotationJournal : Journal Rotation (TargetTable × Int) Int where
  key r := (r.target_table, r.stake_action_index)
  block := Rotation.block_index
  prev := Rotation.prev_signing_pubkey_id
  before e r := e.block_index < r.block_index ||
    (e.block_index = r.block_index && e.delegation_action_index < r.delegation_action_index)

/-- The join of a stake with the unstakes that may have stamped it. -/
def RailKind.sameBond : RailKind → Bond A → Bond A → Bool
  | .capability, s, u => u.signing_pubkey_id = s.signing_pubkey_id
  | .contract, s, u => u.source_id = s.source_id &&
      u.target_contract_index = s.target_contract_index && u.tick_id = s.tick_id

namespace Rail

def mapBonds (f : TargetTable → Bond A → Bond A) (rail : Rail A) : Rail A :=
  { rail with
    stakes := rail.stakes.map fun s => { s with toBond := f .stakes s.toBond }
    unstakes := rail.unstakes.map fun u => { u with toBond := f .unstakes u.toBond } }

def restoreSlashAmounts (p : Params A) (kind : RailKind) (b : Int) (rail : Rail A) : Rail A :=
  rail.mapBonds fun target r =>
    { r with amount := (kind.debits p).restore rail.slash_debits b (target, r.action_index) r.amount }

def restoreRotatedKeys (b : Int) (rail : Rail A) : Rail A :=
  rail.mapBonds fun target r =>
    { r with signing_pubkey_id :=
        rotationJournal.restore rail.rotations b (target, r.action_index) r.signing_pubkey_id }

/-- Stamped by an unstake of an orphaned block. -/
def orphanedStamp (p : Params A) (kind : RailKind) (b : Int) (rail : Rail A) (s : Stake A) : Bool :=
  rail.unstakes.any fun u => kind.sameBond s.toBond u.toBond && b ≤ u.block_index &&
    s.deactivation_block = some (u.block_index + p.activationDelay)

def resetDeactivations (p : Params A) (kind : RailKind) (b : Int) (rail : Rail A) : Rail A :=
  { rail with
    stakes := rail.stakes.map fun s =>
      if rail.orphanedStamp p kind b s then { s with deactivation_block := none } else s }

/-- Matured in an orphaned block and created in a surviving one. -/
def orphanedMaturity (b : Int) (u : Unstake A) : Bool :=
  u.status = .completed && b ≤ u.cooldown_end_block && u.block_index < b

def reopenUnstakes (b : Int) (rail : Rail A) : Rail A :=
  { rail with
    unstakes := rail.unstakes.map fun u =>
      if orphanedMaturity b u then { u with status := .valid } else u }

end Rail

/-- Not among the `action_index >= firstActionIndex`, of which there are none under a null. -/
def survives (firstActionIndex : Option Int) (a : Int) : Bool := firstActionIndex.all (a < ·)

/-- The generic deletes: rows by action, journals by block. -/
def Rail.deleteOrphaned (firstActionIndex : Option Int) (b : Int) (rail : Rail A) : Rail A where
  stakes := rail.stakes.filter (survives firstActionIndex ·.action_index)
  unstakes := rail.unstakes.filter (survives firstActionIndex ·.action_index)
  slash_debits := rail.slash_debits.filter (·.block_index < b)
  rotations := rail.rotations.filter (·.block_index < b)

/-- The in-place restores. -/
def Rail.restore (p : Params A) (b : Int) : RailKind → Rail A → Rail A
  | .capability, rail => rail.restoreSlashAmounts p .capability b
      |>.resetDeactivations p .capability b
  | .contract, rail => rail.restoreSlashAmounts p .contract b |>.restoreRotatedKeys b
      |>.resetDeactivations p .contract b

/-- The rail's share of `rollbackIndexer`, in the order of its statements. -/
def Rail.rollback (p : Params A) (firstActionIndex : Option Int) (b : Int) (kind : RailKind)
    (rail : Rail A) : Rail A :=
  ((rail.restore p b kind).reopenUnstakes b).deleteOrphaned firstActionIndex b

/-! ### What blocks do to a rail -/

inductive RailOp (A : Type) where
  | stake (s : Stake A)
  | slash (target : TargetTable) (key : Int) (amount : A) (place : SlashPlace)
  | rotate (target : TargetTable) (key delegation_action_index signing_pubkey_id : Int)
  /-- With the stakes it stamps. -/
  | unstake (u : Unstake A) (stamped : List Int)
  | complete (key : Int)
  deriving DecidableEq, Repr

namespace Rail

def bonds (rail : Rail A) : TargetTable → List (Bond A)
  | .stakes => rail.stakes.map Stake.toBond
  | .unstakes => rail.unstakes.map Unstake.toBond

def find (rail : Rail A) (target : TargetTable) (key : Int) : Option (Bond A) :=
  (rail.bonds target).find? (·.action_index = key)

def modify (target : TargetTable) (key : Int) (f : Bond A → Bond A) (rail : Rail A) : Rail A :=
  rail.mapBonds fun t r => if t = target && r.action_index = key then f r else r

def slashDebit (target : TargetTable) (place : SlashPlace) (h : Int) (r : Bond A) : SlashDebit A :=
  ⟨place, target, r.action_index, h, r.amount⟩

/-- Contract slashes cut a row further each time; capability slashes follow the order of their
actions. -/
def slashable (p : Params A) (kind : RailKind) (rail : Rail A) (r : Bond A) (amount : A)
    (debit : SlashDebit A) : Bool :=
  match kind with
  | .contract => p.cast amount < p.cast r.amount
  | .capability => rail.slash_debits.all fun e =>
      (RailKind.debits p .capability).key e ≠ (RailKind.debits p .capability).key debit ||
        RailKind.before p .capability e debit

def slash (p : Params A) (kind : RailKind) (h : Int) (target : TargetTable) (key : Int) (amount : A)
    (place : SlashPlace) (rail : Rail A) : Option (Rail A) :=
  (rail.find target key).bind fun r =>
    let debit := slashDebit target place h r
    if rail.slashable p kind r amount debit then
      some { rail.modify target key fun r => { r with amount := amount } with
        slash_debits := rail.slash_debits ++ [debit] }
    else none

def rotate (kind : RailKind) (h : Int) (target : TargetTable) (key delegation signing : Int)
    (rail : Rail A) : Option (Rail A) :=
  (rail.find target key).bind fun r =>
    let rotation : Rotation := ⟨target, key, h, delegation, r.signing_pubkey_id⟩
    if kind = .contract && rail.rotations.all fun e =>
        rotationJournal.key e ≠ rotationJournal.key rotation || rotationJournal.before e rotation then
      some { rail.modify target key fun r => { r with signing_pubkey_id := signing } with
        rotations := rail.rotations ++ [rotation] }
    else none

def stampRow (p : Params A) (h : Int) (stamped : List Int) (s : Stake A) : Stake A :=
  if s.action_index ∈ stamped then { s with deactivation_block := some (h + p.activationDelay) }
  else s

/-- A stamp goes on stakes of the unstaked bond that are not deactivated yet. -/
def stamp (p : Params A) (kind : RailKind) (h : Int) (u : Unstake A) (stamped : List Int)
    (rail : Rail A) : Option (Rail A) :=
  if rail.stakes.all fun s => s.action_index ∉ stamped ||
      (kind.sameBond s.toBond u.toBond && s.deactivation_block.isNone) then
    some { rail with
      stakes := rail.stakes.map (stampRow p h stamped)
      unstakes := rail.unstakes ++ [u] }
  else none

instance decidableAction (action h : Int) (actions : List (Int × Int)) :
    Decidable ((action, h) ∈ actions) :=
  inferInstance

/-- One write of block `h`; none where no block writes it. -/
def apply (p : Params A) (kind : RailKind) (actions : List (Int × Int)) (h : Int) (rail : Rail A) :
    RailOp A → Option (Rail A)
  | .stake s =>
    if (s.action_index, h) ∈ actions ∧ s.deactivation_block = none ∧
        (rail.find .stakes s.action_index).isNone then
      some { rail with stakes := rail.stakes ++ [s] }
    else none
  | .slash target key amount place => rail.slash p kind h target key amount place
  | .rotate target key delegation signing => rail.rotate kind h target key delegation signing
  | .unstake u stamped =>
    if (u.action_index, h) ∈ actions ∧ u.block_index = h ∧ u.status = .valid ∧
        (rail.find .unstakes u.action_index).isNone then
      rail.stamp p kind h u stamped
    else none
  | .complete key =>
    if rail.unstakes.any fun u =>
        u.action_index = key && u.status = .valid && u.cooldown_end_block = h then
      some { rail with
        unstakes := rail.unstakes.map fun u =>
          if u.action_index = key then { u with status := .completed } else u }
    else none

end Rail

end XChainSync.Rollback
