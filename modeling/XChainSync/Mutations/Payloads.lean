import XChainSync.Library.KeyedRows
import XChainSync.Mutations.Histories

/-!
# What a block payload carries of the stake rows and what a follower makes of it

`buildBlockPayload` reads the tables of the pinned view: the rows an action of the block created, the
journal entries of the block, and in `updated_rows` every row the block mutated in place, all as the
view has them now. The follower inserts the former and upserts the latter.
-/

namespace XChainSync.Mutations
open Rollback Server KeyedRows
set_option autoImplicit false

variable {A : Type}

/-! ### The source's queries -/

def getActionScopedRows {R : Type} (key : R → Int) (rows : List R) (actions : List (Int × Int))
    (block_index : Int) : List R :=
  rows.filter fun r => (key r, block_index) ∈ actions

def getBlockScopedRows {R : Type} (block : R → Int) (rows : List R) (block_index : Int) : List R :=
  rows.filter (block · = block_index)

def findDeactivationStampedRows (stamp : Int) (rail : Rail A) : List (Stake A) :=
  rail.stakes.filter (·.deactivation_block = some stamp)

/-- The join of a row with the debits of the block on its table. -/
def slashDebited (target : TargetTable) (block_index : Int) (rail : Rail A) (a : Int) : Bool :=
  rail.slash_debits.any fun d =>
    d.stake_action_index = a && d.target_table = target && d.block_index = block_index

def rotated (target : TargetTable) (block_index : Int) (rail : Rail A) (a : Int) : Bool :=
  rail.rotations.any fun r =>
    r.stake_action_index = a && r.target_table = target && r.block_index = block_index

def findSlashDebitedStakes (block_index : Int) (rail : Rail A) : List (Stake A) :=
  rail.stakes.filter fun s => slashDebited .stakes block_index rail s.action_index

def findSlashDebitedUnstakes (block_index : Int) (rail : Rail A) : List (Unstake A) :=
  rail.unstakes.filter fun u => slashDebited .unstakes block_index rail u.action_index

/-- `ROTATION_TABLES` are those of the contract rail. -/
def findRotatedStakes (kind : RailKind) (block_index : Int) (rail : Rail A) : List (Stake A) :=
  rail.stakes.filter fun s => kind = .contract && rotated .stakes block_index rail s.action_index

def findRotatedUnstakes (kind : RailKind) (block_index : Int) (rail : Rail A) :
    List (Unstake A) :=
  rail.unstakes.filter fun u => kind = .contract && rotated .unstakes block_index rail u.action_index

def findMaturedCooldownRows (block_index : Int) (rail : Rail A) : List (Unstake A) :=
  rail.unstakes.filter (·.cooldown_end_block = block_index)

/-- The stakes of `updated_rows`, each row once. -/
def collectUpdatedStakes (p : Params A) (kind : RailKind) (block_index : Int) (rail : Rail A) :
    List (Stake A) :=
  collect (·.action_index)
    (findDeactivationStampedRows (block_index + p.activationDelay) rail ++
      findSlashDebitedStakes block_index rail ++ findRotatedStakes kind block_index rail)

def collectUpdatedUnstakes (kind : RailKind) (block_index : Int) (rail : Rail A) :
    List (Unstake A) :=
  collect (·.action_index)
    (findSlashDebitedUnstakes block_index rail ++ findRotatedUnstakes kind block_index rail ++
      findMaturedCooldownRows block_index rail)

structure Payload (A : Type) where
  block_index : Int
  actions : List (Int × Int)
  data : RailKind → Rail A
  updated_stakes : RailKind → List (Stake A)
  updated_unstakes : RailKind → List (Unstake A)

/-- The payload of a block, read from the tables of the view. -/
def buildBlockPayload (p : Params A) (t : Tables A) (block_index : Int) : Payload A where
  block_index := block_index
  actions := getBlockScopedRows Prod.snd t.actions block_index
  data kind :=
    { stakes := getActionScopedRows (·.action_index) (t.rails kind).stakes t.actions block_index
      unstakes := getActionScopedRows (·.action_index) (t.rails kind).unstakes t.actions block_index
      slash_debits := getBlockScopedRows (·.block_index) (t.rails kind).slash_debits block_index
      rotations := getBlockScopedRows (·.block_index) (t.rails kind).rotations block_index }
  updated_stakes kind := collectUpdatedStakes p kind block_index (t.rails kind)
  updated_unstakes kind := collectUpdatedUnstakes kind block_index (t.rails kind)

/-- The payload carries the stake with this action, new or updated. -/
def Payload.carries (payload : Payload A) (kind : RailKind) (a : Int) : Bool :=
  ((payload.data kind).stakes ++ payload.updated_stakes kind).any (·.action_index = a)

/-- The actions of the stakes it carries. -/
def Payload.carried (payload : Payload A) (kind : RailKind) : List Int :=
  ((payload.data kind).stakes ++ payload.updated_stakes kind).map (·.action_index)

theorem Payload.mem_carried {payload : Payload A} {kind : RailKind} {a : Int} :
    a ∈ payload.carried kind ↔ payload.carries kind a = true := by
  simp [carried, carries]

/-! ### The follower -/

structure Follower (A : Type) where
  blocks : List Int
  /-- `(action_index, block_index)` -/
  actions : List (Int × Int)
  rails : RailKind → Rail A

/-- A plain INSERT under a unique key: a row whose key is taken fails the block. -/
def insertRows {R : Type} (key : R → Int) (table rows : List R) : Option (List R) :=
  rows.foldlM (fun table r => if table.any (key · = key r) then none else some (table ++ [r])) table

/-- `INSERT ... ON DUPLICATE KEY UPDATE` of every column. -/
def upsertRows {R : Type} (key : R → Int) (table rows : List R) : List R :=
  rows.foldl (mapSet key) table

def applyRail (rail data : Rail A) (stakes : List (Stake A)) (unstakes : List (Unstake A)) :
    Option (Rail A) :=
  (insertRows (·.action_index) rail.stakes data.stakes).bind fun newStakes =>
    (insertRows (·.action_index) rail.unstakes data.unstakes).map fun newUnstakes =>
      { stakes := upsertRows (·.action_index) newStakes stakes
        unstakes := upsertRows (·.action_index) newUnstakes unstakes
        slash_debits := rail.slash_debits ++ data.slash_debits
        rotations := rail.rotations ++ data.rotations }

namespace Follower

/-- A block that is there already is skipped; a payload that does not go in fails. -/
def applyBlock (f : Follower A) (payload : Payload A) : Option (Follower A) :=
  if payload.block_index ∈ f.blocks then some f else
    (insertRows Prod.fst f.actions payload.actions).bind fun actions =>
      (applyRail (f.rails .capability) (payload.data .capability)
        (payload.updated_stakes .capability) (payload.updated_unstakes .capability)).bind
        fun capability =>
          (applyRail (f.rails .contract) (payload.data .contract)
            (payload.updated_stakes .contract) (payload.updated_unstakes .contract)).map
            fun contract =>
              { blocks := f.blocks ++ [payload.block_index]
                actions := actions
                rails := fun
                  | .capability => capability
                  | .contract => contract }

def rollbackIndexer (p : Params A) (b : Int) (f : Follower A) : Follower A where
  blocks := f.blocks.filter (· < b)
  actions := f.actions.filter (survives (getFirstActionIndex b f.actions) ·.1)
  rails kind := (f.rails kind).rollback p (getFirstActionIndex b f.actions) b kind

/-- A reorg without a tip or above it is ignored. -/
def handleReorg (p : Params A) (b : Int) (f : Follower A) : Follower A :=
  if f.blocks.any (b ≤ ·) then f.rollbackIndexer p b else f

/-- A follower that holds exactly the tables of a chain. -/
def ofChain (p : Params A) (first : Int) (chain : List (StakeBlock A)) : Follower A where
  blocks := (List.range chain.length).map fun (i : Nat) => first + (i : Int)
  actions := (tables p first chain).actions
  rails := (tables p first chain).rails

end Follower

/-- On the tables of a chain the follower's rollback is that of the whole database. -/
theorem rollbackIndexer_eq (p : Params A) (b : Int) (t : Tables A) (blocks : List Int) :
    (⟨blocks, t.actions, t.rails⟩ : Follower A).rollbackIndexer p b =
      ⟨blocks.filter (· < b), (t.rollbackIndexer p b).actions, (t.rollbackIndexer p b).rails⟩ := rfl

end XChainSync.Mutations
