import Mathlib
import XChainSync.Rollback.StakeRestores

/-!
# `rollbackIndexer` over the replica's tables

The tables with columns that later blocks edit in place, the writes of a block on them, and the
rollback with its statements in order. A history is a list of blocks from height 1; what no block
writes gives none.
-/

namespace XChainSync.Rollback
set_option autoImplicit false

variable {A : Type}

/-! ### Tables whose rows are flipped under a stamp -/

inductive FlipTable where
  | attests
  | xcalls
  | polls
  | bet_feeds
  | bets
  | delegations
  | contract_delegations
  deriving DecidableEq, Repr

namespace FlipTable

def Row : FlipTable → Type
  | attests => Attest
  | xcalls => Xcall
  | polls => Poll
  | bet_feeds => BetFeed
  | bets => Bet
  | delegations => Delegation
  | contract_delegations => Delegation

def inPlace (activationDelay : Int) : (i : FlipTable) → InPlace i.Row
  | attests => Rollback.attests
  | xcalls => Rollback.xcalls
  | polls => Rollback.polls
  | bet_feeds => Rollback.betFeeds
  | bets => Rollback.bets
  | delegations => Rollback.delegations activationDelay
  | contract_delegations => Rollback.delegations activationDelay

/-- The row an action adds. -/
def newRow : (i : FlipTable) → Int → i.Row
  | attests, a => Attest.mk a .pending none
  | xcalls, a => Xcall.mk a .pending none none none none
  | polls, a => Poll.mk a .isOpen none none none none
  | bet_feeds, a => BetFeed.mk a .isOpen none none
  | bets, a => Bet.mk a none none
  | delegations, a => Delegation.mk a none
  | contract_delegations, a => Delegation.mk a none

end FlipTable

inductive Flip : FlipTable → Type where
  | attest (status : RequestStatus) : Flip .attests
  | xcall (result : XcallResult) : Flip .xcalls
  | finalize (status : PollStatus) (summary : PollSummary) (due execute : Option Int) : Flip .polls
  | fire (execute : Int) : Flip .polls
  | latch : Flip .bet_feeds
  | terminate (name : String) : Flip .bet_feeds
  | settle (status : String) : Flip .bets
  | revoke : Flip .delegations
  | revokeContract : Flip .contract_delegations

def Flip.run (activationDelay : Int) : {i : FlipTable} → Flip i → Int → i.Row → Option i.Row
  | _, attest status => Attest.resolve status
  | _, xcall result => Xcall.resolve result
  | _, finalize status summary due execute => Poll.finalize status summary due execute
  | _, fire execute => Poll.fire execute
  | _, latch => BetFeed.latch
  | _, terminate name => BetFeed.terminate name
  | _, settle status => Bet.settle status
  | _, revoke => Delegation.deactivate activationDelay
  | _, revokeContract => Delegation.deactivate activationDelay

/-! ### The tables and their rollback -/

structure Credit (A : Type) where
  action_index : Int
  address_id : Int
  tick_id : Int
  amount : A
  deriving DecidableEq, Repr

@[ext]
structure Tables (A : Type) where
  /-- `(action_index, block_index)` -/
  actions : List (Int × Int)
  rows : (i : FlipTable) → List i.Row
  rails : RailKind → Rail A
  credits : List (Credit A)

def getFirstActionIndex (b : Int) (actions : List (Int × Int)) : Option Int :=
  ((actions.filter (b ≤ ·.2)).map Prod.fst).min?

/-- The tick a matured cooldown is refunded in. -/
def RailKind.refundTick (p : Params A) : RailKind → Unstake A → Int
  | .capability, _ => p.gasTick
  | .contract, u => u.tick_id

/-- The join of a credit with the unstake it refunds. -/
def RailKind.pays (p : Params A) (kind : RailKind) (u : Unstake A) (c : Credit A) : Bool :=
  u.action_index = c.action_index && u.source_id = c.address_id && kind.refundTick p u = c.tick_id

namespace Tables

def resetFlips (p : Params A) (b : Int) (t : Tables A) : Tables A :=
  { t with rows := fun i => (t.rows i).map ((i.inPlace p.activationDelay).undo b) }

def restoreRails (p : Params A) (b : Int) (t : Tables A) : Tables A :=
  { t with rails := fun kind => (t.rails kind).restore p b kind }

def refunded (p : Params A) (kind : RailKind) (b : Int) (t : Tables A) (c : Credit A) : Bool :=
  (t.rails kind).unstakes.any fun u => kind.pays p u c && Rail.orphanedMaturity b u

def deleteMaturityCredits (p : Params A) (kind : RailKind) (b : Int) (t : Tables A) : Tables A :=
  { t with credits := t.credits.filter (! t.refunded p kind b ·) }

def reverseCooldownMaturities (p : Params A) (b : Int) (t : Tables A) : Tables A :=
  let t := (t.deleteMaturityCredits p .capability b).deleteMaturityCredits p .contract b
  { t with rails := fun kind => (t.rails kind).reopenUnstakes b }

def deleteOrphaned (p : Params A) (firstActionIndex : Option Int) (b : Int) (t : Tables A) :
    Tables A where
  actions := t.actions.filter (survives firstActionIndex ·.1)
  rows i := (t.rows i).filter (survives firstActionIndex <| (i.inPlace p.activationDelay).key ·)
  rails kind := (t.rails kind).deleteOrphaned firstActionIndex b
  credits := t.credits.filter (survives firstActionIndex ·.action_index)

def rollbackIndexer (p : Params A) (b : Int) (t : Tables A) : Tables A :=
  let firstActionIndex := getFirstActionIndex b t.actions
  t |>.resetFlips p b |>.restoreRails p b |>.reverseCooldownMaturities p b
    |>.deleteOrphaned p firstActionIndex b

end Tables

/-! ### Blocks -/

inductive Op (A : Type) where
  | action (action_index : Int)
  | create (i : FlipTable) (action_index : Int)
  | flip {i : FlipTable} (key : Int) (f : Flip i)
  | rail (kind : RailKind) (op : RailOp A)
  /-- A cooldown ends; its refund keeps the action of the unstake. -/
  | mature (kind : RailKind) (key : Int) (refund : A)
  | credit (c : Credit A)

namespace Tables

def empty : Tables A where
  actions := []
  rows _ := []
  rails _ := ⟨[], [], [], []⟩
  credits := []

def paidFor (p : Params A) (t : Tables A) (kind : RailKind) (u : Unstake A) : Bool :=
  t.credits.any (kind.pays p u)

/-- The action of an unstake is no other unstake's and credits its source nothing in its tick. -/
def admits (p : Params A) (t : Tables A) (kind : RailKind) : RailOp A → Bool
  | .unstake u _ => !t.paidFor p kind u &&
      [RailKind.capability, .contract].all fun k => ((t.rails k).find .unstakes u.action_index).isNone
  | _ => true

def setRail (t : Tables A) (kind : RailKind) (rail : Rail A) : Tables A :=
  { t with rails := fun k => if k = kind then rail else t.rails k }

def applyRail (p : Params A) (h : Int) (t : Tables A) (kind : RailKind) (op : RailOp A) :
    Option (Tables A) :=
  if t.admits p kind op then
    ((t.rails kind).apply p kind t.actions h op).map (t.setRail kind)
  else none

def flipRows {i : FlipTable} (p : Params A) (h : Int) (key : Int) (f : Flip i) (rows : List i.Row) :
    List i.Row :=
  rows.map fun r =>
    if (i.inPlace p.activationDelay).key r = key then (f.run p.activationDelay h r).getD r else r

/-- One write of block `h`. -/
def apply (p : Params A) (h : Int) (t : Tables A) : Op A → Option (Tables A)
  | .action a =>
    if t.actions.all (·.1 < a) then some { t with actions := t.actions ++ [(a, h)] } else none
  | .create i a =>
    if (a, h) ∈ t.actions then
      some { t with rows := Function.update t.rows i (t.rows i ++ [i.newRow a]) }
    else none
  | .flip (i := i) key f =>
    some { t with rows := Function.update t.rows i (flipRows p h key f (t.rows i)) }
  | .rail kind op => t.applyRail p h kind op
  | .mature kind key refund =>
    ((t.rails kind).unstakes.find? (·.action_index = key)).bind fun u =>
      (t.applyRail p h kind (.complete key)).map fun t =>
        { t with credits := t.credits ++ [⟨key, u.source_id, kind.refundTick p u, refund⟩] }
  | .credit c =>
    if (c.action_index, h) ∈ t.actions ∧
        ([RailKind.capability, .contract].all fun k =>
          !(t.rails k).unstakes.any fun u => k.pays p u c) then
      some { t with credits := t.credits ++ [c] }
    else none

def applyBlock (p : Params A) (h : Int) (ops : List (Op A)) (t : Tables A) : Option (Tables A) :=
  ops.foldlM (apply p h) t

/-- Blocks from height `h` on. -/
def applyBlocks (p : Params A) : Int → List (List (Op A)) → Tables A → Option (Tables A)
  | _, [], t => some t
  | h, ops :: blocks, t => (t.applyBlock p h ops).bind (applyBlocks p (h + 1) blocks)

end Tables

end XChainSync.Rollback
