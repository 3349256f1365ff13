import XChainSync.Client.Replica
import XChainSync.Client.ReorgQuorum

/-!
# The client's state

The parties of a running client are the calls it has in flight: live applies and rollbacks
(`Task`, started by the event chain, a timer or the catch-up runner), the one catch-up runner with
the bootstraps it falls back to, and the one verification walk. Each is kept as the point it awaits
at, with the values it has captured. What they share is the database, the cursor
`lastAppliedBlock`, the apply lock, the verified-tip marker with its write queue, the rollback
guard and the votes.
-/

namespace XChainSync.Client
set_option autoImplicit false

abbrev TaskId := Nat

/-- Who waits for the apply lock or for a marker write. -/
inductive Party where
  | task (id : TaskId)
  | runner
  | walk
  deriving DecidableEq, Repr

inductive HaltReason where
  | trainActivation
  | localRecompute
  | recomputeError
  | stateHash
  | stateCommitment
  | noSourceQuorum
  | maxRollbackDepth
  | reorgRollbackFailed
  | sinceBlockMismatch
  | catchUpTooLarge
  | snapshotTooLarge
  | schemaApply
  | duplicateKey
  | guardStateInvalid
  /-- A check outside the modelled paths, such as the checkpoint anchor. -/
  | elsewhere
  deriving DecidableEq, Repr

/-! ### The verified-tip marker -/

/-- `_verifiedTip`: not loaded, loaded and absent, or a height. -/
inductive Marker where
  | undefined
  | null
  | num (h : Int)
  deriving DecidableEq, Repr

def Marker.ofStored : Option Int → Marker
  | none => .null
  | some h => .num h

inductive MarkerOp where
  | advance (n : Int) (generation : Nat)
  | persist (generation : Nat)
  | lower (n : Int)
  | adopt (n : Int) (strict : Bool)
  deriving DecidableEq, Repr

structure MarkerWrite where
  op : MarkerOp
  owner : Party
  deriving DecidableEq, Repr

/-- The in-memory marker, the row generation and the queue of marker writes. `writing` is the value
the write at the head of the queue has under way. -/
structure VerifiedTip where
  verifiedTip : Marker
  persistedVerifiedTip : Option Int
  rowGeneration : Nat
  rowRemovalsInFlight : Nat
  markerWrites : List MarkerWrite
  writing : Option Int

namespace VerifiedTip

def init : VerifiedTip := ⟨.undefined, none, 0, 0, [], none⟩

def rowsChangedSince (m : VerifiedTip) (generation : Nat) : Bool :=
  m.rowGeneration ≠ generation || 0 < m.rowRemovalsInFlight

def bumpRowGeneration (m : VerifiedTip) : VerifiedTip :=
  { m with rowGeneration := m.rowGeneration + 1 }

def queueMarkerWrite (m : VerifiedTip) (op : MarkerOp) (owner : Party) : VerifiedTip :=
  { m with markerWrites := m.markerWrites ++ [⟨op, owner⟩] }

/-- The open half of `beginRowRemoval`. -/
def openRemoval (m : VerifiedTip) : VerifiedTip :=
  { m.bumpRowGeneration with rowRemovalsInFlight := m.rowRemovalsInFlight + 1 }

def endRowRemoval (m : VerifiedTip) : VerifiedTip :=
  { m.bumpRowGeneration with rowRemovalsInFlight := m.rowRemovalsInFlight - 1 }

def loadVerifiedTip (m : VerifiedTip) (stored : Option Int) : VerifiedTip :=
  { m with verifiedTip := .ofStored stored, persistedVerifiedTip := stored }

def noteVerifiedBlock (m : VerifiedTip) (h : Int) : VerifiedTip :=
  match m.verifiedTip with
  | .num v => if v < h then { m with verifiedTip := .num h } else m
  | _ => { m with verifiedTip := .num h }

/-- A write of `party` is queued or under way. -/
def owes (m : VerifiedTip) (party : Party) : Bool := m.markerWrites.any (·.owner = party)

end VerifiedTip

/-! ### Calls in flight -/

inductive TailVerdict where
  | ok
  | halted
  | held
  deriving DecidableEq, Repr

/-- What started a task: the serialized event chain, the quorum timer of a height, the quorum timer
of a reorg, or the catch-up runner. -/
inductive Driver where
  | chain
  | blockTimer (height : Int)
  | reorgTimer
  | runner
  deriving DecidableEq, Repr

/-- Where `applyAndVerifyBlock` awaits. -/
inductive LivePc where
  | trainGate
  | tailClear
  | awaitTail
  | tailDone (verdict : TailVerdict)
  | lockWait (generation : Nat)
  | recompute (generation : Nat) (seen : List Nat)
  /-- `reads`: whether every read so far saw the block as the tip. -/
  | stateHash (generation : Nat) (reads : Option Bool)
  | finish (generation : Nat)
  | marking
  deriving DecidableEq, Repr

/-- Where `applyReorgRollback` awaits. -/
inductive RollbackPc where
  | lockWait
  | loading
  | loaded (stored : Option Int)
  | lowering
  /-- The guard state being written. -/
  | persisting (state : RollbackGuard)
  | deleting
  | deleted
  | pruning
  /-- `rewindForkedHead` after its `handleReorg`. -/
  | rewound
  deriving DecidableEq, Repr

structure Rollback where
  event : ReorgEvent
  reports : Option (List ReorgReport)
  rewind : Bool

inductive Work where
  | live (event : BlockEvent) (pc : LivePc)
  | rollback (r : Rollback) (pc : RollbackPc)
  /-- The decoder's previous-hash check of an arrival. -/
  | linkCheck (event : BlockEvent) (i : SourceIndex)
  | awaitCatchUp

structure Task where
  driver : Driver
  work : Work

/-- A downloaded snapshot: the heights of its block rows and the two heights it declares. -/
structure Snapshot where
  heights : List Int
  block_height : Option Int
  since_block : Option Int
  deriving DecidableEq, Repr

/-- Where `bootstrapFromSnapshot` awaits. -/
inductive FullPc where
  | schema
  | download
  | trainGate (s : Snapshot)
  | lockWait (s : Snapshot)
  | applying (s : Snapshot)
  | applied (s : Snapshot)
  | verify
  | adopting
  deriving DecidableEq, Repr

/-- Where `bootstrapFromHeight` awaits. -/
inductive WindowPc where
  | discover
  | schema (base : Int)
  | download (base : Int)
  | trainGate (base : Int) (s : Snapshot)
  | adopting (base : Int) (s : Snapshot)
  | lockWait (base : Int) (s : Snapshot)
  | committed (s : Snapshot)
  | paged
  | awaitTail
  deriving DecidableEq, Repr

/-- Where `runIncrementalCatchUp` awaits. -/
inductive RunnerPc where
  | readTip
  | gotTip (dbTip : Option Int)
  | awaitTail (dbTip : Int)
  | tailDone (dbTip : Int) (verdict : TailVerdict)
  | download (dbTip : Option Int)
  | trainGate (dbTip : Option Int) (s : Snapshot)
  | rewinding
  | lockWait (dbTip : Option Int) (s : Snapshot)
  | committed (dbTip : Option Int) (s : Snapshot)
  | verify (since : Int) (s : Snapshot)
  | awaitRange
  | passEnd
  | full (pc : FullPc)
  | window (pc : WindowPc)
  deriving DecidableEq, Repr

structure Runner where
  before : Option Int
  pc : RunnerPc
  deriving DecidableEq, Repr

/-- Where `walkUnverifiedTail` awaits. `lo` is the first block of the current window. -/
inductive WalkPc where
  | readTip
  | gotTip (tip : Option Int)
  | loading (tip : Int)
  | loaded (tip : Int) (stored : Option Int)
  | seeding (tip : Int)
  | recompute (h lo tip : Int) (seen : List Nat)
  | stateHash (h lo tip : Int) (reads : Option Bool)
  | persisting (h lo tip : Int)
  | windowEnd (h tip : Int)
  | nextWindow (lo tip : Int)
  | failing (reason : Option HaltReason)
  | finished (verdict : TailVerdict)
  deriving DecidableEq, Repr

structure Walk where
  generation : Nat
  seeded : Bool
  pc : WalkPc
  deriving DecidableEq, Repr

/-! ### What a shared promise delivers -/

def LivePc.resume (v : TailVerdict) : LivePc → LivePc
  | .awaitTail => .tailDone v
  | pc => pc

def Task.resume (v : TailVerdict) (t : Task) : Task :=
  match t.work with
  | .live event pc => { t with work := .live event (pc.resume v) }
  | _ => t

def Runner.resume (v : TailVerdict) (r : Runner) : Runner :=
  match r.pc with
  | .awaitTail dbTip => { r with pc := .tailDone dbTip v }
  | .awaitRange => { r with pc := .passEnd }
  | .window .awaitTail => { r with pc := .passEnd }
  | _ => r

def Work.awaitsCatchUp : Work → Bool
  | .awaitCatchUp => true
  | _ => false

/-! ### The client -/

structure ClientSync where
  db : Replica
  lastAppliedBlock : Option Int
  halted : Option HaltReason
  /-- Set once start() has connected the sources. -/
  liveFollow : Bool
  bootstrapBase : Option Int
  marker : VerifiedTip
  guard : RollbackGuard
  votes : Votes
  reorgs : ReorgVotes
  /-- Holder and waiters of the apply lock, in order. -/
  applyLock : List Party
  nextTask : TaskId
  tasks : TaskId → Option Task
  /-- The task the event chain awaits. -/
  chain : Option TaskId
  catchUp : Option Runner
  catchUpPending : Bool
  tailVerify : Option Walk
  /-- Every reorg report delivered so far. -/
  delivered : List ReorgReport

/-- A process started on a database. -/
def ClientSync.restart (db : Replica) (halted : Option HaltReason) : ClientSync where
  db := db
  lastAppliedBlock := db.tip
  halted := match db.rollback_guard with
    | none => halted
    | some s => if s.Valid then halted else some .guardStateInvalid
  liveFollow := false
  bootstrapBase := db.bootstrap_base
  marker := VerifiedTip.init
  guard := db.rollback_guard.filter fun s => s.Valid
  votes := Votes.init
  reorgs := ReorgVotes.init
  applyLock := []
  nextTask := 0
  tasks := fun _ => none
  chain := none
  catchUp := none
  catchUpPending := false
  tailVerify := none
  delivered := []

end XChainSync.Client
