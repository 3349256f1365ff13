import XChainSync.Client.State

/-!
# What the client's calls do between two awaits

The synchronous helpers of src/client/sync.js and src/client/verified_tip.js over the client's
state: halting, the apply lock, the shared walk, the catch-up runner and the start and end of live
applies and rollbacks.
-/

namespace XChainSync.Client
set_option autoImplicit false

namespace ClientSync

/-- `haltOnDivergence` up to its first await: the first halt stays. -/
def halt (c : ClientSync) (reason : HaltReason) : ClientSync :=
  if c.halted.isSome then c else { c with halted := some reason }

def setTask (c : ClientSync) (id : TaskId) (t : Option Task) : ClientSync :=
  { c with tasks := fun j => if j = id then t else c.tasks j }

/-- A task that starts; the chain waits for the one it has started. -/
def spawn (c : ClientSync) (driver : Driver) (work : Work) : ClientSync :=
  { c.setTask c.nextTask (some ⟨driver, work⟩) with
    nextTask := c.nextTask + 1
    chain := if driver = .chain then some c.nextTask else c.chain }

/-- A task that ends. The timer of a height drops its reports after its apply. -/
def endTask (c : ClientSync) (id : TaskId) (driver : Driver) : ClientSync :=
  let c := c.setTask id none
  let c := { c with chain := if c.chain = some id then none else c.chain }
  match driver with
  | .blockTimer height => { c with votes := c.votes.dropPending height }
  | _ => c

/-! ### The apply lock -/

def lockRequest (c : ClientSync) (p : Party) : ClientSync := { c with applyLock := c.applyLock ++ [p] }

def holdsLock (c : ClientSync) (p : Party) : Bool := c.applyLock.head? = some p

def lockRelease (c : ClientSync) : ClientSync := { c with applyLock := c.applyLock.tail }

/-! ### The walk -/

/-- `verifiedThroughLastApplied`. -/
def verifiedThroughLastApplied (c : ClientSync) : Bool :=
  match c.marker.verifiedTip, c.lastAppliedBlock with
  | .num v, some tip => v = tip
  | _, _ => false

/-- Start the shared walk unless one is under way. -/
def startWalk (c : ClientSync) : ClientSync :=
  if c.tailVerify.isSome then c
  else
    let pc := if 0 < c.marker.rowRemovalsInFlight then WalkPc.finished .held else .readTip
    { c with tailVerify := some ⟨c.marker.rowGeneration, false, pc⟩ }

/-- The walk ends: every call that awaits it gets its verdict. -/
def finishWalk (c : ClientSync) (v : TailVerdict) : ClientSync :=
  { c with
    tailVerify := none
    tasks := fun id => (c.tasks id).map (Task.resume v)
    catchUp := c.catchUp.map (Runner.resume v) }

/-! ### The catch-up runner -/

/-- `incrementalCatchUpBlocked`. -/
def incrementalCatchUpBlocked (c : ClientSync) : Bool :=
  c.halted.isSome || !c.votes.strictConfirmPending.isEmpty ||
    !c.reorgs.strictReorgPending.isEmpty

/-- `incrementalCatchUp` up to its first await. -/
def incrementalCatchUp (c : ClientSync) : ClientSync :=
  if c.incrementalCatchUpBlocked then c
  else if c.catchUp.isSome then { c with catchUpPending := true }
  else { c with
    catchUpPending := false
    catchUp := some ⟨c.lastAppliedBlock, .readTip⟩ }

/-- The event chain calls `incrementalCatchUp` and awaits the runner, if there is one. -/
def catchUpOnChain (c : ClientSync) : ClientSync :=
  let blocked := c.incrementalCatchUpBlocked
  let c := c.incrementalCatchUp
  if blocked then c else c.spawn .chain .awaitCatchUp

def setRunner (c : ClientSync) (pc : RunnerPc) : ClientSync :=
  { c with catchUp := c.catchUp.map fun r => { r with pc := pc } }

/-- The runner ends, and with it every call that awaits it. -/
def finishRunner (c : ClientSync) : ClientSync :=
  let waits := fun id => ((c.tasks id).map fun t => Work.awaitsCatchUp t.work).getD false
  { c with
    catchUp := none
    tasks := fun id => if waits id then none else c.tasks id
    chain := if (c.chain.map waits).getD false then none else c.chain }

/-- The loop of `incrementalCatchUp` after a pass. -/
def endPass (c : ClientSync) (r : Runner) : ClientSync :=
  if c.catchUpPending && c.lastAppliedBlock ≠ r.before && !c.incrementalCatchUpBlocked then
    { c with
      catchUpPending := false
      catchUp := some ⟨c.lastAppliedBlock, .readTip⟩ }
  else c.finishRunner

/-! ### Live applies -/

def startLive (c : ClientSync) (driver : Driver) (event : BlockEvent) : ClientSync :=
  if c.halted.isSome then
    match driver with
    | .blockTimer height => { c with votes := c.votes.dropPending height }
    | _ => c
  else c.spawn driver (.live event .trainGate)

/-! ### Rollbacks -/

/-- A `handleReorg` that returns before its lock: `rewindForkedHead` goes on after it. -/
def reorgReturns (c : ClientSync) (driver : Driver) (r : Rollback) : ClientSync :=
  if r.rewind then c.spawn driver (.rollback r .rewound) else c

/-- `handleReorg` up to its wait for the apply lock. -/
def startRollback (cfg : Config) (c : ClientSync) (driver : Driver) (r : Rollback) : ClientSync :=
  if c.halted.isSome then c.reorgReturns driver r
  else
    let (guard, verdict) :=
      reorgChecks cfg c.votes c.guard c.lastAppliedBlock r.event r.reports
    let c := { c with guard := guard }
    match verdict with
    | .ignored => c.reorgReturns driver r
    | .tooDeep => (c.halt .maxRollbackDepth).reorgReturns driver r
    | .accepted => (c.spawn driver (.rollback r .lockWait)).lockRequest (.task c.nextTask)

/-- `handleSourceReorg`. -/
def sourceReorg (cfg : Config) (c : ClientSync) (event : ReorgEvent) (i : SourceIndex)
    (rewind : Bool) : ClientSync :=
  if c.halted.isSome then c
  else
    let (guard, reorgs, agreed) :=
      handleSourceReorg cfg c.votes c.guard c.lastAppliedBlock c.reorgs event i rewind
    let c := { c with
      guard := guard
      reorgs := reorgs
      delivered := c.delivered ++ [event.report i] }
    match agreed with
    | none => c
    | some a => c.startRollback cfg .chain ⟨a.event, some a.reports, a.rewind⟩

def setRollback (c : ClientSync) (id : TaskId) (driver : Driver) (r : Rollback) (pc : RollbackPc) :
    ClientSync :=
  c.setTask id (some ⟨driver, .rollback r pc⟩)

/-- A rollback returns from `handleReorg`: to the runner, to `rewindForkedHead`, or for good. -/
def endRollback (c : ClientSync) (id : TaskId) (driver : Driver) (r : Rollback) : ClientSync :=
  if driver = .runner then
    { (c.endTask id driver).setRunner .passEnd with catchUpPending := true }
  else if r.rewind then c.setRollback id driver r .rewound
  else c.endTask id driver

/-- A rollback that throws under the lock: the removal closes, the lock is released and the client
halts. -/
def failRollback (c : ClientSync) (id : TaskId) (driver : Driver) (r : Rollback) : ClientSync :=
  let c := { c with marker := c.marker.endRowRemoval }
  let c := c.lockRelease.halt .reorgRollbackFailed
  { c with reorgs := c.reorgs.prune c.lastAppliedBlock }.endRollback id driver r

end ClientSync

end XChainSync.Client
