import XChainSync.Client.Calls

/-!
# Steps of the client

`step` runs one party from the await it stands at to its next one. What the party awaited
(a query, a download, a recompute) answers by an `Outcome` of the action, so an interleaving is a
list of actions. The apply lock and the marker queue are first in, first out, as in the source.
-/

namespace XChainSync.Client
set_option autoImplicit false

/-- What an awaited operation answers. -/
inductive Outcome where
  | ok
  /-- The recompute passed and the block has no stored state_hash. -/
  | okNoHash
  /-- A check failed: a mismatch, or a gate that refuses. -/
  | bad
  /-- The operation threw or did not write. -/
  | error
  /-- A committed hash that does not resolve yet. -/
  | unresolved
  /-- One read of a state_hash recompute. -/
  | read
  deriving DecidableEq, Repr

/-- How a catch-up pass fails, as `handleIncrementalCatchUpFailure` tells failures apart. -/
inductive CatchUpError where
  | size
  | duplicateKey
  /-- The schema was healed: the pass runs again without its gate. -/
  | healed
  | other
  deriving DecidableEq, Repr

inductive Action where
  | startup
  | beginLiveFollow
  /-- A block event; `fork` is the answer of the head-fork comparison with `lastHashes`. -/
  | block (event : BlockEvent) (i : SourceIndex) (fork : Bool)
  | status (block_height : Int)
  | reorg (event : ReorgEvent) (i : SourceIndex)
  | reconnect
  | blockTimer (height : Int)
  | reorgTimer (height : Int)
  | task (id : TaskId) (o : Outcome)
  | runner (o : Outcome)
  /-- The tip a source's status gives a from-height bootstrap. -/
  | runnerStatus (tip : Int)
  | runnerGets (s : Snapshot)
  | runnerFails (e : CatchUpError)
  | walk (o : Outcome)
  | markerWrite (o : Outcome)
  | haltPersisted
  | haltElsewhere
  | clearHalt
  | crash (haltKept : Bool)

namespace ClientSync

/-! ### Live applies -/

def setLive (c : ClientSync) (id : TaskId) (driver : Driver) (event : BlockEvent) (pc : LivePc) :
    ClientSync :=
  c.setTask id (some ⟨driver, .live event pc⟩)

/-- The pc after the recompute: the state_hash check, when the event carries one. -/
def afterRecompute (cfg : Config) (event : BlockEvent) (generation : Nat) : LivePc :=
  if cfg.dbType = .indexer && cfg.VERIFY_STATE_HASH && !event.state_hash.nullish then
    .stateHash generation none
  else .finish generation

/-- A recompute that passes on rows it has seen; the join block of a truncated replica is not
recomputed. -/
def recomputePassed (c : ClientSync) (h : Int) (seen : List Nat) : ClientSync :=
  if c.bootstrapBase = some h then c else { c with db := c.db.markRecomputed h seen }

/-- `applier.applyBlock` under the lock: a payload without rows and a stored block are skipped. -/
def applyBlock (c : ClientSync) (event : BlockEvent) : ClientSync :=
  if event.data.isNone || c.db.holds event.block_index then c
  else { c with db := c.db.insert (fun _ => true) [event.block_index] }

def liveStep (cfg : Config) (c : ClientSync) (id : TaskId) (driver : Driver) (event : BlockEvent) :
    LivePc → Outcome → Option ClientSync
  | .trainGate, .ok =>
    if !cfg.tracksVerifiedTip || c.verifiedThroughLastApplied then
      some (c.setLive id driver event .tailClear)
    else if c.halted.isSome then some (c.setLive id driver event (.tailDone .halted))
    else some (c.startWalk.setLive id driver event .awaitTail)
  | .trainGate, .bad => some ((c.halt .trainActivation).endTask id driver)
  | .tailClear, .ok =>
    some ((c.setLive id driver event (.lockWait c.marker.rowGeneration)).lockRequest (.task id))
  | .tailDone .ok, .ok =>
    some ((c.setLive id driver event (.lockWait c.marker.rowGeneration)).lockRequest (.task id))
  | .tailDone _, .ok => some (c.endTask id driver)
  | .lockWait generation, .ok =>
    if c.holdsLock (.task id) then
      let c := (c.applyBlock event).lockRelease
      if cfg.tracksVerifiedTip then
        some (c.setLive id driver event (.recompute generation (c.db.rowsAt event.block_index)))
      else some (c.setLive id driver event (afterRecompute cfg event generation))
    else none
  | .lockWait _, .error =>
    if c.holdsLock (.task id) then some (c.lockRelease.endTask id driver) else none
  | .recompute generation seen, .ok =>
    some ((c.recomputePassed event.block_index seen).setLive id driver event
      (afterRecompute cfg event generation))
  | .recompute _ _, .bad => some ((c.halt .localRecompute).endTask id driver)
  | .recompute _ _, .error => some (c.endTask id driver)
  | .stateHash generation reads, .read =>
    some (c.setLive id driver event (.stateHash generation
      (some (reads.getD true && c.db.tip = some event.block_index))))
  | .stateHash generation (some _), .ok => some (c.setLive id driver event (.finish generation))
  | .stateHash _ (some _), .bad => some ((c.halt .stateHash).endTask id driver)
  | .stateHash _ _, .error => some (c.endTask id driver)
  | .finish generation, .ok =>
    let c := { c with lastAppliedBlock := some event.block_index }
    if cfg.tracksVerifiedTip then
      let marker := c.marker.queueMarkerWrite (.advance event.block_index generation) (.task id)
      some ({ c with marker := marker }.setLive id driver event .marking)
    else some (c.setLive id driver event .marking)
  | .finish _, .bad => some ((c.halt .stateCommitment).endTask id driver)
  | .marking, .ok =>
    if c.marker.owes (.task id) then none
    else
      let votes := match c.lastAppliedBlock with
        | none => c.votes
        | some tip => c.votes.clearAppliedBlockWork tip
      some ({ c with votes := votes }.endTask id driver)
  | _, _ => none

/-! ### Rollbacks -/

/-- The marker is lowered: record the target and write the guard. -/
def recordRollback (cfg : Config) (c : ClientSync) (id : TaskId) (driver : Driver) (r : Rollback) :
    ClientSync :=
  let guard := c.guard.record cfg.maxRollbackDepth (c.lastAppliedBlock.getD 0) r.event.block_index
  { c with guard := guard }.setRollback id driver r (.persisting guard)

def queueLower (c : ClientSync) (id : TaskId) (driver : Driver) (r : Rollback) : ClientSync :=
  let marker := c.marker.queueMarkerWrite (.lower (r.event.block_index - 1)) (.task id)
  { c with marker := marker }.setRollback id driver r .lowering

def rollbackStep (cfg : Config) (c : ClientSync) (id : TaskId) (driver : Driver) (r : Rollback) :
    RollbackPc → Outcome → Option ClientSync
  | .lockWait, .ok =>
    if c.holdsLock (.task id) then
      if c.halted.isSome then some (c.lockRelease.endRollback id driver r)
      else
        let c := { c with marker := c.marker.openRemoval }
        if cfg.tracksVerifiedTip then
          let c := { c with marker := c.marker.bumpRowGeneration }
          if c.marker.verifiedTip = .undefined then some (c.setRollback id driver r .loading)
          else some (c.queueLower id driver r)
        else some (c.recordRollback cfg id driver r)
    else none
  | .loading, .ok => some (c.setRollback id driver r (.loaded c.db.verified_tip))
  | .loading, .error => some (c.failRollback id driver r)
  | .loaded stored, .ok =>
    some ({ c with marker := c.marker.loadVerifiedTip stored }.queueLower id driver r)
  | .lowering, .ok =>
    if c.marker.owes (.task id) then none else some (c.recordRollback cfg id driver r)
  | .persisting state, .ok =>
    some ({ c with db := { c.db with rollback_guard := state } }.setRollback id driver r .deleting)
  | .persisting _, .error => some (c.failRollback id driver r)
  | .deleting, .ok =>
    let c := { c with
      db := c.db.deleteFrom r.event.block_index
      marker := c.marker.endRowRemoval }
    some (c.lockRelease.setRollback id driver r .deleted)
  | .deleting, .error => some (c.failRollback id driver r)
  | .deleted, .ok =>
    some ({ c with lastAppliedBlock := some (r.event.block_index - 1) }.setRollback id driver r
      .pruning)
  | .pruning, .ok =>
    some ({ c with reorgs := c.reorgs.prune c.lastAppliedBlock }.endRollback id driver r)
  | .rewound, .ok =>
    if c.incrementalCatchUpBlocked then some (c.endTask id driver)
    else some (c.incrementalCatchUp.setTask id (some ⟨driver, .awaitCatchUp⟩))
  | _, _ => none

/-! ### The walk -/

def setWalk (c : ClientSync) (w : Walk) (pc : WalkPc) : ClientSync :=
  { c with tailVerify := some { w with pc := pc } }

/-- The head of the loop of `verifyCommittedWindow`. -/
def checkBlock (c : ClientSync) (w : Walk) (h lo tip : Int) : ClientSync :=
  if c.marker.rowsChangedSince w.generation then c.finishWalk .held
  else c.setWalk w (.recompute h lo tip (c.db.rowsAt h))

/-- The walk's range starts above the marker, and not below a truncated replica's join block. -/
def beginRange (c : ClientSync) (w : Walk) (tip : Int) : ClientSync :=
  let above := match c.marker.verifiedTip with
    | .num v => v + 1
    | _ => 0
  let start := match c.bootstrapBase with
    | some base => max above base
    | none => above
  if tip < start then c.finishWalk .ok else c.checkBlock w start start tip

/-- Seed a marker that is absent or above the stored tip, or start the range. -/
def seedOrRange (c : ClientSync) (w : Walk) (tip : Int) : ClientSync :=
  match c.marker.verifiedTip with
  | .num v => if tip < v then c.setWalk w (.seeding tip) else c.beginRange w tip
  | _ => c.setWalk w (.seeding tip)

def queuePersist (c : ClientSync) (w : Walk) : ClientSync :=
  { c with marker := c.marker.queueMarkerWrite (.persist w.generation) .walk }

/-- After block `h` of the window that began at `lo`. -/
def nextBlock (cfg : Config) (c : ClientSync) (w : Walk) (h lo tip : Int) : ClientSync :=
  if h < min (lo + cfg.VERIFY_RANGE_BATCH - 1) tip then c.checkBlock w (h + 1) lo tip
  else (c.queuePersist w).setWalk w (.windowEnd h tip)

def MARKER_WRITE_STEP : Int := 50

/-- Block `h` evaluated to 'ok'. -/
def blockVerified (cfg : Config) (c : ClientSync) (w : Walk) (h lo tip : Int) : ClientSync :=
  if c.marker.rowsChangedSince w.generation then c.finishWalk .held
  else
    let c := { c with marker := c.marker.noteVerifiedBlock h }
    if (h - lo + 1) % MARKER_WRITE_STEP = 0 then
      (c.queuePersist w).setWalk w (.persisting h lo tip)
    else c.nextBlock cfg w h lo tip

/-- A block evaluated to anything else: persist what verified below it, then settle it. -/
def blockFailed (c : ClientSync) (w : Walk) (reason : Option HaltReason) : ClientSync :=
  if c.marker.rowsChangedSince w.generation then c.finishWalk .held
  else (c.queuePersist w).setWalk w (.failing reason)

def walkStep (cfg : Config) (c : ClientSync) (w : Walk) : WalkPc → Outcome → Option ClientSync
  | .readTip, .ok => some (c.setWalk w (.gotTip c.db.tip))
  | .readTip, .error => some (c.finishWalk .held)
  | .gotTip none, .ok => some (c.finishWalk .ok)
  | .gotTip (some tip), .ok =>
    if c.marker.verifiedTip = .undefined then some (c.setWalk w (.loading tip))
    else some (c.seedOrRange w tip)
  | .loading tip, .ok => some (c.setWalk w (.loaded tip c.db.verified_tip))
  | .loading _, .error => some (c.finishWalk .held)
  | .loaded tip stored, .ok =>
    some ({ c with marker := c.marker.loadVerifiedTip stored }.seedOrRange w tip)
  | .seeding tip, .ok =>
    let start := match c.db.post_commit_verify_pending with
      | some legacy => min legacy tip
      | none => tip
    let marker := { c.marker with verifiedTip := .num (start - 1) }
    some ({ c with marker := marker }.beginRange { w with seeded := true } tip)
  | .recompute h lo tip seen, .ok =>
    let c := c.recomputePassed h seen
    if h = tip && cfg.VERIFY_STATE_HASH then some (c.setWalk w (.stateHash h lo tip none))
    else some (c.blockVerified cfg w h lo tip)
  | .recompute h lo tip seen, .okNoHash =>
    some ((c.recomputePassed h seen).blockVerified cfg w h lo tip)
  | .recompute _ _ _ _, .bad => some (c.blockFailed w (some .localRecompute))
  | .recompute _ _ _ _, .error => some (c.blockFailed w (some .recomputeError))
  | .recompute _ _ _ _, .unresolved => some (c.blockFailed w none)
  | .stateHash h lo tip reads, .read =>
    some (c.setWalk w (.stateHash h lo tip (some (reads.getD true && c.db.tip = some h))))
  | .stateHash h lo tip (some _), .ok => some (c.blockVerified cfg w h lo tip)
  | .stateHash _ _ _ (some _), .bad => some (c.blockFailed w (some .stateHash))
  | .stateHash _ _ _ _, .error => some (c.blockFailed w none)
  | .persisting h lo tip, .ok =>
    if c.marker.owes .walk then none else some (c.nextBlock cfg w h lo tip)
  | .windowEnd h tip, .ok =>
    if c.marker.owes .walk then none
    else if c.marker.rowsChangedSince w.generation then some (c.finishWalk .held)
    else if h < tip then some (c.setWalk w (.nextWindow (h + 1) tip))
    else
      let pending := if w.seeded then none else c.db.post_commit_verify_pending
      some ({ c with db := { c.db with post_commit_verify_pending := pending } }.finishWalk .ok)
  | .nextWindow lo tip, .ok => some (c.checkBlock w lo lo tip)
  | .failing reason, .ok =>
    if c.marker.owes .walk then none
    else match reason with
      | some reason => some ((c.halt reason).finishWalk .halted)
      | none => some (c.finishWalk .held)
  | .finished verdict, .ok => some (c.finishWalk verdict)
  | _, _ => none

/-! ### The catch-up runner -/

/-- `handleIncrementalCatchUpFailure`. -/
def passFailed (cfg : Config) (c : ClientSync) (dbTip : Option Int) : CatchUpError → ClientSync
  | .size =>
    if 1 ≤ cfg.truncatedDepth then
      match dbTip with
      | some _ => (c.halt .catchUpTooLarge).setRunner .passEnd
      | none => c.setRunner (.window .discover)
    else c.setRunner (.full .schema)
  | .duplicateKey => (c.halt .duplicateKey).setRunner .passEnd
  | .healed => c.setRunner .readTip
  | .other => c.setRunner .passEnd

/-- The rewind of a decoder range that does not build on the tip. -/
def rewindIfCatchUpForked (cfg : Config) (c : ClientSync) (dbTip : Int) : ClientSync :=
  let c' := c.startRollback cfg .runner ⟨⟨dbTip, .plain .undefined⟩, none, false⟩
  if c'.nextTask = c.nextTask then { c'.setRunner .passEnd with catchUpPending := true }
  else c'.setRunner .rewinding

def sinceBlock (dbTip : Option Int) : Int := dbTip.getD 0 + 1

/-- `startVerifiedTipBelow`. -/
def startVerifiedTipBelow (cfg : Config) (c : ClientSync) (since : Int) : ClientSync :=
  if cfg.tracksVerifiedTip then
    { c with marker := { c.marker with verifiedTip := .num (since - 1) } }
  else c

/-- `verifyUnverifiedTail` called by the runner, which goes on at `pc`. -/
def runnerAwaitsTail (cfg : Config) (c : ClientSync) (pc skipped : RunnerPc) : ClientSync :=
  if !cfg.tracksVerifiedTip then c.setRunner skipped
  else if c.halted.isSome then c.setRunner .passEnd
  else c.startWalk.setRunner pc

def fullStep (cfg : Config) (c : ClientSync) : FullPc → Outcome → Option ClientSync
  | .schema, .ok =>
    if c.halted.isSome then some c.finishRunner else some (c.setRunner (.full .download))
  | .schema, .bad => some (c.halt .schemaApply).finishRunner
  | .trainGate s, .ok => some ((c.setRunner (.full (.lockWait s))).lockRequest .runner)
  | .trainGate _, .bad => some (c.halt .trainActivation).finishRunner
  | .lockWait s, .ok =>
    if c.holdsLock .runner then
      some ({ c with marker := c.marker.openRemoval }.setRunner (.full (.applying s)))
    else none
  | .applying s, .ok =>
    let c := { c with
      db := { c.db.replaceAll s.heights with rollback_guard := none }
      guard := none
      marker := c.marker.endRowRemoval }
    some (c.lockRelease.setRunner (.full (.applied s)))
  | .applying _, .error =>
    some ({ c with marker := c.marker.endRowRemoval }.lockRelease.setRunner (.full .schema))
  | .applied s, .ok =>
    some ({ c with
      lastAppliedBlock := s.block_height
      bootstrapBase := none
      db := { c.db with bootstrap_base := none } }.setRunner (.full .verify))
  | .verify, .ok =>
    match c.lastAppliedBlock with
    | some tip =>
      if cfg.tracksVerifiedTip then
        let marker := c.marker.bumpRowGeneration.queueMarkerWrite (.adopt tip false) .runner
        some ({ c with marker := marker }.setRunner (.full .adopting))
      else some (c.setRunner .passEnd)
    | none => some (c.setRunner .passEnd)
  | .verify, .bad => some (c.halt .localRecompute).finishRunner
  | .verify, .error => some (c.setRunner (.full .schema))
  | .adopting, .ok => if c.marker.owes .runner then none else some (c.setRunner .passEnd)
  | _, _ => none

/-- A from-height round that failed: another one, unless the client has halted. -/
def windowRetry (c : ClientSync) : ClientSync :=
  if c.halted.isSome then c.finishRunner else c.setRunner (.window .discover)

def windowStep (cfg : Config) (c : ClientSync) : WindowPc → Outcome → Option ClientSync
  | .schema base, .ok =>
    if c.halted.isSome then some c.finishRunner else some (c.setRunner (.window (.download base)))
  | .schema _, .bad => some (c.halt .schemaApply).finishRunner
  | .trainGate base s, .ok =>
    let base := s.since_block.getD base
    let c := { c with
      bootstrapBase := some base
      db := { c.db with bootstrap_base := some base } }
    if cfg.tracksVerifiedTip then
      let marker := c.marker.bumpRowGeneration.queueMarkerWrite (.adopt base true) .runner
      some ({ c with marker := marker }.setRunner (.window (.adopting base s)))
    else some ((c.setRunner (.window (.lockWait base s))).lockRequest .runner)
  | .trainGate _ _, .bad => some (c.halt .trainActivation).finishRunner
  | .adopting base s, .ok =>
    if c.marker.owes .runner then none
    else some ((c.setRunner (.window (.lockWait base s))).lockRequest .runner)
  | .lockWait base s, .ok =>
    if c.holdsLock .runner then
      some ({ c with db := c.db.insert (fun h => base < h) s.heights }.lockRelease.setRunner
        (.window (.committed s)))
    else none
  | .committed s, .ok =>
    some ({ c with
      lastAppliedBlock := s.block_height.orElse fun _ => c.lastAppliedBlock }.setRunner
        (.window .paged))
  | .paged, .ok => some (c.runnerAwaitsTail cfg (.window .awaitTail) .passEnd)
  | _, _ => none

def runnerStep (cfg : Config) (c : ClientSync) (r : Runner) : RunnerPc → Outcome → Option ClientSync
  | .readTip, .ok => some (c.setRunner (.gotTip c.db.tip))
  | .gotTip none, .ok =>
    some ((c.startVerifiedTipBelow cfg (sinceBlock none)).setRunner (.download none))
  | .gotTip (some tip), .ok => some (c.runnerAwaitsTail cfg (.awaitTail tip) (.download (some tip)))
  | .tailDone tip .ok, .ok => some (c.setRunner (.download (some tip)))
  | .tailDone _ _, .ok => some (c.setRunner .passEnd)
  | .trainGate dbTip s, .ok => some ((c.setRunner (.lockWait dbTip s)).lockRequest .runner)
  | .trainGate _ _, .bad => some ((c.halt .trainActivation).setRunner .passEnd)
  | .trainGate (some tip) s, .unresolved =>
    -- the decoder's first block of the range names another parent
    if cfg.dbType = .decoder && c.lastAppliedBlock = some tip && s.heights.contains (tip + 1) then
      some (c.rewindIfCatchUpForked cfg tip)
    else none
  | .lockWait dbTip s, .ok =>
    if c.holdsLock .runner then
      some ({ c with db := c.db.insert (fun _ => true) s.heights }.lockRelease.setRunner
        (.committed dbTip s))
    else none
  | .committed dbTip s, .ok =>
    some ({ c with
      lastAppliedBlock := s.block_height.orElse fun _ => c.lastAppliedBlock }.setRunner
        (.verify (sinceBlock dbTip) s))
  | .verify since s, .ok =>
    if cfg.tracksVerifiedTip && s.since_block.isSome && s.since_block ≠ some since then
      some ((c.halt .sinceBlockMismatch).setRunner .passEnd)
    else some (c.runnerAwaitsTail cfg .awaitRange .passEnd)
  | .passEnd, .ok => some (c.endPass r)
  | .full pc, o => c.fullStep cfg pc o
  | .window pc, o => c.windowStep cfg pc o
  | _, _ => none

def runnerGets (c : ClientSync) (s : Snapshot) : RunnerPc → Option ClientSync
  | .download dbTip => some (c.setRunner (.trainGate dbTip s))
  | .full .download => some (c.setRunner (.full (.trainGate s)))
  | .window (.download base) => some (c.setRunner (.window (.trainGate base s)))
  | _ => none

/-- Where the runner can throw. -/
def runnerFails (cfg : Config) (c : ClientSync) (e : CatchUpError) : RunnerPc → Option ClientSync
  | .readTip => some (c.passFailed cfg none e)
  | .download dbTip => some (c.passFailed cfg dbTip e)
  | .trainGate dbTip _ => some (c.passFailed cfg dbTip e)
  | .lockWait dbTip _ =>
    if c.holdsLock .runner then some (c.lockRelease.passFailed cfg dbTip e) else none
  | .committed dbTip _ => if cfg.skipLookups then some (c.passFailed cfg dbTip e) else none
  | .full .download =>
    if e = .size then some (c.halt .snapshotTooLarge).finishRunner
    else some (c.setRunner (.full .schema))
  | .window .discover => some c.windowRetry
  | .window (.schema _) => some c.windowRetry
  | .window (.download _) =>
    if e = .size then some (c.halt .snapshotTooLarge).finishRunner else some c.windowRetry
  | .window (.lockWait _ _) =>
    if c.holdsLock .runner then some c.lockRelease.windowRetry else none
  | .window .paged => some c.windowRetry
  | _ => none

/-! ### Marker writes -/

/-- The write at the head of the queue has nothing to write, or is over. -/
def dequeueWrite (c : ClientSync) : ClientSync :=
  { c with marker := { c.marker with markerWrites := c.marker.markerWrites.tail, writing := none } }

def beginWrite (c : ClientSync) (v : Int) : ClientSync :=
  { c with marker := { c.marker with writing := some v } }

def setVerifiedTip (c : ClientSync) (v : Int) : ClientSync :=
  { c with marker := { c.marker with verifiedTip := .num v } }

def startWrite (c : ClientSync) : MarkerOp → ClientSync
  | .advance n generation =>
    if c.marker.rowsChangedSince generation then c.dequeueWrite
    else match c.marker.verifiedTip with
      | .num v => if n ≤ v then c.dequeueWrite else (c.setVerifiedTip n).beginWrite n
      | _ => (c.setVerifiedTip n).beginWrite n
  | .persist generation =>
    if c.marker.rowsChangedSince generation then c.dequeueWrite
    else match c.marker.verifiedTip with
      | .num v =>
        if c.marker.persistedVerifiedTip = some v then c.dequeueWrite else c.beginWrite v
      | _ => c.dequeueWrite
  | .lower n =>
    match c.marker.verifiedTip with
    | .num v => if v ≤ n then c.dequeueWrite else c.beginWrite n
    | _ => c.beginWrite n
  | .adopt n _ => c.beginWrite n

/-- The value has reached the database. -/
def landed (c : ClientSync) (v : Int) : ClientSync :=
  { c with
    db := { c.db with verified_tip := some v }
    marker := { c.marker with persistedVerifiedTip := some v } }.dequeueWrite

def writeLanded (c : ClientSync) (v : Int) : MarkerOp → ClientSync
  | .lower n => (c.landed v).setVerifiedTip n
  | .adopt n _ => (c.landed v).setVerifiedTip n
  | _ => c.landed v

/-- A strict write threw into the call that awaits it. -/
def throwInto (c : ClientSync) : Party → ClientSync
  | .task id =>
    match c.tasks id with
    | some ⟨driver, .rollback r _⟩ => c.failRollback id driver r
    | _ => c
  | .runner => c.windowRetry
  | .walk => c

def writeFailed (c : ClientSync) (owner : Party) : MarkerOp → ClientSync
  | .lower _ => c.dequeueWrite.throwInto owner
  | .adopt n strict =>
    if strict then c.dequeueWrite.throwInto owner else c.dequeueWrite.setVerifiedTip n
  | _ => c.dequeueWrite

def markerStep (c : ClientSync) (o : Outcome) : Option ClientSync :=
  match c.marker.markerWrites, c.marker.writing, o with
  | w :: _, none, .ok => some (c.startWrite w.op)
  | w :: _, some v, .ok => some (c.writeLanded v w.op)
  | w :: _, some _, .error => some (c.writeFailed w.owner w.op)
  | _, _, _ => none

/-! ### Events -/

/-- `handleBlockQuorum` and what `handleBlock` does with its answer. -/
def blockQuorum (cfg : Config) (c : ClientSync) (event : BlockEvent) (i : SourceIndex) :
    ClientSync :=
  let (votes, action) := c.votes.handleBlockQuorum cfg event i
  let c := { c with votes := votes }
  match action with
  | .direct => c.startLive .chain event
  | .accepted applyEvent => c.startLive .chain applyEvent
  | .rejected => if cfg.HALT_ON_DIVERGENCE then c.halt .noSourceQuorum else c
  | _ => c

def handleBlock (cfg : Config) (c : ClientSync) (event : BlockEvent) (i : SourceIndex)
    (fork : Bool) : ClientSync :=
  match c.lastAppliedBlock with
  | none => if 0 < event.block_index then c.catchUpOnChain else c.blockQuorum cfg event i
  | some tip =>
    if event.block_index ≤ tip then
      if event.block_index = tip && fork then
        c.sourceReorg cfg ⟨event.block_index, .plain .undefined⟩ i true
      else c
    else if event.block_index ≠ tip + 1 then c.catchUpOnChain
    else if cfg.dbType = .decoder then c.spawn .chain (.linkCheck event i)
    else c.blockQuorum cfg event i

/-- The chain's arrival once the decoder's link check has answered. -/
def linkChecked (cfg : Config) (c : ClientSync) (event : BlockEvent) (i : SourceIndex) :
    Outcome → Option ClientSync
  | .ok => some (c.blockQuorum cfg event i)
  | .bad =>
    match c.lastAppliedBlock with
    | some tip => some (c.sourceReorg cfg ⟨tip, .plain .undefined⟩ i true)
    | none => none
  | _ => none

def blockTimer (cfg : Config) (c : ClientSync) (event : BlockEvent) : ClientSync :=
  let (votes, action) := c.votes.blockQuorumTimeout cfg c.lastAppliedBlock event
  let c := { c with votes := votes }
  match action with
  | .apply applyEvent => c.startLive (.blockTimer event.block_index) applyEvent
  | .rejected => if cfg.HALT_ON_DIVERGENCE then c.halt .noSourceQuorum else c
  | _ => c

def reorgTimer (cfg : Config) (c : ClientSync) (height : Int) (entry : ReorgEntry) : ClientSync :=
  let (reorgs, agreed) := reorgQuorumTimeout cfg c.votes c.reorgs height entry
  let c := { c with reorgs := reorgs }
  match agreed with
  | none => c
  | some a => c.startRollback cfg .reorgTimer ⟨a.event, some a.reports, a.rewind⟩

def taskStep (cfg : Config) (c : ClientSync) (id : TaskId) (o : Outcome) : Option ClientSync :=
  match c.tasks id with
  | some ⟨driver, .live event pc⟩ => c.liveStep cfg id driver event pc o
  | some ⟨driver, .rollback r pc⟩ => c.rollbackStep cfg id driver r pc o
  | some ⟨driver, .linkCheck event i⟩ => (c.endTask id driver).linkChecked cfg event i o
  | _ => none

/-- Operator clear; a clear of a guard halt forgets the streak. -/
def cleared (c : ClientSync) (reason : HaltReason) : ClientSync :=
  let c := { c with halted := none }
  if reason = .maxRollbackDepth ∨ reason = .guardStateInvalid then
    { c with guard := none, db := { c.db with rollback_guard := none } }
  else c

/-- The event chain takes its next event. -/
def onChain (c : ClientSync) (c' : ClientSync) : Option ClientSync :=
  if c.liveFollow && c.chain.isNone then some c' else none

def startup (cfg : Config) (c : ClientSync) : Option ClientSync :=
  if c.liveFollow || c.catchUp.isSome || c.halted.isSome then none
  else match c.lastAppliedBlock with
    | some _ => some c.incrementalCatchUp
    | none =>
      let pc := if 1 ≤ cfg.truncatedDepth then RunnerPc.window .discover else .full .schema
      some { c with catchUp := some ⟨none, pc⟩ }

def step (cfg : Config) (c : ClientSync) : Action → Option ClientSync
  | .startup => c.startup cfg
  | .beginLiveFollow =>
    if c.liveFollow || c.catchUp.isSome || c.lastAppliedBlock.isNone then none
    else some { c with liveFollow := true }
  | .block event i fork => c.onChain (c.handleBlock cfg event i fork)
  | .status height =>
    c.onChain <| match c.lastAppliedBlock with
      | some tip => if tip + 1 < height then c.catchUpOnChain else c
      | none => c
  | .reorg event i => c.onChain (c.sourceReorg cfg event i false)
  | .reconnect =>
    if c.liveFollow && c.lastAppliedBlock.isSome then some c.incrementalCatchUp else none
  | .blockTimer height => (c.votes.applyTimers height).map (c.blockTimer cfg)
  | .reorgTimer height =>
    match c.reorgs.pendingReorgs height with
    | some entry => if entry.timer then some (c.reorgTimer cfg height entry) else none
    | none => none
  | .task id o => c.taskStep cfg id o
  | .runner o =>
    match c.catchUp with
    | some r => c.runnerStep cfg r r.pc o
    | none => none
  | .runnerStatus tip =>
    match c.catchUp with
    | some ⟨_, .window .discover⟩ =>
      some (c.setRunner (.window (.schema (max 0 (tip - cfg.truncatedDepth)))))
    | _ => none
  | .runnerGets s =>
    match c.catchUp with
    | some r => c.runnerGets s r.pc
    | none => none
  | .runnerFails e =>
    match c.catchUp with
    | some r => c.runnerFails cfg e r.pc
    | none => none
  | .walk o =>
    match c.tailVerify with
    | some w => c.walkStep cfg w w.pc o
    | none => none
  | .markerWrite o => c.markerStep o
  | .haltPersisted =>
    if c.halted.isSome then
      some { c with votes := c.votes.stopBlockVotes, reorgs := c.reorgs.clearAllPendingReorgs }
    else none
  | .haltElsewhere => some (c.halt .elsewhere)
  | .clearHalt => c.halted.map c.cleared
  | .crash haltKept => some (restart c.db (if haltKept then c.halted else none))

end ClientSync

end XChainSync.Client
