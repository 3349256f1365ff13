import XChainSync.Server.Source
import XChainSync.Library.Runs

/-!
# The poll loop of the server

`ServerPoller.poll` runs alone over its own state, but the source moves between any two of its
awaits. A step takes the loop from one await to the next: it reads the source as it stands then.
Between steps the source commits a block, drops blocks or inserts an event.
-/

namespace XChainSync.Server
open Client (DbType)
set_option autoImplicit false

variable {β : Type}

structure PollerConfig where
  dbType : DbType
  recentHashCap : Int
  deriving DecidableEq, Repr

/-- What the broadcaster is handed: a block with its content identity, next to the pinned view its
payload was read from, or a reorg. -/
inductive Broadcast (β : Type) where
  | block (height : Int) (hash : Option String) (view : Source β)
  | reorg (block_index : Int) (retroactive : Option Retroactive)

def Broadcast.isBlock : Broadcast β → Bool
  | block _ _ _ => true
  | reorg _ _ => false

structure Poller (β : Type) where
  lastPolledBlock : Option Int
  lastPolledBlockHash : Option String
  /-- The outer option is `has`; a recorded identity may be null. -/
  recentBroadcastHashes : Int → Option (Option String)
  lastEventId : Option Int
  reorgMarkerCursorInitialized : Bool
  /-- Everything broadcast, newest first. -/
  log : List (Broadcast β)

namespace Poller

def broadcastReorg (p : Poller β) (forkBlock : Int) (retroactive : Option Retroactive) : Poller β :=
  { p with log := .reorg forkBlock retroactive :: p.log }

/-- `publishBlockPayload`. -/
def publishBlockPayload (cfg : PollerConfig) (p : Poller β) (hash : Option String)
    (nextBlock : Int) (view : Source β) : Poller β :=
  let recorded := Function.update p.recentBroadcastHashes nextBlock (some hash)
  { p with
    log := .block nextBlock hash view :: p.log
    lastPolledBlockHash := hash
    recentBroadcastHashes :=
      if cfg.recentHashCap < nextBlock then
        Function.update recorded (nextBlock - cfg.recentHashCap - 1) none
      else recorded }

/-- One turn of the loop of `resolveForkPoint` has an entry below `forkBlock` to compare. -/
def walks (p : Poller β) (forkBlock : Int) : Bool :=
  1 ≤ forkBlock - 1 && (p.recentBroadcastHashes (forkBlock - 1)).isSome

/-- The height below `forkBlock` changed too, by what the source answers for it. -/
def changedBelow (p : Poller β) (forkBlock : Int) (belowSrc : Option String) : Bool :=
  belowSrc.isSome && p.recentBroadcastHashes (forkBlock - 1) ≠ some belowSrc

/-- After a net-forward reorg: the cursor below the fork and the recorded hash there, or null. -/
def rewindForward (p : Poller β) (forkBlock : Int) : Poller β :=
  let p := p.broadcastReorg forkBlock none
  { p with
    lastPolledBlock := some (forkBlock - 1)
    lastPolledBlockHash :=
      if 0 ≤ forkBlock - 1 then (p.recentBroadcastHashes (forkBlock - 1)).getD none else none }

/-- After a marker or a height drop: the cursor below the fork; the hash is set once it is read. -/
def rewind (p : Poller β) (forkBlock : Int) (retroactive : Option Retroactive) : Poller β :=
  { p.broadcastReorg forkBlock retroactive with lastPolledBlock := some (forkBlock - 1) }

/-- The recorded hash of the cursor, when the window holds it. -/
def recordedHash? (p : Poller β) : Option (Option String) :=
  p.lastPolledBlock.bind p.recentBroadcastHashes

def setHash (p : Poller β) (hash : Option String) : Poller β := { p with lastPolledBlockHash := hash }

end Poller

/-! ### The loop as steps from await to await -/

/-- The await the loop stands at. -/
inductive Pc (β : Type) where
  /-- Before `getLastBlock`. -/
  | idle
  /-- `initializePollCursor` before its hash. -/
  | initHash (current : Int)
  /-- `readNewReorgMarkers` before the newest event id. -/
  | markers (current : Int)
  | markerRows (current : Int) (newest : Int)
  | markerPrune (forkBlock : Int) (newest : Int)
  /-- Before the live hash of a cursor that the window does not hold. -/
  | cursorHash
  /-- `handleNetForwardReorg` before the source's hash of the cursor. -/
  | guard (current : Int)
  | forwardWalk (forkBlock : Int)
  | forwardPrune (forkBlock : Int)
  | dropWalk (forkBlock : Int)
  | dropMarker (forkBlock : Int)
  | dropPrune (forkBlock : Int) (retroactive : Option Retroactive)
  /-- `streamNewBlocks` before its snapshot. -/
  | snapshot (current : Int)
  /-- The batch on a pinned view, before the next payload. -/
  | stream (view : Source β) (streamTo : Int) (blocksProcessed : Nat)

/-- What an await gives: its answer, the empty result of a query that failed softly, or an
exception, which ends the poll. -/
inductive Answer where
  | value
  | softFail
  | throws
  deriving DecidableEq, Repr

structure System (β : Type) where
  source : Source β
  poller : Poller β
  pc : Pc β

namespace System

variable (cfg : PollerConfig) (s : System β)

def goto (p : Poller β) (pc : Pc β) : System β := ⟨s.source, p, pc⟩

/-- A read of `sourceBlockHash` outside a transaction: a failed query reads as no row. -/
def readHash (height : Int) (answer : Answer) : Option String :=
  if answer = .value then s.source.sourceBlockHash cfg.dbType height else none

/-- From the markers to the next await of `poll`: the hash guard when there is a hash, then the
comparison of heights. -/
def afterGuard (p : Poller β) (cursor current : Int) : System β :=
  if current < cursor then s.goto p (.dropWalk (current + 1))
  else if cursor < current then s.goto p (.snapshot current)
  else s.goto p .idle

def afterMarkers (p : Poller β) (cursor current : Int) : System β :=
  if p.lastPolledBlockHash.isSome then s.goto p (.guard current) else s.afterGuard p cursor current

/-- The lowest height of the REORG markers among the rows, or none when one is malformed. -/
def markerFork (rows : List EventRow) : Option (Option Int) :=
  rows.foldl (fun acc row => acc.bind fun fork =>
    match row.data with
    | .reorg none => none
    | .reorg (some h) => if row.id < 1 then none else some (some (fork.elim h (min h)))
    | _ => some fork) (some none)

/-- After the cursor moved below a fork: the recorded hash, or a live read of it. -/
def afterRewind (p : Poller β) : System β :=
  match p.recordedHash? with
  | some hash => s.goto (p.setHash hash) .idle
  | none => s.goto p .cursorHash

/-- One block of the batch: a payload is recorded and published, a missing row clears the hash. -/
def streamBlock (cfg : PollerConfig) (p : Poller β) (view : Source β) (nextBlock : Int) : Poller β :=
  let p := match view.getBlockHashRow nextBlock with
    | some row => p.publishBlockPayload cfg (identity cfg.dbType row) nextBlock view
    | none => p.setHash none
  { p with lastPolledBlock := some nextBlock }

/-- The loop condition of the batch. -/
def batchGoes (cursor streamTo : Int) (blocksProcessed : Nat) : Bool :=
  cursor < streamTo && blocksProcessed < 100

/-- One await of the poll and the code up to the next one. -/
def await (answer : Answer) : System β :=
  let p := s.poller
  if answer = .throws then s.goto p .idle
  else match s.pc with
  | .idle =>
    -- the cursor reads rethrow: a failed one ends the poll
    if answer = .softFail then s else
    match s.source.getLastBlock, p.lastPolledBlock with
    | none, _ => s
    | some current, none => s.goto { p with lastPolledBlock := some current } (.initHash current)
    | some current, some cursor =>
      if cfg.dbType = .decoder || !p.reorgMarkerCursorInitialized then
        s.afterMarkers p cursor current
      else s.goto p (.markers current)
  | .initHash current => s.goto (p.setHash (s.readHash cfg current answer)) .idle
  | .markers current =>
    if answer = .softFail then s.goto p .idle else
    match s.source.maxEventId with
    | none => s.afterMarkers { p with lastEventId := none } (p.lastPolledBlock.getD 0) current
    | some newest =>
      if newest < 1 || !isSafeInteger newest then s.goto p .idle
      else if p.lastEventId = some newest then
        s.afterMarkers p (p.lastPolledBlock.getD 0) current
      else if p.lastEventId.any (newest < ·) then s.goto p .idle
      else s.goto p (.markerRows current newest)
  | .markerRows current newest =>
    if answer = .softFail then s.goto p .idle else
    match markerFork (s.source.eventWindow (p.lastEventId.getD 0) newest) with
    | none => s.goto p .idle
    | some none =>
      s.afterMarkers { p with lastEventId := some newest } (p.lastPolledBlock.getD 0) current
    | some (some fork) =>
      if p.lastPolledBlock.any (· < fork) then
        s.afterMarkers { p with lastEventId := some newest } (p.lastPolledBlock.getD 0) current
      else s.goto p (.markerPrune fork newest)
  | .markerPrune fork newest => s.afterRewind { p.rewind fork none with lastEventId := some newest }
  | .cursorHash =>
    s.goto (p.setHash (s.readHash cfg (p.lastPolledBlock.getD 0) answer)) .idle
  | .guard current =>
    let cursor := p.lastPolledBlock.getD 0
    let srcHash := s.readHash cfg cursor answer
    if srcHash.isNone || srcHash = p.lastPolledBlockHash then s.afterGuard p cursor current
    else s.goto p (.forwardWalk cursor)
  | .forwardWalk fork =>
    if !p.walks fork then s.goto p (.forwardPrune fork)
    else if p.changedBelow fork (s.readHash cfg (fork - 1) answer) then
      s.goto p (.forwardWalk (fork - 1))
    else s.goto p (.forwardPrune fork)
  | .forwardPrune fork => s.goto (p.rewindForward fork) .idle
  | .dropWalk fork =>
    if !p.walks fork then s.goto p (.dropMarker fork)
    else if p.changedBelow fork (s.readHash cfg (fork - 1) answer) then
      s.goto p (.dropWalk (fork - 1))
    else s.goto p (.dropMarker fork)
  | .dropMarker fork =>
    if answer = .softFail then s.goto p .idle else
    match s.source.getSourceReplayMarker with
    | .error _ => s.goto p .idle
    | .ok marker =>
      let retroactive := retroactiveFromRules (rulesFromMarker marker)
      s.goto p (.dropPrune (retroactiveForkPoint retroactive fork) retroactive)
  | .dropPrune fork retroactive => s.afterRewind (p.rewind fork retroactive)
  | .snapshot current =>
    if answer = .softFail then s.goto p .idle else
    let view := s.source
    let streamTo := view.getLastBlock.getD current
    if batchGoes (p.lastPolledBlock.getD 0) streamTo 0 then s.goto p (.stream view streamTo 0)
    else s.goto p .idle
  | .stream view streamTo done =>
    if answer = .softFail then s.goto p .idle else
    let nextBlock := p.lastPolledBlock.getD 0 + 1
    let p := streamBlock cfg p view nextBlock
    if batchGoes nextBlock streamTo (done + 1) then s.goto p (.stream view streamTo (done + 1))
    else s.goto p .idle

end System

inductive Action (β : Type) where
  | commit (block : Block β)
  | reorg (height : Int)
  | event (row : EventRow)
  | await (answer : Answer)

def System.next (cfg : PollerConfig) (s : System β) : Action β → System β
  | .commit block => { s with source := s.source.commit block }
  | .reorg height => { s with source := s.source.reorg height }
  | .event row => { s with source := s.source.insertEvent row }
  | .await answer => s.await cfg answer

end XChainSync.Server
