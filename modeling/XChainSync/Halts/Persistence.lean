import Mathlib.Logic.Basic
import XChainSync.Library.Runs

/-!
# Durable halts

A halt lives in memory, in a row of `sync_halt` and in a copy in `sync_state`. Every statement to
the server is a step of its own, and so is each piece of code between two awaits, so that writes,
retries, clears and the startup cross in any order. A crash loses the memory and every statement
that has not landed.
-/

namespace XChainSync.Halts
set_option autoImplicit false

/-- The reasons that a clear tells apart. -/
inductive Reason where
  | maxRollbackDepthExceeded
  | other (text : String)
  deriving DecidableEq, Repr

/-- A halt of the history. The number is not stored: it tells two halts at one height apart. -/
structure Halt where
  number : Nat
  blockIndex : Int
  reason : Reason
  deriving DecidableEq, Repr

/-- A row of `sync_halt`. -/
structure Row where
  halt : Halt
  cleared : Bool
  deriving DecidableEq, Repr

/-- The value under `halt_pending:<dbType>` in `sync_state`. -/
inductive Copy where
  | saved (halt : Halt)
  | blank
  | unreadable
  deriving DecidableEq, Repr

/-- What survives a crash, with its history: the halts whose row or copy has been written, and those
that an operator's clear has reached. -/
structure Store where
  /-- The newest row is first. -/
  rows : List Row
  copy : Option Copy
  written : List Nat
  cleared : List Nat
  deriving DecidableEq, Repr

namespace Store

def getActiveHalt (st : Store) : Option Halt := (st.rows.find? (!·.cleared)).map (·.halt)

/-- `recordHalt` does not stack a second active halt at a height. -/
def existing (st : Store) (h : Halt) : Bool := st.getActiveHalt.any (·.blockIndex = h.blockIndex)

def insertHalt (st : Store) (h : Halt) : Store :=
  { st with rows := ⟨h, false⟩ :: st.rows, written := h.number :: st.written }

def saveCopy (st : Store) (h : Halt) : Store :=
  { st with copy := some (.saved h), written := h.number :: st.written }

/-- The UPDATE of a clear that was called for the halts given. -/
def clearHalt (st : Store) (numbers : List Nat) : Store :=
  { st with
    rows := st.rows.map fun r => { r with cleared := true }
    cleared := numbers ++ st.cleared }

end Store

/-- What `_halted` holds. Two objects may carry one halt, and `!==` compares the objects. -/
inductive Held where
  | halt (object : Nat) (halt : Halt)
  | haltStateCheckFailed
  | rollbackGuardStateInvalid
  | haltCopyUnreadable
  deriving DecidableEq, Repr

namespace Held

/-- The states that stand for no stored halt. -/
def synthetic : Held → Bool
  | .haltStateCheckFailed => true
  | .rollbackGuardStateInvalid => true
  | _ => false

def numbers : Held → List Nat
  | .halt _ h => [h.number]
  | _ => []

def resetsGuard : Held → Bool
  | .halt _ h => h.reason = .maxRollbackDepthExceeded
  | _ => false

end Held

inductive WriteStage where
  /-- `recordHalt` reads the active halt. -/
  | check
  | insert
  | recorded
  | failed
  | copying
  | copied
  /-- `dropPendingHaltCopy`: the DELETE, then the overwrite where it reports failure. -/
  | dropping
  | blanking
  deriving DecidableEq, Repr

/-- A `persistHalt` or a `retryHaltPersist` in flight. -/
structure Write where
  object : Nat
  halt : Halt
  retry : Bool
  stage : WriteStage
  deriving DecidableEq, Repr

inductive ClearStage where
  | updating
  | updated (acknowledged : Bool)
  | dropping
  | dropped (reported : Bool)
  | blanking
  /-- `resetRollbackGuardState`. -/
  | resetting
  | reset
  deriving DecidableEq, Repr

/-- A `clearHalt` in flight, with what was in force when it was called. -/
structure Clear where
  target : Held
  wasDurable : Bool
  stage : ClearStage
  /-- The copy is gone. -/
  removed : Bool
  deriving DecidableEq, Repr

/-- Where `start()` is. -/
inductive Phase where
  | resolveStartupHalt
  /-- `retryStartupHaltRead`, between two reads and in one. -/
  | retrySleep
  | retryRead
  | waitForStartupHalt
  | loadRollbackGuardState
  | holdForRollbackGuardState
  | restorePendingHalt
  /-- `restorePendingHalt` awaits `persistHalt`. -/
  | restoring (empty : Bool)
  | synchronizing
  | live
  deriving DecidableEq, Repr

/-- The phases in which blocks, catch-up ranges and bootstraps are applied. -/
def Phase.applies : Phase → Bool
  | .synchronizing => true
  | .live => true
  | _ => false

structure Client where
  store : Store
  halted : Option Held
  haltDurable : Bool
  pendingHaltCopy : Bool
  haltPersistTimer : Option (Nat × Halt)
  writes : List Write
  clears : List Clear
  phase : Phase
  /-- The objects and the halts made so far. -/
  objects : Nat
  halts : Nat
  /-- The applies that have started. -/
  applied : Nat
  /-- The last clear of a halt removed the rows and the copy with no halt write in flight, and there
  has been no halt since. -/
  quiet : Bool
  deriving DecidableEq, Repr

/-- A flag `landed` says whether the server executes the statement, `answered` whether its answer
reports success. -/
inductive Event where
  | readHalt (answered : Bool)
  /-- A sleep of the startup ends. -/
  | wake
  | readGuard (valid : Bool)
  /-- The copy is read over a replica that is empty or not. -/
  | readCopy (answered : Bool) (empty : Bool)
  | synchronized (empty : Bool)
  | apply
  | halt (blockIndex : Int) (reason : Reason)
  | timer
  | write (i : Nat) (landed : Bool) (answered : Bool)
  | clearHalt
  | clear (i : Nat) (landed : Bool) (answered : Bool)
  | crash
  deriving DecidableEq, Repr

namespace Client

/-- A halt goes in force as a new object. -/
def install (s : Client) (h : Halt) : Client :=
  { s with halted := some (.halt s.objects h), objects := s.objects + 1 }

def persistHalt (s : Client) (h : Halt) : Client :=
  { s.install h with writes := s.writes ++ [⟨s.objects, h, false, .check⟩] }

def setWrite (s : Client) (i : Nat) (w : Write) : Client := { s with writes := s.writes.set i w }

def endWrite (s : Client) (i : Nat) : Client := { s with writes := s.writes.eraseIdx i }

def setClear (s : Client) (i : Nat) (c : Clear) : Client := { s with clears := s.clears.set i c }

def endClear (s : Client) (i : Nat) : Client := { s with clears := s.clears.eraseIdx i }

/-- A new process over the same store. -/
def crash (s : Client) : Client :=
  { s with
    halted := none
    haltDurable := true
    pendingHaltCopy := false
    haltPersistTimer := none
    writes := []
    clears := []
    phase := .resolveStartupHalt }

/-! ### Startup -/

def readHalt (s : Client) (answered : Bool) : Client :=
  match s.phase with
  | .resolveStartupHalt =>
    if answered then
      match s.store.getActiveHalt with
      | none => { s with phase := .loadRollbackGuardState }
      | some prior => { s.install prior with phase := .waitForStartupHalt }
    else { s with halted := some .haltStateCheckFailed, phase := .retrySleep }
  | .retryRead =>
    if answered then
      match s.store.getActiveHalt with
      | none => { s with halted := none, phase := .waitForStartupHalt }
      | some prior => { s.install prior with phase := .waitForStartupHalt }
    else { s with phase := .retrySleep }
  | _ => s

def wake (s : Client) : Client :=
  match s.phase with
  | .retrySleep =>
    if s.halted = some .haltStateCheckFailed then { s with phase := .retryRead }
    else { s with phase := .waitForStartupHalt }
  | .waitForStartupHalt =>
    -- an operator's clear starts the startup over
    if s.halted = none then { s with phase := .resolveStartupHalt } else s
  | .holdForRollbackGuardState =>
    if s.halted = some .rollbackGuardStateInvalid then s
    else { s with phase := .loadRollbackGuardState }
  | _ => s

/-- The read is fail-soft, so a row that cannot be read counts as none. -/
def readGuard (s : Client) (valid : Bool) : Client :=
  match s.phase with
  | .loadRollbackGuardState =>
    if valid then
      { s with
        halted := if s.halted = some .rollbackGuardStateInvalid then none else s.halted
        phase := .restorePendingHalt }
    else
      { s with halted := some .rollbackGuardStateInvalid, phase := .holdForRollbackGuardState }
  | _ => s

/-- The end of `start()`: an empty replica ends the process. -/
def enterLive (s : Client) (empty : Bool) : Client :=
  if s.halted.isSome ∧ (empty = true ∨ s.halted = some .haltStateCheckFailed) then
    { s with phase := .waitForStartupHalt }
  else if empty then s.crash
  else { s with phase := .live }

def readCopy (s : Client) (answered empty : Bool) : Client :=
  match s.phase with
  | .restorePendingHalt =>
    if s.halted.isSome then { s with phase := .synchronizing }
    else if answered then
      match s.store.copy with
      | none => { s with phase := .synchronizing }
      | some .blank => { s with phase := .synchronizing }
      | some .unreadable =>
        { s with pendingHaltCopy := true, halted := some .haltCopyUnreadable }.enterLive empty
      | some (.saved h) => { s.persistHalt h with pendingHaltCopy := true, phase := .restoring empty }
    else { s with halted := some .haltStateCheckFailed }.enterLive empty
  | _ => s

def synchronized (s : Client) (empty : Bool) : Client :=
  match s.phase with
  | .restoring tipless => if s.writes.all (·.retry) then s.enterLive tipless else s
  | .synchronizing => s.enterLive empty
  | _ => s

/-! ### Halts and their writes -/

/-- Each of the entries tests `_halted` before it applies. -/
def apply (s : Client) : Client :=
  if s.phase.applies ∧ s.halted = none then { s with applied := s.applied + 1 } else s

/-- `haltOnDivergence` and its siblings, which run in the code that applies. -/
def halt (s : Client) (blockIndex : Int) (reason : Reason) : Client :=
  if s.phase.applies ∧ s.halted = none then
    { s.persistHalt ⟨s.halts, blockIndex, reason⟩ with halts := s.halts + 1, quiet := false }
  else s

def timer (s : Client) : Client :=
  match s.haltPersistTimer with
  | none => s
  | some (object, h) =>
    if s.halted = some (.halt object h) then
      { s with haltPersistTimer := none, writes := s.writes ++ [⟨object, h, true, .check⟩] }
    else { s with haltPersistTimer := none }

def write (s : Client) (i : Nat) (landed answered : Bool) : Client :=
  match s.writes[i]? with
  | none => s
  | some w =>
    match w.stage with
    | .check =>
      -- a read that fails falls through to the INSERT
      if answered && s.store.existing w.halt then
        s.setWrite i { w with stage := .recorded }
      else s.setWrite i { w with stage := .insert }
    | .insert =>
      { s with store := if landed then s.store.insertHalt w.halt else s.store }.setWrite i
        { w with stage := if landed && answered then .recorded else .failed }
    | .recorded =>
      if w.retry ∧ s.halted ≠ some (.halt w.object w.halt) then s.endWrite i
      else if s.pendingHaltCopy then
        { s with haltDurable := true, pendingHaltCopy := false }.setWrite i
          { w with stage := .dropping }
      else { s with haltDurable := true }.endWrite i
    | .failed =>
      if w.retry then { s with haltPersistTimer := some (w.object, w.halt) }.endWrite i
      else
        { s with haltDurable := false, pendingHaltCopy := true }.setWrite i
          { w with stage := .copying }
    | .copying =>
      { s with store := if landed then s.store.saveCopy w.halt else s.store }.setWrite i
        { w with stage := .copied }
    | .copied => { s with haltPersistTimer := some (w.object, w.halt) }.endWrite i
    | .dropping =>
      let next : Client :=
        { s with store := if landed then { s.store with copy := none } else s.store }
      if answered then next.endWrite i else next.setWrite i { w with stage := .blanking }
    | .blanking =>
      { s with
        store := if landed then { s.store with copy := some .blank } else s.store }.endWrite i

/-! ### Operator clears -/

/-- The route refuses to clear a client that is not halted. -/
def clearHalt (s : Client) : Client :=
  match s.halted with
  | none => s
  | some held =>
    let cancelled : Client := { s with haltPersistTimer := none, haltDurable := true }
    match held with
    | .haltStateCheckFailed => { cancelled with halted := none }
    | .rollbackGuardStateInvalid =>
      { cancelled with clears := s.clears ++ [⟨held, s.haltDurable, .resetting, false⟩] }
    | _ => { cancelled with clears := s.clears ++ [⟨held, s.haltDurable, .updating, false⟩] }

/-- The retry that a failed clear resumes. -/
def resumedTimer (s : Client) (wasDurable : Bool) : Option (Nat × Halt) :=
  match wasDurable, s.halted with
  | false, some (.halt object h) => some (object, h)
  | _, _ => s.haltPersistTimer

def finishClear (s : Client) (i : Nat) (c : Clear) : Client :=
  { s with
    halted := none
    clears := s.clears.eraseIdx i
    quiet := if c.target.synthetic then s.quiet else c.removed && s.writes.isEmpty }

def clear (s : Client) (i : Nat) (landed answered : Bool) : Client :=
  match s.clears[i]? with
  | none => s
  | some c =>
    match c.stage with
    | .updating =>
      { s with store := if landed then s.store.clearHalt c.target.numbers else s.store }.setClear i
        { c with stage := .updated (landed && answered) }
    | .updated true => { s with pendingHaltCopy := false }.setClear i { c with stage := .dropping }
    | .updated false =>
      { s with
        haltDurable := c.wasDurable
        haltPersistTimer := s.resumedTimer c.wasDurable }.endClear i
    | .dropping =>
      { s with store := if landed then { s.store with copy := none } else s.store }.setClear i
        { c with stage := .dropped answered, removed := landed }
    | .dropped true =>
      if s.halted.any Held.resetsGuard then s.setClear i { c with stage := .resetting }
      else s.finishClear i c
    | .dropped false => s.setClear i { c with stage := .blanking }
    | .blanking =>
      { s with store := if landed then { s.store with copy := some .blank } else s.store }.setClear i
        { c with stage := .dropped true, removed := c.removed || landed }
    | .resetting => s.setClear i { c with stage := .reset }
    | .reset => s.finishClear i c

def step (s : Client) : Event → Client
  | .readHalt answered => s.readHalt answered
  | .wake => s.wake
  | .readGuard valid => s.readGuard valid
  | .readCopy answered empty => s.readCopy answered empty
  | .synchronized empty => s.synchronized empty
  | .apply => s.apply
  | .halt blockIndex reason => s.halt blockIndex reason
  | .timer => s.timer
  | .write i landed answered => s.write i landed answered
  | .clearHalt => s.clearHalt
  | .clear i landed answered => s.clear i landed answered
  | .crash => s.crash

end Client

end XChainSync.Halts
