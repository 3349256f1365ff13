import XChainSync.Client.StrictConfirm
import XChainSync.Client.Strikes

/-!
# Which steps touch the reorg votes

Held reorg votes and evictions change where a source's report is taken and where votes are dropped.
Every other step of the client leaves the held heights and the evicted sources as they are.
-/

namespace XChainSync.Client
set_option autoImplicit false

open Runs

namespace ClientSync
variable {cfg : Config} {c c' c'' : ClientSync} {a : Action}

/-- The held reorgs and the evicted sources are the same. -/
structure SameVotes (c c' : ClientSync) : Prop where
  reorgs : c'.reorgs = c.reorgs
  evicted : c'.votes.evicted = c.votes.evicted

theorem SameVotes.refl (c : ClientSync) : SameVotes c c := ⟨rfl, rfl⟩

theorem SameVotes.trans (h : SameVotes c c') (h' : SameVotes c' c'') : SameVotes c c'' :=
  ⟨h'.reorgs.trans h.reorgs, h'.evicted.trans h.evicted⟩

theorem sameVotes_halt (c : ClientSync) (reason : HaltReason) : SameVotes c (c.halt reason) := by
  unfold halt
  split <;> exact ⟨rfl, rfl⟩

theorem sameVotes_endTask (c : ClientSync) (id : TaskId) (driver : Driver) :
    SameVotes c (c.endTask id driver) := by
  cases driver <;> exact ⟨rfl, rfl⟩

theorem sameVotes_startWalk (c : ClientSync) : SameVotes c c.startWalk := by
  unfold startWalk
  split <;> exact ⟨rfl, rfl⟩

theorem sameVotes_incrementalCatchUp (c : ClientSync) : SameVotes c c.incrementalCatchUp := by
  unfold incrementalCatchUp
  split
  · exact .refl c
  · split <;> exact ⟨rfl, rfl⟩

theorem sameVotes_catchUpOnChain (c : ClientSync) : SameVotes c c.catchUpOnChain := by
  have h := sameVotes_incrementalCatchUp c
  unfold catchUpOnChain
  dsimp only
  split
  · exact h
  · exact ⟨h.reorgs, h.evicted⟩

theorem sameVotes_endPass (c : ClientSync) (r : Runner) : SameVotes c (c.endPass r) := by
  unfold endPass
  split <;> exact ⟨rfl, rfl⟩

theorem sameVotes_startLive (c : ClientSync) (driver : Driver) (event : BlockEvent) :
    SameVotes c (c.startLive driver event) := by
  unfold startLive
  split
  · cases driver <;> exact ⟨rfl, rfl⟩
  · exact ⟨rfl, rfl⟩

theorem sameVotes_startRollback (c : ClientSync) (driver : Driver) (r : Rollback) :
    SameVotes c (c.startRollback cfg driver r) := by
  have hreturns : ∀ c : ClientSync, SameVotes c (c.reorgReturns driver r) := by
    intro c
    unfold reorgReturns
    split <;> exact ⟨rfl, rfl⟩
  unfold startRollback
  split
  · exact hreturns c
  · split
    rename_i guard verdict _
    cases verdict with
    | ignored =>
      have h := hreturns { c with guard := guard }
      exact ⟨h.reorgs, h.evicted⟩
    | tooDeep =>
      have hhalt := sameVotes_halt { c with guard := guard } .maxRollbackDepth
      have h := hhalt.trans (hreturns _)
      exact ⟨h.reorgs, h.evicted⟩
    | accepted => exact ⟨rfl, rfl⟩

theorem sameVotes_endRollback (c : ClientSync) (id : TaskId) (driver : Driver) (r : Rollback) :
    SameVotes c (c.endRollback id driver r) := by
  have h := sameVotes_endTask c id driver
  unfold endRollback
  split
  · exact ⟨h.reorgs, h.evicted⟩
  · split
    · exact ⟨rfl, rfl⟩
    · exact h

/-! ### Live applies, the walk and the runner -/

theorem sameVotes_applyBlock (c : ClientSync) (event : BlockEvent) :
    SameVotes c (c.applyBlock event) := by
  unfold applyBlock
  split <;> exact ⟨rfl, rfl⟩

theorem sameVotes_recomputePassed (c : ClientSync) (h : Int) (seen : List Nat) :
    SameVotes c (c.recomputePassed h seen) := by
  unfold recomputePassed
  split <;> exact ⟨rfl, rfl⟩

theorem sameVotes_liveStep {id : TaskId} {driver : Driver} {event : BlockEvent} {pc : LivePc}
    {o : Outcome} (h : c.liveStep cfg id driver event pc o = some c') : SameVotes c c' := by
  have hend := fun (c : ClientSync) => sameVotes_endTask c id driver
  revert h
  fun_cases liveStep cfg c id driver event pc o
  all_goals intro h
  all_goals simp only [Option.some.injEq, reduceCtorEq] at h
  all_goals subst h
  all_goals first
    | exact ⟨rfl, rfl⟩
    | exact hend c
    | exact (sameVotes_halt c _).trans (hend _)
    | exact (sameVotes_startWalk c).trans ⟨rfl, rfl⟩
    | exact (sameVotes_applyBlock c event).trans ⟨rfl, rfl⟩
    | exact (sameVotes_recomputePassed c _ _).trans ⟨rfl, rfl⟩
    | skip
  · have h : SameVotes c c.lockRelease := ⟨rfl, rfl⟩
    exact h.trans (hend _)
  · rename_i votes
    have h : SameVotes c { c with votes := votes } := by
      refine ⟨rfl, ?_⟩
      simp only [votes]
      split <;> rfl
    exact h.trans (hend _)

theorem sameVotes_checkBlock (c : ClientSync) (w : Walk) (h lo tip : Int) :
    SameVotes c (c.checkBlock w h lo tip) := by
  unfold checkBlock
  split <;> exact ⟨rfl, rfl⟩

theorem sameVotes_beginRange (c : ClientSync) (w : Walk) (tip : Int) :
    SameVotes c (c.beginRange w tip) := by
  unfold beginRange
  extract_lets above start
  split
  · exact ⟨rfl, rfl⟩
  · exact sameVotes_checkBlock c w start start tip

theorem sameVotes_seedOrRange (c : ClientSync) (w : Walk) (tip : Int) :
    SameVotes c (c.seedOrRange w tip) := by
  unfold seedOrRange
  split
  · split
    · exact ⟨rfl, rfl⟩
    · exact sameVotes_beginRange c w tip
  · exact ⟨rfl, rfl⟩

theorem sameVotes_nextBlock (c : ClientSync) (w : Walk) (h lo tip : Int) :
    SameVotes c (c.nextBlock cfg w h lo tip) := by
  unfold nextBlock
  split
  · exact sameVotes_checkBlock c w (h + 1) lo tip
  · exact ⟨rfl, rfl⟩

theorem sameVotes_blockVerified (c : ClientSync) (w : Walk) (h lo tip : Int) :
    SameVotes c (c.blockVerified cfg w h lo tip) := by
  unfold blockVerified
  split
  · exact ⟨rfl, rfl⟩
  · dsimp only
    split
    · exact ⟨rfl, rfl⟩
    · have hnext := @sameVotes_nextBlock cfg
        { c with marker := c.marker.noteVerifiedBlock h } w h lo tip
      exact ⟨hnext.reorgs, hnext.evicted⟩

theorem sameVotes_blockFailed (c : ClientSync) (w : Walk) (reason : Option HaltReason) :
    SameVotes c (c.blockFailed w reason) := by
  unfold blockFailed
  split <;> exact ⟨rfl, rfl⟩

theorem sameVotes_walkStep {w : Walk} {pc : WalkPc} {o : Outcome}
    (h : c.walkStep cfg w pc o = some c') : SameVotes c c' := by
  revert h
  fun_cases walkStep cfg c w pc o
  all_goals intro h
  all_goals simp only [Option.some.injEq, reduceCtorEq] at h
  all_goals subst h
  all_goals first
    | exact ⟨rfl, rfl⟩
    | exact sameVotes_seedOrRange c _ _
    | exact sameVotes_checkBlock c _ _ _ _
    | exact sameVotes_nextBlock c _ _ _ _
    | exact sameVotes_blockVerified c _ _ _ _
    | exact sameVotes_blockFailed c _ _
    | exact (sameVotes_halt c _).trans ⟨rfl, rfl⟩
    | exact (sameVotes_recomputePassed c _ _).trans ⟨rfl, rfl⟩
    | exact (sameVotes_recomputePassed c _ _).trans (sameVotes_blockVerified _ _ _ _ _)
    | exact ⟨(sameVotes_seedOrRange _ _ _).reorgs, (sameVotes_seedOrRange _ _ _).evicted⟩
    | exact ⟨(sameVotes_beginRange _ _ _).reorgs, (sameVotes_beginRange _ _ _).evicted⟩

theorem sameVotes_startVerifiedTipBelow (c : ClientSync) (since : Int) :
    SameVotes c (c.startVerifiedTipBelow cfg since) := by
  unfold startVerifiedTipBelow
  split <;> exact ⟨rfl, rfl⟩

theorem sameVotes_runnerAwaitsTail (c : ClientSync) (pc skipped : RunnerPc) :
    SameVotes c (c.runnerAwaitsTail cfg pc skipped) := by
  unfold runnerAwaitsTail
  split
  · exact ⟨rfl, rfl⟩
  · split
    · exact ⟨rfl, rfl⟩
    · exact (sameVotes_startWalk c).trans ⟨rfl, rfl⟩

theorem sameVotes_windowRetry (c : ClientSync) : SameVotes c c.windowRetry := by
  unfold windowRetry
  split <;> exact ⟨rfl, rfl⟩

theorem sameVotes_passFailed (c : ClientSync) (dbTip : Option Int) (e : CatchUpError) :
    SameVotes c (c.passFailed cfg dbTip e) := by
  unfold passFailed
  repeat' split
  all_goals first
    | exact ⟨rfl, rfl⟩
    | exact (sameVotes_halt c _).trans ⟨rfl, rfl⟩

theorem sameVotes_rewindIfCatchUpForked (c : ClientSync) (dbTip : Int) :
    SameVotes c (c.rewindIfCatchUpForked cfg dbTip) := by
  have h : SameVotes c (c.startRollback cfg .runner ⟨⟨dbTip, .plain .undefined⟩, none, false⟩) :=
    sameVotes_startRollback c _ _
  unfold rewindIfCatchUpForked
  dsimp only
  split <;> exact h.trans ⟨rfl, rfl⟩

theorem sameVotes_fullStep {pc : FullPc} {o : Outcome} (h : c.fullStep cfg pc o = some c') :
    SameVotes c c' := by
  revert h
  fun_cases fullStep cfg c pc o
  all_goals intro h
  all_goals simp only [Option.some.injEq, reduceCtorEq] at h
  all_goals subst h
  all_goals first
    | exact ⟨rfl, rfl⟩
    | exact (sameVotes_halt c _).trans ⟨rfl, rfl⟩

theorem sameVotes_windowStep {pc : WindowPc} {o : Outcome} (h : c.windowStep cfg pc o = some c') :
    SameVotes c c' := by
  revert h
  fun_cases windowStep cfg c pc o
  all_goals intro h
  all_goals simp only [Option.some.injEq, reduceCtorEq] at h
  all_goals subst h
  all_goals first
    | exact ⟨rfl, rfl⟩
    | exact (sameVotes_halt c _).trans ⟨rfl, rfl⟩
    | exact sameVotes_runnerAwaitsTail c _ _

theorem sameVotes_runnerStep {r : Runner} {pc : RunnerPc} {o : Outcome}
    (h : c.runnerStep cfg r pc o = some c') : SameVotes c c' := by
  revert h
  fun_cases runnerStep cfg c r pc o
  all_goals intro h
  all_goals first
    | exact sameVotes_fullStep h
    | exact sameVotes_windowStep h
    | simp only [Option.some.injEq, reduceCtorEq] at h
  all_goals subst h
  all_goals first
    | exact ⟨rfl, rfl⟩
    | exact (sameVotes_halt c _).trans ⟨rfl, rfl⟩
    | exact sameVotes_runnerAwaitsTail c _ _
    | exact sameVotes_rewindIfCatchUpForked c _
    | exact sameVotes_endPass c _
    | exact (sameVotes_startVerifiedTipBelow c _).trans ⟨rfl, rfl⟩

theorem sameVotes_runnerFails {pc : RunnerPc} {e : CatchUpError}
    (h : c.runnerFails cfg e pc = some c') : SameVotes c c' := by
  revert h
  fun_cases runnerFails cfg c e pc
  all_goals intro h
  all_goals simp only [Option.some.injEq, reduceCtorEq] at h
  all_goals subst h
  all_goals first
    | exact ⟨rfl, rfl⟩
    | exact sameVotes_passFailed c _ _
    | exact sameVotes_windowRetry c
    | exact (sameVotes_halt c _).trans ⟨rfl, rfl⟩
    | exact ⟨(sameVotes_passFailed _ _ _).reorgs, (sameVotes_passFailed _ _ _).evicted⟩
    | exact ⟨(sameVotes_windowRetry _).reorgs, (sameVotes_windowRetry _).evicted⟩

theorem sameVotes_runnerGets {s : Snapshot} {pc : RunnerPc} (h : c.runnerGets s pc = some c') :
    SameVotes c c' := by
  revert h
  fun_cases runnerGets c s pc
  all_goals intro h
  all_goals simp only [Option.some.injEq, reduceCtorEq] at h
  all_goals subst h
  all_goals exact ⟨rfl, rfl⟩

/-! ### Where votes are dropped -/

/-- The held reorgs are the same or pruned, and the evicted sources are the same. -/
structure PrunesVotes (c c' : ClientSync) : Prop where
  reorgs : c'.reorgs = c.reorgs ∨ ∃ tip, c'.reorgs = c.reorgs.prune tip
  evicted : c'.votes.evicted = c.votes.evicted

theorem SameVotes.prunes (h : SameVotes c c') : PrunesVotes c c' := ⟨Or.inl h.reorgs, h.evicted⟩

theorem PrunesVotes.then_same (h : PrunesVotes c c') (h' : SameVotes c' c'') : PrunesVotes c c'' :=
  ⟨h'.reorgs ▸ h.reorgs, h'.evicted.trans h.evicted⟩

theorem SameVotes.then_prunes (h : SameVotes c c') (h' : PrunesVotes c' c'') : PrunesVotes c c'' :=
  ⟨h.reorgs ▸ h'.reorgs, h'.evicted.trans h.evicted⟩

theorem prunesVotes_prune (c : ClientSync) :
    PrunesVotes c { c with reorgs := c.reorgs.prune c.lastAppliedBlock } :=
  ⟨Or.inr ⟨c.lastAppliedBlock, rfl⟩, rfl⟩

theorem prunesVotes_failRollback (c : ClientSync) (id : TaskId) (driver : Driver) (r : Rollback) :
    PrunesVotes c (c.failRollback id driver r) := by
  have hhalt : SameVotes c ({ c with marker := c.marker.endRowRemoval }.lockRelease.halt
      .reorgRollbackFailed) :=
    ⟨(sameVotes_halt _ _).reorgs, (sameVotes_halt _ _).evicted⟩
  exact (hhalt.then_prunes (prunesVotes_prune _)).then_same (sameVotes_endRollback _ id driver r)

theorem prunesVotes_rollbackStep {id : TaskId} {driver : Driver} {r : Rollback} {pc : RollbackPc}
    {o : Outcome} (h : c.rollbackStep cfg id driver r pc o = some c') : PrunesVotes c c' := by
  revert h
  fun_cases rollbackStep cfg c id driver r pc o
  all_goals intro h
  all_goals simp only [Option.some.injEq, reduceCtorEq] at h
  all_goals subst h
  all_goals first
    | exact SameVotes.prunes ⟨rfl, rfl⟩
    | exact prunesVotes_failRollback c id driver r
    | exact SameVotes.prunes (sameVotes_endTask c id driver)
    | exact SameVotes.prunes ((sameVotes_incrementalCatchUp c).trans ⟨rfl, rfl⟩)
    | exact SameVotes.prunes ⟨(sameVotes_endRollback _ _ _ _).reorgs,
        (sameVotes_endRollback _ _ _ _).evicted⟩
    | exact (prunesVotes_prune c).then_same (sameVotes_endRollback _ id driver r)

theorem prunesVotes_markerStep {o : Outcome} (h : c.markerStep o = some c') : PrunesVotes c c' := by
  have hthrow : ∀ owner, PrunesVotes c (c.dequeueWrite.throwInto owner) := by
    intro owner
    unfold throwInto
    split
    · split
      · have hfail := prunesVotes_failRollback c.dequeueWrite
        exact ⟨(hfail _ _ _).reorgs, (hfail _ _ _).evicted⟩
      · exact SameVotes.prunes ⟨rfl, rfl⟩
    · have hretry := sameVotes_windowRetry c.dequeueWrite
      exact SameVotes.prunes ⟨hretry.reorgs, hretry.evicted⟩
    · exact SameVotes.prunes ⟨rfl, rfl⟩
  unfold markerStep at h
  split at h
  · obtain rfl := Option.some.inj h
    unfold startWrite
    repeat' split
    all_goals exact SameVotes.prunes ⟨rfl, rfl⟩
  · obtain rfl := Option.some.inj h
    unfold writeLanded
    split <;> exact SameVotes.prunes ⟨rfl, rfl⟩
  · obtain rfl := Option.some.inj h
    unfold writeFailed
    split
    · exact hthrow _
    · split
      · exact hthrow _
      · exact SameVotes.prunes ⟨rfl, rfl⟩
    · exact SameVotes.prunes ⟨rfl, rfl⟩
  · simp at h

end ClientSync

end XChainSync.Client
