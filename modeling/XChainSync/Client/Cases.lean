import XChainSync.Client.Frames

/-!
# What a live apply, a rollback and the runner can do

One inductive for each, with a constructor for every way its step changes what the parties share;
everything else a step does is `Calm` or `Calls`.
-/

namespace XChainSync.Client
set_option autoImplicit false

namespace ClientSync

/-! ### Live applies -/

inductive LiveStep (cfg : Config) (c : ClientSync) (id : TaskId) (driver : Driver)
    (event : BlockEvent) : LivePc → Outcome → ClientSync → Prop where
  | tail {c₁ : ClientSync} {pc : LivePc} (hc : Calm c c₁) (hh : c₁.halted = c.halted)
      (hpc : pc = .tailClear ∨ pc = .awaitTail ∨ pc = .tailDone .halted) :
      LiveStep cfg c id driver event .trainGate .ok (c₁.setLive id driver event pc)
  | lock {pc : LivePc} (hpc : pc = .tailClear ∨ pc = .tailDone .ok) :
      LiveStep cfg c id driver event pc .ok
        ((c.setLive id driver event (.lockWait c.marker.rowGeneration)).lockRequest (.task id))
  | apply {generation : Nat} {pc : LivePc} (hl : c.holdsLock (.task id))
      (hpc : pc = if cfg.tracksVerifiedTip then
        .recompute generation ((c.applyBlock event).db.rowsAt event.block_index)
        else afterRecompute cfg event generation) :
      LiveStep cfg c id driver event (.lockWait generation) .ok
        ((c.applyBlock event).lockRelease.setLive id driver event pc)
  | recomputed {generation : Nat} {seen : List Nat} :
      LiveStep cfg c id driver event (.recompute generation seen) .ok
        ((c.recomputePassed event.block_index seen).setLive id driver event
          (afterRecompute cfg event generation))
  | read {generation : Nat} {reads : Option Bool} :
      LiveStep cfg c id driver event (.stateHash generation reads) .read
        (c.setLive id driver event (.stateHash generation
          (some (reads.getD true && c.db.tip = some event.block_index))))
  | hashed {generation : Nat} {reads : Bool} :
      LiveStep cfg c id driver event (.stateHash generation (some reads)) .ok
        (c.setLive id driver event (.finish generation))
  | diverged {generation : Nat} {reads : Bool} :
      LiveStep cfg c id driver event (.stateHash generation (some reads)) .bad
        ((c.halt .stateHash).endTask id driver)
  | finish {generation : Nat} {marker : VerifiedTip}
      (hm : marker = if cfg.tracksVerifiedTip then
        c.marker.queueMarkerWrite (.advance event.block_index generation) (.task id)
        else c.marker) :
      LiveStep cfg c id driver event (.finish generation) .ok
        ({ c with lastAppliedBlock := some event.block_index, marker := marker }.setLive id driver
          event .marking)
  | quit {pc : LivePc} {o : Outcome} {c' : ClientSync} (hc : Calm c c')
      (hgone : c'.tasks id = none) (hk : o = .ok → ∀ generation, pc ≠ .lockWait generation) :
      LiveStep cfg c id driver event pc o c'

theorem tasks_endTask_self (c : ClientSync) (id : TaskId) (driver : Driver) :
    (c.endTask id driver).tasks id = none := by
  cases driver <;> simp [endTask, setTask]

theorem halted_startWalk (c : ClientSync) : c.startWalk.halted = c.halted := by
  unfold startWalk
  split <;> rfl

/-- An apply and a passed recompute change the database and nothing else. -/
theorem applyBlock_eq (c : ClientSync) (event : BlockEvent) :
    c.applyBlock event = { c with db := (c.applyBlock event).db } := by
  unfold applyBlock
  split <;> rfl

theorem recomputePassed_eq (c : ClientSync) (h : Int) (seen : List Nat) :
    c.recomputePassed h seen = { c with db := (c.recomputePassed h seen).db } := by
  unfold recomputePassed
  split <;> rfl

theorem marker_recomputePassed (c : ClientSync) (h : Int) (seen : List Nat) :
    (c.recomputePassed h seen).marker = c.marker := by
  rw [recomputePassed_eq]

variable {cfg : Config} {c c' : ClientSync} {id : TaskId} {driver : Driver}

theorem liveStep_cases {event : BlockEvent} {pc : LivePc} {o : Outcome}
    (h : c.liveStep cfg id driver event pc o = some c') :
    LiveStep cfg c id driver event pc o c' := by
  have hend : ∀ c₁ : ClientSync, Calm c c₁ → (o = .ok → ∀ generation, pc ≠ .lockWait generation) →
      LiveStep cfg c id driver event pc o (c₁.endTask id driver) := fun c₁ hc =>
    .quit (hc.trans (calm_endTask c₁ id driver)) (tasks_endTask_self c₁ id driver)
  revert h
  fun_cases liveStep cfg c id driver event pc o
  all_goals intro h
  all_goals simp only [Option.some.injEq, reduceCtorEq] at h
  all_goals subst h
  · exact .tail (Calm.refl c) rfl (Or.inl rfl)
  · exact .tail (Calm.refl c) rfl (Or.inr (Or.inr rfl))
  · exact .tail (calm_startWalk c) (halted_startWalk c) (Or.inr (Or.inl rfl))
  · exact hend _ (calm_halt c (by decide)) (by simp)
  · exact .lock (Or.inl rfl)
  · exact .lock (Or.inr rfl)
  · exact hend _ (Calm.refl c) (by simp)
  · rename_i hl _ ht
    exact .apply hl (by rw [if_pos ht]; rfl)
  · rename_i hl _ ht
    exact .apply hl (by rw [if_neg ht])
  · exact hend _ (calm_lockRelease c) (by simp)
  · exact .recomputed
  · exact hend _ (calm_halt c (by decide)) (by simp)
  · exact hend _ (Calm.refl c) (by simp)
  · exact .read
  · exact .hashed
  · exact .diverged
  · exact hend _ (Calm.refl c) (by simp)
  · rename_i ht _
    exact .finish (by rw [if_pos ht])
  · rename_i ht
    exact .finish (by rw [if_neg ht])
  · exact hend _ (calm_halt c (by decide)) (by simp)
  · rename_i votes
    have hvotes : c.votes.Clear → votes.Clear := by
      intro hv
      dsimp only [votes]
      split
      · exact hv
      · exact hv.clearAppliedBlockWork _
    exact hend _ { Calm.refl c with votes := hvotes } (by simp)

/-! ### Rollbacks -/

/-- The task is gone, or only waits for a catch-up or is about to start one. -/
def Returned (c : ClientSync) (id : TaskId) : Prop :=
  ∀ t, c.tasks id = some t → t.work = .awaitCatchUp ∨ ∃ r, t.work = .rollback r .rewound

/-- The marker as a rollback that holds the lock opens its removal. -/
def removalOpened (cfg : Config) (c : ClientSync) : ClientSync :=
  { c with marker :=
    if cfg.tracksVerifiedTip then c.marker.openRemoval.bumpRowGeneration else c.marker.openRemoval }

inductive RollbackStep (cfg : Config) (c : ClientSync) (id : TaskId) (driver : Driver)
    (r : Rollback) : RollbackPc → Outcome → ClientSync → Prop where
  | openLoad (hl : c.holdsLock (.task id)) (hh : c.halted = none) (ht : cfg.tracksVerifiedTip)
      (hm : c.marker.verifiedTip = .undefined) :
      RollbackStep cfg c id driver r .lockWait .ok
        ((c.removalOpened cfg).setRollback id driver r .loading)
  | openLower (hl : c.holdsLock (.task id)) (hh : c.halted = none) (ht : cfg.tracksVerifiedTip)
      (hm : c.marker.verifiedTip ≠ .undefined) :
      RollbackStep cfg c id driver r .lockWait .ok ((c.removalOpened cfg).queueLower id driver r)
  | openRecord (hl : c.holdsLock (.task id)) (hh : c.halted = none)
      (ht : cfg.tracksVerifiedTip = false) :
      RollbackStep cfg c id driver r .lockWait .ok
        ((c.removalOpened cfg).recordRollback cfg id driver r)
  | load : RollbackStep cfg c id driver r .loading .ok
      (c.setRollback id driver r (.loaded c.db.verified_tip))
  | lower {stored : Option Int} : RollbackStep cfg c id driver r (.loaded stored) .ok
      ({ c with marker := c.marker.loadVerifiedTip stored }.queueLower id driver r)
  | record : RollbackStep cfg c id driver r .lowering .ok (c.recordRollback cfg id driver r)
  | persist {state : RollbackGuard} : RollbackStep cfg c id driver r (.persisting state) .ok
      ({ c with db := { c.db with rollback_guard := state } }.setRollback id driver r .deleting)
  | delete : RollbackStep cfg c id driver r .deleting .ok
      ({ c with
        db := c.db.deleteFrom r.event.block_index
        marker := c.marker.endRowRemoval }.lockRelease.setRollback id driver r .deleted)
  | move : RollbackStep cfg c id driver r .deleted .ok
      ({ c with lastAppliedBlock := some (r.event.block_index - 1) }.setRollback id driver r
        .pruning)
  | fail {pc : RollbackPc} {o : Outcome} {c' : ClientSync}
      (hc : ∀ e, Calls cfg e { c with marker := c.marker.endRowRemoval } c')
      (hid : c'.Returned id) (hk : o = .ok → pc ≠ .deleting) : RollbackStep cfg c id driver r pc o c'
  | returns {pc : RollbackPc} {o : Outcome} {c' : ClientSync} (hc : ∀ e, Calls cfg e c c')
      (hid : c'.Returned id) (hk : o = .ok → pc ≠ .deleting) : RollbackStep cfg c id driver r pc o c'

theorem returned_endTask (c : ClientSync) (id : TaskId) (driver : Driver) :
    (c.endTask id driver).Returned id := by
  intro t ht
  rw [tasks_endTask_self] at ht
  simp at ht

theorem returned_endRollback (c : ClientSync) (id : TaskId) (driver : Driver) (r : Rollback) :
    (c.endRollback id driver r).Returned id := by
  unfold endRollback
  split
  · exact returned_endTask c id driver
  · split
    · intro t ht
      simp only [setRollback, setTask, if_true] at ht
      obtain rfl := Option.some.inj ht
      exact Or.inr ⟨r, rfl⟩
    · exact returned_endTask c id driver

theorem calls_failRollback {e : Doing} (c : ClientSync) (id : TaskId) (driver : Driver)
    (r : Rollback) :
    Calls cfg e { c with marker := c.marker.endRowRemoval } (c.failRollback id driver r) := by
  have hhalt := calm_halt { c with marker := c.marker.endRowRemoval }.lockRelease
    (show HaltReason.reorgRollbackFailed ≠ .stateHash by decide)
  have hcalm := (calm_lockRelease { c with marker := c.marker.endRowRemoval }).trans hhalt
  refine Calm.then_calls ?_ (calls_endRollback _ id driver r)
  exact { hcalm with reorgs := fun ok hr => (hcalm.reorgs ok hr).prune _ }

theorem returned_failRollback (c : ClientSync) (id : TaskId) (driver : Driver) (r : Rollback) :
    (c.failRollback id driver r).Returned id := returned_endRollback _ id driver r

theorem rollbackStep_cases {r : Rollback} {pc : RollbackPc} {o : Outcome}
    (h : c.rollbackStep cfg id driver r pc o = some c') :
    RollbackStep cfg c id driver r pc o c' := by
  have hfail : (o = .ok → pc ≠ .deleting) →
      RollbackStep cfg c id driver r pc o (c.failRollback id driver r) :=
    .fail (fun _ => calls_failRollback c id driver r) (returned_failRollback c id driver r)
  revert h
  fun_cases rollbackStep cfg c id driver r pc o
  all_goals intro h
  all_goals simp only [Option.some.injEq, reduceCtorEq] at h
  all_goals subst h
  · exact .returns (fun _ => (calm_lockRelease c).then_calls (calls_endRollback _ id driver r))
      (returned_endRollback _ id driver r) (by simp)
  · rename_i hl hh _ ht _ hm
    have hopen := @RollbackStep.openLoad cfg c id driver r hl (by simpa using hh) ht hm
    simpa [removalOpened, ht] using hopen
  · rename_i hl hh _ ht _ hm
    have hopen := @RollbackStep.openLower cfg c id driver r hl (by simpa using hh) ht hm
    simpa [removalOpened, ht] using hopen
  · rename_i hl hh _ ht
    have hopen := @RollbackStep.openRecord cfg c id driver r hl (by simpa using hh)
      (by simpa using ht)
    simpa [removalOpened, ht] using hopen
  · exact .load
  · exact hfail (by simp)
  · exact .lower
  · exact .record
  · exact .persist
  · exact hfail (by simp)
  · exact .delete
  · exact hfail (by simp)
  · exact .move
  · have hcalm : Calm c { c with reorgs := c.reorgs.prune c.lastAppliedBlock } :=
      { Calm.refl c with reorgs := fun _ hr => hr.prune c.lastAppliedBlock }
    exact .returns (fun _ => hcalm.then_calls (calls_endRollback _ id driver r))
      (returned_endRollback _ id driver r) (by simp)
  · exact .returns (fun _ => (calm_endTask c id driver).calls) (returned_endTask c id driver)
      (by simp)
  · refine .returns (fun e => ?_) ?_ (by simp)
    · have hc : Calls cfg e c c.incrementalCatchUp := calls_incrementalCatchUp c
      refine { hc with tasks := ?_, started := ?_ }
      · intro j t ht
        simp only [setTask] at ht
        split at ht
        · obtain rfl := Option.some.inj ht
          exact Or.inr trivial
        · rw [tasks_incrementalCatchUp] at ht
          exact Or.inl ⟨t, ht, Or.inl rfl⟩
      · intro j driver' r' ht
        simp only [setTask] at ht
        split at ht
        · simp at ht
        · exact Or.inl (tasks_incrementalCatchUp c ▸ ht)
    · intro t ht
      simp only [setTask, if_true] at ht
      obtain rfl := Option.some.inj ht
      exact Or.inl rfl

/-! ### The runner -/

/-- The moves of the runner that change nothing it shares. -/
inductive RunnerMoves (c : ClientSync) : RunnerPc → RunnerPc → Prop where
  | await {tip : Int} {pc : RunnerPc} (hpc : pc = .awaitTail tip ∨ pc = .download (some tip)) :
      RunnerMoves c (.gotTip (some tip)) pc
  | verified {tip : Int} : RunnerMoves c (.tailDone tip .ok) (.download (some tip))
  | got {dbTip : Option Int} {s : Snapshot} : RunnerMoves c (.download dbTip) (.trainGate dbTip s)
  | lock {dbTip : Option Int} {s : Snapshot} :
      RunnerMoves c (.trainGate dbTip s) (.lockWait dbTip s)
  | again {pc : RunnerPc} (hpc : pc = .readTip ∨ (∃ d, pc = .download d) ∨
      (∃ d s, pc = .trainGate d s) ∨ (∃ d s, pc = .lockWait d s) ∨ ∃ d s, pc = .committed d s) :
      RunnerMoves c pc .readTip
  | awaitRange {since : Int} {s : Snapshot} : RunnerMoves c (.verify since s) .awaitRange
  | fullSchema (hh : c.halted = none) : RunnerMoves c (.full .schema) (.full .download)
  | fullGot {s : Snapshot} : RunnerMoves c (.full .download) (.full (.trainGate s))
  | fullLock {s : Snapshot} : RunnerMoves c (.full (.trainGate s)) (.full (.lockWait s))
  | windowBase {base : Int} : RunnerMoves c (.window .discover) (.window (.schema base))
  | windowSchema {base : Int} (hh : c.halted = none) :
      RunnerMoves c (.window (.schema base)) (.window (.download base))
  | windowGot {base : Int} {s : Snapshot} :
      RunnerMoves c (.window (.download base)) (.window (.trainGate base s))
  | windowAdopted {base : Int} {s : Snapshot} :
      RunnerMoves c (.window (.adopting base s)) (.window (.lockWait base s))
  | windowPaged : RunnerMoves c (.window .paged) (.window .awaitTail)

/-- The steps of the runner that commit rows. -/
def runnerCommits : RunnerPc → Action → Bool
  | .lockWait _ _, .runner .ok => true
  | .full (.applying _), .runner .ok => true
  | .window (.lockWait _ _), .runner .ok => true
  | _, _ => false

/-- The base of a from-height bootstrap is stored before its rows. -/
def windowBased (c : ClientSync) (base : Int) : ClientSync :=
  { c with bootstrapBase := some base, db := { c.db with bootstrap_base := some base } }

inductive RunnerStep (cfg : Config) (c : ClientSync) : RunnerPc → Action → ClientSync → Prop where
  | moves {pc pc' : RunnerPc} {a : Action} {c₁ : ClientSync} (hc : Calm c c₁)
      (hh : c₁.halted = c.halted) (hr : c₁.catchUp = c.catchUp) (hm : RunnerMoves c pc pc')
      (hk : runnerCommits pc a = false) : RunnerStep cfg c pc a (c₁.setRunner pc')
  | idles {pc : RunnerPc} {a : Action} {c' : ClientSync} (hc : Calls cfg (c.doing cfg a) c c')
      (hk : runnerCommits pc a = false)
      (hr : ∀ r, c'.catchUp = some r →
        r.pc.Idle ∨ r.pc = .readTip ∧ c'.incrementalCatchUpBlocked = false) :
      RunnerStep cfg c pc a c'
  | gotTip : RunnerStep cfg c .readTip (.runner .ok) (c.setRunner (.gotTip c.db.tip))
  | fresh : RunnerStep cfg c (.gotTip none) (.runner .ok)
      ((c.startVerifiedTipBelow cfg (sinceBlock none)).setRunner (.download none))
  | range {dbTip : Option Int} {s : Snapshot} (hl : c.holdsLock .runner) :
      RunnerStep cfg c (.lockWait dbTip s) (.runner .ok)
        ({ c with db := c.db.insert (fun _ => true) s.heights }.lockRelease.setRunner
          (.committed dbTip s))
  | cursor {dbTip : Option Int} {s : Snapshot} :
      RunnerStep cfg c (.committed dbTip s) (.runner .ok)
        ({ c with lastAppliedBlock := s.block_height.orElse fun _ => c.lastAppliedBlock }.setRunner
          (.verify (sinceBlock dbTip) s))
  | replaceOpen {s : Snapshot} (hl : c.holdsLock .runner) :
      RunnerStep cfg c (.full (.lockWait s)) (.runner .ok)
        ({ c with marker := c.marker.openRemoval }.setRunner (.full (.applying s)))
  | replace {s : Snapshot} : RunnerStep cfg c (.full (.applying s)) (.runner .ok)
      ({ c with
        db := { c.db.replaceAll s.heights with rollback_guard := none }
        guard := none
        marker := c.marker.endRowRemoval }.lockRelease.setRunner (.full (.applied s)))
  | replaceFailed {s : Snapshot} : RunnerStep cfg c (.full (.applying s)) (.runner .error)
      ({ c with marker := c.marker.endRowRemoval }.lockRelease.setRunner (.full .schema))
  | fullCursor {s : Snapshot} : RunnerStep cfg c (.full (.applied s)) (.runner .ok)
      ({ c with
        lastAppliedBlock := s.block_height
        bootstrapBase := none
        db := { c.db with bootstrap_base := none } }.setRunner (.full .verify))
  | fullAdopt {tip : Int} (htip : c.lastAppliedBlock = some tip) (ht : cfg.tracksVerifiedTip) :
      RunnerStep cfg c (.full .verify) (.runner .ok)
        ({ c with marker :=
          c.marker.bumpRowGeneration.queueMarkerWrite (.adopt tip false) .runner }.setRunner
            (.full .adopting))
  | windowAdopt {base base' : Int} {s : Snapshot} (hb : base' = s.since_block.getD base)
      (ht : cfg.tracksVerifiedTip) :
      RunnerStep cfg c (.window (.trainGate base s)) (.runner .ok)
        ({ c.windowBased base' with marker :=
          c.marker.bumpRowGeneration.queueMarkerWrite (.adopt base' true) .runner }.setRunner
            (.window (.adopting base' s)))
  | windowLock {base base' : Int} {s : Snapshot} (hb : base' = s.since_block.getD base)
      (ht : cfg.tracksVerifiedTip = false) :
      RunnerStep cfg c (.window (.trainGate base s)) (.runner .ok)
        (((c.windowBased base').setRunner (.window (.lockWait base' s))).lockRequest .runner)
  | window {base : Int} {s : Snapshot} (hl : c.holdsLock .runner) :
      RunnerStep cfg c (.window (.lockWait base s)) (.runner .ok)
        ({ c with db := c.db.insert (fun h => base < h) s.heights }.lockRelease.setRunner
          (.window (.committed s)))
  | windowCursor {s : Snapshot} : RunnerStep cfg c (.window (.committed s)) (.runner .ok)
      ({ c with lastAppliedBlock := s.block_height.orElse fun _ => c.lastAppliedBlock }.setRunner
        (.window .paged))

variable {a : Action} {pc : RunnerPc}

theorem idles_setRunner {c₁ : ClientSync} {pc' : RunnerPc} (hc : Calm c c₁) (hi : pc'.Idle)
    (hk : runnerCommits pc a = false) : RunnerStep cfg c pc a (c₁.setRunner pc') := by
  refine .idles (hc.trans (calm_setRunner c₁ hi)).calls hk fun r hr => Or.inl ?_
  obtain ⟨y, -, rfl⟩ := Option.map_eq_some_iff.mp hr
  exact hi

theorem idles_finishRunner {c₁ : ClientSync} (hc : Calm c c₁) (hk : runnerCommits pc a = false) :
    RunnerStep cfg c pc a c₁.finishRunner :=
  .idles (hc.trans (calm_finishRunner c₁)).calls hk fun r hr => by simp [finishRunner] at hr

theorem idles_windowRetry {c₁ : ClientSync} (hc : Calm c c₁) (hk : runnerCommits pc a = false) :
    RunnerStep cfg c pc a c₁.windowRetry := by
  unfold windowRetry
  split
  · exact idles_finishRunner hc hk
  · exact idles_setRunner hc trivial hk

theorem runnerStep_lockRequest {pc' : RunnerPc} (hm : RunnerMoves c pc pc')
    (hk : runnerCommits pc a = false) :
    RunnerStep cfg c pc a ((c.setRunner pc').lockRequest .runner) :=
  .moves (calm_lockRequest c .runner) rfl rfl hm hk

theorem runnerStep_startWalk {pc' : RunnerPc} (hm : RunnerMoves c pc pc')
    (hk : runnerCommits pc a = false) :
    RunnerStep cfg c pc a (c.startWalk.setRunner pc') := by
  refine .moves (calm_startWalk c) (halted_startWalk c) ?_ hm hk
  unfold startWalk
  split <;> rfl

theorem runnerStep_moves {pc' : RunnerPc} (hm : RunnerMoves c pc pc')
    (hk : runnerCommits pc a = false) :
    RunnerStep cfg c pc a (c.setRunner pc') := .moves (Calm.refl c) rfl rfl hm hk

theorem fullStep_cases {pc : FullPc} {o : Outcome} (h : c.fullStep cfg pc o = some c') :
    RunnerStep cfg c (.full pc) (.runner o) c' := by
  revert h
  fun_cases fullStep cfg c pc o
  all_goals intro h
  all_goals simp only [Option.some.injEq, reduceCtorEq] at h
  all_goals subst h
  · exact idles_finishRunner (Calm.refl c) rfl
  · rename_i hh
    exact runnerStep_moves (.fullSchema (by simpa using hh)) rfl
  · exact idles_finishRunner (calm_halt c (by decide)) rfl
  · exact runnerStep_lockRequest .fullLock rfl
  · exact idles_finishRunner (calm_halt c (by decide)) rfl
  · exact .replaceOpen (by assumption)
  · exact .replace
  · exact .replaceFailed
  · exact .fullCursor
  · exact .fullAdopt (by assumption) (by assumption)
  · exact idles_setRunner (Calm.refl c) trivial rfl
  · exact idles_setRunner (Calm.refl c) trivial rfl
  · exact idles_finishRunner (calm_halt c (by decide)) rfl
  · exact idles_setRunner (Calm.refl c) trivial rfl
  · exact idles_setRunner (Calm.refl c) trivial rfl

theorem runnerAwaitsTail_cases {pc' skipped : RunnerPc} (hm : RunnerMoves c pc pc')
    (hs : RunnerMoves c pc skipped ∨ skipped.Idle) (hk : runnerCommits pc a = false) :
    RunnerStep cfg c pc a (c.runnerAwaitsTail cfg pc' skipped) := by
  unfold runnerAwaitsTail
  split
  · rcases hs with hs | hs
    · exact runnerStep_moves hs hk
    · exact idles_setRunner (Calm.refl c) hs hk
  · split
    · exact idles_setRunner (Calm.refl c) trivial hk
    · exact runnerStep_startWalk hm hk

theorem windowStep_cases {pc : WindowPc} {o : Outcome} (h : c.windowStep cfg pc o = some c') :
    RunnerStep cfg c (.window pc) (.runner o) c' := by
  revert h
  fun_cases windowStep cfg c pc o
  all_goals intro h
  all_goals simp only [Option.some.injEq, reduceCtorEq] at h
  all_goals subst h
  · exact idles_finishRunner (Calm.refl c) rfl
  · rename_i hh
    exact runnerStep_moves (.windowSchema (by simpa using hh)) rfl
  · exact idles_finishRunner (calm_halt c (by decide)) rfl
  · exact .windowAdopt rfl (by assumption)
  · rename_i ht
    exact .windowLock rfl (by simpa using ht)
  · exact idles_finishRunner (calm_halt c (by decide)) rfl
  · exact runnerStep_lockRequest .windowAdopted rfl
  · exact .window (by assumption)
  · exact .windowCursor
  · exact runnerAwaitsTail_cases .windowPaged (Or.inr trivial) rfl

theorem idles_rewindIfCatchUpForked (dbTip : Int) :
    RunnerStep cfg c pc (.runner .unresolved) (c.rewindIfCatchUpForked cfg dbTip) := by
  have hc : Calls cfg (c.doing cfg (.runner .unresolved)) c _ :=
    calls_startRollback c .runner ⟨⟨dbTip, .plain .undefined⟩, none, false⟩ rfl
  have hset : ∀ (c₁ : ClientSync) (pc' : RunnerPc), pc'.Idle → ∀ r,
      (c₁.setRunner pc').catchUp = some r → r.pc.Idle := by
    intro c₁ pc' hi r hr
    obtain ⟨y, -, rfl⟩ := Option.map_eq_some_iff.mp hr
    exact hi
  unfold rewindIfCatchUpForked
  dsimp only
  split
  · refine .idles ?_ (by simp [runnerCommits]) fun r hr => Or.inl (hset _ .passEnd trivial r hr)
    exact { hc with catchUp := Or.inl fun r hr => Or.inr (Or.inr (hset _ .passEnd trivial r hr)) }
  · refine .idles ?_ (by simp [runnerCommits]) fun r hr => Or.inl (hset _ .rewinding trivial r hr)
    exact { hc with catchUp := Or.inl fun r hr => Or.inr (Or.inr (hset _ .rewinding trivial r hr)) }

theorem idle_endPass (c : ClientSync) (r : Runner) : ∀ x, (c.endPass r).catchUp = some x →
    x.pc.Idle ∨ x.pc = .readTip ∧ (c.endPass r).incrementalCatchUpBlocked = false := by
  intro x hx
  unfold endPass at hx ⊢
  split at hx
  · rename_i h
    rw [if_pos h]
    simp only [Bool.and_eq_true, Bool.not_eq_true'] at h
    obtain rfl := Option.some.inj hx
    exact Or.inr ⟨rfl, h.2⟩
  · simp [finishRunner] at hx

theorem runnerStep_cases {r : Runner} {o : Outcome} (h : c.runnerStep cfg r pc o = some c') :
    RunnerStep cfg c pc (.runner o) c' := by
  revert h
  fun_cases runnerStep cfg c r pc o
  all_goals intro h
  all_goals try simp only [Option.some.injEq, reduceCtorEq] at h
  all_goals try subst h
  · exact .gotTip
  · exact .fresh
  · exact runnerAwaitsTail_cases (.await (Or.inl rfl)) (Or.inl (.await (Or.inr rfl)))
      rfl
  · exact runnerStep_moves .verified rfl
  · exact idles_setRunner (Calm.refl c) trivial rfl
  · exact runnerStep_lockRequest .lock rfl
  · exact idles_setRunner (calm_halt c (by decide)) trivial rfl
  · exact idles_rewindIfCatchUpForked _
  · exact .range (by assumption)
  · exact .cursor
  · exact idles_setRunner (calm_halt c (by decide)) trivial rfl
  · exact runnerAwaitsTail_cases .awaitRange (Or.inr trivial) rfl
  · exact .idles (calls_endPass c r) rfl (idle_endPass c r)
  · exact fullStep_cases h
  · exact windowStep_cases h

theorem runnerGets_cases {s : Snapshot} (h : c.runnerGets s pc = some c') :
    RunnerStep cfg c pc (.runnerGets s) c' := by
  revert h
  fun_cases runnerGets c s pc
  all_goals intro h
  all_goals simp only [Option.some.injEq, reduceCtorEq] at h
  all_goals subst h
  · exact runnerStep_moves .got rfl
  · exact runnerStep_moves .fullGot rfl
  · exact runnerStep_moves .windowGot rfl

/-- A pass that failed in a state `c₁` it has calmly reached. -/
theorem passFailed_cases {c₁ : ClientSync} (hc : Calm c c₁) (hh : c₁.halted = c.halted)
    (hr : c₁.catchUp = c.catchUp) (hm : RunnerMoves c pc .readTip)
    (hk : runnerCommits pc a = false) (dbTip : Option Int) (e : CatchUpError) : RunnerStep cfg c pc a (c₁.passFailed cfg dbTip e) := by
  unfold passFailed
  split
  · split
    · split
      · exact idles_setRunner (hc.trans (calm_halt c₁ (by decide))) trivial hk
      · exact idles_setRunner hc trivial hk
    · exact idles_setRunner hc trivial hk
  · exact idles_setRunner (hc.trans (calm_halt c₁ (by decide))) trivial hk
  · exact .moves hc hh hr hm hk
  · exact idles_setRunner hc trivial hk

theorem runnerFails_cases {e : CatchUpError} (h : c.runnerFails cfg e pc = some c') :
    RunnerStep cfg c pc (.runnerFails e) c' := by
  have hsame : ∀ dbTip, RunnerMoves c pc .readTip →
      RunnerStep cfg c pc (.runnerFails e) (c.passFailed cfg dbTip e) :=
    fun dbTip hm => passFailed_cases (Calm.refl c) rfl rfl hm (by simp [runnerCommits]) dbTip e
  revert h
  fun_cases runnerFails cfg c e pc
  all_goals intro h
  all_goals simp only [Option.some.injEq, reduceCtorEq] at h
  all_goals subst h
  · exact hsame _ (.again (Or.inl rfl))
  · exact hsame _ (.again (Or.inr (Or.inl ⟨_, rfl⟩)))
  · exact hsame _ (.again (Or.inr (Or.inr (Or.inl ⟨_, _, rfl⟩))))
  · exact passFailed_cases (calm_lockRelease c) rfl rfl
      (.again (Or.inr (Or.inr (Or.inr (Or.inl ⟨_, _, rfl⟩))))) rfl _ e
  · exact hsame _ (.again (Or.inr (Or.inr (Or.inr (Or.inr ⟨_, _, rfl⟩)))))
  · exact idles_finishRunner (calm_halt c (by decide)) rfl
  · exact idles_setRunner (Calm.refl c) trivial rfl
  · exact idles_windowRetry (Calm.refl c) rfl
  · exact idles_windowRetry (Calm.refl c) rfl
  · exact idles_finishRunner (calm_halt c (by decide)) rfl
  · exact idles_windowRetry (Calm.refl c) rfl
  · exact idles_windowRetry (calm_lockRelease c) rfl
  · exact idles_windowRetry (Calm.refl c) rfl

end ClientSync

end XChainSync.Client
