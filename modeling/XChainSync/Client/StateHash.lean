import XChainSync.Client.Commits
import XChainSync.Library.Runs

/-!
# State-hash halts

A state_hash recompute reads the replica in several queries outside the apply lock, and its verdict is
about the block it was started for only while that block is the stored tip. A walk drops a verdict
after rows were removed; nothing drops one after rows were added, and a live apply drops none.
-/

namespace XChainSync.Client
set_option autoImplicit false

open Runs

theorem Task.Resumes.stateHash {t₀ : Task} {driver : Driver} {event : BlockEvent}
    {generation : Nat} {reads : Option Bool}
    (h : t₀.Resumes ⟨driver, .live event (.stateHash generation reads)⟩) :
    t₀ = ⟨driver, .live event (.stateHash generation reads)⟩ := by
  rcases h with rfl | ⟨v, hv⟩
  · rfl
  · obtain ⟨driver', work⟩ := t₀
    cases work with
    | live event' pc => cases pc <;> simp_all [Task.resume, LivePc.resume]
    | _ => simp_all [Task.resume]

namespace ClientSync

/-- A live apply recomputes the state_hash of its block. -/
def HashesLive (c : ClientSync) (id : TaskId) : Prop :=
  ∃ driver event generation reads,
    c.tasks id = some ⟨driver, .live event (.stateHash generation reads)⟩

/-- The walk recomputes a state_hash whose verdict will count. -/
def HashesWalk (c : ClientSync) : Prop :=
  ∃ w h lo tip reads, c.tailVerify = some w ∧ w.pc = .stateHash h lo tip reads ∧
    w.generation = c.marker.rowGeneration

/-- The height whose state_hash recompute a step starts. -/
def startsHash (cfg : Config) (c : ClientSync) : Action → Option Int
  | .task id .ok =>
    match c.tasks id with
    | some ⟨_, .live event (.recompute generation _)⟩ =>
      if afterRecompute cfg event generation = .stateHash generation none then
        some event.block_index
      else none
    | some ⟨_, .live event (.lockWait generation)⟩ =>
      if !cfg.tracksVerifiedTip ∧ afterRecompute cfg event generation = .stateHash generation none then
        some event.block_index
      else none
    | _ => none
  | .walk .ok =>
    match c.tailVerify with
    | some ⟨generation, _, .recompute h _ tip _⟩ =>
      if h = tip ∧ cfg.VERIFY_STATE_HASH ∧ generation = c.marker.rowGeneration then some h else none
    | _ => none
  | _ => none

/-- Honest payloads: a mismatch is found only by a recompute one of whose reads has seen another
tip. -/
def Honest (c : ClientSync) : Action → Prop
  | .task id .bad =>
    match c.tasks id with
    | some ⟨_, .live _ (.stateHash _ (some reads))⟩ => reads = false
    | _ => True
  | .walk .bad =>
    match c.tailVerify with
    | some ⟨_, _, .stateHash _ _ _ (some reads)⟩ => reads = false
    | _ => True
  | _ => True

instance (c : ClientSync) (a : Action) : Decidable (c.Honest a) := by
  unfold Honest
  repeat' split
  all_goals infer_instance

/-- A recompute starts on the stored tip, and no rows come or go under it that its verdict is not
dropped for. -/
def Undisturbed (cfg : Config) (c : ClientSync) (a : Action) : Prop :=
  (∀ h ∈ c.startsHash cfg a, (c.committed a).tip = some h) ∧
    ∀ k, c.committing a = some k →
      (∀ id, ¬ c.HashesLive id) ∧ (k.inserts.isSome → ¬ c.HashesWalk)

/-- Every recompute in flight whose verdict counts is one of the stored tip, and has read no other. -/
structure OnTip (c : ClientSync) : Prop where
  live : ∀ id driver event generation reads,
    c.tasks id = some ⟨driver, .live event (.stateHash generation reads)⟩ →
      c.db.tip = some event.block_index ∧ reads ≠ some false
  generation : ∀ w, c.tailVerify = some w → w.generation ≤ c.marker.rowGeneration
  walk : ∀ w h lo tip reads, c.tailVerify = some w → w.pc = .stateHash h lo tip reads →
    w.generation = c.marker.rowGeneration → c.db.tip = some h ∧ reads ≠ some false
  failing : ∀ w, c.tailVerify = some w → w.pc ≠ .failing (some .stateHash)
  halted : c.halted ≠ some .stateHash

variable {cfg : Config} {c c' : ClientSync} {a : Action} {e : Doing}

/-! ### What keeps it -/

/-- The tip stays, the generation does not fall. -/
theorem OnTip.congr (hi : c.OnTip) (htasks : c'.tasks = c.tasks)
    (hwalk : c'.tailVerify = c.tailVerify) (htip : c'.db.tip = c.db.tip)
    (hgen : c.marker.rowGeneration ≤ c'.marker.rowGeneration) (hh : c'.halted = c.halted) :
    c'.OnTip where
  live := by
    rw [htasks, htip]
    exact hi.live
  generation := by
    intro w hw
    rw [hwalk] at hw
    exact (hi.generation w hw).trans hgen
  walk := by
    intro w h lo tip reads hw hpc hg
    rw [hwalk] at hw
    have hle := hi.generation w hw
    rw [htip]
    exact hi.walk w h lo tip reads hw hpc (by omega)
  failing := by
    rw [hwalk]
    exact hi.failing
  halted := by
    rw [hh]
    exact hi.halted

theorem OnTip.setTask (hi : c.OnTip) {id : TaskId} {t : Task}
    (ht : ∀ driver event generation reads,
      t = ⟨driver, .live event (.stateHash generation reads)⟩ →
        c.db.tip = some event.block_index ∧ reads ≠ some false) :
    (c.setTask id (some t)).OnTip := by
  refine { hi with live := ?_ }
  intro j driver event generation reads hj
  simp only [ClientSync.setTask] at hj
  split at hj
  · exact ht driver event generation reads (Option.some.inj hj)
  · exact hi.live j driver event generation reads hj

theorem OnTip.calls (hi : c.OnTip) (hc : Calls cfg e c c') : c'.OnTip where
  live := by
    intro id driver event generation reads ht
    rw [hc.db]
    rcases hc.tasks id _ ht with ⟨t₀, ht₀, hr⟩ | hs
    · rw [Task.Resumes.stateHash hr] at ht₀
      exact hi.live id driver event generation reads ht₀
    · exact absurd hs.1 (by simp)
  generation := by
    intro w hw
    rw [hc.marker]
    rcases hc.tailVerify with h | h | ⟨pc, h, -⟩
    · exact hi.generation w (h ▸ hw)
    · simp [h] at hw
    · rw [h] at hw
      obtain rfl := Option.some.inj hw
      exact Nat.le_refl _
  walk := by
    intro w h lo tip reads hw hpc hg
    rw [hc.marker] at hg
    rw [hc.db]
    rcases hc.tailVerify with h' | h' | ⟨pc, h', hpc'⟩
    · exact hi.walk w h lo tip reads (h' ▸ hw) hpc hg
    · simp [h'] at hw
    · rw [h'] at hw
      obtain rfl := Option.some.inj hw
      rcases hpc' with rfl | rfl <;> simp at hpc
  failing := by
    intro w hw
    rcases hc.tailVerify with h' | h' | ⟨pc, h', hpc'⟩
    · exact hi.failing w (h' ▸ hw)
    · simp [h'] at hw
    · rw [h'] at hw
      obtain rfl := Option.some.inj hw
      rcases hpc' with rfl | rfl <;> simp
  halted := by
    rcases hc.halted with h | ⟨-, reason, hne, h⟩
    · rw [h]
      exact hi.halted
    · rw [h]
      simpa using hne

theorem OnTip.calm (hi : c.OnTip) (hc : Calm c c') : c'.OnTip := by
  have hcalls : Calls default .nothing c c' := hc.calls
  exact hi.calls hcalls

/-- New rows, or fewer, when no recompute whose verdict counts is in flight. -/
theorem OnTip.commit (hi : c.OnTip) (db : Replica) (marker : VerifiedTip)
    (hgen : c.marker.rowGeneration ≤ marker.rowGeneration) (hlive : ∀ id, ¬ c.HashesLive id)
    (hwalk : ¬ c.HashesWalk ∨ c.marker.rowGeneration < marker.rowGeneration) :
    { c with db := db, marker := marker }.OnTip where
  live := fun id driver event generation reads ht =>
    absurd ⟨driver, event, generation, reads, ht⟩ (hlive id)
  generation := fun w hw => (hi.generation w hw).trans hgen
  walk := by
    intro w h lo tip reads hw hpc hg
    have hle := hi.generation w hw
    rcases hwalk with hno | hlt
    · exact absurd ⟨w, h, lo, tip, reads, hw, hpc, by dsimp only at hg; omega⟩ hno
    · dsimp only at hg
      omega
  failing := hi.failing
  halted := hi.halted

/-! ### Live applies -/

theorem OnTip.setLive (hi : c.OnTip) {id : TaskId} {driver : Driver} {event : BlockEvent}
    {pc : LivePc} (hpc : ∀ generation reads, pc = .stateHash generation reads →
      c.db.tip = some event.block_index ∧ reads ≠ some false) :
    (c.setLive id driver event pc).OnTip := by
  refine hi.setTask ?_
  intro driver' event' generation reads ht
  simp only [Task.mk.injEq, Work.live.injEq] at ht
  obtain ⟨-, rfl, rfl⟩ := ht
  exact hpc generation reads rfl

theorem afterRecompute_cases (event : BlockEvent) (generation : Nat) :
    afterRecompute cfg event generation = .stateHash generation none ∨
      afterRecompute cfg event generation = .finish generation := by
  unfold afterRecompute
  split
  · exact Or.inl rfl
  · exact Or.inr rfl

/-- The pc after a recompute, on the tip the step has left. -/
theorem onTip_afterRecompute {c₁ : ClientSync} {event : BlockEvent} {generation : Nat}
    (htip : afterRecompute cfg event generation = .stateHash generation none →
      c₁.db.tip = some event.block_index) :
    ∀ g reads, afterRecompute cfg event generation = .stateHash g reads →
      c₁.db.tip = some event.block_index ∧ reads ≠ some false := by
  intro g reads h
  rcases @afterRecompute_cases cfg event generation with h' | h'
  · have htip' := htip h'
    rw [h'] at h
    simp only [LivePc.stateHash.injEq] at h
    exact ⟨htip', by rw [← h.2]; simp⟩
  · rw [h'] at h
    simp at h

theorem onTip_applyBlock (hi : c.OnTip) {id : TaskId} {driver : Driver} {event : BlockEvent}
    {generation : Nat} (ht : c.tasks id = some ⟨driver, .live event (.lockWait generation)⟩)
    (hl : c.holdsLock (.task id)) (hok : Undisturbed cfg c (.task id .ok)) :
    (c.applyBlock event).OnTip := by
  unfold applyBlock
  split
  · exact hi
  · rename_i hskip
    have hk : c.committing (.task id .ok) = some (.block event.block_index) := by
      simp only [committing, ht, hl]
      cases hd : event.data <;> simp_all
    obtain ⟨hlive, hwalk⟩ := hok.2 _ hk
    exact hi.commit _ c.marker (Nat.le_refl _) hlive (Or.inl (hwalk rfl))

theorem onTip_recomputePassed (hi : c.OnTip) (h : Int) (seen : List Nat) :
    (c.recomputePassed h seen).OnTip ∧ (c.recomputePassed h seen).db.tip = c.db.tip := by
  have htip := Replica.tip_congr (notes_recomputePassed c h seen).rows
  refine ⟨?_, htip⟩
  rw [recomputePassed_eq]
  exact hi.congr rfl rfl htip (Nat.le_refl _) rfl

theorem live_onTip {id : TaskId} {o : Outcome} {driver : Driver} {event : BlockEvent}
    {pc : LivePc} (hi : c.OnTip) (hok : Undisturbed cfg c (.task id o))
    (hhon : c.Honest (.task id o)) (ht : c.tasks id = some ⟨driver, .live event pc⟩)
    (hs : LiveStep cfg c id driver event pc o c') : c'.OnTip := by
  cases hs with
  | tail hc hh hpc =>
    refine (hi.calm hc).setLive ?_
    rintro g reads rfl
    simp at hpc
  | lock hpc => exact (hi.setLive (by simp)).congr rfl rfl rfl (Nat.le_refl _) rfl
  | @apply generation pc' hl hpc =>
    have hi' : (c.applyBlock event).lockRelease.OnTip :=
      (onTip_applyBlock hi ht hl hok).congr rfl rfl rfl (Nat.le_refl _) rfl
    refine hi'.setLive ?_
    have hdb : (c.applyBlock event).db.tip = (c.committed (.task id .ok)).tip := by
      refine Replica.tip_congr ?_
      have hrows := (live_rows ht (.apply hl hpc)).1
      exact hrows
    split at hpc
    · rintro g reads rfl
      simp at hpc
    · rename_i htr
      rw [hpc]
      refine onTip_afterRecompute fun hstart => ?_
      change (c.applyBlock event).db.tip = _
      rw [hdb]
      refine hok.1 _ ?_
      simp [startsHash, ht, htr, hstart]
  | @recomputed generation seen =>
    obtain ⟨hi', htip⟩ := onTip_recomputePassed hi event.block_index seen
    refine hi'.setLive (onTip_afterRecompute fun hstart => ?_)
    rw [htip]
    have hnone : c.committed (.task id .ok) = c.db :=
      committed_of_none (by simp [committing, ht])
    rw [← hnone]
    refine hok.1 _ ?_
    simp [startsHash, ht, hstart]
  | @read generation reads =>
    have hlive := hi.live id driver event generation reads ht
    refine hi.setLive ?_
    intro g reads' h
    simp only [LivePc.stateHash.injEq] at h
    refine ⟨hlive.1, ?_⟩
    rw [← h.2, hlive.1]
    cases reads with
    | none => simp
    | some b =>
      obtain rfl : b = true := by simpa using hlive.2
      simp
  | hashed => exact hi.setLive (by simp)
  | @diverged generation reads =>
    have hlive := hi.live id driver event generation (some reads) ht
    simp only [Honest, ht] at hhon
    simp [hhon] at hlive
  | @finish generation marker hm =>
    have hi' : { c with lastAppliedBlock := some event.block_index, marker := marker }.OnTip := by
      refine hi.congr rfl rfl rfl ?_ rfl
      rw [hm]
      split <;> exact Nat.le_refl _
    exact hi'.setLive (by simp)
  | quit hc hgone hk => exact hi.calm hc

/-! ### Rollbacks and the runner -/

theorem OnTip.setRollback (hi : c.OnTip) {id : TaskId} {driver : Driver} {r : Rollback}
    {pc : RollbackPc} : (c.setRollback id driver r pc).OnTip := by
  refine hi.setTask ?_
  intro driver' event generation reads ht
  simp at ht

theorem OnTip.marker (hi : c.OnTip) {marker : VerifiedTip}
    (hgen : c.marker.rowGeneration ≤ marker.rowGeneration) : { c with marker := marker }.OnTip :=
  hi.congr rfl rfl rfl hgen rfl

theorem OnTip.removalOpened (hi : c.OnTip) : (c.removalOpened cfg).OnTip := by
  refine hi.marker ?_
  split
  · exact Nat.le_add_right _ 2
  · exact Nat.le_add_right _ 1

theorem OnTip.queueLower (hi : c.OnTip) {id : TaskId} {driver : Driver} {r : Rollback} :
    (c.queueLower id driver r).OnTip := by
  apply OnTip.setRollback
  exact hi.marker (Nat.le_refl _)

theorem OnTip.recordRollback (hi : c.OnTip) {id : TaskId} {driver : Driver} {r : Rollback} :
    (c.recordRollback cfg id driver r).OnTip := by
  apply OnTip.setRollback
  exact hi.congr rfl rfl rfl (Nat.le_refl _) rfl

theorem rollback_onTip {id : TaskId} {o : Outcome} {driver : Driver} {r : Rollback}
    {pc : RollbackPc} (hi : c.OnTip) (hok : Undisturbed cfg c (.task id o))
    (ht : c.tasks id = some ⟨driver, .rollback r pc⟩)
    (hs : RollbackStep cfg c id driver r pc o c') : c'.OnTip := by
  cases hs with
  | openLoad hl hh htr hm => exact hi.removalOpened.setRollback
  | openLower hl hh htr hm => exact hi.removalOpened.queueLower
  | openRecord hl hh htr => exact hi.removalOpened.recordRollback
  | load => exact hi.setRollback
  | lower =>
    apply OnTip.queueLower
    exact hi.marker (Nat.le_refl _)
  | record => exact hi.recordRollback
  | persist =>
    apply OnTip.setRollback
    exact hi.congr rfl rfl rfl (Nat.le_refl _) rfl
  | delete =>
    have hk : c.committing (.task id .ok) = some (.rollback r.event.block_index) := by
      simp [committing, ht]
    obtain ⟨hlive, -⟩ := hok.2 _ hk
    have hi' : { c with
        db := c.db.deleteFrom r.event.block_index
        marker := c.marker.endRowRemoval }.OnTip :=
      hi.commit _ _ (Nat.le_succ _) hlive (Or.inr (Nat.lt_succ_self _))
    apply OnTip.setRollback
    exact hi'.congr rfl rfl rfl (Nat.le_refl _) rfl
  | move =>
    apply OnTip.setRollback
    exact hi.congr rfl rfl rfl (Nat.le_refl _) rfl
  | fail hc hid hk => exact (hi.marker (Nat.le_succ _)).calls (hc .nothing)
  | returns hc hid hk => exact hi.calls (hc .nothing)

theorem OnTip.setRunner (hi : c.OnTip) {pc : RunnerPc} : (c.setRunner pc).OnTip :=
  hi.congr rfl rfl rfl (Nat.le_refl _) rfl

theorem runner_onTip {r : Runner} (hi : c.OnTip) (hok : Undisturbed cfg c a)
    (hr : c.catchUp = some r) (hs : RunnerStep cfg c r.pc a c') : c'.OnTip := by
  obtain ⟨before, pc⟩ := r
  cases hs with
  | moves hc hh hr' hm hk => exact (hi.calm hc).setRunner
  | idles hc hk hr' => exact hi.calls hc
  | gotTip => exact hi.setRunner
  | fresh =>
    refine OnTip.setRunner ?_
    unfold startVerifiedTipBelow
    split
    · exact hi.marker (Nat.le_refl _)
    · exact hi
  | @range dbTip s hl =>
    have hk : c.committing (.runner .ok) = some (.range s.heights) := by simp [committing, hr, hl]
    obtain ⟨hlive, hwalk⟩ := hok.2 _ hk
    have hi' := hi.commit (c.db.insert (fun _ => true) s.heights) c.marker (Nat.le_refl _)
      hlive (Or.inl (hwalk rfl))
    exact hi'.congr rfl rfl rfl (Nat.le_refl _) rfl
  | @window base s hl =>
    have hk : c.committing (.runner .ok) = some (.window base s.heights) := by
      simp [committing, hr, hl]
    obtain ⟨hlive, hwalk⟩ := hok.2 _ hk
    have hi' := hi.commit (c.db.insert (fun h => base < h) s.heights) c.marker (Nat.le_refl _)
      hlive (Or.inl (hwalk rfl))
    exact hi'.congr rfl rfl rfl (Nat.le_refl _) rfl
  | @replace s =>
    have hk : c.committing (.runner .ok) = some (.snapshot s.heights) := by simp [committing, hr]
    obtain ⟨hlive, -⟩ := hok.2 _ hk
    have hi' := hi.commit { c.db.replaceAll s.heights with rollback_guard := none }
      c.marker.endRowRemoval (Nat.le_succ _) hlive (Or.inr (Nat.lt_succ_self _))
    exact hi'.congr rfl rfl rfl (Nat.le_refl _) rfl
  | replaceOpen hl => exact hi.congr rfl rfl rfl (Nat.le_succ _) rfl
  | replaceFailed => exact hi.congr rfl rfl rfl (Nat.le_succ _) rfl
  | fullAdopt htip ht => exact hi.congr rfl rfl rfl (Nat.le_succ _) rfl
  | windowAdopt hb ht => exact hi.congr rfl rfl rfl (Nat.le_succ _) rfl
  | _ => exact hi.congr rfl rfl rfl (Nat.le_refl _) rfl

/-! ### The walk -/

theorem OnTip.setWalk (hi : c.OnTip) {w : Walk} {pc : WalkPc}
    (hgen : w.generation ≤ c.marker.rowGeneration) (hf : pc ≠ .failing (some .stateHash))
    (hpc : ∀ h lo tip reads, pc = .stateHash h lo tip reads →
      w.generation = c.marker.rowGeneration → c.db.tip = some h ∧ reads ≠ some false) :
    (c.setWalk w pc).OnTip where
  live := hi.live
  generation := by
    intro w' hw'
    obtain rfl := Option.some.inj hw'
    exact hgen
  walk := by
    intro w' h lo tip reads hw' hpc' hg
    obtain rfl := Option.some.inj hw'
    exact hpc h lo tip reads hpc' hg
  failing := by
    intro w' hw'
    obtain rfl := Option.some.inj hw'
    exact hf
  halted := hi.halted

section Walk
variable {w : Walk} (hi : c.OnTip) (hgen : w.generation ≤ c.marker.rowGeneration)
include hi hgen

theorem onTip_checkBlock (h lo tip : Int) : (c.checkBlock w h lo tip).OnTip := by
  unfold checkBlock
  split
  · exact hi.calm (calm_finishWalk c .held)
  · exact hi.setWalk hgen (by simp) (by simp)

theorem onTip_beginRange (tip : Int) : (c.beginRange w tip).OnTip := by
  unfold beginRange
  extract_lets above start
  split
  · exact hi.calm (calm_finishWalk c .ok)
  · exact onTip_checkBlock hi hgen _ _ tip

theorem onTip_seedOrRange (tip : Int) : (c.seedOrRange w tip).OnTip := by
  unfold seedOrRange
  split
  · split
    · exact hi.setWalk hgen (by simp) (by simp)
    · exact onTip_beginRange hi hgen tip
  · exact hi.setWalk hgen (by simp) (by simp)

theorem onTip_queuePersist {pc : WalkPc} (hf : pc ≠ .failing (some .stateHash))
    (hpc : ∀ h lo tip reads, pc ≠ .stateHash h lo tip reads) :
    ((c.queuePersist w).setWalk w pc).OnTip := by
  have hi' : (c.queuePersist w).OnTip := hi.marker (Nat.le_refl _)
  exact hi'.setWalk hgen hf fun h lo tip reads he => absurd he (hpc h lo tip reads)

theorem onTip_nextBlock (h lo tip : Int) : (c.nextBlock cfg w h lo tip).OnTip := by
  unfold nextBlock
  split
  · exact onTip_checkBlock hi hgen _ lo tip
  · exact onTip_queuePersist hi hgen (by simp) (by simp)

theorem onTip_blockVerified (h lo tip : Int) : (c.blockVerified cfg w h lo tip).OnTip := by
  have hsame : (c.marker.noteVerifiedBlock h).rowGeneration = c.marker.rowGeneration := by
    unfold VerifiedTip.noteVerifiedBlock
    split
    · split <;> rfl
    · rfl
  have hi' : { c with marker := c.marker.noteVerifiedBlock h }.OnTip := hi.marker hsame.ge
  unfold blockVerified
  split
  · exact hi.calm (calm_finishWalk c .held)
  · dsimp only
    split
    · exact onTip_queuePersist hi' (hgen.trans hsame.ge) (by simp) (by simp)
    · exact onTip_nextBlock hi' (hgen.trans hsame.ge) h lo tip

/-- A mismatch settles only while the rows are the ones the walk began on. -/
theorem onTip_blockFailed {reason : Option HaltReason}
    (hr : reason = some .stateHash → w.generation ≠ c.marker.rowGeneration) :
    (c.blockFailed w reason).OnTip := by
  unfold blockFailed
  split
  · exact hi.calm (calm_finishWalk c .held)
  · rename_i hrows
    simp only [VerifiedTip.rowsChangedSince, Bool.or_eq_true, decide_eq_true_eq, not_or,
      not_not] at hrows
    refine onTip_queuePersist hi hgen ?_ (by simp)
    simp only [ne_eq, WalkPc.failing.injEq]
    exact fun heq => hr heq hrows.1.symm

end Walk

theorem walk_onTip {w : Walk} {o : Outcome} (hi : c.OnTip) (hok : Undisturbed cfg c (.walk o))
    (hhon : c.Honest (.walk o)) (hw : c.tailVerify = some w)
    (hs : c.walkStep cfg w w.pc o = some c') : c'.OnTip := by
  obtain ⟨generation, seeded, pc⟩ := w
  have hgen := hi.generation _ hw
  have hwalk := fun h lo tip reads => hi.walk _ h lo tip reads hw
  have hfail := hi.failing _ hw
  revert hs
  dsimp only at hgen hwalk hfail ⊢
  fun_cases walkStep cfg c ⟨generation, seeded, pc⟩ pc o
  all_goals intro hs
  all_goals simp only [Option.some.injEq, reduceCtorEq] at hs
  all_goals subst hs
  · exact hi.setWalk hgen (by simp) (by simp)
  · exact hi.calm (calm_finishWalk c _)
  · exact hi.calm (calm_finishWalk c _)
  · exact hi.setWalk hgen (by simp) (by simp)
  · exact onTip_seedOrRange hi hgen _
  · exact hi.setWalk hgen (by simp) (by simp)
  · exact hi.calm (calm_finishWalk c _)
  · apply onTip_seedOrRange
    · exact hi.marker (Nat.le_refl _)
    · exact hgen
  · apply onTip_beginRange
    · exact hi.marker (Nat.le_refl _)
    · exact hgen
  · rename_i h lo tip seen _ hstart
    simp only [Bool.and_eq_true, decide_eq_true_eq] at hstart
    obtain ⟨hpassed, htip⟩ := onTip_recomputePassed hi h seen
    have hmarker := marker_recomputePassed c h seen
    refine hpassed.setWalk (hmarker.symm ▸ hgen) (by simp) ?_
    intro h' lo' tip' reads heq hg
    simp only [WalkPc.stateHash.injEq] at heq
    obtain ⟨rfl, rfl, rfl, rfl⟩ := heq
    refine ⟨?_, by simp⟩
    rw [htip, ← committed_of_none (c := c) (a := .walk .ok) rfl]
    refine hok.1 h ?_
    have hg' : generation = c.marker.rowGeneration := hmarker ▸ hg
    simp [startsHash, hw, hstart, hg']
  · apply onTip_blockVerified
    · exact (onTip_recomputePassed hi _ _).1
    · exact (marker_recomputePassed c _ _).symm ▸ hgen
  · apply onTip_blockVerified
    · exact (onTip_recomputePassed hi _ _).1
    · exact (marker_recomputePassed c _ _).symm ▸ hgen
  · exact onTip_blockFailed hi hgen (by simp)
  · exact onTip_blockFailed hi hgen (by simp)
  · exact onTip_blockFailed hi hgen (by simp)
  · rename_i h lo tip reads
    refine hi.setWalk hgen (by simp) ?_
    intro h' lo' tip' reads' heq hg
    simp only [WalkPc.stateHash.injEq] at heq
    obtain ⟨rfl, rfl, rfl, rfl⟩ := heq
    obtain ⟨htip, hreads⟩ := hwalk h lo tip reads rfl hg
    refine ⟨htip, ?_⟩
    cases reads with
    | none => simp [htip]
    | some b =>
      obtain rfl : b = true := by simpa using hreads
      simp [htip]
  · exact onTip_blockVerified hi hgen _ _ _
  · rename_i h lo tip reads
    refine onTip_blockFailed hi hgen fun _ hg => ?_
    have hfalse := (hwalk h lo tip (some reads) rfl hg).2
    simp only [Honest, hw] at hhon
    simp [hhon] at hfalse
  · exact onTip_blockFailed hi hgen (by simp)
  · exact onTip_nextBlock hi hgen _ _ _
  · exact hi.calm (calm_finishWalk c _)
  · exact hi.setWalk hgen (by simp) (by simp)
  · rename_i pending
    have hi' : { c with db := { c.db with post_commit_verify_pending := pending } }.OnTip :=
      hi.congr rfl rfl rfl (Nat.le_refl _) rfl
    exact hi'.calm (calm_finishWalk _ _)
  · exact onTip_checkBlock hi hgen _ _ _
  · rename_i reason
    have hne : reason ≠ .stateHash := fun heq => hfail (by rw [heq])
    exact hi.calm ((calm_halt c hne).trans (calm_finishWalk _ _))
  · exact hi.calm (calm_finishWalk c _)
  · exact hi.calm (calm_finishWalk c _)

/-! ### Runs -/

theorem onTip_restart {db : Replica} {halted : Option HaltReason} (h : halted ≠ some .stateHash) :
    (restart db halted).OnTip where
  live := by simp [restart]
  generation := by simp [restart]
  walk := by simp [restart]
  failing := by simp [restart]
  halted := by
    simp only [restart]
    split
    · exact h
    · split
      · exact h
      · simp

theorem step_onTip (hi : c.OnTip) (hok : Undisturbed cfg c a) (hhon : c.Honest a)
    (h : Steps cfg c a c') : c'.OnTip := by
  cases step_cases h with
  | calls hc he => exact hi.calls hc
  | live ht hs => exact live_onTip hi hok hhon ht hs
  | rollback ht hs => exact rollback_onTip hi hok ht hs
  | runner ha hr hs => exact runner_onTip hi hok hr hs
  | walk hw hs => exact walk_onTip hi hok hhon hw hs
  | marker hs =>
    have hn : MarkerNoted cfg c c' := markerNoted_markerStep hs
    obtain ⟨verified_tip, marker, hgen, hc⟩ := hn
    refine OnTip.calls ?_ hc
    exact hi.congr rfl rfl rfl hgen rfl
  | cleared hh =>
    unfold cleared
    dsimp only
    split
    · exact { hi with halted := by simp }
    · exact { hi with halted := by simp }
  | @crash haltKept =>
    apply onTip_restart
    cases haltKept with
    | true => exact hi.halted
    | false => simp

/-- With honest payloads, no state-hash halt is recorded along any run whose state_hash recomputes
start on the stored tip and are not disturbed. -/
theorem run_no_stateHash_halt {cfg : Config} {db : Replica} {halted : Option HaltReason}
    {c : ClientSync} (hstart : halted ≠ some .stateHash)
    (h : Run (Steps cfg) (fun c a => Undisturbed cfg c a ∧ c.Honest a) (restart db halted) c) :
    c.halted ≠ some .stateHash := by
  have hi : c.OnTip := by
    refine h.invariant (I := OnTip) (onTip_restart hstart) ?_
    intro c a c' hi hok hs
    exact step_onTip hi hok.1 hok.2 hs
  exact hi.halted

/-- A live apply of block 11, up to the start of its state_hash recompute. -/
def liveToHash : List Action :=
  [.beginLiveFollow, .block (blockAt 11) 0 false, .task 0 .ok, .walk .ok, .walk .ok, .walk .ok,
    .walk .ok, .task 0 .ok, .task 0 .ok, .task 0 .ok]

/-- A pass that verifies block 11 by a walk of its own and commits block 12. -/
def passUnderHash : List Action :=
  [.reconnect, .runner .ok, .runner .ok, .walk .ok, .walk .ok, .walk .ok, .walk .read, .walk .ok,
    .markerWrite .ok, .markerWrite .ok, .walk .ok, .runner .ok,
    .runnerGets ⟨[12], some 12, some 12⟩, .runner .ok, .runner .ok]

/-- The live recompute of block 11 reads the replica with block 12 on top and halts the client. -/
theorem overtaken_recompute_halts :
    ¬ ∀ (cfg : Config) (db : Replica) (halted : Option HaltReason) (c : ClientSync),
      halted ≠ some .stateHash → Run (Steps cfg) Honest (restart db halted) c →
        c.halted ≠ some .stateHash := by
  intro hall
  have hexec : ((execAll (step (majorityOf 1)) Honest
      (restart (Replica.verified [9, 10] (some 10)) none)
      (liveToHash ++ passUnderHash ++ [.task 0 .read, .task 0 .bad])).map fun c => c.halted) =
        some (some .stateHash) := by
    decide +kernel
  obtain ⟨c, hc, hhalt⟩ := Option.map_eq_some_iff.mp hexec
  exact hall _ _ _ c (by simp) (run_execAll hc) hhalt

/-- A walk over block 11 alone, through its state_hash recompute. -/
theorem run_no_stateHash_halt_of_walk : ∃ c : ClientSync,
    c.db.heights = [9, 10, 11] ∧ c.halted ≠ some .stateHash := by
  have hrest : ((execAll (step (majorityOf 1))
      (fun c a => c.committing a = none ∧
        (∀ h ∈ c.startsHash (majorityOf 1) a, (c.committed a).tip = some h) ∧ c.Honest a)
      (restart (Replica.verified [9, 10, 11] (some 10)) none)
      [.beginLiveFollow, .reconnect, .runner .ok, .runner .ok, .walk .ok, .walk .ok, .walk .ok,
        .walk .ok, .walk .ok, .walk .read, .walk .ok]).map fun c => c.db.heights) =
          some [9, 10, 11] := by
    decide +kernel
  obtain ⟨c, hc, hheights⟩ := Option.map_eq_some_iff.mp hrest
  refine ⟨c, hheights, run_no_stateHash_halt (by simp) ((run_execAll hc).mono ?_)⟩
  intro c a hok
  refine ⟨⟨hok.2.1, fun k hk => ?_⟩, hok.2.2⟩
  rw [hok.1] at hk
  simp at hk

end ClientSync

end XChainSync.Client
