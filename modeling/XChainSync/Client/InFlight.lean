import XChainSync.Client.Commits
import XChainSync.Library.Runs

/-!
# Rollbacks in flight

`handleReorg` checks a depth, and the rollback it accepts records its target in the guard only when
its turn at the apply lock comes. `Settled` runs are those in which nothing comes between the two.
Along them at most one rollback is in flight, and the depth it records is the one it was accepted
for: whatever holds of that depth then (`P`) still holds when the rows are deleted.
-/

namespace XChainSync.Client
set_option autoImplicit false

/-- Accepted, and the target not yet recorded. -/
def RollbackPc.Waiting : RollbackPc → Prop
  | .lockWait => True
  | .loading => True
  | .loaded _ => True
  | .lowering => True
  | _ => False

/-- Accepted, and the rows not yet deleted. -/
def RollbackPc.Accepted : RollbackPc → Prop
  | .persisting _ => True
  | .deleting => True
  | pc => pc.Waiting

theorem RollbackPc.Waiting.accepted {pc : RollbackPc} (h : pc.Waiting) : pc.Accepted := by
  cases pc <;> first | trivial | exact h

namespace ClientSync

def InFlight (c : ClientSync) (id : TaskId) : Prop :=
  ∃ driver r pc, c.tasks id = some ⟨driver, .rollback r pc⟩ ∧ pc.Accepted

/-- The steps of a rollback on which it may record its target. -/
def mayRecord (c : ClientSync) : Action → Bool
  | .task id .ok =>
    match c.tasks id with
    | some ⟨_, .rollback _ .lockWait⟩ => true
    | some ⟨_, .rollback _ .lowering⟩ => true
    | _ => false
  | _ => false

/-- Depths are evaluated and recorded at the stored tip, none while a rollback is in flight, and no
rows but the ones it deletes change meanwhile, nor does an operator clear a halt. -/
structure Settled (c : ClientSync) (a : Action) : Prop where
  evaluates : c.evaluatesDepth a → c.lastAppliedBlock = c.db.tip ∧ ∀ id, ¬ c.InFlight id
  records : c.mayRecord a → c.lastAppliedBlock = c.db.tip
  commits : ∀ k, c.committing a = some k → (∃ target, k = .rollback target) ∨ ∀ id, ¬ c.InFlight id
  clears : a = .clearHalt → ∀ id, ¬ c.InFlight id

/-- The depth of a recorded target. -/
def recordedDepth (g : RollbackGuard) (target : Int) : Int := (g.map Streak.peak).getD 0 - target + 1

/-- One rollback at most is in flight, and `P` holds of it and its depth. -/
structure Tracks (maxDepth : Int) (P : Rollback → Int → Prop) (c : ClientSync) : Prop where
  unique : ∀ id id', c.InFlight id → c.InFlight id' → id = id'
  waiting : ∀ id driver r pc, c.tasks id = some ⟨driver, .rollback r pc⟩ → pc.Waiting →
    ∃ tip, c.db.tip = some tip ∧ P r (c.guard.depthFor maxDepth tip r.event.block_index).2
  persisting : ∀ id driver r state, c.tasks id = some ⟨driver, .rollback r (.persisting state)⟩ →
    c.guard = state ∧ state.isSome ∧ P r (recordedDepth state r.event.block_index)
  deleting : ∀ id driver r, c.tasks id = some ⟨driver, .rollback r .deleting⟩ →
    c.guard = c.db.rollback_guard ∧ c.guard.isSome ∧
      P r (recordedDepth c.guard r.event.block_index)

variable {cfg : Config} {c c' : ClientSync} {a : Action} {e : Doing} {maxDepth : Int}
  {P Q : Rollback → Int → Prop}

/-! ### What keeps it -/

/-- The accepted rollbacks are among those of `c`. -/
def RollbacksFrom (c c' : ClientSync) : Prop :=
  ∀ id driver r pc, c'.tasks id = some ⟨driver, .rollback r pc⟩ → pc.Accepted →
    c.tasks id = some ⟨driver, .rollback r pc⟩

theorem RollbacksFrom.inFlight (h : RollbacksFrom c c') {id : TaskId} (hf : c'.InFlight id) :
    c.InFlight id := by
  obtain ⟨driver, r, pc, ht, hpc⟩ := hf
  exact ⟨driver, r, pc, h id driver r pc ht hpc, hpc⟩

theorem Tracks.congr (hi : Tracks maxDepth P c) (hP : ∀ r d, P r d → Q r d)
    (hfrom : RollbacksFrom c c') (htip : c'.db.tip = c.db.tip)
    (hstored : c'.db.rollback_guard = c.db.rollback_guard) (hguard : c'.guard = c.guard) :
    Tracks maxDepth Q c' where
  unique := fun id id' h h' => hi.unique id id' (hfrom.inFlight h) (hfrom.inFlight h')
  waiting := by
    intro id driver r pc ht hpc
    rw [htip, hguard]
    obtain ⟨tip, htip', hp⟩ := hi.waiting id driver r pc (hfrom id driver r pc ht hpc.accepted) hpc
    exact ⟨tip, htip', hP _ _ hp⟩
  persisting := by
    intro id driver r state ht
    rw [hguard]
    obtain ⟨hg, hs, hp⟩ := hi.persisting id driver r state (hfrom id driver r _ ht trivial)
    exact ⟨hg, hs, hP _ _ hp⟩
  deleting := by
    intro id driver r ht
    rw [hguard, hstored]
    obtain ⟨hg, hs, hp⟩ := hi.deleting id driver r (hfrom id driver r _ ht trivial)
    exact ⟨hg, hs, hP _ _ hp⟩

/-- Nothing in flight. -/
theorem tracks_of_idle (h : ∀ id, ¬ c.InFlight id) : Tracks maxDepth P c where
  unique := fun id _ hf => absurd hf (h id)
  waiting := fun id driver r pc ht hpc => absurd ⟨driver, r, pc, ht, hpc.accepted⟩ (h id)
  persisting := fun id driver r state ht => absurd ⟨driver, r, _, ht, trivial⟩ (h id)
  deleting := fun id driver r ht => absurd ⟨driver, r, _, ht, trivial⟩ (h id)

theorem rollbacksFrom_of_eq (h : c'.tasks = c.tasks) : RollbacksFrom c c' := by
  intro id driver r pc ht _
  rwa [h] at ht

theorem RollbacksFrom.trans {c'' : ClientSync} (h : RollbacksFrom c c') (h' : RollbacksFrom c' c'') :
    RollbacksFrom c c'' :=
  fun id driver r pc ht hpc => h id driver r pc (h' id driver r pc ht hpc) hpc

theorem rollbacksFrom_calm (hc : Calm c c') : RollbacksFrom c c' := by
  intro id driver r pc ht _
  obtain ⟨t₀, ht₀, hr⟩ := hc.tasks id _ ht
  rwa [hr.rollback] at ht₀

/-- Where no depth is evaluated, no rollback is accepted. -/
theorem rollbacksFrom_calls (hc : Calls cfg e c c') (he : ¬ e.evaluates) : RollbacksFrom c c' := by
  intro id driver r pc ht hpc
  rcases hc.tasks id _ ht with ⟨t₀, ht₀, hr⟩ | hs
  · rwa [hr.rollback] at ht₀
  · rcases hs with hs | ⟨-, -, hev, -⟩
    · change pc = .rewound at hs
      subst hs
      exact hpc.elim
    · exact absurd hev he

theorem guard_calls (hc : Calls cfg e c c') (he : ¬ e.evaluates) : c'.guard = c.guard :=
  hc.guard.resolve_right fun h => he h.1

/-- A task that is no accepted rollback. -/
theorem rollbacksFrom_setTask (c : ClientSync) (id : TaskId) {t : Task}
    (h : ∀ driver r pc, t = ⟨driver, .rollback r pc⟩ → ¬ pc.Accepted) :
    RollbacksFrom c (c.setTask id (some t)) := by
  intro j driver r pc ht hpc
  simp only [setTask] at ht
  split at ht
  · exact absurd hpc (h driver r pc (Option.some.inj ht))
  · exact ht

theorem Tracks.calls_quiet (hi : Tracks cfg.maxRollbackDepth P c) (hP : ∀ r d, P r d → Q r d)
    (hc : Calls cfg e c c') (he : ¬ e.evaluates) : Tracks cfg.maxRollbackDepth Q c' :=
  hi.congr hP (rollbacksFrom_calls hc he) (by rw [hc.db]) (by rw [hc.db]) (guard_calls hc he)

/-- A step that may evaluate a depth, with nothing in flight before it. -/
theorem tracks_calls_evaluating (hc : Calls cfg e c c') (hidle : ∀ id, ¬ c.InFlight id)
    (htip : c.lastAppliedBlock = c.db.tip)
    (hnew : ∀ id driver r tip, c'.tasks id = some ⟨driver, .rollback r .lockWait⟩ →
      c'.Accepts cfg r → c'.lastAppliedBlock = some tip →
        Q r (c'.guard.depthFor cfg.maxRollbackDepth tip r.event.block_index).2) :
    Tracks cfg.maxRollbackDepth Q c' := by
  have hnone : ∀ id driver r pc, c'.tasks id = some ⟨driver, .rollback r pc⟩ → pc.Accepted →
      pc = .lockWait ∧ c'.Accepts cfg r := by
    intro id driver r pc ht hpc
    rcases hc.tasks id _ ht with ⟨t₀, ht₀, hr⟩ | hs
    · rw [hr.rollback] at ht₀
      exact absurd ⟨driver, r, pc, ht₀, hpc⟩ (hidle id)
    · rcases hs with hs | ⟨hs, -, -, hacc⟩
      · change pc = .rewound at hs
        subst hs
        exact hpc.elim
      · exact ⟨hs, hacc⟩
  have hid : ∀ id, c'.InFlight id → id = c.nextTask := by
    rintro id ⟨driver, r, pc, ht, hpc⟩
    obtain ⟨rfl, -⟩ := hnone id driver r pc ht hpc
    rcases hc.started id driver r ht with ht₀ | hid
    · exact absurd ⟨driver, r, _, ht₀, trivial⟩ (hidle id)
    · exact hid
  refine ⟨fun id id' h h' => (hid id h).trans (hid id' h').symm, ?_, ?_, ?_⟩
  · intro id driver r pc ht hpc
    obtain ⟨rfl, hacc⟩ := hnone id driver r pc ht hpc.accepted
    have hacc' := hacc
    obtain ⟨tip, hl, -⟩ := hacc'
    refine ⟨tip, ?_, hnew id driver r tip ht hacc hl⟩
    rw [hc.db, ← htip, ← hc.lastAppliedBlock]
    exact hl
  · intro id driver r state ht
    exact absurd (hnone id driver r _ ht trivial).1 (by simp)
  · intro id driver r ht
    exact absurd (hnone id driver r _ ht trivial).1 (by simp)

/-- A step that leaves the guard, and the tip unless nothing is in flight. -/
theorem Tracks.keeps (hi : Tracks maxDepth P c) (hP : ∀ r d, P r d → Q r d)
    (hfrom : RollbacksFrom c c') (hguard : c'.guard = c.guard)
    (hstored : c'.db.rollback_guard = c.db.rollback_guard)
    (htip : c'.db.tip = c.db.tip ∨ ∀ id, ¬ c.InFlight id) : Tracks maxDepth Q c' := by
  rcases htip with htip | hidle
  · exact hi.congr hP hfrom htip hstored hguard
  · exact tracks_of_idle fun id hf => hidle id (hfrom.inFlight hf)

/-- No rows are inserted under a rollback in flight. -/
theorem Settled.tip (hok : Settled c a) (hrows : SameRows (c.committed a) c'.db)
    (hnot : ∀ target, c.committing a ≠ some (.rollback target)) :
    c'.db.tip = c.db.tip ∨ ∀ id, ¬ c.InFlight id := by
  cases hk : c.committing a with
  | none =>
    rw [committed_of_none hk] at hrows
    exact Or.inl (Replica.tip_congr hrows.1)
  | some k =>
    rcases hok.commits k hk with ⟨target, rfl⟩ | hidle
    · exact absurd hk (hnot target)
    · exact Or.inr hidle

/-! ### Live applies -/

theorem live_rollbacksFrom {id : TaskId} {o : Outcome} {driver : Driver} {event : BlockEvent}
    {pc : LivePc} (hs : LiveStep cfg c id driver event pc o c') :
    RollbacksFrom c c' ∧ c'.guard = c.guard ∧ c'.db.rollback_guard = c.db.rollback_guard := by
  have hlive : ∀ (c₁ : ClientSync) (pc' : LivePc),
      RollbacksFrom c₁ (c₁.setLive id driver event pc') :=
    fun c₁ pc' => rollbacksFrom_setTask c₁ id (by simp)
  cases hs with
  | tail hc hh hpc => exact ⟨(rollbacksFrom_calm hc).trans (hlive _ _), hc.guard, by rw [← hc.db]; rfl⟩
  | lock hpc => exact ⟨hlive c _, rfl, rfl⟩
  | apply hl hpc =>
    have hstored : (c.applyBlock event).db.rollback_guard = c.db.rollback_guard := by
      unfold applyBlock
      split
      · rfl
      · exact Replica.rollback_guard_insert
    rw [applyBlock_eq]
    exact ⟨hlive c _, rfl, hstored⟩
  | recomputed =>
    have hn := notes_recomputePassed c event.block_index
    exact ⟨(rollbacksFrom_of_eq (hn _).tasks).trans (hlive _ _), (hn _).guard,
      (hn _).rollback_guard⟩
  | read => exact ⟨hlive c _, rfl, rfl⟩
  | hashed => exact ⟨hlive c _, rfl, rfl⟩
  | diverged =>
    have hn := notes_halt c .stateHash
    have hc := calm_endTask (c.halt .stateHash) id driver
    exact ⟨(rollbacksFrom_of_eq hn.tasks).trans (rollbacksFrom_calm hc), hc.guard.trans hn.guard,
      (congrArg Replica.rollback_guard hc.db).trans hn.rollback_guard⟩
  | finish hm => exact ⟨hlive c _, rfl, rfl⟩
  | quit hc hgone hk => exact ⟨rollbacksFrom_calm hc, hc.guard, by rw [hc.db]⟩

theorem live_tracks {id : TaskId} {o : Outcome} {driver : Driver} {event : BlockEvent}
    {pc : LivePc} (hi : Tracks maxDepth P c) (hP : ∀ r d, P r d → Q r d)
    (hok : Settled c (.task id o)) (ht : c.tasks id = some ⟨driver, .live event pc⟩)
    (hs : LiveStep cfg c id driver event pc o c') : Tracks maxDepth Q c' := by
  obtain ⟨hfrom, hguard, hstored⟩ := live_rollbacksFrom hs
  refine hi.keeps hP hfrom hguard hstored (hok.tip (live_rows ht hs) ?_)
  intro target hk
  cases o with
  | ok => cases pc <;> simp [committing, ht] at hk
  | _ => simp [committing] at hk

/-! ### Rollbacks -/

/-- The depth a record leaves is the one `depthFor` gives. -/
theorem recordedDepth_record (maxDepth : Int) (g : RollbackGuard) (tip target : Int) :
    recordedDepth (g.record maxDepth tip target) target = (g.depthFor maxDepth tip target).2 := by
  unfold recordedDepth RollbackGuard.record RollbackGuard.depthFor
  cases g.expire maxDepth tip <;> rfl

/-- The one rollback in flight goes on to `pc'`. -/
theorem tracks_own {id : TaskId} {driver : Driver} {r : Rollback} {pc pc' : RollbackPc}
    {c₁ : ClientSync} (hi : Tracks maxDepth P c)
    (ht : c.tasks id = some ⟨driver, .rollback r pc⟩) (hpc : pc.Accepted)
    (htasks : c₁.tasks = c.tasks)
    (hw : pc'.Waiting → ∃ tip, c₁.db.tip = some tip ∧
      Q r (c₁.guard.depthFor maxDepth tip r.event.block_index).2)
    (hp : ∀ state, pc' = .persisting state →
      c₁.guard = state ∧ state.isSome ∧ Q r (recordedDepth state r.event.block_index))
    (hd : pc' = .deleting → c₁.guard = c₁.db.rollback_guard ∧ c₁.guard.isSome ∧
      Q r (recordedDepth c₁.guard r.event.block_index)) :
    Tracks maxDepth Q (c₁.setRollback id driver r pc') := by
  have hown : ∀ j driver' r' pc'', (c₁.setRollback id driver r pc').tasks j =
      some ⟨driver', .rollback r' pc''⟩ → pc''.Accepted → j = id ∧ r' = r ∧ pc'' = pc' := by
    intro j driver' r' pc'' hj hacc
    simp only [setRollback, setTask] at hj
    split at hj
    · rename_i hji
      simp only [Option.some.injEq, Task.mk.injEq, Work.rollback.injEq] at hj
      exact ⟨hji, hj.2.1.symm, hj.2.2.symm⟩
    · rename_i hji
      rw [htasks] at hj
      exact absurd (hi.unique j id ⟨_, _, _, hj, hacc⟩ ⟨_, _, _, ht, hpc⟩) hji
  refine ⟨?_, ?_, ?_, ?_⟩
  · rintro j j' ⟨_, _, _, hj, hacc⟩ ⟨_, _, _, hj', hacc'⟩
    exact (hown _ _ _ _ hj hacc).1.trans (hown _ _ _ _ hj' hacc').1.symm
  · intro j driver' r' pc'' hj hwait
    obtain ⟨-, rfl, rfl⟩ := hown _ _ _ _ hj hwait.accepted
    exact hw hwait
  · intro j driver' r' state hj
    obtain ⟨-, rfl, hpc'⟩ := hown _ _ _ _ hj trivial
    exact hp state hpc'.symm
  · intro j driver' r' hj
    obtain ⟨-, rfl, hpc'⟩ := hown _ _ _ _ hj trivial
    exact hd hpc'.symm

theorem tracks_recordRollback {id : TaskId} {driver : Driver} {r : Rollback} {pc : RollbackPc}
    {c₁ : ClientSync} (hi : Tracks cfg.maxRollbackDepth P c) (hP : ∀ r d, P r d → Q r d)
    (ht : c.tasks id = some ⟨driver, .rollback r pc⟩) (hpc : pc.Waiting)
    (hcursor : c.lastAppliedBlock = c.db.tip) (htasks : c₁.tasks = c.tasks)
    (hguard : c₁.guard = c.guard) (hlast : c₁.lastAppliedBlock = c.lastAppliedBlock) :
    Tracks cfg.maxRollbackDepth Q (c₁.recordRollback cfg id driver r) := by
  obtain ⟨tip, htip, hp⟩ := hi.waiting id driver r pc ht hpc
  refine tracks_own hi ht hpc.accepted htasks (fun h => h.elim) ?_ (fun h => by simp at h)
  rintro state hstate
  simp only [RollbackPc.persisting.injEq] at hstate
  refine ⟨hstate, ?_, ?_⟩
  · rw [← hstate]
    unfold RollbackGuard.record
    split <;> rfl
  · have hcur : c₁.lastAppliedBlock.getD 0 = tip := by rw [hlast, hcursor, htip]; rfl
    rw [← hstate, hcur, hguard, recordedDepth_record]
    exact hP _ _ hp

theorem rollback_tracks {id : TaskId} {o : Outcome} {driver : Driver} {r : Rollback}
    {pc : RollbackPc} (hi : Tracks cfg.maxRollbackDepth P c) (hP : ∀ r d, P r d → Q r d)
    (hok : Settled c (.task id o)) (ht : c.tasks id = some ⟨driver, .rollback r pc⟩)
    (hs : RollbackStep cfg c id driver r pc o c') : Tracks cfg.maxRollbackDepth Q c' := by
  have hwaits : pc.Waiting → ∃ tip, c.db.tip = some tip ∧
      Q r (c.guard.depthFor cfg.maxRollbackDepth tip r.event.block_index).2 := by
    intro hpc
    obtain ⟨tip, htip, hp⟩ := hi.waiting id driver r pc ht hpc
    exact ⟨tip, htip, hP _ _ hp⟩
  cases hs with
  | openLoad hl hh htr hm =>
    exact tracks_own hi ht trivial rfl (fun _ => hwaits trivial) (by simp) (by simp)
  | openLower hl hh htr hm =>
    exact tracks_own hi ht trivial rfl (fun _ => hwaits trivial) (by simp) (by simp)
  | openRecord hl hh htr =>
    have hcursor := hok.records (by simp [mayRecord, ht])
    exact tracks_recordRollback hi hP ht trivial hcursor rfl rfl rfl
  | load => exact tracks_own hi ht trivial rfl (fun _ => hwaits trivial) (by simp) (by simp)
  | lower => exact tracks_own hi ht trivial rfl (fun _ => hwaits trivial) (by simp) (by simp)
  | record =>
    have hcursor := hok.records (by simp [mayRecord, ht])
    exact tracks_recordRollback hi hP ht trivial hcursor rfl rfl rfl
  | @persist state =>
    obtain ⟨hg, hsome, hp⟩ := hi.persisting id driver r state ht
    refine tracks_own hi ht trivial rfl (fun h => h.elim) (by simp) fun _ => ?_
    dsimp only
    rw [hg]
    exact ⟨rfl, hsome, hP _ _ hp⟩
  | delete =>
    exact tracks_own hi ht trivial rfl (fun h => h.elim) (by simp) (by simp)
  | move =>
    refine hi.congr hP (rollbacksFrom_setTask c id ?_) rfl rfl rfl
    intro driver' r' pc' h hacc
    simp only [Task.mk.injEq, Work.rollback.injEq] at h
    obtain ⟨-, -, rfl⟩ := h
    exact hacc
  | fail hc hid hk =>
    refine Tracks.calls_quiet ?_ (fun _ _ h => h) (hc .nothing) not_false
    exact hi.congr hP (rollbacksFrom_of_eq rfl) rfl rfl rfl
  | returns hc hid hk => exact hi.calls_quiet hP (hc .nothing) not_false

/-! ### Every step -/

theorem runner_tracks {r : Runner} (hi : Tracks cfg.maxRollbackDepth P c)
    (hP : ∀ r d, P r d → Q r d)
    (hnew : c.evaluatesDepth a → (∀ id, ¬ c.InFlight id) → ∀ id driver r tip,
      c'.tasks id = some ⟨driver, .rollback r .lockWait⟩ → c'.Accepts cfg r →
        c'.lastAppliedBlock = some tip →
          Q r (c'.guard.depthFor cfg.maxRollbackDepth tip r.event.block_index).2)
    (hok : Settled c a) (ha : byRunner a) (hr : c.catchUp = some r)
    (hs : RunnerStep cfg c r.pc a c') : Tracks cfg.maxRollbackDepth Q c' := by
  have htip : c'.db.tip = c.db.tip ∨ ∀ id, ¬ c.InFlight id := by
    refine hok.tip (runner_rows ha hr hs) ?_
    intro target hk
    unfold committing at hk
    split at hk
    · simp [byRunner] at ha
    · split at hk <;> simp at hk
    · simp at hk
  obtain ⟨before, pc⟩ := r
  cases hs with
  | moves hc hh hr' hm hk =>
    have hfrom := rollbacksFrom_calm hc
    exact hi.keeps hP hfrom hc.guard (congrArg Replica.rollback_guard hc.db) htip
  | idles hc hk hr' =>
    by_cases he : c.evaluatesDepth a
    · obtain ⟨hcursor, hidle⟩ := hok.evaluates he
      exact tracks_calls_evaluating hc hidle hcursor (hnew he hidle)
    · exact hi.calls_quiet hP hc he
  | fresh =>
    refine hi.keeps hP ?_ ?_ ?_ htip <;> unfold startVerifiedTipBelow
    · split <;> exact rollbacksFrom_of_eq rfl
    · split <;> rfl
    · split <;> rfl
  | range hl =>
    exact hi.keeps hP (rollbacksFrom_of_eq rfl) rfl Replica.rollback_guard_insert htip
  | window hl =>
    exact hi.keeps hP (rollbacksFrom_of_eq rfl) rfl Replica.rollback_guard_insert htip
  | replace =>
    rename_i s
    have hk : c.committing (.runner .ok) = some (.snapshot s.heights) := by simp [committing, hr]
    have hidle := (hok.commits _ hk).resolve_left (by simp)
    exact tracks_of_idle fun id hf => hidle id hf
  | _ => exact hi.keeps hP (rollbacksFrom_of_eq rfl) rfl rfl htip

theorem Tracks.noted (hi : Tracks cfg.maxRollbackDepth P c) (hP : ∀ r d, P r d → Q r d)
    (hn : Noted cfg c c') : Tracks cfg.maxRollbackDepth Q c' := by
  obtain ⟨c₁, hn, hc⟩ := hn
  have hi₁ : Tracks cfg.maxRollbackDepth Q c₁ := hi.congr hP (rollbacksFrom_of_eq hn.tasks)
    (Replica.tip_congr hn.rows) hn.rollback_guard hn.guard
  exact hi₁.calls_quiet (fun _ _ h => h) hc not_false

theorem not_inFlight_restart (db : Replica) (halted : Option HaltReason) (id : TaskId) :
    ¬ (restart db halted).InFlight id := by
  rintro ⟨driver, r, pc, ht, -⟩
  simp [restart] at ht

/-- A rollback that waits for the lock did so before the step, or has just passed the checks. -/
theorem step_rollbacks (h : Steps cfg c a c') {id : TaskId} {driver : Driver} {r : Rollback}
    (ht : c'.tasks id = some ⟨driver, .rollback r .lockWait⟩) :
    c.tasks id = some ⟨driver, .rollback r .lockWait⟩ ∨ c'.Accepts cfg r := by
  have hcalls : ∀ {e : Doing} {c₁ : ClientSync}, Calls cfg e c₁ c' → c₁.tasks = c.tasks →
      c.tasks id = some ⟨driver, .rollback r .lockWait⟩ ∨ c'.Accepts cfg r := by
    intro e c₁ hc htasks
    rcases hc.tasks id _ ht with ⟨t₀, ht₀, hr⟩ | hs
    · rw [hr.rollback, htasks] at ht₀
      exact Or.inl ht₀
    · rcases hs with hs | ⟨-, -, -, hacc⟩
      · exact absurd hs (by simp)
      · exact Or.inr hacc
  have hnoted : Noted cfg c c' →
      c.tasks id = some ⟨driver, .rollback r .lockWait⟩ ∨ c'.Accepts cfg r := by
    rintro ⟨c₁, hn, hc⟩
    exact hcalls hc hn.tasks
  cases step_cases h with
  | calls hc he => exact hcalls hc rfl
  | live ht' hs => exact Or.inl ((live_rollbacksFrom hs).1 id driver r _ ht trivial)
  | rollback ht' hs =>
    cases hs with
    | fail hc hid hk => exact hcalls (hc .nothing) rfl
    | returns hc hid hk => exact hcalls (hc .nothing) rfl
    | _ =>
      simp only [recordRollback, queueLower, setRollback, setTask] at ht
      split at ht
      · simp at ht
      · exact Or.inl ht
  | @runner x _ _ ha hr hs =>
    obtain ⟨before, pc⟩ := x
    cases hs with
    | moves hc hh hr' hm hk => exact Or.inl (rollbacksFrom_calm hc id driver r _ ht trivial)
    | idles hc hk hr' => exact hcalls hc rfl
    | fresh =>
      unfold startVerifiedTipBelow at ht
      split at ht <;> exact Or.inl ht
    | _ => exact Or.inl ht
  | walk hw hs => exact hnoted (noted_walkStep hs)
  | marker hs =>
    have hn : MarkerNoted cfg c c' := markerNoted_markerStep hs
    exact hnoted hn.noted
  | cleared hh =>
    unfold cleared at ht
    dsimp only at ht
    split at ht <;> exact Or.inl ht
  | crash => simp [restart] at ht

/-- What holds of a rollback as it is accepted, and is not lost by a step, holds as long as the
rollback is in flight. -/
theorem step_tracks (hi : Tracks cfg.maxRollbackDepth P c) (hP : ∀ r d, P r d → Q r d)
    (hnew : c.evaluatesDepth a → (∀ id, ¬ c.InFlight id) → ∀ id driver r tip,
      c'.tasks id = some ⟨driver, .rollback r .lockWait⟩ → c'.Accepts cfg r →
        c'.lastAppliedBlock = some tip →
          Q r (c'.guard.depthFor cfg.maxRollbackDepth tip r.event.block_index).2)
    (hok : Settled c a) (h : Steps cfg c a c') : Tracks cfg.maxRollbackDepth Q c' := by
  cases step_cases h with
  | calls hc he =>
    by_cases hev : c.evaluatesDepth a
    · obtain ⟨hcursor, hidle⟩ := hok.evaluates hev
      exact tracks_calls_evaluating hc hidle hcursor (hnew hev hidle)
    · exact hi.calls_quiet hP hc hev
  | live ht hs => exact live_tracks hi hP hok ht hs
  | rollback ht hs => exact rollback_tracks hi hP hok ht hs
  | runner ha hr hs => exact runner_tracks hi hP hnew hok ha hr hs
  | walk hw hs => exact hi.noted hP (noted_walkStep hs)
  | marker hs =>
    have hn : MarkerNoted cfg c c' := markerNoted_markerStep hs
    exact hi.noted hP hn.noted
  | cleared hh =>
    refine tracks_of_idle fun id hf => hok.clears rfl id ?_
    unfold cleared at hf
    dsimp only at hf
    split at hf <;> exact hf
  | crash => exact tracks_of_idle (not_inFlight_restart _ _)

end ClientSync

end XChainSync.Client
