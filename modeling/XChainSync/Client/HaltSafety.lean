import XChainSync.Client.Commits
import XChainSync.Library.Runs

/-!
# After a halt

A call tests `_halted` when it starts and, on some paths only, once more later. `Armed` calls are
those that have made their last test and not yet committed. Nothing is committed after a halt along
every run in which no other call is armed when one halts the client.
-/

namespace XChainSync.Client
set_option autoImplicit false

open Runs

/-! ### Armed calls -/

def LivePc.Armed : LivePc → Prop
  | .trainGate => True
  | .tailClear => True
  | .awaitTail => True
  | .tailDone .ok => True
  | .lockWait _ => True
  | _ => False

def RollbackPc.Armed : RollbackPc → Prop
  | .loading => True
  | .loaded _ => True
  | .lowering => True
  | .persisting _ => True
  | .deleting => True
  | _ => False

/-- A range whose lookups fail after its commit may run again without a test. -/
def RunnerPc.Armed : RunnerPc → Prop
  | .readTip => True
  | .gotTip _ => True
  | .awaitTail _ => True
  | .tailDone _ .ok => True
  | .download _ => True
  | .trainGate _ _ => True
  | .lockWait _ _ => True
  | .committed _ _ => True
  | .full .download => True
  | .full (.trainGate _) => True
  | .full (.lockWait _) => True
  | .full (.applying _) => True
  | .window (.download _) => True
  | .window (.trainGate _ _) => True
  | .window (.adopting _ _) => True
  | .window (.lockWait _ _) => True
  | _ => False

def Task.Armed (t : Task) : Prop :=
  match t.work with
  | .live _ pc => pc.Armed
  | .rollback _ pc => pc.Armed
  | _ => False

namespace ClientSync

def Armed (c : ClientSync) : Party → Prop
  | .task id => ∃ t, c.tasks id = some t ∧ t.Armed
  | .runner => ∃ r, c.catchUp = some r ∧ r.pc.Armed
  | .walk => False

/-- The call that takes a step; a marker write is a step of the call that has queued it. -/
def actor (c : ClientSync) : Action → Option Party
  | .task id _ => some (.task id)
  | .markerWrite _ => c.marker.markerWrites.head?.map MarkerWrite.owner
  | a => if byRunner a then some .runner else none

variable {cfg : Config} {c c' : ClientSync} {a : Action} {p : Party} {e : Doing}

end ClientSync

theorem Task.Resumes.armed {t₀ t : Task} (h : t₀.Resumes t) (ht : t.Armed) : t₀.Armed := by
  rcases h with rfl | ⟨v, rfl⟩
  · exact ht
  · obtain ⟨driver, work⟩ := t₀
    cases work with
    | live event pc => cases pc <;> first | exact ht | trivial
    | _ => exact ht

theorem Runner.resume_armed {r : Runner} {v : TailVerdict} (h : (r.resume v).pc.Armed) :
    r.pc.Armed := by
  obtain ⟨before, pc⟩ := r
  cases pc with
  | window pc => cases pc <;> exact h
  | _ => first | exact h | trivial | exact h.elim

theorem RunnerPc.Idle.not_armed {pc : RunnerPc} (h : pc.Idle) : ¬ pc.Armed := by
  intro ha
  unfold RunnerPc.Idle at h
  split at h <;> first | exact ha | exact h

theorem Task.Starts.not_armed {cfg : Config} {e : Doing} {c : ClientSync} {t : Task}
    (h : t.Starts cfg e.evaluates c) (hh : c.halted ≠ none) : ¬ t.Armed := by
  intro ha
  obtain ⟨driver, work⟩ := t
  cases work with
  | live event pc => exact hh h.2
  | rollback r pc =>
    rcases h with h | h
    · change pc = .rewound at h
      subst h
      exact ha
    · exact hh h.2.1
  | _ => exact ha

namespace ClientSync

variable {cfg : Config} {c c' : ClientSync} {a : Action} {p : Party} {e : Doing}

/-- Events arm nothing on a halted client. -/
theorem Armed.of_calls (hc : Calls cfg e c c') (hh : c'.halted ≠ none) (h : c'.Armed p) :
    c.Armed p := by
  cases p with
  | task id =>
    obtain ⟨t, ht, ha⟩ := h
    rcases hc.tasks id t ht with ⟨t₀, ht₀, hr⟩ | hs
    · exact ⟨t₀, ht₀, hr.armed ha⟩
    · exact absurd ha (hs.not_armed hh)
  | runner =>
    obtain ⟨r, hr, ha⟩ := h
    rcases hc.catchUp with hcalm | ⟨-, hb⟩
    · rcases hcalm r hr with hr₀ | ⟨r₀, v, hr₀, rfl⟩ | hi
      · exact ⟨r, hr₀, ha⟩
      · exact ⟨r₀, hr₀, Runner.resume_armed ha⟩
      · exact absurd ha hi.not_armed
    · simp only [incrementalCatchUpBlocked, Bool.or_eq_false_iff] at hb
      exact absurd (by simpa using hb.1.1) hh
  | walk => exact h

theorem Armed.of_calm (hc : Calm c c') (h : c'.Armed p) : c.Armed p := by
  cases p with
  | task id =>
    obtain ⟨t, ht, ha⟩ := h
    obtain ⟨t₀, ht₀, hr⟩ := hc.tasks id t ht
    exact ⟨t₀, ht₀, hr.armed ha⟩
  | runner =>
    obtain ⟨r, hr, ha⟩ := h
    rcases hc.catchUp r hr with hr₀ | ⟨r₀, v, hr₀, rfl⟩ | hi
    · exact ⟨r, hr₀, ha⟩
    · exact ⟨r₀, hr₀, Runner.resume_armed ha⟩
    · exact absurd ha hi.not_armed
  | walk => exact h

theorem armed_congr (ht : c'.tasks = c.tasks) (hr : c'.catchUp = c.catchUp) (h : c'.Armed p) :
    c.Armed p := by
  cases p with
  | task id => simpa [Armed, ht] using h
  | runner => simpa [Armed, hr] using h
  | walk => exact h

theorem Armed.of_noted (hn : Noted cfg c c') (hh : c'.halted ≠ none) (h : c'.Armed p) :
    c.Armed p := by
  obtain ⟨c₁, hn, hc⟩ := hn
  exact armed_congr hn.tasks hn.catchUp (h.of_calls hc hh)

theorem armed_setTask {id : TaskId} {t : Task} (h : (c.setTask id (some t)).Armed p) :
    p = .task id ∧ t.Armed ∨ p ≠ .task id ∧ c.Armed p := by
  cases p with
  | task j =>
    obtain ⟨t', ht', ha⟩ := h
    simp only [setTask] at ht'
    split at ht'
    · rename_i hj
      obtain rfl := Option.some.inj ht'
      exact Or.inl ⟨by rw [hj], ha⟩
    · rename_i hj
      exact Or.inr ⟨by simpa using hj, t', ht', ha⟩
  | runner => exact Or.inr ⟨by simp, h⟩
  | walk => exact h.elim

theorem armed_setRunner {pc : RunnerPc} (h : (c.setRunner pc).Armed p) :
    p = .runner ∧ pc.Armed ∨ p ≠ .runner ∧ c.Armed p := by
  cases p with
  | task j => exact Or.inr ⟨by simp, h⟩
  | runner =>
    obtain ⟨r, hr, ha⟩ := h
    obtain ⟨y, -, rfl⟩ := Option.map_eq_some_iff.mp hr
    exact Or.inl ⟨rfl, ha⟩
  | walk => exact h.elim

theorem Returned.not_armed {id : TaskId} (h : c.Returned id) : ¬ c.Armed (.task id) := by
  rintro ⟨t, ht, ha⟩
  obtain ⟨driver, work⟩ := t
  rcases h _ ht with hw | ⟨r, hw⟩
  · change work = _ at hw
    subst hw
    exact ha
  · change work = _ at hw
    subst hw
    exact ha

/-! ### Steps -/

/-- What a step leaves armed on a client that is halted after it was armed before, and is not the
call that has halted it. -/
def KeepsArmed (c : ClientSync) (a : Action) (c' : ClientSync) : Prop :=
  c'.halted ≠ none → ∀ p, c'.Armed p → c.Armed p ∧ (c.halted = none → c.actor a ≠ some p)

theorem event_keepsArmed (hc : Calls cfg e c c') (he : c.handlesEvent a) : KeepsArmed c a c' := by
  intro hh p h
  refine ⟨h.of_calls hc hh, fun _ hp => ?_⟩
  have h₀ := h.of_calls hc hh
  cases a with
  | task id o =>
    obtain rfl := Option.some.inj hp
    obtain ⟨t, ht, ha⟩ := h₀
    simp only [handlesEvent, ht] at he
    split at he
    · rename_i heq
      obtain rfl := Option.some.inj heq
      exact ha
    · simp at he
  | markerWrite o => simp [handlesEvent] at he
  | runner o => simp [handlesEvent, byRunner] at he
  | runnerStatus tip => simp [handlesEvent, byRunner] at he
  | runnerGets s => simp [handlesEvent, byRunner] at he
  | runnerFails err => simp [handlesEvent, byRunner] at he
  | _ => simp [actor, byRunner] at hp

/-- A task that goes on, with the other calls as they were. -/
theorem task_keepsArmed {id : TaskId} {o : Outcome} {t t' : Task} {d : ClientSync}
    (ht : c.tasks id = some t) (hrest : ∀ p, d.Armed p → c.Armed p)
    (hsame : d.halted = c.halted) (hpc : c.halted ≠ none → t'.Armed → t.Armed) :
    KeepsArmed c (.task id o) (d.setTask id (some t')) := by
  intro hh p h
  change d.halted ≠ none at hh
  rw [hsame] at hh
  refine ⟨?_, fun hn => absurd hn hh⟩
  rcases armed_setTask h with ⟨rfl, ha⟩ | ⟨-, ha⟩
  · exact ⟨t, ht, hpc hh ha⟩
  · exact hrest p ha

theorem not_armed_afterRecompute (event : BlockEvent) (generation : Nat) :
    ¬ (afterRecompute cfg event generation).Armed := by
  unfold afterRecompute
  split <;> exact id

theorem live_keepsArmed {id : TaskId} {o : Outcome} {driver : Driver} {event : BlockEvent}
    {pc : LivePc} (ht : c.tasks id = some ⟨driver, .live event pc⟩)
    (hs : LiveStep cfg c id driver event pc o c') : KeepsArmed c (.task id o) c' := by
  have hend : ∀ c₁ : ClientSync, (∀ p, c₁.Armed p → c.Armed p) → c₁.tasks id = none →
      KeepsArmed c (.task id o) c₁ := by
    intro c₁ hrest hgone hh p h
    refine ⟨hrest p h, fun _ hp => ?_⟩
    obtain rfl := Option.some.inj hp
    obtain ⟨t, ht', -⟩ := h
    rw [hgone] at ht'
    simp at ht'
  cases hs with
  | tail hc hh hpc => exact task_keepsArmed ht (fun _ h => h.of_calm hc) hh fun _ _ => trivial
  | lock hpc =>
    refine task_keepsArmed (d := c.lockRequest (.task id)) ht (fun _ h => h) rfl fun _ _ => ?_
    rcases hpc with rfl | rfl <;> trivial
  | apply hl hpc =>
    rw [applyBlock_eq]
    exact task_keepsArmed ht (fun _ h => h) rfl fun _ _ => trivial
  | recomputed =>
    rw [recomputePassed_eq]
    exact task_keepsArmed ht (fun _ h => h) rfl fun _ ha => absurd ha (not_armed_afterRecompute _ _)
  | read => exact task_keepsArmed ht (fun _ h => h) rfl fun _ ha => ha
  | hashed => exact task_keepsArmed ht (fun _ h => h) rfl fun _ ha => ha
  | diverged =>
    refine hend _ (fun p h => ?_) (tasks_endTask_self _ id driver)
    have hn := notes_halt c .stateHash
    exact armed_congr hn.tasks hn.catchUp (h.of_calm (calm_endTask _ id driver))
  | finish hm => exact task_keepsArmed ht (fun _ h => h) rfl fun _ ha => ha
  | quit hc hgone hk => exact hend _ (fun _ h => h.of_calm hc) hgone

theorem rollback_keepsArmed {id : TaskId} {o : Outcome} {driver : Driver} {r : Rollback}
    {pc : RollbackPc} (ht : c.tasks id = some ⟨driver, .rollback r pc⟩)
    (hs : RollbackStep cfg c id driver r pc o c') : KeepsArmed c (.task id o) c' := by
  have hret : ∀ {e : Doing} {c₁ : ClientSync}, Calls cfg e c₁ c' → c₁.tasks = c.tasks →
      c₁.catchUp = c.catchUp → c'.Returned id → KeepsArmed c (.task id o) c' := by
    intro e c₁ hc htasks hcatch hid hh p h
    refine ⟨armed_congr htasks hcatch (h.of_calls hc hh), fun _ hp => ?_⟩
    obtain rfl := Option.some.inj hp
    exact hid.not_armed h
  cases hs with
  | openLoad hl hh htr hm => exact task_keepsArmed ht (fun _ h => h) rfl fun hn => absurd hh hn
  | openLower hl hh htr hm => exact task_keepsArmed ht (fun _ h => h) rfl fun hn => absurd hh hn
  | openRecord hl hh htr => exact task_keepsArmed ht (fun _ h => h) rfl fun hn => absurd hh hn
  | fail hc hid hk => exact hret (hc .nothing) rfl rfl hid
  | returns hc hid hk => exact hret (hc .nothing) rfl rfl hid
  | delete => exact task_keepsArmed ht (fun _ h => h) rfl fun _ _ => trivial
  | move => exact task_keepsArmed ht (fun _ h => h) rfl fun _ ha => ha
  | _ => exact task_keepsArmed ht (fun _ h => h) rfl fun _ _ => trivial

/-- Without a test the runner moves only between armed points. -/
theorem RunnerMoves.armed {pc pc' : RunnerPc} (hm : RunnerMoves c pc pc') (hh : c.halted ≠ none)
    (h : pc'.Armed) : pc.Armed := by
  cases hm with
  | again hpc =>
    rcases hpc with rfl | ⟨_, rfl⟩ | ⟨_, _, rfl⟩ | ⟨_, _, rfl⟩ | ⟨_, _, rfl⟩ <;> trivial
  | fullSchema hn => exact absurd hn hh
  | windowSchema hn => exact absurd hn hh
  | _ => first | trivial | exact h

theorem runner_goes_keepsArmed {r : Runner} {pc' : RunnerPc} {d : ClientSync} (ha : byRunner a)
    (hr : c.catchUp = some r) (hrest : ∀ p, d.Armed p → c.Armed p)
    (hsame : d.halted = c.halted) (hpc : c.halted ≠ none → pc'.Armed → r.pc.Armed) :
    KeepsArmed c a (d.setRunner pc') := by
  intro hh p h
  change d.halted ≠ none at hh
  rw [hsame] at hh
  refine ⟨?_, fun hn => absurd hn hh⟩
  rcases armed_setRunner h with ⟨rfl, ha⟩ | ⟨-, ha⟩
  · exact ⟨r, hr, hpc hh ha⟩
  · exact hrest p ha

theorem runner_keepsArmed {r : Runner} (ha : byRunner a) (hr : c.catchUp = some r)
    (hs : RunnerStep cfg c r.pc a c') : KeepsArmed c a c' := by
  have hact : c.actor a = some .runner := by
    cases a <;> simp [byRunner, actor] at ha ⊢
  obtain ⟨before, pc⟩ := r
  cases hs with
  | moves hc hh hr' hm hk =>
    exact runner_goes_keepsArmed ha hr (fun _ h => h.of_calm hc) hh fun hn h => hm.armed hn h
  | idles hc hk hr' =>
    intro hh p h
    refine ⟨h.of_calls hc hh, fun _ hp => ?_⟩
    rw [hact] at hp
    obtain rfl := Option.some.inj hp
    obtain ⟨x, hx, hax⟩ := h
    rcases hr' x hx with hi | ⟨-, hb⟩
    · exact hi.not_armed hax
    · simp only [incrementalCatchUpBlocked, Bool.or_eq_false_iff] at hb
      exact hh (by simpa using hb.1.1)
  | fresh =>
    have hrest : ∀ p, (c.startVerifiedTipBelow cfg (sinceBlock none)).Armed p → c.Armed p := by
      intro p h
      unfold startVerifiedTipBelow at h
      split at h <;> exact h
    refine runner_goes_keepsArmed ha hr hrest ?_ fun _ _ => trivial
    unfold startVerifiedTipBelow
    split <;> rfl
  | windowLock hb ht =>
    exact runner_goes_keepsArmed (d := (c.windowBased _).lockRequest .runner) ha hr (fun _ h => h) rfl
      fun _ _ => trivial
  | _ => exact runner_goes_keepsArmed ha hr (fun _ h => h) rfl fun _ h => by first | trivial | exact h

theorem throwInto_halts {owner : Party} (hn : c.halted = none)
    (hh : (c.throwInto owner).halted ≠ none) :
    ∃ id, owner = .task id ∧ (c.throwInto owner).Returned id := by
  cases owner with
  | task id =>
    refine ⟨id, rfl, ?_⟩
    simp only [throwInto] at hh ⊢
    split at hh
    · exact returned_failRollback c id _ _
    · exact absurd hn hh
  | runner =>
    have hw : c.windowRetry.halted = c.halted := by
      unfold windowRetry
      split <;> rfl
    exact absurd (hw.trans hn) hh
  | walk => exact absurd hn hh

theorem halted_startWrite (c : ClientSync) (op : MarkerOp) : (c.startWrite op).halted = c.halted := by
  unfold startWrite
  repeat' split
  all_goals rfl

theorem halted_writeLanded (c : ClientSync) (v : Int) (op : MarkerOp) :
    (c.writeLanded v op).halted = c.halted := by
  unfold writeLanded
  split <;> rfl

/-- A marker write halts the client only by failing the rollback that waits for it. -/
theorem markerStep_halts {o : Outcome} (hs : c.markerStep o = some c') (hn : c.halted = none)
    (hh : c'.halted ≠ none) :
    ∃ id, c.actor (.markerWrite o) = some (.task id) ∧ c'.Returned id := by
  unfold markerStep at hs
  split at hs
  · obtain rfl := Option.some.inj hs
    exact absurd ((halted_startWrite c _).trans hn) hh
  · obtain rfl := Option.some.inj hs
    exact absurd ((halted_writeLanded c _ _).trans hn) hh
  · rename_i w rest v hq hw
    obtain rfl := Option.some.inj hs
    have hthrow : (c.dequeueWrite.throwInto w.owner).halted ≠ none →
        ∃ id, c.actor (.markerWrite .error) = some (.task id) ∧
          (c.dequeueWrite.throwInto w.owner).Returned id := by
      intro hh
      obtain ⟨id, hid, hret⟩ := throwInto_halts (c := c.dequeueWrite) hn hh
      exact ⟨id, by simp [actor, hq, hid], hret⟩
    unfold writeFailed at hh ⊢
    split at hh
    · exact hthrow hh
    · split at hh
      · rename_i hst
        simp only [hst, if_true]
        exact hthrow hh
      · exact absurd hn hh
    · exact absurd hn hh
  · simp at hs

theorem marker_keepsArmed (cfg : Config) {o : Outcome} (hs : c.markerStep o = some c') :
    KeepsArmed c (.markerWrite o) c' := by
  intro hh p h
  have hn : MarkerNoted cfg c c' := markerNoted_markerStep hs
  refine ⟨h.of_noted hn.noted hh, fun hnone hp => ?_⟩
  obtain ⟨id, hact, hret⟩ := markerStep_halts hs hnone hh
  rw [hact] at hp
  obtain rfl := Option.some.inj hp
  exact hret.not_armed h

/-- Nothing is armed on a halted client. -/
def Disarmed (c : ClientSync) : Prop := c.halted ≠ none → ∀ p, ¬ c.Armed p

theorem disarmed_restart (db : Replica) (halted : Option HaltReason) :
    (restart db halted).Disarmed := by
  intro _ p hp
  cases p with
  | task id =>
    obtain ⟨t, ht, -⟩ := hp
    simp [restart] at ht
  | runner =>
    obtain ⟨r, hr, -⟩ := hp
    simp [restart] at hr
  | walk => exact hp

theorem step_keepsArmed (h : Steps cfg c a c') : KeepsArmed c a c' := by
  cases step_cases h with
  | calls hc he => exact event_keepsArmed hc he
  | live ht hs => exact live_keepsArmed ht hs
  | rollback ht hs => exact rollback_keepsArmed ht hs
  | runner ha hr hs => exact runner_keepsArmed ha hr hs
  | walk hw hs =>
    intro hh p hp
    exact ⟨hp.of_noted (noted_walkStep hs) hh, fun _ hact => by simp [actor, byRunner] at hact⟩
  | marker hs => exact marker_keepsArmed cfg hs
  | cleared hh =>
    intro hh
    have hclear : ∀ reason, (c.cleared reason).halted = none := by
      intro reason
      unfold cleared
      dsimp only
      split <;> rfl
    exact absurd (hclear _) hh
  | crash => exact fun hh p hp => absurd hp (disarmed_restart _ _ hh p)

/-- Every commit is a step of an armed call. -/
theorem armed_of_committing {k : Commit} (h : c.committing a = some k) : ∃ p, c.Armed p := by
  unfold committing at h
  split at h
  · split at h
    · rename_i id _ _ _ _ ht
      exact ⟨.task id, _, ht, trivial⟩
    · rename_i id _ _ _ ht
      exact ⟨.task id, _, ht, trivial⟩
    · simp at h
  · split at h
    · rename_i hr
      exact ⟨.runner, _, hr, trivial⟩
    · rename_i hr
      exact ⟨.runner, _, hr, trivial⟩
    · rename_i hr
      exact ⟨.runner, _, hr, trivial⟩
    · simp at h
  · simp at h

/-! ### Runs -/

/-- A step that halts the client finds no other call armed. -/
def HaltsAlone (cfg : Config) (c : ClientSync) (a : Action) : Prop :=
  c.halted = none → ∀ c', Steps cfg c a c' → c'.halted ≠ none →
    ∀ p, c.Armed p → c.actor a = some p

theorem step_disarmed (hd : c.Disarmed) (hok : HaltsAlone cfg c a) (h : Steps cfg c a c') :
    c'.Disarmed := by
  intro hh p hp
  obtain ⟨hc, hact⟩ := step_keepsArmed h hh p hp
  by_cases hn : c.halted = none
  · exact hact hn (hok hn c' h hh p hc)
  · exact hd hn p hc

/-- Along every run whose halts find no other call armed, a halted client commits no block, no range,
no rollback and no bootstrap: every step leaves the rows alone. -/
theorem halted_commits_nothing {cfg : Config} {db : Replica} {halted : Option HaltReason}
    {c : ClientSync} (h : Run (Steps cfg) (HaltsAlone cfg) (restart db halted) c)
    (hh : c.halted ≠ none) (a : Action) :
    c.committing a = none ∧ ∀ c', Steps cfg c a c' → c'.db.rows = c.db.rows := by
  have hd : c.Disarmed := by
    refine h.invariant (I := Disarmed) (disarmed_restart db halted) ?_
    intro c a c' hd hok hs
    exact step_disarmed hd hok hs
  have hnone : c.committing a = none := by
    cases hk : c.committing a with
    | none => rfl
    | some k =>
      obtain ⟨p, hp⟩ := armed_of_committing hk
      exact absurd hp (hd hh p)
  refine ⟨hnone, fun c' hs => ?_⟩
  have hrows := (step_rows hs).1
  rwa [committed_of_none hnone] at hrows

/-- A reorg beyond the limit halts the client while the pass downloads; its range is committed all
the same. -/
theorem halted_pass_commits :
    ¬ ∀ (cfg : Config) (db : Replica) (halted : Option HaltReason) (c : ClientSync),
      Run (Steps cfg) Any (restart db halted) c → c.halted ≠ none →
        ∀ a, c.committing a = none := by
  intro hall
  have hexec : ((execAll (step (majorityOf 1)) Any
      (restart (Replica.verified [299, 300] (some 300)) none)
      (passToDownload ++ [.reorg ⟨100, .plain .undefined⟩ 0,
        .runnerGets ⟨[301], some 301, some 301⟩, .runner .ok])).map
      fun c => (c.halted, c.committing (.runner .ok))) =
        some (some .maxRollbackDepth, some (.range [301])) := by
    decide +kernel
  obtain ⟨c, hc, hstate⟩ := Option.map_eq_some_iff.mp hexec
  obtain ⟨hhalt, hk⟩ := Prod.mk.inj hstate
  have hnone := hall _ _ _ c (run_execAll hc) (by simp [hhalt]) (.runner .ok)
  rw [hnone] at hk
  simp at hk

/-- A live apply of block 301 at its train gate. -/
def atTrainGate : ClientSync :=
  { restart (Replica.verified [299, 300] (some 300)) none with liveFollow := true }.spawn .chain
    (.live (blockAt 301) .trainGate)

theorem haltsAlone_of_quiet {cfg : Config} {c c' : ClientSync} {a : Action} (hs : Steps cfg c a c')
    (hn : c'.halted = none) : HaltsAlone cfg c a := by
  intro _ c'' hs' hh
  rw [Steps, hs] at hs'
  obtain rfl := Option.some.inj hs'
  exact absurd hn hh

/-- The live apply halts the client itself at its train gate. -/
theorem halted_commits_nothing_at_trainGate : (atTrainGate.halt .trainActivation).halted ≠ none ∧
    ∀ a, ((atTrainGate.halt .trainActivation).endTask 0 .chain).committing a = none := by
  have hfollow : Steps (majorityOf 1) (restart (Replica.verified [299, 300] (some 300)) none)
      .beginLiveFollow
      { restart (Replica.verified [299, 300] (some 300)) none with liveFollow := true } := rfl
  have hblock : Steps (majorityOf 1)
      { restart (Replica.verified [299, 300] (some 300)) none with liveFollow := true }
      (.block (blockAt 301) 0 false) atTrainGate := rfl
  have hbad : Steps (majorityOf 1) atTrainGate (.task 0 .bad)
      ((atTrainGate.halt .trainActivation).endTask 0 .chain) := rfl
  have halone : HaltsAlone (majorityOf 1) atTrainGate (.task 0 .bad) := by
    intro _ _ _ _ p hp
    cases p with
    | task id =>
      obtain ⟨t, ht, -⟩ := hp
      have hid : id = 0 := by
        by_contra hne
        simp [atTrainGate, spawn, setTask, restart, hne] at ht
      rw [hid]
      rfl
    | runner =>
      obtain ⟨r, hr, -⟩ := hp
      exact absurd hr (by simp [atTrainGate, spawn, setTask, restart])
    | walk => exact hp.elim
  refine ⟨by decide, fun a => ?_⟩
  have h1 := Run.tail .refl (haltsAlone_of_quiet hfollow rfl) hfollow
  have h2 := Run.tail h1 (haltsAlone_of_quiet hblock rfl) hblock
  exact (halted_commits_nothing (Run.tail h2 halone hbad) (by decide) a).1

end ClientSync

end XChainSync.Client
