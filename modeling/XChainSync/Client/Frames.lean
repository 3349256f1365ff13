import XChainSync.Client.Step

/-!
# What the synchronous calls leave alone

`Calm c c'`: the replica, the cursor and the marker are the same, and no call in flight has gone
on, except to take a verdict of the walk, to end, or to return to a point without captured data.
`Calls c c'` allows besides that new calls start.
-/

namespace XChainSync.Client
set_option autoImplicit false

/-- `t` is `t₀`, or `t₀` with the verdict it was waiting for. -/
def Task.Resumes (t₀ t : Task) : Prop := t = t₀ ∨ ∃ v, t = t₀.resume v

theorem Task.resume_resume (t : Task) (v v' : TailVerdict) :
    (t.resume v).resume v' = t.resume v := by
  obtain ⟨driver, work⟩ := t
  cases work with
  | live event pc => cases pc <;> rfl
  | rollback r pc => rfl
  | linkCheck event i => rfl
  | awaitCatchUp => rfl

theorem Task.Resumes.rollback {t₀ : Task} {driver : Driver} {r : Rollback} {pc : RollbackPc}
    (h : t₀.Resumes ⟨driver, .rollback r pc⟩) : t₀ = ⟨driver, .rollback r pc⟩ := by
  rcases h with rfl | ⟨v, hv⟩
  · rfl
  · obtain ⟨driver', work⟩ := t₀
    cases work with
    | rollback r' pc' => exact hv.symm
    | _ => simp [Task.resume] at hv

theorem Task.Resumes.trans {t₀ t₁ t₂ : Task} (h : t₀.Resumes t₁) (h' : t₁.Resumes t₂) :
    t₀.Resumes t₂ := by
  rcases h with rfl | ⟨v, rfl⟩
  · exact h'
  · rcases h' with rfl | ⟨v', rfl⟩
    · exact Or.inr ⟨v, rfl⟩
    · exact Or.inr ⟨v, t₀.resume_resume v v'⟩

/-- Points of the runner that hold no captured data and come before another gate. -/
def RunnerPc.Idle : RunnerPc → Prop
  | .rewinding => True
  | .passEnd => True
  | .full .schema => True
  | .window .discover => True
  | _ => False

/-- The runner is gone, untouched, resumed, or back at an idle point. -/
def RunnerCalm (r₀ r : Option Runner) : Prop :=
  ∀ x, r = some x → r₀ = some x ∨ (∃ y v, r₀ = some y ∧ x = y.resume v) ∨ x.pc.Idle

theorem Runner.resume_resume (r : Runner) (v v' : TailVerdict) :
    (r.resume v).resume v' = r.resume v := by
  obtain ⟨before, pc⟩ := r
  cases pc with
  | window pc => cases pc <;> rfl
  | _ => rfl

theorem Runner.resume_idle {r : Runner} (h : r.pc.Idle) (v : TailVerdict) : (r.resume v).pc.Idle := by
  obtain ⟨before, pc⟩ := r
  cases pc with
  | window pc => cases pc <;> first | exact h | exact h.elim
  | _ => first | exact h | exact h.elim

theorem RunnerCalm.trans {r₀ r₁ r₂ : Option Runner} (h : RunnerCalm r₀ r₁)
    (h' : RunnerCalm r₁ r₂) : RunnerCalm r₀ r₂ := by
  intro x hx
  rcases h' x hx with hr | ⟨y, v, hr, rfl⟩ | hi
  · exact h x hr
  · rcases h y hr with hr' | ⟨z, v', hr', rfl⟩ | hi
    · exact Or.inr (Or.inl ⟨y, v, hr', rfl⟩)
    · exact Or.inr (Or.inl ⟨z, v', hr', z.resume_resume v' v⟩)
    · exact Or.inr (Or.inr (Runner.resume_idle hi v))
  · exact Or.inr (Or.inr hi)

/-- The walk is gone, untouched, or starts on the current generation. -/
def WalkCalm (c c' : ClientSync) : Prop :=
  c'.tailVerify = c.tailVerify ∨ c'.tailVerify = none ∨
    ∃ pc, c'.tailVerify = some ⟨c.marker.rowGeneration, false, pc⟩ ∧
      (pc = .readTip ∨ pc = .finished .held)

structure Calm (c c' : ClientSync) : Prop where
  db : c'.db = c.db
  lastAppliedBlock : c'.lastAppliedBlock = c.lastAppliedBlock
  marker : c'.marker = c.marker
  guard : c'.guard = c.guard
  nextTask : c'.nextTask = c.nextTask
  bootstrapBase : c'.bootstrapBase = c.bootstrapBase
  halted : c'.halted = c.halted ∨ c.halted = none ∧ ∃ reason ≠ .stateHash, c'.halted = some reason
  tasks : ∀ id t, c'.tasks id = some t → ∃ t₀, c.tasks id = some t₀ ∧ t₀.Resumes t
  catchUp : RunnerCalm c.catchUp c'.catchUp
  tailVerify : WalkCalm c c'
  delivered : c'.delivered = c.delivered
  reorgs : ∀ ok, c.reorgs.Reported ok → c'.reorgs.Reported ok
  votes : c.votes.Clear → c'.votes.Clear

namespace Calm
variable {c c' c'' : ClientSync}

theorem refl (c : ClientSync) : Calm c c :=
  ⟨rfl, rfl, rfl, rfl, rfl, rfl, Or.inl rfl, fun _ t h => ⟨t, h, Or.inl rfl⟩, fun _ h => Or.inl h,
    Or.inl rfl, rfl, fun _ h => h, fun h => h⟩

theorem trans (h : Calm c c') (h' : Calm c' c'') : Calm c c'' where
  db := h'.db.trans h.db
  lastAppliedBlock := h'.lastAppliedBlock.trans h.lastAppliedBlock
  marker := h'.marker.trans h.marker
  guard := h'.guard.trans h.guard
  nextTask := h'.nextTask.trans h.nextTask
  bootstrapBase := h'.bootstrapBase.trans h.bootstrapBase
  halted := by
    rcases h'.halted with h2 | ⟨h2, reason, hne, h3⟩
    · rw [h2]
      exact h.halted
    · rcases h.halted with h1 | ⟨-, r, -, h1⟩
      · exact Or.inr ⟨h1 ▸ h2, reason, hne, h3⟩
      · rw [h2] at h1
        simp at h1
  tasks := by
    intro id t ht
    obtain ⟨t₁, ht₁, hr₁⟩ := h'.tasks id t ht
    obtain ⟨t₀, ht₀, hr₀⟩ := h.tasks id t₁ ht₁
    exact ⟨t₀, ht₀, hr₀.trans hr₁⟩
  catchUp := h.catchUp.trans h'.catchUp
  tailVerify := by
    rcases h'.tailVerify with h2 | h2 | ⟨pc, h2, hpc⟩
    · rcases h.tailVerify with h1 | h1 | h1
      · exact Or.inl (h2.trans h1)
      · exact Or.inr (Or.inl (h2.trans h1))
      · exact Or.inr (Or.inr (h2 ▸ h1))
    · exact Or.inr (Or.inl h2)
    · exact Or.inr (Or.inr ⟨pc, h.marker ▸ h2, hpc⟩)
  delivered := h'.delivered.trans h.delivered
  reorgs := fun ok hr => h'.reorgs ok (h.reorgs ok hr)
  votes := fun hv => h'.votes (h.votes hv)

end Calm

namespace ClientSync

/-! ### Calls that start nothing -/

theorem calm_halt (c : ClientSync) {reason : HaltReason} (h : reason ≠ .stateHash) :
    Calm c (c.halt reason) := by
  unfold halt
  split
  · exact Calm.refl c
  · rename_i hn
    exact { Calm.refl c with halted := Or.inr ⟨by simpa using hn, reason, h, rfl⟩ }

theorem calm_lockRelease (c : ClientSync) : Calm c c.lockRelease := { Calm.refl c with }

theorem calm_lockRequest (c : ClientSync) (p : Party) : Calm c (c.lockRequest p) :=
  { Calm.refl c with }

theorem calm_endTask (c : ClientSync) (id : TaskId) (driver : Driver) :
    Calm c (c.endTask id driver) := by
  have htasks : ∀ j t, (if j = id then none else c.tasks j) = some t →
      ∃ t₀, c.tasks j = some t₀ ∧ t₀.Resumes t := by
    intro j t ht
    split at ht
    · simp at ht
    · exact ⟨t, ht, Or.inl rfl⟩
  unfold endTask
  cases driver with
  | blockTimer height =>
    exact { Calm.refl c with tasks := htasks, votes := fun hv => hv.dropPending height }
  | _ => exact { Calm.refl c with tasks := htasks }

theorem calm_startWalk (c : ClientSync) : Calm c c.startWalk := by
  unfold startWalk
  split
  · exact Calm.refl c
  · refine { Calm.refl c with tailVerify := Or.inr (Or.inr ⟨_, rfl, ?_⟩) }
    split
    · exact Or.inr rfl
    · exact Or.inl rfl

theorem calm_finishWalk (c : ClientSync) (v : TailVerdict) : Calm c (c.finishWalk v) := by
  refine { Calm.refl c with
    tasks := ?_
    catchUp := ?_
    tailVerify := Or.inr (Or.inl rfl) }
  · intro id t ht
    obtain ⟨t₀, ht₀, rfl⟩ := Option.map_eq_some_iff.mp ht
    exact ⟨t₀, ht₀, Or.inr ⟨v, rfl⟩⟩
  · intro x hx
    obtain ⟨y, hy, rfl⟩ := Option.map_eq_some_iff.mp hx
    exact Or.inr (Or.inl ⟨y, v, hy, rfl⟩)

theorem calm_setRunner (c : ClientSync) {pc : RunnerPc} (h : pc.Idle) : Calm c (c.setRunner pc) := by
  refine { Calm.refl c with catchUp := ?_ }
  intro x hx
  obtain ⟨y, hy, rfl⟩ := Option.map_eq_some_iff.mp hx
  exact Or.inr (Or.inr h)

theorem calm_finishRunner (c : ClientSync) : Calm c c.finishRunner := by
  refine { Calm.refl c with
    tasks := ?_
    catchUp := fun _ hx => by simp [finishRunner] at hx }
  intro id t ht
  simp only [finishRunner] at ht
  split at ht
  · simp at ht
  · exact ⟨t, ht, Or.inl rfl⟩

theorem calm_windowRetry (c : ClientSync) : Calm c c.windowRetry := by
  unfold windowRetry
  split
  · exact calm_finishRunner c
  · exact calm_setRunner c trivial

end ClientSync

/-! ### Calls that start others -/

namespace ClientSync

/-- What `handleReorg` has checked of a rollback it lets wait for the lock. -/
def Accepts (cfg : Config) (c : ClientSync) (r : Rollback) : Prop :=
  ∃ tip, c.lastAppliedBlock = some tip ∧ r.event.block_index ≤ tip ∧
    ((c.guard.depthFor cfg.maxRollbackDepth tip r.event.block_index).2 ≤ cfg.maxRollbackDepth ∨
      retroactiveReorgAdmission cfg c.votes r.event
        (c.guard.depthFor cfg.maxRollbackDepth tip r.event.block_index).2 (r.reports.getD []) =
          .quorum)

/-- Every held reorg report was delivered. -/
def ReportsDelivered (c : ClientSync) : Prop := c.reorgs.Reported (· ∈ c.delivered)

end ClientSync

/-- A call as it starts: a live apply and a rollback have just seen the client not halted. A
rollback starts only where a depth is evaluated. -/
def Task.Starts (cfg : Config) (evaluates : Prop) (c : ClientSync) (t : Task) : Prop :=
  match t.work with
  | .live _ pc => pc = .trainGate ∧ c.halted = none
  | .rollback r pc =>
    pc = .rewound ∨ pc = .lockWait ∧ c.halted = none ∧ evaluates ∧ c.Accepts cfg r
  | _ => True

/-- What a step may do besides: evaluate a cumulative depth, or record a source's block report. -/
structure Doing where
  evaluates : Prop
  reports : Prop

def Doing.nothing : Doing := ⟨False, False⟩

structure Calls (cfg : Config) (d : Doing) (c c' : ClientSync) : Prop where
  db : c'.db = c.db
  lastAppliedBlock : c'.lastAppliedBlock = c.lastAppliedBlock
  marker : c'.marker = c.marker
  guard : c'.guard = c.guard ∨ d.evaluates ∧ ∃ tip, c.lastAppliedBlock = some tip ∧
    c'.guard = c.guard.expire cfg.maxRollbackDepth tip
  bootstrapBase : c'.bootstrapBase = c.bootstrapBase
  halted : c'.halted = c.halted ∨ c.halted = none ∧ ∃ reason ≠ .stateHash, c'.halted = some reason
  tasks : ∀ id t, c'.tasks id = some t →
    (∃ t₀, c.tasks id = some t₀ ∧ t₀.Resumes t) ∨ t.Starts cfg d.evaluates c'
  started : ∀ id driver r, c'.tasks id = some ⟨driver, .rollback r .lockWait⟩ →
    c.tasks id = some ⟨driver, .rollback r .lockWait⟩ ∨ id = c.nextTask
  catchUp : RunnerCalm c.catchUp c'.catchUp ∨
    (∃ before, c'.catchUp = some ⟨before, .readTip⟩) ∧ c'.incrementalCatchUpBlocked = false
  tailVerify : WalkCalm c c'
  delivered : c.delivered ⊆ c'.delivered
  reorgs : c.ReportsDelivered → c'.ReportsDelivered
  votes : d.reports ∨ (c.votes.Clear → c'.votes.Clear)

variable {cfg : Config} {d : Doing}

theorem Calm.reportsDelivered {c c' : ClientSync} (h : Calm c c') (hr : c.ReportsDelivered) :
    c'.ReportsDelivered := by
  unfold ClientSync.ReportsDelivered
  rw [h.delivered]
  exact h.reorgs _ hr

theorem Calm.calls {c c' : ClientSync} (h : Calm c c') : Calls cfg d c c' where
  db := h.db
  lastAppliedBlock := h.lastAppliedBlock
  marker := h.marker
  guard := Or.inl h.guard
  bootstrapBase := h.bootstrapBase
  halted := h.halted
  tasks := fun id t ht => Or.inl (h.tasks id t ht)
  started := by
    intro id driver r ht
    obtain ⟨t₀, ht₀, hr⟩ := h.tasks id _ ht
    exact Or.inl (hr.rollback ▸ ht₀)
  catchUp := Or.inl h.catchUp
  tailVerify := h.tailVerify
  delivered := h.delivered ▸ List.Subset.refl _
  reorgs := h.reportsDelivered
  votes := Or.inr h.votes

theorem Calls.trans_guard {c c' c'' : ClientSync}
    (h : c'.guard = c.guard ∨ d.evaluates ∧ ∃ tip, c.lastAppliedBlock = some tip ∧
      c'.guard = c.guard.expire cfg.maxRollbackDepth tip)
    (hl : c'.lastAppliedBlock = c.lastAppliedBlock) (h' : Calls cfg d c' c'') :
    c''.guard = c.guard ∨ d.evaluates ∧ ∃ tip, c.lastAppliedBlock = some tip ∧
      c''.guard = c.guard.expire cfg.maxRollbackDepth tip := by
  rcases h'.guard with h2 | ⟨he, tip, ht, h2⟩
  · rw [h2]
    exact h
  · rw [hl] at ht
    refine Or.inr ⟨he, tip, ht, ?_⟩
    rcases h with h1 | ⟨-, tip', ht', h1⟩
    · rw [h2, h1]
    · obtain rfl : tip = tip' := Option.some.inj (ht.symm.trans ht')
      rw [h2, h1, RollbackGuard.expire_expire]

theorem Calm.then_calls {c c' c'' : ClientSync} (h : Calm c c') (h' : Calls cfg d c' c'') :
    Calls cfg d c c'' where
  db := h'.db.trans h.db
  lastAppliedBlock := h'.lastAppliedBlock.trans h.lastAppliedBlock
  marker := h'.marker.trans h.marker
  guard := h'.trans_guard (Or.inl h.guard) h.lastAppliedBlock
  bootstrapBase := h'.bootstrapBase.trans h.bootstrapBase
  halted := by
    rcases h'.halted with h2 | ⟨h2, reason, hne, h3⟩
    · rw [h2]
      exact h.halted
    · rcases h.halted with h1 | ⟨-, r, -, h1⟩
      · exact Or.inr ⟨h1 ▸ h2, reason, hne, h3⟩
      · rw [h2] at h1
        simp at h1
  tasks := by
    intro id t ht
    rcases h'.tasks id t ht with ⟨t₁, ht₁, hr₁⟩ | hs
    · obtain ⟨t₀, ht₀, hr₀⟩ := h.tasks id t₁ ht₁
      exact Or.inl ⟨t₀, ht₀, hr₀.trans hr₁⟩
    · exact Or.inr hs
  started := by
    intro id driver r ht
    rcases h'.started id driver r ht with ht₁ | hid
    · obtain ⟨t₀, ht₀, hr⟩ := h.tasks id _ ht₁
      exact Or.inl (hr.rollback ▸ ht₀)
    · exact Or.inr (h.nextTask ▸ hid)
  catchUp := by
    rcases h'.catchUp with h2 | h2
    · exact Or.inl (h.catchUp.trans h2)
    · exact Or.inr h2
  tailVerify := by
    rcases h'.tailVerify with h2 | h2 | ⟨pc, h2, hpc⟩
    · rcases h.tailVerify with h1 | h1 | h1
      · exact Or.inl (h2.trans h1)
      · exact Or.inr (Or.inl (h2.trans h1))
      · exact Or.inr (Or.inr (h2 ▸ h1))
    · exact Or.inr (Or.inl h2)
    · exact Or.inr (Or.inr ⟨pc, h.marker ▸ h2, hpc⟩)
  delivered := h.delivered ▸ h'.delivered
  reorgs := fun hr => h'.reorgs (h.reportsDelivered hr)
  votes := h'.votes.imp_right fun hv hc => hv (h.votes hc)

/-- Calls after the guard has forgotten an expired streak and the reports have changed. -/
theorem Calls.after_expire {c c'' : ClientSync} {guard : RollbackGuard} {reorgs : ReorgVotes}
    {delivered : List ReorgReport} (he : d.evaluates)
    (hg : guard = c.guard ∨ ∃ tip, c.lastAppliedBlock = some tip ∧
      guard = c.guard.expire cfg.maxRollbackDepth tip)
    (hd : c.delivered ⊆ delivered) (hr : c.ReportsDelivered → reorgs.Reported (· ∈ delivered))
    (h : Calls cfg d
      { c with guard := guard, reorgs := reorgs, delivered := delivered } c'') :
    Calls cfg d c c'' := by
  have hg' := hg.imp_right fun hg => And.intro he hg
  exact { h with
    guard := Calls.trans_guard (by exact hg') (by rfl) h
    delivered := List.Subset.trans hd h.delivered
    reorgs := fun hc => h.reorgs (hr hc) }

/-- Calls after the block votes have changed. -/
theorem Calls.after_votes {c c'' : ClientSync} {votes : Votes}
    (hv : d.reports ∨ (c.votes.Clear → votes.Clear))
    (h : Calls cfg d { c with votes := votes } c'') : Calls cfg d c c'' := by
  refine { h with votes := ?_ }
  rcases hv with hrep | hv
  · exact Or.inl hrep
  · exact h.votes.imp_right fun hv' hc => hv' (hv hc)

namespace ClientSync

theorem calls_spawn (c : ClientSync) (driver : Driver) (work : Work)
    (h : Task.Starts cfg d.evaluates c ⟨driver, work⟩) :
    Calls cfg d c (c.spawn driver work) := by
  refine { (Calm.refl c).calls with tasks := ?_, started := ?_ }
  · intro id t ht
    simp only [spawn, setTask] at ht
    split at ht
    · obtain rfl := Option.some.inj ht
      exact Or.inr h
    · exact Or.inl ⟨t, ht, Or.inl rfl⟩
  · intro id driver' r ht
    simp only [spawn, setTask] at ht
    split at ht
    · exact Or.inr (by assumption)
    · exact Or.inl ht

theorem calls_incrementalCatchUp (c : ClientSync) : Calls cfg d c c.incrementalCatchUp := by
  unfold incrementalCatchUp
  split
  · exact (Calm.refl c).calls
  · rename_i hb
    split
    · exact { (Calm.refl c).calls with }
    · exact { (Calm.refl c).calls with catchUp := Or.inr ⟨⟨_, rfl⟩, eq_false_of_ne_true hb⟩ }

theorem tasks_incrementalCatchUp (c : ClientSync) : c.incrementalCatchUp.tasks = c.tasks := by
  unfold incrementalCatchUp
  split
  · rfl
  · split <;> rfl

theorem calls_catchUpOnChain (c : ClientSync) : Calls cfg d c c.catchUpOnChain := by
  unfold catchUpOnChain
  have h : Calls cfg d c c.incrementalCatchUp := calls_incrementalCatchUp c
  have hs : Calls cfg d _ _ :=
    calls_spawn c.incrementalCatchUp .chain .awaitCatchUp trivial
  dsimp only
  split
  · exact h
  · refine { h with tasks := ?_, started := ?_ }
    · intro id t ht
      rcases hs.tasks id t ht with ⟨t₀, ht₀, hr⟩ | hst
      · exact Or.inl ⟨t₀, tasks_incrementalCatchUp c ▸ ht₀, hr⟩
      · exact Or.inr hst
    · intro id driver r ht
      simp only [spawn, setTask] at ht
      split at ht
      · simp at ht
      · exact Or.inl (tasks_incrementalCatchUp c ▸ ht)

theorem calls_endPass (c : ClientSync) (r : Runner) : Calls cfg d c (c.endPass r) := by
  unfold endPass
  split
  · rename_i h
    simp only [Bool.and_eq_true, Bool.not_eq_true'] at h
    exact { (Calm.refl c).calls with catchUp := Or.inr ⟨⟨_, rfl⟩, h.2⟩ }
  · exact (calm_finishRunner c).calls

theorem calls_startLive (c : ClientSync) (driver : Driver) (event : BlockEvent) :
    Calls cfg d c (c.startLive driver event) := by
  unfold startLive
  split
  · cases driver with
    | blockTimer height =>
      exact { (Calm.refl c).calls with votes := Or.inr fun hv => hv.dropPending height }
    | _ => exact (Calm.refl c).calls
  · rename_i h
    exact calls_spawn c driver _ ⟨rfl, by simpa using h⟩

theorem calls_reorgReturns (c : ClientSync) (driver : Driver) (r : Rollback) :
    Calls cfg d c (c.reorgReturns driver r) := by
  unfold reorgReturns
  split
  · exact calls_spawn c driver _ (Or.inl rfl)
  · exact (Calm.refl c).calls

theorem depthFor_expire (maxDepth : Int) (g : RollbackGuard) (tip target : Int) :
    (g.expire maxDepth tip).depthFor maxDepth tip target = g.depthFor maxDepth tip target := by
  simp only [RollbackGuard.depthFor, RollbackGuard.expire_expire]

/-- The guard the checks leave, and what an accepted rollback has passed. -/
theorem reorgChecks_spec {votes : Votes} {g g' : RollbackGuard} {lastAppliedBlock : Option Int}
    {r : Rollback} {verdict : ReorgVerdict}
    (h : reorgChecks cfg votes g lastAppliedBlock r.event r.reports = (g', verdict)) :
    (g' = g ∨ ∃ tip, lastAppliedBlock = some tip ∧ g' = g.expire cfg.maxRollbackDepth tip) ∧
      (verdict = .accepted → ∃ tip, lastAppliedBlock = some tip ∧ r.event.block_index ≤ tip ∧
        ((g'.depthFor cfg.maxRollbackDepth tip r.event.block_index).2 ≤ cfg.maxRollbackDepth ∨
          retroactiveReorgAdmission cfg votes r.event
            (g'.depthFor cfg.maxRollbackDepth tip r.event.block_index).2 (r.reports.getD []) =
              .quorum)) := by
  obtain _ | tip := lastAppliedBlock
  · simp only [reorgChecks, Prod.mk.injEq] at h
    exact ⟨Or.inl h.1.symm, fun hv => by rw [← h.2] at hv; nomatch hv⟩
  · by_cases hlt : tip < r.event.block_index
    · simp only [reorgChecks, hlt, if_true, Prod.mk.injEq] at h
      exact ⟨Or.inl h.1.symm, fun hv => by rw [← h.2] at hv; nomatch hv⟩
    · have hg : g' = g.expire cfg.maxRollbackDepth tip := by
        simp only [reorgChecks, hlt, if_false] at h
        split at h
        · split at h
          · exact (Prod.mk.inj h).1.symm
          · split at h <;> exact (Prod.mk.inj h).1.symm
          · exact (Prod.mk.inj h).1.symm
        · exact (Prod.mk.inj h).1.symm
      refine ⟨Or.inr ⟨tip, rfl, hg⟩, fun hv => ⟨tip, rfl, by omega, ?_⟩⟩
      rw [hg, depthFor_expire]
      simp only [reorgChecks, hlt, if_false, hv] at h
      split at h
      · split at h
        · rename_i hq
          exact Or.inr hq
        · split at h <;> simp at h
        · simp at h
      · exact Or.inl (by omega)

theorem calls_startRollback (c : ClientSync) (driver : Driver) (r : Rollback) (he : d.evaluates) :
    Calls cfg d c (c.startRollback cfg driver r) := by
  unfold startRollback
  split
  · exact calls_reorgReturns c driver r
  · rename_i hh
    split
    rename_i guard verdict heq
    obtain ⟨hg, hacc⟩ := reorgChecks_spec heq
    refine Calls.after_expire he hg (List.Subset.refl _) (fun hr => hr) ?_
    cases verdict with
    | ignored => exact calls_reorgReturns _ driver r
    | tooDeep => exact (calm_halt _ (by decide)).then_calls (calls_reorgReturns _ driver r)
    | accepted =>
      have hs : Calls cfg d _ _ :=
        calls_spawn { c with guard := guard } driver (.rollback r .lockWait)
          (Or.inr ⟨rfl, by simpa using hh, he, hacc rfl⟩)
      exact { hs with }

/-- `handleSourceReorg` leaves the guard, or forgets an expired streak. -/
theorem handleSourceReorg_guard {votes : Votes} {g g' : RollbackGuard}
    {lastAppliedBlock : Option Int} {reorgs reorgs' : ReorgVotes} {event : ReorgEvent}
    {i : SourceIndex} {rewind : Bool} {agreed : Option AgreedReorg}
    (h : handleSourceReorg cfg votes g lastAppliedBlock reorgs event i rewind =
      (g', reorgs', agreed)) :
    g' = g ∨ ∃ tip, lastAppliedBlock = some tip ∧ g' = g.expire cfg.maxRollbackDepth tip := by
  unfold handleSourceReorg at h
  split at h
  · exact Or.inl (Prod.mk.inj h).1.symm
  · split at h
    · exact Or.inl (Prod.mk.inj h).1.symm
    · rename_i tip
      split at h
      · exact Or.inl (Prod.mk.inj h).1.symm
      · refine Or.inr ⟨tip, rfl, ?_⟩
        dsimp only [RollbackGuard.depthFor] at h
        repeat' split at h
        all_goals exact (Prod.mk.inj h).1.symm

theorem calls_sourceReorg (c : ClientSync) (event : ReorgEvent) (i : SourceIndex)
    (rewind : Bool) (he : d.evaluates) :
    Calls cfg d c (c.sourceReorg cfg event i rewind) := by
  unfold sourceReorg
  split
  · exact (Calm.refl c).calls
  · split
    rename_i guard reorgs agreed heq
    have hreports : c.ReportsDelivered → reorgs.Reported (· ∈ c.delivered ++ [event.report i]) := by
      intro hr
      have hmono := hr.mono fun report hmem => List.mem_append_left [event.report i] hmem
      exact (handleSourceReorg_reports hmono (by simp) heq).1
    refine Calls.after_expire he (handleSourceReorg_guard heq) (by simp) hreports ?_
    cases agreed with
    | none => exact (Calm.refl _).calls
    | some a => exact calls_startRollback _ .chain _ he

theorem calls_endRollback (c : ClientSync) (id : TaskId) (driver : Driver) (r : Rollback) :
    Calls cfg d c (c.endRollback id driver r) := by
  unfold endRollback
  split
  · exact { ((calm_endTask c id driver).trans
      (calm_setRunner _ (show RunnerPc.passEnd.Idle from trivial))).calls with }
  · split
    · refine { (Calm.refl c).calls with tasks := ?_, started := ?_ }
      · intro j t ht
        simp only [setRollback, setTask] at ht
        split at ht
        · obtain rfl := Option.some.inj ht
          exact Or.inr (Or.inl rfl)
        · exact Or.inl ⟨t, ht, Or.inl rfl⟩
      · intro j driver' r' ht
        simp only [setRollback, setTask] at ht
        split at ht
        · simp at ht
        · exact Or.inl ht
    · exact (calm_endTask c id driver).calls

theorem calls_blockQuorum (c : ClientSync) (event : BlockEvent) (i : SourceIndex)
    (hrep : c.votes.sourceQuorumActive cfg && !c.votes.isEvicted i → d.reports) :
    Calls cfg d c (c.blockQuorum cfg event i) := by
  have hvotes : d.reports ∨
      (c.votes.Clear → (c.votes.handleBlockQuorum cfg event i).1.Clear) := by
    by_cases h : c.votes.sourceQuorumActive cfg && !c.votes.isEvicted i
    · exact Or.inl (hrep h)
    · rw [Votes.handleBlockQuorum_unrecorded (eq_false_of_ne_true h)]
      exact Or.inr fun hv => hv
  unfold blockQuorum
  split
  rename_i votes action heq
  rw [heq] at hvotes
  refine Calls.after_votes hvotes ?_
  cases action with
  | direct => exact calls_startLive _ .chain event
  | accepted ev => exact calls_startLive _ .chain ev
  | rejected =>
    dsimp only
    split
    · exact (calm_halt _ (by decide)).calls
    · exact (Calm.refl _).calls
  | ignored => exact (Calm.refl _).calls
  | waiting => exact (Calm.refl _).calls

theorem calls_blockTimer (c : ClientSync) (event : BlockEvent) :
    Calls cfg d c (c.blockTimer cfg event) := by
  have hvotes : d.reports ∨ (c.votes.Clear →
      (c.votes.blockQuorumTimeout cfg c.lastAppliedBlock event).1.Clear) :=
    Or.inr fun hv => hv.blockQuorumTimeout c.lastAppliedBlock event
  unfold blockTimer
  split
  rename_i votes action heq
  rw [heq] at hvotes
  refine Calls.after_votes hvotes ?_
  cases action with
  | apply ev => exact calls_startLive _ _ ev
  | rejected =>
    dsimp only
    split
    · exact (calm_halt _ (by decide)).calls
    · exact (Calm.refl _).calls
  | nothing => exact (Calm.refl _).calls
  | refused => exact (Calm.refl _).calls
  | dropped => exact (Calm.refl _).calls

theorem calls_reorgTimer (c : ClientSync) {height : Int} {entry : ReorgEntry} (he : d.evaluates)
    (hentry : c.reorgs.pendingReorgs height = some entry) :
    Calls cfg d c (c.reorgTimer cfg height entry) := by
  unfold reorgTimer
  split
  rename_i reorgs agreed heq
  have hcalm : Calm c { c with reorgs := reorgs } :=
    { Calm.refl c with reorgs := fun _ hr => (reorgQuorumTimeout_reports hr hentry heq).1 }
  cases agreed with
  | none => exact hcalm.calls
  | some a => exact hcalm.then_calls (calls_startRollback _ .reorgTimer _ he)

/-- The steps on which a cumulative depth may be evaluated: a source's reorg, a fork of the head,
a link that does not hold, the timer of a reorg and a range that does not build on the tip. -/
def evaluatesDepth (c : ClientSync) : Action → Bool
  | .reorg _ _ => true
  | .block event _ fork => fork && c.lastAppliedBlock = some event.block_index
  | .reorgTimer _ => true
  | .task id .bad =>
    match c.tasks id with
    | some ⟨_, .linkCheck _ _⟩ => true
    | _ => false
  | .runner .unresolved => true
  | _ => false

/-- The steps that record a source's report of the next block. -/
def reportsBlock (cfg : Config) (c : ClientSync) : Action → Bool
  | .block event i _ => c.votes.sourceQuorumActive cfg && !c.votes.isEvicted i &&
    match c.lastAppliedBlock with
    | none => event.block_index ≤ 0
    | some tip => event.block_index = tip + 1
  | .task id .ok =>
    match c.tasks id with
    | some ⟨_, .linkCheck _ _⟩ => cfg.dbType = .indexer
    | _ => false
  | _ => false

def doing (cfg : Config) (c : ClientSync) (a : Action) : Doing :=
  ⟨c.evaluatesDepth a, c.reportsBlock cfg a⟩

theorem calls_handleBlock (c : ClientSync) (event : BlockEvent) (i : SourceIndex) (fork : Bool) :
    Calls cfg (c.doing cfg (.block event i fork)) c (c.handleBlock cfg event i fork) := by
  unfold handleBlock
  split
  · split
    · exact calls_catchUpOnChain c
    · rename_i htip hle
      refine calls_blockQuorum c event i fun hq => ?_
      simp only [doing, reportsBlock, hq, htip, Bool.true_and, decide_eq_true_eq]
      omega
  · rename_i tip htip
    split
    · split
      · rename_i hf
        simp only [Bool.and_eq_true, decide_eq_true_eq] at hf
        exact calls_sourceReorg c _ i true (by simp [doing, evaluatesDepth, hf, htip])
      · exact (Calm.refl c).calls
    · split
      · exact calls_catchUpOnChain c
      · rename_i hnext
        split
        · exact calls_spawn c .chain _ trivial
        · refine calls_blockQuorum c event i fun hq => ?_
          simp only [doing, reportsBlock, hq, htip, Bool.true_and, decide_eq_true_eq]
          omega

end ClientSync

end XChainSync.Client
