import XChainSync.Client.RollbackDepth

/-!
# What a deep rewind rests on

A rollback deeper than the limit needs distinct active sources at quorum that reported the same
retroactive pair. `handleReorg` checks this as it accepts the rollback. Along settled runs in which no
source is evicted meanwhile, it still holds when the rows are deleted.
-/

namespace XChainSync.Client
set_option autoImplicit false

open Runs

namespace ClientSync
variable {cfg : Config} {c c' : ClientSync} {a : Action} {id : TaskId} {driver : Driver}
  {r : Rollback}

/-- At quorum, distinct sources, none of them evicted, have reported one pair with this target. -/
def Evidence (cfg : Config) (c : ClientSync) (target : Int) : Prop :=
  ∃ (rules_to : JsVal) (sources : List SourceIndex), sources.Nodup ∧
    c.votes.effectiveQuorum cfg ≤ sources.length ∧
      ∀ i ∈ sources, c.votes.isEvicted i = false ∧
        ⟨i, JsVal.ofHeight target, rules_to⟩ ∈ c.delivered

/-- Within the limit, or within the cap and with evidence. -/
def Warranted (cfg : Config) (c : ClientSync) (r : Rollback) (depth : Int) : Prop :=
  depth ≤ cfg.maxRollbackDepth ∨
    depth ≤ cfg.retroactiveCapBlocks ∧ c.Evidence cfg r.event.block_index

/-- The reports a rollback goes by were delivered by sources that are not evicted. -/
def Backs (c : ClientSync) (r : Rollback) : Prop :=
  ∀ report ∈ r.reports.getD [], report ∈ c.delivered ∧ c.votes.isEvicted report.source = false

/-- What the checks of `handleReorg` have seen is evidence. -/
theorem warranted_of_accepts {tip : Int} (hacc : c.Accepts cfg r) (hb : c.Backs r)
    (htip : c.lastAppliedBlock = some tip) :
    c.Warranted cfg r (c.guard.depthFor cfg.maxRollbackDepth tip r.event.block_index).2 := by
  obtain ⟨tip', htip', -, hle | hq⟩ := hacc
  all_goals obtain rfl : tip = tip' := Option.some.inj (htip.symm.trans htip')
  · exact Or.inl hle
  · obtain ⟨hcap, target, rules_to, hpair, hquorum⟩ := admitRetroactiveRewind_quorum hq
    refine Or.inr ⟨hcap, rules_to, agreeingSources target rules_to (r.reports.getD []),
      List.nodup_dedup _, hquorum, ?_⟩
    have htarget : target = JsVal.ofHeight r.event.block_index := by
      split at hpair
      · rename_i hclaim
        simp only [Bool.and_eq_true, decide_eq_true_eq] at hclaim
        exact (Prod.mk.inj (Option.some.inj hpair)).1.symm.trans hclaim.2
      · simp at hpair
    intro i hi
    simp only [agreeingSources, List.mem_dedup, List.mem_map, List.mem_filter, Bool.and_eq_true,
      decide_eq_true_eq] at hi
    obtain ⟨⟨source, t, rules⟩, ⟨hmem, rfl, rfl⟩, rfl⟩ := hi
    obtain ⟨hdel, hactive⟩ := hb _ hmem
    exact ⟨hactive, htarget ▸ hdel⟩

/-- Evidence stays while more is delivered and the evicted sources are the same. -/
theorem Warranted.mono {depth : Int} (h : c.Warranted cfg r depth)
    (hdel : c.delivered ⊆ c'.delivered) (hev : c'.votes.evicted = c.votes.evicted) :
    c'.Warranted cfg r depth := by
  rcases h with hle | ⟨hcap, rules_to, sources, hnodup, hquorum, hall⟩
  · exact Or.inl hle
  · refine Or.inr ⟨hcap, rules_to, sources, hnodup, ?_, ?_⟩
    · rw [Votes.effectiveQuorum_congr hev]
      exact hquorum
    · intro i hi
      obtain ⟨hactive, hmem⟩ := hall i hi
      rw [Votes.isEvicted_congr hev]
      exact ⟨hactive, hdel hmem⟩

/-! ### Reports across a step -/

theorem tasks_spawn {work : Work} {t : Task} (ht : (c.spawn driver work).tasks id = some t) :
    t = ⟨driver, work⟩ ∨ c.tasks id = some t := by
  simp only [spawn, setTask] at ht
  split at ht
  · exact Or.inl (Option.some.inj ht).symm
  · exact Or.inr ht

theorem reorgReturns_lockWait {driver' : Driver} {r' : Rollback}
    (ht : (c.reorgReturns driver' r').tasks id = some ⟨driver, .rollback r .lockWait⟩) :
    c.tasks id = some ⟨driver, .rollback r .lockWait⟩ := by
  unfold reorgReturns at ht
  split at ht
  · rcases tasks_spawn ht with h | h
    · simp at h
    · exact h
  · exact ht

theorem tasks_halt (c : ClientSync) (reason : HaltReason) : (c.halt reason).tasks = c.tasks := by
  unfold halt
  split <;> rfl

/-- `handleReorg` starts the rollback it was called for and no other. -/
theorem startRollback_lockWait {driver' : Driver} {r' : Rollback}
    (ht : (c.startRollback cfg driver' r').tasks id = some ⟨driver, .rollback r .lockWait⟩) :
    c.tasks id = some ⟨driver, .rollback r .lockWait⟩ ∨ r = r' := by
  unfold startRollback at ht
  split at ht
  · exact Or.inl (reorgReturns_lockWait ht)
  · split at ht
    rename_i guard verdict heq
    cases verdict with
    | ignored =>
      have h := reorgReturns_lockWait (c := { c with guard := guard }) ht
      exact Or.inl h
    | tooDeep =>
      have h := reorgReturns_lockWait (c := { c with guard := guard }.halt .maxRollbackDepth) ht
      rw [tasks_halt] at h
      exact Or.inl h
    | accepted =>
      rcases tasks_spawn ht with h | h
      · simp only [Task.mk.injEq, Work.rollback.injEq] at h
        exact Or.inr h.2.1
      · exact Or.inl h

/-- What decides evidence: the votes and the delivered reports. -/
def SameReports (c c' : ClientSync) : Prop := c'.votes = c.votes ∧ c'.delivered = c.delivered

theorem Backs.congr (h : c.Backs r) (hsame : SameReports c c') : c'.Backs r := by
  intro report hmem
  rw [hsame.1, hsame.2]
  exact h report hmem

theorem sameReports_reorgReturns (c : ClientSync) (driver : Driver) (r : Rollback) :
    SameReports c (c.reorgReturns driver r) := by
  unfold reorgReturns
  split <;> exact ⟨rfl, rfl⟩

theorem sameReports_halt (c : ClientSync) (reason : HaltReason) :
    SameReports c (c.halt reason) := by
  unfold halt
  split <;> exact ⟨rfl, rfl⟩

theorem sameReports_startRollback (c : ClientSync) (driver : Driver) (r : Rollback) :
    SameReports c (c.startRollback cfg driver r) := by
  unfold startRollback
  split
  · exact sameReports_reorgReturns c driver r
  · split
    rename_i guard verdict heq
    cases verdict with
    | ignored => exact sameReports_reorgReturns { c with guard := guard } driver r
    | tooDeep =>
      have hhalt := sameReports_halt { c with guard := guard } .maxRollbackDepth
      have hret := sameReports_reorgReturns ({ c with guard := guard }.halt .maxRollbackDepth)
        driver r
      exact ⟨hret.1.trans hhalt.1, hret.2.trans hhalt.2⟩
    | accepted => exact ⟨rfl, rfl⟩

/-- A rollback that `handleReorg` lets wait is backed if the one it was called for is. -/
theorem backs_startRollback {driver' : Driver} {r' : Rollback} (hb : c.Backs r')
    (ht : (c.startRollback cfg driver' r').tasks id = some ⟨driver, .rollback r .lockWait⟩) :
    c.tasks id = some ⟨driver, .rollback r .lockWait⟩ ∨
      (c.startRollback cfg driver' r').Backs r := by
  rcases startRollback_lockWait ht with h | rfl
  · exact Or.inl h
  · exact Or.inr (hb.congr (sameReports_startRollback c driver' r))

theorem backs_sourceReorg {event : ReorgEvent} {i : SourceIndex} {rewind : Bool}
    (hr : c.ReportsDelivered)
    (ht : (c.sourceReorg cfg event i rewind).tasks id = some ⟨driver, .rollback r .lockWait⟩) :
    c.tasks id = some ⟨driver, .rollback r .lockWait⟩ ∨
      (c.sourceReorg cfg event i rewind).Backs r := by
  revert ht
  unfold sourceReorg
  split
  · exact Or.inl
  · split
    rename_i guard reorgs agreed heq
    have hmono := hr.mono fun report hmem => List.mem_append_left [event.report i] hmem
    have hagreed := (handleSourceReorg_reports hmono (by simp) heq).2
    cases agreed with
    | none => exact Or.inl
    | some a =>
      have hb : Backs { c with
          guard := guard, reorgs := reorgs, delivered := c.delivered ++ [event.report i] }
          ⟨a.event, some a.reports, a.rewind⟩ := hagreed a rfl
      exact backs_startRollback hb

theorem backs_reorgTimer {height : Int} {entry : ReorgEntry} (hr : c.ReportsDelivered)
    (hentry : c.reorgs.pendingReorgs height = some entry)
    (ht : (c.reorgTimer cfg height entry).tasks id = some ⟨driver, .rollback r .lockWait⟩) :
    c.tasks id = some ⟨driver, .rollback r .lockWait⟩ ∨ (c.reorgTimer cfg height entry).Backs r := by
  revert ht
  unfold reorgTimer
  split
  rename_i reorgs agreed heq
  have hagreed := (reorgQuorumTimeout_reports hr hentry heq).2
  cases agreed with
  | none => exact Or.inl
  | some a =>
    have hb : Backs { c with reorgs := reorgs } ⟨a.event, some a.reports, a.rewind⟩ :=
      hagreed a rfl
    exact backs_startRollback hb

theorem backs_rewindIfCatchUpForked {dbTip : Int}
    (ht : (c.rewindIfCatchUpForked cfg dbTip).tasks id = some ⟨driver, .rollback r .lockWait⟩) :
    c.tasks id = some ⟨driver, .rollback r .lockWait⟩ ∨
      (c.rewindIfCatchUpForked cfg dbTip).Backs r := by
  have hb : c.Backs ⟨⟨dbTip, .plain .undefined⟩, none, false⟩ := by simp [Backs]
  revert ht
  unfold rewindIfCatchUpForked
  dsimp only
  split <;> exact backs_startRollback hb

/-- The one step of the runner that finds the range forked. -/
theorem runnerStep_unresolved {x : Runner} {pc : RunnerPc}
    (h : c.runnerStep cfg x pc .unresolved = some c') :
    ∃ dbTip, c' = c.rewindIfCatchUpForked cfg dbTip := by
  cases pc with
  | trainGate dbTip s =>
    cases dbTip with
    | none => simp [runnerStep] at h
    | some tip =>
      simp only [runnerStep] at h
      split at h
      · exact ⟨tip, (Option.some.inj h).symm⟩
      · simp at h
  | full pc => cases pc <;> simp [runnerStep, fullStep] at h
  | window pc => cases pc <;> simp [runnerStep, windowStep] at h
  | _ => simp [runnerStep] at h

/-- A rollback that a step has let wait for the lock goes by delivered reports. -/
theorem step_backs (hr : c.ReportsDelivered) (h : Steps cfg c a c') (he : c.evaluatesDepth a)
    (ht : c'.tasks id = some ⟨driver, .rollback r .lockWait⟩) :
    c.tasks id = some ⟨driver, .rollback r .lockWait⟩ ∨ c'.Backs r := by
  unfold evaluatesDepth at he
  split at he
  · simp only [Steps, step, onChain] at h
    split at h
    · obtain rfl := Option.some.inj h
      exact backs_sourceReorg hr ht
    · simp at h
  · simp only [Bool.and_eq_true, decide_eq_true_eq] at he
    obtain ⟨rfl, htip⟩ := he
    simp only [Steps, step, onChain] at h
    split at h
    · obtain rfl := Option.some.inj h
      simp only [handleBlock, htip, Int.le_refl, if_true, decide_true, Bool.and_self] at ht ⊢
      exact backs_sourceReorg hr ht
    · simp at h
  · simp only [Steps, step] at h
    split at h
    · rename_i hentry
      split at h
      · obtain rfl := Option.some.inj h
        exact backs_reorgTimer hr hentry ht
      · simp at h
    · simp at h
  · rename_i j
    split at he
    · rename_i driver' event i hj
      simp only [Steps, step, taskStep, hj, linkChecked] at h
      split at h
      · obtain rfl := Option.some.inj h
        have hcalm := calm_endTask c j driver'
        rcases backs_sourceReorg (hcalm.reportsDelivered hr) ht with h | h
        · exact Or.inl (rollbacksFrom_calm hcalm id driver r _ h trivial)
        · exact Or.inr h
      · simp at h
    · simp at he
  · simp only [Steps, step] at h
    split at h
    · obtain ⟨dbTip, rfl⟩ := runnerStep_unresolved h
      exact backs_rewindIfCatchUpForked ht
    · simp at h
  · simp at he

/-! ### Delivered reports -/

/-- More reports may be delivered, and the held ones still are. -/
def MoreReports (c c' : ClientSync) : Prop :=
  c.delivered ⊆ c'.delivered ∧ (c.ReportsDelivered → c'.ReportsDelivered)

theorem moreReports_of_eq (hd : c'.delivered = c.delivered) (hr : c'.reorgs = c.reorgs) :
    MoreReports c c' := by
  unfold MoreReports ReportsDelivered
  rw [hd, hr]
  exact ⟨List.Subset.refl _, fun h => h⟩

theorem moreReports_calm (hc : Calm c c') : MoreReports c c' :=
  ⟨hc.delivered ▸ List.Subset.refl _, hc.reportsDelivered⟩

theorem moreReports_calls {e : Doing} (hc : Calls cfg e c c') : MoreReports c c' :=
  ⟨hc.delivered, hc.reorgs⟩

theorem moreReports_noted (hn : Noted cfg c c') : MoreReports c c' := by
  obtain ⟨c₁, hn, hc⟩ := hn
  have h₁ := moreReports_of_eq hn.delivered hn.reorgs
  exact ⟨List.Subset.trans h₁.1 hc.delivered, fun h => hc.reorgs (h₁.2 h)⟩

theorem live_moreReports {o : Outcome} {event : BlockEvent} {pc : LivePc}
    (hs : LiveStep cfg c id driver event pc o c') : MoreReports c c' := by
  cases hs with
  | tail hc hh hpc =>
    have h := moreReports_calm hc
    exact h
  | apply hl hpc =>
    rw [applyBlock_eq]
    exact moreReports_of_eq rfl rfl
  | recomputed =>
    have hn := notes_recomputePassed c event.block_index
    exact moreReports_of_eq (hn _).delivered (hn _).reorgs
  | diverged =>
    have hn := notes_halt c .stateHash
    have hc := calm_endTask (c.halt .stateHash) id driver
    have h₁ := moreReports_of_eq hn.delivered hn.reorgs
    exact ⟨List.Subset.trans h₁.1 (hc.delivered ▸ List.Subset.refl _),
      fun h => hc.reportsDelivered (h₁.2 h)⟩
  | quit hc hgone hk => exact moreReports_calm hc
  | _ => exact moreReports_of_eq rfl rfl

theorem step_moreReports (h : Steps cfg c a c') (hcrash : ∀ haltKept, a ≠ .crash haltKept) :
    MoreReports c c' := by
  cases step_cases h with
  | calls hc he => exact moreReports_calls hc
  | live ht hs => exact live_moreReports hs
  | rollback ht hs =>
    cases hs with
    | fail hc hid hk =>
      have h := moreReports_calls (hc .nothing)
      exact h
    | returns hc hid hk => exact moreReports_calls (hc .nothing)
    | _ => exact moreReports_of_eq rfl rfl
  | @runner x _ _ ha hr hs =>
    obtain ⟨before, pc⟩ := x
    cases hs with
    | moves hc hh hr' hm hk =>
      have h := moreReports_calm hc
      exact h
    | idles hc hk hr' => exact moreReports_calls hc
    | fresh =>
      unfold startVerifiedTipBelow
      split <;> exact moreReports_of_eq rfl rfl
    | _ => exact moreReports_of_eq rfl rfl
  | walk hw hs => exact moreReports_noted (noted_walkStep hs)
  | marker hs =>
    have hn : MarkerNoted cfg c c' := markerNoted_markerStep hs
    exact moreReports_noted hn.noted
  | cleared hh =>
    unfold cleared
    dsimp only
    split <;> exact moreReports_of_eq rfl rfl
  | crash => exact absurd rfl (hcrash _)

theorem step_reportsDelivered (hr : c.ReportsDelivered) (h : Steps cfg c a c') :
    c'.ReportsDelivered := by
  by_cases hcrash : ∃ haltKept, a = .crash haltKept
  · obtain ⟨haltKept, rfl⟩ := hcrash
    obtain rfl := Option.some.inj h
    exact ReorgVotes.reported_init
  · exact (step_moreReports h fun haltKept ha => hcrash ⟨haltKept, ha⟩).2 hr

/-! ### Runs -/

/-- No source is evicted while a rollback is in flight. -/
def KeepsSources (cfg : Config) (c : ClientSync) (a : Action) : Prop :=
  ∀ c', Steps cfg c a c' → (∃ id, c.InFlight id) → (∃ id, c'.InFlight id) →
    c'.votes.evicted = c.votes.evicted

theorem step_warranted (hi : Tracks cfg.maxRollbackDepth (c.Warranted cfg) c)
    (hr : c.ReportsDelivered) (hok : Settled c a) (hkeep : KeepsSources cfg c a)
    (h : Steps cfg c a c') : Tracks cfg.maxRollbackDepth (c'.Warranted cfg) c' := by
  have hnew : c.evaluatesDepth a → (∀ id, ¬ c.InFlight id) → ∀ id driver r tip,
      c'.tasks id = some ⟨driver, .rollback r .lockWait⟩ → c'.Accepts cfg r →
        c'.lastAppliedBlock = some tip →
          c'.Warranted cfg r (c'.guard.depthFor cfg.maxRollbackDepth tip r.event.block_index).2 := by
    intro he hidle id driver r tip ht hacc htip
    rcases step_backs hr h he ht with h₀ | hb
    · exact absurd ⟨driver, r, _, h₀, trivial⟩ (hidle id)
    · exact warranted_of_accepts hacc hb htip
  by_cases hidle' : ∃ id, c'.InFlight id
  · by_cases hidle : ∃ id, c.InFlight id
    · have hev := hkeep c' h hidle hidle'
      have hcrash : ∀ haltKept, a ≠ .crash haltKept := by
        rintro haltKept rfl
        obtain rfl := Option.some.inj h
        obtain ⟨id, hf⟩ := hidle'
        exact not_inFlight_restart _ _ id hf
      have hdel := (step_moreReports h hcrash).1
      exact step_tracks hi (fun _ _ hw => hw.mono hdel hev) hnew hok h
    · have hnone : Tracks cfg.maxRollbackDepth (fun _ _ => False) c :=
        tracks_of_idle fun id hf => hidle ⟨id, hf⟩
      exact step_tracks hnone (fun _ _ hf => hf.elim) hnew hok h
  · exact tracks_of_idle fun id hf => hidle' ⟨id, hf⟩

/-- The rollback a step executes is recorded in the stored guard. Deeper than the limit, it is within
the cap and has evidence. -/
theorem executed_rewind_has_evidence {db : Replica} {halted : Option HaltReason} {target : Int}
    (h : Run (Steps cfg) (fun c a => Settled c a ∧ KeepsSources cfg c a) (restart db halted) c)
    (hk : c.committing a = some (.rollback target)) :
    ∃ s, c.guard = some s ∧ c.db.rollback_guard = some s ∧
      (cfg.maxRollbackDepth < s.peak - target + 1 →
        s.peak - target + 1 ≤ cfg.retroactiveCapBlocks ∧ c.Evidence cfg target) := by
  have hinv : Tracks cfg.maxRollbackDepth (c.Warranted cfg) c ∧ c.ReportsDelivered := by
    refine h.invariant (I := fun c => Tracks cfg.maxRollbackDepth (c.Warranted cfg) c ∧
      c.ReportsDelivered) ⟨tracks_of_idle (not_inFlight_restart db halted),
        ReorgVotes.reported_init⟩ ?_
    rintro c a c' ⟨hi, hr⟩ ⟨hok, hkeep⟩ hs
    exact ⟨step_warranted hi hr hok hkeep hs, step_reportsDelivered hr hs⟩
  cases committing_cases hk with
  | @rollback id driver r ht =>
    obtain ⟨hsame, hsome, hw⟩ := hinv.1.deleting id driver r ht
    obtain ⟨s, hs⟩ := Option.isSome_iff_exists.mp hsome
    refine ⟨s, hs, hsame ▸ hs, ?_⟩
    intro hdeep
    simp only [recordedDepth, hs, Option.map_some, Option.getD_some] at hw
    rcases hw with hle | hev
    · omega
    · exact hev

/-- Two sources, a limit of one block, and retroactive rewinds of 432 blocks at most. -/
def limitOne : Config := { majorityOf 2 with maxRollbackDepth := 1, retroactiveCapBlocks := 432 }

/-- The rollback of block 10 is accepted while a pass waits to commit block 11. It is recorded and
executed after that commit, two blocks deep, and neither source has claimed a retroactive rewind. -/
theorem overtaken_rewind_lacks_evidence :
    ¬ ∀ (cfg : Config) (db : Replica) (halted : Option HaltReason) (c : ClientSync) (a : Action)
      (target : Int) (s : Streak), 1 < cfg.sources → Run (Steps cfg) Any (restart db halted) c →
        c.committing a = some (.rollback target) → c.guard = some s →
          cfg.maxRollbackDepth < s.peak - target + 1 →
            s.peak - target + 1 ≤ cfg.retroactiveCapBlocks ∧ c.Evidence cfg target := by
  intro hall
  have hexec : ((execAll (step limitOne) Any
      (restart (Replica.verified [8, 9, 10] (some 10)) none)
      (passToDownload ++ [.runnerGets ⟨[11], some 11, some 11⟩, .runner .ok] ++ bothReport 10 ++
        [.runner .ok, .runner .ok, .task 0 .ok, .markerWrite .ok, .markerWrite .ok, .task 0 .ok,
          .task 0 .ok])).map fun c =>
        (c.committing (.task 0 .ok), c.guard, c.votes.evicted, c.delivered)) =
          some (some (.rollback 10), some ⟨11, 10⟩, [],
            [⟨0, .undefined, .undefined⟩, ⟨1, .undefined, .undefined⟩]) := by
    decide +kernel
  obtain ⟨c, hc, hstate⟩ := Option.map_eq_some_iff.mp hexec
  simp only [Prod.mk.injEq] at hstate
  obtain ⟨hk, hguard, hev, hdel⟩ := hstate
  have hevidence := hall limitOne _ none c _ 10 ⟨11, 10⟩ (by decide) (run_execAll hc) hk hguard
    (by decide)
  obtain ⟨-, rules_to, sources, -, hquorum, hreported⟩ := hevidence
  -- a quorum is not empty, and no delivered report has a target
  have hpos : 0 < sources.length := by
    have htwo : c.votes.effectiveQuorum limitOne = 2 := by
      rw [Votes.effectiveQuorum_congr (v := Votes.init) hev]
      decide
    omega
  obtain ⟨i, hi⟩ := List.exists_mem_of_length_pos hpos
  have hmem := (hreported i hi).2
  rw [hdel] at hmem
  simp [JsVal.ofHeight] at hmem

def clearsHalt : Action → Bool
  | .clearHalt => true
  | _ => false

/-- Steps that evaluate no depth, change no rows, clear no halt and evict no source, at the stored
tip. -/
def Quiet (cfg : Config) (c : ClientSync) (a : Action) : Prop :=
  (c.evaluatesDepth a = false ∧ c.committing a = none ∧ clearsHalt a = false) ∧
    c.lastAppliedBlock = c.db.tip ∧
      (c.step cfg a).all (fun c' => c'.votes.evicted = c.votes.evicted)

instance (c : ClientSync) (a : Action) : Decidable (Quiet cfg c a) :=
  inferInstanceAs (Decidable (_ ∧ _ ∧ _))

theorem Quiet.settled (h : Quiet cfg c a) : Settled c a where
  evaluates := fun he => by simp [h.1.1] at he
  records := fun _ => h.2.1
  commits := fun k hk => by simp [h.1.2.1] at hk
  clears := by
    rintro rfl
    exact absurd h.1.2.2 (by decide)

theorem Quiet.keepsSources (h : Quiet cfg c a) : KeepsSources cfg c a := by
  intro c' hs _ _
  have hall := h.2.2
  rw [show c.step cfg a = some c' from hs] at hall
  simpa using hall

theorem keepsSources_of_idle (hidle : ∀ id, ¬ c.InFlight id) : KeepsSources cfg c a := by
  rintro c' - ⟨id, hf⟩
  exact absurd hf (hidle id)

/-- A retroactive rewind of block 9. -/
def claimNine : ReorgEvent := ⟨9, .claim (JsVal.ofHeight 9) (.str "v2")⟩

/-- Both sources claim the same rewind of block 9, two blocks deep. -/
theorem executed_rewind_of_nine : ∃ c : ClientSync,
    c.committing (.task 0 .ok) = some (.rollback 9) ∧ (∃ s, c.guard = some s ∧
      1 < s.peak - 9 + 1 ∧ s.peak - 9 + 1 ≤ 432) ∧ c.Evidence limitOne 9 := by
  let first := following.sourceReorg limitOne claimNine 0 false
  let second := first.sourceReorg limitOne claimNine 1 false
  have hidle : ∀ id, ¬ following.InFlight id :=
    not_inFlight_restart (Replica.verified [8, 9, 10] (some 10)) none
  have hidle' : ∀ id, ¬ first.InFlight id := hidle
  have hrun : Run (Steps limitOne) (fun c a => Settled c a ∧ KeepsSources limitOne c a)
      (restart (Replica.verified [8, 9, 10] (some 10)) none) second := by
    have hstart : Run (Steps limitOne) (fun c a => Settled c a ∧ KeepsSources limitOne c a)
        (restart (Replica.verified [8, 9, 10] (some 10)) none) following :=
      .tail .refl ⟨settled_of_idle (not_inFlight_restart _ _) rfl,
        keepsSources_of_idle (not_inFlight_restart _ _)⟩ (e := .beginLiveFollow) rfl
    have hfirst := Run.tail hstart ⟨settled_of_idle hidle rfl, keepsSources_of_idle hidle⟩
      (show Steps limitOne following (.reorg claimNine 0) first from rfl)
    exact .tail hfirst ⟨settled_of_idle hidle' rfl, keepsSources_of_idle hidle'⟩
      (show Steps limitOne first (.reorg claimNine 1) second from rfl)
  have hexec : ((execAll (step limitOne) (Quiet limitOne) second
      [.task 0 .ok, .task 0 .ok, .task 0 .ok, .markerWrite .ok, .markerWrite .ok, .task 0 .ok,
        .task 0 .ok]).map fun c => (c.committing (.task 0 .ok), c.guard)) =
          some (some (.rollback 9), some ⟨10, 9⟩) := by
    decide +kernel
  obtain ⟨c, hc, hstate⟩ := Option.map_eq_some_iff.mp hexec
  obtain ⟨hk, hguard⟩ := Prod.mk.inj hstate
  have hrun' := hrun.trans ((run_execAll hc).mono fun c a hq => ⟨hq.settled, hq.keepsSources⟩)
  obtain ⟨s, hs, -, hevidence⟩ := executed_rewind_has_evidence hrun' hk
  obtain rfl : s = ⟨10, 9⟩ := Option.some.inj (hs.symm.trans hguard)
  exact ⟨c, hk, ⟨_, hs, by decide, by decide⟩, (hevidence (by decide)).2⟩

end ClientSync

end XChainSync.Client
