import XChainSync.Client.VoteFrames

/-!
# Unwinds under strict confirmation

Beside the client stands what the sources have claimed: which source has claimed a reorg at which
height, by a report, by a forked head or by a parent link that does not hold. Under strict
confirmation rows are rolled back once a quorum of active sources has claimed the height, in every run
whose catch-up ranges build on the tip. A decoder whose range does not is rewound on that range alone.
-/

namespace XChainSync.Client
set_option autoImplicit false

open Runs

/-! ### Held votes -/

/-- Every held height has been claimed by its voters, each of them once. -/
def ReorgVotes.Held (claims : List (Int × SourceIndex)) (r : ReorgVotes) : Prop :=
  ∀ height entry, r.pendingReorgs height = some entry →
    entry.event.block_index = height ∧ entry.votes.Nodup ∧ ∀ i ∈ entry.votes, (height, i) ∈ claims

namespace ReorgVotes
variable {claims : List (Int × SourceIndex)} {r : ReorgVotes}

theorem held_init : init.Held claims := by
  intro height entry he
  simp [init] at he

theorem Held.mono (h : r.Held claims) (more : List (Int × SourceIndex)) :
    r.Held (claims ++ more) := by
  intro height entry he
  obtain ⟨hevent, hnodup, hvotes⟩ := h height entry he
  exact ⟨hevent, hnodup, fun i hi => List.mem_append_left _ (hvotes i hi)⟩

theorem Held.put (h : r.Held claims) (height : Int) {entry : Option ReorgEntry}
    (hentry : ∀ e, entry = some e → e.event.block_index = height ∧ e.votes.Nodup ∧
      ∀ i ∈ e.votes, (height, i) ∈ claims) : (r.put height entry).Held claims := by
  intro height' e he
  simp only [ReorgVotes.put] at he
  split at he
  · rename_i heq
    subst heq
    exact hentry e he
  · exact h height' e he

theorem Held.clearPendingReorg (h : r.Held claims) (height : Int) :
    (r.clearPendingReorg height).Held claims := by
  have hput : (r.put height none).Held claims := h.put height (by simp)
  exact hput

theorem Held.prune (h : r.Held claims) (lastAppliedBlock : Option Int) :
    (r.prune lastAppliedBlock).Held claims := by
  unfold ReorgVotes.prune
  split
  · exact h
  · intro height entry he
    dsimp only at he
    split at he
    · simp at he
    · exact h height entry he

/-- A vote of `i` at a height it has claimed. -/
theorem Held.recordReorgVote (h : r.Held claims) {event : ReorgEvent} {i : SourceIndex}
    (hclaim : (event.block_index, i) ∈ claims) (rewind : Bool) :
    (r.recordReorgVote event i rewind).event.block_index = event.block_index ∧
      (r.recordReorgVote event i rewind).votes.Nodup ∧
        ∀ j ∈ (r.recordReorgVote event i rewind).votes, (event.block_index, j) ∈ claims := by
  have hentry : ∀ e, e = (r.pendingReorgs event.block_index).getD ⟨[], false, event, false, []⟩ →
      e.event.block_index = event.block_index ∧ e.votes.Nodup ∧
        ∀ j ∈ e.votes, (event.block_index, j) ∈ claims := by
    rintro e rfl
    cases he : r.pendingReorgs event.block_index with
    | none => simp
    | some entry => exact h _ entry he
  obtain ⟨hevent, hnodup, hvotes⟩ := hentry _ rfl
  refine ⟨hevent, ?_, ?_⟩
  · simp only [ReorgVotes.recordReorgVote]
    split
    · exact hnodup
    · rename_i hnew
      exact List.nodup_append.mpr ⟨hnodup, List.nodup_singleton i, by
        rintro a ha b hb rfl
        exact hnew (List.mem_singleton.mp hb ▸ ha)⟩
  · intro j hj
    simp only [ReorgVotes.recordReorgVote] at hj
    split at hj
    · exact hvotes j hj
    · rcases List.mem_append.mp hj with hj | hj
      · exact hvotes j hj
      · rw [List.mem_singleton.mp hj]
        exact hclaim

end ReorgVotes

/-- At quorum, distinct sources, none of them evicted, have claimed a reorg at the height. -/
def Votes.QuorumClaimed (cfg : Config) (v : Votes) (claims : List (Int × SourceIndex))
    (height : Int) : Prop :=
  ∃ sources : List SourceIndex, sources.Nodup ∧ v.effectiveQuorum cfg ≤ sources.length ∧
    ∀ i ∈ sources, v.isEvicted i = false ∧ (height, i) ∈ claims

theorem Votes.QuorumClaimed.congr {cfg : Config} {v v' : Votes} {claims : List (Int × SourceIndex)}
    {height : Int} (h : v.QuorumClaimed cfg claims height) (hev : v'.evicted = v.evicted) :
    v'.QuorumClaimed cfg claims height := by
  obtain ⟨sources, hnodup, hquorum, hclaimed⟩ := h
  refine ⟨sources, hnodup, ?_, fun i hi => ⟨?_, (hclaimed i hi).2⟩⟩
  · rw [Votes.effectiveQuorum_congr hev]
    exact hquorum
  · rw [Votes.isEvicted_congr hev]
    exact (hclaimed i hi).1

theorem Votes.quorumClaimed_of_active {cfg : Config} {v : Votes}
    {claims : List (Int × SourceIndex)} {height : Int} {entry : ReorgEntry}
    (hnodup : entry.votes.Nodup) (hvotes : ∀ i ∈ entry.votes, (height, i) ∈ claims)
    (hquorum : v.effectiveQuorum cfg ≤ entry.activeReorgVotes v) :
    v.QuorumClaimed cfg claims height := by
  refine ⟨entry.votes.filter fun i => !v.isEvicted i, hnodup.filter _, hquorum, ?_⟩
  intro i hi
  simp only [List.mem_filter, Bool.not_eq_true'] at hi
  exact ⟨hi.2, hvotes i hi.1⟩

/-- Where the quorum is active a report is held or agreed at quorum. -/
theorem handleSourceReorg_claims {cfg : Config} {v : Votes} {g g' : RollbackGuard}
    {lastAppliedBlock : Option Int} {r r' : ReorgVotes} {event : ReorgEvent} {i : SourceIndex}
    {rewind : Bool} {agreed : Option AgreedReorg} {claims : List (Int × SourceIndex)}
    (hactive : sourceReorgQuorumActive cfg v = true) (hr : r.Held claims)
    (hclaim : (event.block_index, i) ∈ claims)
    (h : handleSourceReorg cfg v g lastAppliedBlock r event i rewind = (g', r', agreed)) :
    r'.Held claims ∧ ∀ a, agreed = some a →
      a.event.block_index = event.block_index ∧ v.QuorumClaimed cfg claims event.block_index := by
  obtain ⟨hevent, hnodup, hvotes⟩ := hr.recordReorgVote hclaim rewind
  have hhold : ∀ entry, entry.event.block_index = event.block_index → entry.votes.Nodup →
      (∀ j ∈ entry.votes, (event.block_index, j) ∈ claims) →
        (r.put event.block_index (some entry)).Held claims := by
    intro entry he hn hv
    refine hr.put _ ?_
    rintro e he'
    obtain rfl := Option.some.inj he'
    exact ⟨he, hn, hv⟩
  revert h
  fun_cases handleSourceReorg cfg v g lastAppliedBlock r event i rewind
  all_goals intro h
  all_goals obtain ⟨-, rfl, rfl⟩ := h
  · exact ⟨hr, by simp⟩
  · exact ⟨hr, by simp⟩
  · exact ⟨hr, by simp⟩
  · simp_all
  · exact ⟨hhold _ hevent hnodup hvotes, by simp⟩
  · refine ⟨hr.clearPendingReorg _, ?_⟩
    rintro a ha
    obtain rfl := Option.some.inj ha
    exact ⟨rfl, Votes.quorumClaimed_of_active hnodup hvotes (by assumption)⟩
  · refine ⟨hr.clearPendingReorg _, ?_⟩
    rintro a ha
    obtain rfl := Option.some.inj ha
    exact ⟨hevent, Votes.quorumClaimed_of_active hnodup hvotes (by assumption)⟩
  · exact ⟨hhold _ hevent hnodup hvotes, by simp⟩
  · exact ⟨hhold _ hevent hnodup hvotes, by simp⟩

/-- Under strict confirmation a timer agrees on nothing and drops no vote. -/
theorem reorgQuorumTimeout_strict {cfg : Config} {v : Votes} {r : ReorgVotes} {height : Int}
    {entry : ReorgEntry} (hstrict : cfg.HASH_CONFIRM_STRICT = true)
    (he : r.pendingReorgs height = some entry) :
    (∀ claims, r.Held claims → (reorgQuorumTimeout cfg v r height entry).1.Held claims) ∧
      (reorgQuorumTimeout cfg v r height entry).2 = none := by
  simp only [reorgQuorumTimeout, hstrict, if_true, and_true]
  intro claims hr
  have hput : (r.put height (some { entry with timer := false })).Held claims := by
    refine hr.put _ ?_
    rintro e he'
    obtain rfl := Option.some.inj he'
    exact hr height entry he
  exact hput

namespace ClientSync
variable {cfg : Config} {c c' c'' : ClientSync} {a : Action} {id : TaskId} {driver : Driver}
  {r : Rollback} {claims : List (Int × SourceIndex)}

/-! ### Steps without a claim -/

/-- Held votes stay claimed, and two sources stay active. -/
structure KeepsVotes (cfg : Config) (c c' : ClientSync) : Prop where
  held : ∀ claims, c.reorgs.Held claims → c'.reorgs.Held claims
  active : min 2 cfg.sources ≤ c.votes.activeSourceCount cfg →
    min 2 cfg.sources ≤ c'.votes.activeSourceCount cfg

theorem KeepsVotes.trans (h : KeepsVotes cfg c c') (h' : KeepsVotes cfg c' c'') :
    KeepsVotes cfg c c'' :=
  ⟨fun claims hc => h'.held claims (h.held claims hc), fun ha => h'.active (h.active ha)⟩

theorem PrunesVotes.keeps (h : PrunesVotes c c') : KeepsVotes cfg c c' where
  held claims hc := by
    rcases h.reorgs with heq | ⟨tip, heq⟩
    · exact heq ▸ hc
    · exact heq ▸ hc.prune tip
  active ha := by
    rw [Votes.activeSourceCount_congr h.evicted]
    exact ha

theorem SameVotes.keeps (h : SameVotes c c') : KeepsVotes cfg c c' := h.prunes.keeps

/-- The block votes change as they do on an arrival or a timeout. -/
theorem keepsVotes_next (c : ClientSync) {votes : Votes} (e : VoteEvent)
    (h : votes = c.votes.next cfg e) : KeepsVotes cfg c { c with votes := votes } where
  held _ hc := hc
  active ha := by
    subst h
    exact Votes.next_active ha e

theorem keepsVotes_blockQuorum (c : ClientSync) (event : BlockEvent) (i : SourceIndex) :
    KeepsVotes cfg c (c.blockQuorum cfg event i) := by
  have hvotes : KeepsVotes cfg c { c with votes := (c.votes.handleBlockQuorum cfg event i).1 } :=
    keepsVotes_next c (.arrive event i) rfl
  refine hvotes.trans ?_
  unfold blockQuorum
  dsimp only
  split
  · exact (sameVotes_startLive _ _ _).keeps
  · exact (sameVotes_startLive _ _ _).keeps
  · split
    · exact (sameVotes_halt _ _).keeps
    · exact (SameVotes.refl _).keeps
  · exact (SameVotes.refl _).keeps

theorem keepsVotes_blockTimer (c : ClientSync) {height : Int} {event : BlockEvent}
    (htimer : c.votes.applyTimers height = some event) :
    KeepsVotes cfg c (c.blockTimer cfg event) := by
  have hvotes : KeepsVotes cfg c
      { c with votes := (c.votes.blockQuorumTimeout cfg c.lastAppliedBlock event).1 } :=
    keepsVotes_next c (.timeout height c.lastAppliedBlock) (by simp [Votes.next, htimer])
  refine hvotes.trans ?_
  unfold blockTimer
  dsimp only
  split
  · exact (sameVotes_startLive _ _ _).keeps
  · split
    · exact (sameVotes_halt _ _).keeps
    · exact (SameVotes.refl _).keeps
  · exact (SameVotes.refl _).keeps

theorem keepsVotes_reorgTimer (hstrict : cfg.HASH_CONFIRM_STRICT = true) {height : Int}
    {entry : ReorgEntry} (he : c.reorgs.pendingReorgs height = some entry) :
    KeepsVotes cfg c (c.reorgTimer cfg height entry) ∧
      (c.reorgTimer cfg height entry).tasks = c.tasks := by
  obtain ⟨hheld, hagreed⟩ := reorgQuorumTimeout_strict (v := c.votes) hstrict he
  unfold reorgTimer
  dsimp only
  rw [hagreed]
  exact ⟨⟨hheld, fun ha => ha⟩, rfl⟩

/-! ### What sources claim -/

/-- The claims an action makes: a report, a forked head, or a parent link that does not hold. -/
def claimed (c : ClientSync) : Action → List (Int × SourceIndex)
  | .reorg event i => [(event.block_index, i)]
  | .block event i fork =>
    if fork && c.lastAppliedBlock = some event.block_index then [(event.block_index, i)] else []
  | .task id .bad =>
    match c.tasks id, c.lastAppliedBlock with
    | some ⟨_, .linkCheck _ i⟩, some tip => [(tip, i)]
    | _, _ => []
  | _ => []

/-- Accepted rollbacks were accepted before, if not at the same point. -/
def Follows (c c' : ClientSync) : Prop :=
  ∀ id driver r pc, c'.tasks id = some ⟨driver, .rollback r pc⟩ → pc.Accepted →
    ∃ pc₀ : RollbackPc, pc₀.Accepted ∧ c.tasks id = some ⟨driver, .rollback r pc₀⟩

theorem RollbacksFrom.follows (h : RollbacksFrom c c') : Follows c c' :=
  fun id driver r pc ht hpc => ⟨pc, hpc, h id driver r pc ht hpc⟩

/-- A rollback goes on under its own task. -/
theorem follows_setRollback {c₁ : ClientSync} {pc pc' : RollbackPc}
    (ht : c.tasks id = some ⟨driver, .rollback r pc⟩) (hpc : pc.Accepted)
    (htasks : c₁.tasks = c.tasks) : Follows c (c₁.setRollback id driver r pc') := by
  intro j driver' r' pc'' ht' hpc'
  simp only [setRollback, setTask] at ht'
  split at ht'
  · rename_i hj
    subst hj
    simp only [Option.some.injEq, Task.mk.injEq, Work.rollback.injEq] at ht'
    obtain ⟨rfl, rfl, -⟩ := ht'
    exact ⟨pc, hpc, ht⟩
  · exact ⟨pc'', hpc', htasks ▸ ht'⟩

/-- No rollback is accepted where no depth is evaluated. -/
theorem step_follows (h : Steps cfg c a c') (he : c.evaluatesDepth a = false) : Follows c c' := by
  have hcalls : ∀ {d : Doing} {c₁ : ClientSync}, Calls cfg d c₁ c' → ¬ d.evaluates →
      c₁.tasks = c.tasks → Follows c c' := by
    intro d c₁ hc hd htasks
    exact ((rollbacksFrom_of_eq htasks).trans (rollbacksFrom_calls hc hd)).follows
  have hnot : ¬ (c.doing cfg a).evaluates := by simp [doing, he]
  have hnoted : Noted cfg c c' → Follows c c' := by
    rintro ⟨c₁, hn, hc⟩
    exact hcalls hc not_false hn.tasks
  cases step_cases h with
  | calls hc _ => exact hcalls hc hnot rfl
  | live _ hs => exact (live_rollbacksFrom hs).1.follows
  | rollback ht hs =>
    cases hs with
    | fail hc hid hk => exact hcalls (hc .nothing) not_false rfl
    | returns hc hid hk => exact hcalls (hc .nothing) not_false rfl
    | delete => exact follows_setRollback ht trivial rfl
    | move =>
      refine (rollbacksFrom_setTask c _ ?_).follows
      rintro driver r pc ht hpc
      simp only [Task.mk.injEq, Work.rollback.injEq] at ht
      rw [← ht.2.2] at hpc
      exact hpc
    | _ => exact follows_setRollback ht trivial rfl
  | @runner x _ _ ha hr hs =>
    obtain ⟨before, pc⟩ := x
    cases hs with
    | moves hc hh hr' hm hk =>
      have hfrom := rollbacksFrom_calm hc
      exact hfrom.follows
    | idles hc hk hr' => exact hcalls hc hnot rfl
    | fresh =>
      refine (rollbacksFrom_of_eq ?_).follows
      unfold startVerifiedTipBelow
      split <;> rfl
    | _ => exact (rollbacksFrom_of_eq rfl).follows
  | walk hw hs => exact hnoted (noted_walkStep hs)
  | marker hs =>
    have hn : MarkerNoted cfg c c' := markerNoted_markerStep hs
    exact hnoted hn.noted
  | cleared hh =>
    refine (rollbacksFrom_of_eq ?_).follows
    unfold cleared
    dsimp only
    split <;> rfl
  | crash =>
    intro id driver r pc ht
    simp [restart] at ht

/-! ### Every step -/

/-- A step on which a source claims a reorg. -/
structure ClaimsReorg (cfg : Config) (c : ClientSync) (a : Action) (c' : ClientSync) (c₁ : ClientSync)
    (event : ReorgEvent) (i : SourceIndex) (rewind : Bool) : Prop where
  same : SameVotes c c₁
  rollbacks : RollbacksFrom c c₁
  claimed : c.claimed a = [(event.block_index, i)]
  source : c' = c₁.sourceReorg cfg event i rewind

/-- A step takes a claim, or keeps the votes and accepts no rollback. -/
def Classified (cfg : Config) (c : ClientSync) (a : Action) (c' : ClientSync) : Prop :=
  (KeepsVotes cfg c c' ∧ Follows c c') ∨ ∃ c₁ event i rewind, ClaimsReorg cfg c a c' c₁ event i rewind

theorem classified_block {event : BlockEvent} {i : SourceIndex} {fork : Bool}
    (h : Steps cfg c (.block event i fork) c') : Classified cfg c (.block event i fork) c' := by
  have hfollows := step_follows h
  simp only [Steps, step, onChain] at h
  split at h
  · obtain rfl := Option.some.inj h
    by_cases hclaim : fork && c.lastAppliedBlock = some event.block_index
    · simp only [Bool.and_eq_true, decide_eq_true_eq] at hclaim
      obtain ⟨rfl, htip⟩ := hclaim
      refine Or.inr ⟨c, ⟨event.block_index, .plain .undefined⟩, i, true, .refl c,
        rollbacksFrom_of_eq rfl, by simp [claimed, htip], ?_⟩
      simp [handleBlock, htip]
    · refine Or.inl ⟨?_, hfollows (by simpa [evaluatesDepth] using hclaim)⟩
      unfold handleBlock
      split
      · split
        · exact (sameVotes_catchUpOnChain c).keeps
        · exact keepsVotes_blockQuorum c event i
      · rename_i tip htip
        split
        · split
          · rename_i hfork
            simp only [Bool.and_eq_true, decide_eq_true_eq] at hfork
            simp [hfork.1, hfork.2, htip] at hclaim
          · exact (SameVotes.refl c).keeps
        · split
          · exact (sameVotes_catchUpOnChain c).keeps
          · split
            · exact SameVotes.keeps ⟨rfl, rfl⟩
            · exact keepsVotes_blockQuorum c event i
  · simp at h

theorem classified_task {o : Outcome} (h : Steps cfg c (.task id o) c') :
    Classified cfg c (.task id o) c' := by
  have hfollows := step_follows h
  simp only [Steps, step, taskStep] at h
  split at h
  · rename_i ht
    exact Or.inl ⟨(sameVotes_liveStep h).keeps, hfollows (by cases o <;> simp [evaluatesDepth, ht])⟩
  · rename_i ht
    exact Or.inl ⟨(prunesVotes_rollbackStep h).keeps,
      hfollows (by cases o <;> simp [evaluatesDepth, ht])⟩
  · rename_i driver event i ht
    unfold linkChecked at h
    split at h
    · obtain rfl := Option.some.inj h
      refine Or.inl ⟨?_, hfollows rfl⟩
      exact (sameVotes_endTask c id driver).keeps.trans (keepsVotes_blockQuorum _ event i)
    · split at h
      · rename_i tip htip
        obtain rfl := Option.some.inj h
        have hcalm := calm_endTask c id driver
        rw [hcalm.lastAppliedBlock] at htip
        exact Or.inr ⟨c.endTask id driver, ⟨tip, .plain .undefined⟩, i, true,
          sameVotes_endTask c id driver, rollbacksFrom_calm hcalm, by simp [claimed, ht, htip], rfl⟩
      · simp at h
    · simp at h
  · simp at h

theorem classified_step (hstrict : cfg.HASH_CONFIRM_STRICT = true)
    (hok : a ≠ .runner .unresolved) (h : Steps cfg c a c') : Classified cfg c a c' := by
  have hfollows := step_follows h
  have hsame : SameVotes c c' → c.evaluatesDepth a = false → Classified cfg c a c' :=
    fun hs he => Or.inl ⟨hs.keeps, hfollows he⟩
  have hs := h
  cases a with
  | block event i fork => exact classified_block h
  | task id o => exact classified_task h
  | reorg event i =>
    simp only [Steps, step, onChain] at hs
    split at hs
    · exact Or.inr ⟨c, event, i, false, .refl c, rollbacksFrom_of_eq rfl, rfl,
        (Option.some.inj hs).symm⟩
    · simp at hs
  | reorgTimer height =>
    simp only [Steps, step] at hs
    split at hs
    · rename_i entry he
      split at hs
      · obtain rfl := Option.some.inj hs
        obtain ⟨hkeeps, htasks⟩ := keepsVotes_reorgTimer hstrict he
        exact Or.inl ⟨hkeeps, (rollbacksFrom_of_eq htasks).follows⟩
      · simp at hs
    · simp at hs
  | blockTimer height =>
    simp only [Steps, step] at hs
    obtain ⟨event, htimer, rfl⟩ := Option.map_eq_some_iff.mp hs
    exact Or.inl ⟨keepsVotes_blockTimer c htimer, hfollows rfl⟩
  | startup =>
    simp only [Steps, step, startup] at hs
    split at hs
    · simp at hs
    · split at hs
      · obtain rfl := Option.some.inj hs
        exact hsame (sameVotes_incrementalCatchUp c) rfl
      · obtain rfl := Option.some.inj hs
        exact hsame ⟨rfl, rfl⟩ rfl
  | beginLiveFollow =>
    simp only [Steps, step] at hs
    split at hs
    · simp at hs
    · obtain rfl := Option.some.inj hs
      exact hsame ⟨rfl, rfl⟩ rfl
  | status height =>
    simp only [Steps, step, onChain] at hs
    split at hs
    · obtain rfl := Option.some.inj hs
      refine hsame ?_ rfl
      split
      · split
        · exact sameVotes_catchUpOnChain c
        · exact .refl c
      · exact .refl c
    · simp at hs
  | reconnect =>
    simp only [Steps, step] at hs
    split at hs
    · obtain rfl := Option.some.inj hs
      exact hsame (sameVotes_incrementalCatchUp c) rfl
    · simp at hs
  | runner o =>
    simp only [Steps, step] at hs
    split at hs
    · refine hsame (sameVotes_runnerStep hs) ?_
      cases o <;> first | rfl | exact absurd rfl hok
    · simp at hs
  | runnerStatus tip =>
    simp only [Steps, step] at hs
    split at hs
    · obtain rfl := Option.some.inj hs
      exact hsame ⟨rfl, rfl⟩ rfl
    · simp at hs
  | runnerGets s =>
    simp only [Steps, step] at hs
    split at hs
    · exact hsame (sameVotes_runnerGets hs) rfl
    · simp at hs
  | runnerFails e =>
    simp only [Steps, step] at hs
    split at hs
    · exact hsame (sameVotes_runnerFails hs) rfl
    · simp at hs
  | walk o =>
    simp only [Steps, step] at hs
    split at hs
    · exact hsame (sameVotes_walkStep hs) rfl
    · simp at hs
  | markerWrite o => exact Or.inl ⟨(prunesVotes_markerStep hs).keeps, hfollows rfl⟩
  | haltPersisted =>
    simp only [Steps, step] at hs
    split at hs
    · obtain rfl := Option.some.inj hs
      exact Or.inl ⟨⟨fun _ _ => ReorgVotes.held_init, fun ha => ha⟩, hfollows rfl⟩
    · simp at hs
  | haltElsewhere =>
    obtain rfl := Option.some.inj hs
    exact hsame (sameVotes_halt c _) rfl
  | clearHalt =>
    simp only [Steps, step] at hs
    obtain ⟨reason, -, rfl⟩ := Option.map_eq_some_iff.mp hs
    refine hsame ?_ rfl
    unfold cleared
    dsimp only
    split <;> exact ⟨rfl, rfl⟩
  | crash haltKept =>
    obtain rfl := Option.some.inj hs
    refine Or.inl ⟨⟨fun _ _ => ReorgVotes.held_init, fun _ => ?_⟩, hfollows rfl⟩
    simp [restart, Votes.init, Votes.activeSourceCount, Votes.activeSourceIndices, Votes.isEvicted]

/-! ### A claim at quorum -/

/-- With two sources active every report needs agreement. -/
theorem sourceReorgQuorumActive_of_two {v : Votes} (hsources : 2 ≤ cfg.sources)
    (hkind : cfg.dbType = .decoder ∨ cfg.VERIFY_HASHES = true)
    (hactive : min 2 cfg.sources ≤ v.activeSourceCount cfg) :
    sourceReorgQuorumActive cfg v = true := by
  have htwo : 2 ≤ v.activeSourceCount cfg := by omega
  have hone : ¬ v.activeSourceCount cfg ≤ 1 := by omega
  unfold sourceReorgQuorumActive
  rw [if_neg hone]
  cases hdb : cfg.dbType with
  | decoder => simp
  | indexer =>
    have hverify : cfg.VERIFY_HASHES = true := hkind.resolve_left (by simp [hdb])
    have hlt : 1 < v.activeSourceCount cfg := by omega
    simp [Votes.sourceQuorumActive, hdb, hverify, hlt]

/-- An accepted rollback is accepted where it starts. -/
theorem rollback_starts {d : Doing} (hc : Calls cfg d c c') {pc : RollbackPc}
    (ht : c'.tasks id = some ⟨driver, .rollback r pc⟩) (hpc : pc.Accepted) :
    c.tasks id = some ⟨driver, .rollback r pc⟩ ∨ pc = .lockWait := by
  rcases hc.tasks id _ ht with ⟨t₀, ht₀, hres⟩ | hs
  · rw [hres.rollback] at ht₀
    exact Or.inl ht₀
  · rcases hs with hs | ⟨hlock, -⟩
    · change pc = .rewound at hs
      subst hs
      exact absurd hpc not_false
    · exact Or.inr hlock

/-- A claim is held, or starts a rollback at its height once a quorum has made it. -/
theorem sourceReorg_claims {event : ReorgEvent} {i : SourceIndex} (rewind : Bool)
    (hactive : sourceReorgQuorumActive cfg c.votes = true) (hr : c.reorgs.Held claims)
    (hclaim : (event.block_index, i) ∈ claims) :
    (c.sourceReorg cfg event i rewind).reorgs.Held claims ∧
      (c.sourceReorg cfg event i rewind).votes.evicted = c.votes.evicted ∧
        ∀ id driver r, (c.sourceReorg cfg event i rewind).tasks id =
            some ⟨driver, .rollback r .lockWait⟩ →
          c.tasks id = some ⟨driver, .rollback r .lockWait⟩ ∨
            r.event.block_index = event.block_index ∧
              c.votes.QuorumClaimed cfg claims event.block_index := by
  unfold sourceReorg
  split
  · exact ⟨hr, rfl, fun _ _ _ ht => Or.inl ht⟩
  · split
    rename_i guard reorgs agreed heq
    obtain ⟨hheld, hagreed⟩ := handleSourceReorg_claims hactive hr hclaim heq
    cases agreed with
    | none => exact ⟨hheld, rfl, fun _ _ _ ht => Or.inl ht⟩
    | some x =>
      obtain ⟨hevent, hquorum⟩ := hagreed x rfl
      have hsame := @sameVotes_startRollback cfg
        { c with
          guard := guard
          reorgs := reorgs
          delivered := c.delivered ++ [event.report i] } .chain ⟨x.event, some x.reports, x.rewind⟩
      refine ⟨?_, hsame.evicted, ?_⟩
      · rw [hsame.reorgs]
        exact hheld
      · intro id driver r ht
        rcases startRollback_lockWait ht with hold | rfl
        · exact Or.inl hold
        · exact Or.inr ⟨hevent, hquorum⟩

/-! ### Runs -/

end ClientSync

/-- The client, and what its sources have claimed. -/
structure ClaimedClient where
  client : ClientSync
  claims : List (Int × SourceIndex)

namespace ClaimedClient
variable {cfg : Config} {s s' first : ClaimedClient} {a : Action}

def next (cfg : Config) (s : ClaimedClient) (a : Action) : Option ClaimedClient :=
  (s.client.step cfg a).map fun c => ⟨c, s.claims ++ s.client.claimed a⟩

def Steps (cfg : Config) (s : ClaimedClient) (a : Action) (s' : ClaimedClient) : Prop :=
  s.next cfg a = some s'

theorem Steps.client (h : Steps cfg s a s') : ClientSync.Steps cfg s.client a s'.client := by
  obtain ⟨c, hc, rfl⟩ := Option.map_eq_some_iff.mp h
  exact hc

theorem Steps.claims (h : Steps cfg s a s') : s'.claims = s.claims ++ s.client.claimed a := by
  obtain ⟨c, hc, rfl⟩ := Option.map_eq_some_iff.mp h
  rfl

/-- A decoder's catch-up range names another parent than the tip. -/
def rewindsRange : Action → Bool
  | .runner .unresolved => true
  | _ => false

/-- A catch-up range builds on the tip. -/
def JoinsTip (_ : ClaimedClient) (a : Action) : Prop := rewindsRange a = false

instance (s : ClaimedClient) (a : Action) : Decidable (JoinsTip s a) :=
  inferInstanceAs (Decidable (_ = _))

theorem JoinsTip.ne (h : JoinsTip s a) : a ≠ .runner .unresolved := by
  rintro rfl
  simp [JoinsTip, rewindsRange] at h

/-- Along the run a quorum had claimed the height. -/
def ClaimedBefore (cfg : Config) (first s : ClaimedClient) (height : Int) : Prop :=
  ∃ s₀, Run (Steps cfg) JoinsTip first s₀ ∧ Run (Steps cfg) JoinsTip s₀ s ∧
    s₀.client.votes.QuorumClaimed cfg s₀.claims height

/-- Two sources are active, the held votes are claims, and every rollback that goes on was claimed at
quorum. -/
structure Backed (cfg : Config) (first s : ClaimedClient) : Prop where
  active : min 2 cfg.sources ≤ s.client.votes.activeSourceCount cfg
  held : s.client.reorgs.Held s.claims
  rollbacks : ∀ id driver r pc, s.client.tasks id = some ⟨driver, .rollback r pc⟩ → pc.Accepted →
    ClaimedBefore cfg first s r.event.block_index

theorem ClaimedBefore.tail {height : Int} (h : ClaimedBefore cfg first s height)
    (hok : JoinsTip s a) (hs : Steps cfg s a s') : ClaimedBefore cfg first s' height := by
  obtain ⟨s₀, hbefore, hafter, hquorum⟩ := h
  exact ⟨s₀, hbefore, .tail hafter hok hs, hquorum⟩

theorem backed_step (hstrict : cfg.HASH_CONFIRM_STRICT = true) (hsources : 2 ≤ cfg.sources)
    (hkind : cfg.dbType = .decoder ∨ cfg.VERIFY_HASHES = true)
    (hrun : Run (Steps cfg) JoinsTip first s) (hi : Backed cfg first s) (hok : JoinsTip s a)
    (hs : Steps cfg s a s') : Backed cfg first s' := by
  rcases ClientSync.classified_step hstrict hok.ne hs.client with
    ⟨hkeeps, hfollows⟩ | ⟨c₁, event, i, rewind, hclaims⟩
  · refine ⟨hkeeps.active hi.active, ?_, ?_⟩
    · rw [hs.claims]
      exact hkeeps.held _ (hi.held.mono _)
    · intro id driver r pc ht hpc
      obtain ⟨pc₀, hpc₀, ht₀⟩ := hfollows id driver r pc ht hpc
      exact (hi.rollbacks id driver r pc₀ ht₀ hpc₀).tail hok hs
  · have hcount : c₁.votes.activeSourceCount cfg = s.client.votes.activeSourceCount cfg :=
      Votes.activeSourceCount_congr hclaims.same.evicted
    have hactive : sourceReorgQuorumActive cfg c₁.votes = true :=
      ClientSync.sourceReorgQuorumActive_of_two hsources hkind (hcount ▸ hi.active)
    have hheld : c₁.reorgs.Held s'.claims := by
      rw [hs.claims, hclaims.same.reorgs]
      exact hi.held.mono _
    have hmem : (event.block_index, i) ∈ s'.claims := by
      rw [hs.claims, hclaims.claimed]
      simp
    obtain ⟨hheld', hevicted, hstarted⟩ :=
      ClientSync.sourceReorg_claims rewind hactive hheld hmem
    have hcalls : Calls cfg ⟨True, True⟩ c₁ (c₁.sourceReorg cfg event i rewind) :=
      ClientSync.calls_sourceReorg c₁ event i rewind trivial
    rw [← hclaims.source] at hheld' hevicted hstarted hcalls
    refine ⟨?_, hheld', ?_⟩
    · rw [Votes.activeSourceCount_congr (hevicted.trans hclaims.same.evicted)]
      exact hi.active
    · intro id driver r pc ht hpc
      have hold : c₁.tasks id = some ⟨driver, .rollback r pc⟩ →
          ClaimedBefore cfg first s' r.event.block_index := by
        intro ht₁
        have ht₀ := hclaims.rollbacks id driver r pc ht₁ hpc
        exact (hi.rollbacks id driver r pc ht₀ hpc).tail hok hs
      rcases ClientSync.rollback_starts hcalls ht hpc with ht₁ | rfl
      · exact hold ht₁
      · rcases hstarted id driver r ht with ht₁ | ⟨hheight, hquorum⟩
        · exact hold ht₁
        · -- the claim of this step is the one that makes the quorum
          refine ⟨s', .tail hrun hok hs, .refl, ?_⟩
          rw [hheight]
          exact hquorum.congr hevicted

/-- Under strict confirmation rows are rolled back once a quorum has claimed the height. -/
theorem strict_unwind_claimed_at_quorum {db : Replica} {halted : Option HaltReason} {height : Int}
    (hstrict : cfg.HASH_CONFIRM_STRICT = true) (hsources : 2 ≤ cfg.sources)
    (hkind : cfg.dbType = .decoder ∨ cfg.VERIFY_HASHES = true)
    (h : Run (Steps cfg) JoinsTip ⟨ClientSync.restart db halted, []⟩ s)
    (hk : s.client.committing a = some (.rollback height)) :
    ClaimedBefore cfg ⟨ClientSync.restart db halted, []⟩ s height := by
  have hbacked : Backed cfg ⟨ClientSync.restart db halted, []⟩ s := by
    clear hk
    induction h with
    | refl =>
      refine ⟨?_, ReorgVotes.held_init, ?_⟩
      · simp [ClientSync.restart, Votes.init, Votes.activeSourceCount, Votes.activeSourceIndices,
          Votes.isEvicted]
      · intro id driver r pc ht
        simp [ClientSync.restart] at ht
    | tail hrun hok hs ih => exact backed_step hstrict hsources hkind hrun ih hok hs
  cases ClientSync.committing_cases hk with
  | rollback ht => exact hbacked.rollbacks _ _ _ _ ht trivial

/-- Two sources report block 10, and the second report starts the unwind. -/
theorem unwind_of_ten_claimed_by_both : ∃ s : ClaimedClient,
    s.client.committing (.task 0 .ok) = some (.rollback 10) ∧
      ClaimedBefore ClientSync.strictPair
        ⟨ClientSync.restart (Replica.verified [9, 10] (some 10)) none, []⟩ s 10 := by
  have hexec : ((execAll (next ClientSync.strictPair) JoinsTip
      ⟨ClientSync.restart (Replica.verified [9, 10] (some 10)) none, []⟩
      [.beginLiveFollow, .reorg ⟨10, .plain .undefined⟩ 0, .reorg ⟨10, .plain .undefined⟩ 1,
        .task 0 .ok, .task 0 .ok, .task 0 .ok, .markerWrite .ok, .markerWrite .ok, .task 0 .ok,
        .task 0 .ok]).map fun s => s.client.committing (.task 0 .ok)) =
          some (some (.rollback 10)) := by
    decide +kernel
  obtain ⟨s, hs, hk⟩ := Option.map_eq_some_iff.mp hexec
  exact ⟨s, hk, strict_unwind_claimed_at_quorum rfl (by decide) (Or.inr rfl) (run_execAll hs) hk⟩

/-- A decoder of two sources under strict confirmation. -/
def strictDecoder : Config := { ClientSync.strictPair with dbType := .decoder }

/-- The range of one source starts at block 11 and does not build on block 10, which is rolled back
though no source has claimed a reorg. -/
theorem unclaimed_tip_is_rolled_back :
    ¬ ∀ (cfg : Config) (db : Replica) (halted : Option HaltReason) (s : ClaimedClient) (a : Action)
      (height : Int), cfg.HASH_CONFIRM_STRICT → 1 < s.client.votes.activeSourceCount cfg →
        cfg.dbType = .decoder ∨ cfg.VERIFY_HASHES →
          Run (Steps cfg) Any ⟨ClientSync.restart db halted, []⟩ s →
            s.client.committing a = some (.rollback height) →
              ∃ s₀, Run (Steps cfg) Any ⟨ClientSync.restart db halted, []⟩ s₀ ∧
                Run (Steps cfg) Any s₀ s ∧
                  s₀.client.votes.QuorumClaimed cfg s₀.claims height := by
  intro hall
  have hexec : ((execAll (next strictDecoder) Any
      ⟨ClientSync.restart (Replica.verified [9, 10] (some 10)) none, []⟩
      [.beginLiveFollow, .reconnect, .runner .ok, .runner .ok,
        .runnerGets ⟨[11], some 11, some 11⟩, .runner .unresolved, .task 0 .ok, .task 0 .ok]).map
        fun s => (s.client.committing (.task 0 .ok), s.claims,
          s.client.votes.activeSourceIndices strictDecoder)) =
          some (some (.rollback 10), [], [0, 1]) := by
    decide +kernel
  obtain ⟨s, hs, hstate⟩ := Option.map_eq_some_iff.mp hexec
  simp only [Prod.mk.injEq] at hstate
  obtain ⟨hk, hclaims, hactive⟩ := hstate
  have hcount : s.client.votes.activeSourceCount strictDecoder = 2 := by
    rw [Votes.activeSourceCount, hactive]
    rfl
  obtain ⟨s₀, -, hafter, sources, -, hquorum, hclaimed⟩ :=
    hall strictDecoder _ none s _ 10 rfl (by omega) (Or.inl rfl) (run_execAll hs) hk
  -- claims only grow, so there was none before either
  have hnone : s₀.claims = [] := by
    have hgrow : s₀.claims <+: s.claims :=
      hafter.invariant (I := fun t => s₀.claims <+: t.claims) (List.prefix_refl _)
        fun t a u ht _ hu => by
          rw [hu.claims]
          exact ht.trans (List.prefix_append _ _)
    rw [hclaims] at hgrow
    exact List.prefix_nil.mp hgrow
  have hpos : 0 < sources.length := by
    have hone : 1 ≤ s₀.client.votes.effectiveQuorum strictDecoder :=
      le_min (by decide) (le_max_left 1 _)
    omega
  obtain ⟨i, hi⟩ := List.exists_mem_of_length_pos hpos
  have hmem := (hclaimed i hi).2
  rw [hnone] at hmem
  simp at hmem

end ClaimedClient

end XChainSync.Client
