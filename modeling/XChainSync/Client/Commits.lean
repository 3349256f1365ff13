import XChainSync.Client.Notes

/-!
# Every step, and what it commits

`step_cases` sorts the steps of the client by the party that takes them. `committing` reads off the
state which transaction on the block rows a step commits, if any; `step_rows` says that no other
step touches the rows.
-/

namespace XChainSync.Client
set_option autoImplicit false

/-- A transaction on the block rows. -/
inductive Commit where
  | block (h : Int)
  | range (hs : List Int)
  | window (base : Int) (hs : List Int)
  | rollback (target : Int)
  | snapshot (hs : List Int)
  deriving DecidableEq, Repr

namespace Commit

def apply (db : Replica) : Commit → Replica
  | block h => db.insert (fun _ => true) [h]
  | range hs => db.insert (fun _ => true) hs
  | window base hs => db.insert (fun h => base < h) hs
  | rollback target => db.deleteFrom target
  | snapshot hs => db.replaceAll hs

/-- The heights a transaction adds to the rows that are there. -/
def inserts : Commit → Option (List Int)
  | block h => some [h]
  | range hs => some hs
  | window _ hs => some hs
  | _ => none

/-- The heights a transaction commits as applied blocks. -/
def applies : Commit → List Int
  | block h => [h]
  | range hs => hs
  | window base hs => hs.filter (base < ·)
  | _ => []

end Commit

namespace ClientSync

/-- The transaction a step commits. -/
def committing (c : ClientSync) : Action → Option Commit
  | .task id .ok =>
    match c.tasks id with
    | some ⟨_, .live event (.lockWait _)⟩ =>
      if c.holdsLock (.task id) && event.data.isSome && !c.db.holds event.block_index then
        some (.block event.block_index)
      else none
    | some ⟨_, .rollback r .deleting⟩ => some (.rollback r.event.block_index)
    | _ => none
  | .runner .ok =>
    match c.catchUp with
    | some ⟨_, .lockWait _ s⟩ => if c.holdsLock .runner then some (.range s.heights) else none
    | some ⟨_, .window (.lockWait base s)⟩ =>
      if c.holdsLock .runner then some (.window base s.heights) else none
    | some ⟨_, .full (.applying s)⟩ => some (.snapshot s.heights)
    | _ => none
  | _ => none

/-- Which call commits what, and from which point. -/
inductive Committing (c : ClientSync) : Action → Commit → Prop where
  | block {id : TaskId} {driver : Driver} {event : BlockEvent} {generation : Nat}
      (ht : c.tasks id = some ⟨driver, .live event (.lockWait generation)⟩)
      (hl : c.holdsLock (.task id)) (hdata : event.data.isSome)
      (hnew : c.db.holds event.block_index = false) :
      Committing c (.task id .ok) (.block event.block_index)
  | rollback {id : TaskId} {driver : Driver} {r : Rollback}
      (ht : c.tasks id = some ⟨driver, .rollback r .deleting⟩) :
      Committing c (.task id .ok) (.rollback r.event.block_index)
  | range {before dbTip : Option Int} {s : Snapshot}
      (hr : c.catchUp = some ⟨before, .lockWait dbTip s⟩) (hl : c.holdsLock .runner) :
      Committing c (.runner .ok) (.range s.heights)
  | window {before : Option Int} {base : Int} {s : Snapshot}
      (hr : c.catchUp = some ⟨before, .window (.lockWait base s)⟩) (hl : c.holdsLock .runner) :
      Committing c (.runner .ok) (.window base s.heights)
  | snapshot {before : Option Int} {s : Snapshot}
      (hr : c.catchUp = some ⟨before, .full (.applying s)⟩) :
      Committing c (.runner .ok) (.snapshot s.heights)

theorem committing_cases {c : ClientSync} {a : Action} {k : Commit} (h : c.committing a = some k) :
    Committing c a k := by
  unfold committing at h
  split at h
  · split at h
    · rename_i ht
      split at h
      · rename_i hcond
        simp only [Bool.and_eq_true, Bool.not_eq_true'] at hcond
        obtain rfl := Option.some.inj h
        exact .block ht hcond.1.1 hcond.1.2 hcond.2
      · simp at h
    · obtain rfl := Option.some.inj h
      exact .rollback (by assumption)
    · simp at h
  · split at h
    · rename_i hr
      split at h
      · obtain rfl := Option.some.inj h
        exact .range hr (by assumption)
      · simp at h
    · rename_i hr
      split at h
      · obtain rfl := Option.some.inj h
        exact .window hr (by assumption)
      · simp at h
    · obtain rfl := Option.some.inj h
      exact .snapshot (by assumption)
    · simp at h
  · simp at h

/-- The steps of the runner. -/
def byRunner : Action → Bool
  | .runner _ => true
  | .runnerStatus _ => true
  | .runnerGets _ => true
  | .runnerFails _ => true
  | _ => false

/-- The steps that only handle an event: all but those of a live apply, a rollback, the runner, the
walk or the marker queue, a clear and a crash. -/
def handlesEvent (c : ClientSync) : Action → Bool
  | .task id _ =>
    match c.tasks id with
    | some ⟨_, .linkCheck _ _⟩ => true
    | _ => false
  | .walk _ => false
  | .markerWrite _ => false
  | .clearHalt => false
  | .crash _ => false
  | a => !byRunner a

inductive Stepped (cfg : Config) (c : ClientSync) : Action → ClientSync → Prop where
  | calls {a : Action} {c' : ClientSync} (hc : Calls cfg (c.doing cfg a) c c')
      (he : c.handlesEvent a) : Stepped cfg c a c'
  | live {id : TaskId} {o : Outcome} {driver : Driver} {event : BlockEvent} {pc : LivePc}
      {c' : ClientSync} (ht : c.tasks id = some ⟨driver, .live event pc⟩)
      (hs : LiveStep cfg c id driver event pc o c') : Stepped cfg c (.task id o) c'
  | rollback {id : TaskId} {o : Outcome} {driver : Driver} {r : Rollback} {pc : RollbackPc}
      {c' : ClientSync} (ht : c.tasks id = some ⟨driver, .rollback r pc⟩)
      (hs : RollbackStep cfg c id driver r pc o c') : Stepped cfg c (.task id o) c'
  | runner {r : Runner} {a : Action} {c' : ClientSync} (ha : byRunner a) (hr : c.catchUp = some r)
      (hs : RunnerStep cfg c r.pc a c') : Stepped cfg c a c'
  | walk {w : Walk} {o : Outcome} {c' : ClientSync} (hw : c.tailVerify = some w)
      (hs : c.walkStep cfg w w.pc o = some c') : Stepped cfg c (.walk o) c'
  | marker {o : Outcome} {c' : ClientSync} (hs : c.markerStep o = some c') :
      Stepped cfg c (.markerWrite o) c'
  | cleared {reason : HaltReason} (hh : c.halted = some reason) :
      Stepped cfg c .clearHalt (c.cleared reason)
  | crash {haltKept : Bool} :
      Stepped cfg c (.crash haltKept) (restart c.db (if haltKept then c.halted else none))

/-- The step relation of a client with these settings. -/
def Steps (cfg : Config) (c : ClientSync) (a : Action) (c' : ClientSync) : Prop :=
  c.step cfg a = some c'

variable {cfg : Config} {c c' : ClientSync} {a : Action}

theorem linkChecked_cases {id : TaskId} {driver : Driver} {event : BlockEvent} {i : SourceIndex}
    {o : Outcome} (ht : c.tasks id = some ⟨driver, .linkCheck event i⟩)
    (h : (c.endTask id driver).linkChecked cfg event i o = some c') :
    Calls cfg (c.doing cfg (.task id o)) c c' := by
  unfold linkChecked at h
  split at h
  · obtain rfl := Option.some.inj h
    refine (calm_endTask c id driver).then_calls (calls_blockQuorum _ event i fun hq => ?_)
    have hindexer : cfg.dbType = .indexer := by
      simp only [Votes.sourceQuorumActive, Bool.and_eq_true, decide_eq_true_eq] at hq
      exact hq.1.1.1
    simp [doing, reportsBlock, ht, hindexer]
  · split at h
    · obtain rfl := Option.some.inj h
      refine (calm_endTask c id driver).then_calls (calls_sourceReorg _ _ i true ?_)
      simp [doing, evaluatesDepth, ht]
    · simp at h
  · simp at h

theorem taskStep_cases {id : TaskId} {o : Outcome} (h : c.taskStep cfg id o = some c') :
    Stepped cfg c (.task id o) c' := by
  unfold taskStep at h
  split at h
  · exact .live (by assumption) (liveStep_cases h)
  · exact .rollback (by assumption) (rollbackStep_cases h)
  · rename_i ht
    exact .calls (linkChecked_cases ht h) (by simp [handlesEvent, ht])
  · simp at h

theorem startup_cases (h : c.startup cfg = some c') : Stepped cfg c .startup c' := by
  unfold startup at h
  split at h
  · simp at h
  · split at h
    · obtain rfl := Option.some.inj h
      exact .calls (calls_incrementalCatchUp c) rfl
    · obtain rfl := Option.some.inj h
      refine .calls { (Calm.refl c).calls with catchUp := Or.inl ?_ } rfl
      intro r hr
      obtain rfl := Option.some.inj hr
      refine Or.inr (Or.inr ?_)
      dsimp only
      split <;> trivial

theorem onChain_cases {c₁ : ClientSync} (h : c.onChain c₁ = some c')
    (hc : Calls cfg (c.doing cfg a) c c₁) (he : c.handlesEvent a) :
    Stepped cfg c a c' := by
  unfold onChain at h
  split at h
  · obtain rfl := Option.some.inj h
    exact .calls hc he
  · simp at h

theorem step_cases (h : c.step cfg a = some c') : Stepped cfg c a c' := by
  cases a with
  | startup => exact startup_cases h
  | beginLiveFollow =>
    simp only [step] at h
    split at h
    · simp at h
    · obtain rfl := Option.some.inj h
      exact .calls { (Calm.refl c).calls with } rfl
  | block event i fork => exact onChain_cases h (calls_handleBlock c event i fork) rfl
  | status height =>
    refine onChain_cases h ?_ rfl
    split
    · split
      · exact calls_catchUpOnChain c
      · exact (Calm.refl c).calls
    · exact (Calm.refl c).calls
  | reorg event i => exact onChain_cases h (calls_sourceReorg c event i false rfl) rfl
  | reconnect =>
    simp only [step] at h
    split at h
    · obtain rfl := Option.some.inj h
      exact .calls (calls_incrementalCatchUp c) rfl
    · simp at h
  | blockTimer height =>
    obtain ⟨event, -, rfl⟩ := Option.map_eq_some_iff.mp h
    exact .calls (calls_blockTimer c event) rfl
  | reorgTimer height =>
    simp only [step] at h
    split at h
    · rename_i hentry
      split at h
      · obtain rfl := Option.some.inj h
        exact .calls (calls_reorgTimer c rfl hentry) rfl
      · simp at h
    · simp at h
  | task id o => exact taskStep_cases h
  | runner o =>
    simp only [step] at h
    split at h
    · exact .runner rfl (by assumption) (runnerStep_cases h)
    · simp at h
  | runnerStatus tip =>
    simp only [step] at h
    split at h
    · rename_i hr
      obtain rfl := Option.some.inj h
      exact .runner rfl hr (runnerStep_moves .windowBase rfl)
    · simp at h
  | runnerGets s =>
    simp only [step] at h
    split at h
    · exact .runner rfl (by assumption) (runnerGets_cases h)
    · simp at h
  | runnerFails e =>
    simp only [step] at h
    split at h
    · exact .runner rfl (by assumption) (runnerFails_cases h)
    · simp at h
  | walk o =>
    simp only [step] at h
    split at h
    · exact .walk (by assumption) h
    · simp at h
  | markerWrite o => exact .marker h
  | haltPersisted =>
    simp only [step] at h
    split at h
    · obtain rfl := Option.some.inj h
      have hcalm : Calm c { c with
          votes := c.votes.stopBlockVotes, reorgs := c.reorgs.clearAllPendingReorgs } :=
        { Calm.refl c with
          reorgs := fun _ _ => ReorgVotes.reported_init
          votes := fun _ => c.votes.clear_stopBlockVotes }
      exact .calls hcalm.calls rfl
    · simp at h
  | haltElsewhere =>
    obtain rfl := Option.some.inj h
    exact .calls (calm_halt c (by decide)).calls rfl
  | clearHalt =>
    obtain ⟨reason, hr, rfl⟩ := Option.map_eq_some_iff.mp h
    exact .cleared hr
  | crash haltKept =>
    obtain rfl := Option.some.inj h
    exact .crash

/-! ### Rows -/

/-- The replica after what a step commits. -/
def committed (c : ClientSync) (a : Action) : Replica :=
  match c.committing a with
  | some k => k.apply c.db
  | none => c.db

theorem committed_of_none (h : c.committing a = none) : c.committed a = c.db := by
  simp [committed, h]

theorem committed_of_some {k : Commit} (h : c.committing a = some k) :
    c.committed a = k.apply c.db := by
  simp [committed, h]

/-- The rows and the highest height ever inserted. -/
def SameRows (db db' : Replica) : Prop := db'.rows = db.rows ∧ db'.highest = db.highest

theorem sameRows_refl (db : Replica) : SameRows db db := ⟨rfl, rfl⟩

theorem sameRows_noted (h : Noted cfg c c') : SameRows c.db c'.db := by
  obtain ⟨c₁, hn, hc⟩ := h
  rw [SameRows, hc.db]
  exact ⟨hn.rows, hn.highest⟩

theorem committing_of_handlesEvent (h : c.handlesEvent a) : c.committing a = none := by
  cases a with
  | task id o =>
    simp only [handlesEvent] at h
    split at h
    · rename_i ht
      cases o <;> simp [committing, ht]
    · simp at h
  | runner o => simp [handlesEvent, byRunner] at h
  | _ => rfl

theorem live_rows {id : TaskId} {o : Outcome} {driver : Driver} {event : BlockEvent} {pc : LivePc}
    (ht : c.tasks id = some ⟨driver, .live event pc⟩)
    (hs : LiveStep cfg c id driver event pc o c') : SameRows (c.committed (.task id o)) c'.db := by
  have hnone : (o = .ok → ∀ g, pc ≠ .lockWait g) → c.committed (.task id o) = c.db := by
    intro hk
    apply committed_of_none
    cases o with
    | ok =>
      cases pc with
      | lockWait g => exact absurd rfl (hk rfl g)
      | _ => simp [committing, ht]
    | _ => rfl
  cases hs with
  | tail hc hh hpc => rw [hnone (by simp), SameRows, ← hc.db]; exact ⟨rfl, rfl⟩
  | lock hpc => rw [hnone (by rcases hpc with rfl | rfl <;> simp)]; exact ⟨rfl, rfl⟩
  | apply hl hpc =>
    have happly : c.committed (.task id .ok) = (c.applyBlock event).db := by
      by_cases hskip : event.data.isNone || c.db.holds event.block_index
      · rw [committed_of_none]
        · simp [applyBlock, hskip]
        · simp only [committing, ht, hl]
          cases hd : event.data <;> simp_all
      · rw [committed_of_some (k := .block event.block_index)]
        · simp [applyBlock, hskip, Commit.apply]
        · simp only [committing, ht, hl]
          cases hd : event.data <;> simp_all
    rw [happly]
    exact ⟨rfl, rfl⟩
  | recomputed =>
    rw [hnone (by simp)]
    have hn := notes_recomputePassed c event.block_index
    exact ⟨(hn _).rows, (hn _).highest⟩
  | read => rw [hnone (by simp)]; exact ⟨rfl, rfl⟩
  | hashed => rw [hnone (by simp)]; exact ⟨rfl, rfl⟩
  | diverged =>
    rw [hnone (by simp)]
    have hn := notes_halt c .stateHash
    have he := calm_endTask (c.halt .stateHash) id driver
    rw [SameRows, he.db]
    exact ⟨hn.rows, hn.highest⟩
  | finish hm => rw [hnone (by simp)]; exact ⟨rfl, rfl⟩
  | quit hc hgone hk => rw [hnone hk, SameRows, hc.db]; exact ⟨rfl, rfl⟩

theorem rollback_rows {id : TaskId} {o : Outcome} {driver : Driver} {r : Rollback}
    {pc : RollbackPc} (ht : c.tasks id = some ⟨driver, .rollback r pc⟩)
    (hs : RollbackStep cfg c id driver r pc o c') : SameRows (c.committed (.task id o)) c'.db := by
  have hnone : (o = .ok → pc ≠ .deleting) → c.committed (.task id o) = c.db := by
    intro hk
    apply committed_of_none
    cases o with
    | ok =>
      cases pc with
      | deleting => exact absurd rfl (hk rfl)
      | _ => simp [committing, ht]
    | _ => rfl
  cases hs with
  | delete =>
    rw [committed_of_some (k := .rollback r.event.block_index) (by simp [committing, ht])]
    exact ⟨rfl, rfl⟩
  | fail hc hid hk => rw [hnone hk, SameRows, (hc .nothing).db]; exact ⟨rfl, rfl⟩
  | returns hc hid hk => rw [hnone hk, SameRows, (hc .nothing).db]; exact ⟨rfl, rfl⟩
  | _ => rw [hnone (by simp)]; exact ⟨rfl, rfl⟩

theorem committed_runner {r : Runner} (ha : byRunner a) (hr : c.catchUp = some r)
    (hk : runnerCommits r.pc a = false) : c.committed a = c.db := by
  apply committed_of_none
  obtain ⟨before, pc⟩ := r
  unfold byRunner at ha
  split at ha
  · rename_i o
    unfold runnerCommits at hk
    unfold committing
    split
    · simp at *
    · rename_i heq
      obtain rfl : o = .ok := by simpa using heq
      rw [hr]
      split <;> simp_all
    · rfl
  · rfl
  · rfl
  · rfl
  · simp at ha

theorem runner_rows {r : Runner} (ha : byRunner a) (hr : c.catchUp = some r)
    (hs : RunnerStep cfg c r.pc a c') : SameRows (c.committed a) c'.db := by
  have hnone : runnerCommits r.pc a = false → c.committed a = c.db := committed_runner ha hr
  obtain ⟨before, pc⟩ := r
  cases hs with
  | moves hc hh hr' hm hk => rw [hnone hk, SameRows, ← hc.db]; exact ⟨rfl, rfl⟩
  | idles hc hk hr' => rw [hnone hk, SameRows, hc.db]; exact ⟨rfl, rfl⟩
  | range hl =>
    rename_i s
    rw [committed_of_some (k := .range s.heights) (by simp [committing, hr, hl])]
    exact ⟨rfl, rfl⟩
  | replace =>
    rename_i s
    rw [committed_of_some (k := .snapshot s.heights) (by simp [committing, hr])]
    exact ⟨rfl, rfl⟩
  | window hl =>
    rename_i base s
    rw [committed_of_some (k := .window base s.heights) (by simp [committing, hr, hl])]
    exact ⟨rfl, rfl⟩
  | fresh =>
    rw [hnone rfl]
    unfold startVerifiedTipBelow
    split <;> exact ⟨rfl, rfl⟩
  | _ => rw [hnone rfl]; exact ⟨rfl, rfl⟩

/-- The rows change as `committing` says and not otherwise. -/
theorem step_rows (h : c.step cfg a = some c') : SameRows (c.committed a) c'.db := by
  cases step_cases h with
  | calls hc he =>
    rw [committed_of_none (committing_of_handlesEvent he), SameRows, hc.db]
    exact ⟨rfl, rfl⟩
  | live ht hs => exact live_rows ht hs
  | rollback ht hs => exact rollback_rows ht hs
  | runner ha hr hs => exact runner_rows ha hr hs
  | walk hw hs => exact sameRows_noted (noted_walkStep hs)
  | marker hs =>
    have hn : MarkerNoted cfg c c' := markerNoted_markerStep hs
    exact sameRows_noted hn.noted
  | cleared hh =>
    unfold cleared
    dsimp only
    split <;> exact ⟨rfl, rfl⟩
  | crash => exact ⟨rfl, rfl⟩

/-- A catch-up pass started by a reconnect on a verified replica, up to its download. -/
def passToDownload : List Action :=
  [.beginLiveFollow, .reconnect, .runner .ok, .runner .ok, .walk .ok, .walk .ok, .walk .ok, .walk .ok,
    .runner .ok]

/-- A block with rows and hashes. -/
def blockAt (h : Int) : BlockEvent := ⟨h, .str "aa", .str "bb", .str "cc", .str "dd", some 0⟩

end ClientSync

end XChainSync.Client
