import XChainSync.Client.InFlight

/-!
# How deep rollbacks go

The guard's streak, in memory and in the database, remembers the height the replica fell from as long
as it has not climbed back. Along settled runs the guard covers the highest height ever committed, so
an accepted depth bounds how far below that height a rollback goes.
-/

namespace XChainSync.Client
set_option autoImplicit false

open Runs

/-! ### What a guard covers -/

namespace RollbackGuard

/-- Everything ever inserted is at or below the tip or the streak's peak, and the streak is within the
limit. -/
structure Guards (maxDepth : Int) (g : RollbackGuard) (db : Replica) : Prop where
  covers : ∀ high ∈ db.highest, (∃ tip, db.tip = some tip ∧ high ≤ tip) ∨
    ∃ s, g = some s ∧ high ≤ s.peak
  shallow : g.Shallow maxDepth

variable {maxDepth tip target : Int} {g : RollbackGuard} {db db' : Replica}

theorem Guards.at_tip (h : Guards maxDepth g db) (htip : db.tip = some tip) {high : Int}
    (hh : high ∈ db.highest) : g.Covers tip high := by
  rcases h.covers high hh with ⟨tip', htip', hle⟩ | hs
  · obtain rfl : tip = tip' := Option.some.inj (htip.symm.trans htip')
    exact Or.inl hle
  · exact Or.inr hs

theorem Guards.congr (h : Guards maxDepth g db) (hrows : db'.rows = db.rows)
    (hhigh : db'.highest = db.highest) : Guards maxDepth g db' where
  covers := by
    rw [hhigh, Replica.tip_congr hrows]
    exact h.covers
  shallow := h.shallow

theorem Guards.expire (h : Guards maxDepth g db) (htip : db.tip = some tip) :
    Guards maxDepth (g.expire maxDepth tip) db where
  covers := by
    intro high hh
    rcases (h.at_tip htip hh).expire h.shallow with hle | hs
    · exact Or.inl ⟨tip, htip, hle⟩
    · exact Or.inr hs
  shallow := h.shallow.expire tip

theorem Guards.insert (h : Guards maxDepth g db) (applied : Int → Bool) (hs : List Int) :
    Guards maxDepth g (db.insert applied hs) where
  covers := by
    intro high hh
    have hheights := Replica.heights_insert db applied hs
    -- any stored height is at or below the new tip
    have hstored : ∀ x, x ∈ db.heights ++ hs → high ≤ x →
        ∃ tip, (db.insert applied hs).tip = some tip ∧ high ≤ tip := by
      intro x hx hle
      cases htip : (db.insert applied hs).tip with
      | none =>
        rw [Replica.tip_eq_none_iff, hheights] at htip
        rw [htip] at hx
        simp at hx
      | some tip =>
        have hmax := (Replica.tip_eq_some_iff.mp htip).2 x (hheights ▸ hx)
        exact ⟨tip, rfl, by omega⟩
    rcases Replica.highest_insert_mem hh with hold | hnew
    · rcases h.covers high hold with ⟨tip, htip, hle⟩ | hpeak
      · have hmem := (Replica.tip_eq_some_iff.mp htip).1
        exact Or.inl (hstored tip (List.mem_append_left hs hmem) hle)
      · exact Or.inr hpeak
    · exact Or.inl (hstored high (List.mem_append_right db.heights hnew) (Int.le_refl high))
  shallow := h.shallow

/-- A peak above everything covers it at any tip. -/
theorem guards_of_peak (hpeak : ∃ s, g = some s ∧ ∀ high ∈ db.highest, high ≤ s.peak)
    (hs : g.Shallow maxDepth) : Guards maxDepth g db where
  covers := by
    obtain ⟨s, hg, hle⟩ := hpeak
    exact fun high hh => Or.inr ⟨s, hg, hle high hh⟩
  shallow := hs

/-- Recording a target within the limit puts the peak above everything. -/
theorem Guards.record (h : Guards maxDepth g db) (htip : db.tip = some tip)
    (hd : (g.depthFor maxDepth tip target).2 ≤ maxDepth) :
    (∃ s, g.record maxDepth tip target = some s ∧ ∀ high ∈ db.highest, high ≤ s.peak) ∧
      (g.record maxDepth tip target).Shallow maxDepth := by
  refine ⟨?_, record_shallow h.shallow hd⟩
  obtain ⟨s, hs⟩ : ∃ s, g.record maxDepth tip target = some s := by
    unfold RollbackGuard.record
    split
    · exact ⟨_, rfl⟩
    · exact ⟨_, rfl⟩
  refine ⟨s, hs, ?_⟩
  intro high hh
  -- the covering at a tip below `high` can only come from the peak
  rcases record_covers (h.at_tip htip hh) h.shallow target (high - 1) with hle | ⟨s', hs', hle⟩
  · omega
  · rw [hs] at hs'
    obtain rfl := Option.some.inj hs'
    exact hle

end RollbackGuard

/-- A target that is written down and whose rows are still there. -/
def RollbackPc.Recorded : RollbackPc → Prop
  | .persisting _ => True
  | .deleting => True
  | _ => False

theorem RollbackPc.Recorded.accepted {pc : RollbackPc} (h : pc.Recorded) : pc.Accepted := by
  cases pc <;> first | trivial | exact h.elim

namespace ClientSync

/-- The stored guard and the one in memory cover everything ever committed; a process that refused the
stored one is halted for it. A recorded rollback has everything below its peak. -/
structure Covered (maxDepth : Int) (c : ClientSync) : Prop where
  stored : c.db.rollback_guard.Guards maxDepth c.db
  memory : (c.halted = some .guardStateInvalid ∧ ∀ id, ¬ c.InFlight id) ∨
    c.guard.Guards maxDepth c.db
  recorded : ∀ id driver r pc, c.tasks id = some ⟨driver, .rollback r pc⟩ → pc.Recorded →
    ∃ s, c.guard = some s ∧ ∀ high ∈ c.db.highest, high ≤ s.peak

/-- The steps that forget the guard: an operator clear of a guard halt, and a full snapshot. -/
def resetsGuard (c : ClientSync) (a : Action) : Bool :=
  match a, c.committing a with
  | .clearHalt, _ => c.halted = some .maxRollbackDepth || c.halted = some .guardStateInvalid
  | _, some (.snapshot _) => true
  | _, _ => false

/-- No retroactive rewind is admitted, and nothing resets the guard. -/
structure Unreset (cfg : Config) (c : ClientSync) (a : Action) : Prop where
  admits : ∀ c', Steps cfg c a c' → ∀ id driver r,
    c'.tasks id = some ⟨driver, .rollback r .lockWait⟩ → ∀ tip, c'.lastAppliedBlock = some tip →
      c.InFlight id ∨ (c'.guard.depthFor cfg.maxRollbackDepth tip r.event.block_index).2 ≤
        cfg.maxRollbackDepth
  resets : c.resetsGuard a = false

variable {cfg : Config} {c c' : ClientSync} {a : Action} {e : Doing} {maxDepth : Int}

/-! ### What keeps it -/

theorem Covered.keeps (hi : Covered maxDepth c) (hfrom : RollbacksFrom c c')
    (hguard : c'.guard = c.guard) (hstored : c'.db.rollback_guard = c.db.rollback_guard)
    (hrows : c'.db.rows = c.db.rows) (hhigh : c'.db.highest = c.db.highest)
    (hh : c.halted ≠ none → c'.halted = c.halted) : Covered maxDepth c' where
  stored := by
    rw [hstored]
    exact hi.stored.congr hrows hhigh
  memory := by
    rcases hi.memory with ⟨hinv, hidle⟩ | hg
    · refine Or.inl ⟨(hh (by simp [hinv])).trans hinv, fun id hf => hidle id (hfrom.inFlight hf)⟩
    · rw [hguard]
      exact Or.inr (hg.congr hrows hhigh)
  recorded := by
    intro id driver r pc ht hpc
    rw [hguard, hhigh]
    exact hi.recorded id driver r pc (hfrom id driver r pc ht hpc.accepted) hpc

theorem halted_calls (hc : Calls cfg e c c') : c.halted ≠ none → c'.halted = c.halted := by
  intro hne
  rcases hc.halted with h | ⟨h, -⟩
  · exact h
  · exact absurd h hne

theorem Covered.calls_quiet (hi : Covered maxDepth c) (hc : Calls cfg e c c') (he : ¬ e.evaluates) :
    Covered maxDepth c' :=
  hi.keeps (rollbacksFrom_calls hc he) (guard_calls hc he) (by rw [hc.db]) (by rw [hc.db])
    (by rw [hc.db]) (halted_calls hc)

theorem Covered.calls_evaluating (hi : Covered cfg.maxRollbackDepth c) (hc : Calls cfg e c c')
    (hidle : ∀ id, ¬ c.InFlight id) (htip : c.lastAppliedBlock = c.db.tip) :
    Covered cfg.maxRollbackDepth c' := by
  have hnew : ∀ id driver r pc, c'.tasks id = some ⟨driver, .rollback r pc⟩ → pc.Accepted →
      pc = .lockWait ∧ c'.halted = none := by
    intro id driver r pc ht hpc
    rcases hc.tasks id _ ht with ⟨t₀, ht₀, hr⟩ | hs
    · rw [hr.rollback] at ht₀
      exact absurd ⟨driver, r, pc, ht₀, hpc⟩ (hidle id)
    · rcases hs with hs | ⟨hs, hh, -⟩
      · change pc = .rewound at hs
        subst hs
        exact hpc.elim
      · exact ⟨hs, hh⟩
  refine ⟨?_, ?_, ?_⟩
  · rw [hc.db]
    exact hi.stored
  · rcases hi.memory with ⟨hinv, -⟩ | hg
    · have hinv' := (halted_calls hc (by simp [hinv])).trans hinv
      refine Or.inl ⟨hinv', ?_⟩
      rintro id ⟨driver, r, pc, ht, hpc⟩
      have hnone := (hnew id driver r pc ht hpc).2
      rw [hinv'] at hnone
      simp at hnone
    · right
      rw [hc.db]
      rcases hc.guard with h | ⟨-, tip, hl, h⟩
      · rw [h]
        exact hg
      · rw [h]
        exact hg.expire (htip ▸ hl)
  · intro id driver r pc ht hpc
    obtain ⟨rfl, -⟩ := hnew id driver r pc ht hpc.accepted
    exact hpc.elim

/-- Rows inserted with nothing in flight. -/
theorem Covered.inserts (hi : Covered maxDepth c) (applied : Int → Bool) (hs : List Int)
    (hidle : ∀ id, ¬ c.InFlight id) (hfrom : RollbacksFrom c c') (hguard : c'.guard = c.guard)
    (hdb : SameRows (c.db.insert applied hs) c'.db)
    (hstored : c'.db.rollback_guard = c.db.rollback_guard)
    (hh : c.halted ≠ none → c'.halted = c.halted) : Covered maxDepth c' where
  stored := by
    rw [hstored]
    exact (hi.stored.insert applied hs).congr hdb.1 hdb.2
  memory := by
    rcases hi.memory with ⟨hinv, -⟩ | hg
    · have hinv' := (hh (by simp [hinv])).trans hinv
      exact Or.inl ⟨hinv', fun id hf => hidle id (hfrom.inFlight hf)⟩
    · rw [hguard]
      exact Or.inr ((hg.insert applied hs).congr hdb.1 hdb.2)
  recorded := fun id driver r pc ht hpc =>
    absurd (hfrom.inFlight ⟨driver, r, pc, ht, hpc.accepted⟩) (hidle id)

/-! ### Every step -/

theorem live_halted {id : TaskId} {o : Outcome} {driver : Driver} {event : BlockEvent}
    {pc : LivePc} (hs : LiveStep cfg c id driver event pc o c') :
    c.halted ≠ none → c'.halted = c.halted := by
  intro hne
  have hcalm : ∀ c₁, Calm c c₁ → c₁.halted = c.halted := by
    intro c₁ hc
    rcases hc.halted with h | ⟨h, -⟩
    · exact h
    · exact absurd h hne
  cases hs with
  | tail hc hh hpc => exact hh
  | apply hl hpc =>
    rw [applyBlock_eq]
    rfl
  | recomputed =>
    rw [recomputePassed_eq]
    rfl
  | diverged =>
    have hn := notes_halt c .stateHash
    have hc := calm_endTask (c.halt .stateHash) id driver
    have hkeep := hn.halted hne
    rcases hc.halted with h | ⟨h, -⟩
    · exact h.trans hkeep
    · rw [hkeep] at h
      exact absurd h hne
  | quit hc hgone hk => exact hcalm _ hc
  | _ => rfl

theorem live_covered {id : TaskId} {o : Outcome} {driver : Driver} {event : BlockEvent}
    {pc : LivePc} (hi : Covered maxDepth c) (hok : Settled c (.task id o))
    (ht : c.tasks id = some ⟨driver, .live event pc⟩)
    (hs : LiveStep cfg c id driver event pc o c') : Covered maxDepth c' := by
  obtain ⟨hfrom, hguard, hstored⟩ := live_rollbacksFrom hs
  have hrows := live_rows ht hs
  have hhalt := live_halted hs
  cases hk : c.committing (.task id o) with
  | none =>
    rw [committed_of_none hk] at hrows
    exact hi.keeps hfrom hguard hstored hrows.1 hrows.2 hhalt
  | some k =>
    rw [committed_of_some hk] at hrows
    obtain rfl : k = .block event.block_index := by
      cases o with
      | ok =>
        cases pc with
        | lockWait generation =>
          simp only [committing, ht] at hk
          split at hk
          · exact (Option.some.inj hk).symm
          · simp at hk
        | _ => simp [committing, ht] at hk
      | _ => simp [committing] at hk
    have hidle := (hok.commits _ hk).resolve_left (by simp)
    exact hi.inserts _ _ hidle hfrom hguard hrows hstored hhalt

theorem memory_of_inFlight (hi : Covered maxDepth c) {id : TaskId} (hf : c.InFlight id) :
    c.guard.Guards maxDepth c.db := by
  rcases hi.memory with ⟨-, hidle⟩ | hg
  · exact absurd hf (hidle id)
  · exact hg

/-- A rollback in flight that goes on without touching rows or guards. -/
theorem Covered.goes (hi : Covered maxDepth c) {id : TaskId} {driver : Driver} {r : Rollback}
    {pc pc' : RollbackPc} {c₁ : ClientSync} (ht : c.tasks id = some ⟨driver, .rollback r pc⟩)
    (hpc : pc.Accepted) (htasks : c₁.tasks = c.tasks) (hguard : c₁.guard = c.guard)
    (hdb : c₁.db = c.db) (hrec : pc'.Recorded → pc.Recorded) :
    Covered maxDepth (c₁.setRollback id driver r pc') where
  stored := by
    change c₁.db.rollback_guard.Guards maxDepth c₁.db
    rw [hdb]
    exact hi.stored
  memory := by
    right
    change c₁.guard.Guards maxDepth c₁.db
    rw [hdb, hguard]
    exact memory_of_inFlight hi ⟨driver, r, pc, ht, hpc⟩
  recorded := by
    intro j driver' r' pc'' hj hpc''
    change ∃ s, c₁.guard = some s ∧ ∀ high ∈ c₁.db.highest, high ≤ s.peak
    rw [hdb, hguard]
    simp only [setRollback, setTask] at hj
    split at hj
    · simp only [Option.some.injEq, Task.mk.injEq, Work.rollback.injEq] at hj
      obtain ⟨-, -, rfl⟩ := hj
      exact hi.recorded id driver r pc ht (hrec hpc'')
    · rw [htasks] at hj
      exact hi.recorded j driver' r' pc'' hj hpc''

/-- The depth a rollback was accepted for is within the limit. -/
abbrev Within (maxDepth : Int) : Rollback → Int → Prop := fun _ depth => depth ≤ maxDepth

theorem Covered.records (hi : Covered cfg.maxRollbackDepth c)
    (htr : Tracks cfg.maxRollbackDepth (Within cfg.maxRollbackDepth) c) {id : TaskId}
    {driver : Driver} {r : Rollback} {pc : RollbackPc} {c₁ : ClientSync}
    (ht : c.tasks id = some ⟨driver, .rollback r pc⟩) (hpc : pc.Waiting)
    (hcursor : c.lastAppliedBlock = c.db.tip) (htasks : c₁.tasks = c.tasks)
    (hguard : c₁.guard = c.guard) (hlast : c₁.lastAppliedBlock = c.lastAppliedBlock)
    (hdb : c₁.db = c.db) :
    Covered cfg.maxRollbackDepth (c₁.recordRollback cfg id driver r) := by
  obtain ⟨tip, htip, hdepth⟩ := htr.waiting id driver r pc ht hpc
  have hg := memory_of_inFlight hi ⟨driver, r, pc, ht, hpc.accepted⟩
  have hcur : c₁.lastAppliedBlock.getD 0 = tip := by rw [hlast, hcursor, htip]; rfl
  have hnew : (c₁.recordRollback cfg id driver r).guard =
      c.guard.record cfg.maxRollbackDepth tip r.event.block_index := by
    change c₁.guard.record cfg.maxRollbackDepth (c₁.lastAppliedBlock.getD 0) r.event.block_index = _
    rw [hcur, hguard]
  have hdb' : (c₁.recordRollback cfg id driver r).db = c.db := hdb
  obtain ⟨hpeak, hshallow⟩ := hg.record htip hdepth
  refine ⟨?_, Or.inr ?_, ?_⟩
  · rw [hdb']
    exact hi.stored
  · rw [hnew, hdb']
    exact RollbackGuard.guards_of_peak hpeak hshallow
  · intro j driver' r' pc' _ _
    rw [hnew, hdb']
    exact hpeak

theorem rollback_covered {id : TaskId} {o : Outcome} {driver : Driver} {r : Rollback}
    {pc : RollbackPc} (hi : Covered cfg.maxRollbackDepth c)
    (htr : Tracks cfg.maxRollbackDepth (Within cfg.maxRollbackDepth) c)
    (hok : Settled c (.task id o)) (ht : c.tasks id = some ⟨driver, .rollback r pc⟩)
    (hs : RollbackStep cfg c id driver r pc o c') : Covered cfg.maxRollbackDepth c' := by
  cases hs with
  | openLoad hl hh htrk hm => exact hi.goes ht trivial rfl rfl rfl fun h => h.elim
  | openLower hl hh htrk hm => exact hi.goes ht trivial rfl rfl rfl fun h => h.elim
  | openRecord hl hh htrk =>
    have hcursor := hok.records (by simp [mayRecord, ht])
    exact hi.records htr ht trivial hcursor rfl rfl rfl rfl
  | load => exact hi.goes ht trivial rfl rfl rfl fun h => h.elim
  | lower => exact hi.goes ht trivial rfl rfl rfl fun h => h.elim
  | record =>
    have hcursor := hok.records (by simp [mayRecord, ht])
    exact hi.records htr ht trivial hcursor rfl rfl rfl rfl
  | @persist state =>
    have hg := memory_of_inFlight hi ⟨driver, r, _, ht, trivial⟩
    have hpeak := hi.recorded id driver r _ ht trivial
    refine ⟨?_, Or.inr (hg.congr rfl rfl), fun _ _ _ _ _ _ => hpeak⟩
    change state.Guards cfg.maxRollbackDepth { c.db with rollback_guard := state }
    rw [← (htr.persisting id driver r state ht).1]
    exact hg.congr rfl rfl
  | delete =>
    have hg := memory_of_inFlight hi ⟨driver, r, _, ht, trivial⟩
    have hpeak := hi.recorded id driver r _ ht trivial
    have hsame := (htr.deleting id driver r ht).1
    refine ⟨?_, Or.inr ?_, fun _ _ _ _ _ _ => hpeak⟩
    · change c.db.rollback_guard.Guards cfg.maxRollbackDepth (c.db.deleteFrom r.event.block_index)
      rw [← hsame]
      exact RollbackGuard.guards_of_peak hpeak hg.shallow
    · exact RollbackGuard.guards_of_peak hpeak hg.shallow
  | move =>
    refine hi.keeps (rollbacksFrom_setTask c id ?_) rfl rfl rfl rfl fun _ => rfl
    intro driver' r' pc' h hacc
    simp only [Task.mk.injEq, Work.rollback.injEq] at h
    obtain ⟨-, -, rfl⟩ := h
    exact hacc
  | fail hc hid hk =>
    refine Covered.calls_quiet ?_ (hc .nothing) not_false
    exact hi.keeps (rollbacksFrom_of_eq rfl) rfl rfl rfl rfl fun _ => rfl
  | returns hc hid hk => exact hi.calls_quiet (hc .nothing) not_false

theorem runner_covered {r : Runner} (hi : Covered cfg.maxRollbackDepth c) (hok : Settled c a)
    (hun : Unreset cfg c a) (hr : c.catchUp = some r)
    (hs : RunnerStep cfg c r.pc a c') : Covered cfg.maxRollbackDepth c' := by
  obtain ⟨before, pc⟩ := r
  cases hs with
  | moves hc hh hr' hm hk =>
    have hfrom := rollbacksFrom_calm hc
    exact hi.keeps hfrom hc.guard (congrArg Replica.rollback_guard hc.db)
      (congrArg Replica.rows hc.db) (congrArg Replica.highest hc.db) fun _ => hh
  | idles hc hk hr' =>
    by_cases he : c.evaluatesDepth a
    · obtain ⟨hcursor, hidle⟩ := hok.evaluates he
      exact hi.calls_evaluating hc hidle hcursor
    · exact hi.calls_quiet hc he
  | fresh =>
    unfold startVerifiedTipBelow
    split <;> exact hi.keeps (rollbacksFrom_of_eq rfl) rfl rfl rfl rfl fun _ => rfl
  | @range dbTip s hl =>
    have hk : c.committing (.runner .ok) = some (.range s.heights) := by simp [committing, hr, hl]
    have hidle := (hok.commits _ hk).resolve_left (by simp)
    exact hi.inserts (fun _ => true) s.heights hidle (rollbacksFrom_of_eq rfl) rfl (sameRows_refl _)
      Replica.rollback_guard_insert fun _ => rfl
  | @window base s hl =>
    have hk : c.committing (.runner .ok) = some (.window base s.heights) := by
      simp [committing, hr, hl]
    have hidle := (hok.commits _ hk).resolve_left (by simp)
    exact hi.inserts (fun h => base < h) s.heights hidle (rollbacksFrom_of_eq rfl) rfl
      (sameRows_refl _) Replica.rollback_guard_insert fun _ => rfl
  | replace =>
    have hresets := hun.resets
    simp [resetsGuard, committing, hr] at hresets
  | _ => exact hi.keeps (rollbacksFrom_of_eq rfl) rfl rfl rfl rfl fun _ => rfl

theorem Covered.noted (hi : Covered maxDepth c) (hn : Noted cfg c c') : Covered maxDepth c' := by
  obtain ⟨c₁, hn, hc⟩ := hn
  have hi₁ : Covered maxDepth c₁ := hi.keeps (rollbacksFrom_of_eq hn.tasks) hn.guard
    hn.rollback_guard hn.rows hn.highest hn.halted
  exact hi₁.calls_quiet hc not_false

/-- A process loads the stored guard, or refuses it and halts. -/
theorem covered_restart {db : Replica} (hdb : db.rollback_guard.Guards maxDepth db)
    (halted : Option HaltReason) : Covered maxDepth (restart db halted) where
  stored := hdb
  memory := by
    cases hs : db.rollback_guard with
    | none =>
      right
      rw [hs] at hdb
      simpa [restart, hs] using hdb
    | some s =>
      by_cases hv : s.Valid
      · right
        rw [hs] at hdb
        simpa [restart, hs, hv, Option.filter] using hdb
      · exact Or.inl ⟨by simp [restart, hs, hv], not_inFlight_restart db halted⟩
  recorded := by
    intro id driver r pc ht
    simp [restart] at ht

theorem step_covered (hi : Covered cfg.maxRollbackDepth c)
    (htr : Tracks cfg.maxRollbackDepth (Within cfg.maxRollbackDepth) c) (hok : Settled c a)
    (hun : Unreset cfg c a) (h : Steps cfg c a c') : Covered cfg.maxRollbackDepth c' := by
  cases step_cases h with
  | calls hc he =>
    by_cases hev : c.evaluatesDepth a
    · obtain ⟨hcursor, hidle⟩ := hok.evaluates hev
      exact hi.calls_evaluating hc hidle hcursor
    · exact hi.calls_quiet hc hev
  | live ht hs => exact live_covered hi hok ht hs
  | rollback ht hs => exact rollback_covered hi htr hok ht hs
  | runner ha hr hs => exact runner_covered hi hok hun hr hs
  | walk hw hs => exact hi.noted (noted_walkStep hs)
  | marker hs =>
    have hn : MarkerNoted cfg c c' := markerNoted_markerStep hs
    exact hi.noted hn.noted
  | @cleared reason hh =>
    have hresets := hun.resets
    simp only [resetsGuard, hh, Option.some.injEq, Bool.or_eq_false_iff, decide_eq_false_iff_not]
      at hresets
    have hreason : ¬ (reason = .maxRollbackDepth ∨ reason = .guardStateInvalid) :=
      fun h => h.elim hresets.1 hresets.2
    simp only [cleared, hreason, if_false]
    refine ⟨hi.stored, Or.inr (hi.memory.resolve_left ?_), hi.recorded⟩
    rintro ⟨hinv, -⟩
    exact hresets.2 (Option.some.inj (hh.symm.trans hinv))
  | crash => exact covered_restart hi.stored _

/-! ### Runs -/

/-- Along every settled run in which nothing resets the guard, a rollback that `handleReorg` has
accepted and that has not yet deleted its rows has a target within the limit of the highest height ever
committed. -/
theorem accepted_target_within_limit {cfg : Config} {db : Replica} {halted : Option HaltReason}
    {c : ClientSync} (hdb : db.rollback_guard.Guards cfg.maxRollbackDepth db)
    (h : Run (Steps cfg) (fun c a => Settled c a ∧ Unreset cfg c a) (restart db halted) c)
    {id : TaskId} {driver : Driver} {r : Rollback} {pc : RollbackPc}
    (ht : c.tasks id = some ⟨driver, .rollback r pc⟩) (hpc : pc.Accepted) :
    ∀ high ∈ c.db.highest, high - cfg.maxRollbackDepth + 1 ≤ r.event.block_index := by
  have hinv : Covered cfg.maxRollbackDepth c ∧
      Tracks cfg.maxRollbackDepth (Within cfg.maxRollbackDepth) c := by
    refine h.invariant (I := fun c => Covered cfg.maxRollbackDepth c ∧
      Tracks cfg.maxRollbackDepth (Within cfg.maxRollbackDepth) c)
      ⟨covered_restart hdb halted, tracks_of_idle (not_inFlight_restart db halted)⟩ ?_
    rintro c a c' ⟨hi, htr⟩ ⟨hok, hun⟩ hs
    refine ⟨step_covered hi htr hok hun hs, ?_⟩
    refine step_tracks htr (fun _ _ h => h) ?_ hok hs
    intro _ hidle id driver r tip ht _ htip
    exact (hun.admits c' hs id driver r ht tip htip).resolve_left (hidle id)
  obtain ⟨hi, htr⟩ := hinv
  intro high hh
  by_cases hw : pc.Waiting
  · obtain ⟨tip, htip, hdepth⟩ := htr.waiting id driver r pc ht hw
    have hg := memory_of_inFlight hi ⟨driver, r, pc, ht, hpc⟩
    exact RollbackGuard.target_of_depthFor_le (hg.at_tip htip hh) hg.shallow hdepth
  · have hrec : pc.Recorded ∧ recordedDepth c.guard r.event.block_index ≤ cfg.maxRollbackDepth := by
      cases pc with
      | persisting state =>
        obtain ⟨hg, -, hdepth⟩ := htr.persisting id driver r state ht
        exact ⟨trivial, hg ▸ hdepth⟩
      | deleting => exact ⟨trivial, (htr.deleting id driver r ht).2.2⟩
      | _ => first | exact absurd trivial hw | exact hpc.elim
    obtain ⟨s, hs, hpeak⟩ := hi.recorded id driver r pc ht hrec.1
    have hle := hpeak high hh
    have hdepth := hrec.2
    simp only [recordedDepth, hs, Option.map_some, Option.getD_some] at hdepth
    omega

/-- A cap below the limit admits no retroactive rewind. -/
theorem unreset_of_cap (hcap : cfg.retroactiveCapBlocks ≤ cfg.maxRollbackDepth)
    (hresets : c.resetsGuard a = false) : Unreset cfg c a where
  admits := by
    intro c' h id driver r ht tip htip
    rcases step_rollbacks h ht with ht' | ⟨tip', htip', -, hacc⟩
    · exact Or.inl ⟨driver, r, _, ht', trivial⟩
    · obtain rfl : tip = tip' := Option.some.inj (htip.symm.trans htip')
      rcases hacc with hle | hq
      · exact Or.inr hle
      · have hdepth := (admitRetroactiveRewind_quorum hq).1
        exact Or.inr (by omega)
  resets := hresets

/-- Two sources, a limit of three blocks, and no retroactive rewinds. -/
def limitThree : Config := { majorityOf 2 with maxRollbackDepth := 3, retroactiveCapBlocks := 0 }

/-- Both sources report a reorg of `h`. -/
def bothReport (h : Int) : List Action :=
  [.reorg ⟨h, .plain .undefined⟩ 0, .reorg ⟨h, .plain .undefined⟩ 1]

/-- The target of a rollback that waits for the lock. -/
def waitingTarget (c : ClientSync) (id : TaskId) : Option Int :=
  match c.tasks id with
  | some ⟨_, .rollback r .lockWait⟩ => some r.event.block_index
  | _ => none

theorem guards_verified (hs : List Int) (marker : Option Int) :
    (Replica.verified hs marker).rollback_guard.Guards maxDepth (Replica.verified hs marker) := by
  have hnone : RollbackGuard.Guards maxDepth none Replica.empty :=
    ⟨by simp [Replica.empty], by simp [RollbackGuard.Shallow]⟩
  have hins : RollbackGuard.Guards maxDepth none (Replica.verified hs marker) :=
    (hnone.insert (fun _ => true) hs).congr rfl rfl
  have hguard : (Replica.verified hs marker).rollback_guard = none :=
    Replica.rollback_guard_insert
  rw [hguard]
  exact hins

/-- A pass has committed block 11 and not yet moved the cursor from 10: a reorg of block 8 counts as
three blocks deep and is accepted, four below the highest block. -/
theorem lagging_cursor_accepts_deeper :
    ¬ ∀ (cfg : Config) (db : Replica) (halted : Option HaltReason) (c : ClientSync),
      db.rollback_guard.Guards cfg.maxRollbackDepth db →
      Run (Steps cfg) (Unreset cfg) (restart db halted) c →
        ∀ (id : TaskId) (driver : Driver) (r : Rollback),
          c.tasks id = some ⟨driver, .rollback r .lockWait⟩ →
            ∀ high ∈ c.db.highest, high - cfg.maxRollbackDepth + 1 ≤ r.event.block_index := by
  intro hall
  have hexec : ((execAll (step limitThree) (fun c a => c.resetsGuard a = false)
      (restart (Replica.verified [8, 9, 10] (some 10)) none)
      (passToDownload ++ [.runnerGets ⟨[11], some 11, some 11⟩, .runner .ok, .runner .ok] ++
        bothReport 8)).map fun c => (c.db.highest, c.waitingTarget 0)) =
          some (some 11, some 8) := by
    decide +kernel
  obtain ⟨c, hc, hstate⟩ := Option.map_eq_some_iff.mp hexec
  obtain ⟨hhigh, htarget⟩ := Prod.mk.inj hstate
  have hrun : Run (Steps limitThree) (Unreset limitThree)
      (restart (Replica.verified [8, 9, 10] (some 10)) none) c :=
    (run_execAll hc).mono fun c a hresets => unreset_of_cap (by decide) hresets
  have hbound := hall limitThree _ none c (guards_verified _ _) hrun
  unfold waitingTarget at htarget
  split at htarget
  · rename_i driver r ht
    have hle := hbound 0 driver r ht 11 (by simp [hhigh])
    have heq := Option.some.inj htarget
    simp only [limitThree] at hle
    omega
  · simp at htarget

theorem settled_of_idle (hidle : ∀ id, ¬ c.InFlight id)
    (hcursor : c.lastAppliedBlock = c.db.tip) : Settled c a where
  evaluates := fun _ => ⟨hcursor, hidle⟩
  records := fun _ => hcursor
  commits := fun _ _ => Or.inr hidle
  clears := fun _ => hidle

/-- A client that follows its one source from block 10. -/
def following : ClientSync :=
  { restart (Replica.verified [8, 9, 10] (some 10)) none with liveFollow := true }

def oneSource : Config := { majorityOf 1 with retroactiveCapBlocks := 0 }

/-- A reorg of block 9, accepted at the stored tip. -/
theorem accepted_target_of_nine :
    (following.sourceReorg oneSource ⟨9, .plain .undefined⟩ 0 false).db.highest = some 10 ∧
      10 - oneSource.maxRollbackDepth + 1 ≤ 9 := by
  have hfollow : Steps oneSource (restart (Replica.verified [8, 9, 10] (some 10)) none)
      .beginLiveFollow following := rfl
  have hreorg : Steps oneSource following (.reorg ⟨9, .plain .undefined⟩ 0)
      (following.sourceReorg oneSource ⟨9, .plain .undefined⟩ 0 false) := rfl
  have hidle : ∀ id, ¬ following.InFlight id :=
    not_inFlight_restart (Replica.verified [8, 9, 10] (some 10)) none
  have h1 : Run (Steps oneSource) (fun c a => Settled c a ∧ Unreset oneSource c a)
      (restart (Replica.verified [8, 9, 10] (some 10)) none) following :=
    .tail .refl ⟨settled_of_idle (not_inFlight_restart _ _) rfl, unreset_of_cap (by decide) rfl⟩
      hfollow
  have h2 := Run.tail h1 ⟨settled_of_idle hidle rfl, unreset_of_cap (by decide) rfl⟩ hreorg
  have ht : (following.sourceReorg oneSource ⟨9, .plain .undefined⟩ 0 false).tasks 0 =
      some ⟨.chain, .rollback ⟨⟨9, .plain .undefined⟩, some [⟨0, .undefined, .undefined⟩], false⟩
        .lockWait⟩ := rfl
  have hhigh : (following.sourceReorg oneSource ⟨9, .plain .undefined⟩ 0 false).db.highest =
      some 10 := rfl
  have hbound := accepted_target_within_limit (guards_verified _ _) h2 ht trivial
  exact ⟨hhigh, hbound 10 hhigh⟩

end ClientSync

end XChainSync.Client
