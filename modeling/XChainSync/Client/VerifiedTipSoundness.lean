import XChainSync.Client.Vouched

/-!
# The verified tip is sound

Every step that is `Careful` keeps what the marker vouches for, for each party in turn. So a restart
finds a marker below which every block this software has applied was recomputed clean.
-/

namespace XChainSync.Client
set_option autoImplicit false

open Runs

namespace ClientSync
variable {cfg : Config} {c c' : ClientSync} {a : Action}

/-- What is trusted without a recompute is below the marker in memory, or nothing under it is
applied. -/
theorem Vouched.sound_trusted (hi : Vouched cfg c) {n : Int}
    (h : (∃ v, c.marker.verifiedTip = .num v ∧ n ≤ v) ∨ c.db.UnappliedTo n) : c.db.Sound n := by
  rcases h with ⟨v, hv, hle⟩ | hu
  · exact Replica.Sound.mono (hi.claims _ (.marker (Or.inl hv))) hle
  · exact hu.sound

theorem Vouched.halt (hi : Vouched cfg c) (reason : HaltReason) : Vouched cfg (c.halt reason) := by
  unfold ClientSync.halt
  split
  · exact hi
  · exact hi.congr rfl rfl rfl rfl rfl

/-! ### Live applies -/

/-- A recompute that has passed on the rows that are there; the join block has none applied. -/
theorem Vouched.recomputePassed (hi : Vouched cfg c) (h : Int) (seen : List Nat) :
    Vouched cfg (c.recomputePassed h seen) := by
  unfold ClientSync.recomputePassed
  split
  · exact hi
  · have hkeeps : (c.db.markRecomputed h seen).verified_tip = c.db.verified_tip ∧
        (c.db.markRecomputed h seen).bootstrap_base = c.db.bootstrap_base := by
      unfold Replica.markRecomputed
      split <;> exact ⟨rfl, rfl⟩
    exact hi.setDb (Replica.kept_markRecomputed c.db h seen) (fun n hn => Or.inl (hkeeps.1 ▸ hn))
      hkeeps.2

theorem Vouched.sound_recomputePassed (hi : Vouched cfg c) {h : Int} {seen : List Nat}
    (hread : (Claim.reading h seen).Holds c.db) : (c.recomputePassed h seen).db.Sound h := by
  unfold ClientSync.recomputePassed
  split
  · rename_i hb
    exact (hi.joined h hb).sound
  · have hbelow : (c.db.markRecomputed h seen).Sound (h - 1) := hread.1.markRecomputed h seen
    exact hbelow.succ (Replica.clean_markRecomputed hread.2)

/-- The claim after the recompute, if any, is that the block is clean. -/
theorem claims_afterRecompute {driver : Driver} {event : BlockEvent} {g g' : Nat} {k : Claim}
    (h : Task.claims cfg g' ⟨driver, .live event (afterRecompute cfg event g)⟩ = some k) :
    cfg.tracksVerifiedTip ∧ g = g' ∧ k = .upTo event.block_index := by
  unfold afterRecompute at h
  split at h
  all_goals
    simp only [Task.claims] at h
    split at h
    · rename_i hcur
      simp only [Bool.and_eq_true, decide_eq_true_eq] at hcur
      exact ⟨hcur.1, hcur.2, (Option.some.inj h).symm⟩
    · simp at h

theorem generation_afterRecompute (driver : Driver) (event : BlockEvent) (g : Nat) :
    Task.generation ⟨driver, .live event (afterRecompute cfg event g)⟩ = g := by
  unfold afterRecompute
  split <;> rfl

theorem Vouched.applyBlock (hi : Vouched cfg c) {id : TaskId} {driver : Driver}
    {event : BlockEvent} {generation : Nat}
    (ht : c.tasks id = some ⟨driver, .live event (.lockWait generation)⟩)
    (hl : c.holdsLock (.task id)) (hok : Careful cfg c (.task id .ok)) :
    Vouched cfg (c.applyBlock event) := by
  unfold ClientSync.applyBlock
  split
  · exact hi
  · rename_i hskip
    simp only [Bool.or_eq_true, not_or, Bool.not_eq_true, Option.isNone_eq_false_iff] at hskip
    have hk : c.committing (.task id .ok) = some (.block event.block_index) := by
      simp [committing, ht, hl, hskip.1, hskip.2]
    exact hi.insert (fun m hm _ => hok.applies _ hk m hm) (by simp)

theorem live_vouched {id : TaskId} {o : Outcome} {driver : Driver} {event : BlockEvent}
    {pc : LivePc} (hi : Vouched cfg c) (hok : Careful cfg c (.task id o))
    (ht : c.tasks id = some ⟨driver, .live event pc⟩)
    (hs : LiveStep cfg c id driver event pc o c') : Vouched cfg c' := by
  have hgen := hi.tasks id _ ht
  have hclaim : ∀ k, Task.claims cfg c.marker.rowGeneration ⟨driver, .live event pc⟩ = some k →
      k.Holds c.db := fun k hk => hi.claims k (.task ht hk)
  cases hs with
  | tail hc hh hpc =>
    refine (hi.calm hc).setTask id ?_ ?_ <;> rcases hpc with rfl | rfl | rfl <;>
      simp [Task.generation, Task.claims]
  | lock hpc =>
    have hwait : Vouched cfg (c.setLive id driver event (.lockWait c.marker.rowGeneration)) :=
      hi.setTask id (Nat.le_refl _) (by simp [Task.claims])
    exact hwait.congr rfl rfl rfl rfl rfl
  | @apply generation pc hl hpc =>
    have hi' := hi.applyBlock ht hl hok
    have hmarker : (c.applyBlock event).marker = c.marker := by rw [applyBlock_eq]
    have hset : Vouched cfg ((c.applyBlock event).setLive id driver event pc) := by
      refine hi'.setTask id ?_ ?_ <;> rw [hmarker, hpc]
      · split
        · exact hgen
        · rw [generation_afterRecompute]
          exact hgen
      · intro k hk
        split at hk
        · rename_i htracks
          simp only [Task.claims] at hk
          split at hk
          · obtain rfl := Option.some.inj hk
            obtain ⟨v, hv, hle⟩ := hok.live id driver event generation rfl ht htracks
            have hsound := hi'.claims _ (.marker (Or.inl (hmarker ▸ hv)))
            exact ⟨Replica.Sound.mono hsound hle, rfl⟩
          · simp at hk
        · rename_i htracks
          exact absurd (claims_afterRecompute hk).1 htracks
    exact hset.congr rfl rfl rfl rfl rfl
  | @recomputed generation seen =>
    have hmarker := marker_recomputePassed c event.block_index seen
    refine (hi.recomputePassed event.block_index seen).setTask id ?_ ?_ <;> rw [hmarker]
    · rw [generation_afterRecompute]
      exact hgen
    · intro k hk
      obtain ⟨-, rfl, rfl⟩ := claims_afterRecompute hk
      exact hi.sound_recomputePassed (hclaim _ (by simp [Task.claims]))
  | read => exact hi.setTask id hgen hclaim
  | hashed => exact hi.setTask id hgen hclaim
  | diverged =>
    exact (hi.halt .stateHash).calm (calm_endTask _ id driver)
  | @finish generation marker hm =>
    have hmark : Vouched cfg { c with marker := marker } := by
      rw [hm]
      split
      · rename_i htracks
        refine hi.queueMarkerWrite (.task id) hgen ?_
        intro n hn
        simp only [MarkerOp.claims] at hn
        split at hn
        · rename_i hcur
          obtain rfl := Option.some.inj hn
          exact hclaim (.upTo event.block_index) (by simp [Task.claims, htracks, hcur])
        · simp at hn
      · exact hi
    have hcursor : Vouched cfg { c with
        lastAppliedBlock := some event.block_index, marker := marker } :=
      hmark.congr rfl rfl rfl rfl rfl
    exact hcursor.setTask id (Nat.zero_le _) (by simp [Task.claims])
  | quit hc hgone hk => exact hi.calm hc

/-! ### Rollbacks -/

theorem rebased_removalOpened (cfg : Config) (c : ClientSync) :
    Rebased c.marker (c.removalOpened cfg).marker := by
  unfold removalOpened
  dsimp only
  split
  · exact ⟨rfl, rfl, rfl, by simp only [VerifiedTip.openRemoval, VerifiedTip.bumpRowGeneration]; omega⟩
  · exact ⟨rfl, rfl, rfl, Nat.le_succ _⟩

theorem rebased_endRowRemoval (m : VerifiedTip) : Rebased m m.endRowRemoval :=
  ⟨rfl, rfl, rfl, Nat.le_succ _⟩

/-- The lowering is queued; it claims nothing before it is written. -/
theorem Vouched.queueLower (hi : Vouched cfg c) (id : TaskId) (driver : Driver) (r : Rollback) :
    Vouched cfg (c.queueLower id driver r) := by
  have hqueue : Vouched cfg { c with
      marker := c.marker.queueMarkerWrite (.lower (r.event.block_index - 1)) (.task id) } :=
    hi.queueMarkerWrite (.task id) (Nat.zero_le _) (by simp [MarkerOp.claims])
  exact hqueue.setTask id (Nat.zero_le _) (by simp [Task.claims])

/-- A rollback goes on to a point that claims nothing. -/
theorem Vouched.setRollback (hi : Vouched cfg c) (id : TaskId) (driver : Driver) (r : Rollback)
    {pc : RollbackPc} (hpc : ∀ stored, pc ≠ .loaded stored) :
    Vouched cfg (c.setRollback id driver r pc) := by
  refine hi.setTask id (Nat.zero_le _) ?_
  intro k hk
  cases pc with
  | loaded stored => exact absurd rfl (hpc stored)
  | _ => simp [Task.claims] at hk

/-- The stored marker that was read becomes the one in memory. -/
theorem Vouched.loadVerifiedTip (hi : Vouched cfg c) {stored : Option Int}
    (hs : ∀ n, stored = some n → c.db.Sound n) :
    Vouched cfg { c with marker := c.marker.loadVerifiedTip stored } := by
  refine hi.setMarker (Nat.le_refl _) ?_ hi.writing hi.queue
  rintro n (hn | hn)
  · cases stored with
    | none => simp [VerifiedTip.loadVerifiedTip, Marker.ofStored] at hn
    | some x =>
      obtain rfl : x = n := Marker.num.inj hn
      exact hs x rfl
  · exact hi.claims _ (.marker (Or.inr hn))

theorem rollback_vouched {id : TaskId} {o : Outcome} {driver : Driver} {r : Rollback}
    {pc : RollbackPc} (hi : Vouched cfg c) (ht : c.tasks id = some ⟨driver, .rollback r pc⟩)
    (hs : RollbackStep cfg c id driver r pc o c') : Vouched cfg c' := by
  have hopen : Vouched cfg (c.removalOpened cfg) := hi.rebase (rebased_removalOpened cfg c)
  have hrecord : ∀ {c₁ : ClientSync}, Vouched cfg c₁ →
      Vouched cfg (c₁.recordRollback cfg id driver r) := by
    intro c₁ h₁
    have hguard : ∀ guard, Vouched cfg { c₁ with guard := guard } :=
      fun guard => h₁.congr rfl rfl rfl rfl rfl
    exact (hguard _).setRollback id driver r (by simp)
  cases hs with
  | openLoad hl hh htr hm => exact hopen.setRollback id driver r (by simp)
  | openLower hl hh htr hm => exact hopen.queueLower id driver r
  | openRecord hl hh htr => exact hrecord hopen
  | load =>
    refine hi.setTask id (Nat.zero_le _) ?_
    intro k hk
    obtain ⟨n, hn, rfl⟩ := Option.map_eq_some_iff.mp hk
    exact hi.claims _ (.stored hn)
  | @lower stored =>
    have hload : ∀ n, stored = some n → c.db.Sound n := by
      rintro n rfl
      exact hi.claims (.upTo n) (.task ht (by simp [Task.claims]))
    exact (hi.loadVerifiedTip hload).queueLower id driver r
  | record => exact hrecord hi
  | @persist state =>
    have hdb : Vouched cfg { c with db := { c.db with rollback_guard := state } } :=
      hi.setDb (Replica.kept_of_eq rfl rfl) (fun _ hn => Or.inl hn) rfl
    exact hdb.setRollback id driver r (by simp)
  | delete =>
    have hdel : Vouched cfg { c with
        db := c.db.deleteFrom r.event.block_index, marker := c.marker.endRowRemoval } :=
      hi.remove (fun _ hn => hn.deleteFrom _) (fun _ hn => hn.deleteFrom _) rfl rfl
        (rebased_endRowRemoval c.marker) (Nat.lt_succ_self _)
    have hset : Vouched cfg ({ c with
        db := c.db.deleteFrom r.event.block_index
        marker := c.marker.endRowRemoval }.setRollback id driver r .deleted) :=
      hdel.setRollback id driver r (by simp)
    exact hset.congr rfl rfl rfl rfl rfl
  | move =>
    have hcursor : Vouched cfg { c with lastAppliedBlock := some (r.event.block_index - 1) } :=
      hi.congr rfl rfl rfl rfl rfl
    exact hcursor.setRollback id driver r (by simp)
  | fail hc hid hk => exact (hi.rebase (rebased_endRowRemoval c.marker)).calls (hc .nothing)
  | returns hc hid hk => exact hi.calls (hc .nothing)

/-! ### The runner -/

/-- The join block of the replica is another, and nothing at or below it is applied. -/
theorem Vouched.setJoin (hi : Vouched cfg c) {base : Option Int}
    (hb : ∀ n, base = some n → c.db.UnappliedTo n) :
    Vouched cfg { c with bootstrapBase := base, db := { c.db with bootstrap_base := base } } where
  claims := by
    intro k hk
    have hkept : Replica.Kept c.db { c.db with bootstrap_base := base } :=
      Replica.kept_of_eq rfl rfl
    cases hk with
    | stored h => exact hkept.holds (hi.claims _ (.stored h))
    | joined h => exact (hb _ h).sound
    | marker h => exact hkept.holds (hi.claims _ (.marker h))
    | task ht h => exact hkept.holds (hi.claims _ (.task ht h))
    | walk hw h => exact hkept.holds (hi.claims _ (.walk hw h))
  joined := hb
  base := rfl
  writing := hi.writing
  tasks := hi.tasks
  walk := hi.walk
  queue := hi.queue

/-- An adopted marker is queued at a generation of its own. -/
theorem Vouched.queueAdopt (hi : Vouched cfg c) {n : Int} {strict : Bool} (hn : c.db.Sound n) :
    Vouched cfg { c with
      marker := c.marker.bumpRowGeneration.queueMarkerWrite (.adopt n strict) .runner } := by
  have hbump : Vouched cfg { c with marker := c.marker.bumpRowGeneration } :=
    hi.rebase ⟨rfl, rfl, rfl, Nat.le_succ _⟩
  refine hbump.queueMarkerWrite .runner (Nat.zero_le _) ?_
  intro x hx
  obtain rfl := Option.some.inj hx
  exact hn

theorem runner_vouched {r : Runner} (hi : Vouched cfg c) (hok : Careful cfg c a)
    (hr : c.catchUp = some r) (hs : RunnerStep cfg c r.pc a c') : Vouched cfg c' := by
  obtain ⟨before, pc⟩ := r
  cases hs with
  | moves hc hh hr' hm hk => exact (hi.calm hc).setRunner _
  | idles hc hk hr' => exact hi.calls hc
  | fresh =>
    refine Vouched.setRunner ?_ _
    unfold startVerifiedTipBelow
    split
    · rename_i htracks
      have htrusts := hok.trusts (sinceBlock none - 1) (by simp [trusts, hr, htracks])
      exact hi.setVerifiedTip (hi.sound_trusted htrusts)
    · exact hi
  | @range dbTip s hl =>
    have hk : c.committing (.runner .ok) = some (.range s.heights) := by simp [committing, hr, hl]
    have hins : Vouched cfg { c with db := c.db.insert (fun _ => true) s.heights } :=
      hi.insert (fun m hm _ => hok.applies _ hk m hm) (by simp)
    exact hins.congr rfl rfl rfl rfl rfl
  | @window base s hl =>
    have hk : c.committing (.runner .ok) = some (.window base s.heights) := by
      simp [committing, hr, hl]
    obtain ⟨hun, hread⟩ := hok.window base s.heights hk
    have hins : Vouched cfg { c with db := c.db.insert (fun h => base < h) s.heights } := by
      refine hi.insert ?_ ?_
      · intro m hm ha
        exact hok.applies _ hk m (List.mem_filter.mpr ⟨hm, ha⟩)
      · intro m hm ha
        simp only [decide_eq_false_iff_not] at ha
        exact ⟨hun.mono (by omega), fun n seen hn => hread n seen hn m hm⟩
    exact hins.congr rfl rfl rfl rfl rfl
  | replaceOpen hl =>
    have hopen : Vouched cfg { c with marker := c.marker.openRemoval } :=
      hi.rebase ⟨rfl, rfl, rfl, Nat.le_succ _⟩
    exact hopen.setRunner _
  | @replace s =>
    have hkeeps := { c.db with rows := [] }.insert_keeps (fun _ => false) s.heights
    have hrep : Vouched cfg { c with
        db := { c.db.replaceAll s.heights with rollback_guard := none }
        marker := c.marker.endRowRemoval } :=
      hi.remove (fun n _ => (Replica.unappliedTo_replaceAll c.db s.heights n).sound)
        (fun n _ => Replica.unappliedTo_replaceAll c.db s.heights n) hkeeps.1 hkeeps.2.2.2.1
        (rebased_endRowRemoval c.marker) (Nat.lt_succ_self _)
    exact hrep.congr rfl rfl rfl rfl rfl
  | replaceFailed =>
    have hend : Vouched cfg { c with marker := c.marker.endRowRemoval } :=
      hi.rebase (rebased_endRowRemoval c.marker)
    exact hend.congr rfl rfl rfl rfl rfl
  | fullCursor =>
    have hjoin : Vouched cfg { c with
        bootstrapBase := none, db := { c.db with bootstrap_base := none } } :=
      hi.setJoin (by simp)
    exact hjoin.congr rfl rfl rfl rfl rfl
  | @fullAdopt tip htip htracks =>
    have htrusts := hok.trusts tip (by simp [trusts, hr, htracks, htip])
    exact (hi.queueAdopt (hi.sound_trusted htrusts)).setRunner _
  | @windowAdopt base base' s hb htracks =>
    have hun := hok.joins base' (by simp [joinsAt, hr, hb])
    have hjoin : Vouched cfg (c.windowBased base') :=
      hi.setJoin fun n hn => Option.some.inj hn ▸ hun
    exact (hjoin.queueAdopt hun.sound).congr rfl rfl rfl rfl rfl
  | @windowLock base base' s hb htracks =>
    have hun := hok.joins base' (by simp [joinsAt, hr, hb])
    have hjoin : Vouched cfg (c.windowBased base') :=
      hi.setJoin fun n hn => Option.some.inj hn ▸ hun
    exact hjoin.congr rfl rfl rfl rfl rfl
  | _ => exact hi.congr rfl rfl rfl rfl rfl

/-! ### The walk -/

theorem Vouched.finishWalk (hi : Vouched cfg c) (v : TailVerdict) : Vouched cfg (c.finishWalk v) :=
  hi.calm (calm_finishWalk c v)

theorem generation_of_unchanged {m : VerifiedTip} {generation : Nat}
    (h : ¬ m.rowsChangedSince generation = true) : m.rowGeneration = generation := by
  simp only [VerifiedTip.rowsChangedSince, Bool.or_eq_true, decide_eq_true_eq, not_or, not_not] at h
  exact h.1

/-- The next recompute starts on everything below it. -/
theorem Vouched.checkBlock (hi : Vouched cfg c) {w : Walk} {h : Int} (lo tip : Int)
    (hg : w.generation ≤ c.marker.rowGeneration)
    (hs : w.generation = c.marker.rowGeneration → c.db.Sound (h - 1)) :
    Vouched cfg (c.checkBlock w h lo tip) := by
  unfold ClientSync.checkBlock
  split
  · exact hi.finishWalk .held
  · refine hi.setWalk hg ?_
    intro k hk
    simp only [Walk.claims] at hk
    split at hk
    · rename_i hcur
      obtain rfl := Option.some.inj hk
      exact ⟨hs hcur, rfl⟩
    · simp at hk

/-- The range starts above the marker in memory, or at the join block if that is higher. -/
theorem Vouched.beginRange (hi : Vouched cfg c) {w : Walk} {v : Int} (tip : Int)
    (hg : w.generation ≤ c.marker.rowGeneration) (hv : c.marker.verifiedTip = .num v) :
    Vouched cfg (c.beginRange w tip) := by
  have hsound : c.db.Sound v := hi.claims _ (.marker (Or.inl hv))
  unfold ClientSync.beginRange
  extract_lets above start
  have habove : above = v + 1 := by simp only [above, hv]
  have hstart : c.db.Sound (start - 1) := by
    cases hb : c.bootstrapBase with
    | none =>
      have heq : start = v + 1 := by simp only [start, hb, habove]
      exact hsound.mono (by omega)
    | some base =>
      have heq : start = max (v + 1) base := by simp only [start, hb, habove]
      by_cases hle : base ≤ v + 1
      · exact hsound.mono (by omega)
      · exact (hi.joined base hb).sound.mono (by omega)
  split
  · exact hi.finishWalk .ok
  · exact hi.checkBlock start tip hg fun _ => hstart

theorem Vouched.seedOrRange (hi : Vouched cfg c) {w : Walk} (tip : Int)
    (hg : w.generation ≤ c.marker.rowGeneration) : Vouched cfg (c.seedOrRange w tip) := by
  unfold ClientSync.seedOrRange
  split
  · rename_i v hv
    split
    · exact hi.setWalk hg (by simp [Walk.claims])
    · exact hi.beginRange tip hg hv
  · exact hi.setWalk hg (by simp [Walk.claims])

theorem Vouched.queuePersist (hi : Vouched cfg c) (w : Walk) : Vouched cfg (c.queuePersist w) :=
  hi.queueMarkerWrite .walk (Nat.zero_le _) (by simp [MarkerOp.claims])

theorem Vouched.nextBlock (hi : Vouched cfg c) {w : Walk} {h : Int} (lo tip : Int)
    (hg : w.generation ≤ c.marker.rowGeneration)
    (hs : w.generation = c.marker.rowGeneration → c.db.Sound h) :
    Vouched cfg (c.nextBlock cfg w h lo tip) := by
  unfold ClientSync.nextBlock
  split
  · refine hi.checkBlock lo tip hg fun hcur => ?_
    rw [show h + 1 - 1 = h by omega]
    exact hs hcur
  · refine (hi.queuePersist w).setWalk hg ?_
    intro k hk
    simp only [Walk.claims] at hk
    split at hk
    · rename_i hcur
      obtain rfl := Option.some.inj hk
      exact hs hcur
    · simp at hk

/-- A block that verified raises the marker in memory. -/
theorem Vouched.blockVerified (hi : Vouched cfg c) {w : Walk} {h : Int} (lo tip : Int)
    (hg : w.generation ≤ c.marker.rowGeneration)
    (hs : w.generation = c.marker.rowGeneration → c.db.Sound h) :
    Vouched cfg (c.blockVerified cfg w h lo tip) := by
  unfold ClientSync.blockVerified
  split
  · exact hi.finishWalk .held
  · rename_i hsame
    have hsound := hs (generation_of_unchanged hsame).symm
    have hmarker : (c.marker.noteVerifiedBlock h).rowGeneration = c.marker.rowGeneration := by
      unfold VerifiedTip.noteVerifiedBlock
      split
      · split <;> rfl
      · rfl
    have hnote : Vouched cfg { c with marker := c.marker.noteVerifiedBlock h } := by
      unfold VerifiedTip.noteVerifiedBlock
      split
      · split
        · exact hi.setVerifiedTip hsound
        · exact hi
      · exact hi.setVerifiedTip hsound
    dsimp only
    split
    · refine (hnote.queuePersist w).setWalk (hmarker.symm ▸ hg) ?_
      intro k hk
      simp only [Walk.claims] at hk
      split at hk
      · obtain rfl := Option.some.inj hk
        exact hsound
      · simp at hk
    · exact hnote.nextBlock lo tip (hmarker.symm ▸ hg) fun _ => hsound

theorem Vouched.blockFailed (hi : Vouched cfg c) {w : Walk} (reason : Option HaltReason)
    (hg : w.generation ≤ c.marker.rowGeneration) : Vouched cfg (c.blockFailed w reason) := by
  unfold ClientSync.blockFailed
  split
  · exact hi.finishWalk .held
  · exact (hi.queuePersist w).setWalk hg (by simp [Walk.claims])

theorem walk_vouched {w : Walk} {o : Outcome} (hi : Vouched cfg c)
    (hok : Careful cfg c (.walk o)) (hw : c.tailVerify = some w)
    (hs : c.walkStep cfg w w.pc o = some c') : Vouched cfg c' := by
  have hg := hi.walk w hw
  have hclaim : ∀ k, w.claims c.marker.rowGeneration = some k → k.Holds c.db :=
    fun k hk => hi.claims k (.walk hw hk)
  have hpassed : ∀ h lo tip seen, w.pc = .recompute h lo tip seen →
      w.generation = c.marker.rowGeneration → (c.recomputePassed h seen).db.Sound h := by
    intro h lo tip seen hpc hcur
    exact hi.sound_recomputePassed (hclaim _ (by simp [Walk.claims, hpc, hcur]))
  obtain ⟨generation, seeded, pc⟩ := w
  revert hs
  dsimp only at hg hclaim hpassed ⊢
  fun_cases walkStep cfg c ⟨generation, seeded, pc⟩ pc o
  all_goals intro hs
  all_goals simp only [Option.some.injEq, reduceCtorEq] at hs
  all_goals subst hs
  · exact hi.setWalk hg (by simp [Walk.claims])
  · exact hi.finishWalk _
  · exact hi.finishWalk _
  · exact hi.setWalk hg (by simp [Walk.claims])
  · exact hi.seedOrRange _ hg
  · refine hi.setWalk hg ?_
    intro k hk
    obtain ⟨n, hn, rfl⟩ := Option.map_eq_some_iff.mp hk
    exact hi.claims _ (.stored hn)
  · exact hi.finishWalk _
  · rename_i tip stored
    have hload : ∀ n, stored = some n → c.db.Sound n := by
      rintro n rfl
      exact hclaim (.upTo n) (by simp [Walk.claims])
    exact (hi.loadVerifiedTip hload).seedOrRange tip hg
  · rename_i tip start marker
    have htrusts := hok.trusts (start - 1) (by simp only [trusts, hw]; rfl)
    exact (hi.setVerifiedTip (hi.sound_trusted htrusts)).beginRange tip hg rfl
  · refine (hi.recomputePassed _ _).setWalk ((marker_recomputePassed c _ _).symm ▸ hg) ?_
    rw [marker_recomputePassed]
    intro k hk
    simp only [Walk.claims] at hk
    split at hk
    · obtain rfl := Option.some.inj hk
      exact hpassed _ _ _ _ rfl (by assumption)
    · simp at hk
  · refine (hi.recomputePassed _ _).blockVerified _ _ ((marker_recomputePassed c _ _).symm ▸ hg) ?_
    rw [marker_recomputePassed]
    exact hpassed _ _ _ _ rfl
  · refine (hi.recomputePassed _ _).blockVerified _ _ ((marker_recomputePassed c _ _).symm ▸ hg) ?_
    rw [marker_recomputePassed]
    exact hpassed _ _ _ _ rfl
  · exact hi.blockFailed _ hg
  · exact hi.blockFailed _ hg
  · exact hi.blockFailed _ hg
  · exact hi.setWalk hg hclaim
  · exact hi.blockVerified _ _ hg fun hcur => hclaim (.upTo _) (if_pos hcur)
  · exact hi.blockFailed _ hg
  · exact hi.blockFailed _ hg
  · exact hi.nextBlock _ _ hg fun hcur => hclaim (.upTo _) (if_pos hcur)
  · exact hi.finishWalk _
  · rename_i h tip _ _ _
    refine hi.setWalk hg ?_
    intro k hk
    refine hclaim k ?_
    simp only [Walk.claims, Int.add_sub_cancel] at hk ⊢
    exact hk
  · rename_i pending
    have hdone : Vouched cfg { c with db := { c.db with post_commit_verify_pending := pending } } :=
      hi.setDb (Replica.kept_of_eq rfl rfl) (fun _ hn => Or.inl hn) rfl
    exact hdone.finishWalk _
  · exact hi.checkBlock _ _ hg fun hcur => hclaim (.upTo _) (if_pos hcur)
  · exact (hi.halt _).finishWalk _
  · exact hi.finishWalk _
  · exact hi.finishWalk _

/-! ### The marker queue -/

/-- The write at the head is dropped or over. -/
theorem Vouched.dequeueWrite (hi : Vouched cfg c) : Vouched cfg c.dequeueWrite := by
  refine hi.setMarker (Nat.le_refl _) ?_ (by simp) fun w hw => hi.queue w (List.mem_of_mem_tail hw)
  rintro n (hn | hn | ⟨w, hw, hn⟩)
  · exact hi.claims _ (.marker (Or.inl hn))
  · simp at hn
  · exact hi.claims _ (.marker (Or.inr (Or.inr ⟨w, List.mem_of_mem_tail hw, hn⟩)))

/-- The write at the head is under way with a value that is sound. -/
theorem Vouched.beginWrite (hi : Vouched cfg c) {w : MarkerWrite} {rest : List MarkerWrite} {n : Int}
    (hq : c.marker.markerWrites = w :: rest) (hn : c.db.Sound n)
    (hlower : ∀ m, w.op = .lower m → n = m) : Vouched cfg (c.beginWrite n) := by
  refine hi.setMarker (Nat.le_refl _) ?_ ?_ hi.queue
  · rintro x (hx | hx | hx)
    · exact hi.claims _ (.marker (Or.inl hx))
    · obtain rfl := Option.some.inj hx
      exact hn
    · exact hi.claims _ (.marker (Or.inr (Or.inr hx)))
  · intro x hx
    obtain rfl := Option.some.inj hx
    exact ⟨w, rest, hq, hlower⟩

theorem startWrite_vouched {w : MarkerWrite} {rest : List MarkerWrite} (hi : Vouched cfg c)
    (hok : Careful cfg c (.markerWrite .ok)) (hq : c.marker.markerWrites = w :: rest)
    (hw : c.marker.writing = none) : Vouched cfg (c.startWrite w.op) := by
  obtain ⟨op, owner⟩ := w
  have hqueued : ∀ n, op.claims c.marker.rowGeneration = some n → c.db.Sound n := fun n hn =>
    hi.claims (.upTo n) (.marker (Or.inr (Or.inr ⟨⟨op, owner⟩, by simp [hq], hn⟩)))
  cases op with
  | advance n generation =>
    have hadvance : c.marker.rowsChangedSince generation ≠ true →
        Vouched cfg ((c.setVerifiedTip n).beginWrite n) := by
      intro hsame
      have hcur := generation_of_unchanged hsame
      have hsound := hqueued n (by simp [MarkerOp.claims, hcur])
      exact (hi.setVerifiedTip hsound).beginWrite hq hsound (by simp)
    simp only [startWrite]
    split
    · exact hi.dequeueWrite
    · split
      · split
        · exact hi.dequeueWrite
        · exact hadvance (by assumption)
      · exact hadvance (by assumption)
  | persist generation =>
    simp only [startWrite]
    split
    · exact hi.dequeueWrite
    · split
      · rename_i v hv
        split
        · exact hi.dequeueWrite
        · exact hi.beginWrite hq (hi.claims (.upTo v) (.marker (Or.inl hv))) (by simp)
      · exact hi.dequeueWrite
  | lower n =>
    simp only [startWrite]
    split
    · rename_i v hv
      split
      · exact hi.dequeueWrite
      · have hsound := hi.claims (.upTo v) (.marker (Or.inl hv))
        exact hi.beginWrite hq (Replica.Sound.mono hsound (by omega)) (by simp)
    · rename_i hnot
      have htrusts := hok.trusts n (by simp only [trusts, hq, hw]; rfl)
      exact hi.beginWrite hq (hi.sound_trusted htrusts) (by simp)
  | adopt n strict => exact hi.beginWrite hq (hqueued n rfl) (by simp)

/-- The value under way is stored. -/
theorem Vouched.landed (hi : Vouched cfg c) {n : Int} (hn : c.db.Sound n) :
    Vouched cfg (c.landed n) := by
  have hstored : Vouched cfg { c with db := { c.db with verified_tip := some n } } := by
    refine hi.setDb (Replica.kept_of_eq rfl rfl) ?_ rfl
    intro x hx
    obtain rfl := Option.some.inj hx
    exact Or.inr hn
  have hpersisted : Vouched cfg { c with
      db := { c.db with verified_tip := some n }
      marker := { c.marker with persistedVerifiedTip := some n } } :=
    hstored.rebase ⟨rfl, rfl, rfl, Nat.le_refl _⟩
  exact hpersisted.dequeueWrite

theorem writeLanded_vouched {w : MarkerWrite} {rest : List MarkerWrite} {n : Int}
    (hi : Vouched cfg c) (hq : c.marker.markerWrites = w :: rest)
    (hw : c.marker.writing = some n) : Vouched cfg (c.writeLanded n w.op) := by
  have hn : c.db.Sound n := hi.claims (.upTo n) (.marker (Or.inr (Or.inl hw)))
  have hland := hi.landed hn
  obtain ⟨op, owner⟩ := w
  cases op with
  | lower m =>
    obtain ⟨w', rest', hq', hlower⟩ := hi.writing n hw
    obtain rfl : w' = ⟨.lower m, owner⟩ := (List.cons.inj (hq'.symm.trans hq)).1
    obtain rfl := hlower m rfl
    exact hland.setVerifiedTip hn
  | adopt m strict =>
    have hm : c.db.Sound m :=
      hi.claims (.upTo m) (.marker (Or.inr (Or.inr ⟨⟨.adopt m strict, owner⟩, by simp [hq], rfl⟩)))
    exact hland.setVerifiedTip hm
  | _ => exact hland

theorem Vouched.throwInto (hi : Vouched cfg c) (owner : Party) : Vouched cfg (c.throwInto owner) := by
  unfold ClientSync.throwInto
  split
  · split
    · rename_i id _ driver r _ _
      have hend : Vouched cfg { c with marker := c.marker.endRowRemoval } :=
        hi.rebase (rebased_endRowRemoval c.marker)
      exact hend.calls (calls_failRollback (e := .nothing) c id driver r)
    · exact hi
  · exact hi.calm (calm_windowRetry c)
  · exact hi

theorem writeFailed_vouched {w : MarkerWrite} {rest : List MarkerWrite} (hi : Vouched cfg c)
    (hq : c.marker.markerWrites = w :: rest) : Vouched cfg (c.writeFailed w.owner w.op) := by
  obtain ⟨op, owner⟩ := w
  cases op with
  | lower m => exact hi.dequeueWrite.throwInto owner
  | adopt m strict =>
    simp only [writeFailed]
    split
    · exact hi.dequeueWrite.throwInto owner
    · have hm : c.db.Sound m := hi.claims (.upTo m)
        (.marker (Or.inr (Or.inr ⟨⟨.adopt m strict, owner⟩, by simp [hq], rfl⟩)))
      exact hi.dequeueWrite.setVerifiedTip hm
  | _ => exact hi.dequeueWrite

theorem marker_vouched {o : Outcome} (hi : Vouched cfg c) (hok : Careful cfg c (.markerWrite o))
    (hs : c.markerStep o = some c') : Vouched cfg c' := by
  unfold markerStep at hs
  split at hs
  · obtain rfl := Option.some.inj hs
    exact startWrite_vouched hi hok (by assumption) (by assumption)
  · obtain rfl := Option.some.inj hs
    exact writeLanded_vouched hi (by assumption) (by assumption)
  · obtain rfl := Option.some.inj hs
    exact writeFailed_vouched hi (by assumption)
  · simp at hs

/-! ### Runs -/

/-- A process knows only what is stored. -/
theorem vouched_restart {db : Replica} (hstored : ∀ n, db.verified_tip = some n → db.Sound n)
    (hjoin : ∀ n, db.bootstrap_base = some n → db.UnappliedTo n) (halted : Option HaltReason) :
    Vouched cfg (restart db halted) where
  claims := by
    intro k hk
    cases hk with
    | stored h => exact hstored _ h
    | joined h => exact (hjoin _ h).sound
    | marker h => rcases h with h | h | ⟨w, hw, -⟩ <;> simp_all [restart, VerifiedTip.init]
    | task ht h => simp [restart] at ht
    | walk hw h => simp [restart] at hw
  joined := hjoin
  base := rfl
  writing := by simp [restart, VerifiedTip.init]
  tasks := by simp [restart]
  walk := by simp [restart]
  queue := by simp [restart, VerifiedTip.init]

theorem step_vouched (hi : Vouched cfg c) (hok : Careful cfg c a) (h : Steps cfg c a c') :
    Vouched cfg c' := by
  cases step_cases h with
  | calls hc he => exact hi.calls hc
  | live ht hs => exact live_vouched hi hok ht hs
  | rollback ht hs => exact rollback_vouched hi ht hs
  | runner ha hr hs => exact runner_vouched hi hok hr hs
  | walk hw hs => exact walk_vouched hi hok hw hs
  | marker hs => exact marker_vouched hi hok hs
  | cleared hh =>
    have hclear : Vouched cfg { c with halted := none } := hi.congr rfl rfl rfl rfl rfl
    unfold cleared
    dsimp only
    split
    · have hdb : Vouched cfg { c with halted := none, db := { c.db with rollback_guard := none } } :=
        hclear.setDb (Replica.kept_of_eq rfl rfl) (fun _ hn => Or.inl hn) rfl
      exact hdb.congr rfl rfl rfl rfl rfl
    · exact hclear
  | crash =>
    refine vouched_restart (fun n hn => hi.claims (.upTo n) (.stored hn)) ?_ _
    intro n hn
    exact hi.joined n (hi.base.trans hn)

/-- Steps that commit nothing, trust nothing and apply no live block. -/
def Plain (cfg : Config) (c : ClientSync) (a : Action) : Prop :=
  c.committing a = none ∧ c.trusts cfg a = none ∧ c.joinsAt a = none ∧
    match a with
    | .task _ _ => False
    | _ => True

instance (c : ClientSync) (a : Action) : Decidable (Plain cfg c a) := by
  unfold Plain
  cases a <;> infer_instance

theorem Plain.careful (h : Plain cfg c a) : Careful cfg c a where
  applies := fun k hk => by simp [h.1] at hk
  window := fun base hs hk => by simp [h.1] at hk
  live := by
    rintro id driver event generation rfl
    exact h.2.2.2.elim
  trusts := fun n hn => by simp [h.2.1] at hn
  joins := fun n hn => by simp [h.2.2.1] at hn

/-- The walk of a pass that verifies one block and queues its marker write. -/
def walkVerifies : List Action := [.walk .ok, .walk .read, .walk .ok]

/-- A start on a replica without a marker: the walk seeds one below the tip and verifies the tip. -/
def seedAtTip : List Action :=
  [.startup, .runner .ok, .runner .ok, .walk .ok, .walk .ok, .walk .ok, .walk .ok, .walk .ok] ++
    walkVerifies

/-- Nothing is in flight, and the marker stored and in memory is at `n`. -/
structure AtRest (c : ClientSync) (n : Int) : Prop where
  stored : c.db.verified_tip = some n
  joined : c.bootstrapBase = none
  marker : c.marker.verifiedTip = .num n
  writing : c.marker.writing = none
  queue : c.marker.markerWrites = []
  tasks : ∀ id, c.tasks id = none
  walk : c.tailVerify = none

theorem AtRest.claims {n : Int} {k : Claim} (h : c.AtRest n) (hk : c.Claims cfg k) :
    k = .upTo n := by
  cases hk with
  | stored hs => rw [Option.some.inj (h.stored.symm.trans hs)]
  | joined hj => simp [h.joined] at hj
  | marker hm =>
    rcases hm with hv | hw | ⟨w, hw, -⟩
    · rw [Marker.num.inj (h.marker.symm.trans hv)]
    · simp [h.writing] at hw
    · simp [h.queue] at hw
  | task ht hk => simp [h.tasks] at ht
  | walk hw hk => simp [h.walk] at hw

/-- A range above the marker, committed with nothing in flight. -/
theorem AtRest.careful {n : Int} {hs : List Int} (h : c.AtRest n)
    (hk : c.committing (.runner .ok) = some (.range hs)) (hs' : ∀ m ∈ hs, n < m) :
    Careful cfg c (.runner .ok) := by
  obtain ⟨before, dbTip, s, hr⟩ : ∃ before dbTip s, c.catchUp = some ⟨before, .lockWait dbTip s⟩ := by
    cases committing_cases hk with
    | range hr hl => exact ⟨_, _, _, hr⟩
  constructor
  case applies =>
    intro k' hk' m hm q hq
    obtain rfl := Option.some.inj (hk.symm.trans hk')
    obtain rfl := h.claims hq
    exact hs' m hm
  case window =>
    intro base hs'' hk'
    simp [hk] at hk'
  case live =>
    intro id driver event generation ha
    simp at ha
  case trusts => simp [ClientSync.trusts, hr]
  case joins => simp [joinsAt, hr]

/-- The pass up to its commit of block 11. -/
def passToCommit : List Action :=
  passToDownload ++ [.runnerGets ⟨[11], some 11, some 11⟩, .runner .ok]

/-- The rest of the pass, with the walk that verifies block 11 and the write of the marker. -/
def commitVerified : List Action :=
  [.runner .ok, .runner .ok, .walk .ok, .walk .ok] ++ walkVerifies ++ [.markerWrite .ok, .markerWrite .ok]

end ClientSync

end XChainSync.Client
