import XChainSync.Client.Cases

/-!
# What the walk and the marker queue leave alone

Verification reads the rows and writes its own notes beside them. Everything else a step of the walk
or of the marker queue does is to start or end calls.
-/

namespace XChainSync.Client
set_option autoImplicit false

namespace ClientSync
variable {cfg : Config} {c c' : ClientSync}

/-- `c'` is `c` up to what verification keeps for itself: the markers, the walk, which rows were
recomputed, and a halt. -/
structure Notes (c c' : ClientSync) : Prop where
  rows : c'.db.rows = c.db.rows
  highest : c'.db.highest = c.db.highest
  rollback_guard : c'.db.rollback_guard = c.db.rollback_guard
  lastAppliedBlock : c'.lastAppliedBlock = c.lastAppliedBlock
  guard : c'.guard = c.guard
  votes : c'.votes = c.votes
  reorgs : c'.reorgs = c.reorgs
  delivered : c'.delivered = c.delivered
  tasks : c'.tasks = c.tasks
  catchUp : c'.catchUp = c.catchUp
  halted : c.halted ≠ none → c'.halted = c.halted

theorem Notes.refl (c : ClientSync) : Notes c c :=
  ⟨rfl, rfl, rfl, rfl, rfl, rfl, rfl, rfl, rfl, rfl, fun _ => rfl⟩

theorem Notes.trans {c₁ c₂ : ClientSync} (h : Notes c c₁) (h' : Notes c₁ c₂) : Notes c c₂ where
  rows := h'.rows.trans h.rows
  highest := h'.highest.trans h.highest
  rollback_guard := h'.rollback_guard.trans h.rollback_guard
  lastAppliedBlock := h'.lastAppliedBlock.trans h.lastAppliedBlock
  guard := h'.guard.trans h.guard
  votes := h'.votes.trans h.votes
  reorgs := h'.reorgs.trans h.reorgs
  delivered := h'.delivered.trans h.delivered
  tasks := h'.tasks.trans h.tasks
  catchUp := h'.catchUp.trans h.catchUp
  halted := fun hc => (h'.halted (by rw [h.halted hc]; exact hc)).trans (h.halted hc)

theorem notes_recomputePassed (c : ClientSync) (h : Int) (seen : List Nat) :
    Notes c (c.recomputePassed h seen) := by
  unfold recomputePassed
  split
  · exact Notes.refl c
  · refine { Notes.refl c with rows := by simp, highest := ?_, rollback_guard := ?_ } <;>
      (dsimp only; unfold Replica.markRecomputed; split <;> rfl)

theorem notes_marker (c : ClientSync) (marker : VerifiedTip) :
    Notes c { c with marker := marker } := { Notes.refl c with }

theorem notes_halt (c : ClientSync) (reason : HaltReason) : Notes c (c.halt reason) := by
  unfold halt
  split
  · exact Notes.refl c
  · rename_i h
    exact { Notes.refl c with halted := fun hc => absurd (by simpa using h) hc }

/-- What a step of the walk or of the marker queue does to everything else. -/
def Noted (cfg : Config) (c c' : ClientSync) : Prop := ∃ c₁, Notes c c₁ ∧ Calls cfg .nothing c₁ c'

theorem Notes.noted {c₁ : ClientSync} (h : Notes c c₁) : Noted cfg c c₁ :=
  ⟨c₁, h, (Calm.refl c₁).calls⟩

theorem Notes.then_noted {c₁ : ClientSync} (h : Notes c c₁) (h' : Noted cfg c₁ c') :
    Noted cfg c c' := by
  obtain ⟨c₂, h₂, hc⟩ := h'
  exact ⟨c₂, h.trans h₂, hc⟩

theorem notes_setWalk (c : ClientSync) (w : Walk) (pc : WalkPc) : Notes c (c.setWalk w pc) :=
  { Notes.refl c with }

theorem notes_queuePersist (c : ClientSync) (w : Walk) : Notes c (c.queuePersist w) :=
  { Notes.refl c with }

theorem noted_finishWalk (c : ClientSync) (v : TailVerdict) : Noted cfg c (c.finishWalk v) :=
  ⟨c, Notes.refl c, (calm_finishWalk c v).calls⟩

theorem noted_checkBlock (c : ClientSync) (w : Walk) (h lo tip : Int) :
    Noted cfg c (c.checkBlock w h lo tip) := by
  unfold checkBlock
  split
  · exact noted_finishWalk c .held
  · exact (notes_setWalk c w _).noted

theorem noted_beginRange (c : ClientSync) (w : Walk) (tip : Int) :
    Noted cfg c (c.beginRange w tip) := by
  unfold beginRange
  extract_lets above start
  split
  · exact noted_finishWalk c .ok
  · exact noted_checkBlock c w _ _ tip

theorem noted_seedOrRange (c : ClientSync) (w : Walk) (tip : Int) :
    Noted cfg c (c.seedOrRange w tip) := by
  unfold seedOrRange
  split
  · split
    · exact (notes_setWalk c w _).noted
    · exact noted_beginRange c w tip
  · exact (notes_setWalk c w _).noted

theorem noted_nextBlock (c : ClientSync) (w : Walk) (h lo tip : Int) :
    Noted cfg c (c.nextBlock cfg w h lo tip) := by
  unfold nextBlock
  split
  · exact noted_checkBlock c w _ lo tip
  · exact ((notes_queuePersist c w).trans (notes_setWalk _ w _)).noted

theorem noted_blockVerified (c : ClientSync) (w : Walk) (h lo tip : Int) :
    Noted cfg c (c.blockVerified cfg w h lo tip) := by
  have hnote : Notes c { c with marker := c.marker.noteVerifiedBlock h } := { Notes.refl c with }
  unfold blockVerified
  split
  · exact noted_finishWalk c .held
  · dsimp only
    split
    · exact (hnote.trans ((notes_queuePersist _ w).trans (notes_setWalk _ w _))).noted
    · exact hnote.then_noted (noted_nextBlock _ w h lo tip)

theorem noted_blockFailed (c : ClientSync) (w : Walk) (reason : Option HaltReason) :
    Noted cfg c (c.blockFailed w reason) := by
  unfold blockFailed
  split
  · exact noted_finishWalk c .held
  · exact ((notes_queuePersist c w).trans (notes_setWalk _ w _)).noted

theorem noted_walkStep {w : Walk} {pc : WalkPc} {o : Outcome}
    (h : c.walkStep cfg w pc o = some c') : Noted cfg c c' := by
  revert h
  fun_cases walkStep cfg c w pc o
  all_goals intro h
  all_goals simp only [Option.some.injEq, reduceCtorEq] at h
  all_goals subst h
  · exact (notes_setWalk c w _).noted
  · exact noted_finishWalk c _
  · exact noted_finishWalk c _
  · exact (notes_setWalk c w _).noted
  · exact noted_seedOrRange c w _
  · exact (notes_setWalk c w _).noted
  · exact noted_finishWalk c _
  · exact (notes_marker c _).then_noted (noted_seedOrRange _ w _)
  · exact (notes_marker c _).then_noted (noted_beginRange _ _ _)
  · exact ((notes_recomputePassed c _ _).trans (notes_setWalk _ w _)).noted
  · exact (notes_recomputePassed c _ _).then_noted (noted_blockVerified _ w _ _ _)
  · exact (notes_recomputePassed c _ _).then_noted (noted_blockVerified _ w _ _ _)
  · exact noted_blockFailed c w _
  · exact noted_blockFailed c w _
  · exact noted_blockFailed c w _
  · exact (notes_setWalk c w _).noted
  · exact noted_blockVerified c w _ _ _
  · exact noted_blockFailed c w _
  · exact noted_blockFailed c w _
  · exact noted_nextBlock c w _ _ _
  · exact noted_finishWalk c _
  · exact (notes_setWalk c w _).noted
  · rename_i pending
    have hdone : Notes c { c with db := { c.db with post_commit_verify_pending := pending } } :=
      { Notes.refl c with }
    exact hdone.then_noted (noted_finishWalk _ _)
  · exact noted_checkBlock c w _ _ _
  · exact (notes_halt c _).then_noted (noted_finishWalk _ _)
  · exact noted_finishWalk c _
  · exact noted_finishWalk c _

/-! ### Marker writes -/

/-- What a step of the marker queue does: it writes the stored marker and the marker in memory, and
may throw into the call that waits for it. -/
def MarkerNoted (cfg : Config) (c c' : ClientSync) : Prop :=
  ∃ (verified_tip : Option Int) (marker : VerifiedTip),
    c.marker.rowGeneration ≤ marker.rowGeneration ∧
      Calls cfg .nothing
        { c with db := { c.db with verified_tip := verified_tip }, marker := marker } c'

theorem markerNoted_writes (c : ClientSync) (verified_tip : Option Int) {marker : VerifiedTip}
    (h : marker.rowGeneration = c.marker.rowGeneration) :
    MarkerNoted cfg c
      { c with db := { c.db with verified_tip := verified_tip }, marker := marker } :=
  ⟨verified_tip, marker, h.ge, (Calm.refl _).calls⟩

theorem markerNoted_startWrite (c : ClientSync) (op : MarkerOp) :
    MarkerNoted cfg c (c.startWrite op) := by
  unfold startWrite
  repeat' split
  all_goals exact markerNoted_writes c c.db.verified_tip rfl

theorem markerNoted_writeLanded (c : ClientSync) (v : Int) (op : MarkerOp) :
    MarkerNoted cfg c (c.writeLanded v op) := by
  unfold writeLanded
  split <;> exact markerNoted_writes c (some v) rfl

theorem markerNoted_throwInto (c : ClientSync) (owner : Party) :
    MarkerNoted cfg c (c.dequeueWrite.throwInto owner) := by
  have hsame := @markerNoted_writes cfg c c.db.verified_tip c.dequeueWrite.marker rfl
  unfold throwInto
  split
  · split
    · rename_i id _ driver r _ _
      exact ⟨c.db.verified_tip, c.dequeueWrite.marker.endRowRemoval, Nat.le_succ _,
        calls_failRollback c.dequeueWrite id driver r⟩
    · exact hsame
  · exact ⟨c.db.verified_tip, c.dequeueWrite.marker, Nat.le_refl _,
      (calm_windowRetry c.dequeueWrite).calls⟩
  · exact hsame

theorem markerNoted_writeFailed (c : ClientSync) (owner : Party) (op : MarkerOp) :
    MarkerNoted cfg c (c.writeFailed owner op) := by
  unfold writeFailed
  split
  · exact markerNoted_throwInto c owner
  · split
    · exact markerNoted_throwInto c owner
    · exact markerNoted_writes c c.db.verified_tip rfl
  · exact markerNoted_writes c c.db.verified_tip rfl

theorem markerNoted_markerStep {o : Outcome} (h : c.markerStep o = some c') :
    MarkerNoted cfg c c' := by
  unfold markerStep at h
  split at h
  · obtain rfl := Option.some.inj h
    exact markerNoted_startWrite c _
  · obtain rfl := Option.some.inj h
    exact markerNoted_writeLanded c _ _
  · obtain rfl := Option.some.inj h
    exact markerNoted_writeFailed c _ _
  · simp at h

theorem MarkerNoted.noted (h : MarkerNoted cfg c c') : Noted cfg c c' := by
  obtain ⟨verified_tip, marker, -, hc⟩ := h
  refine ⟨_, ?_, hc⟩
  exact { Notes.refl c with }

end ClientSync

end XChainSync.Client
