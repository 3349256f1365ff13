import XChainSync.Halts.Records

/-!
# Halts survive restarts

As long as no clear is called over a halt write in flight or over another clear, a recorded halt
keeps every later process from applying until it is cleared itself.
-/

namespace XChainSync.Halts
set_option autoImplicit false

open Runs

namespace Client
variable {s : Client}

/-- No clear is called over a halt write in flight or over another clear. -/
def Uncrossed (s : Client) (e : Event) : Prop :=
  e = .clearHalt → s.halted.isSome → s.writes = [] ∧ s.clears = []

instance (s : Client) (e : Event) : Decidable (s.Uncrossed e) :=
  inferInstanceAs (Decidable (_ → _))

theorem inv_clearHalt (h : Inv s) (he : s.Uncrossed .clearHalt) : Inv s.clearHalt := by
  unfold clearHalt
  split
  · exact h
  · rename_i held hheld
    obtain ⟨hwrites, hclears⟩ := he rfl (by simp [hheld])
    have hcall : ∀ stage, Clear.Sound ⟨held, s.haltDurable, stage, false⟩ s.store →
        Tasks s.store s.halted s.writes (s.clears ++ [⟨held, s.haltDurable, stage, false⟩]) :=
      fun stage hsound => ⟨h.2.writes, .inr ⟨_, by simp [hclears], hheld, hwrites, hsound⟩⟩
    dsimp only
    split
    · refine ⟨h.1.move rfl h.1.allows.none h.1.passedRows fun hcopy => ?_, ?_⟩
      · exact h.1.passedCopy hcopy (by simp [hheld])
      · simp only [hwrites, hclears]
        exact tasks_nil
    · exact ⟨h.1, hcall .resetting ⟨by simp, by simp [ClearStage.resets], by simp [Held.synthetic],
        by simp⟩⟩
    · rename_i hfailed hguard
      refine ⟨h.1, hcall .updating ⟨hfailed, fun hkind => absurd hkind hguard, ?_, by simp⟩⟩
      simp [ClearStage.past]

theorem inv_step (h : Inv s) (hcancelled : s.Cancelled) {e : Event} (he : s.Uncrossed e) :
    Inv (s.step e) := by
  cases e with
  | readHalt answered => exact inv_readHalt h answered
  | wake => exact inv_wake h
  | readGuard valid => exact inv_readGuard h valid
  | readCopy answered empty => exact inv_readCopy h answered empty
  | synchronized empty => exact inv_synchronized h empty
  | apply => exact inv_apply h
  | halt blockIndex reason => exact inv_halt h blockIndex reason
  | timer => exact inv_timer h hcancelled
  | write i landed answered => exact inv_write h i landed answered
  | clearHalt => exact inv_clearHalt h he
  | clear i landed answered => exact inv_clear h i landed answered
  | crash => exact inv_crash h

/-! ### What a step does to the store, the timer and the count -/

theorem store_enterLive (s : Client) (empty : Bool) : (s.enterLive empty).store = s.store := by
  unfold enterLive
  repeat' split
  all_goals rfl

theorem cancelled_enterLive (h : s.Cancelled) (empty : Bool) : (s.enterLive empty).Cancelled := by
  unfold enterLive
  split
  · exact h
  · split
    · exact .inl rfl
    · exact h

/-- The writes that reach the store. -/
inductive StoreStep (st : Store) : Store → Prop where
  | same : StoreStep st st
  | insertHalt (h : Halt) : StoreStep st (st.insertHalt h)
  | saveCopy (h : Halt) : StoreStep st (st.saveCopy h)
  | clearHalt (numbers : List Nat) : StoreStep st (st.clearHalt numbers)
  | removeCopy (c : Option Copy) : StoreStep st { st with copy := c }

theorem StoreStep.ite {st st' : Store} (h : StoreStep st st') (landed : Bool) :
    StoreStep st (if landed then st' else st) := by
  split
  · exact h
  · exact .same

theorem storeStep_write (s : Client) (i : Nat) (landed answered : Bool) :
    StoreStep s.store (s.write i landed answered).store := by
  unfold write
  split
  · exact .same
  · rename_i w _
    split
    · repeat' split
      all_goals exact .same
    · exact (StoreStep.insertHalt w.halt).ite landed
    · split
      · exact .same
      · split <;> exact .same
    · split <;> exact .same
    · exact (StoreStep.saveCopy w.halt).ite landed
    · exact .same
    · dsimp only
      split
      · exact (StoreStep.removeCopy none).ite landed
      · exact (StoreStep.removeCopy none).ite landed
    · exact (StoreStep.removeCopy (some .blank)).ite landed

theorem storeStep_clear (s : Client) (i : Nat) (landed answered : Bool) :
    StoreStep s.store (s.clear i landed answered).store := by
  unfold clear
  split
  · exact .same
  · rename_i c _
    split
    · exact (StoreStep.clearHalt c.target.numbers).ite landed
    · exact .same
    · exact .same
    · exact (StoreStep.removeCopy none).ite landed
    · split <;> exact .same
    · exact .same
    · exact (StoreStep.removeCopy (some .blank)).ite landed
    · exact .same
    · exact .same

/-- Outside the writes and the clears the store stays. -/
theorem store_startup (s : Client) :
    (∀ a, (s.readHalt a).store = s.store) ∧ s.wake.store = s.store ∧
    (∀ v, (s.readGuard v).store = s.store) ∧ (∀ a m, (s.readCopy a m).store = s.store) ∧
    (∀ m, (s.synchronized m).store = s.store) := by
  refine ⟨fun a => ?_, ?_, fun v => ?_, fun a m => ?_, fun m => ?_⟩
  · unfold readHalt
    repeat' split
    all_goals rfl
  · unfold wake
    repeat' split
    all_goals rfl
  · unfold readGuard
    repeat' split
    all_goals rfl
  · unfold readCopy
    repeat' split
    all_goals first | rfl | exact store_enterLive _ m
  · unfold synchronized
    repeat' split
    all_goals first | rfl | exact store_enterLive _ _

theorem storeStep_step (s : Client) (e : Event) : StoreStep s.store (s.step e).store := by
  obtain ⟨hhalt, hwake, hguard, hcopy, hsync⟩ := store_startup s
  cases e with
  | readHalt answered => exact hhalt answered ▸ .same
  | wake => exact hwake ▸ .same
  | readGuard valid => exact hguard valid ▸ .same
  | readCopy answered empty => exact hcopy answered empty ▸ .same
  | synchronized empty => exact hsync empty ▸ .same
  | apply =>
    simp only [step, apply]
    split <;> exact .same
  | halt blockIndex reason =>
    simp only [step, halt]
    split <;> exact .same
  | timer =>
    simp only [step, timer]
    repeat' split
    all_goals exact .same
  | write i landed answered => exact storeStep_write s i landed answered
  | clearHalt =>
    simp only [step, clearHalt]
    repeat' split
    all_goals exact .same
  | clear i landed answered => exact storeStep_clear s i landed answered
  | crash => exact .same

/-- The histories only grow. -/
theorem StoreStep.mono {st st' : Store} (h : StoreStep st st') :
    (∀ o ∈ st.written, o ∈ st'.written) ∧ ∀ o ∈ st.cleared, o ∈ st'.cleared := by
  cases h with
  | same => exact ⟨fun _ h => h, fun _ h => h⟩
  | insertHalt h => exact ⟨fun _ ho => List.mem_cons_of_mem _ ho, fun _ ho => ho⟩
  | saveCopy h => exact ⟨fun _ ho => List.mem_cons_of_mem _ ho, fun _ ho => ho⟩
  | clearHalt numbers => exact ⟨fun _ ho => ho, fun _ ho => List.mem_append_right _ ho⟩
  | removeCopy c => exact ⟨fun _ ho => ho, fun _ ho => ho⟩

theorem clears_write (s : Client) (i : Nat) (landed answered : Bool) :
    (s.write i landed answered).clears = s.clears := by
  unfold write
  repeat' split
  all_goals rfl

theorem cancelled_startup (h : s.Cancelled) :
    (∀ a, (s.readHalt a).Cancelled) ∧ s.wake.Cancelled ∧ (∀ v, (s.readGuard v).Cancelled) ∧
    (∀ a m, (s.readCopy a m).Cancelled) ∧ (∀ m, (s.synchronized m).Cancelled) := by
  refine ⟨fun a => ?_, ?_, fun v => ?_, fun a m => ?_, fun m => ?_⟩
  · unfold readHalt
    repeat' split
    all_goals exact h
  · unfold wake
    repeat' split
    all_goals exact h
  · unfold readGuard
    repeat' split
    all_goals exact h
  · unfold readCopy
    repeat' split
    all_goals first | exact h | (refine cancelled_enterLive ?_ m; exact h)
  · unfold synchronized
    repeat' split
    all_goals first | exact h | (refine cancelled_enterLive ?_ _; exact h)

theorem cancelled_clear (h : Inv s) (hcancelled : s.Cancelled) (i : Nat) (landed answered : Bool) :
    (s.clear i landed answered).Cancelled := by
  unfold clear
  split
  · exact hcancelled
  · rename_i c hc
    obtain ⟨heq, hzero, -⟩ := target_of_clear h hc
    have htimer : s.haltPersistTimer = none := hcancelled.resolve_left (by simp [heq])
    split
    · exact .inr htimer
    · exact .inr htimer
    · -- the clear that failed is over before its retry is resumed
      refine .inl ?_
      simp [endClear, heq, hzero]
    · exact .inr htimer
    · split <;> exact .inr htimer
    · exact .inr htimer
    · exact .inr htimer
    · exact .inr htimer
    · exact .inr htimer

theorem cancelled_step (h : Inv s) (hcancelled : s.Cancelled) (e : Event) :
    (s.step e).Cancelled := by
  obtain ⟨hhalt, hwake, hguard, hcopy, hsync⟩ := cancelled_startup hcancelled
  cases e with
  | readHalt answered => exact hhalt answered
  | wake => exact hwake
  | readGuard valid => exact hguard valid
  | readCopy answered empty => exact hcopy answered empty
  | synchronized empty => exact hsync empty
  | apply =>
    simp only [step, apply]
    split <;> exact hcancelled
  | halt blockIndex reason =>
    simp only [step, halt]
    split <;> exact hcancelled
  | timer =>
    simp only [step, timer]
    split
    · exact hcancelled
    · split <;> exact .inr rfl
  | write i landed answered =>
    cases hw : s.writes[i]? with
    | none => simpa [step, write, hw] using hcancelled
    | some w =>
      refine .inl ?_
      rw [step, clears_write]
      exact (held_of_write h hw).2.1
  | clearHalt =>
    simp only [step, clearHalt]
    repeat' split
    all_goals first | exact hcancelled | exact .inr rfl
  | clear i landed answered => exact cancelled_clear h hcancelled i landed answered
  | crash => exact .inl rfl

theorem applied_enterLive (s : Client) (empty : Bool) : (s.enterLive empty).applied = s.applied := by
  unfold enterLive
  repeat' split
  all_goals rfl

/-- Only an apply with nothing in force counts. -/
theorem applied_step (s : Client) (e : Event) :
    (s.step e).applied = s.applied ∨ s.phase.applies ∧ s.halted = none := by
  cases e with
  | apply =>
    simp only [step, apply]
    split
    · rename_i hopen
      exact .inr hopen
    · exact .inl rfl
  | readHalt answered =>
    refine .inl ?_
    simp only [step, readHalt]
    repeat' split
    all_goals rfl
  | wake =>
    refine .inl ?_
    simp only [step, wake]
    repeat' split
    all_goals rfl
  | readGuard valid =>
    refine .inl ?_
    simp only [step, readGuard]
    repeat' split
    all_goals rfl
  | readCopy answered empty =>
    refine .inl ?_
    simp only [step, readCopy]
    repeat' split
    all_goals first | rfl | exact applied_enterLive _ _
  | synchronized empty =>
    refine .inl ?_
    simp only [step, synchronized]
    repeat' split
    all_goals first | rfl | exact applied_enterLive _ _
  | halt blockIndex reason =>
    refine .inl ?_
    simp only [step, halt]
    split <;> rfl
  | timer =>
    refine .inl ?_
    simp only [step, timer]
    repeat' split
    all_goals rfl
  | write i landed answered =>
    refine .inl ?_
    simp only [step, write]
    repeat' split
    all_goals rfl
  | clearHalt =>
    refine .inl ?_
    simp only [step, clearHalt]
    repeat' split
    all_goals rfl
  | clear i landed answered =>
    refine .inl ?_
    simp only [step, clear]
    repeat' split
    all_goals rfl
  | crash => exact .inl rfl

/-- While a recorded halt is not cleared no step applies. -/
theorem applied_step_of_pending (h : Inv s) {o : Nat} (ho : s.store.Pending o) (e : Event) :
    (s.step e).applied = s.applied := by
  rcases applied_step s e with happlied | ⟨happlies, hnone⟩
  · exact happlied
  · have hclean : s.store.Clean := by
      refine h.1.passedCopy (Phase.passedCopy_of_applies happlies) ?_
      simp [hnone]
    exact absurd ho (hclean.pending o)

/-! ### Runs -/

/-- The transitions. -/
def Next (s : Client) (e : Event) (t : Client) : Prop := t = s.step e

/-- A store in which no halt is recorded, and a process that starts over it. -/
structure Fresh (s : Client) : Prop where
  rows : ∀ r, ¬ s.store.Active r
  written : s.store.written = []
  halted : s.halted = none
  phase : s.phase = .resolveStartupHalt
  writes : s.writes = []
  clears : s.clears = []
  quiet : s.quiet = false

/-- What a state owes to the halts recorded before it, along the later runs that meet a condition. -/
structure Durable (ok : Client → Event → Prop) (t : Client) : Prop where
  /-- A halt that was recorded keeps the next processes from applying until it is cleared itself. -/
  kept : ∀ o u, t.store.Pending o → Run Next ok (t.step .crash) u → o ∉ u.store.cleared →
    u.applied = t.applied
  /-- The clear of an unread halt state ends at once and touches no record. -/
  unread : t.halted = some .haltStateCheckFailed →
    (t.step .clearHalt).store = t.store ∧ (t.step .clearHalt).clears = t.clears
  /-- No step of the clear of another synthetic state touches one. -/
  synthetic : ∀ i c landed answered, t.clears[i]? = some c → c.target.synthetic →
    (t.step (.clear i landed answered)).store = t.store
  /-- After a clear whose writes succeeded no restart finds a halt. -/
  cleared : t.quiet → (∀ r, ¬ t.store.Active r) ∧ t.store.NoCopy ∧ Stored t.halted = false

theorem Fresh.inv (h : s.Fresh) : Inv s ∧ s.Cancelled := by
  have hclean : s.store.Clean := by
    refine ⟨h.rows, fun p hp => ?_⟩
    have hwritten := hp.1
    simp [h.written] at hwritten
  refine ⟨⟨core_clean hclean ?_ (by simp [h.quiet]), ?_⟩, .inl h.clears⟩
  · rw [h.phase]
    exact h.halted
  · rw [h.writes, h.clears]
    exact tasks_nil

theorem inv_run {t : Client} (h : Inv s ∧ s.Cancelled) (hrun : Run Next Uncrossed s t) :
    Inv t ∧ t.Cancelled := by
  refine hrun.invariant (I := fun t => Inv t ∧ t.Cancelled) h ?_
  rintro t e _ ⟨hinv, hcancelled⟩ hok rfl
  exact ⟨inv_step hinv hcancelled hok, cancelled_step hinv hcancelled e⟩

theorem kept_run {t u : Client} (ht : Inv t ∧ t.Cancelled) {o : Nat} (ho : t.store.Pending o)
    (hrun : Run Next Uncrossed t u) (hu : o ∉ u.store.cleared) : u.applied = t.applied := by
  -- a halt that is not cleared at the end was not cleared before
  have hall : (Inv u ∧ u.Cancelled) ∧ o ∈ u.store.written ∧
      (o ∉ u.store.cleared → u.applied = t.applied) := by
    refine hrun.invariant (I := fun u => (Inv u ∧ u.Cancelled) ∧ o ∈ u.store.written ∧
      (o ∉ u.store.cleared → u.applied = t.applied)) ⟨ht, ho.1, fun _ => rfl⟩ ?_
    rintro v e _ ⟨hv, hwritten, happlied⟩ hok rfl
    obtain ⟨hgrow, hcleared⟩ := (storeStep_step v e).mono
    refine ⟨⟨inv_step hv.1 hv.2 hok, cancelled_step hv.1 hv.2 e⟩, hgrow o hwritten, fun hout => ?_⟩
    have hbefore : o ∉ v.store.cleared := fun hin => hout (hcleared o hin)
    rw [applied_step_of_pending hv.1 ⟨hwritten, hbefore⟩ e]
    exact happlied hbefore
  exact hall.2.2 hu

theorem store_clear_synthetic (h : Inv s) {i : Nat} {c : Clear} (hc : s.clears[i]? = some c)
    (hsynthetic : c.target.synthetic) (landed answered : Bool) :
    (s.clear i landed answered).store = s.store := by
  obtain ⟨-, -, -, -, hsound⟩ := target_of_clear h hc
  have hresets : c.stage.resets := by
    cases hstage : c.stage.resets with
    | true => rfl
    | false =>
      rw [hsound.stored hstage] at hsynthetic
      exact hsynthetic
  unfold clear
  rw [hc]
  cases hstage : c.stage <;> simp_all [ClearStage.resets, setClear, finishClear]

def fresh : Client where
  store := ⟨[], none, [], []⟩
  halted := none
  haltDurable := true
  pendingHaltCopy := false
  haltPersistTimer := none
  writes := []
  clears := []
  phase := .resolveStartupHalt
  objects := 0
  halts := 0
  applied := 0
  quiet := false

theorem fresh_fresh : fresh.Fresh :=
  ⟨by simp [fresh, Store.Active], rfl, rfl, rfl, rfl, rfl, rfl⟩

/-- A startup over a replica with blocks. -/
def startup : List Event := [.readHalt true, .readGuard true, .readCopy true false, .synchronized false]

/-- A clear of which every write lands. -/
def clearing : List Event :=
  [.clear 0 true true, .clear 0 true true, .clear 0 true true, .clear 0 true true]

/-- A halt whose row fails and whose copy lands. -/
def copied (blockIndex : Int) (text : String) : List Event :=
  [.halt blockIndex (.other text), .write 0 true true, .write 0 false false, .write 0 true true,
    .write 0 true true]

/-- A halt whose row lands. -/
def recorded (blockIndex : Int) (text : String) : List Event :=
  [.halt blockIndex (.other text), .write 0 true true, .write 0 true true, .write 0 true true]

/-- The first halt is cleared while its retry is in flight. The row lands late, and the second halt
has only its copy. -/
def retryCrossed : List Event :=
  startup ++ copied 10 "no-source-quorum" ++
    [.write 0 true true, .timer, .write 0 true true, .clearHalt] ++ clearing ++
    [.write 0 true true, .write 0 true true] ++ copied 11 "train-activation"

/-- The next start finds the late row, and its clear drops the copy too. -/
def resumed : List Event :=
  [.readHalt true, .clearHalt] ++ clearing ++
    [.wake, .readHalt true, .readGuard true, .readCopy true false, .apply]

/-- A halt is cleared twice at a time, and the second clear ends after the next halt. -/
def clearsCrossed : List Event :=
  startup ++ recorded 10 "no-source-quorum" ++ [.clearHalt, .clearHalt] ++ clearing ++
    recorded 11 "train-activation" ++ clearing

end Client

end XChainSync.Halts
