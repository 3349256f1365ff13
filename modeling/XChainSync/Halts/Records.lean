import XChainSync.Halts.Persistence

/-!
# The halt in force and the stored records

A clear removes every active row and the copy, whosever they are. The invariant says that they are
all of the halt in force, or that a startup which has not read them yet will find them.
-/

namespace XChainSync.Halts
set_option autoImplicit false

/-! ### The stored records -/

namespace Store

def Active (st : Store) (r : Row) : Prop := r ∈ st.rows ∧ r.cleared = false

/-- A halt that has been recorded and not cleared. -/
def Pending (st : Store) (o : Nat) : Prop := o ∈ st.written ∧ o ∉ st.cleared

instance (st : Store) (o : Nat) : Decidable (st.Pending o) :=
  inferInstanceAs (Decidable (o ∈ _ ∧ o ∉ _))

def Recorded (st : Store) (o : Nat) : Prop :=
  (∃ r, st.Active r ∧ r.halt.number = o) ∨ ∃ h, st.copy = some (.saved h) ∧ h.number = o

/-- Every active row and every pending halt is the halt given. -/
structure Belongs (st : Store) (o : Nat) : Prop where
  rows : ∀ r, st.Active r → r.halt.number = o
  pending : ∀ p, st.Pending p → p = o

structure Clean (st : Store) : Prop where
  rows : ∀ r, ¬ st.Active r
  pending : ∀ p, ¬ st.Pending p

structure Sound (st : Store) : Prop where
  recorded : ∀ o, st.Pending o → st.Recorded o
  rows : ∀ r, st.Active r → st.Belongs r.halt.number

/-- A start reads no copy of a halt. -/
def NoCopy (st : Store) : Prop := st.copy = none ∨ st.copy = some .blank

variable {st : Store} {h : Halt} {o : Nat}

theorem getActiveHalt_eq_none (hnone : st.getActiveHalt = none) (r : Row) : ¬ st.Active r := by
  rintro ⟨hmem, hactive⟩
  simp only [getActiveHalt, Option.map_eq_none_iff, List.find?_eq_none] at hnone
  exact hnone r hmem (by simp [hactive])

theorem active_of_getActiveHalt (hsome : st.getActiveHalt = some h) :
    ∃ r, st.Active r ∧ r.halt = h := by
  simp only [getActiveHalt, Option.map_eq_some_iff] at hsome
  obtain ⟨r, hfind, rfl⟩ := hsome
  have hactive : r.cleared = false := by simpa using List.find?_some hfind
  exact ⟨r, ⟨List.mem_of_find?_eq_some hfind, hactive⟩, rfl⟩

theorem active_of_existing (hexisting : st.existing h) : ∃ r, st.Active r := by
  obtain ⟨prior, hprior, -⟩ := (Option.any_eq_true _ _).mp hexisting
  obtain ⟨r, hactive, -⟩ := active_of_getActiveHalt hprior
  exact ⟨r, hactive⟩

theorem Clean.belongs (hclean : st.Clean) : st.Belongs o where
  rows r hr := absurd hr (hclean.rows r)
  pending p hp := absurd hp (hclean.pending p)

theorem Clean.sound (hclean : st.Clean) : st.Sound where
  recorded p hp := absurd hp (hclean.pending p)
  rows r hr := absurd hr (hclean.rows r)

theorem Clean.withCopy (hclean : st.Clean) (c : Option Copy) : Clean { st with copy := c } :=
  ⟨hclean.rows, hclean.pending⟩

theorem Belongs.withCopy (hbelongs : st.Belongs o) (c : Option Copy) :
    Belongs { st with copy := c } o :=
  ⟨hbelongs.rows, hbelongs.pending⟩

/-- A copy may go where a row stays. -/
theorem Sound.withCopy (hsound : st.Sound) (hrow : ∃ r, st.Active r) (c : Option Copy) :
    Sound { st with copy := c } where
  recorded p hp := by
    obtain ⟨r, hr⟩ := hrow
    exact .inl ⟨r, hr, ((hsound.rows r hr).pending p hp).symm⟩
  rows r hr := (hsound.rows r hr).withCopy c

theorem Belongs.pending_cons (hbelongs : st.Belongs h.number) {p : Nat}
    (hp : p ∈ h.number :: st.written ∧ p ∉ st.cleared) : p = h.number := by
  rcases List.mem_cons.mp hp.1 with rfl | hmem
  · rfl
  · exact hbelongs.pending p ⟨hmem, hp.2⟩

theorem Belongs.insertHalt (hbelongs : st.Belongs h.number) :
    (st.insertHalt h).Belongs h.number where
  rows := by
    rintro r ⟨hmem, hactive⟩
    rcases List.mem_cons.mp hmem with rfl | hmem
    · rfl
    · exact hbelongs.rows r ⟨hmem, hactive⟩
  pending _ hp := hbelongs.pending_cons hp

theorem active_insertHalt : (st.insertHalt h).Active ⟨h, false⟩ := ⟨List.mem_cons_self, rfl⟩

theorem Sound.insertHalt (hbelongs : st.Belongs h.number) : (st.insertHalt h).Sound where
  recorded p hp := .inl ⟨_, active_insertHalt, (hbelongs.pending_cons hp).symm⟩
  rows r hr := by
    rw [hbelongs.insertHalt.rows r hr]
    exact hbelongs.insertHalt

theorem Belongs.saveCopy (hbelongs : st.Belongs h.number) : (st.saveCopy h).Belongs h.number where
  rows := hbelongs.rows
  pending _ hp := hbelongs.pending_cons hp

theorem Sound.saveCopy (hbelongs : st.Belongs h.number) : (st.saveCopy h).Sound where
  recorded p hp := .inr ⟨h, rfl, (hbelongs.pending_cons hp).symm⟩
  rows r hr := by
    rw [hbelongs.rows r hr]
    exact hbelongs.saveCopy

/-- The UPDATE leaves nothing where it was called for every pending halt. -/
theorem clean_clearHalt {numbers : List Nat} (hall : ∀ p, st.Pending p → p ∈ numbers) :
    (st.clearHalt numbers).Clean where
  rows := by
    rintro r ⟨hmem, hactive⟩
    obtain ⟨r, -, rfl⟩ := List.mem_map.mp hmem
    simp at hactive
  pending := by
    rintro p ⟨hwritten, hcleared⟩
    simp only [clearHalt, List.mem_append, not_or] at hwritten hcleared
    exact hcleared.1 (hall p ⟨hwritten, hcleared.2⟩)

end Store

/-! ### The invariant -/

namespace Phase

/-- What may be in force while the startup is in a phase. -/
def Allows (halted : Option Held) : Phase → Prop
  | .resolveStartupHalt => halted = none
  | .retrySleep => halted = none ∨ halted = some .haltStateCheckFailed
  | .retryRead => halted = none ∨ halted = some .haltStateCheckFailed
  | .loadRollbackGuardState => halted = none
  | .holdForRollbackGuardState => halted = none ∨ halted = some .rollbackGuardStateInvalid
  | .restorePendingHalt => halted = none
  | _ => True

/-- `sync_halt` has been read and the copy has not. -/
def passedRows : Phase → Bool
  | .loadRollbackGuardState => true
  | .holdForRollbackGuardState => true
  | .restorePendingHalt => true
  | _ => false

/-- Both have been read. -/
def passedCopy : Phase → Bool
  | .restoring _ => true
  | .synchronizing => true
  | .live => true
  | _ => false

theorem Allows.none {p : Phase} {halted : Option Held} (h : p.Allows halted) : p.Allows none := by
  cases p <;> simp_all [Allows]

theorem passedCopy_of_applies {p : Phase} (h : p.applies) : p.passedCopy := by
  cases p <;> simp_all [applies, passedCopy]

end Phase

/-- The halt in force is a stored one, or its copy is damaged. -/
def Stored : Option Held → Bool
  | some (.halt _ _) => true
  | some .haltCopyUnreadable => true
  | _ => false

/-- `recordHalt` has returned. -/
def WriteStage.wrote : WriteStage → Bool
  | .recorded => true
  | .dropping => true
  | .blanking => true
  | _ => false

/-- The UPDATE has been acknowledged. -/
def ClearStage.past : ClearStage → Bool
  | .updating => false
  | .updated acknowledged => acknowledged
  | _ => true

def ClearStage.resets : ClearStage → Bool
  | .resetting => true
  | .reset => true
  | _ => false

structure Clear.Sound (c : Clear) (st : Store) : Prop where
  target : c.target ≠ .haltStateCheckFailed
  resets : c.target = .rollbackGuardStateInvalid → c.stage.resets
  clean : c.target.synthetic = false → c.stage.past → st.Clean
  removed : c.removed → st.NoCopy

theorem Clear.Sound.stored {c : Clear} {st : Store} (hsound : c.Sound st)
    (hstage : c.stage.resets = false) : c.target.synthetic = false := by
  have htarget := hsound.target
  have hresets := hsound.resets
  cases hkind : c.target <;> simp_all [Held.synthetic]

theorem Clear.Sound.of_stored {c : Clear} {st : Store} (hstored : c.target.synthetic = false)
    (hclean : c.stage.past → st.Clean) (hremoved : c.removed → st.NoCopy) : c.Sound st where
  target := by
    intro htarget
    simp [htarget, Held.synthetic] at hstored
  resets := by
    intro htarget
    simp [htarget, Held.synthetic] at hstored
  clean _ := hclean
  removed := hremoved

/-- What the halt in force says about the store. -/
structure Core (st : Store) (halted : Option Held) (phase : Phase) (quiet : Bool) : Prop where
  sound : st.Sound
  held : ∀ object h, halted = some (.halt object h) → st.Belongs h.number
  unreadable : halted = some .haltCopyUnreadable → st.Clean
  allows : phase.Allows halted
  passedRows : phase.passedRows → ∀ r, ¬ st.Active r
  passedCopy : phase.passedCopy → (∀ object h, halted ≠ some (.halt object h)) → st.Clean
  quiet : quiet → (∀ r, ¬ st.Active r) ∧ st.NoCopy ∧ Stored halted = false

/-- The writes and the clear in flight are of the halt in force. -/
structure Tasks (st : Store) (halted : Option Held) (ws : List Write) (cs : List Clear) : Prop where
  writes : ∀ w ∈ ws, halted = some (.halt w.object w.halt) ∧ (w.stage.wrote → ∃ r, st.Active r)
  clears : cs = [] ∨ ∃ c, cs = [c] ∧ halted = some c.target ∧ ws = [] ∧ c.Sound st

def Inv (s : Client) : Prop :=
  Core s.store s.halted s.phase s.quiet ∧ Tasks s.store s.halted s.writes s.clears

section Tasks
variable {st : Store} {halted : Option Held} {writes : List Write} {clears : List Clear}
variable {object : Nat} {h : Halt} {phase : Phase} {quiet : Bool}

theorem tasks_nil : Tasks st halted [] [] := ⟨by simp, .inl rfl⟩

/-- Nothing is in flight where no stored halt is in force. -/
theorem Tasks.writes_nil (ht : Tasks st halted writes clears)
    (hfree : ∀ object h, halted ≠ some (.halt object h)) : writes = [] := by
  cases writes with
  | nil => rfl
  | cons w ws => exact absurd (ht.writes w List.mem_cons_self).1 (hfree _ _)

theorem Tasks.nil_of_none (ht : Tasks st none writes clears) : writes = [] ∧ clears = [] := by
  refine ⟨ht.writes_nil (by simp), ?_⟩
  rcases ht.clears with hnil | ⟨c, -, htarget, -⟩
  · exact hnil
  · simp at htarget

theorem Tasks.nil_of_checkFailed (ht : Tasks st (some .haltStateCheckFailed) writes clears) :
    writes = [] ∧ clears = [] := by
  refine ⟨ht.writes_nil (by simp), ?_⟩
  rcases ht.clears with hnil | ⟨c, -, htarget, -, hc⟩
  · exact hnil
  · exact absurd (Option.some.inj htarget).symm hc.target

theorem Tasks.clears_nil (ht : Tasks st halted writes clears) (hne : writes ≠ []) :
    clears = [] := by
  rcases ht.clears with hnil | ⟨c, -, -, hwrites, -⟩
  · exact hnil
  · exact absurd hwrites hne

/-- With a stored halt in force everything is of that halt. -/
theorem core_held (hsound : st.Sound) (hbelongs : st.Belongs h.number)
    (hallows : phase.Allows (some (.halt object h))) :
    Core st (some (.halt object h)) phase false where
  sound := hsound
  held := by
    rintro _ _ ⟨⟩
    exact hbelongs
  unreadable := by simp
  allows := hallows
  passedRows := by
    intro hpassed
    cases phase <;> simp_all [Phase.passedRows, Phase.Allows]
  passedCopy _ hfree := absurd rfl (hfree _ _)
  quiet := by simp

/-- With nothing stored anything may be in force. -/
theorem core_clean (hclean : st.Clean) (hallows : phase.Allows halted)
    (hquiet : quiet → st.NoCopy ∧ Stored halted = false) : Core st halted phase quiet where
  sound := hclean.sound
  held _ _ _ := hclean.belongs
  unreadable _ := hclean
  allows := hallows
  passedRows _ := hclean.rows
  passedCopy _ _ := hclean
  quiet hq := ⟨hclean.rows, hquiet hq⟩

/-- Before the copy is read no stored halt is in force, or the startup waits. -/
theorem Core.move (hc : Core st halted phase quiet) {halted' : Option Held} {phase' : Phase}
    (hfree : Stored halted' = false) (hallows : phase'.Allows halted')
    (hrows : phase'.passedRows → ∀ r, ¬ st.Active r) (hcopy : phase'.passedCopy → st.Clean) :
    Core st halted' phase' quiet where
  sound := hc.sound
  held := by
    rintro _ _ rfl
    simp [Stored] at hfree
  unreadable := by
    rintro rfl
    simp [Stored] at hfree
  allows := hallows
  passedRows := hrows
  passedCopy hp _ := hcopy hp
  quiet hq := ⟨(hc.quiet hq).1, (hc.quiet hq).2.1, hfree⟩

theorem Core.quiet_false (hc : Core st halted phase quiet) (hstored : Stored halted = true) :
    quiet = false := by
  cases quiet with
  | false => rfl
  | true =>
    have hfree := (hc.quiet rfl).2.2
    rw [hstored] at hfree
    exact hfree

end Tasks

/-! ### Startup -/

namespace Client
variable {s : Client}

theorem inv_crash (h : Inv s) : Inv s.crash :=
  ⟨h.1.move rfl rfl (by simp [crash, Phase.passedRows]) (by simp [crash, Phase.passedCopy]),
    tasks_nil⟩

/-- A stored halt that is read goes in force. -/
theorem inv_install {prior : Halt} {phase : Phase} (h : Inv s) (hwrites : s.writes = [])
    (hclears : s.clears = []) (hprior : s.store.getActiveHalt = some prior)
    (hallows : ∀ held, phase.Allows (some held)) : Inv { s.install prior with phase := phase } := by
  obtain ⟨r, hactive, rfl⟩ := Store.active_of_getActiveHalt hprior
  have hquiet : s.quiet = false := by
    cases hq : s.quiet with
    | false => rfl
    | true => exact absurd hactive ((h.1.quiet hq).1 r)
  refine ⟨?_, ?_⟩
  · simp only [install, hquiet]
    exact core_held h.1.sound (h.1.sound.rows r hactive) (hallows _)
  · simp only [install, hwrites, hclears]
    exact tasks_nil

theorem inv_readHalt (h : Inv s) (answered : Bool) : Inv (s.readHalt answered) := by
  obtain ⟨hcore, htasks⟩ := h
  have hallows := hcore.allows
  unfold readHalt
  split
  · rename_i hphase
    rw [hphase] at hallows
    have hnone : s.halted = none := hallows
    obtain ⟨hwrites, hclears⟩ := (hnone ▸ htasks).nil_of_none
    split
    · split
      · rename_i hread
        refine ⟨hcore.move (by simp [hnone, Stored]) hnone (fun _ => ?_) (by simp [Phase.passedCopy]),
          htasks⟩
        exact Store.getActiveHalt_eq_none hread
      · rename_i prior hread
        exact inv_install ⟨hcore, htasks⟩ hwrites hclears hread (fun _ => trivial)
    · refine ⟨hcore.move rfl (.inr rfl) (by simp [Phase.passedRows]) (by simp [Phase.passedCopy]), ?_⟩
      simp only [hwrites, hclears]
      exact tasks_nil
  · rename_i hphase
    rw [hphase] at hallows
    have hidle : s.writes = [] ∧ s.clears = [] := by
      rcases hallows with hnone | hfailed
      · exact (hnone ▸ htasks).nil_of_none
      · exact (hfailed ▸ htasks).nil_of_checkFailed
    split
    · split
      · refine ⟨hcore.move rfl trivial (by simp [Phase.passedRows]) (by simp [Phase.passedCopy]), ?_⟩
        simp only [hidle.1, hidle.2]
        exact tasks_nil
      · rename_i prior hread
        exact inv_install ⟨hcore, htasks⟩ hidle.1 hidle.2 hread (fun _ => trivial)
    · have hfree : Stored s.halted = false := by
        rcases hallows with hnone | hfailed
        · simp [hnone, Stored]
        · simp [hfailed, Stored]
      exact ⟨hcore.move hfree hallows (by simp [Phase.passedRows]) (by simp [Phase.passedCopy]), htasks⟩
  · exact ⟨hcore, htasks⟩

/-- Leaving a phase for one that waits keeps everything. -/
theorem inv_wait (h : Inv s) : Inv { s with phase := .waitForStartupHalt } :=
  ⟨⟨h.1.sound, h.1.held, h.1.unreadable, trivial, by simp [Phase.passedRows],
    by simp [Phase.passedCopy], h.1.quiet⟩, h.2⟩

theorem inv_wake (h : Inv s) : Inv s.wake := by
  have hallows := h.1.allows
  unfold wake
  split
  · rename_i hphase
    rw [hphase] at hallows
    split
    · rename_i hfailed
      have hfree : Stored s.halted = false := by simp [hfailed, Stored]
      exact ⟨h.1.move hfree hallows (by simp [Phase.passedRows]) (by simp [Phase.passedCopy]), h.2⟩
    · exact inv_wait h
  · split
    · rename_i hnone
      have hfree : Stored s.halted = false := by simp [hnone, Stored]
      exact ⟨h.1.move hfree hnone (by simp [Phase.passedRows]) (by simp [Phase.passedCopy]), h.2⟩
    · exact h
  · rename_i hphase
    rw [hphase] at hallows
    split
    · exact h
    · rename_i hheld
      have hnone : s.halted = none := hallows.resolve_right hheld
      have hfree : Stored s.halted = false := by simp [hnone, Stored]
      refine ⟨h.1.move hfree hnone (fun _ => ?_) (by simp [Phase.passedCopy]), h.2⟩
      exact h.1.passedRows (by simp [hphase, Phase.passedRows])
  · exact h

theorem inv_readGuard (h : Inv s) (valid : Bool) : Inv (s.readGuard valid) := by
  have hallows := h.1.allows
  unfold readGuard
  split
  · rename_i hphase
    rw [hphase] at hallows
    have hnone : s.halted = none := hallows
    have hrows : ∀ r, ¬ s.store.Active r := h.1.passedRows (by simp [hphase, Phase.passedRows])
    obtain ⟨hwrites, hclears⟩ := (hnone ▸ h.2).nil_of_none
    split
    · refine ⟨?_, ?_⟩
      · simp only [hnone]
        exact h.1.move rfl rfl (fun _ => hrows) (by simp [Phase.passedCopy])
      · simp only [hwrites, hclears]
        exact tasks_nil
    · refine ⟨h.1.move rfl (.inr rfl) (fun _ => hrows) (by simp [Phase.passedCopy]), ?_⟩
      simp only [hwrites, hclears]
      exact tasks_nil
  · exact h

theorem inv_enterLive (h : Inv { s with phase := .waitForStartupHalt }) (empty : Bool)
    (hlive : (∀ object prior, s.halted ≠ some (.halt object prior)) →
      s.halted ≠ some .haltStateCheckFailed → s.store.Clean) : Inv (s.enterLive empty) := by
  unfold enterLive
  split
  · exact h
  · rename_i hnot
    split
    · have hcrash : Inv (Client.crash { s with phase := .waitForStartupHalt }) := inv_crash h
      exact hcrash
    · refine ⟨⟨h.1.sound, h.1.held, h.1.unreadable, trivial, by simp [Phase.passedRows], ?_,
        h.1.quiet⟩, h.2⟩
      intro _ hfree
      refine hlive hfree fun hfailed => ?_
      exact hnot ⟨by simp [hfailed], .inr hfailed⟩

/-- The copy decides once `sync_halt` is known to hold no active row. -/
theorem recorded_copy {st : Store} (hsound : st.Sound) (hrows : ∀ r, ¬ st.Active r) {p : Nat}
    (hp : st.Pending p) : ∃ prior, st.copy = some (.saved prior) ∧ prior.number = p := by
  rcases hsound.recorded p hp with ⟨r, hactive, -⟩ | hcopy
  · exact absurd hactive (hrows r)
  · exact hcopy

theorem clean_of_copy {st : Store} (hsound : st.Sound) (hrows : ∀ r, ¬ st.Active r)
    (hcopy : ∀ prior, st.copy ≠ some (.saved prior)) : st.Clean := by
  refine ⟨hrows, fun p hp => ?_⟩
  obtain ⟨prior, hsaved, -⟩ := recorded_copy hsound hrows hp
  exact hcopy prior hsaved

theorem inv_readCopy (h : Inv s) (answered empty : Bool) : Inv (s.readCopy answered empty) := by
  have hallows := h.1.allows
  unfold readCopy
  split
  · rename_i hphase
    rw [hphase] at hallows
    have hnone : s.halted = none := hallows
    have hfree : Stored s.halted = false := by simp [hnone, Stored]
    have hrows : ∀ r, ¬ s.store.Active r := h.1.passedRows (by simp [hphase, Phase.passedRows])
    obtain ⟨hwrites, hclears⟩ := (hnone ▸ h.2).nil_of_none
    have hsync : s.store.Clean → Inv { s with phase := .synchronizing } := fun hclean =>
      ⟨h.1.move hfree trivial (by simp [Phase.passedRows]) (fun _ => hclean), h.2⟩
    split
    · rename_i hsome
      simp [hnone] at hsome
    · split
      · split
        · rename_i hcopy
          exact hsync (clean_of_copy h.1.sound hrows (by simp [hcopy]))
        · rename_i hcopy
          exact hsync (clean_of_copy h.1.sound hrows (by simp [hcopy]))
        · rename_i hcopy
          have hclean : s.store.Clean := clean_of_copy h.1.sound hrows (by simp [hcopy])
          refine inv_enterLive
            (s := { s with pendingHaltCopy := true, halted := some .haltCopyUnreadable })
            ⟨core_clean hclean trivial (fun hq => ?_), ?_⟩ empty (fun _ _ => hclean)
          · have hnocopy := (h.1.quiet hq).2.1
            simp [Store.NoCopy, hcopy] at hnocopy
          · simp only [hwrites, hclears]
            exact tasks_nil
        · rename_i prior hcopy
          have hbelongs : s.store.Belongs prior.number := by
            refine ⟨fun r hr => absurd hr (hrows r), fun p hp => ?_⟩
            obtain ⟨saved, hsaved, rfl⟩ := recorded_copy h.1.sound hrows hp
            rw [hcopy] at hsaved
            cases hsaved
            rfl
          have hquiet : s.quiet = false := by
            cases hq : s.quiet with
            | false => rfl
            | true =>
              have hnocopy := (h.1.quiet hq).2.1
              simp [Store.NoCopy, hcopy] at hnocopy
          refine ⟨?_, ?_⟩
          · simp only [persistHalt, install, hquiet]
            exact core_held h.1.sound hbelongs trivial
          · simp only [persistHalt, install, hwrites, hclears]
            exact ⟨by simp [WriteStage.wrote], .inl rfl⟩
      · refine inv_enterLive (s := { s with halted := some .haltStateCheckFailed })
          ⟨h.1.move rfl trivial (by simp [Phase.passedRows]) (by simp [Phase.passedCopy]), ?_⟩ empty
          (fun _ hne => absurd rfl hne)
        simp only [hwrites, hclears]
        exact tasks_nil
  · exact h

theorem inv_synchronized (h : Inv s) (empty : Bool) : Inv (s.synchronized empty) := by
  unfold synchronized
  split
  · rename_i hphase
    split
    · exact inv_enterLive (inv_wait h) _ fun hfree _ =>
        h.1.passedCopy (by simp [hphase, Phase.passedCopy]) hfree
    · exact h
  · rename_i hphase
    exact inv_enterLive (inv_wait h) _ fun hfree _ =>
      h.1.passedCopy (by simp [hphase, Phase.passedCopy]) hfree
  · exact h

/-! ### Halts and their writes -/

theorem inv_apply (h : Inv s) : Inv s.apply := by
  unfold apply
  split
  · exact ⟨h.1, h.2⟩
  · exact h

theorem allows_of_applies {p : Phase} (hp : p.applies) (halted : Option Held) : p.Allows halted := by
  cases p <;> simp_all [Phase.applies, Phase.Allows]

theorem inv_halt (h : Inv s) (blockIndex : Int) (reason : Reason) :
    Inv (s.halt blockIndex reason) := by
  unfold halt
  split
  · rename_i hopen
    obtain ⟨happlies, hnone⟩ := hopen
    have hclean : s.store.Clean := by
      refine h.1.passedCopy (Phase.passedCopy_of_applies happlies) ?_
      simp [hnone]
    obtain ⟨hwrites, hclears⟩ := (hnone ▸ h.2).nil_of_none
    refine ⟨core_held hclean.sound hclean.belongs (allows_of_applies happlies _), ?_⟩
    simp only [persistHalt, install, hwrites, hclears]
    exact ⟨by simp [WriteStage.wrote], .inl rfl⟩
  · exact h

/-- A clear cancels the timer when it is called. -/
def Cancelled (s : Client) : Prop := s.clears = [] ∨ s.haltPersistTimer = none

theorem inv_timer (h : Inv s) (hcancelled : s.Cancelled) : Inv s.timer := by
  unfold timer
  split
  · exact h
  · rename_i object prior htimer
    have hclears : s.clears = [] := hcancelled.resolve_right (by simp [htimer])
    split
    · rename_i hheld
      refine ⟨h.1, ⟨fun w hw => ?_, .inl hclears⟩⟩
      rcases List.mem_append.mp hw with hw | hw
      · exact h.2.writes w hw
      · obtain rfl := List.mem_singleton.mp hw
        exact ⟨hheld, by simp [WriteStage.wrote]⟩
    · exact ⟨h.1, h.2⟩

section Write
variable {i : Nat} {w : Write} {st : Store}

/-- A write in flight is of the halt in force, and no clear is under way. -/
theorem held_of_write (h : Inv s) (hw : s.writes[i]? = some w) :
    s.halted = some (.halt w.object w.halt) ∧ s.clears = [] ∧ s.store.Belongs w.halt.number := by
  have hmem : w ∈ s.writes := List.mem_of_getElem? hw
  have hheld := (h.2.writes w hmem).1
  exact ⟨hheld, h.2.clears_nil (List.ne_nil_of_mem hmem), h.1.held _ _ hheld⟩

theorem core_write (h : Inv s) (hw : s.writes[i]? = some w) (hsound : st.Sound)
    (hbelongs : st.Belongs w.halt.number) : Core st s.halted s.phase s.quiet := by
  obtain ⟨hheld, -, -⟩ := held_of_write h hw
  have hquiet : s.quiet = false := h.1.quiet_false (by simp [hheld, Stored])
  have hallows := h.1.allows
  rw [hheld] at hallows ⊢
  rw [hquiet]
  exact core_held hsound hbelongs hallows

theorem inv_setWrite (h : Inv s) (hw : s.writes[i]? = some w) (hsound : st.Sound)
    (hbelongs : st.Belongs w.halt.number)
    (hmono : (∃ r, s.store.Active r) → ∃ r, st.Active r) {stage : WriteStage}
    (hwrote : stage.wrote → ∃ r, st.Active r) :
    Core st s.halted s.phase s.quiet ∧
      Tasks st s.halted (s.writes.set i { w with stage := stage }) s.clears := by
  obtain ⟨hheld, hclears, -⟩ := held_of_write h hw
  refine ⟨core_write h hw hsound hbelongs, ⟨fun v hv => ?_, .inl hclears⟩⟩
  rcases List.mem_or_eq_of_mem_set hv with hv | rfl
  · obtain ⟨hv, hrow⟩ := h.2.writes v hv
    exact ⟨hv, fun hstage => hmono (hrow hstage)⟩
  · exact ⟨hheld, hwrote⟩

theorem inv_endWrite (h : Inv s) (hw : s.writes[i]? = some w) (hsound : st.Sound)
    (hbelongs : st.Belongs w.halt.number)
    (hmono : (∃ r, s.store.Active r) → ∃ r, st.Active r) :
    Core st s.halted s.phase s.quiet ∧ Tasks st s.halted (s.writes.eraseIdx i) s.clears := by
  obtain ⟨-, hclears, -⟩ := held_of_write h hw
  refine ⟨core_write h hw hsound hbelongs, ⟨fun v hv => ?_, .inl hclears⟩⟩
  obtain ⟨hv, hrow⟩ := h.2.writes v (List.mem_of_mem_eraseIdx hv)
  exact ⟨hv, fun hstage => hmono (hrow hstage)⟩

/-- The row stands when the copy of a recorded halt goes. -/
theorem sound_dropCopy (h : Inv s) (hrow : ∃ r, s.store.Active r) (landed : Bool)
    (c : Option Copy) : (if landed then { s.store with copy := c } else s.store).Sound := by
  split
  · exact h.1.sound.withCopy hrow c
  · exact h.1.sound

theorem belongs_dropCopy {o : Nat} (hbelongs : s.store.Belongs o) (landed : Bool)
    (c : Option Copy) : (if landed then { s.store with copy := c } else s.store).Belongs o := by
  split
  · exact hbelongs.withCopy c
  · exact hbelongs

theorem active_dropCopy (hrow : ∃ r, s.store.Active r) (landed : Bool) (c : Option Copy) :
    ∃ r, (if landed then { s.store with copy := c } else s.store).Active r := by
  split
  · exact hrow
  · exact hrow

theorem inv_insert (h : Inv s) (hw : s.writes[i]? = some w) (landed answered : Bool) :
    Inv ({ s with store := if landed then s.store.insertHalt w.halt else s.store }.setWrite i
      { w with stage := if landed && answered then .recorded else .failed }) := by
  obtain ⟨-, -, hbelongs⟩ := held_of_write h hw
  cases landed with
  | false => exact inv_setWrite h hw h.1.sound hbelongs id (by simp [WriteStage.wrote])
  | true =>
    have hrow : ∃ r, (s.store.insertHalt w.halt).Active r := ⟨_, Store.active_insertHalt⟩
    exact inv_setWrite h hw (.insertHalt hbelongs) hbelongs.insertHalt (fun _ => hrow) (fun _ => hrow)

theorem inv_copying (h : Inv s) (hw : s.writes[i]? = some w) (landed : Bool) :
    Inv ({ s with store := if landed then s.store.saveCopy w.halt else s.store }.setWrite i
      { w with stage := .copied }) := by
  obtain ⟨-, -, hbelongs⟩ := held_of_write h hw
  cases landed with
  | false => exact inv_setWrite h hw h.1.sound hbelongs id (by simp [WriteStage.wrote])
  | true =>
    exact inv_setWrite h hw (.saveCopy hbelongs) hbelongs.saveCopy id (by simp [WriteStage.wrote])

theorem inv_write (h : Inv s) (i : Nat) (landed answered : Bool) :
    Inv (s.write i landed answered) := by
  unfold write
  split
  · exact h
  · rename_i w hw
    obtain ⟨hheld, -, hbelongs⟩ := held_of_write h hw
    have hrow := (h.2.writes w (List.mem_of_getElem? hw)).2
    split
    · split
      · -- the row that the read finds is active
        rename_i hexisting
        refine inv_setWrite h hw h.1.sound hbelongs id (fun _ => ?_)
        exact Store.active_of_existing (Bool.and_eq_true _ _ ▸ hexisting).2
      · exact inv_setWrite h hw h.1.sound hbelongs id (by simp [WriteStage.wrote])
    · exact inv_insert h hw landed answered
    · rename_i hstage
      have hrow := hrow (by simp [hstage, WriteStage.wrote])
      split
      · exact inv_endWrite h hw h.1.sound hbelongs id
      · split
        · exact inv_setWrite h hw h.1.sound hbelongs id (fun _ => hrow)
        · exact inv_endWrite h hw h.1.sound hbelongs id
    · split
      · exact inv_endWrite h hw h.1.sound hbelongs id
      · exact inv_setWrite h hw h.1.sound hbelongs id (by simp [WriteStage.wrote])
    · exact inv_copying h hw landed
    · exact inv_endWrite h hw h.1.sound hbelongs id
    · rename_i hstage
      have hrow := hrow (by simp [hstage, WriteStage.wrote])
      dsimp only
      split
      · exact inv_endWrite h hw (sound_dropCopy h hrow landed none)
          (belongs_dropCopy hbelongs landed none) (fun hrow => active_dropCopy hrow landed none)
      · exact inv_setWrite h hw (sound_dropCopy h hrow landed none)
          (belongs_dropCopy hbelongs landed none) (fun hrow => active_dropCopy hrow landed none)
          (fun _ => active_dropCopy hrow landed none)
    · rename_i hstage
      have hrow := hrow (by simp [hstage, WriteStage.wrote])
      exact inv_endWrite h hw (sound_dropCopy h hrow landed _) (belongs_dropCopy hbelongs landed _)
        (fun hrow => active_dropCopy hrow landed _)

end Write

/-! ### Clears -/

section Clear
variable {i : Nat} {c : Clear} {st : Store}

/-- The clear in flight is alone, and it is of the halt in force. -/
theorem target_of_clear (h : Inv s) (hc : s.clears[i]? = some c) :
    s.clears = [c] ∧ i = 0 ∧ s.halted = some c.target ∧ s.writes = [] ∧ c.Sound s.store := by
  have hmem : c ∈ s.clears := List.mem_of_getElem? hc
  rcases h.2.clears with hnil | ⟨d, heq, htarget, hwrites, hsound⟩
  · simp [hnil] at hmem
  · obtain rfl : c = d := by simpa [heq] using hmem
    have hi : i < s.clears.length := (List.getElem?_eq_some_iff.mp hc).1
    have hzero : i = 0 := by simpa [heq] using hi
    exact ⟨heq, hzero, htarget, hwrites, hsound⟩

/-- A clear that leaves the store alone. -/
theorem inv_setClear (h : Inv s) (hc : s.clears[i]? = some c) {d : Clear}
    (htarget : d.target = c.target) (hsound : d.Sound s.store) :
    Core s.store s.halted s.phase s.quiet ∧ Tasks s.store s.halted s.writes (s.clears.set i d) := by
  obtain ⟨heq, rfl, hheld, hwrites, -⟩ := target_of_clear h hc
  refine ⟨h.1, ⟨h.2.writes, .inr ⟨d, by simp [heq], ?_, hwrites, hsound⟩⟩⟩
  rw [htarget]
  exact hheld

/-- A clear of a stored halt that changes the store leaves nothing in it. -/
theorem inv_setClear_clean (h : Inv s) (hc : s.clears[i]? = some c) {d : Clear}
    (htarget : d.target = c.target) (hstored : c.target.synthetic = false) (hclean : st.Clean)
    (hsound : d.Sound st) :
    Core st s.halted s.phase s.quiet ∧ Tasks st s.halted s.writes (s.clears.set i d) := by
  obtain ⟨heq, rfl, hheld, hwrites, hold⟩ := target_of_clear h hc
  have hquiet : s.quiet = false := by
    refine h.1.quiet_false ?_
    rw [hheld]
    cases hkind : c.target <;> simp_all [Stored, Held.synthetic]
  refine ⟨core_clean hclean h.1.allows (by simp [hquiet]), ?_⟩
  refine ⟨by simp [hwrites], .inr ⟨d, by simp [heq], ?_, hwrites, hsound⟩⟩
  rw [htarget]
  exact hheld

theorem inv_update (h : Inv s) (hc : s.clears[i]? = some c) (hstage : c.stage = .updating)
    (landed answered : Bool) :
    Inv ({ s with store := if landed then s.store.clearHalt c.target.numbers else s.store }.setClear i
      { c with stage := .updated (landed && answered) }) := by
  obtain ⟨-, -, hheld, -, hsound⟩ := target_of_clear h hc
  have hstored : c.target.synthetic = false := hsound.stored (by simp [hstage, ClearStage.resets])
  cases landed with
  | false =>
    exact inv_setClear h hc rfl
      (.of_stored hstored (by simp [ClearStage.past]) hsound.removed)
  | true =>
    have hclean : (s.store.clearHalt c.target.numbers).Clean := by
      refine Store.clean_clearHalt fun p hp => ?_
      cases hkind : c.target with
      | halt object prior =>
        have hbelongs := h.1.held object prior (by rw [hheld, hkind])
        simp [Held.numbers, hbelongs.pending p hp]
      | haltCopyUnreadable =>
        have hunread := h.1.unreadable (by rw [hheld, hkind])
        exact absurd hp (hunread.pending p)
      | haltStateCheckFailed => simp [hkind, Held.synthetic] at hstored
      | rollbackGuardStateInvalid => simp [hkind, Held.synthetic] at hstored
    exact inv_setClear_clean h hc rfl hstored hclean
      (.of_stored hstored (fun _ => hclean) hsound.removed)

/-- The copy goes once the rows are cleared. -/
theorem inv_removeCopy (h : Inv s) (hc : s.clears[i]? = some c) (hpast : c.stage.past)
    (hresets : c.stage.resets = false) {copy : Option Copy}
    (hcopy : Store.NoCopy { s.store with copy := copy }) (landed : Bool) {stage : ClearStage} {removed : Bool}
    (hremoved : removed = true → landed = true ∨ c.removed = true) :
    Inv ({ s with store := if landed then { s.store with copy := copy } else s.store }.setClear i
      { c with stage := stage, removed := removed }) := by
  obtain ⟨-, -, -, -, hsound⟩ := target_of_clear h hc
  have hstored := hsound.stored hresets
  have hclean := hsound.clean hstored hpast
  cases landed with
  | false =>
    refine inv_setClear h hc rfl (.of_stored hstored (fun _ => hclean) fun hr => ?_)
    exact hsound.removed ((hremoved hr).resolve_left (by simp))
  | true =>
    exact inv_setClear_clean h hc rfl hstored (hclean.withCopy copy)
      (.of_stored hstored (fun _ => hclean.withCopy copy) (fun _ => hcopy))

theorem inv_finishClear (h : Inv s) (hc : s.clears[i]? = some c) (hpast : c.stage.past) :
    Inv (s.finishClear i c) := by
  obtain ⟨heq, rfl, hheld, hwrites, hsound⟩ := target_of_clear h hc
  have hallows : s.phase.Allows none := h.1.allows.none
  refine ⟨?_, ?_⟩
  · cases hkind : c.target.synthetic with
    | false =>
      simp only [finishClear, hkind]
      refine core_clean (hsound.clean hkind hpast) hallows fun hq => ⟨hsound.removed ?_, rfl⟩
      simp only [Bool.false_eq_true, if_false, Bool.and_eq_true] at hq
      exact hq.1
    | true =>
      simp only [finishClear, hkind, if_true]
      refine h.1.move rfl hallows h.1.passedRows fun hcopy => h.1.passedCopy hcopy ?_
      rintro object prior hhalt
      rw [hheld] at hhalt
      simp [Option.some.inj hhalt, Held.synthetic] at hkind
  · simp only [finishClear, heq, hwrites]
    exact tasks_nil

theorem inv_clear (h : Inv s) (i : Nat) (landed answered : Bool) :
    Inv (s.clear i landed answered) := by
  unfold clear
  split
  · exact h
  · rename_i c hc
    obtain ⟨heq, hzero, -, -, hsound⟩ := target_of_clear h hc
    split
    · rename_i hstage
      exact inv_update h hc hstage landed answered
    · rename_i hstage
      have hstored := hsound.stored (by simp [hstage, ClearStage.resets])
      have hclean := hsound.clean hstored (by simp [hstage, ClearStage.past])
      exact inv_setClear h hc rfl (.of_stored hstored (fun _ => hclean) hsound.removed)
    · refine ⟨h.1, ⟨h.2.writes, .inl ?_⟩⟩
      simp [endClear, heq, hzero]
    · rename_i hstage
      exact inv_removeCopy h hc (by simp [hstage, ClearStage.past])
        (by simp [hstage, ClearStage.resets]) (.inl rfl) landed (fun hr => .inl hr)
    · rename_i hstage
      have hstored := hsound.stored (by simp [hstage, ClearStage.resets])
      have hclean := hsound.clean hstored (by simp [hstage, ClearStage.past])
      split
      · exact inv_setClear h hc rfl (.of_stored hstored (fun _ => hclean) hsound.removed)
      · exact inv_finishClear h hc (by simp [hstage, ClearStage.past])
    · rename_i hstage
      have hstored := hsound.stored (by simp [hstage, ClearStage.resets])
      have hclean := hsound.clean hstored (by simp [hstage, ClearStage.past])
      exact inv_setClear h hc rfl (.of_stored hstored (fun _ => hclean) hsound.removed)
    · rename_i hstage
      refine inv_removeCopy h hc (by simp [hstage, ClearStage.past])
        (by simp [hstage, ClearStage.resets]) (.inr rfl) landed (fun hr => ?_)
      simpa [or_comm] using hr
    · rename_i hstage
      refine inv_setClear h hc rfl ⟨hsound.target, fun _ => rfl, fun hstored _ => ?_, hsound.removed⟩
      exact hsound.clean hstored (by simp [hstage, ClearStage.past])
    · rename_i hstage
      exact inv_finishClear h hc (by simp [hstage, ClearStage.past])

end Clear

end Client

end XChainSync.Halts
