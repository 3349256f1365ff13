import XChainSync.Client.RewindEvidence

/-!
# Catch-up and strict confirmation

The gate of `incrementalCatchUp` looks at `_strictConfirmPending` alone, which a timeout or a
rejection fills. Where every height with a held report is in it as a pass goes through the gate, and
none is recorded while the pass is under way, no range commits a height that awaits confirmation.
-/

namespace XChainSync.Client
set_option autoImplicit false

open Runs

/-- A height that has been reported and not confirmed: an active source's report is held and no
group has reached quorum, or a timeout or a rejection has refused it. -/
def Votes.AwaitsConfirmation (cfg : Config) (v : Votes) (h : Int) : Prop :=
  h ∈ v.strictConfirmPending ∨
    (∃ i ∈ v.activeSourceIndices cfg, (v.pendingHashes h i).isSome) ∧
      ∀ key, ((v.tally cfg (v.pendingHashes h)).group (v.pendingHashes h) key).length <
        v.effectiveQuorum cfg

theorem Votes.Clear.not_awaits {cfg : Config} {v : Votes} (hv : v.Clear) (h : Int) :
    ¬ v.AwaitsConfirmation cfg h := by
  rintro (hmem | ⟨⟨i, -, hi⟩, -⟩)
  · rw [hv.strictConfirmPending] at hmem
    simp at hmem
  · rw [hv.pendingHashes h i] at hi
    simp at hi

/-- The points of a pass from its gate to the move of the cursor. -/
def RunnerPc.InPass : RunnerPc → Prop
  | .readTip => True
  | .gotTip _ => True
  | .awaitTail _ => True
  | .tailDone _ _ => True
  | .download _ => True
  | .trainGate _ _ => True
  | .lockWait _ _ => True
  | .committed _ _ => True
  | _ => False

theorem RunnerPc.Idle.not_inPass {pc : RunnerPc} (h : pc.Idle) : ¬ pc.InPass := by
  intro hp
  cases pc <;> first | exact hp | exact h

theorem Runner.inPass_of_resume {r : Runner} {v : TailVerdict} (h : (r.resume v).pc.InPass) :
    r.pc.InPass := by
  obtain ⟨before, pc⟩ := r
  cases pc with
  | window pc => cases pc <;> exact h
  | _ => trivial

theorem ClientSync.RunnerMoves.inPass {c : ClientSync} {pc pc' : RunnerPc}
    (hm : RunnerMoves c pc pc') (h : pc'.InPass) : pc.InPass := by
  cases hm with
  | again hpc =>
    rcases hpc with rfl | ⟨d, rfl⟩ | ⟨d, s, rfl⟩ | ⟨d, s, rfl⟩ | ⟨d, s, rfl⟩ <;> trivial
  | _ => trivial

namespace ClientSync
variable {cfg : Config} {c c' : ClientSync} {a : Action} {e : Doing}

def InPass (c : ClientSync) : Prop := ∃ r, c.catchUp = some r ∧ r.pc.InPass

/-- As a pass goes through its gate every height with a held report is one the gate looks at, and no
report is recorded until the pass has moved the cursor. -/
structure Gated (cfg : Config) (c : ClientSync) (a : Action) : Prop where
  opens : ∀ c', Steps cfg c a c' → ¬ c.InPass → c'.InPass →
    ∀ h i, (c'.votes.pendingHashes h i).isSome → h ∈ c'.votes.strictConfirmPending
  reports : c.InPass → c.reportsBlock cfg a = false

/-- A pass begins at its gate, and a step that records no report leaves none held. -/
structure KeepsPass (reports : Prop) (c c' : ClientSync) : Prop where
  pass : c'.InPass → c.InPass ∨ c'.incrementalCatchUpBlocked = false
  votes : reports ∨ (c.votes.Clear → c'.votes.Clear)

variable {reports : Prop}

/-! ### Every step -/

theorem inPass_calm (hc : RunnerCalm c.catchUp c'.catchUp) (h : c'.InPass) : c.InPass := by
  obtain ⟨r, hr, hpc⟩ := h
  rcases hc r hr with hr₀ | ⟨y, v, hy, rfl⟩ | hidle
  · exact ⟨r, hr₀, hpc⟩
  · exact ⟨y, hy, Runner.inPass_of_resume hpc⟩
  · exact absurd hpc hidle.not_inPass

theorem keepsPass_calm (hc : Calm c c') : KeepsPass reports c c' :=
  ⟨fun h => Or.inl (inPass_calm hc.catchUp h), Or.inr hc.votes⟩

theorem keepsPass_calls (hc : Calls cfg e c c') (he : e.reports → reports) :
    KeepsPass reports c c' where
  pass := by
    intro h
    rcases hc.catchUp with hcalm | ⟨-, hblocked⟩
    · exact Or.inl (inPass_calm hcalm h)
    · exact Or.inr hblocked
  votes := hc.votes.imp_left he

theorem keepsPass_of_eq (hr : c'.catchUp = c.catchUp) (hv : c'.votes = c.votes) :
    KeepsPass reports c c' := by
  refine ⟨fun h => Or.inl ?_, Or.inr fun h => hv ▸ h⟩
  unfold InPass at h ⊢
  rwa [hr] at h

/-- The runner goes on from within a pass, or to a point that is in none. -/
theorem keepsPass_setRunner {r : Runner} {pc : RunnerPc} {c₁ : ClientSync}
    (hr : c.catchUp = some r) (hpc : pc.InPass → r.pc.InPass)
    (hv : c.votes.Clear → c₁.votes.Clear) : KeepsPass reports c (c₁.setRunner pc) where
  pass := by
    rintro ⟨x, hx, hx'⟩
    obtain ⟨y, -, rfl⟩ := Option.map_eq_some_iff.mp hx
    exact Or.inl ⟨r, hr, hpc hx'⟩
  votes := Or.inr hv

theorem KeepsPass.after {c₁ : ClientSync} (h : KeepsPass reports c₁ c')
    (hr : c₁.catchUp = c.catchUp) (hv : c₁.votes = c.votes) : KeepsPass reports c c' where
  pass := by
    unfold InPass
    rw [← hr]
    exact h.pass
  votes := hv ▸ h.votes

theorem keepsPass_noted (hn : Noted cfg c c') : KeepsPass reports c c' := by
  obtain ⟨c₁, hn, hc⟩ := hn
  exact (keepsPass_calls hc False.elim).after hn.catchUp hn.votes

theorem live_keepsPass {id : TaskId} {o : Outcome} {driver : Driver} {event : BlockEvent}
    {pc : LivePc} (hs : LiveStep cfg c id driver event pc o c') : KeepsPass reports c c' := by
  cases hs with
  | tail hc hh hpc =>
    have h : KeepsPass reports c _ := keepsPass_calm hc
    exact ⟨h.pass, h.votes⟩
  | apply hl hpc =>
    rw [applyBlock_eq]
    exact keepsPass_of_eq rfl rfl
  | recomputed =>
    have hn := notes_recomputePassed c event.block_index
    exact keepsPass_of_eq (hn _).catchUp (hn _).votes
  | diverged =>
    have hn := notes_halt c .stateHash
    exact (keepsPass_calm (calm_endTask (c.halt .stateHash) id driver)).after hn.catchUp hn.votes
  | quit hc hgone hk => exact keepsPass_calm hc
  | _ => exact keepsPass_of_eq rfl rfl

theorem runner_keepsPass {r : Runner} (hr : c.catchUp = some r)
    (hs : RunnerStep cfg c r.pc a c') : KeepsPass (c.reportsBlock cfg a) c c' := by
  obtain ⟨before, pc⟩ := r
  cases hs with
  | moves hc hh hr' hm hk => exact keepsPass_setRunner hr hm.inPass hc.votes
  | idles hc hk hr' => exact keepsPass_calls hc fun h => h
  | fresh =>
    refine keepsPass_setRunner hr (fun _ => trivial) ?_
    unfold startVerifiedTipBelow
    split <;> exact fun hv => hv
  | gotTip => exact keepsPass_setRunner hr (fun _ => trivial) fun hv => hv
  | range hl => exact keepsPass_setRunner hr (fun _ => trivial) fun hv => hv
  | cursor => exact keepsPass_setRunner hr (fun _ => trivial) fun hv => hv
  | @windowLock base base' s hb ht =>
    have h : KeepsPass (c.reportsBlock cfg (.runner .ok)) c
        ((c.windowBased base').setRunner (.window (.lockWait base' s))) :=
      keepsPass_setRunner hr (fun h => h) fun hv => hv
    exact ⟨h.pass, h.votes⟩
  | _ => exact keepsPass_setRunner hr (fun h => h) fun hv => hv

theorem step_keepsPass (h : Steps cfg c a c') : KeepsPass (c.reportsBlock cfg a) c c' := by
  cases step_cases h with
  | calls hc he => exact keepsPass_calls hc fun h => h
  | live ht hs => exact live_keepsPass hs
  | rollback ht hs =>
    cases hs with
    | fail hc hid hk => exact (keepsPass_calls (hc .nothing) False.elim).after rfl rfl
    | returns hc hid hk => exact keepsPass_calls (hc .nothing) False.elim
    | _ => exact keepsPass_of_eq rfl rfl
  | runner ha hr hs => exact runner_keepsPass hr hs
  | walk hw hs => exact keepsPass_noted (noted_walkStep hs)
  | marker hs =>
    have hn : MarkerNoted cfg c c' := markerNoted_markerStep hs
    exact keepsPass_noted hn.noted
  | cleared hh =>
    unfold cleared
    dsimp only
    split <;> exact keepsPass_of_eq rfl rfl
  | crash => exact ⟨fun ⟨r, hr, _⟩ => by simp [restart] at hr, Or.inr fun _ => Votes.clear_init⟩

/-! ### Runs -/

/-- Nothing is held while a pass is under way. -/
theorem step_passClear (hi : c.InPass → c.votes.Clear) (hok : Gated cfg c a)
    (h : Steps cfg c a c') : c'.InPass → c'.votes.Clear := by
  intro hpass'
  have hkeeps := step_keepsPass h
  by_cases hpass : c.InPass
  · have hrep := hok.reports hpass
    exact hkeeps.votes.resolve_left (by simp [hrep]) (hi hpass)
  · have hblocked := (hkeeps.pass hpass').resolve_left hpass
    have hempty : c'.votes.strictConfirmPending = [] := by
      simp only [incrementalCatchUpBlocked, Bool.or_eq_false_iff, Bool.not_eq_false',
        List.isEmpty_iff] at hblocked
      exact hblocked.1.2
    refine ⟨fun height i => ?_, hempty⟩
    by_contra hne
    have hmem := hok.opens c' h hpass hpass' height i (Option.isSome_iff_ne_none.mpr hne)
    rw [hempty] at hmem
    simp at hmem

/-- Two sources under strict confirmation. -/
def strictPair : Config := { majorityOf 2 with HASH_CONFIRM_STRICT := true }

/-- A run in which no block is reported holds nothing. -/
theorem run_unreported {db : Replica} {halted : Option HaltReason}
    (h : Run (Steps cfg) (fun c a => c.reportsBlock cfg a = false) (restart db halted) c) :
    Run (Steps cfg) (Gated cfg) (restart db halted) c ∧ c.votes.Clear := by
  induction h with
  | refl => exact ⟨.refl, Votes.clear_init⟩
  | @tail c c' a _ hrep hs ih =>
    have hkeeps : ∀ c₁, Steps cfg c a c₁ → c₁.votes.Clear := fun c₁ h₁ =>
      (step_keepsPass h₁).votes.resolve_left (by simp [hrep]) ih.2
    refine ⟨.tail ih.1 ⟨?_, fun _ => hrep⟩ hs, hkeeps c' hs⟩
    intro c₁ h₁ _ _ height i hheld
    rw [(hkeeps c₁ h₁).pendingHashes height i] at hheld
    simp at hheld

end ClientSync

end XChainSync.Client
