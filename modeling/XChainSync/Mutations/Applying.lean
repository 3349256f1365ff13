import XChainSync.Mutations.Holding

/-!
# Applying the payload of the next block

The payload comes from a view that goes on from the follower's chain. A row it carries reads as the
view has it; a row it does not carry was not mutated by the block.
-/

namespace XChainSync.Mutations
open Rollback Server UndoJournal KeyedRows
set_option autoImplicit false

variable {A : Type} {p : Params A} {first : Int} {kind : RailKind} {f f' : Follower A}

/-! ### What an apply does -/

theorem insertRows_eq {R : Type} {key : R → Int} {table rows out : List R}
    (h : insertRows key table rows = some out) :
    out = table ++ rows ∧ ∀ r ∈ rows, ∀ x ∈ table, key x ≠ key r := by
  induction rows generalizing table with
  | nil =>
    obtain rfl := Option.some.inj h
    simp
  | cons r rows ih =>
    simp only [insertRows, List.foldlM_cons, Option.bind_eq_bind, Option.bind_eq_some_iff] at h
    obtain ⟨table', hinsert, hrest⟩ := h
    split at hinsert
    · simp at hinsert
    · rename_i hfree
      obtain rfl := Option.some.inj hinsert
      obtain ⟨rfl, hrows⟩ := ih hrest
      refine ⟨by simp, fun r' hr' x hx => ?_⟩
      rcases List.mem_cons.mp hr' with rfl | hr'
      · simp only [List.any_eq_true, decide_eq_true_eq, not_exists, not_and] at hfree
        exact hfree x hx
      · exact hrows r' hr' x (List.mem_append_left _ hx)

structure AppliedRail (rail data : Rail A) (stakes : List (Stake A)) (unstakes : List (Unstake A))
    (rail' : Rail A) : Prop where
  stakes_eq : rail'.stakes = upsertRows (fun s => s.action_index) (rail.stakes ++ data.stakes) stakes
  unstakes_eq : rail'.unstakes =
    upsertRows (fun u => u.action_index) (rail.unstakes ++ data.unstakes) unstakes
  slash_debits_eq : rail'.slash_debits = rail.slash_debits ++ data.slash_debits
  fresh : ∀ s ∈ data.stakes, ∀ x ∈ rail.stakes, x.action_index ≠ s.action_index

theorem applyRail_cases {rail data rail' : Rail A} {stakes : List (Stake A)}
    {unstakes : List (Unstake A)} (h : applyRail rail data stakes unstakes = some rail') :
    AppliedRail rail data stakes unstakes rail' := by
  simp only [applyRail, Option.bind_eq_some_iff, Option.map_eq_some_iff] at h
  obtain ⟨newStakes, hstakes, newUnstakes, hunstakes, rfl⟩ := h
  obtain ⟨rfl, hfresh⟩ := insertRows_eq hstakes
  obtain ⟨rfl, -⟩ := insertRows_eq hunstakes
  exact ⟨rfl, rfl, rfl, hfresh⟩

theorem applyBlock_cases {payload : Payload A} (h : f.applyBlock payload = some f')
    (hnew : payload.block_index ∉ f.blocks) :
    f'.blocks = f.blocks ++ [payload.block_index] ∧ f'.actions = f.actions ++ payload.actions ∧
      ∀ kind, AppliedRail (f.rails kind) (payload.data kind) (payload.updated_stakes kind)
        (payload.updated_unstakes kind) (f'.rails kind) := by
  simp only [Follower.applyBlock, if_neg hnew, Option.bind_eq_some_iff, Option.map_eq_some_iff] at h
  obtain ⟨actions, hactions, capability, hcapability, contract, hcontract, rfl⟩ := h
  refine ⟨rfl, (insertRows_eq hactions).1, fun kind => ?_⟩
  cases kind with
  | capability => exact applyRail_cases hcapability
  | contract => exact applyRail_cases hcontract

/-! ### What a payload carries -/

section Carrying
variable {t : Tables A} {h n : Int}

theorem mem_collectUpdatedStakes {s : Stake A}
    (hs : s ∈ collectUpdatedStakes p kind n (t.rails kind)) : s ∈ (t.rails kind).stakes := by
  have hrows := mem_of_mem_collect hs
  simp only [findDeactivationStampedRows, findSlashDebitedStakes, findRotatedStakes,
    List.mem_append, List.mem_filter] at hrows
  rcases hrows with (h | h) | h <;> exact h.1

theorem mem_collectUpdatedUnstakes {u : Unstake A}
    (hu : u ∈ collectUpdatedUnstakes kind n (t.rails kind)) : u ∈ (t.rails kind).unstakes := by
  have hrows := mem_of_mem_collect hu
  simp only [findMaturedCooldownRows, findSlashDebitedUnstakes, findRotatedUnstakes,
    List.mem_append, List.mem_filter] at hrows
  rcases hrows with (h | h) | h <;> exact h.1

/-- Every stake of the view that an action of the block created is carried. -/
theorem carries_created {s : Stake A} (hs : s ∈ (t.rails kind).stakes)
    (hcreated : (s.action_index, n) ∈ t.actions) :
    (buildBlockPayload p t n).carries kind s.action_index = true := by
  refine List.any_eq_true.mpr ⟨s, List.mem_append_left _ ?_, by simp⟩
  exact List.mem_filter.mpr ⟨hs, by simpa using hcreated⟩

/-- Every stake of the view that the block mutated is carried. -/
theorem carries_mutated (hwf : t.WF p h) {s : Stake A} (hs : s ∈ (t.rails kind).stakes)
    (hmutates : mutates p (t.rails kind) n s.action_index = true) :
    (buildBlockPayload p t n).carries kind s.action_index = true := by
  refine List.any_eq_true.mpr ⟨s, List.mem_append_right _ ?_, by simp⟩
  have hrow : s ∈ findDeactivationStampedRows (n + p.activationDelay) (t.rails kind) ++
      findSlashDebitedStakes n (t.rails kind) ++ findRotatedStakes kind n (t.rails kind) := by
    simp only [mutates, Bool.or_eq_true, List.any_eq_true, Bool.and_eq_true, decide_eq_true_eq]
      at hmutates
    rcases hmutates with ⟨d, hd, ⟨htarget, hkey⟩, hblock⟩ | ⟨s', hs', hkey, hstamp⟩
    · refine List.mem_append_left _ (List.mem_append_right _ ?_)
      refine List.mem_filter.mpr ⟨hs, List.any_eq_true.mpr ⟨d, hd, ?_⟩⟩
      simp [htarget, hkey, hblock]
    · obtain rfl := stake_unique hwf hs' hs hkey
      refine List.mem_append_left _ (List.mem_append_left _ ?_)
      exact List.mem_filter.mpr ⟨hs, by simpa using hstamp⟩
  refine mem_collect hrow fun s' hs' hkey => ?_
  have hmem : s' ∈ (t.rails kind).stakes := by
    simp only [findDeactivationStampedRows, findSlashDebitedStakes, findRotatedStakes,
      List.mem_append, List.mem_filter] at hs'
    rcases hs' with (h | h) | h <;> exact h.1
  exact stake_unique hwf hmem hs hkey

/-- A stake after the apply: a row of the view that the payload carries, or a row from before that
it does not. -/
theorem stake_of_applied {rail' : Rail A} {f : Follower A}
    (happlied : AppliedRail (f.rails kind) ((buildBlockPayload p t n).data kind)
      ((buildBlockPayload p t n).updated_stakes kind)
      ((buildBlockPayload p t n).updated_unstakes kind) rail')
    {s : Stake A} (hs : s ∈ rail'.stakes) :
    (s ∈ (t.rails kind).stakes ∧ (buildBlockPayload p t n).carries kind s.action_index = true) ∨
      (s ∈ (f.rails kind).stakes ∧
        (buildBlockPayload p t n).carries kind s.action_index = false) := by
  rw [happlied.stakes_eq] at hs
  rcases mem_foldl_mapSet_cases hs with hupdated | ⟨hthere, hnone⟩
  · exact Or.inl ⟨mem_collectUpdatedStakes hupdated,
      List.any_eq_true.mpr ⟨s, List.mem_append_right _ hupdated, by simp⟩⟩
  · rcases List.mem_append.mp hthere with hold | hnew
    · refine Or.inr ⟨hold, List.any_eq_false.mpr fun r hr => ?_⟩
      simp only [decide_eq_true_eq]
      rcases List.mem_append.mp hr with hr | hr
      · exact fun hkey => happlied.fresh r hr s hold hkey.symm
      · exact hnone r hr
    · exact Or.inl ⟨List.mem_of_mem_filter hnew,
        List.any_eq_true.mpr ⟨s, List.mem_append_left _ hnew, by simp⟩⟩

end Carrying

/-! ### The next block -/

section NextBlock
variable {chain next view : List (StakeBlock A)} {reach reach' : RailKind → Int →
  List (StakeBlock A) → Prop} (hview : Written p first view) (hchain : chain <+: next)
  (hnext : next <+: view) (hlength : next.length = chain.length + 1)
include hview hchain hnext hlength

/-- A stake that the payload does not carry was there before the block and stands as it was. -/
theorem uncarried_stays {s' : Stake A} (hs' : s' ∈ ((tables p first next).rails kind).stakes)
    (huncarried : (buildBlockPayload p (tables p first view) (nextHeight first chain)).carries kind
      s'.action_index = false) :
    ∃ s ∈ ((tables p first chain).rails kind).stakes, s.action_index = s'.action_index ∧
      Bond.Same kind s.toBond s'.toBond ∧ s'.amount = s.amount ∧
      s'.deactivation_block = s.deactivation_block := by
  have hcut := hview.cut hnext
  have hcutChain := hview.cut (hchain.trans hnext)
  obtain ⟨k, hk⟩ := (hcut.wf.rails kind).shape.stake_known s' hs'
  obtain ⟨hk, hlt⟩ := (hcut.mem_actions _).mp hk
  obtain ⟨v, hv, rfl⟩ := hcut.stake_of_mem hs'
  have hheight : nextHeight first next = nextHeight first chain + 1 := by
    unfold nextHeight
    omega
  have hold : k < nextHeight first chain := by
    by_contra hge
    obtain rfl : k = nextHeight first chain := by
      dsimp only at hlt
      omega
    have hcarried : (buildBlockPayload p (tables p first view) (nextHeight first chain)).carries kind
        v.action_index = true := carries_created hv hk
    exact absurd (hcarried.symm.trans huncarried) (by decide)
  have hs := hcutChain.undoStake_mem hv hk hold
  refine ⟨_, hs, rfl, ?_, ?_⟩
  · exact same_trans (same_symm (undoStake_same hview.wf v)) (undoStake_same hview.wf v)
  · have hvalue := hview.value_between hnext hchain hs' hs rfl fun k hle hlt => ?_
    · exact ⟨hvalue.1.symm, hvalue.2.symm⟩
    · obtain rfl : k = nextHeight first chain := by omega
      cases hmutates : mutates p ((tables p first view).rails kind) (nextHeight first chain)
          v.action_index with
      | false => exact hmutates
      | true =>
        have hcarried := carries_mutated hview.wf hv hmutates
        exact absurd (hcarried.symm.trans huncarried) (by decide)

variable (hkeep : ∀ kind a shown,
    (buildBlockPayload p (tables p first view) (nextHeight first chain)).carries kind a = false →
      reach kind a shown → shown ≠ chain → reach' kind a shown)
  (hfront : ∀ kind a,
    (buildBlockPayload p (tables p first view) (nextHeight first chain)).carries kind a = true →
      reach' kind a view)

include hfront in
omit hchain hlength in
theorem held_of_carried {s : Stake A} (hs : s ∈ ((tables p first view).rails kind).stakes)
    (hcarried : (buildBlockPayload p (tables p first view) (nextHeight first chain)).carries kind
      s.action_index = true) : HeldStake p first next reach' kind s := by
  have hreach : reach' kind s.action_index view := hfront kind s.action_index hcarried
  refine ⟨?_, ?_, ?_⟩
  · intro s₀ hs₀ hkey
    obtain ⟨v, hv, hvkey, hsame⟩ := hview.stake_stays hnext hs₀
    obtain rfl := stake_unique hview.wf hv hs (hvkey.trans hkey)
    exact same_symm hsame
  · exact fun s₀ hs₀ hkey => ⟨view, Or.inr hreach, s, hs, rfl, rfl⟩
  · exact fun s₀ hs₀ hkey => ⟨view, Or.inr hreach, s, hs, rfl, rfl⟩

include hkeep in
theorem held_of_uncarried {s : Stake A} (hheld : HeldStake p first chain reach kind s)
    (huncarried : (buildBlockPayload p (tables p first view) (nextHeight first chain)).carries kind
      s.action_index = false) : HeldStake p first next reach' kind s := by
  have hbefore : ∀ s₀' ∈ ((tables p first next).rails kind).stakes,
      s₀'.action_index = s.action_index → _ := fun s₀' hs₀' hkey =>
    uncarried_stays hview hchain hnext hlength hs₀' (hkey ▸ huncarried)
  refine ⟨?_, ?_, ?_⟩
  · intro s₀' hs₀' hkey
    obtain ⟨s₀, hs₀, hkey₀, hsame, -⟩ := hbefore s₀' hs₀' hkey
    exact same_trans (same_symm hsame) (hheld.same s₀ hs₀ (hkey₀.trans hkey))
  · intro s₀' hs₀' hkey
    obtain ⟨s₀, hs₀, hkey₀, -, hamount, -⟩ := hbefore s₀' hs₀' hkey
    obtain ⟨shown, hshown, c, hc, hckey, hcamount⟩ := hheld.amount s₀ hs₀ (hkey₀.trans hkey)
    by_cases heq : shown = chain
    · subst heq
      obtain rfl := stake_unique ((hview.shorter (hchain.trans hnext)).wf) hc hs₀
        (hckey.trans (hkey₀.trans hkey).symm)
      exact ⟨next, Or.inl rfl, s₀', hs₀', hkey, hamount.trans hcamount⟩
    · exact ⟨shown, Or.inr (hkeep _ _ _ huncarried (hshown.resolve_left heq) heq), c, hc, hckey, hcamount⟩
  · intro s₀' hs₀' hkey
    obtain ⟨s₀, hs₀, hkey₀, -, -, hdeact⟩ := hbefore s₀' hs₀' hkey
    obtain ⟨shown, hshown, c, hc, hckey, hcdeact⟩ :=
      hheld.deactivation_block s₀ hs₀ (hkey₀.trans hkey)
    by_cases heq : shown = chain
    · subst heq
      obtain rfl := stake_unique ((hview.shorter (hchain.trans hnext)).wf) hc hs₀
        (hckey.trans (hkey₀.trans hkey).symm)
      exact ⟨next, Or.inl rfl, s₀', hs₀', hkey, hdeact.trans hcdeact⟩
    · exact ⟨shown, Or.inr (hkeep _ _ _ huncarried (hshown.resolve_left heq) heq), c, hc, hckey, hcdeact⟩

theorem unstake_of_applied {rail' : Rail A} (h : Holds p first chain reach f)
    (happlied : AppliedRail (f.rails kind)
      ((buildBlockPayload p (tables p first view) (nextHeight first chain)).data kind)
      ((buildBlockPayload p (tables p first view) (nextHeight first chain)).updated_stakes kind)
      ((buildBlockPayload p (tables p first view) (nextHeight first chain)).updated_unstakes kind)
      rail')
    {u' : Unstake A} (hu' : u' ∈ ((tables p first next).rails kind).unstakes) :
    ∃ v ∈ rail'.unstakes, Bond.Same kind u'.toBond v.toBond ∧ v.block_index = u'.block_index := by
  have hcut := hview.cut hnext
  have hknown := (hcut.mem_actions _).mp ((hcut.wf.rails kind).shape.unstake_known u' hu')
  obtain ⟨u, hu, rfl⟩ := hcut.unstake_of_mem hu'
  have hsame : Bond.Same kind u.toBond (((tables p first view).rails kind).undoUnstake p kind
      (nextHeight first next) u).toBond := undoUnstake_same hview.wf u
  -- a row with the action of `u`, which the updates leave or replace by `u` itself
  have hthere : ∃ v ∈ (f.rails kind).unstakes ++
      ((buildBlockPayload p (tables p first view) (nextHeight first chain)).data kind).unstakes,
      Bond.Same kind u.toBond v.toBond ∧ v.block_index = u.block_index := by
    have hheight : nextHeight first next = nextHeight first chain + 1 := by
      unfold nextHeight
      omega
    by_cases hold : u.block_index < nextHeight first chain
    · obtain ⟨v, hv, hsame', hblock⟩ := h.unstakes kind _
        ((hview.cut (hchain.trans hnext)).undoUnstake_mem hu hold)
      exact ⟨v, List.mem_append_left _ hv,
        same_trans (undoUnstake_same hview.wf u) hsame', hblock⟩
    · have hblock : u.block_index = nextHeight first chain := by
        have hlt : u.block_index < nextHeight first next := hknown.2
        omega
      refine ⟨u, List.mem_append_right _ (List.mem_filter.mpr ⟨hu, ?_⟩), same_refl _, rfl⟩
      rw [← hblock]
      simpa using (hview.wf.rails kind).shape.unstake_known u hu
  obtain ⟨v, hv, hsame', hblock⟩ := hthere
  have hcovers : ∃ r ∈ rail'.unstakes, r.action_index = v.action_index ∧ (r = v ∨ r ∈
      (buildBlockPayload p (tables p first view) (nextHeight first chain)).updated_unstakes kind) := by
    rw [happlied.unstakes_eq]
    exact foldl_mapSet_covers hv
  obtain ⟨v', hv', hkey', hor⟩ := hcovers
  refine ⟨v', hv', ?_⟩
  rcases hor with rfl | hupdated
  · exact ⟨same_trans (same_symm hsame) hsame', hblock⟩
  · have hmem := mem_collectUpdatedUnstakes hupdated
    have hkey : v'.action_index = u.action_index := hkey'.trans hsame'.action_index
    obtain rfl := (hview.wf.rails kind).shape.unique_unstake hmem hu hkey
    exact ⟨same_symm hsame, rfl⟩

include hkeep hfront in
/-- The follower holds the next block's chain after its payload. -/
theorem Holds.applied (h : Holds p first chain reach f)
    (happly : f.applyBlock (buildBlockPayload p (tables p first view) (nextHeight first chain)) =
      some f') : Holds p first next reach' f' := by
  have hcut := hview.cut hnext
  have hcutChain := hview.cut (hchain.trans hnext)
  have hheight : nextHeight first next = nextHeight first chain + 1 := by
    unfold nextHeight
    omega
  have hnew : (buildBlockPayload p (tables p first view) (nextHeight first chain)).block_index ∉
      f.blocks := by
    rw [h.blocks]
    exact fun hmem => absurd hmem.2 (Int.lt_irrefl _)
  obtain ⟨hblocks, hactions, hrails⟩ := applyBlock_cases happly hnew
  refine ⟨?_, ?_, ?_, ?_, ?_⟩
  · intro k
    rw [hblocks, List.mem_append, h.blocks, List.mem_singleton, hheight]
    show _ ∨ k = nextHeight first chain ↔ _
    unfold nextHeight
    omega
  · intro x
    rw [hactions, List.mem_append, h.actions, hcut.mem_actions, hcutChain.mem_actions, hheight]
    simp only [buildBlockPayload, getBlockScopedRows, List.mem_filter, decide_eq_true_eq,
      ← and_or_left]
    exact and_congr_right fun _ => by omega
  · intro kind d
    rw [(hrails kind).slash_debits_eq, List.mem_append, h.slash_debits, hcut.mem_slash_debits,
      hcutChain.mem_slash_debits, hheight]
    simp only [buildBlockPayload, getBlockScopedRows, List.mem_filter, decide_eq_true_eq,
      ← and_or_left]
    exact and_congr_right fun _ => by omega
  · intro kind u hu
    exact unstake_of_applied hview hchain hnext hlength h (hrails kind) hu
  · intro kind s hs
    rcases stake_of_applied (hrails kind) hs with ⟨hmem, hcarried⟩ | ⟨hmem, huncarried⟩
    · exact held_of_carried hview hnext hfront hmem hcarried
    · exact held_of_uncarried hview hchain hnext hlength hkeep (h.stakes kind s hmem) huncarried

end NextBlock

end XChainSync.Mutations
