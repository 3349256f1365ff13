import XChainSync.Mutations.Payloads

/-!
# What a follower holds of its chain

The follower holds the blocks, actions and debits of its chain and at least its unstakes. A stake may
be ahead of the chain: each column reads as some chain that goes on from it has the row. Rolling back
and applying the next block keep this.
-/

namespace XChainSync.Mutations
open Rollback Server UndoJournal KeyedRows
set_option autoImplicit false

variable {A : Type} {p : Params A} {first b : Int} {chain : List (StakeBlock A)} {kind : RailKind}
  {rail rail' : Rail A} {f f' : Follower A}

/-! ### Rows that keep their bond -/

theorem same_refl (r : Bond A) : Bond.Same kind r r := ⟨rfl, rfl, rfl, rfl, fun _ => rfl⟩

theorem same_symm {r r' : Bond A} (h : Bond.Same kind r r') : Bond.Same kind r' r where
  action_index := h.action_index.symm
  source_id := h.source_id.symm
  target_contract_index := h.target_contract_index.symm
  tick_id := h.tick_id.symm
  signing_pubkey_id hk := (h.signing_pubkey_id hk).symm

theorem same_trans {r r' r'' : Bond A} (h : Bond.Same kind r r') (h' : Bond.Same kind r' r'') :
    Bond.Same kind r r'' where
  action_index := h'.action_index.trans h.action_index
  source_id := h'.source_id.trans h.source_id
  target_contract_index := h'.target_contract_index.trans h.target_contract_index
  tick_id := h'.tick_id.trans h.tick_id
  signing_pubkey_id hk := (h'.signing_pubkey_id hk).trans (h.signing_pubkey_id hk)

theorem undoStake_same {t : Tables A} {h : Int} (hwf : t.WF p h) (s : Stake A) :
    Bond.Same kind s.toBond ((t.rails kind).undoStake p kind b s).toBond :=
  Rail.restoreBond_same _ _ (hwf.rails kind).journaled.rotations_contract .stakes s.toBond

theorem undoUnstake_same {t : Tables A} {h : Int} (hwf : t.WF p h) (u : Unstake A) :
    Bond.Same kind u.toBond ((t.rails kind).undoUnstake p kind b u).toBond :=
  Rail.restoreBond_same _ _ (hwf.rails kind).journaled.rotations_contract .unstakes u.toBond

theorem undoStake_amount (s : Stake A) : (rail.undoStake p kind b s).amount =
    (kind.debits p).restore rail.slash_debits b (.stakes, s.action_index) s.amount := rfl

theorem undoStake_deactivation_block (s : Stake A) :
    (rail.undoStake p kind b s).deactivation_block =
      if atOrAbove (b + p.activationDelay) s.deactivation_block then none
      else s.deactivation_block := rfl

/-! ### The rollback of any rail, row by row -/

theorem restore_cases (p : Params A) (b : Int) (kind : RailKind) (rail : Rail A) :
    ∃ g : TargetTable → Bond A → Bond A, (∀ t r, Bond.Same kind r (g t r)) ∧
      (∀ t r, (g t r).amount =
        (kind.debits p).restore rail.slash_debits b (t, r.action_index) r.amount) ∧
      rail.restore p b kind = (rail.mapBonds g).resetDeactivations p kind b := by
  cases kind with
  | capability =>
    refine ⟨fun t r => { r with
      amount := (RailKind.debits p .capability).restore rail.slash_debits b (t, r.action_index)
        r.amount }, ?_, ?_, rfl⟩
    · exact fun t r => ⟨rfl, rfl, rfl, rfl, fun _ => rfl⟩
    · exact fun t r => rfl
  | contract =>
    refine ⟨fun t r => { r with
      amount := (RailKind.debits p .contract).restore rail.slash_debits b (t, r.action_index) r.amount
      signing_pubkey_id :=
        rotationJournal.restore rail.rotations b (t, r.action_index) r.signing_pubkey_id }, ?_, ?_, ?_⟩
    · exact fun t r => ⟨rfl, rfl, rfl, rfl, fun hk => by cases hk⟩
    · exact fun t r => rfl
    · simp only [Rail.restore, Rail.restoreSlashAmounts, Rail.restoreRotatedKeys,
        Rail.mapBonds_mapBonds]
      rfl

theorem stake_of_rollback {firstActionIndex : Option Int} {s' : Stake A}
    (hs' : s' ∈ (rail.rollback p firstActionIndex b kind).stakes) : ∃ s ∈ rail.stakes,
      Bond.Same kind s.toBond s'.toBond ∧
      s'.amount = (kind.debits p).restore rail.slash_debits b (.stakes, s.action_index) s.amount ∧
      s'.deactivation_block =
        if rail.orphanedStamp p kind b s then none else s.deactivation_block := by
  obtain ⟨g, hsame, hamount, heq⟩ := restore_cases p b kind rail
  have hmem := List.mem_of_mem_filter hs'
  rw [Rail.reopenUnstakes, heq] at hmem
  obtain ⟨s₁, hs₁, rfl⟩ := List.mem_map.mp hmem
  obtain ⟨s, hs, rfl⟩ := List.mem_map.mp hs₁
  refine ⟨s, hs, ?_⟩
  rw [Rail.orphanedStamp_mapBonds hsame s]
  by_cases hstamp : rail.orphanedStamp p kind b s = true
  · rw [if_pos hstamp, if_pos hstamp]
    exact ⟨hsame .stakes s.toBond, hamount .stakes s.toBond, rfl⟩
  · rw [if_neg hstamp, if_neg hstamp]
    exact ⟨hsame .stakes s.toBond, hamount .stakes s.toBond, rfl⟩

theorem unstake_in_rollback {firstActionIndex : Option Int} {u : Unstake A} (hu : u ∈ rail.unstakes)
    (hlive : survives firstActionIndex u.action_index = true) :
    ∃ u' ∈ (rail.rollback p firstActionIndex b kind).unstakes,
      Bond.Same kind u.toBond u'.toBond ∧ u'.block_index = u.block_index := by
  obtain ⟨g, hsame, -, heq⟩ := restore_cases p b kind rail
  simp only [Rail.rollback, Rail.deleteOrphaned, Rail.reopenUnstakes, heq, Rail.resetDeactivations,
    Rail.mapBonds, List.map_map, List.mem_filter, List.mem_map]
  refine ⟨_, ⟨⟨u, hu, rfl⟩, ?_⟩, ?_⟩
  · have hkey : (g .unstakes u.toBond).action_index = u.action_index :=
      (hsame .unstakes u.toBond).action_index
    simp only [Function.comp]
    split <;> simpa [hkey] using hlive
  · simp only [Function.comp]
    split <;> exact ⟨hsame .unstakes u.toBond, rfl⟩

theorem slash_debits_rollback (rail : Rail A) (firstActionIndex : Option Int) :
    (rail.rollback p firstActionIndex b kind).slash_debits =
      rail.slash_debits.filter (·.block_index < b) := by
  cases kind <;> rfl

theorem getFirstActionIndex_congr {l l' : List (Int × Int)} (h : ∀ x, x ∈ l ↔ x ∈ l') :
    getFirstActionIndex b l = getFirstActionIndex b l' := by
  have hmem : ∀ a, a ∈ (l.filter (b ≤ ·.2)).map Prod.fst ↔
      a ∈ (l'.filter (b ≤ ·.2)).map Prod.fst := by
    intro a
    simp [List.mem_map, List.mem_filter, h]
  unfold getFirstActionIndex
  cases hmin : ((l'.filter (b ≤ ·.2)).map Prod.fst).min? with
  | none =>
    rw [List.min?_eq_none_iff] at hmin ⊢
    rw [List.eq_nil_iff_forall_not_mem] at hmin ⊢
    exact fun a ha => hmin a ((hmem a).mp ha)
  | some m =>
    rw [List.min?_eq_some_iff] at hmin ⊢
    exact ⟨(hmem m).mpr hmin.1, fun a ha => hmin.2 a ((hmem a).mp ha)⟩

/-! ### The invariant -/

/-- Some chain among `chains` shows the column of the stake as the follower has it. -/
def Shown {V : Type} (p : Params A) (first : Int) (chains : List (StakeBlock A) → Prop)
    (kind : RailKind) (column : Stake A → V) (s : Stake A) : Prop :=
  ∃ shown, chains shown ∧ ∃ c ∈ ((tables p first shown).rails kind).stakes,
    c.action_index = s.action_index ∧ column c = column s

/-- A stake of the follower next to the stake of the chain with its action. -/
structure HeldStake (p : Params A) (first : Int) (chain : List (StakeBlock A))
    (reach : RailKind → Int → List (StakeBlock A) → Prop) (kind : RailKind) (s : Stake A) : Prop where
  same : ∀ s₀ ∈ ((tables p first chain).rails kind).stakes, s₀.action_index = s.action_index →
    Bond.Same kind s₀.toBond s.toBond
  amount : ∀ s₀ ∈ ((tables p first chain).rails kind).stakes, s₀.action_index = s.action_index →
    Shown p first (fun shown => shown = chain ∨ reach kind s.action_index shown) kind
      (fun s => s.amount) s
  deactivation_block : ∀ s₀ ∈ ((tables p first chain).rails kind).stakes,
    s₀.action_index = s.action_index →
    Shown p first (fun shown => shown = chain ∨ reach kind s.action_index shown) kind
      Stake.deactivation_block s

/-- `reach` gives the chains a row may be ahead on. -/
structure Holds (p : Params A) (first : Int) (chain : List (StakeBlock A))
    (reach : RailKind → Int → List (StakeBlock A) → Prop) (f : Follower A) : Prop where
  blocks : ∀ h, h ∈ f.blocks ↔ first ≤ h ∧ h < nextHeight first chain
  actions : ∀ x, x ∈ f.actions ↔ x ∈ (tables p first chain).actions
  slash_debits : ∀ kind d, d ∈ (f.rails kind).slash_debits ↔
    d ∈ ((tables p first chain).rails kind).slash_debits
  unstakes : ∀ kind, ∀ u ∈ ((tables p first chain).rails kind).unstakes,
    ∃ u' ∈ (f.rails kind).unstakes, Bond.Same kind u.toBond u'.toBond ∧
      u'.block_index = u.block_index
  stakes : ∀ kind, ∀ s ∈ (f.rails kind).stakes, HeldStake p first chain reach kind s

variable {reach reach' : RailKind → Int → List (StakeBlock A) → Prop}

theorem Shown.mono {V : Type} {chains chains' : List (StakeBlock A) → Prop}
    {column : Stake A → V} {s : Stake A} (h : Shown p first chains kind column s)
    (hle : ∀ shown, chains shown → chains' shown) : Shown p first chains' kind column s := by
  obtain ⟨shown, hshown, hrow⟩ := h
  exact ⟨shown, hle shown hshown, hrow⟩

theorem Holds.mono (h : Holds p first chain reach f)
    (hle : ∀ kind a shown, reach kind a shown → shown = chain ∨ reach' kind a shown) :
    Holds p first chain reach' f where
  blocks := h.blocks
  actions := h.actions
  slash_debits := h.slash_debits
  unstakes := h.unstakes
  stakes kind s hs :=
    have hchains : ∀ shown, shown = chain ∨ reach kind s.action_index shown →
        shown = chain ∨ reach' kind s.action_index shown :=
      fun shown hshown => hshown.elim Or.inl (hle kind s.action_index shown)
    { same := (h.stakes kind s hs).same
      amount := fun s₀ hs₀ hkey => ((h.stakes kind s hs).amount s₀ hs₀ hkey).mono hchains
      deactivation_block := fun s₀ hs₀ hkey =>
        ((h.stakes kind s hs).deactivation_block s₀ hs₀ hkey).mono hchains }

/-! ### Rolling back -/

/-- On the stakes of a chain the stamp of an orphaned unstake is known by its value; on a follower
that holds its unstakes too, unless the value is ahead of the chain. -/
theorem orphanedStamp_value {s : Stake A} (h : rail.orphanedStamp p kind b s = true) :
    atOrAbove (b + p.activationDelay) s.deactivation_block = true := by
  simp only [Rail.orphanedStamp, List.any_eq_true, Bool.and_eq_true, decide_eq_true_eq] at h
  obtain ⟨u, -, ⟨-, hb⟩, hstamp⟩ := h
  rw [hstamp, atOrAbove_some, decide_eq_true_eq]
  omega

theorem Holds.orphanedStamp (h : Holds p first chain reach f) (hchain : Written p first chain)
    {s s₀ : Stake A} (hs₀ : s₀ ∈ ((tables p first chain).rails kind).stakes)
    (hsame : Bond.Same kind s₀.toBond s.toBond)
    (hdeact : s.deactivation_block = s₀.deactivation_block) :
    (f.rails kind).orphanedStamp p kind b s =
      atOrAbove (b + p.activationDelay) s₀.deactivation_block := by
  rw [Bool.eq_iff_iff]
  constructor
  · intro hstamp
    rw [← hdeact]
    exact orphanedStamp_value hstamp
  · intro hstamp
    rw [← (hchain.wf.rails kind).shape.orphanedStamp_eq hs₀] at hstamp
    simp only [Rail.orphanedStamp, List.any_eq_true, Bool.and_eq_true, decide_eq_true_eq]
      at hstamp ⊢
    obtain ⟨u, hu, ⟨hbond, hb⟩, hvalue⟩ := hstamp
    obtain ⟨u', hu', hsame', hblock⟩ := h.unstakes kind u hu
    refine ⟨u', hu', ⟨?_, hblock ▸ hb⟩, ?_⟩
    · rw [RailKind.sameBond_congr hsame hsame']
      exact hbond
    · rw [hdeact, hvalue, hblock]

section RollingBack
variable {short : List (StakeBlock A)} (hchain : Written p first chain) (hshort : short <+: chain)
  (hreach : ∀ kind a shown, reach kind a shown → chain <+: shown ∧ Written p first shown)
  (h : Holds p first chain reach f)
include hchain hshort hreach h

theorem Holds.amount_rolledBack {s s' : Stake A} (hs : s ∈ (f.rails kind).stakes)
    (hkey : s'.action_index = s.action_index)
    (hamount : s'.amount = (kind.debits p).restore (f.rails kind).slash_debits
      (nextHeight first short) (.stakes, s.action_index) s.amount)
    {s₀' : Stake A} (hs₀' : s₀' ∈ ((tables p first short).rails kind).stakes)
    (hkey' : s₀'.action_index = s'.action_index) :
    Shown p first (fun shown => shown = short ∨ reach kind s'.action_index shown) kind
      (fun s => s.amount) s' := by
  obtain ⟨s₀, hs₀, rfl⟩ := (hchain.cut hshort).stake_of_mem hs₀'
  have hkey₀ : s₀.action_index = s.action_index := hkey'.trans hkey
  obtain ⟨shown, hshown, c, hc, hckey, hcamount⟩ := (h.stakes kind s hs).amount s₀ hs₀ hkey₀
  have hordered := (hchain.wf.rails kind).journaled.debits_ordered
  rw [Journal.restore_congr_mem hordered (h.slash_debits kind)] at hamount
  rcases Journal.restore_or (j := kind.debits p) ((tables p first chain).rails kind).slash_debits
    (nextHeight first short) (.stakes, s.action_index) s.amount s₀.amount with heq | ⟨heq, heq₀⟩
  · -- the journal decides: the row reads as the shorter chain has it
    refine ⟨short, Or.inl rfl, _, hs₀', hkey', ?_⟩
    dsimp only
    rw [hamount, heq, undoStake_amount, hkey₀]
  · rw [heq] at hamount
    rcases hshown with rfl | hahead
    · obtain rfl := stake_unique hchain.wf hc hs₀ (hckey.trans hkey₀.symm)
      refine ⟨short, Or.inl rfl, _, hs₀', hkey', ?_⟩
      dsimp only at hcamount ⊢
      rw [undoStake_amount, hkey₀, heq₀, hamount, hcamount]
    · refine ⟨shown, Or.inr (hkey ▸ hahead), c, hc, hckey.trans hkey.symm, ?_⟩
      exact hcamount.trans hamount.symm

theorem Holds.deactivation_rolledBack {s s' : Stake A} (hs : s ∈ (f.rails kind).stakes)
    (hkey : s'.action_index = s.action_index)
    (hdeact : s'.deactivation_block =
      if (f.rails kind).orphanedStamp p kind (nextHeight first short) s then none
      else s.deactivation_block)
    {s₀' : Stake A} (hs₀' : s₀' ∈ ((tables p first short).rails kind).stakes)
    (hkey' : s₀'.action_index = s'.action_index) :
    Shown p first (fun shown => shown = short ∨ reach kind s'.action_index shown) kind
      Stake.deactivation_block s' := by
  obtain ⟨s₀, hs₀, rfl⟩ := (hchain.cut hshort).stake_of_mem hs₀'
  have hkey₀ : s₀.action_index = s.action_index := hkey'.trans hkey
  obtain ⟨shown, hshown, c, hc, hckey, hcdeact⟩ :=
    (h.stakes kind s hs).deactivation_block s₀ hs₀ hkey₀
  rcases hshown with rfl | hahead
  · obtain rfl := stake_unique hchain.wf hc hs₀ (hckey.trans hkey₀.symm)
    refine ⟨short, Or.inl rfl, _, hs₀', hkey', ?_⟩
    have hsame := (h.stakes kind s hs).same c hc hckey
    rw [h.orphanedStamp hchain hc hsame hcdeact.symm] at hdeact
    rw [undoStake_deactivation_block, hdeact, hcdeact]
  · by_cases hstamp : (f.rails kind).orphanedStamp p kind (nextHeight first short) s = true
    · -- the follower unstamps the row, and so does the chain
      refine ⟨short, Or.inl rfl, _, hs₀', hkey', ?_⟩
      have hvalue := orphanedStamp_value hstamp
      obtain ⟨hle, hshown⟩ := hreach kind _ shown hahead
      obtain ⟨c', hc', rfl⟩ := (hshown.cut hle).stake_of_mem hs₀
      obtain rfl := stake_unique hshown.wf hc' hc (hkey₀.trans hckey.symm)
      rw [hdeact, if_pos hstamp, undoStake_deactivation_block]
      rw [← hcdeact] at hvalue
      split
      · rfl
      · rename_i hbelow
        rw [undoStake_deactivation_block] at hbelow ⊢
        split
        · rfl
        · rename_i hkept
          rw [if_neg hkept] at hbelow
          exact absurd hvalue hbelow
    · rw [if_neg hstamp] at hdeact
      refine ⟨shown, Or.inr (hkey ▸ hahead), c, hc, hckey.trans hkey.symm, ?_⟩
      rw [hdeact]
      exact hcdeact

theorem Holds.rolledBack :
    Holds p first short reach (f.rollbackIndexer p (nextHeight first short)) := by
  have hcut := hchain.cut hshort
  have hfirst : getFirstActionIndex (nextHeight first short) f.actions =
      getFirstActionIndex (nextHeight first short) (tables p first chain).actions :=
    getFirstActionIndex_congr h.actions
  have hlength : nextHeight first short ≤ nextHeight first chain := by
    have := hshort.length_le
    unfold nextHeight
    omega
  refine ⟨?_, ?_, ?_, ?_, ?_⟩
  · intro k
    simp only [Follower.rollbackIndexer, List.mem_filter, decide_eq_true_eq, h.blocks]
    omega
  · intro x
    simp only [Follower.rollbackIndexer, List.mem_filter, h.actions, hfirst, hcut.mem_actions]
    exact and_congr_right fun hx => hcut.splitsAt x.1 x.2 hx
  · intro kind d
    rw [Follower.rollbackIndexer, slash_debits_rollback, List.mem_filter, decide_eq_true_eq,
      h.slash_debits, hcut.mem_slash_debits]
  · intro kind u' hu'
    obtain ⟨u, hu, rfl⟩ := hcut.unstake_of_mem hu'
    obtain ⟨v, hv, hsame, hblock⟩ := h.unstakes kind u hu
    have hknown := (hcut.mem_actions _).mp ((hcut.wf.rails kind).shape.unstake_known _ hu')
    have hlive := (hcut.splitsAt _ _ hknown.1).mpr hknown.2
    have hkey : v.action_index = u.action_index := hsame.action_index
    have hlive' : survives (getFirstActionIndex (nextHeight first short) f.actions)
        v.action_index = true := by
      rw [hkey, hfirst]
      exact hlive
    have hrolled : ∃ v' ∈ ((f.rollbackIndexer p (nextHeight first short)).rails kind).unstakes,
        Bond.Same kind v.toBond v'.toBond ∧ v'.block_index = v.block_index :=
      unstake_in_rollback hv hlive'
    obtain ⟨v', hv', hsame', hblock'⟩ := hrolled
    refine ⟨v', hv', ?_, hblock'.trans hblock⟩
    exact same_trans (same_symm (undoUnstake_same hchain.wf u)) (same_trans hsame hsame')
  · intro kind s' hs'
    obtain ⟨s, hs, hsame, hamount, hdeact⟩ := stake_of_rollback hs'
    have hkey : s'.action_index = s.action_index := hsame.action_index
    refine ⟨?_, ?_, ?_⟩
    · intro s₀' hs₀' hkey'
      obtain ⟨s₀, hs₀, rfl⟩ := hcut.stake_of_mem hs₀'
      have hheld := (h.stakes kind s hs).same s₀ hs₀ (hkey'.trans hkey)
      exact same_trans (same_symm (undoStake_same hchain.wf s₀)) (same_trans hheld hsame)
    · intro s₀' hs₀' hkey'
      exact h.amount_rolledBack hchain hshort hreach hs hkey hamount hs₀' hkey'
    · intro s₀' hs₀' hkey'
      exact h.deactivation_rolledBack hchain hshort hreach hs hkey hdeact hs₀' hkey'

end RollingBack

/-- Below its first block nothing of the chain is left. -/
theorem Holds.rolledBack_below (h : Holds p first chain reach f) (hchain : Written p first chain)
    (hb : b < first) : Holds p first [] reach (f.rollbackIndexer p b) := by
  refine ⟨?_, ?_, ?_, ?_, ?_⟩
  · intro k
    simp only [Follower.rollbackIndexer, List.mem_filter, decide_eq_true_eq, h.blocks, nextHeight,
      List.length_nil]
    omega
  · intro x
    have hfirst : getFirstActionIndex b f.actions =
        getFirstActionIndex b (tables p first chain).actions := getFirstActionIndex_congr h.actions
    simp only [Follower.rollbackIndexer, List.mem_filter, h.actions, hfirst, tables_nil,
      Tables.empty, List.not_mem_nil, iff_false, not_and]
    intro hx hlive
    have hlt := (hchain.wf.splitsAt b x.1 x.2 hx).mp hlive
    have := actions_from_first hchain hx
    omega
  · intro kind d
    simp only [Follower.rollbackIndexer, slash_debits_rollback, List.mem_filter, decide_eq_true_eq,
      h.slash_debits, tables_nil, Tables.empty, List.not_mem_nil, iff_false, not_and]
    intro hd hlt
    have := slash_debits_from_first hchain hd
    omega
  · intro kind u hu
    simp [tables_nil, Tables.empty] at hu
  · intro kind s hs
    refine ⟨?_, ?_, ?_⟩ <;>
    · intro s₀ hs₀
      simp [tables_nil, Tables.empty] at hs₀

/-- What a reorg event does: nothing, or a rollback to below the first block, or one to a shorter
chain. -/
theorem Holds.handleReorg_cases (h : Holds p first chain reach f) (b : Int) :
    (f.handleReorg p b = f ∧ chain.take (b - first).toNat = chain) ∨
    (f.handleReorg p b = f.rollbackIndexer p b ∧ b < first ∧ (b - first).toNat = 0) ∨
    (f.handleReorg p b = f.rollbackIndexer p (nextHeight first (chain.take (b - first).toNat))) := by
  unfold Follower.handleReorg
  split
  · rename_i hany
    obtain ⟨k, hk, hle⟩ := List.any_eq_true.mp hany
    rw [h.blocks] at hk
    simp only [decide_eq_true_eq] at hle
    by_cases hfirst : first ≤ b
    · have hnext : nextHeight first (chain.take (b - first).toNat) = b := by
        unfold nextHeight at hk ⊢
        rw [List.length_take]
        omega
      exact Or.inr (Or.inr (by rw [hnext]))
    · exact Or.inr (Or.inl ⟨rfl, by omega, by omega⟩)
  · rename_i habove
    refine Or.inl ⟨rfl, List.take_of_length_le ?_⟩
    by_contra hlt
    refine habove (List.any_eq_true.mpr ⟨nextHeight first chain - 1, ?_, ?_⟩)
    · rw [h.blocks]
      unfold nextHeight
      omega
    · unfold nextHeight
      simp only [decide_eq_true_eq]
      omega

/-- A reorg event cuts the chain. -/
theorem Holds.handleReorg (h : Holds p first chain reach f) (hchain : Written p first chain)
    (hreach : ∀ kind a shown, reach kind a shown → chain <+: shown ∧ Written p first shown) :
    Holds p first (chain.take (b - first).toNat) reach (f.handleReorg p b) := by
  rcases h.handleReorg_cases b with ⟨heq, hall⟩ | ⟨heq, hbelow, hzero⟩ | heq
  · rw [heq, hall]
    exact h
  · rw [heq, hzero, List.take_zero]
    exact h.rolledBack_below hchain hbelow
  · rw [heq]
    exact h.rolledBack hchain (take_le (b - first).toNat chain) hreach

end XChainSync.Mutations
