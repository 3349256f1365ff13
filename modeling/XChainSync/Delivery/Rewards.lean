import XChainSync.Delivery.Selection

/-!
# What the two paths select of the rewards

A reward earned in the window is there by its block. One that is written in the window and earned before
it is there by its derivation or by its pending reward, as long as no other reward takes its key first.
-/

namespace XChainSync.Delivery
set_option autoImplicit false

open KeyedRows

namespace Source

structure Rewarded (S : Source) : Prop where
  written_le : ∀ e ∈ S.validator_rewards, e.written ≤ S.tip
  ids_le : ∀ e ∈ S.validator_rewards, e.row.id ≤ S.last_reward_id
  ids_nodup : (S.validator_rewards.map (·.row.id)).Nodup
  unique : S.validator_rewards.Pairwise fun e e' => e.row.identity.conflicts e'.row.identity = false
  written_at : ∀ e ∈ S.validator_rewards, e.row.WrittenAt e.written S.index_pubkeys
    (S.recovery_pending_rewards.filter (·.applied_block = e.written))
  applied_le : ∀ p ∈ S.recovery_pending_rewards, p.applied_block ≤ S.tip
  log_le : ∀ d ∈ S.anchor_reward_reconcile_log, d.block_index ≤ S.tip

/-- The rewards of a window up to the tip. -/
def rewardsSince (S : Source) (since : Nat) : List Reward :=
  mergeRewardRows
    (mergeRewardRows ((rows S.validator_rewards).filter (since ≤ ·.block_index))
      (collectRedrivenValidatorRewards S since S.tip))
    (collectDerivedAnchorRewards S since S.tip)

variable {S : Source} {since : Nat}

/-! ### The selection -/

theorem Rewarded.block_index_le (h : S.Rewarded) {e : Stamped Reward} (he : e ∈ S.validator_rewards) :
    e.row.block_index ≤ e.written := by
  obtain ⟨_, heq | ⟨hlt, _⟩⟩ := h.written_at e he
  · exact Nat.le_of_eq heq
  · exact Nat.le_of_lt hlt

theorem mem_redriven {r : Reward} {fromBlock toBlock : Nat} :
    r ∈ S.findRedrivenValidatorRewards fromBlock toBlock ↔ r ∈ rows S.validator_rewards ∧
      ∃ p ∈ S.recovery_pending_rewards, p.covers S.index_pubkeys r = true ∧
        fromBlock ≤ p.applied_block ∧ p.applied_block ≤ toBlock ∧ r.block_index < p.applied_block := by
  rw [findRedrivenValidatorRewards, mem_joined]
  simp only [Bool.and_eq_true, decide_eq_true_eq, and_assoc]

theorem mem_derived {r : Reward} {fromBlock toBlock : Nat} :
    r ∈ S.findDerivedValidatorRewards fromBlock toBlock ↔ r ∈ rows S.validator_rewards ∧
      ∃ d, r.derive_block_index = some d ∧ fromBlock ≤ d ∧ d ≤ toBlock ∧ r.block_index < d := by
  rw [findDerivedValidatorRewards, List.mem_filter, Option.any_eq_true]
  simp only [Bool.and_eq_true, decide_eq_true_eq, and_assoc]

theorem backdated_of_redriven {r : Reward} {fromBlock toBlock : Nat}
    (h : r ∈ S.findRedrivenValidatorRewards fromBlock toBlock) : S.backdated r = true := by
  obtain ⟨_, p, hp, hcovers, _, _, hlt⟩ := mem_redriven.mp h
  rw [backdated, Bool.or_eq_true, List.any_eq_true]
  exact Or.inr ⟨p, hp, by simp [hcovers, hlt]⟩

theorem backdated_of_derived {r : Reward} {fromBlock toBlock : Nat}
    (h : r ∈ S.findDerivedValidatorRewards fromBlock toBlock) : S.backdated r = true := by
  obtain ⟨_, d, hd, _, _, hlt⟩ := mem_derived.mp h
  rw [backdated, Bool.or_eq_true, Option.any_eq_true]
  exact Or.inl ⟨d, hd, by simpa using hlt⟩

/-- A reward written in the window and earned before it is one of the two kinds. -/
theorem Rewarded.selected (h : S.Rewarded) {e : Stamped Reward} (he : e ∈ S.validator_rewards)
    (hwritten : since ≤ e.written) (hearned : e.row.block_index < since) :
    e.row ∈ S.findRedrivenValidatorRewards since S.tip ∨
      e.row ∈ S.findDerivedValidatorRewards since S.tip := by
  have hrow : e.row ∈ rows S.validator_rewards := List.mem_map_of_mem he
  have htip := h.written_le e he
  obtain ⟨_, heq | ⟨hlt, hderived | ⟨p, hp, hcovers⟩⟩⟩ := h.written_at e he
  · omega
  · exact Or.inr (mem_derived.mpr ⟨hrow, e.written, hderived, hwritten, htip, hlt⟩)
  · obtain ⟨hp, happlied⟩ := List.mem_filter.mp hp
    rw [decide_eq_true_eq] at happlied
    exact Or.inl (mem_redriven.mpr ⟨hrow, p, hp, hcovers, by omega, by omega, by omega⟩)

theorem standing_of_mem_rewardsSince {r : Reward} (h : r ∈ S.rewardsSince since) :
    r ∈ rows S.validator_rewards := by
  rcases mem_of_mem_appendNew h with h | h
  · rcases mem_of_mem_appendNew h with h | h
    · exact List.mem_of_mem_filter h
    · exact (mem_redriven.mp (mem_of_mem_collect h)).1
  · exact (mem_derived.mp (mem_of_mem_collect h)).1

theorem Rewarded.mem_rewardsSince (h : S.Rewarded) (hapart : S.RewardsApart) {e : Stamped Reward}
    (he : e ∈ S.validator_rewards) (hwritten : since ≤ e.written) : e.row ∈ S.rewardsSince since := by
  by_cases hearned : since ≤ e.row.block_index
  · apply mem_appendNew_left
    apply mem_appendNew_left
    exact List.mem_filter.mpr ⟨List.mem_map_of_mem he, decide_eq_true hearned⟩
  have hselected := h.selected he hwritten (Nat.lt_of_not_le hearned)
  have hbackdated : S.backdated e.row = true := by
    rcases hselected with hselected | hselected
    · exact backdated_of_redriven hselected
    · exact backdated_of_derived hselected
  -- whatever carries the same key, it is this reward
  have halone : ∀ r ∈ rows S.validator_rewards, validatorRewardKey r = validatorRewardKey e.row →
      since ≤ r.block_index ∨ S.backdated r = true → r = e.row := by
    intro r hr hkey hcarried
    obtain ⟨e', he', rfl⟩ := List.mem_map.mp hr
    by_contra hne
    obtain ⟨hearlier, hplain⟩ := hapart.backdated_apart e he e' he' hkey hbackdated
      fun heq => hne (by rw [heq])
    rcases hcarried with hcarried | hcarried
    · omega
    · rw [hplain] at hcarried
      exact Bool.noConfusion hcarried
  have hredriven : ∀ r ∈ S.findRedrivenValidatorRewards since S.tip,
      validatorRewardKey r = validatorRewardKey e.row → r = e.row := fun r hr hkey =>
    halone r (mem_redriven.mp hr).1 hkey (Or.inr (backdated_of_redriven hr))
  have hderived : ∀ r ∈ S.findDerivedValidatorRewards since S.tip,
      validatorRewardKey r = validatorRewardKey e.row → r = e.row := fun r hr hkey =>
    halone r (mem_derived.mp hr).1 hkey (Or.inr (backdated_of_derived hr))
  have hbase : ∀ r ∈ (rows S.validator_rewards).filter (since ≤ ·.block_index),
      validatorRewardKey r = validatorRewardKey e.row → r = e.row := by
    intro r hr hkey
    obtain ⟨hr, hsince⟩ := List.mem_filter.mp hr
    exact halone r hr hkey (Or.inl (of_decide_eq_true hsince))
  have hfirst : ∀ r ∈ mergeRewardRows ((rows S.validator_rewards).filter (since ≤ ·.block_index))
      (collectRedrivenValidatorRewards S since S.tip),
      validatorRewardKey r = validatorRewardKey e.row → r = e.row := by
    intro r hr
    rcases mem_of_mem_appendNew hr with hr | hr
    · exact hbase r hr
    · exact hredriven r (mem_of_mem_collect hr)
  rcases hselected with hselected | hselected
  · apply mem_appendNew_left
    exact mem_appendNew_right (mem_collect hselected hredriven) hbase
      fun r hr => hredriven r (mem_of_mem_collect hr)
  · exact mem_appendNew_right (mem_collect hselected hderived) hfirst
      fun r hr => hderived r (mem_of_mem_collect hr)

/-! ### One block -/

variable {gas : Nat} {b : Block}

theorem mem_step_rewards {e : Stamped Reward} : e ∈ (S.step gas b).validator_rewards ↔
    (e ∈ S.validator_rewards ∨ e.row ∈ b.rewards ∧ e.written = S.tip + 1) ∧
      e.row.id ∉ b.reconciled := by
  simp only [step, written, List.mem_filter, List.mem_append, mem_stamp, decide_eq_true_eq]

theorem Admits.written_ids (hb : S.Admits gas b) (h : S.Rewarded) :
    ((S.written b).map (·.row.id)).Nodup := by
  rw [written, List.map_append, List.nodup_append]
  refine ⟨h.ids_nodup, by simpa [stamp, Function.comp_def] using hb.reward_ids_nodup, ?_⟩
  intro i hi j hj
  obtain ⟨e, he, rfl⟩ := List.mem_map.mp hi
  obtain ⟨e', he', rfl⟩ := List.mem_map.mp hj
  have hle := h.ids_le e he
  have hlt := hb.reward_ids_later e'.row (mem_stamp.mp he').1
  omega

theorem le_foldl_max (ids : List Nat) (last : Nat) :
    last ≤ ids.foldl max last ∧ ∀ i ∈ ids, i ≤ ids.foldl max last := by
  induction ids generalizing last with
  | nil => simp
  | cons i ids ih =>
    obtain ⟨hlast, hids⟩ := ih (max last i)
    refine ⟨Nat.le_trans (Nat.le_max_left last i) hlast, ?_⟩
    intro j hj
    rcases List.mem_cons.mp hj with rfl | hj
    · exact Nat.le_trans (Nat.le_max_right last j) hlast
    · exact hids j hj

theorem covers_append {pubkeys new : List IndexPubkey} {p : PendingReward} {r : Reward}
    (h : p.covers pubkeys r = true) : p.covers (pubkeys ++ new) r = true := by
  rw [PendingReward.covers, Bool.and_eq_true] at h ⊢
  rw [List.any_append, h.2, Bool.true_or]
  exact ⟨h.1, rfl⟩

theorem Rewarded.step (h : S.Rewarded) (hb : S.Admits gas b) : (S.step gas b).Rewarded where
  written_le := by
    intro e he
    obtain ⟨he | ⟨_, hwritten⟩, _⟩ := mem_step_rewards.mp he
    · exact Nat.le_succ_of_le (h.written_le e he)
    · exact Nat.le_of_eq hwritten
  ids_le := by
    intro e he
    obtain ⟨hlast, hids⟩ := le_foldl_max (b.rewards.map Reward.id) S.last_reward_id
    obtain ⟨he | ⟨hrow, _⟩, _⟩ := mem_step_rewards.mp he
    · exact Nat.le_trans (h.ids_le e he) hlast
    · exact hids _ (List.mem_map_of_mem hrow)
  ids_nodup := (List.filter_sublist.map _).nodup (hb.written_ids h)
  unique := hb.reward_unique.sublist List.filter_sublist
  written_at := by
    intro e he
    obtain ⟨he | ⟨hrow, hwritten⟩, _⟩ := mem_step_rewards.mp he
    · obtain ⟨hderive, hkind⟩ := h.written_at e he
      refine ⟨hderive, ?_⟩
      rcases hkind with heq | ⟨hlt, hderived | ⟨p, hp, hcovers⟩⟩
      · exact Or.inl heq
      · exact Or.inr ⟨hlt, Or.inl hderived⟩
      · obtain ⟨hp, happlied⟩ := List.mem_filter.mp hp
        refine Or.inr ⟨hlt, Or.inr ⟨p, ?_, covers_append hcovers⟩⟩
        exact List.mem_filter.mpr ⟨List.mem_append_left _ hp, happlied⟩
    · obtain ⟨hderive, hkind⟩ := hb.rewards_written e.row hrow
      rw [← hwritten] at hderive hkind
      refine ⟨hderive, ?_⟩
      rcases hkind with heq | ⟨hlt, hderived | ⟨p, hp, hcovers⟩⟩
      · exact Or.inl heq
      · exact Or.inr ⟨hlt, Or.inl hderived⟩
      · refine Or.inr ⟨hlt, Or.inr ⟨p, ?_, hcovers⟩⟩
        refine List.mem_filter.mpr ⟨List.mem_append_right _ hp, ?_⟩
        rw [hwritten, hb.applied_now p hp]
        exact decide_eq_true rfl
  applied_le := by
    intro p hp
    rcases List.mem_append.mp hp with hp | hp
    · exact Nat.le_succ_of_le (h.applied_le p hp)
    · exact Nat.le_of_eq (hb.applied_now p hp)
  log_le := by
    intro d hd
    rcases List.mem_append.mp hd with hd | hd
    · exact Nat.le_succ_of_le (h.log_le d hd)
    · obtain ⟨e, _, rfl⟩ := List.mem_map.mp hd
      exact Nat.le_refl _

end Source

end XChainSync.Delivery
