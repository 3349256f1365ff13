import Mathlib.Data.List.Pairwise
import XChainSync.Delivery.Rewards

/-!
# Both paths lead to the source's rows

A payload delivers a window when it has the ledger rows written in it, rewards that stand and among them
all that were written in it. Applied to a replica with the rows before the window it gives the rows at its
end, and both paths deliver: a block payload the window of its one block, a snapshot the one since a block.
-/

namespace XChainSync.Delivery
set_option autoImplicit false

open KeyedRows

namespace Source

structure Kept (gas : Nat) (S : Source) : Prop where
  ordered : S.Ordered
  credits : S.Ledgered gas S.credits
  debits : S.Debited S.debits
  escrows : S.Ledgered gas S.escrows
  emissions : S.Emitted S.contract_emissions
  rewards : S.Rewarded

theorem kept_empty (gas start : Nat) : (empty start).Kept gas where
  ordered := by constructor <;> simp [empty]
  credits := by constructor <;> simp [empty]
  debits := by constructor <;> simp [empty]
  escrows := by constructor <;> simp [empty]
  emissions := by constructor <;> simp [empty]
  rewards := by constructor <;> simp [empty]

variable {gas : Nat} {S S' : Source} {b : Block} {blocks : List Block}

theorem Kept.step (h : S.Kept gas) (hb : S.Admits gas b) : (S.step gas b).Kept gas where
  ordered := h.ordered.step hb
  credits := h.credits.step h.ordered hb Maturity.refund hb.credits_acted
    fun u hu r hr => hb.unstakes_alone u hu r (List.mem_append_left _ hr)
  debits := h.debits.step hb.debits_acted
  escrows := h.escrows.step h.ordered hb Maturity.release hb.escrows_acted
    fun u hu r hr => hb.unstakes_alone u hu r (List.mem_append_right _ hr)
  emissions := h.emissions.step hb
  rewards := h.rewards.step hb

theorem Kept.run (h : S.Kept gas) (hblocks : AdmitsAll gas S blocks) : (S.run gas blocks).Kept gas := by
  induction blocks generalizing S with
  | nil => exact h
  | cons b bs ih => exact ih (h.step hblocks.1) hblocks.2

/-! ### A later source -/

/-- A table that has only grown, by rows written above a height. -/
def Grown {R : Type} (height : Nat) (table table' : List (Stamped R)) : Prop :=
  ∃ new, table' = table ++ new ∧ ∀ e ∈ new, height < e.written

theorem Grown.refl {R : Type} (height : Nat) (table : List (Stamped R)) : Grown height table table :=
  ⟨[], (List.append_nil table).symm, by simp⟩

theorem Grown.stamp {R : Type} {height tip : Nat} {table table' : List (Stamped R)}
    (h : Grown height table table') (hle : height ≤ tip) (new : List R) :
    Grown height table (table' ++ stamp (tip + 1) new) := by
  obtain ⟨old, rfl, hold⟩ := h
  refine ⟨old ++ Source.stamp (tip + 1) new, List.append_assoc _ _ _, ?_⟩
  intro e he
  rcases List.mem_append.mp he with he | he
  · exact hold e he
  · have hwritten := (mem_stamp.mp he).2
    omega

/-- The rows that are new have been written since. -/
theorem Grown.rows_perm {R : Type} {height : Nat} {table table' : List (Stamped R)} {held new : List R}
    (h : Grown height table table') (hle : ∀ e ∈ table, e.written ≤ height)
    (hheld : held.Perm (rows table)) (hnew : new.Perm (rowsSince (height + 1) table')) :
    (held ++ new).Perm (rows table') := by
  obtain ⟨added, rfl, hadded⟩ := h
  have hsince : rowsSince (height + 1) (table ++ added) = rows added := by
    have hnone : table.filter (height + 1 ≤ ·.written) = [] := by
      apply List.filter_eq_nil_iff.mpr
      intro e he hsince
      have := hle e he
      have := of_decide_eq_true hsince
      omega
    have hall : added.filter (height + 1 ≤ ·.written) = added := by
      apply List.filter_eq_self.mpr
      intro e he
      exact decide_eq_true (hadded e he)
    rw [rowsSince, List.filter_append, hnone, hall, List.nil_append]
  rw [hsince] at hnew
  have happend : rows (table ++ added) = rows table ++ rows added := List.map_append
  rw [happend]
  exact hheld.append hnew

structure Later (S S' : Source) : Prop where
  tip_le : S.tip ≤ S'.tip
  ids_le : S.last_reward_id ≤ S'.last_reward_id
  credits : Grown S.tip S.credits S'.credits
  debits : Grown S.tip S.debits S'.debits
  escrows : Grown S.tip S.escrows S'.escrows
  emissions : Grown S.tip S.contract_emissions S'.contract_emissions
  /-- A reward that is gone was reconciled. -/
  rewards_kept : ∀ e ∈ S.validator_rewards, e ∈ S'.validator_rewards ∨
    ∃ d ∈ S'.anchor_reward_reconcile_log, S.tip < d.block_index ∧ d.identity = e.row.identity
  rewards_new : ∀ e ∈ S'.validator_rewards, e ∈ S.validator_rewards ∨
    S.tip < e.written ∧ S.last_reward_id < e.row.id
  log : ∃ new, S'.anchor_reward_reconcile_log = S.anchor_reward_reconcile_log ++ new ∧
    ∀ d ∈ new, S.tip < d.block_index

theorem Later.refl (S : Source) : Later S S where
  tip_le := Nat.le_refl _
  ids_le := Nat.le_refl _
  credits := Grown.refl _ _
  debits := Grown.refl _ _
  escrows := Grown.refl _ _
  emissions := Grown.refl _ _
  rewards_kept := fun _ he => Or.inl he
  rewards_new := fun _ he => Or.inl he
  log := ⟨[], (List.append_nil _).symm, by simp⟩

theorem Later.step (h : Later S S') (hb : S'.Admits gas b) : Later S (S'.step gas b) where
  tip_le := Nat.le_succ_of_le h.tip_le
  ids_le := Nat.le_trans h.ids_le (le_foldl_max _ _).1
  credits := h.credits.stamp h.tip_le _
  debits := h.debits.stamp h.tip_le _
  escrows := h.escrows.stamp h.tip_le _
  emissions := h.emissions.stamp h.tip_le _
  rewards_kept := by
    intro e he
    rcases h.rewards_kept e he with he | ⟨d, hd, hlogged⟩
    · by_cases hid : e.row.id ∈ b.reconciled
      · refine Or.inr ⟨⟨e.row.identity, S'.tip + 1⟩, ?_, Nat.lt_succ_of_le h.tip_le, rfl⟩
        apply List.mem_append_right
        refine List.mem_map.mpr ⟨e, List.mem_filter.mpr ⟨?_, decide_eq_true hid⟩, rfl⟩
        exact List.mem_append_left _ he
      · exact Or.inl (mem_step_rewards.mpr ⟨Or.inl he, hid⟩)
    · exact Or.inr ⟨d, List.mem_append_left _ hd, hlogged⟩
  rewards_new := by
    intro e he
    obtain ⟨he | ⟨hrow, hwritten⟩, _⟩ := mem_step_rewards.mp he
    · exact h.rewards_new e he
    · have hid := hb.reward_ids_later e.row hrow
      have hlast := h.ids_le
      have htip := h.tip_le
      exact Or.inr ⟨by omega, by omega⟩
  log := by
    obtain ⟨new, hnew, hlt⟩ := h.log
    refine ⟨_, (congrArg (· ++ _) hnew).trans (List.append_assoc _ _ _), ?_⟩
    intro d hd
    rcases List.mem_append.mp hd with hd | hd
    · exact hlt d hd
    · obtain ⟨e, _, rfl⟩ := List.mem_map.mp hd
      exact Nat.lt_succ_of_le h.tip_le

theorem Later.run (h : Later S S') (hblocks : AdmitsAll gas S' blocks) :
    Later S (S'.run gas blocks) := by
  induction blocks generalizing S' with
  | nil => exact h
  | cons b bs ih => exact ih (h.step hblocks.1) hblocks.2

/-! ### Delivering -/

structure Delivers (S : Source) (since : Nat) (data : Payload) : Prop where
  credits : data.credits.Perm (rowsSince since S.credits)
  debits : data.debits.Perm (rowsSince since S.debits)
  escrows : data.escrows.Perm (rowsSince since S.escrows)
  emissions : data.contract_emissions.Perm (rowsSince since S.contract_emissions)
  rewards_standing : ∀ r ∈ data.validator_rewards, r ∈ rows S.validator_rewards
  rewards_written : ∀ e ∈ S.validator_rewards, since ≤ e.written → e.row ∈ data.validator_rewards
  log : data.anchor_reward_reconcile_log =
    S.anchor_reward_reconcile_log.filter (since ≤ ·.block_index)

theorem Kept.buildBlockPayload_delivers (h : S.Kept gas) (hapart : S.RewardsApart) :
    S.Delivers S.tip (S.buildBlockPayload gas S.tip) := by
  have hrewards : (S.buildBlockPayload gas S.tip).validator_rewards = S.rewardsSince S.tip := by
    have hbase : (rows S.validator_rewards).filter (·.block_index = S.tip) =
        (rows S.validator_rewards).filter (S.tip ≤ ·.block_index) := by
      apply List.filter_congr
      intro r hr
      obtain ⟨e, he, rfl⟩ := List.mem_map.mp hr
      have hle := h.rewards.block_index_le he
      have htip := h.rewards.written_le e he
      rw [Bool.eq_iff_iff, decide_eq_true_eq, decide_eq_true_eq]
      omega
    rw [buildBlockPayload, rewardsSince, hbase]
  constructor
  case credits => exact Ledgered.block_perm h.ordered h.credits
  case debits =>
    exact List.Perm.of_eq ((h.ordered.getActionScopedRows_tip .debits).trans
      (h.debits.filter_eq h.ordered))
  case escrows => exact Ledgered.block_perm h.ordered h.escrows
  case emissions =>
    exact List.Perm.of_eq (h.ordered.getEmissionRowsForBlock_tip.trans
      (h.emissions.snapshot_eq h.ordered))
  case rewards_standing =>
    intro r hr
    rw [hrewards] at hr
    exact standing_of_mem_rewardsSince hr
  case rewards_written =>
    intro e he hwritten
    rw [hrewards]
    exact h.rewards.mem_rewardsSince hapart he hwritten
  case log =>
    apply List.filter_congr
    intro d hd
    have hle := h.rewards.log_le d hd
    rw [Bool.eq_iff_iff, decide_eq_true_eq, decide_eq_true_eq]
    omega

theorem Kept.streamIncrementalSnapshot_delivers (h : S.Kept gas) (hapart : S.RewardsApart)
    {since : Nat} {data : Payload} (hdata : S.streamIncrementalSnapshot gas since = some data) :
    S.Delivers since data := by
  unfold streamIncrementalSnapshot at hdata
  split at hdata
  · cases hdata
  · cases hdata
    constructor
    case credits => exact Ledgered.credits_snapshot_perm h.ordered h.credits
    case debits => exact List.Perm.of_eq (h.debits.snapshot_eq h.ordered)
    case escrows => exact Ledgered.escrows_snapshot_perm h.ordered h.escrows
    case emissions => exact List.Perm.of_eq (h.emissions.snapshot_eq h.ordered)
    case rewards_standing => exact fun r hr => standing_of_mem_rewardsSince hr
    case rewards_written =>
      exact fun e he hwritten => h.rewards.mem_rewardsSince hapart he hwritten
    case log => rfl

end Source

/-! ### Applying -/

namespace Replica

open Source

variable {gas : Nat} {S S' : Source} {replica : Replica} {data : Payload} {since : Nat}
  {scope : ReconcileLog → Bool}

theorem rows_nodup (h : S.Rewarded) : (rows S.validator_rewards).Nodup := by
  have hids : ((rows S.validator_rewards).map Reward.id).Nodup := by
    rw [rows, List.map_map]
    exact h.ids_nodup
  exact hids.of_map

/-- Two standing rewards the table's keys do not tell apart are one. -/
theorem eq_of_duplicates (h : S.Rewarded) {e e' : Stamped Reward} (he : e ∈ S.validator_rewards)
    (he' : e' ∈ S.validator_rewards) (hdup : e.row.duplicates e'.row = true) : e' = e := by
  rw [Reward.duplicates, Bool.or_eq_true, decide_eq_true_eq] at hdup
  rcases hdup with hid | hconflict
  · exact List.inj_on_of_nodup_map h.ids_nodup he' he hid
  · by_contra hne
    have hsymm : Std.Symm fun x y : Stamped Reward => x.row.identity.conflicts y.row.identity = false :=
      ⟨fun x y hxy => (RewardIdentity.conflicts_comm _ _).trans hxy⟩
    rw [h.unique.forall he he' (Ne.symm hne)] at hconflict
    exact Bool.noConfusion hconflict

/-- A row of a payload is one the table's keys do not reject, unless the replica has it. -/
theorem duplicates_iff (hlater : Later S S') (h : S.Rewarded) (h' : S'.Rewarded)
    (hapart : S'.RewardsApart) {r e : Reward} (hr : r ∈ rows S'.validator_rewards)
    (he : e ∈ rows S.validator_rewards ∨ e ∈ rows S'.validator_rewards) :
    r.duplicates e = true ↔ e = r := by
  constructor
  · intro hdup
    obtain ⟨x, hx, rfl⟩ := List.mem_map.mp hr
    rcases he with he | he
    · obtain ⟨y, hy, rfl⟩ := List.mem_map.mp he
      rcases hlater.rewards_kept y hy with hstands | ⟨d, hd, _, hidentity⟩
      · rw [eq_of_duplicates h' hx hstands hdup]
      · -- the row is gone: it has a smaller id, and its identity is not written again
        rcases hlater.rewards_new x hx with hold | ⟨_, hid⟩
        · rw [eq_of_duplicates h hold hy hdup]
        · have hle := h.ids_le y hy
          rw [Reward.duplicates, Bool.or_eq_true, decide_eq_true_eq] at hdup
          rcases hdup with heq | hconflict
          · omega
          · rw [RewardIdentity.conflicts, Bool.and_eq_true, decide_eq_true_eq] at hconflict
            exact absurd (hidentity.trans hconflict.2.symm) (hapart.reconciled_apart x hx d hd)
    · obtain ⟨y, hy, rfl⟩ := List.mem_map.mp he
      rw [eq_of_duplicates h' hx hy hdup]
  · rintro rfl
    rw [Reward.duplicates, decide_eq_true rfl, Bool.true_or]

/-- A payload without a reconcile needs no mirroring, so mirroring it changes nothing. -/
theorem applyData_eq (hscope : ∀ d ∈ replica.anchor_reward_reconcile_log, scope d = false) :
    replica.applyData scope data = (replica.insertRows data).mirrorAnchorRewardReconcile scope := by
  unfold applyData
  split
  · rename_i hempty
    have hlog : (replica.insertRows data).anchor_reward_reconcile_log =
        replica.anchor_reward_reconcile_log := by
      rw [insertRows, List.isEmpty_iff.mp hempty, List.append_nil]
    have hall : ((replica.insertRows data).validator_rewards.filter fun r =>
        !replica.anchor_reward_reconcile_log.any fun d => scope d && d.identity = r.identity) =
          (replica.insertRows data).validator_rewards := by
      apply List.filter_eq_self.mpr
      intro r _
      rw [Bool.not_eq_true', List.any_eq_false]
      intro d hd
      rw [hscope d hd, Bool.false_and]
      exact Bool.noConfusion
    rw [mirrorAnchorRewardReconcile, hlog, hall, ← hlog]
  · rfl

theorem applyData_rewards (hlater : Later S S') (h : S.Rewarded) (h' : S'.Rewarded)
    (hapart : S'.RewardsApart) (hdata : S'.Delivers (S.tip + 1) data) (hholds : replica.Holds S)
    (hscope : ∀ d ∈ S'.anchor_reward_reconcile_log, scope d = true ↔ S.tip < d.block_index) :
    ((replica.insertRows data).mirrorAnchorRewardReconcile scope).validator_rewards.Perm
      (rows S'.validator_rewards) := by
  have hnodup : replica.validator_rewards.Nodup :=
    hholds.validator_rewards.nodup_iff.mpr (rows_nodup h)
  have hkeys : ∀ r ∈ data.validator_rewards, ∀ e,
      e ∈ replica.validator_rewards ∨ e ∈ data.validator_rewards →
        (r.duplicates e = true ↔ e = r) := by
    intro r hr e he
    apply duplicates_iff hlater h h' hapart (hdata.rewards_standing r hr)
    rcases he with he | he
    · exact Or.inl (hholds.validator_rewards.subset he)
    · exact Or.inr (hdata.rewards_standing e he)
  obtain ⟨hinserted, hmem⟩ := insertNew_spec hnodup hkeys
  have hlog : ∀ d, d ∈ (replica.insertRows data).anchor_reward_reconcile_log →
      d ∈ S'.anchor_reward_reconcile_log := by
    intro d hd
    obtain ⟨new, hnew, _⟩ := hlater.log
    rcases List.mem_append.mp hd with hd | hd
    · rw [hnew]
      exact List.mem_append_left _ (hholds.anchor_reward_reconcile_log.subset hd)
    · rw [hdata.log] at hd
      exact List.mem_of_mem_filter hd
  apply (List.perm_ext_iff_of_nodup (hinserted.filter _) (rows_nodup h')).mpr
  intro r
  rw [List.mem_filter, hmem, Bool.not_eq_true', List.any_eq_false]
  constructor
  · rintro ⟨hr | hr, hnone⟩
    · obtain ⟨e, he, rfl⟩ := List.mem_map.mp (hholds.validator_rewards.subset hr)
      rcases hlater.rewards_kept e he with hstands | ⟨d, hd, htip, hidentity⟩
      · exact List.mem_map_of_mem hstands
      · refine absurd ?_ (hnone d ?_)
        · rw [(hscope d hd).mpr htip, hidentity, decide_eq_true rfl]
          rfl
        · apply List.mem_append_right
          rw [hdata.log]
          exact List.mem_filter.mpr ⟨hd, decide_eq_true htip⟩
    · exact hdata.rewards_standing r hr
  · intro hr
    obtain ⟨e, he, rfl⟩ := List.mem_map.mp hr
    constructor
    · rcases hlater.rewards_new e he with hold | ⟨hwritten, _⟩
      · exact Or.inl (hholds.validator_rewards.symm.subset (List.mem_map_of_mem hold))
      · exact Or.inr (hdata.rewards_written e he hwritten)
    · intro d hd hreconciled
      rw [Bool.and_eq_true, decide_eq_true_eq] at hreconciled
      exact hapart.reconciled_apart e he d (hlog d hd) hreconciled.2

/-- What a payload that delivers the window does to a replica with the rows before it. -/
theorem Holds.applyData (hholds : replica.Holds S) (hlater : Later S S') (h : S.Kept gas)
    (h' : S'.Kept gas) (hapart : S'.RewardsApart) (hdata : S'.Delivers (S.tip + 1) data)
    (hscope : ∀ d ∈ S'.anchor_reward_reconcile_log, scope d = true ↔ S.tip < d.block_index) :
    (replica.applyData scope data).Holds S' := by
  obtain ⟨new, hnew, hlt⟩ := hlater.log
  have hold : ∀ d ∈ replica.anchor_reward_reconcile_log, scope d = false := by
    intro d hd
    have hd := hholds.anchor_reward_reconcile_log.subset hd
    have hle := h.rewards.log_le d hd
    have hd' : d ∈ S'.anchor_reward_reconcile_log := hnew ▸ List.mem_append_left _ hd
    apply Bool.eq_false_iff.mpr
    intro htrue
    have := (hscope d hd').mp htrue
    omega
  rw [applyData_eq hold]
  constructor
  case credits => exact hlater.credits.rows_perm h.credits.written_le hholds.credits hdata.credits
  case debits => exact hlater.debits.rows_perm h.debits.written_le hholds.debits hdata.debits
  case escrows => exact hlater.escrows.rows_perm h.escrows.written_le hholds.escrows hdata.escrows
  case contract_emissions =>
    exact hlater.emissions.rows_perm h.emissions.written_le hholds.contract_emissions hdata.emissions
  case validator_rewards =>
    exact applyData_rewards hlater h.rewards h'.rewards hapart hdata hholds hscope
  case anchor_reward_reconcile_log =>
    have hsince : data.anchor_reward_reconcile_log = new := by
      rw [hdata.log, hnew, List.filter_append]
      have hnone : S.anchor_reward_reconcile_log.filter (S.tip + 1 ≤ ·.block_index) = [] := by
        apply List.filter_eq_nil_iff.mpr
        intro d hd hsince
        have := h.rewards.log_le d hd
        have := of_decide_eq_true hsince
        omega
      have hall : new.filter (S.tip + 1 ≤ ·.block_index) = new := by
        apply List.filter_eq_self.mpr
        intro d hd
        exact decide_eq_true (hlt d hd)
      rw [hnone, hall, List.nil_append]
    change (replica.anchor_reward_reconcile_log ++ data.anchor_reward_reconcile_log).Perm _
    rw [hsince, hnew]
    exact hholds.anchor_reward_reconcile_log.append_right _

/-! ### Whole histories -/

variable {b : Block} {blocks : List Block}

theorem Holds.applyBlock (hholds : replica.Holds S) (h : S.Kept gas) (hb : S.Admits gas b)
    (hapart : (S.step gas b).RewardsApart) :
    (replica.applyBlock (S.step gas b).tip
      ((S.step gas b).buildBlockPayload gas (S.step gas b).tip)).Holds (S.step gas b) := by
  have h' := h.step hb
  apply hholds.applyData ((Later.refl S).step hb) h h' hapart (h'.buildBlockPayload_delivers hapart)
  intro d hd
  have hle := h'.rewards.log_le d hd
  have htip : (S.step gas b).tip = S.tip + 1 := rfl
  rw [decide_eq_true_eq]
  omega

theorem Holds.follow (hholds : replica.Holds S) (h : S.Kept gas) (hadmits : AdmitsAll gas S blocks)
    (hapart : ApartThrough gas S blocks) :
    (replica.follow gas S blocks).Holds (S.run gas blocks) := by
  induction blocks generalizing S replica with
  | nil => exact hholds
  | cons b bs ih =>
    exact ih (hholds.applyBlock h hadmits.1 hapart.1) (h.step hadmits.1) hadmits.2 hapart.2

theorem apart_run (hne : blocks ≠ []) (hapart : ApartThrough gas S blocks) :
    (S.run gas blocks).RewardsApart := by
  induction blocks generalizing S with
  | nil => exact absurd rfl hne
  | cons b bs ih =>
    cases bs with
    | nil => exact hapart.1
    | cons b' bs => exact ih (List.cons_ne_nil _ _) hapart.2

theorem Holds.catchUp (hholds : replica.Holds S) (h : S.Kept gas) (hadmits : AdmitsAll gas S blocks)
    (hapart : ApartThrough gas S blocks) :
    (replica.catchUp gas (S.run gas blocks) (S.tip + 1)).Holds (S.run gas blocks) := by
  unfold Replica.catchUp
  split
  · rename_i hnone
    -- only an empty window has no data
    cases blocks with
    | nil => exact hholds
    | cons b bs =>
      have hlater : Later (S.step gas b) ((S.step gas b).run gas bs) :=
        (Later.refl _).run hadmits.2
      have htip : S.tip + 1 ≤ (S.run gas (b :: bs)).tip := hlater.tip_le
      rw [streamIncrementalSnapshot, if_neg (Nat.not_lt.mpr htip)] at hnone
      cases hnone
  · rename_i data hdata
    have h' := h.run hadmits
    have hne : blocks ≠ [] := by
      rintro rfl
      have htip : (S.run gas []).tip = S.tip := rfl
      rw [streamIncrementalSnapshot, htip, if_pos (Nat.lt_succ_self _)] at hdata
      cases hdata
    have hapart' := apart_run hne hapart
    apply hholds.applyData ((Later.refl S).run hadmits) h h' hapart'
      (h'.streamIncrementalSnapshot_delivers hapart' hdata)
    intro d _
    rw [decide_eq_true_eq]
    exact Iff.rfl

/-- From the rows at any height on, the block payloads one by one and the one snapshot since the next
block both give the source's rows, as long as the rewards stay apart. -/
theorem live_and_catch_up_converge (hreached : S.Reached gas) (hholds : replica.Holds S)
    (hadmits : AdmitsAll gas S blocks) (hapart : ApartThrough gas S blocks) :
    (replica.follow gas S blocks).Holds (S.run gas blocks) ∧
      (replica.catchUp gas (S.run gas blocks) (S.tip + 1)).Holds (S.run gas blocks) := by
  obtain ⟨start, before, hbefore, rfl⟩ := hreached
  have h := (kept_empty gas start).run hbefore
  exact ⟨hholds.follow h hadmits hapart, hholds.catchUp h hadmits hapart⟩

/-! ### A quiet block -/

/-- An unstake, an internal emission and a reward. -/
def unstakeBlock : Block where
  actions := [1]
  executions := [1]
  emissions := [⟨1, "SLASH", none, 0⟩]
  unstakes := [⟨.unstakes, 1, 7, 9, 2, false⟩]
  rewards := [⟨1, ⟨7, 1, "anchor", some 4, 0⟩, 5, 1, none⟩]

/-- The cooldown ends, a reward is derived and the other one reconciled, all without an action. -/
def quietBlock : Block where
  matured := [⟨⟨.unstakes, 1, 7, 9, 2, false⟩, some 100, some (-100)⟩]
  rewards := [⟨2, ⟨7, 1, "anchor", some 5, 0⟩, 5, 1, some 2⟩]
  reconciled := [1]

def afterUnstake : Replica where
  credits := []
  debits := []
  escrows := []
  contract_emissions := [⟨1, "SLASH", none, 0⟩]
  validator_rewards := [⟨1, ⟨7, 1, "anchor", some 4, 0⟩, 5, 1, none⟩]
  anchor_reward_reconcile_log := []

theorem quiet_block_converges :
    (afterUnstake.follow 9 ((Source.empty 0).step 9 unstakeBlock) [quietBlock]).Holds
        (((Source.empty 0).step 9 unstakeBlock).run 9 [quietBlock]) ∧
      (afterUnstake.catchUp 9 (((Source.empty 0).step 9 unstakeBlock).run 9 [quietBlock]) 2).Holds
        (((Source.empty 0).step 9 unstakeBlock).run 9 [quietBlock]) := by
  have hfirst : (Source.empty 0).Admits 9 unstakeBlock := by constructor <;> decide
  have hquiet : ((Source.empty 0).step 9 unstakeBlock).Admits 9 quietBlock := by
    constructor <;> decide
  have hapart : (((Source.empty 0).step 9 unstakeBlock).step 9 quietBlock).RewardsApart := by
    constructor <;> decide
  have hholds : afterUnstake.Holds ((Source.empty 0).step 9 unstakeBlock) := by
    constructor <;> decide
  exact live_and_catch_up_converge ⟨0, [unstakeBlock], ⟨hfirst, trivial⟩, rfl⟩ hholds
    ⟨hquiet, trivial⟩ ⟨hapart, trivial⟩

/-! ### Two rewards with one key -/

/-- Two rewards of one validator without a round, pending since blocks 1 and 2, are applied. -/
def redriveBlock : Block where
  pubkeys := [⟨1, "k"⟩]
  applied := [⟨7, "k", "recovery", none, 5, 1, 3⟩, ⟨7, "k", "recovery", none, 6, 2, 3⟩]
  rewards := [⟨1, ⟨7, 1, "recovery", none, 0⟩, 5, 1, none⟩, ⟨2, ⟨7, 1, "recovery", none, 0⟩, 6, 2, none⟩]

def noRows : Replica where
  credits := []
  debits := []
  escrows := []
  contract_emissions := []
  validator_rewards := []
  anchor_reward_reconcile_log := []

/-- The key reads both references as `null`, so either payload has the second reward alone. -/
theorem redriven_rewards_without_round_collapse :
    ((Source.empty 0).run 9 [{}, {}]).Reached 9 ∧ noRows.Holds ((Source.empty 0).run 9 [{}, {}]) ∧
      AdmitsAll 9 ((Source.empty 0).run 9 [{}, {}]) [redriveBlock] ∧
        ¬ (noRows.follow 9 ((Source.empty 0).run 9 [{}, {}]) [redriveBlock]).Holds
            (((Source.empty 0).run 9 [{}, {}]).run 9 [redriveBlock]) ∧
          ¬ (noRows.catchUp 9 (((Source.empty 0).run 9 [{}, {}]).run 9 [redriveBlock]) 3).Holds
              (((Source.empty 0).run 9 [{}, {}]).run 9 [redriveBlock]) := by
  have hempty : (Source.empty 0).Admits 9 {} := by constructor <;> decide
  have hnext : ((Source.empty 0).step 9 {}).Admits 9 {} := by constructor <;> decide
  have hredrive : ((Source.empty 0).run 9 [{}, {}]).Admits 9 redriveBlock := by
    constructor <;> decide
  have hholds : noRows.Holds ((Source.empty 0).run 9 [{}, {}]) := by constructor <;> decide
  refine ⟨⟨0, [{}, {}], ⟨hempty, hnext, trivial⟩, rfl⟩, hholds, ⟨hredrive, trivial⟩, ?_, ?_⟩
  · intro h
    exact absurd h.validator_rewards (by decide)
  · intro h
    exact absurd h.validator_rewards (by decide)

end Replica

end XChainSync.Delivery
