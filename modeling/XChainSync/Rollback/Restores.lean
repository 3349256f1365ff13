import XChainSync.Rollback.Database

/-!
# A rollback gives the tables their state before the block

Every write of a block at or above the rollback block leaves the outcome of the rollback unchanged,
so the outcome after the whole history is the outcome right before that block, and there the rollback
finds nothing to undo.
-/

namespace XChainSync.Rollback
set_option autoImplicit false

variable {A : Type} {p : Params A} {h b : Int}

/-! ### Actions and blocks divide rows alike -/

theorem block_le_of_sorted {actions : List (Int × Int)}
    (hsorted : actions.Pairwise fun x y => x.1 < y.1 ∧ x.2 ≤ y.2) {x y : Int × Int}
    (hx : x ∈ actions) (hy : y ∈ actions) (hle : x.1 ≤ y.1) : x.2 ≤ y.2 := by
  have hforward : actions.Pairwise fun x y => x.1 ≤ y.1 → x.2 ≤ y.2 :=
    hsorted.imp fun hxy _ => hxy.2
  have hback : actions.Pairwise (flip fun x y => x.1 ≤ y.1 → x.2 ≤ y.2) := by
    refine hsorted.imp ?_
    intro x y hxy hle
    omega
  exact hforward.forall_of_forall_of_flip (fun x _ _ => Int.le_refl x.2) hback hx hy hle

theorem splitsAt_first {actions : List (Int × Int)}
    (hsorted : actions.Pairwise fun x y => x.1 < y.1 ∧ x.2 ≤ y.2) :
    Rail.SplitsAt actions (getFirstActionIndex b actions) b := by
  intro a k hk
  cases hfirst : getFirstActionIndex b actions with
  | none =>
    have hempty : actions.filter (b ≤ ·.2) = [] := by
      simpa [getFirstActionIndex, List.min?_eq_none_iff] using hfirst
    have hnot := List.filter_eq_nil_iff.mp hempty (a, k) hk
    simp only [decide_eq_true_eq] at hnot
    simp only [survives, Option.all_none, true_iff]
    omega
  | some m =>
    obtain ⟨hmem, hmin⟩ := List.min?_eq_some_iff.mp hfirst
    obtain ⟨⟨m', km⟩, hm, rfl⟩ := List.mem_map.mp hmem
    simp only [List.mem_filter, decide_eq_true_eq] at hm
    simp only [survives, Option.all_some, decide_eq_true_eq]
    constructor
    · intro hlt
      by_contra hge
      have := hmin a (List.mem_map.mpr ⟨(a, k), by simpa [hk] using hge, rfl⟩)
      omega
    · intro hlt
      by_contra hge
      have := block_le_of_sorted hsorted hm.1 hk (by simpa using hge)
      simp only at this
      omega

theorem filter_survives_congr {R : Type} {rows : List R} {key : R → Int}
    {actions : List (Int × Int)} {first first' : Option Int}
    (hknown : ∀ r ∈ rows, ∃ k, (key r, k) ∈ actions) (hsplit : Rail.SplitsAt actions first b)
    (hsplit' : Rail.SplitsAt actions first' b) :
    rows.filter (survives first <| key ·) = rows.filter (survives first' <| key ·) := by
  refine List.filter_congr fun r hr => ?_
  obtain ⟨k, hk⟩ := hknown r hr
  rw [Bool.eq_iff_iff, hsplit _ k hk, hsplit' _ k hk]

theorem Rail.WF.rollback_congr {kind : RailKind} {actions : List (Int × Int)} {rail : Rail A}
    {first first' : Option Int} (hwf : rail.WF p kind actions h)
    (hsplit : SplitsAt actions first b) (hsplit' : SplitsAt actions first' b) :
    rail.rollback p first b kind = rail.rollback p first' b kind := by
  have hstakes : (rail.stakes.map (rail.undoStake p kind b)).filter (survives first ·.action_index) =
      (rail.stakes.map (rail.undoStake p kind b)).filter (survives first' ·.action_index) := by
    refine filter_survives_congr (fun s' hs' => ?_) hsplit hsplit'
    obtain ⟨s, hs, rfl⟩ := List.mem_map.mp hs'
    exact hwf.shape.stake_known s hs
  have hunstakes : (rail.unstakes.map (rail.undoUnstake p kind b)).filter
      (survives first ·.action_index) =
        (rail.unstakes.map (rail.undoUnstake p kind b)).filter (survives first' ·.action_index) := by
    refine filter_survives_congr (fun u' hu' => ?_) hsplit hsplit'
    obtain ⟨u, hu, rfl⟩ := List.mem_map.mp hu'
    exact ⟨u.block_index, hwf.shape.unstake_known u hu⟩
  rw [rollback_eq hwf.shape hwf.journaled, rollback_eq hwf.shape hwf.journaled, hstakes, hunstakes]

/-! ### Unstakes across a write on their rail -/

structure Unstake.Kept (u u' : Unstake A) : Prop where
  action_index : u'.action_index = u.action_index
  source_id : u'.source_id = u.source_id
  tick_id : u'.tick_id = u.tick_id
  block_index : u'.block_index = u.block_index
  cooldown_end_block : u'.cooldown_end_block = u.cooldown_end_block
  status : u.status = .completed → u'.status = .completed

def Rail.Keeps (rail rail' : Rail A) (op : RailOp A) : Prop :=
  (∀ u ∈ rail.unstakes, ∃ u' ∈ rail'.unstakes, u.Kept u') ∧
    ∀ u' ∈ rail'.unstakes, (∃ u ∈ rail.unstakes, u.Kept u') ∨ ∃ stamped, op = .unstake u' stamped

theorem Rail.keeps_map {rail rail' : Rail A} {op : RailOp A} {f : Unstake A → Unstake A}
    (hunstakes : rail'.unstakes = rail.unstakes.map f) (hf : ∀ u : Unstake A, u.Kept (f u)) :
    rail.Keeps rail' op := by
  constructor
  · intro u hu
    exact ⟨f u, hunstakes ▸ List.mem_map_of_mem hu, hf u⟩
  · intro u' hu'
    rw [hunstakes] at hu'
    obtain ⟨u, hu, rfl⟩ := List.mem_map.mp hu'
    exact Or.inl ⟨u, hu, hf u⟩

theorem Rail.keeps_modified {rail rail' : Rail A} {op : RailOp A} {target : TargetTable} {key : Int}
    {f : Bond A → Bond A} (hm : Modified target key f rail rail')
    (hf : ∀ r, Bond.Same .contract r (f r)) : rail.Keeps rail' op := by
  refine keeps_map hm.unstakes fun u => ?_
  have hsame : Bond.Same .contract u.toBond (modified target key f .unstakes u.toBond) :=
    modified_same hf .unstakes u.toBond
  exact ⟨hsame.action_index, hsame.source_id, hsame.tick_id, rfl, rfl, fun hc => hc⟩

theorem Rail.apply_keeps {kind : RailKind} {actions : List (Int × Int)} {rail rail' : Rail A}
    {op : RailOp A} (happly : rail.apply p kind actions h op = some rail') : rail.Keeps rail' op := by
  have hrefl : ∀ u : Unstake A, u.Kept u := fun u => ⟨rfl, rfl, rfl, rfl, rfl, fun hc => hc⟩
  cases op with
  | stake s =>
    simp only [Rail.apply] at happly
    split at happly
    · obtain rfl := Option.some.inj happly
      exact keeps_map (List.map_id _).symm hrefl
    · simp at happly
  | slash target key amount place =>
    obtain ⟨r, -, -, -, hm, -⟩ := slash_cases happly
    exact keeps_modified hm fun _ => ⟨rfl, rfl, rfl, rfl, fun _ => rfl⟩
  | rotate target key delegation signing =>
    obtain ⟨r, -, -, -, -, hm, -⟩ := rotate_cases happly
    exact keeps_modified hm fun _ => ⟨rfl, rfl, rfl, rfl, by simp⟩
  | unstake u stamped =>
    obtain ⟨-, -, -, -, -, rfl⟩ := unstake_cases happly
    constructor
    · intro u' hu'
      exact ⟨u', List.mem_append_left _ hu', hrefl u'⟩
    · intro u' hu'
      rcases List.mem_append.mp hu' with hu' | hu'
      · exact Or.inl ⟨u', hu', hrefl u'⟩
      · rw [List.mem_singleton.mp hu']
        exact Or.inr ⟨stamped, rfl⟩
  | complete key =>
    obtain ⟨-, rfl⟩ := complete_cases happly
    refine keeps_map rfl fun u => ?_
    split
    · exact ⟨rfl, rfl, rfl, rfl, rfl, fun _ => rfl⟩
    · exact hrefl u

theorem Unstake.Kept.pays {u u' : Unstake A} (hk : u.Kept u') (kind : RailKind) (c : Credit A) :
    kind.pays p u' c = kind.pays p u c := by
  have htick : kind.refundTick p u' = kind.refundTick p u := by
    cases kind with
    | capability => rfl
    | contract => exact hk.tick_id
  simp only [RailKind.pays, hk.action_index, hk.source_id, htick]

/-! ### The invariant of the tables -/

namespace Tables
variable {t t' : Tables A}

structure WF (p : Params A) (h : Int) (t : Tables A) : Prop where
  actions_sorted : t.actions.Pairwise fun x y => x.1 < y.1 ∧ x.2 ≤ y.2
  actions_by : ∀ a k, (a, k) ∈ t.actions → k ≤ h
  rows_sound : ∀ i, ∀ r ∈ t.rows i, (i.inPlace p.activationDelay).Sound h r
  rows_known : ∀ i, ∀ r ∈ t.rows i, ∃ k, ((i.inPlace p.activationDelay).key r, k) ∈ t.actions
  rails : ∀ kind, (t.rails kind).WF p kind t.actions h
  apart : ∀ kind kind', kind ≠ kind' → ∀ u ∈ (t.rails kind).unstakes,
    ∀ u' ∈ (t.rails kind').unstakes, u.action_index ≠ u'.action_index
  credits_known : ∀ c ∈ t.credits, ∃ k, (c.action_index, k) ∈ t.actions
  credits_refund : ∀ c ∈ t.credits, ∀ kind, ∀ u ∈ (t.rails kind).unstakes,
    kind.pays p u c = true → u.status = .completed

theorem WF.later (hwf : t.WF p h) {h' : Int} (hle : h ≤ h') : t.WF p h' :=
  { hwf with
    actions_by := fun a k hk => Int.le_trans (hwf.actions_by a k hk) hle
    rows_sound := fun i r hr => (i.inPlace p.activationDelay).sound_mono h h' r
      (hwf.rows_sound i r hr) hle
    rails := fun kind => ⟨(hwf.rails kind).shape.later hle, (hwf.rails kind).journaled.later hle⟩ }

theorem wf_empty : (empty : Tables A).WF p h where
  actions_sorted := List.Pairwise.nil
  actions_by _ _ hk := by simp [empty] at hk
  rows_sound _ _ hr := by simp [empty] at hr
  rows_known _ _ hr := by simp [empty] at hr
  rails kind :=
    { shape :=
        { keys := fun target => by cases target <;> simp [empty, Rail.bonds]
          stake_known := by simp [empty]
          unstake_known := by simp [empty]
          stamped := by simp [empty]
          stamped_by := by simp [empty]
          completed_by := by simp [empty] }
      journaled :=
        { debits_ordered := ⟨by simp [empty], List.Pairwise.nil⟩
          debits_by := by simp [empty]
          debits_row := by simp [empty]
          debits_cut := by simp [empty]
          rotations_ordered := ⟨by simp [empty], List.Pairwise.nil⟩
          rotations_by := by simp [empty]
          rotations_contract := fun _ => rfl } }
  apart _ _ _ _ hu := by simp [empty] at hu
  credits_known _ hc := by simp [empty] at hc
  credits_refund _ hc := by simp [empty] at hc

theorem WF.splitsAt (hwf : t.WF p h) (b : Int) :
    Rail.SplitsAt t.actions (getFirstActionIndex b t.actions) b :=
  splitsAt_first hwf.actions_sorted

/-! ### The rollback, table by table -/

theorem refunded_restoreRails (kind : RailKind) (b : Int) (t : Tables A) (c : Credit A) :
    ((t.resetFlips p b).restoreRails p b).refunded p kind b c = t.refunded p kind b c := by
  cases kind <;>
    simp only [refunded, restoreRails, resetFlips, Rail.restore, Rail.restoreSlashAmounts,
      Rail.restoreRotatedKeys, Rail.resetDeactivations, Rail.mapBonds, List.any_map] <;>
    rfl

/-- The credits a rollback leaves. -/
def keepsCredit (p : Params A) (b : Int) (t : Tables A) (c : Credit A) : Bool :=
  survives (getFirstActionIndex b t.actions) c.action_index &&
    (!t.refunded p .contract b c && !t.refunded p .capability b c)

theorem credits_rollbackIndexer (b : Int) (t : Tables A) :
    (t.rollbackIndexer p b).credits = t.credits.filter (t.keepsCredit p b) := by
  have hcapability : ∀ c, ((t.resetFlips p b).restoreRails p b).refunded p .capability b c =
      t.refunded p .capability b c := refunded_restoreRails .capability b t
  have hcontract : ∀ c, (((t.resetFlips p b).restoreRails p b).deleteMaturityCredits p .capability
      b).refunded p .contract b c = t.refunded p .contract b c := refunded_restoreRails .contract b t
  simp only [rollbackIndexer, deleteOrphaned, reverseCooldownMaturities]
  rw [deleteMaturityCredits]
  simp only [hcontract]
  rw [deleteMaturityCredits]
  simp only [hcapability, List.filter_filter]
  rfl

theorem rails_rollbackIndexer (b : Int) (t : Tables A) (kind : RailKind) :
    (t.rollbackIndexer p b).rails kind =
      (t.rails kind).rollback p (getFirstActionIndex b t.actions) b kind := rfl

theorem rows_rollbackIndexer (b : Int) (t : Tables A) (i : FlipTable) :
    (t.rollbackIndexer p b).rows i =
      ((t.rows i).map ((i.inPlace p.activationDelay).undo b)).filter
        (survives (getFirstActionIndex b t.actions) <| (i.inPlace p.activationDelay).key ·) := rfl

theorem actions_rollbackIndexer (b : Int) (t : Tables A) :
    (t.rollbackIndexer p b).actions =
      t.actions.filter (survives (getFirstActionIndex b t.actions) ·.1) := rfl

/-! ### One write at or above the rollback block -/

/-- A write keeps the invariant, and every rollback to its block or below takes it back. -/
structure Undone (p : Params A) (h : Int) (t t' : Tables A) : Prop where
  wf : t'.WF p h
  rollback : ∀ b ≤ h, t'.rollbackIndexer p b = t.rollbackIndexer p b

theorem undone_action (hwf : t.WF p h) {a : Int} (hnew : ∀ x ∈ t.actions, x.1 < a) :
    Undone p h t { t with actions := t.actions ++ [(a, h)] } := by
  have hwf' : WF p h { t with actions := t.actions ++ [(a, h)] } :=
    { actions_sorted := by
        refine List.pairwise_append.mpr ⟨hwf.actions_sorted, List.pairwise_singleton _ _, ?_⟩
        intro x hx y hy
        rw [List.mem_singleton.mp hy]
        exact ⟨hnew x hx, hwf.actions_by x.1 x.2 hx⟩
      actions_by := by
        intro a' k hk
        rcases List.mem_append.mp hk with hk | hk
        · exact hwf.actions_by a' k hk
        · simp only [List.mem_singleton, Prod.mk.injEq] at hk
          omega
      rows_sound := hwf.rows_sound
      rows_known := fun i r hr => (hwf.rows_known i r hr).imp fun k hk => List.mem_append_left _ hk
      rails := fun kind => ⟨(hwf.rails kind).shape.known a h, (hwf.rails kind).journaled⟩
      apart := hwf.apart
      credits_known := fun c hc => (hwf.credits_known c hc).imp fun k hk => List.mem_append_left _ hk
      credits_refund := hwf.credits_refund }
  refine ⟨hwf', fun b hb => ?_⟩
  -- both first indexes divide the actions known before at the rollback block
  have hsplit := hwf.splitsAt b
  have hsplit' : Rail.SplitsAt t.actions (getFirstActionIndex b (t.actions ++ [(a, h)])) b :=
    fun a' k hk => hwf'.splitsAt b a' k (List.mem_append_left _ hk)
  have hdropped : survives (getFirstActionIndex b (t.actions ++ [(a, h)])) a = false :=
    (hwf'.splitsAt b).dropped (List.mem_append_right _ (List.mem_singleton.mpr rfl)) hb
  ext1
  · rw [actions_rollbackIndexer, actions_rollbackIndexer, Rail.filter_concat_dropped hdropped]
    exact filter_survives_congr (fun x hx => ⟨x.2, hx⟩) hsplit' hsplit
  · funext i
    rw [rows_rollbackIndexer, rows_rollbackIndexer]
    refine filter_survives_congr (fun r' hr' => ?_) hsplit' hsplit
    obtain ⟨r, hr, rfl⟩ := List.mem_map.mp hr'
    rw [InPlace.undo_key]
    exact hwf.rows_known i r hr
  · funext kind
    exact (hwf.rails kind).rollback_congr hsplit' hsplit
  · rw [credits_rollbackIndexer, credits_rollbackIndexer]
    refine List.filter_congr fun c hc => ?_
    obtain ⟨k, hk⟩ := hwf.credits_known c hc
    have hsame : survives (getFirstActionIndex b (t.actions ++ [(a, h)])) c.action_index =
        survives (getFirstActionIndex b t.actions) c.action_index := by
      rw [Bool.eq_iff_iff, hsplit _ k hk, hsplit' _ k hk]
    simp only [keepsCredit, hsame]
    rfl

/-- Writes on the rows of one flip table. -/
theorem undone_rows (hwf : t.WF p h) {i : FlipTable} {rows : List i.Row}
    (hsound : ∀ r ∈ rows, (i.inPlace p.activationDelay).Sound h r)
    (hknown : ∀ r ∈ rows, ∃ k, ((i.inPlace p.activationDelay).key r, k) ∈ t.actions)
    (hundone : ∀ b ≤ h, (rows.map ((i.inPlace p.activationDelay).undo b)).filter
        (survives (getFirstActionIndex b t.actions) <| (i.inPlace p.activationDelay).key ·) =
      ((t.rows i).map ((i.inPlace p.activationDelay).undo b)).filter
        (survives (getFirstActionIndex b t.actions) <| (i.inPlace p.activationDelay).key ·)) :
    Undone p h t { t with rows := Function.update t.rows i rows } := by
  refine ⟨{ hwf with rows_sound := ?_, rows_known := ?_ }, fun b hb => ?_⟩
  · intro i'
    by_cases hi : i' = i
    · subst hi
      simpa using hsound
    · simpa [Function.update_of_ne hi] using hwf.rows_sound i'
  · intro i'
    by_cases hi : i' = i
    · subst hi
      simpa using hknown
    · simpa [Function.update_of_ne hi] using hwf.rows_known i'
  · ext1
    · rfl
    · funext i'
      rw [rows_rollbackIndexer, rows_rollbackIndexer]
      by_cases hi : i' = i
      · subst hi
        simpa using hundone b hb
      · simp [Function.update_of_ne hi]
    · rfl
    · rw [credits_rollbackIndexer, credits_rollbackIndexer]
      rfl

theorem newRow_sound (h : Int) (i : FlipTable) (a : Int) :
    (i.inPlace p.activationDelay).key (i.newRow a) = a ∧
      (i.inPlace p.activationDelay).Sound h (i.newRow a) := by
  cases i <;> refine ⟨rfl, ?_⟩ <;>
    simp [FlipTable.inPlace, FlipTable.newRow, attests, xcalls, polls, betFeeds, bets, delegations,
      stampedBy]

theorem undone_create (hwf : t.WF p h) (i : FlipTable) {a : Int} (ha : (a, h) ∈ t.actions) :
    Undone p h t { t with rows := Function.update t.rows i (t.rows i ++ [i.newRow a]) } := by
  obtain ⟨hkey, hnew⟩ := newRow_sound (p := p) h i a
  apply undone_rows hwf
  · intro r hr
    rcases List.mem_append.mp hr with hr | hr
    · exact hwf.rows_sound i r hr
    · rw [List.mem_singleton.mp hr]
      exact hnew
  · intro r hr
    rcases List.mem_append.mp hr with hr | hr
    · exact hwf.rows_known i r hr
    · rw [List.mem_singleton.mp hr, hkey]
      exact ⟨h, ha⟩
  · intro b hb
    rw [List.map_append, List.map_singleton]
    apply Rail.filter_concat_dropped
    rw [InPlace.undo_key, hkey]
    exact (hwf.splitsAt b).dropped ha hb

theorem run_isFlip (delay : Int) {i : FlipTable} (f : Flip i) :
    (i.inPlace delay).IsFlip (f.run delay) := by
  cases f with
  | attest status => exact attests_resolve status
  | xcall result => exact xcalls_resolve result
  | finalize status summary due execute => exact polls_finalize status summary due execute
  | fire execute => exact polls_fire execute
  | latch => exact betFeeds_latch
  | terminate name => exact betFeeds_terminate name
  | settle status => exact bets_settle status
  | revoke => exact delegations_deactivate delay
  | revokeContract => exact delegations_deactivate delay

theorem undone_flip (hwf : t.WF p h) {i : FlipTable} (key : Int) (f : Flip i) :
    Undone p h t { t with rows := Function.update t.rows i (flipRows p h key f (t.rows i)) } := by
  have hrow : ∀ r ∈ t.rows i, ∀ r',
      r' = (if (i.inPlace p.activationDelay).key r = key then
        (f.run p.activationDelay h r).getD r else r) →
      (i.inPlace p.activationDelay).key r' = (i.inPlace p.activationDelay).key r ∧
        (i.inPlace p.activationDelay).Sound h r' ∧
        ∀ b ≤ h, (i.inPlace p.activationDelay).undo b r' = (i.inPlace p.activationDelay).undo b r := by
    rintro r hr r' rfl
    have hsound := hwf.rows_sound i r hr
    split
    · cases hrun : f.run p.activationDelay h r with
      | none => exact ⟨rfl, hsound, fun _ _ => rfl⟩
      | some r' => exact run_isFlip p.activationDelay f h r r' hsound hrun
    · exact ⟨rfl, hsound, fun _ _ => rfl⟩
  apply undone_rows hwf
  · intro r' hr'
    obtain ⟨r, hr, hto⟩ := List.mem_map.mp hr'
    exact (hrow r hr r' hto.symm).2.1
  · intro r' hr'
    obtain ⟨r, hr, hto⟩ := List.mem_map.mp hr'
    rw [(hrow r hr r' hto.symm).1]
    exact hwf.rows_known i r hr
  · intro b hb
    congr 1
    rw [flipRows, List.map_map]
    apply List.map_congr_left
    intro r hr
    exact (hrow r hr _ rfl).2.2 b hb

@[simp] theorem rails_setRail (t : Tables A) (kind k : RailKind) (rail : Rail A) :
    (t.setRail kind rail).rails k = if k = kind then rail else t.rails k := rfl

@[simp] theorem actions_setRail (t : Tables A) (kind : RailKind) (rail : Rail A) :
    (t.setRail kind rail).actions = t.actions := rfl

theorem applyRail_cases {kind : RailKind} {op : RailOp A}
    (happly : t.applyRail p h kind op = some t') :
    t.admits p kind op = true ∧
      ∃ rail', (t.rails kind).apply p kind t.actions h op = some rail' ∧ t' = t.setRail kind rail' := by
  unfold applyRail at happly
  split at happly
  · rename_i hadmits
    obtain ⟨rail', hrail, rfl⟩ := Option.map_eq_some_iff.mp happly
    exact ⟨hadmits, rail', hrail, rfl⟩
  · simp at happly

theorem not_paid_of_admits {kind : RailKind} {u : Unstake A} {stamped : List Int}
    (hadmits : t.admits p kind (.unstake u stamped) = true) :
    (∀ c ∈ t.credits, kind.pays p u c = false) ∧
      ∀ k, ∀ u' ∈ (t.rails k).unstakes, u'.action_index ≠ u.action_index := by
  simp only [admits, paidFor, Bool.and_eq_true, Bool.not_eq_true', List.any_eq_false,
    Bool.not_eq_true, List.all_eq_true] at hadmits
  refine ⟨hadmits.1, fun k u' hu' heq => ?_⟩
  have hnone := hadmits.2 k (by cases k <;> simp)
  exact Rail.not_mem_keys hnone (List.mem_map.mpr ⟨u'.toBond, List.mem_map_of_mem hu', heq⟩)

/-- Which credits a rollback deletes is settled before their unstake completes or comes to be. -/
theorem refunded_setRail (hwf : t.WF p h) {kind : RailKind} {op : RailOp A} {rail' : Rail A}
    (hadmits : t.admits p kind op = true)
    (hrail : (t.rails kind).apply p kind t.actions h op = some rail') (k : RailKind) {c : Credit A}
    (hc : c ∈ t.credits) : (t.setRail kind rail').refunded p k b c = t.refunded p k b c := by
  by_cases hk : k = kind
  · subst hk
    obtain ⟨hforward, hback⟩ := Rail.apply_keeps hrail
    simp only [refunded, rails_setRail, if_true]
    rw [Bool.eq_iff_iff]
    simp only [List.any_eq_true, Bool.and_eq_true]
    constructor
    · rintro ⟨u', hu', hpays, hmaturity⟩
      rcases hback u' hu' with ⟨u, hu, hkept⟩ | ⟨stamped, rfl⟩
      · rw [hkept.pays] at hpays
        have hcompleted := hwf.credits_refund c hc k u hu hpays
        refine ⟨u, hu, hpays, ?_⟩
        simpa [Rail.orphanedMaturity, hcompleted, hkept.status hcompleted, hkept.block_index,
          hkept.cooldown_end_block] using hmaturity
      · simp [(not_paid_of_admits hadmits).1 c hc] at hpays
    · rintro ⟨u, hu, hpays, hmaturity⟩
      obtain ⟨u', hu', hkept⟩ := hforward u hu
      have hcompleted := hwf.credits_refund c hc k u hu hpays
      refine ⟨u', hu', by rw [hkept.pays, hpays], ?_⟩
      simpa [Rail.orphanedMaturity, hcompleted, hkept.status hcompleted, hkept.block_index,
        hkept.cooldown_end_block] using hmaturity
  · simp [refunded, hk]

theorem mem_setRail {kind : RailKind} {op : RailOp A} {rail' : Rail A}
    (hrail : (t.rails kind).apply p kind t.actions h op = some rail') {k : RailKind} {u : Unstake A}
    (hu : u ∈ ((t.setRail kind rail').rails k).unstakes) :
    (∃ u₀ ∈ (t.rails k).unstakes, u₀.Kept u) ∨ (k = kind ∧ ∃ stamped, op = .unstake u stamped) := by
  by_cases hk : k = kind
  · subst hk
    simp only [rails_setRail, if_true] at hu
    exact ((Rail.apply_keeps hrail).2 u hu).imp id fun hnew => ⟨rfl, hnew⟩
  · simp only [rails_setRail, hk, if_false] at hu
    exact Or.inl ⟨u, hu, rfl, rfl, rfl, rfl, rfl, fun hc => hc⟩

theorem wf_setRail (hwf : t.WF p h) {kind : RailKind} {op : RailOp A} {rail' : Rail A}
    (hadmits : t.admits p kind op = true)
    (hrail : (t.rails kind).apply p kind t.actions h op = some rail') :
    (t.setRail kind rail').WF p h := by
  refine { hwf with rails := ?_, apart := ?_, credits_refund := ?_ }
  · intro k
    by_cases hk : k = kind
    · subst hk
      have happly : rail'.WF p k t.actions h ∧ ∀ b ≤ h, Rail.SplitsAt t.actions none b →
          rail'.rollback p none b k = (t.rails k).rollback p none b k :=
        Rail.wf_apply (hwf.rails k) hrail
      simpa using happly.1
    · simpa [hk] using hwf.rails k
  · intro k k' hne u hu u' hu'
    rcases mem_setRail hrail hu with ⟨u₀, hu₀, hkept⟩ | ⟨rfl, stamped, rfl⟩
    · rcases mem_setRail hrail hu' with ⟨u₀', hu₀', hkept'⟩ | ⟨rfl, stamped, rfl⟩
      · rw [hkept.action_index, hkept'.action_index]
        exact hwf.apart k k' hne u₀ hu₀ u₀' hu₀'
      · rw [hkept.action_index]
        exact (not_paid_of_admits hadmits).2 k u₀ hu₀
    · rcases mem_setRail hrail hu' with ⟨u₀', hu₀', hkept'⟩ | ⟨rfl, -⟩
      · rw [hkept'.action_index]
        exact ((not_paid_of_admits hadmits).2 k' u₀' hu₀').symm
      · exact absurd rfl hne
  · intro c hc k u hu hpays
    rcases mem_setRail hrail hu with ⟨u₀, hu₀, hkept⟩ | ⟨rfl, stamped, rfl⟩
    · rw [hkept.pays] at hpays
      exact hkept.status (hwf.credits_refund c hc k u₀ hu₀ hpays)
    · simp [(not_paid_of_admits hadmits).1 c hc] at hpays

theorem undone_rail (hwf : t.WF p h) {kind : RailKind} {op : RailOp A}
    (happly : t.applyRail p h kind op = some t') : Undone p h t t' := by
  obtain ⟨hadmits, rail', hrail, rfl⟩ := applyRail_cases happly
  refine ⟨wf_setRail hwf hadmits hrail, fun b hb => ?_⟩
  ext1
  · rfl
  · rfl
  · funext k
    rw [rails_rollbackIndexer, rails_rollbackIndexer, actions_setRail, rails_setRail]
    split
    · rename_i hk
      subst hk
      exact (Rail.wf_apply (hwf.rails k) hrail).2 b hb (hwf.splitsAt b)
    · rfl
  · rw [credits_rollbackIndexer, credits_rollbackIndexer]
    refine List.filter_congr fun c hc => ?_
    simp only [keepsCredit, refunded_setRail hwf hadmits hrail _ hc]
    rfl

/-- A credit that a rollback to its block or below deletes. -/
theorem undone_credit (hwf : t.WF p h) {c : Credit A} (hknown : ∃ k, (c.action_index, k) ∈ t.actions)
    (hrefund : ∀ kind, ∀ u ∈ (t.rails kind).unstakes, kind.pays p u c = true → u.status = .completed)
    (hgone : ∀ b ≤ h, t.keepsCredit p b c = false) :
    Undone p h t { t with credits := t.credits ++ [c] } := by
  refine ⟨{ hwf with credits_known := ?_, credits_refund := ?_ }, fun b hb => ?_⟩
  · intro c' hc'
    rcases List.mem_append.mp hc' with hc' | hc'
    · exact hwf.credits_known c' hc'
    · rw [List.mem_singleton.mp hc']
      exact hknown
  · intro c' hc'
    rcases List.mem_append.mp hc' with hc' | hc'
    · exact hwf.credits_refund c' hc'
    · rw [List.mem_singleton.mp hc']
      exact hrefund
  · ext1
    · rfl
    · rfl
    · rfl
    · rw [credits_rollbackIndexer, credits_rollbackIndexer, List.filter_append, List.filter_singleton]
      have hgone' : keepsCredit p b { t with credits := t.credits ++ [c] } c = false := hgone b hb
      rw [hgone']
      exact List.append_nil _

theorem Undone.trans {t₁ t₂ t₃ : Tables A} (h₁ : Undone p h t₁ t₂) (h₂ : Undone p h t₂ t₃) :
    Undone p h t₁ t₃ :=
  ⟨h₂.wf, fun b hb => (h₂.rollback b hb).trans (h₁.rollback b hb)⟩

theorem undone_mature (hwf : t.WF p h) {kind : RailKind} {key : Int} {refund : A}
    (happly : t.apply p h (.mature kind key refund) = some t') : Undone p h t t' := by
  obtain ⟨u, hfind, hmap⟩ := Option.bind_eq_some_iff.mp happly
  obtain ⟨t₁, hcomplete, rfl⟩ := Option.map_eq_some_iff.mp hmap
  have hundone := undone_rail hwf hcomplete
  refine hundone.trans ?_
  have hu : u ∈ (t.rails kind).unstakes := List.mem_of_find?_eq_some hfind
  have hkey : u.action_index = key := by simpa using List.find?_some hfind
  obtain ⟨-, rail', hrail, rfl⟩ := applyRail_cases hcomplete
  obtain ⟨⟨u', hu', hkey', hvalid, hend⟩, hrail'⟩ := Rail.complete_cases hrail
  obtain rfl := (hwf.rails kind).shape.unique_unstake hu' hu (hkey'.trans hkey.symm)
  have hmem : { u' with status := .completed } ∈
      ((t.setRail kind rail').rails kind).unstakes := by
    simp only [rails_setRail, if_true, hrail']
    exact List.mem_map.mpr ⟨u', hu, by simp [hkey]⟩
  have hpaid : kind.pays p { u' with status := .completed }
      ⟨key, u'.source_id, kind.refundTick p u', refund⟩ = true := by
    cases kind <;> simp [RailKind.pays, RailKind.refundTick, hkey]
  have hknown := (hwf.rails kind).shape.unstake_known u' hu
  apply undone_credit hundone.wf
  · exact ⟨u'.block_index, hkey ▸ hknown⟩
  · intro k u₁ hu₁ hpays
    have hsame : u₁.action_index = u'.action_index := by
      simp only [RailKind.pays, Bool.and_eq_true, decide_eq_true_eq] at hpays
      exact hpays.1.1.trans hkey.symm
    by_cases hk : k = kind
    · subst hk
      rw [(hundone.wf.rails k).shape.unique_unstake hu₁ hmem hsame]
    · exact (hundone.wf.apart k kind hk u₁ hu₁ _ hmem hsame).elim
  · intro b hb
    by_cases hbefore : u'.block_index < b
    · have hrefunded : (t.setRail kind rail').refunded p kind b
          ⟨key, u'.source_id, kind.refundTick p u', refund⟩ = true := by
        refine List.any_eq_true.mpr ⟨_, hmem, ?_⟩
        rw [hpaid]
        simp [Rail.orphanedMaturity, hend, hb, hbefore]
      cases kind <;> simp [keepsCredit, hrefunded]
    · have hdropped : survives (getFirstActionIndex b t.actions) key = false :=
        (hwf.splitsAt b).dropped (hkey ▸ hknown) (by omega)
      simp [keepsCredit, hdropped]

theorem undone_apply (hwf : t.WF p h) {op : Op A} (happly : t.apply p h op = some t') :
    Undone p h t t' := by
  cases op with
  | action a =>
    simp only [apply] at happly
    split at happly
    · rename_i hnew
      obtain rfl := Option.some.inj happly
      simp only [List.all_eq_true, decide_eq_true_eq] at hnew
      exact undone_action hwf hnew
    · simp at happly
  | create i a =>
    simp only [apply] at happly
    split at happly
    · rename_i ha
      obtain rfl := Option.some.inj happly
      exact undone_create hwf i ha
    · simp at happly
  | flip key f =>
    obtain rfl := Option.some.inj happly
    exact undone_flip hwf key f
  | rail kind op => exact undone_rail hwf happly
  | mature kind key refund => exact undone_mature hwf happly
  | credit c =>
    simp only [apply] at happly
    split at happly
    · rename_i hguard
      obtain ⟨hknown, hnone⟩ := hguard
      obtain rfl := Option.some.inj happly
      have hnot : ∀ k, ∀ u ∈ (t.rails k).unstakes, k.pays p u c = false := by
        intro k u hu
        simp only [List.all_eq_true, Bool.not_eq_true', List.any_eq_false, Bool.not_eq_true] at hnone
        exact hnone k (by cases k <;> simp) u hu
      apply undone_credit hwf ⟨h, hknown⟩
      · intro k u hu hpays
        simp [hnot k u hu] at hpays
      · intro b hb
        simp [keepsCredit, (hwf.splitsAt b).dropped hknown hb]
    · simp at happly

/-! ### Whole histories -/

theorem WF.rollback_settled (hwf : t.WF p h) (hb : h < b) : t.rollbackIndexer p b = t := by
  have hsplit := hwf.splitsAt b
  have hlive : ∀ a k, (a, k) ∈ t.actions → survives (getFirstActionIndex b t.actions) a = true := by
    intro a k hk
    have := hwf.actions_by a k hk
    exact (hsplit a k hk).mpr (by omega)
  have hrefunded : ∀ kind c, t.refunded p kind b c = false := by
    intro kind c
    refine List.any_eq_false.mpr fun u hu => ?_
    simp only [Bool.and_eq_true, Rail.orphanedMaturity, decide_eq_true_eq, not_and]
    intro _ hm
    have := (hwf.rails kind).shape.completed_by u hu hm.1
    omega
  ext1
  · exact List.filter_eq_self.mpr fun x hx => hlive x.1 x.2 hx
  · funext i
    rw [rows_rollbackIndexer]
    refine Rail.filter_map_settled (fun r hr => ?_) fun r hr => ?_
    · exact (i.inPlace p.activationDelay).undo_settled h b r (hwf.rows_sound i r hr) hb
    · obtain ⟨k, hk⟩ := hwf.rows_known i r hr
      exact hlive _ k hk
  · funext kind
    exact (hwf.rails kind).rollback_settled hb hsplit hwf.actions_by
  · rw [credits_rollbackIndexer]
    refine List.filter_eq_self.mpr fun c hc => ?_
    obtain ⟨k, hk⟩ := hwf.credits_known c hc
    simp [keepsCredit, hlive _ k hk, hrefunded]

theorem undone_applyBlock (hwf : t.WF p h) {ops : List (Op A)}
    (happly : t.applyBlock p h ops = some t') : Undone p h t t' := by
  induction ops generalizing t with
  | nil =>
    obtain rfl := Option.some.inj happly
    exact ⟨hwf, fun _ _ => rfl⟩
  | cons op ops ih =>
    simp only [applyBlock, List.foldlM_cons, Option.bind_eq_bind, Option.bind_eq_some_iff] at happly
    obtain ⟨t₁, hop, hrest⟩ := happly
    have hundone := undone_apply hwf hop
    exact hundone.trans (ih hundone.wf hrest)

/-- Blocks at and above the rollback block. -/
theorem rollback_applyBlocks {blocks : List (List (Op A))} (hwf : t.WF p (h - 1)) (hb : b ≤ h)
    (happly : applyBlocks p h blocks t = some t') :
    t'.rollbackIndexer p b = t.rollbackIndexer p b := by
  induction blocks generalizing h t with
  | nil =>
    obtain rfl := Option.some.inj happly
    rfl
  | cons ops blocks ih =>
    obtain ⟨t₁, hblock, hrest⟩ := Option.bind_eq_some_iff.mp happly
    have hundone := undone_applyBlock (hwf.later (by omega)) hblock
    rw [ih (h := h + 1) (by simpa using hundone.wf) (by omega) hrest]
    exact hundone.rollback b hb

/-- Blocks below it. -/
theorem wf_applyBlocks {blocks : List (List (Op A))} (hwf : t.WF p (h - 1))
    (happly : applyBlocks p h blocks t = some t') : t'.WF p (h - 1 + blocks.length) := by
  induction blocks generalizing h t with
  | nil =>
    obtain rfl := Option.some.inj happly
    simpa using hwf
  | cons ops blocks ih =>
    obtain ⟨t₁, hblock, hrest⟩ := Option.bind_eq_some_iff.mp happly
    have hundone := undone_applyBlock (hwf.later (by omega)) hblock
    have hwf' := ih (h := h + 1) (by simpa using hundone.wf) hrest
    have hheight : h + 1 - 1 + (blocks.length : Int) = h - 1 + ((ops :: blocks).length : Int) := by
      simp only [List.length_cons, Nat.cast_add, Nat.cast_one]
      omega
    rwa [hheight] at hwf'

theorem applyBlocks_append {earlier later : List (List (Op A))}
    (happly : applyBlocks p h (earlier ++ later) t = some t') :
    ∃ t₀, applyBlocks p h earlier t = some t₀ ∧
      applyBlocks p (h + earlier.length) later t₀ = some t' := by
  induction earlier generalizing h t with
  | nil => exact ⟨t, rfl, by simpa using happly⟩
  | cons ops blocks ih =>
    obtain ⟨t₁, hblock, hrest⟩ := Option.bind_eq_some_iff.mp happly
    obtain ⟨t₀, hbefore, hafter⟩ := ih hrest
    refine ⟨t₀, Option.bind_eq_some_iff.mpr ⟨t₁, hblock, hbefore⟩, ?_⟩
    have hheight : h + 1 + (blocks.length : Int) = h + ((ops :: blocks).length : Int) := by
      simp only [List.length_cons, Nat.cast_add, Nat.cast_one]
      omega
    rwa [← hheight]

/-- A stake that two executions of one block cut, the later in the order of actions first, and that
is then unstaked. -/
def slashedHistory : List (List (Op Int)) :=
  [[.action 1, .rail .contract (.stake ⟨⟨1, 10, some 5, 2, 20, 100⟩, none⟩), .action 2,
      .create .attests 2],
    [.action 3, .rail .contract (.slash .stakes 1 60 ⟨0, 9, 0⟩),
      .rail .contract (.slash .stakes 1 40 ⟨0, 8, 0⟩), .flip 2 (.attest .fulfilled)],
    [.action 4, .rail .contract (.unstake ⟨⟨4, 10, some 5, 2, 20, 40⟩, 3, 5, .valid⟩ [1])]]

end Tables

end XChainSync.Rollback
