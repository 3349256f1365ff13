import XChainSync.Rollback.Restores
import XChainSync.Server.Poller

/-!
# Stake rows along a chain

A block of the source carries actions and writes on the two stake rails. The tables of a chain are
what its blocks made of empty tables; those of a shorter chain are read off them by the rollback. A
block mutates a stake in place when it leaves a slash debit of the row or stamps it.
-/

namespace XChainSync.Mutations
open Rollback Server UndoJournal
set_option autoImplicit false

variable {A : Type}

inductive Write (A : Type) where
  | action (action_index : Int)
  | rail (kind : RailKind) (op : RailOp A)
  deriving DecidableEq, Repr

def Write.op : Write A → Op A
  | action a => .action a
  | rail kind op => .rail kind op

abbrev StakeBlock (A : Type) := Block (List (Write A))

/-- The tables the blocks of a chain make; none where no indexer writes one of its blocks. -/
def tablesOf (p : Params A) (first : Int) (chain : List (StakeBlock A)) : Option (Tables A) :=
  Tables.applyBlocks p first (chain.map fun block => block.body.map Write.op) Tables.empty

/-- The height after the last block of a chain. -/
def nextHeight (first : Int) (chain : List (StakeBlock A)) : Int := first + chain.length

/-- Block `k` cut or stamped the stake with this action. -/
def mutates (p : Params A) (rail : Rail A) (k a : Int) : Bool :=
  (rail.slash_debits.any fun d =>
    d.target_table = .stakes && d.stake_action_index = a && d.block_index = k) ||
  rail.stakes.any fun s =>
    s.action_index = a && s.deactivation_block = some (k + p.activationDelay)

variable {p : Params A} {first : Int} {chain short long : List (StakeBlock A)} {t t' : Tables A}
  {kind : RailKind}

theorem wf_tablesOf (h : tablesOf p first chain = some t) :
    t.WF p (nextHeight first chain - 1) := by
  have hwf := Tables.wf_applyBlocks (h := first) Tables.wf_empty h
  rw [List.length_map] at hwf
  have hheight : first - 1 + (chain.length : Int) = nextHeight first chain - 1 := by
    unfold nextHeight
    omega
  rwa [hheight] at hwf

/-- A chain that goes on was written before it did, and rolling back gives its tables. -/
theorem tablesOf_shorter (h : tablesOf p first long = some t) (hle : short <+: long) :
    tablesOf p first short = some (t.rollbackIndexer p (nextHeight first short)) := by
  obtain ⟨more, rfl⟩ := hle
  unfold tablesOf at h
  rw [List.map_append] at h
  obtain ⟨t₀, hbefore, hafter⟩ := Tables.applyBlocks_append h
  rw [List.length_map] at hafter
  have hwf : t₀.WF p (nextHeight first short - 1) := wf_tablesOf hbefore
  have hrollback := Tables.rollback_applyBlocks (b := nextHeight first short) hwf (Int.le_refl _)
    hafter
  rw [hrollback, hwf.rollback_settled (by omega)]
  exact hbefore

/-- A chain an indexer can write. -/
def Written (p : Params A) (first : Int) (chain : List (StakeBlock A)) : Prop :=
  (tablesOf p first chain).isSome

instance (p : Params A) (first : Int) (chain : List (StakeBlock A)) :
    Decidable (Written p first chain) :=
  inferInstanceAs (Decidable ((tablesOf p first chain).isSome = true))

/-- The tables of a written chain. -/
def tables (p : Params A) (first : Int) (chain : List (StakeBlock A)) : Tables A :=
  (tablesOf p first chain).getD Tables.empty

theorem Written.tablesOf_eq (h : Written p first chain) :
    tablesOf p first chain = some (tables p first chain) := by
  obtain ⟨t, ht⟩ := Option.isSome_iff_exists.mp h
  simp [tables, ht]

theorem Written.wf (h : Written p first chain) :
    (tables p first chain).WF p (nextHeight first chain - 1) :=
  wf_tablesOf h.tablesOf_eq

theorem Written.shorter (h : Written p first long) (hle : short <+: long) :
    Written p first short := by
  rw [Written, tablesOf_shorter h.tablesOf_eq hle]
  rfl

theorem tables_nil : tables p first [] = Tables.empty := rfl

/-! ### The rows of a chain that stops earlier -/

/-- `t'` is what a rollback to the height after `short` makes of `t`. -/
structure Cut (p : Params A) (first : Int) (short : List (StakeBlock A)) (t t' : Tables A) :
    Prop where
  wf : t'.WF p (nextHeight first short - 1)
  wf_long : ∃ h, t.WF p h
  eq : t' = t.rollbackIndexer p (nextHeight first short)

theorem Written.cut (h : Written p first long) (hle : short <+: long) :
    Cut p first short (tables p first long) (tables p first short) where
  wf := (h.shorter hle).wf
  wf_long := ⟨_, h.wf⟩
  eq := by
    have hshort := tablesOf_shorter h.tablesOf_eq hle
    rw [(h.shorter hle).tablesOf_eq] at hshort
    exact Option.some.inj hshort

theorem stakeKeys_nodup {rail : Rail A} {actions : List (Int × Int)} {h : Int}
    (hs : rail.Shape p kind actions h) : (rail.stakes.map fun s => s.action_index).Nodup := by
  simpa [Rail.bonds, Function.comp_def] using hs.keys .stakes

theorem stake_unique {h : Int} (hwf : t.WF p h) {s s' : Stake A} (hs : s ∈ (t.rails kind).stakes)
    (hs' : s' ∈ (t.rails kind).stakes) (hkey : s.action_index = s'.action_index) : s = s' :=
  List.inj_on_of_nodup_map (stakeKeys_nodup (hwf.rails kind).shape) hs hs' hkey

namespace Cut
variable (hcut : Cut p first short t t')
include hcut

theorem rail_eq (kind : RailKind) : t'.rails kind = (t.rails kind).rollback p
    (getFirstActionIndex (nextHeight first short) t.actions) (nextHeight first short) kind := by
  rw [hcut.eq]
  rfl

theorem splitsAt : Rail.SplitsAt t.actions
    (getFirstActionIndex (nextHeight first short) t.actions) (nextHeight first short) := by
  obtain ⟨h, hwf⟩ := hcut.wf_long
  exact hwf.splitsAt _

theorem mem_actions (x : Int × Int) :
    x ∈ t'.actions ↔ x ∈ t.actions ∧ x.2 < nextHeight first short := by
  rw [hcut.eq, Tables.actions_rollbackIndexer, List.mem_filter]
  exact and_congr_right fun hx => hcut.splitsAt x.1 x.2 hx

theorem rows_eq (kind : RailKind) : t'.rails kind =
    { stakes := ((t.rails kind).stakes.map
        ((t.rails kind).undoStake p kind (nextHeight first short))).filter
          (survives (getFirstActionIndex (nextHeight first short) t.actions) ·.action_index)
      unstakes := ((t.rails kind).unstakes.map
        ((t.rails kind).undoUnstake p kind (nextHeight first short))).filter
          (survives (getFirstActionIndex (nextHeight first short) t.actions) ·.action_index)
      slash_debits := (t.rails kind).slash_debits.filter (·.block_index < nextHeight first short)
      rotations := (t.rails kind).rotations.filter (·.block_index < nextHeight first short) } := by
  obtain ⟨h, hwf⟩ := hcut.wf_long
  rw [hcut.rail_eq, Rail.rollback_eq (hwf.rails kind).shape (hwf.rails kind).journaled]

theorem mem_slash_debits (kind : RailKind) (d : SlashDebit A) :
    d ∈ (t'.rails kind).slash_debits ↔
      d ∈ (t.rails kind).slash_debits ∧ d.block_index < nextHeight first short := by
  rw [hcut.rows_eq]
  simp

/-- A stake of the shorter chain is what the rollback makes of the stake with its action. -/
theorem stake_of_mem {s' : Stake A} (hs' : s' ∈ (t'.rails kind).stakes) :
    ∃ s ∈ (t.rails kind).stakes,
      (t.rails kind).undoStake p kind (nextHeight first short) s = s' := by
  rw [hcut.rows_eq] at hs'
  obtain ⟨s, hs, rfl⟩ := List.mem_map.mp (List.mem_of_mem_filter hs')
  exact ⟨s, hs, rfl⟩

theorem undoStake_mem {s : Stake A} (hs : s ∈ (t.rails kind).stakes) {k : Int}
    (hk : (s.action_index, k) ∈ t.actions) (hlt : k < nextHeight first short) :
    (t.rails kind).undoStake p kind (nextHeight first short) s ∈ (t'.rails kind).stakes := by
  rw [hcut.rows_eq]
  refine List.mem_filter.mpr ⟨List.mem_map_of_mem hs, ?_⟩
  exact (hcut.splitsAt _ _ hk).mpr hlt

theorem unstake_of_mem {u' : Unstake A} (hu' : u' ∈ (t'.rails kind).unstakes) :
    ∃ u ∈ (t.rails kind).unstakes,
      (t.rails kind).undoUnstake p kind (nextHeight first short) u = u' := by
  rw [hcut.rows_eq] at hu'
  obtain ⟨u, hu, rfl⟩ := List.mem_map.mp (List.mem_of_mem_filter hu')
  exact ⟨u, hu, rfl⟩

theorem undoUnstake_mem {u : Unstake A} (hu : u ∈ (t.rails kind).unstakes)
    (hlt : u.block_index < nextHeight first short) :
    (t.rails kind).undoUnstake p kind (nextHeight first short) u ∈ (t'.rails kind).unstakes := by
  obtain ⟨h, hwf⟩ := hcut.wf_long
  rw [hcut.rows_eq]
  refine List.mem_filter.mpr ⟨List.mem_map_of_mem hu, ?_⟩
  exact (hcut.splitsAt _ _ ((hwf.rails kind).shape.unstake_known u hu)).mpr hlt

/-- A mutation the shorter chain holds is one of its own blocks', and the longer chain holds it. -/
theorem mutates_long {k a : Int} (h : mutates p (t'.rails kind) k a = true) :
    mutates p (t.rails kind) k a = true ∧ k < nextHeight first short := by
  simp only [mutates, Bool.or_eq_true, List.any_eq_true, Bool.and_eq_true, decide_eq_true_eq] at h ⊢
  rcases h with ⟨d, hd, hrow⟩ | ⟨s', hs', hkey, hstamp⟩
  · rw [hcut.mem_slash_debits] at hd
    exact ⟨Or.inl ⟨d, hd.1, hrow⟩, hrow.2 ▸ hd.2⟩
  · obtain ⟨s, hs, rfl⟩ := hcut.stake_of_mem hs'
    simp only [Rail.undoStake] at hkey hstamp
    split at hstamp
    · simp at hstamp
    · rename_i hbelow
      simp only [hstamp, atOrAbove_some, decide_eq_true_eq] at hbelow
      exact ⟨Or.inr ⟨s, hs, hkey, hstamp⟩, by omega⟩

/-- A stake that no later block mutates stands as the longer chain has it. -/
theorem value_of_unmutated {s s' : Stake A} (hs : s ∈ (t.rails kind).stakes)
    (hs' : s' ∈ (t'.rails kind).stakes) (hkey : s'.action_index = s.action_index)
    (hquiet : ∀ k, nextHeight first short ≤ k →
      mutates p (t.rails kind) k s.action_index = false) :
    s'.amount = s.amount ∧ s'.deactivation_block = s.deactivation_block := by
  obtain ⟨h, hwf⟩ := hcut.wf_long
  obtain ⟨r, hr, rfl⟩ := hcut.stake_of_mem hs'
  obtain rfl := stake_unique hwf hr hs hkey
  constructor
  · show (kind.debits p).restore _ _ _ _ = _
    refine Journal.restore_row_settled ?_ _
    intro d hd hrow
    show d.block_index < _
    by_contra hle
    have hq := hquiet d.block_index (by omega)
    simp only [mutates, Bool.or_eq_false_iff, List.any_eq_false, Bool.and_eq_true, not_and,
      decide_eq_true_eq] at hq
    simp only [RailKind.debits, Prod.mk.injEq] at hrow
    exact hq.1 d hd hrow rfl
  · show (if _ then _ else _) = _
    split
    · rename_i hstamp
      cases hd : r.deactivation_block with
      | none => rfl
      | some d =>
        rw [hd, atOrAbove_some] at hstamp
        simp only [decide_eq_true_eq] at hstamp
        have hq := hquiet (d - p.activationDelay) (by omega)
        simp only [mutates, Bool.or_eq_false_iff, List.any_eq_false, Bool.and_eq_true, not_and,
          decide_eq_true_eq] at hq
        refine absurd ?_ (hq.2 r hr rfl)
        rw [hd]
        congr 1
        omega
    · rfl

end Cut

/-- Between two chains a row stands still that no block from one to the other mutates. The blocks may
be read off any chain that goes on from both. -/
theorem Written.value_between {view : List (StakeBlock A)} (hview : Written p first view)
    (hlong : long <+: view) (hshort : short <+: long) {s s' : Stake A}
    (hs : s ∈ ((tables p first long).rails kind).stakes)
    (hs' : s' ∈ ((tables p first short).rails kind).stakes)
    (hkey : s'.action_index = s.action_index)
    (hquiet : ∀ k, nextHeight first short ≤ k → k < nextHeight first long →
      mutates p ((tables p first view).rails kind) k s.action_index = false) :
    s'.amount = s.amount ∧ s'.deactivation_block = s.deactivation_block := by
  refine ((hview.shorter hlong).cut hshort).value_of_unmutated hs hs' hkey fun k hk => ?_
  cases hmutates : mutates p ((tables p first long).rails kind) k s.action_index with
  | false => rfl
  | true =>
    obtain ⟨hlater, hlt⟩ := (hview.cut hlong).mutates_long hmutates
    rw [hquiet k hk hlt] at hlater
    exact absurd hlater Bool.false_ne_true

/-- A row stays when the chain goes on. -/
theorem Written.stake_stays (h : Written p first long) (hle : short <+: long) {s' : Stake A}
    (hs' : s' ∈ ((tables p first short).rails kind).stakes) :
    ∃ s ∈ ((tables p first long).rails kind).stakes, s.action_index = s'.action_index ∧
      Bond.Same kind s.toBond s'.toBond := by
  obtain ⟨s, hs, rfl⟩ := (h.cut hle).stake_of_mem hs'
  have hrotations := (h.wf.rails kind).journaled.rotations_contract
  exact ⟨s, hs, rfl, Rail.restoreBond_same _ _ hrotations .stakes s.toBond⟩

theorem take_le (n : Nat) (chain : List (StakeBlock A)) : chain.take n <+: chain :=
  ⟨chain.drop n, List.take_append_drop n chain⟩

theorem self_le (chain : List (StakeBlock A)) : chain <+: chain := ⟨[], List.append_nil chain⟩

theorem nil_le (chain : List (StakeBlock A)) : [] <+: chain := ⟨chain, rfl⟩

theorem actions_from_first (h : Written p first chain) {x : Int × Int}
    (hx : x ∈ (tables p first chain).actions) : first ≤ x.2 := by
  by_contra hlt
  have hnone := ((h.cut (nil_le chain)).mem_actions x).mpr
    ⟨hx, by simp only [nextHeight, List.length_nil]; omega⟩
  simp [tables_nil, Tables.empty] at hnone

theorem slash_debits_from_first (h : Written p first chain) {d : SlashDebit A}
    (hd : d ∈ ((tables p first chain).rails kind).slash_debits) : first ≤ d.block_index := by
  by_contra hlt
  have hnone := ((h.cut (nil_le chain)).mem_slash_debits kind d).mpr
    ⟨hd, by simp only [nextHeight, List.length_nil]; omega⟩
  simp [tables_nil, Tables.empty] at hnone

end XChainSync.Mutations
