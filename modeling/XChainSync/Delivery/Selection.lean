import XChainSync.Delivery.Placement

/-!
# What the two paths select of the ledger

Either path selects, of `credits`, `escrows`, `debits` and `contract_emissions`, the rows written since
its first block: the poller since the tip, a snapshot since the block it is asked for.
-/

namespace XChainSync.Delivery.Source
set_option autoImplicit false

open KeyedRows

def actedSince (S : Source) (since action_index : Nat) : Bool :=
  S.actions.any fun a => a.action_index = action_index && since ≤ a.block_index

def maturedSince (gas : Nat) (S : Source) (since : Nat) (r : LedgerRow) : Bool :=
  S.unstakes.any fun u => u.owns gas r && u.completed && since ≤ u.cooldown_end_block &&
    u.cooldown_end_block ≤ S.tip

/-- What the finder of one table of unstakes selects up to the tip. -/
def maturedOf (gas : Nat) (S : Source) (kind : UnstakeTable) (since : Nat) (r : LedgerRow) : Bool :=
  S.unstakes.any fun u => u.table = kind && u.owns gas r && u.completed &&
    since ≤ u.cooldown_end_block && u.cooldown_end_block ≤ S.tip

/-- The rows of a table written since a block. -/
def rowsSince {R : Type} (since : Nat) (table : List (Stamped R)) : List R :=
  rows (table.filter (since ≤ ·.written))

variable {gas since : Nat} {S : Source}

theorem filter_rows_eq_rowsSince {R : Type} {table : List (Stamped R)} {p : R → Bool}
    (h : ∀ e ∈ table, p e.row = true ↔ since ≤ e.written) :
    (rows table).filter p = rowsSince since table := by
  rw [rows, rowsSince, rows, List.filter_map]
  congr 1
  apply List.filter_congr
  intro e he
  rw [Function.comp_apply, Bool.eq_iff_iff, decide_eq_true_eq]
  exact h e he

/-! ### Rows by action -/

theorem Ordered.actedSince_iff (h : S.Ordered) {i height : Nat} (hacted : S.ActedAt i height) :
    S.actedSince since i = true ↔ since ≤ height := by
  simp only [actedSince, List.any_eq_true, Bool.and_eq_true, decide_eq_true_eq]
  constructor
  · rintro ⟨a, ha, hi, hsince⟩
    rw [h.actedAt_unique ha hi hacted] at hsince
    exact hsince
  · intro hsince
    exact ⟨⟨i, height⟩, hacted, rfl, hsince⟩

theorem Ordered.getActionScopedRows_tip (h : S.Ordered) (table : LedgerTable) :
    S.getActionScopedRows table S.tip =
      (S.ledger table).filter fun r => S.actedSince S.tip r.action_index := by
  rw [getActionScopedRows, joined_eq_filter (fun r => r.action_index) (·.action_index) h.actions_nodup]
  · apply List.filter_congr
    intro r _
    rw [Bool.eq_iff_iff, actedSince, List.any_eq_true, List.any_eq_true]
    apply exists_congr
    intro a
    apply and_congr_right
    intro ha
    have hle := h.actions_le a ha
    simp only [Bool.and_eq_true, decide_eq_true_eq]
    omega
  · intro r a hon
    simp only [Bool.and_eq_true, decide_eq_true_eq] at hon
    exact hon.1

theorem Ordered.first_le_iff (h : S.Ordered) {first i : Nat}
    (hfirst : S.getFirstActionIndex since = some first) (hacted : S.Acted i) :
    first ≤ i ↔ S.actedSince since i = true := by
  obtain ⟨hmem, hleast⟩ := List.min?_eq_some_iff.mp hfirst
  obtain ⟨a₀, ha₀, rfl⟩ := List.mem_map.mp hmem
  obtain ⟨ha₀, hsince₀⟩ := List.mem_filter.mp ha₀
  rw [decide_eq_true_eq] at hsince₀
  obtain ⟨a, ha, rfl⟩ := hacted
  have hacted : S.ActedAt a.action_index a.block_index := ha
  rw [h.actedSince_iff hacted]
  constructor
  · intro hle
    -- an action below the window has a smaller index than the first one in it
    by_contra hbelow
    have hlt := h.actions_increasing a ha a₀ ha₀ (by omega)
    omega
  · intro hsince
    apply hleast
    exact List.mem_map_of_mem (List.mem_filter.mpr ⟨ha, by simpa using hsince⟩)

theorem actedSince_of_none (hfirst : S.getFirstActionIndex since = none) (i : Nat) :
    S.actedSince since i = false := by
  rw [getFirstActionIndex, List.min?_eq_none_iff, List.map_eq_nil_iff, List.filter_eq_nil_iff] at hfirst
  rw [actedSince, List.any_eq_false]
  intro a ha hon
  simp only [Bool.and_eq_true, decide_eq_true_eq] at hon
  exact hfirst a ha (by simpa using hon.2)

theorem Ordered.findRowsFromActionIndex_eq (h : S.Ordered) {table : LedgerTable} {first : Nat}
    (hfirst : S.getFirstActionIndex since = some first)
    (hacted : ∀ r ∈ S.ledger table, S.Acted r.action_index) :
    S.findRowsFromActionIndex table first =
      (S.ledger table).filter fun r => S.actedSince since r.action_index := by
  apply List.filter_congr
  intro r hr
  rw [Bool.eq_iff_iff, decide_eq_true_eq]
  exact h.first_le_iff hfirst (hacted r hr)

/-! ### Matured rows -/

theorem Ordered.findMatured_eq (h : S.Ordered) (kind : UnstakeTable) (table : LedgerTable) :
    S.findMatured gas kind table since S.tip =
      (S.ledger table).filter (S.maturedOf gas kind since) := by
  apply joined_eq_filter (fun r => r.action_index) (·.action_index) h.unstakes_nodup
  intro r u hon
  simp only [Bool.and_eq_true] at hon
  exact Unstake.action_index_eq_of_owns hon.1.1.1.2

theorem Ordered.findMatured_perm (h : S.Ordered) (table : LedgerTable) :
    (S.findMatured gas .unstakes table since S.tip ++
      S.findMatured gas .contract_unstakes table since S.tip).Perm
        ((S.ledger table).filter (S.maturedSince gas since)) := by
  rw [h.findMatured_eq, h.findMatured_eq]
  refine (filter_append_filter_perm ?_).trans (List.Perm.of_eq ?_)
  · -- an action is an unstake of one table
    intro r _ hp
    obtain ⟨u, hu, hon⟩ := List.any_eq_true.mp hp
    simp only [Bool.and_eq_true, decide_eq_true_eq] at hon
    apply List.any_eq_false.mpr
    intro u' hu' hon'
    simp only [Bool.and_eq_true, decide_eq_true_eq] at hon'
    have hsame : u = u' := by
      apply List.inj_on_of_nodup_map h.unstakes_nodup hu hu'
      exact (Unstake.action_index_eq_of_owns hon.1.1.1.2).trans
        (Unstake.action_index_eq_of_owns hon'.1.1.1.2).symm
    rw [hsame, hon'.1.1.1.1] at hon
    exact UnstakeTable.noConfusion hon.1.1.1.1
  · apply List.filter_congr
    intro r _
    rw [Bool.eq_iff_iff, Bool.or_eq_true]
    simp only [maturedOf, maturedSince, List.any_eq_true]
    rw [← exists_or]
    apply exists_congr
    intro u
    rw [← and_or_left]
    apply and_congr_right
    intro _
    cases hu : u.table <;> simp

theorem owned_of_maturedSince {r : LedgerRow} (h : S.maturedSince gas since r = true) :
    S.owned gas r = true := by
  obtain ⟨u, hu, hon⟩ := List.any_eq_true.mp h
  simp only [Bool.and_eq_true] at hon
  exact List.any_eq_true.mpr ⟨u, hu, hon.1.1.1⟩

theorem Ledgered.matured_keys_nodup {table : LedgerTable} (h : S.Ordered)
    (ht : S.Ledgered gas (S.stamped table)) (since : Nat) :
    ((S.findMatured gas .unstakes table since S.tip ++
      S.findMatured gas .contract_unstakes table since S.tip).map ledgerRowKey).Nodup := by
  rw [((h.findMatured_perm table).map ledgerRowKey).nodup_iff]
  have hrows : ((S.stamped table).filter fun e => S.owned gas e.row).map (·.row.action_index) =
      ((S.ledger table).filter (S.owned gas)).map (·.action_index) := by
    rw [ledger, rows, List.filter_map, List.map_map]
    rfl
  have honce := ht.owned_once
  rw [hrows] at honce
  have hindex : ((((S.ledger table).filter (S.maturedSince gas since)).map ledgerRowKey).map
      Prod.fst).Nodup := by
    rw [List.map_map]
    exact ((List.monotone_filter_right _ fun r => owned_of_maturedSince).map _).nodup honce
  exact hindex.of_map

/-- The rows an unstake owns have different keys, so the map drops none. -/
theorem Ledgered.collectMatured_eq {table : LedgerTable} (h : S.Ordered)
    (ht : S.Ledgered gas (S.stamped table)) :
    collectMatured (S.findMatured gas .unstakes table since S.tip)
        (S.findMatured gas .contract_unstakes table since S.tip) =
      S.findMatured gas .unstakes table since S.tip ++
        S.findMatured gas .contract_unstakes table since S.tip := by
  rw [collectMatured, List.filter_eq_self.mpr]
  · exact collect_of_nodup (ht.matured_keys_nodup h since)
  · intro r hr
    obtain ⟨_, hmatured⟩ := List.mem_filter.mp ((h.findMatured_perm table).subset hr)
    obtain ⟨u, _, howns⟩ := List.any_eq_true.mp (owned_of_maturedSince hmatured)
    obtain ⟨haddress, htick⟩ := Unstake.isSome_of_owns howns
    rw [haddress, htick]
    rfl

/-- Merging the matured rows into the rows of the window's actions gives every row of either kind
once: the key of a row names its action, so a matured row is there already just when its action is in the
window. -/
theorem Ledgered.merge_perm {table : LedgerTable} (h : S.Ordered)
    (ht : S.Ledgered gas (S.stamped table)) :
    (mergeMaturedRows ((S.ledger table).filter fun r => S.actedSince since r.action_index)
      (collectMatured (S.findMatured gas .unstakes table since S.tip)
        (S.findMatured gas .contract_unstakes table since S.tip))).Perm
      ((S.ledger table).filter fun r =>
        S.actedSince since r.action_index || S.maturedSince gas since r) := by
  have hperm : (S.findMatured gas .unstakes table since S.tip ++
      S.findMatured gas .contract_unstakes table since S.tip).Perm
        ((S.ledger table).filter (S.maturedSince gas since)) := h.findMatured_perm table
  have hnodup := ht.matured_keys_nodup h since
  rw [ht.collectMatured_eq h, mergeMaturedRows, appendNew_of_nodup hnodup]
  have hthere : ∀ r ∈ S.ledger table,
      (((S.ledger table).filter fun r => S.actedSince since r.action_index).any
        (ledgerRowKey · = ledgerRowKey r)) = S.actedSince since r.action_index := by
    intro r hr
    rw [Bool.eq_iff_iff, List.any_eq_true]
    constructor
    · rintro ⟨r', hr', hkey⟩
      have hindex : r'.action_index = r.action_index := congrArg Prod.fst (of_decide_eq_true hkey)
      rw [← hindex]
      exact (List.mem_filter.mp hr').2
    · intro hacted
      exact ⟨r, List.mem_filter.mpr ⟨hr, hacted⟩, by simp⟩
  have hnew : ((S.findMatured gas .unstakes table since S.tip ++
      S.findMatured gas .contract_unstakes table since S.tip).filter fun r =>
        !((S.ledger table).filter fun r => S.actedSince since r.action_index).any
          (ledgerRowKey · = ledgerRowKey r)).Perm
      ((S.ledger table).filter fun r =>
        S.maturedSince gas since r && !S.actedSince since r.action_index) := by
    refine (hperm.filter _).trans (List.Perm.of_eq ?_)
    rw [List.filter_filter]
    apply List.filter_congr
    intro r hr
    rw [hthere r hr, Bool.and_comm]
  have hboth : (((S.ledger table).filter fun r => S.actedSince since r.action_index) ++
      (S.ledger table).filter fun r =>
        S.maturedSince gas since r && !S.actedSince since r.action_index).Perm
      ((S.ledger table).filter fun r =>
        S.actedSince since r.action_index || S.maturedSince gas since r) := by
    refine (filter_append_filter_perm ?_).trans (List.Perm.of_eq ?_)
    · intro r _ hacted
      rw [hacted, Bool.not_true, Bool.and_false]
    · apply List.filter_congr
      intro r _
      cases S.actedSince since r.action_index <;> simp
  exact (hnew.append_left _).trans hboth

/-! ### The rows written since -/

theorem Ledgered.since_iff {table : List (Stamped LedgerRow)} (h : S.Ordered)
    (ht : S.Ledgered gas table) {e : Stamped LedgerRow} (he : e ∈ table) :
    (S.actedSince since e.row.action_index || S.maturedSince gas since e.row) = true ↔
      since ≤ e.written := by
  rw [Bool.or_eq_true]
  cases ht.placed e he with
  | ordinary hacted halone =>
    rw [h.actedSince_iff hacted]
    constructor
    · rintro (hsince | hmatured)
      · exact hsince
      · obtain ⟨u, hu, howns⟩ := List.any_eq_true.mp (owned_of_maturedSince hmatured)
        rw [halone u hu] at howns
        exact Bool.noConfusion howns
    · exact Or.inl
  | matured u hu howns hcompleted hend hacted =>
    obtain ⟨height, hle, hacted⟩ := hacted
    rw [h.actedSince_iff hacted]
    constructor
    · rintro (hsince | hmatured)
      · exact Nat.le_trans hsince hle
      · obtain ⟨u', hu', hon⟩ := List.any_eq_true.mp hmatured
        simp only [Bool.and_eq_true, decide_eq_true_eq] at hon
        have hsame : u' = u := by
          apply List.inj_on_of_nodup_map h.unstakes_nodup hu' hu
          exact (Unstake.action_index_eq_of_owns hon.1.1.1).trans
            (Unstake.action_index_eq_of_owns howns).symm
        rw [← hend, ← hsame]
        exact hon.1.2
    · intro hsince
      refine Or.inr (List.any_eq_true.mpr ⟨u, hu, ?_⟩)
      have htip := ht.written_le e he
      simp only [Bool.and_eq_true, decide_eq_true_eq]
      exact ⟨⟨⟨howns, hcompleted⟩, hend ▸ hsince⟩, hend ▸ htip⟩

theorem Ledgered.acted {table : LedgerTable} (ht : S.Ledgered gas (S.stamped table)) :
    ∀ r ∈ S.ledger table, S.Acted r.action_index := by
  intro r hr
  obtain ⟨e, he, rfl⟩ := List.mem_map.mp hr
  exact (ht.placed e he).acted

theorem Ledgered.merge_perm_rowsSince {table : LedgerTable} (h : S.Ordered)
    (ht : S.Ledgered gas (S.stamped table)) :
    (mergeMaturedRows ((S.ledger table).filter fun r => S.actedSince since r.action_index)
      (collectMatured (S.findMatured gas .unstakes table since S.tip)
        (S.findMatured gas .contract_unstakes table since S.tip))).Perm
      (rowsSince since (S.stamped table)) := by
  rw [← filter_rows_eq_rowsSince (p := fun r =>
    S.actedSince since r.action_index || S.maturedSince gas since r) fun e he => ht.since_iff h he]
  exact ht.merge_perm h

/-- The matured rows the poller merges into the rows of the tip's own actions. -/
theorem Ledgered.block_perm {table : LedgerTable} (h : S.Ordered)
    (ht : S.Ledgered gas (S.stamped table)) :
    (mergeMaturedRows (S.getActionScopedRows table S.tip)
      (collectMatured (S.findMatured gas .unstakes table S.tip S.tip)
        (S.findMatured gas .contract_unstakes table S.tip S.tip))).Perm
      (rowsSince S.tip (S.stamped table)) := by
  rw [h.getActionScopedRows_tip]
  exact ht.merge_perm_rowsSince h

theorem Ordered.selectIndexerRows_eq (h : S.Ordered) {table : LedgerTable}
    (hacted : ∀ r ∈ S.ledger table, S.Acted r.action_index) :
    (S.selectIndexerRows table since).getD [] =
      (S.ledger table).filter fun r => S.actedSince since r.action_index := by
  unfold selectIndexerRows
  split
  · rename_i first hfirst
    exact h.findRowsFromActionIndex_eq hfirst hacted
  · rename_i hfirst
    have hnone : ((S.ledger table).filter fun r => S.actedSince since r.action_index) = [] := by
      apply List.filter_eq_nil_iff.mpr
      intro r _
      rw [actedSince_of_none hfirst]
      exact Bool.noConfusion
    rw [hnone]
    cases table <;> rfl

/-- A ledger table with matured rows is never skipped. -/
theorem Ordered.selectIndexerRows_eq_some (h : S.Ordered) {table : LedgerTable} (hne : table ≠ .debits)
    (hacted : ∀ r ∈ S.ledger table, S.Acted r.action_index) :
    S.selectIndexerRows table since =
      some ((S.ledger table).filter fun r => S.actedSince since r.action_index) := by
  rw [← h.selectIndexerRows_eq hacted]
  unfold selectIndexerRows
  split
  · rfl
  · cases table with
    | credits => rfl
    | escrows => rfl
    | debits => exact absurd rfl hne

theorem Ledgered.credits_snapshot_perm (h : S.Ordered) (ht : S.Ledgered gas S.credits) :
    ((S.selectIncrementalRows gas .credits since S.tip).getD []).Perm (rowsSince since S.credits) := by
  have hacted : ∀ r ∈ S.ledger .credits, S.Acted r.action_index := Ledgered.acted ht
  rw [selectIncrementalRows, h.selectIndexerRows_eq_some (by decide) hacted, Option.map_some,
    Option.getD_some]
  exact Ledgered.merge_perm_rowsSince h ht

theorem Ledgered.escrows_snapshot_perm (h : S.Ordered) (ht : S.Ledgered gas S.escrows) :
    ((S.selectIncrementalRows gas .escrows since S.tip).getD []).Perm (rowsSince since S.escrows) := by
  have hacted : ∀ r ∈ S.ledger .escrows, S.Acted r.action_index := Ledgered.acted ht
  rw [selectIncrementalRows, h.selectIndexerRows_eq_some (by decide) hacted, Option.map_some,
    Option.getD_some]
  exact Ledgered.merge_perm_rowsSince h ht

/-! ### Debits and emissions -/

theorem Debited.filter_eq (h : S.Ordered) (ht : S.Debited S.debits) :
    ((S.ledger .debits).filter fun r => S.actedSince since r.action_index) =
      rowsSince since S.debits := by
  apply filter_rows_eq_rowsSince
  intro e he
  exact h.actedSince_iff (ht.acted e he)

theorem Debited.snapshot_eq (h : S.Ordered) (ht : S.Debited S.debits) :
    (S.selectIncrementalRows gas .debits since S.tip).getD [] = rowsSince since S.debits := by
  have hacted : ∀ r ∈ S.ledger .debits, S.Acted r.action_index := by
    intro r hr
    obtain ⟨e, he, rfl⟩ := List.mem_map.mp hr
    exact (ht.acted e he).acted
  have hmap : S.selectIncrementalRows gas .debits since S.tip = S.selectIndexerRows .debits since :=
    Option.map_id'
  rw [hmap, h.selectIndexerRows_eq hacted, ht.filter_eq h]

theorem Ordered.executedActions_eq (h : S.Ordered) :
    S.executedActions = S.actions.filter fun a => a.action_index ∈ S.contract_executions := by
  rw [executedActions, joined_eq_filter (fun a => a.action_index) id (by simpa using h.executions_nodup)]
  · apply List.filter_congr
    intro a _
    rw [Bool.eq_iff_iff, List.any_eq_true, decide_eq_true_eq]
    constructor
    · rintro ⟨execution, hexecution, hon⟩
      exact of_decide_eq_true hon ▸ hexecution
    · intro hexecuted
      exact ⟨a.action_index, hexecuted, decide_eq_true rfl⟩
  · intro a execution hon
    exact of_decide_eq_true hon

theorem Emitted.snapshot_eq (h : S.Ordered) (ht : S.Emitted S.contract_emissions) :
    S.findEmissionRowsFromBlock since = rowsSince since S.contract_emissions := by
  have hnodup : (S.executedActions.map (·.action_index)).Nodup := by
    rw [h.executedActions_eq]
    exact (List.filter_sublist.map _).nodup h.actions_nodup
  rw [findEmissionRowsFromBlock,
    joined_eq_filter (fun em => em.execution_index) (·.action_index) hnodup]
  · apply filter_rows_eq_rowsSince
    intro e he
    rw [← h.actedSince_iff (ht.acted e he), h.executedActions_eq]
    simp only [actedSince, List.any_eq_true, List.mem_filter, Bool.and_eq_true, decide_eq_true_eq]
    constructor
    · rintro ⟨a, ⟨ha, _⟩, hon⟩
      exact ⟨a, ha, hon⟩
    · rintro ⟨a, ha, hon⟩
      exact ⟨a, ⟨ha, hon.1 ▸ ht.executed e he⟩, hon⟩
  · intro em a hon
    simp only [Bool.and_eq_true, decide_eq_true_eq] at hon
    exact hon.1

/-- No action lies above the tip. -/
theorem Ordered.getEmissionRowsForBlock_tip (h : S.Ordered) :
    S.getEmissionRowsForBlock S.tip = S.findEmissionRowsFromBlock S.tip := by
  unfold getEmissionRowsForBlock findEmissionRowsFromBlock joined
  congr 1
  funext em
  congr 1
  apply List.filter_congr
  intro a ha
  have hle := h.actions_le a (mem_joined.mp ha).1
  rw [Bool.eq_iff_iff]
  simp only [Bool.and_eq_true, decide_eq_true_eq]
  omega

end XChainSync.Delivery.Source
