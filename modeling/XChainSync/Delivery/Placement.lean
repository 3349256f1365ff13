import XChainSync.Delivery.Payloads

/-!
# Where the rows of the ledger are placed

The invariants of a source that has written admissible blocks: an action lies in one block, a later
block has larger action indexes, and a ledger row was written in the block of its action, or in the block
in which the unstake of its action matured, once.
-/

namespace XChainSync.Delivery
set_option autoImplicit false

namespace Source

def ActedAt (S : Source) (action_index height : Nat) : Prop :=
  ⟨action_index, height⟩ ∈ S.actions

def Acted (S : Source) (action_index : Nat) : Prop := ∃ a ∈ S.actions, a.action_index = action_index

structure Ordered (S : Source) : Prop where
  actions_nodup : (S.actions.map (·.action_index)).Nodup
  actions_le : ∀ a ∈ S.actions, a.block_index ≤ S.tip
  actions_increasing : ∀ a ∈ S.actions, ∀ a' ∈ S.actions,
    a.block_index < a'.block_index → a.action_index < a'.action_index
  executions_nodup : S.contract_executions.Nodup
  executions_acted : ∀ i ∈ S.contract_executions, S.Acted i
  unstakes_nodup : (S.unstakes.map (·.action_index)).Nodup
  unstakes_acted : ∀ u ∈ S.unstakes, S.Acted u.action_index

inductive Placed (gas : Nat) (S : Source) (e : Stamped LedgerRow) : Prop where
  | ordinary (hacted : S.ActedAt e.row.action_index e.written)
      (halone : ∀ u ∈ S.unstakes, u.owns gas e.row = false)
  | matured (u : Unstake) (hu : u ∈ S.unstakes) (howns : u.owns gas e.row = true)
      (hcompleted : u.completed = true) (hend : u.cooldown_end_block = e.written)
      (hacted : ∃ height ≤ e.written, S.ActedAt e.row.action_index height)

def owned (gas : Nat) (S : Source) (r : LedgerRow) : Bool := S.unstakes.any (·.owns gas r)

structure Ledgered (gas : Nat) (S : Source) (table : List (Stamped LedgerRow)) : Prop where
  written_le : ∀ e ∈ table, e.written ≤ S.tip
  placed : ∀ e ∈ table, S.Placed gas e
  owned_once : ((table.filter fun e => S.owned gas e.row).map (·.row.action_index)).Nodup

/-- The rows of `debits`. -/
structure Debited (S : Source) (table : List (Stamped LedgerRow)) : Prop where
  written_le : ∀ e ∈ table, e.written ≤ S.tip
  acted : ∀ e ∈ table, S.ActedAt e.row.action_index e.written

/-- The rows of `contract_emissions`. -/
structure Emitted (S : Source) (table : List (Stamped Emission)) : Prop where
  written_le : ∀ e ∈ table, e.written ≤ S.tip
  executed : ∀ e ∈ table, e.row.execution_index ∈ S.contract_executions
  acted : ∀ e ∈ table, S.ActedAt e.row.execution_index e.written

theorem ActedAt.acted {S : Source} {i height : Nat} (h : S.ActedAt i height) : S.Acted i :=
  ⟨_, h, rfl⟩

theorem Ordered.actedAt_unique {S : Source} (h : S.Ordered) {a : Action} {i height : Nat}
    (ha : a ∈ S.actions) (hi : a.action_index = i) (hacted : S.ActedAt i height) :
    a.block_index = height := by
  have heq : a = ⟨i, height⟩ := List.inj_on_of_nodup_map h.actions_nodup ha hacted hi
  rw [heq]

theorem mem_stamp {R : Type} {height : Nat} {rows : List R} {e : Stamped R} :
    e ∈ stamp height rows ↔ e.row ∈ rows ∧ e.written = height := by
  simp only [stamp, List.mem_map]
  constructor
  · rintro ⟨r, hr, rfl⟩
    exact ⟨hr, rfl⟩
  · rintro ⟨hr, rfl⟩
    exact ⟨e.row, hr, rfl⟩

/-! ### One block -/

section Step

variable {gas : Nat} {S : Source} {b : Block}

theorem mem_step_actions {a : Action} : a ∈ (S.step gas b).actions ↔
    a ∈ S.actions ∨ a.action_index ∈ b.actions ∧ a.block_index = S.tip + 1 := by
  simp only [step, List.mem_append, List.mem_map]
  constructor
  · rintro (h | ⟨i, hi, rfl⟩)
    · exact Or.inl h
    · exact Or.inr ⟨hi, rfl⟩
  · rintro (h | ⟨hi, hblock⟩)
    · exact Or.inl h
    · exact Or.inr ⟨a.action_index, hi, by rw [← hblock]⟩

theorem ActedAt.step {i height : Nat} (h : S.ActedAt i height) : (S.step gas b).ActedAt i height :=
  mem_step_actions.mpr (Or.inl h)

theorem actedAt_of_block {i : Nat} (h : i ∈ b.actions) : (S.step gas b).ActedAt i (S.tip + 1) :=
  mem_step_actions.mpr (Or.inr ⟨h, rfl⟩)

theorem Acted.step {i : Nat} (h : S.Acted i) : (S.step gas b).Acted i := by
  obtain ⟨a, ha, hi⟩ := h
  exact ⟨a, mem_step_actions.mpr (Or.inl ha), hi⟩

theorem Admits.ne_of_acted (hb : S.Admits gas b) {i j : Nat} (hi : S.Acted i) (hj : j ∈ b.actions) :
    i ≠ j := by
  obtain ⟨a, ha, rfl⟩ := hi
  exact Nat.ne_of_lt (hb.actions_later a ha j hj)

/-- An unstake of the block before it is completed. -/
theorem mem_step_unstakes {u : Unstake} (h : u ∈ (S.step gas b).unstakes) :
    ∃ u₀ ∈ S.unstakes ++ b.unstakes, u₀.action_index = u.action_index ∧ ∀ r, u.owns gas r = u₀.owns gas r := by
  obtain ⟨u₀, hu₀, rfl⟩ := List.mem_map.mp h
  refine ⟨u₀, hu₀, ?_, ?_⟩
  · split <;> rfl
  · intro r
    split <;> rfl

theorem completed_mem_step_unstakes {u : Unstake} (h : u ∈ S.unstakes) (hcompleted : u.completed = true) :
    u ∈ (S.step gas b).unstakes := by
  refine List.mem_map.mpr ⟨u, List.mem_append_left _ h, ?_⟩
  split
  · cases u
    simp_all
  · rfl

theorem matured_mem_step_unstakes (hb : S.Admits gas b) {m : Maturity} (hm : m ∈ b.matured) :
    { m.unstake with completed := true } ∈ (S.step gas b).unstakes := by
  refine List.mem_map.mpr ⟨m.unstake, hb.matured_known m hm, if_pos ?_⟩
  exact List.any_eq_true.mpr ⟨m, hm, by simp⟩

theorem step_unstakes_action_index :
    (S.step gas b).unstakes.map (·.action_index) = (S.unstakes ++ b.unstakes).map (·.action_index) := by
  simp only [step, List.map_map]
  apply List.map_congr_left
  intro u _
  simp only [Function.comp_apply]
  split <;> rfl

theorem step_owned (r : LedgerRow) :
    (S.step gas b).owned gas r = (S.owned gas r || b.unstakes.any (·.owns gas r)) := by
  simp only [owned, step, List.any_map, ← List.any_append]
  congr 1
  funext u
  simp only [Function.comp_apply]
  split <;> rfl

theorem Ordered.step (h : S.Ordered) (hb : S.Admits gas b) : (S.step gas b).Ordered where
  actions_nodup := by
    simp only [Source.step, List.map_append, List.map_map, List.nodup_append]
    refine ⟨h.actions_nodup, by simpa [Function.comp_def] using hb.actions_nodup, ?_⟩
    intro i hi j hj
    obtain ⟨a, ha, rfl⟩ := List.mem_map.mp hi
    obtain ⟨j', hj', rfl⟩ := List.mem_map.mp hj
    exact hb.ne_of_acted ⟨a, ha, rfl⟩ hj'
  actions_le := by
    intro a ha
    rcases mem_step_actions.mp ha with ha | ⟨_, hblock⟩
    · exact Nat.le_succ_of_le (h.actions_le a ha)
    · exact Nat.le_of_eq hblock
  actions_increasing := by
    intro a ha a' ha' hlt
    rcases mem_step_actions.mp ha with ha | ⟨_, hblock⟩
    · rcases mem_step_actions.mp ha' with ha' | ⟨hnew, _⟩
      · exact h.actions_increasing a ha a' ha' hlt
      · exact hb.actions_later a ha _ hnew
    · have hle : a'.block_index ≤ S.tip + 1 := by
        rcases mem_step_actions.mp ha' with ha' | ⟨_, hblock'⟩
        · exact Nat.le_succ_of_le (h.actions_le a' ha')
        · exact Nat.le_of_eq hblock'
      omega
  executions_nodup := by
    simp only [Source.step, List.nodup_append]
    refine ⟨h.executions_nodup, hb.executions_nodup, ?_⟩
    intro i hi j hj
    exact hb.ne_of_acted (h.executions_acted i hi) (hb.executions_acted j hj)
  executions_acted := by
    intro i hi
    rcases List.mem_append.mp hi with hi | hi
    · exact (h.executions_acted i hi).step
    · exact (actedAt_of_block (hb.executions_acted i hi)).acted
  unstakes_nodup := by
    rw [step_unstakes_action_index, List.map_append, List.nodup_append]
    refine ⟨h.unstakes_nodup, hb.unstakes_nodup, ?_⟩
    intro i hi j hj
    obtain ⟨u, hu, rfl⟩ := List.mem_map.mp hi
    obtain ⟨u', hu', rfl⟩ := List.mem_map.mp hj
    exact hb.ne_of_acted (h.unstakes_acted u hu) (hb.unstakes_acted u' hu')
  unstakes_acted := by
    intro u hu
    obtain ⟨u₀, hu₀, hi, _⟩ := mem_step_unstakes hu
    rw [← hi]
    rcases List.mem_append.mp hu₀ with hu₀ | hu₀
    · exact (h.unstakes_acted u₀ hu₀).step
    · exact (actedAt_of_block (hb.unstakes_acted u₀ hu₀)).acted

/-! ### The tables after one block -/

theorem written_le_step {R : Type} {table : List (Stamped R)} {new : List R}
    (h : ∀ e ∈ table, e.written ≤ S.tip) :
    ∀ e ∈ table ++ stamp (S.tip + 1) new, e.written ≤ S.tip + 1 := by
  intro e he
  rcases List.mem_append.mp he with he | he
  · exact Nat.le_succ_of_le (h e he)
  · exact Nat.le_of_eq (mem_stamp.mp he).2

theorem Placed.acted {e : Stamped LedgerRow} (h : S.Placed gas e) : S.Acted e.row.action_index := by
  cases h with
  | ordinary hacted => exact hacted.acted
  | matured u _ _ _ _ hacted =>
    obtain ⟨_, _, hacted⟩ := hacted
    exact hacted.acted

/-- A row of an older action belongs to no unstake of the block. -/
theorem Admits.owns_eq_false (hb : S.Admits gas b) {r : LedgerRow} (hr : S.Acted r.action_index)
    {u : Unstake} (hu : u ∈ b.unstakes) : u.owns gas r = false := by
  apply Bool.eq_false_iff.mpr
  intro howns
  exact hb.ne_of_acted hr (hb.unstakes_acted u hu) (Unstake.action_index_eq_of_owns howns).symm

theorem Placed.step (hb : S.Admits gas b) {e : Stamped LedgerRow} (h : S.Placed gas e) :
    (S.step gas b).Placed gas e := by
  have hold := h.acted
  cases h with
  | ordinary hacted halone =>
    refine .ordinary hacted.step ?_
    intro u hu
    obtain ⟨u₀, hu₀, _, howns⟩ := mem_step_unstakes hu
    rw [howns]
    rcases List.mem_append.mp hu₀ with hu₀ | hu₀
    · exact halone u₀ hu₀
    · exact hb.owns_eq_false hold hu₀
  | matured u hu howns hcompleted hend hacted =>
    obtain ⟨height, hle, hacted⟩ := hacted
    exact .matured u (completed_mem_step_unstakes hu hcompleted) howns hcompleted hend
      ⟨height, hle, hacted.step⟩

/-- A row the block writes under one of its own actions, which is no unstake of that row. -/
theorem placed_of_block (h : S.Ordered) (hb : S.Admits gas b) {e : Stamped LedgerRow}
    (hwritten : e.written = S.tip + 1) (hacted : e.row.action_index ∈ b.actions)
    (halone : ∀ u ∈ b.unstakes, u.owns gas e.row = false) : (S.step gas b).Placed gas e := by
  refine .ordinary (hwritten ▸ actedAt_of_block hacted) ?_
  intro u hu
  obtain ⟨u₀, hu₀, _, howns⟩ := mem_step_unstakes hu
  rw [howns]
  rcases List.mem_append.mp hu₀ with hu₀ | hu₀
  · apply Bool.eq_false_iff.mpr
    intro h₀
    exact hb.ne_of_acted (h.unstakes_acted u₀ hu₀) hacted (Unstake.action_index_eq_of_owns h₀)
  · exact halone u₀ hu₀

theorem placed_of_matured (h : S.Ordered) (hb : S.Admits gas b) {m : Maturity} (hm : m ∈ b.matured)
    (amount : Int) : (S.step gas b).Placed gas ⟨m.unstake.ledgerRow gas amount, S.tip + 1⟩ := by
  refine .matured { m.unstake with completed := true } (matured_mem_step_unstakes hb hm)
    (Unstake.owns_ledgerRow gas m.unstake amount) rfl (hb.matured_due m hm) ?_
  rcases List.mem_append.mp (hb.matured_known m hm) with hu | hu
  · obtain ⟨a, ha, hi⟩ := h.unstakes_acted m.unstake hu
    have hacted : S.ActedAt m.unstake.action_index a.block_index := by
      rw [← hi]
      exact ha
    exact ⟨a.block_index, Nat.le_succ_of_le (h.actions_le a ha), hacted.step⟩
  · exact ⟨S.tip + 1, Nat.le_refl _, actedAt_of_block (hb.unstakes_acted m.unstake hu)⟩

theorem mem_payouts {amount : Maturity → Option Int} {r : LedgerRow} (h : r ∈ b.payouts gas amount) :
    ∃ m ∈ b.matured, ∃ x, r = m.unstake.ledgerRow gas x := by
  obtain ⟨m, hm, hr⟩ := List.mem_filterMap.mp h
  obtain ⟨x, _, rfl⟩ := Option.map_eq_some_iff.mp hr
  exact ⟨m, hm, x, rfl⟩

theorem payouts_action_index (amount : Maturity → Option Int) :
    ((b.payouts gas amount).map (·.action_index)).Sublist
      (b.matured.map (·.unstake.action_index)) := by
  have heq : (b.payouts gas amount).map (·.action_index) =
      (b.matured.filter fun m => (amount m).isSome).map (·.unstake.action_index) := by
    unfold Block.payouts
    induction b.matured with
    | nil => rfl
    | cons m ms ih =>
      cases hm : amount m with
      | none => simp [hm, ih]
      | some x => simp [hm, ih, Unstake.ledgerRow]
  rw [heq]
  exact List.filter_sublist.map _

/-- An unstake that matures has paid no row yet. -/
theorem Ledgered.unpaid {table : List (Stamped LedgerRow)} (h : S.Ordered)
    (ht : S.Ledgered gas table) (hb : S.Admits gas b) {m : Maturity} (hm : m ∈ b.matured)
    {e : Stamped LedgerRow} (he : e ∈ table) (howned : S.owned gas e.row = true) :
    e.row.action_index ≠ m.unstake.action_index := by
  intro heq
  cases ht.placed e he with
  | ordinary hacted halone =>
    obtain ⟨u, hu, howns⟩ := List.any_eq_true.mp howned
    rw [halone u hu] at howns
    exact Bool.noConfusion howns
  | matured u hu howns hcompleted =>
    have hu_eq : u.action_index = m.unstake.action_index :=
      (Unstake.action_index_eq_of_owns howns).trans heq
    rcases List.mem_append.mp (hb.matured_known m hm) with hknown | hknown
    · have hsame : u = m.unstake := List.inj_on_of_nodup_map h.unstakes_nodup hu hknown hu_eq
      have hpending := hb.matured_pending m hm
      rw [← hsame, hcompleted] at hpending
      exact Bool.noConfusion hpending
    · exact hb.ne_of_acted (h.unstakes_acted u hu) (hb.unstakes_acted m.unstake hknown) hu_eq

/-- `credits` or `escrows` after a block: the rows of its own actions and those of the cooldowns that
end. -/
theorem Ledgered.step {table : List (Stamped LedgerRow)} (h : S.Ordered) (ht : S.Ledgered gas table)
    (hb : S.Admits gas b) {new : List LedgerRow} (amount : Maturity → Option Int)
    (hacted : ∀ r ∈ new, r.action_index ∈ b.actions)
    (halone : ∀ u ∈ b.unstakes, ∀ r ∈ new, u.owns gas r = false) :
    (S.step gas b).Ledgered gas
      (table ++ stamp (S.tip + 1) (new ++ b.payouts gas amount)) where
  written_le := written_le_step ht.written_le
  placed := by
    intro e he
    rcases List.mem_append.mp he with he | he
    · exact (ht.placed e he).step hb
    obtain ⟨hrow, hwritten⟩ := mem_stamp.mp he
    rcases List.mem_append.mp hrow with hrow | hrow
    · exact placed_of_block h hb hwritten (hacted _ hrow) fun u hu => halone u hu _ hrow
    · obtain ⟨m, hm, x, hx⟩ := mem_payouts hrow
      have heq : e = ⟨m.unstake.ledgerRow gas x, S.tip + 1⟩ := by
        rw [← hx, ← hwritten]
      rw [heq]
      exact placed_of_matured h hb hm x
  owned_once := by
    have hold : (table.filter fun e => (S.step gas b).owned gas e.row) =
        table.filter fun e => S.owned gas e.row := by
      apply List.filter_congr
      intro e he
      have hnone : b.unstakes.any (·.owns gas e.row) = false := by
        apply List.any_eq_false.mpr
        intro u hu
        simp [hb.owns_eq_false (ht.placed e he).acted hu]
      rw [step_owned, hnone, Bool.or_false]
    have hnew : (new.filter fun r => (S.step gas b).owned gas r) = [] := by
      apply List.filter_eq_nil_iff.mpr
      intro r hr howned
      rw [step_owned, Bool.or_eq_true] at howned
      rcases howned with howned | howned
      · obtain ⟨u, hu, howns⟩ := List.any_eq_true.mp howned
        exact hb.ne_of_acted (h.unstakes_acted u hu) (hacted r hr)
          (Unstake.action_index_eq_of_owns howns)
      · obtain ⟨u, hu, howns⟩ := List.any_eq_true.mp howned
        rw [halone u hu r hr] at howns
        exact Bool.noConfusion howns
    have hpaid : ((stamp (S.tip + 1) (new ++ b.payouts gas amount)).filter fun e =>
        (S.step gas b).owned gas e.row).map (·.row.action_index) =
          ((b.payouts gas amount).filter fun r => (S.step gas b).owned gas r).map
            (·.action_index) := by
      simp only [stamp, List.filter_map, List.map_map, Function.comp_def, List.filter_append,
        hnew, List.nil_append]
    rw [List.filter_append, List.map_append, hold, hpaid, List.nodup_append]
    refine ⟨ht.owned_once, ?_, ?_⟩
    · exact ((List.filter_sublist.map _).trans (payouts_action_index amount)).nodup hb.matured_nodup
    · intro i hi j hj heq
      obtain ⟨e, he, rfl⟩ := List.mem_map.mp hi
      obtain ⟨r, hr, rfl⟩ := List.mem_map.mp hj
      obtain ⟨m, hm, x, rfl⟩ := mem_payouts (List.mem_of_mem_filter hr)
      obtain ⟨he, howned⟩ := List.mem_filter.mp he
      exact ht.unpaid h hb hm he howned heq

theorem Debited.step {table : List (Stamped LedgerRow)} (ht : S.Debited table) {new : List LedgerRow}
    (hacted : ∀ r ∈ new, r.action_index ∈ b.actions) :
    (S.step gas b).Debited (table ++ stamp (S.tip + 1) new) where
  written_le := written_le_step ht.written_le
  acted := by
    intro e he
    rcases List.mem_append.mp he with he | he
    · exact (ht.acted e he).step
    · obtain ⟨hrow, hwritten⟩ := mem_stamp.mp he
      exact hwritten ▸ actedAt_of_block (hacted _ hrow)

theorem Emitted.step {table : List (Stamped Emission)} (ht : S.Emitted table) (hb : S.Admits gas b) :
    (S.step gas b).Emitted (table ++ stamp (S.tip + 1) b.emissions) where
  written_le := written_le_step ht.written_le
  executed := by
    intro e he
    rcases List.mem_append.mp he with he | he
    · exact List.mem_append_left _ (ht.executed e he)
    · exact List.mem_append_right _ (hb.emissions_executed _ (mem_stamp.mp he).1)
  acted := by
    intro e he
    rcases List.mem_append.mp he with he | he
    · exact (ht.acted e he).step
    · obtain ⟨hrow, hwritten⟩ := mem_stamp.mp he
      exact hwritten ▸ actedAt_of_block
        (hb.executions_acted _ (hb.emissions_executed _ hrow))

end Step

end Source

end XChainSync.Delivery
