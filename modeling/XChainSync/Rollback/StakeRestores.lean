import XChainSync.Rollback.Stakes

/-!
# The rollback of a rail takes back what orphaned blocks wrote on it

`Rail.Shape` and `Rail.Journaled` hold of the rows and journals at every block. Under them the
statements of the rollback act on each row alone, a write at or above the rollback block leaves what
the rollback makes of the rail as it was, and a rollback above every write changes nothing.
-/

namespace XChainSync.Rollback
set_option autoImplicit false
open UndoJournal

variable {A : Type} {p : Params A} {kind : RailKind} {actions : List (Int × Int)} {h b : Int}
  {first : Option Int} {rail rail' : Rail A}

/-! ### Rows that keep their bond -/

structure Bond.Same (kind : RailKind) (r r' : Bond A) : Prop where
  action_index : r'.action_index = r.action_index
  source_id : r'.source_id = r.source_id
  target_contract_index : r'.target_contract_index = r.target_contract_index
  tick_id : r'.tick_id = r.tick_id
  signing_pubkey_id : kind = .capability → r'.signing_pubkey_id = r.signing_pubkey_id

theorem RailKind.sameBond_congr {s s' u u' : Bond A} (hs : s.Same kind s') (hu : u.Same kind u') :
    kind.sameBond s' u' = kind.sameBond s u := by
  cases kind with
  | capability => simp [sameBond, hs.signing_pubkey_id rfl, hu.signing_pubkey_id rfl]
  | contract =>
    simp [sameBond, hs.source_id, hu.source_id, hs.target_contract_index, hu.target_contract_index,
      hs.tick_id, hu.tick_id]

namespace Rail

@[simp] theorem bonds_mapBonds (f : TargetTable → Bond A → Bond A) (rail : Rail A)
    (target : TargetTable) : (rail.mapBonds f).bonds target = (rail.bonds target).map (f target) := by
  cases target <;> simp [bonds, mapBonds]

@[simp] theorem slash_debits_mapBonds (f : TargetTable → Bond A → Bond A) (rail : Rail A) :
    (rail.mapBonds f).slash_debits = rail.slash_debits := rfl

@[simp] theorem rotations_mapBonds (f : TargetTable → Bond A → Bond A) (rail : Rail A) :
    (rail.mapBonds f).rotations = rail.rotations := rfl

/-! ### Invariants -/

structure Shape (p : Params A) (kind : RailKind) (actions : List (Int × Int)) (h : Int)
    (rail : Rail A) : Prop where
  keys : ∀ target, ((rail.bonds target).map Bond.action_index).Nodup
  stake_known : ∀ s ∈ rail.stakes, ∃ k, (s.action_index, k) ∈ actions
  unstake_known : ∀ u ∈ rail.unstakes, (u.action_index, u.block_index) ∈ actions
  stamped : ∀ s ∈ rail.stakes, ∀ d, s.deactivation_block = some d →
    ∃ u ∈ rail.unstakes, kind.sameBond s.toBond u.toBond = true ∧
      d = u.block_index + p.activationDelay
  stamped_by : ∀ u ∈ rail.unstakes, u.block_index ≤ h
  completed_by : ∀ u ∈ rail.unstakes, u.status = .completed → u.cooldown_end_block ≤ h

structure Journaled (p : Params A) (kind : RailKind) (h : Int) (rail : Rail A) : Prop where
  debits_ordered : (kind.debits p).Ordered rail.slash_debits
  debits_by : ∀ d ∈ rail.slash_debits, d.block_index ≤ h
  debits_row : ∀ d ∈ rail.slash_debits,
    d.stake_action_index ∈ (rail.bonds d.target_table).map Bond.action_index
  /-- Every debit of a contract row took it from more than it is now. -/
  debits_cut : kind = .contract → ∀ d ∈ rail.slash_debits, ∀ r ∈ rail.bonds d.target_table,
    r.action_index = d.stake_action_index → p.cast r.amount < p.cast d.prev_amount
  rotations_ordered : rotationJournal.Ordered rail.rotations
  rotations_by : ∀ r ∈ rail.rotations, r.block_index ≤ h
  rotations_contract : kind = .capability → rail.rotations = []

theorem Shape.later (hs : rail.Shape p kind actions h) {h' : Int} (hle : h ≤ h') :
    rail.Shape p kind actions h' :=
  { hs with
    stamped_by := fun u hu => Int.le_trans (hs.stamped_by u hu) hle
    completed_by := fun u hu hc => Int.le_trans (hs.completed_by u hu hc) hle }

theorem Journaled.later (hj : rail.Journaled p kind h) {h' : Int} (hle : h ≤ h') :
    rail.Journaled p kind h' :=
  { hj with
    debits_by := fun d hd => Int.le_trans (hj.debits_by d hd) hle
    rotations_by := fun r hr => Int.le_trans (hj.rotations_by r hr) hle }

theorem Shape.known (hs : rail.Shape p kind actions h) (a k : Int) :
    rail.Shape p kind (actions ++ [(a, k)]) h :=
  { hs with
    stake_known := fun s hsr =>
      let ⟨i, hi⟩ := hs.stake_known s hsr
      ⟨i, List.mem_append_left _ hi⟩
    unstake_known := fun u hu => List.mem_append_left _ (hs.unstake_known u hu) }

/-! ### The rollback, row by row -/

def restoreBond (p : Params A) (kind : RailKind) (b : Int) (debits : List (SlashDebit A))
    (rotations : List Rotation) (target : TargetTable) (r : Bond A) : Bond A :=
  { r with
    amount := (kind.debits p).restore debits b (target, r.action_index) r.amount
    signing_pubkey_id :=
      rotationJournal.restore rotations b (target, r.action_index) r.signing_pubkey_id }

/-- The row a rollback leaves of a stake. -/
def undoStake (p : Params A) (kind : RailKind) (b : Int) (rail : Rail A) (s : Stake A) : Stake A where
  toBond := restoreBond p kind b rail.slash_debits rail.rotations .stakes s.toBond
  deactivation_block :=
    if atOrAbove (b + p.activationDelay) s.deactivation_block then none else s.deactivation_block

def undoUnstake (p : Params A) (kind : RailKind) (b : Int) (rail : Rail A) (u : Unstake A) :
    Unstake A where
  toBond := restoreBond p kind b rail.slash_debits rail.rotations .unstakes u.toBond
  block_index := u.block_index
  cooldown_end_block := u.cooldown_end_block
  status := if orphanedMaturity b u then .valid else u.status

/-- The stamp of an orphaned unstake is known by its value. -/
theorem Shape.orphanedStamp_eq (hs : rail.Shape p kind actions h) {s : Stake A}
    (hmem : s ∈ rail.stakes) : rail.orphanedStamp p kind b s =
      atOrAbove (b + p.activationDelay) s.deactivation_block := by
  cases hd : s.deactivation_block with
  | none => simp [orphanedStamp, hd]
  | some d =>
    rw [Bool.eq_iff_iff]
    simp only [orphanedStamp, List.any_eq_true, Bool.and_eq_true, decide_eq_true_eq, hd,
      atOrAbove_some, Option.some.injEq]
    constructor
    · rintro ⟨u, -, ⟨-, hb⟩, rfl⟩
      omega
    · intro hle
      obtain ⟨u, hu, hbond, rfl⟩ := hs.stamped s hmem d hd
      exact ⟨u, hu, ⟨hbond, by omega⟩, rfl⟩

theorem orphanedStamp_mapBonds {f : TargetTable → Bond A → Bond A}
    (hf : ∀ t r, Bond.Same kind r (f t r)) (s : Stake A) :
    (rail.mapBonds f).orphanedStamp p kind b { s with toBond := f .stakes s.toBond } =
      rail.orphanedStamp p kind b s := by
  simp only [orphanedStamp, mapBonds, List.any_map]
  congr 1
  funext u
  simp [RailKind.sameBond_congr (hf .stakes s.toBond) (hf .unstakes u.toBond)]

theorem mapBonds_mapBonds (f g : TargetTable → Bond A → Bond A) (rail : Rail A) :
    (rail.mapBonds f).mapBonds g = rail.mapBonds fun t r => g t (f t r) := by
  simp [mapBonds, Function.comp_def]

theorem restoreBond_same (debits : List (SlashDebit A)) (rotations : List Rotation)
    (hrot : kind = .capability → rotations = []) (target : TargetTable) (r : Bond A) :
    Bond.Same kind r (restoreBond p kind b debits rotations target r) where
  action_index := rfl
  source_id := rfl
  target_contract_index := rfl
  tick_id := rfl
  signing_pubkey_id hk := by
    rw [hrot hk]
    rfl

/-- Amounts and keys are restored from their journals row by row. -/
theorem restore_eq (hrot : kind = .capability → rail.rotations = []) :
    rail.restore p b kind =
      (rail.mapBonds (restoreBond p kind b rail.slash_debits rail.rotations)).resetDeactivations p
        kind b := by
  cases kind with
  | capability =>
    have hkeys : restoreBond p .capability b rail.slash_debits rail.rotations = fun target r =>
        { r with
          amount := (RailKind.debits p .capability).restore rail.slash_debits b
            (target, r.action_index) r.amount } := by
      rw [hrot rfl]
      rfl
    rw [hkeys]
    rfl
  | contract =>
    simp only [restore, restoreSlashAmounts, restoreRotatedKeys, mapBonds_mapBonds]
    rfl

theorem rollback_eq (hs : rail.Shape p kind actions h) (hj : rail.Journaled p kind h) :
    rail.rollback p first b kind =
      { stakes := (rail.stakes.map (rail.undoStake p kind b)).filter
          (survives first ·.action_index)
        unstakes := (rail.unstakes.map (rail.undoUnstake p kind b)).filter
          (survives first ·.action_index)
        slash_debits := rail.slash_debits.filter (·.block_index < b)
        rotations := rail.rotations.filter (·.block_index < b) } := by
  have hsame : ∀ t r, Bond.Same kind r
      (restoreBond p kind b rail.slash_debits rail.rotations t r) :=
    restoreBond_same rail.slash_debits rail.rotations hj.rotations_contract
  rw [rollback, restore_eq hj.rotations_contract]
  have hstakes : ((rail.mapBonds (restoreBond p kind b rail.slash_debits
      rail.rotations)).resetDeactivations p kind b).stakes =
        rail.stakes.map (rail.undoStake p kind b) := by
    have hrows : (rail.mapBonds (restoreBond p kind b rail.slash_debits rail.rotations)).stakes =
        rail.stakes.map fun s => { s with
          toBond := restoreBond p kind b rail.slash_debits rail.rotations .stakes s.toBond } := rfl
    simp only [resetDeactivations, hrows, List.map_map]
    apply List.map_congr_left
    intro s hmem
    simp only [Function.comp, orphanedStamp_mapBonds hsame, hs.orphanedStamp_eq hmem, undoStake]
    split <;> rfl
  have hunstakes : ((rail.mapBonds (restoreBond p kind b rail.slash_debits
      rail.rotations)).reopenUnstakes b).unstakes =
        rail.unstakes.map (rail.undoUnstake p kind b) := by
    simp only [reopenUnstakes, mapBonds, List.map_map]
    apply List.map_congr_left
    intro u _
    by_cases hm : orphanedMaturity b u = true
    · simp only [undoUnstake, hm, if_true]
      exact if_pos hm
    · simp only [undoUnstake, hm]
      exact if_neg hm
  simp only [deleteOrphaned, mk.injEq]
  refine ⟨?_, ?_, rfl, rfl⟩
  · exact congrArg _ hstakes
  · exact congrArg _ hunstakes

/-! ### Writes keep the invariants -/

theorem mem_of_find {target : TargetTable} {key : Int} {r : Bond A}
    (hfind : rail.find target key = some r) : r ∈ rail.bonds target ∧ r.action_index = key :=
  ⟨List.mem_of_find?_eq_some hfind, by simpa using List.find?_some hfind⟩

theorem Shape.unique (hs : rail.Shape p kind actions h) {target : TargetTable} {r r' : Bond A}
    (hr : r ∈ rail.bonds target) (hr' : r' ∈ rail.bonds target)
    (heq : r.action_index = r'.action_index) : r = r' :=
  List.inj_on_of_nodup_map (hs.keys target) hr hr' heq

theorem bonds_congr (hstakes : rail'.stakes = rail.stakes) (hunstakes : rail'.unstakes = rail.unstakes)
    (target : TargetTable) : rail'.bonds target = rail.bonds target := by
  cases target <;> simp [bonds, hstakes, hunstakes]

theorem Shape.mapBonds (hs : rail.Shape p kind actions h) {f : TargetTable → Bond A → Bond A}
    (hf : ∀ t r, Bond.Same kind r (f t r)) (hstakes : rail'.stakes = (rail.mapBonds f).stakes)
    (hunstakes : rail'.unstakes = (rail.mapBonds f).unstakes) : rail'.Shape p kind actions h where
  keys target := by
    rw [bonds_congr hstakes hunstakes, bonds_mapBonds, List.map_map]
    have hkeys : Bond.action_index ∘ f target = Bond.action_index :=
      funext fun r => (hf target r).action_index
    rw [hkeys]
    exact hs.keys target
  stake_known s' hs' := by
    rw [hstakes] at hs'
    obtain ⟨s, hmem, rfl⟩ := List.mem_map.mp hs'
    simp only [(hf .stakes s.toBond).action_index]
    exact hs.stake_known s hmem
  unstake_known u' hu' := by
    rw [hunstakes] at hu'
    obtain ⟨u, hmem, rfl⟩ := List.mem_map.mp hu'
    simp only [(hf .unstakes u.toBond).action_index]
    exact hs.unstake_known u hmem
  stamped s' hs' d hd := by
    rw [hstakes] at hs'
    obtain ⟨s, hmem, rfl⟩ := List.mem_map.mp hs'
    obtain ⟨u, hu, hbond, rfl⟩ := hs.stamped s hmem d hd
    refine ⟨{ u with toBond := f .unstakes u.toBond }, ?_, ?_, rfl⟩
    · rw [hunstakes]
      exact List.mem_map.mpr ⟨u, hu, rfl⟩
    · rw [RailKind.sameBond_congr (hf .stakes s.toBond) (hf .unstakes u.toBond)]
      exact hbond
  stamped_by u' hu' := by
    rw [hunstakes] at hu'
    obtain ⟨u, hmem, rfl⟩ := List.mem_map.mp hu'
    exact hs.stamped_by u hmem
  completed_by u' hu' hc := by
    rw [hunstakes] at hu'
    obtain ⟨u, hmem, rfl⟩ := List.mem_map.mp hu'
    exact hs.completed_by u hmem hc

theorem before_irrefl (d : SlashDebit A) : kind.before p d d = false := by
  cases kind <;> simp [RailKind.before]

theorem before_asymm {e d : SlashDebit A} (hed : kind.before p e d = true) :
    kind.before p d e = false := by
  cases kind with
  | capability =>
    simp only [RailKind.before, Bool.or_eq_true, Bool.and_eq_true, decide_eq_true_eq,
      Bool.or_eq_false_iff, Bool.and_eq_false_imp, decide_eq_false_iff_not] at hed ⊢
    omega
  | contract =>
    simp only [RailKind.before, Bool.or_eq_true, Bool.and_eq_true, decide_eq_true_eq] at hed
    rw [Bool.eq_false_iff]
    simp only [RailKind.before, ne_eq, Bool.or_eq_true, Bool.and_eq_true, decide_eq_true_eq]
    rintro (hlt | ⟨heq, hpos⟩)
    · rcases hed with hlt' | ⟨heq', -⟩
      · exact absurd hlt' (lt_asymm hlt)
      · exact absurd heq' (ne_of_lt hlt)
    · rcases hed with hlt' | ⟨-, hpos'⟩
      · exact absurd heq (ne_of_lt hlt')
      · omega

/-- A debit that the rail allows comes after the debits its row has. -/
theorem Journaled.debits_concat (hj : rail.Journaled p kind h) {target : TargetTable} {r : Bond A}
    (hr : r ∈ rail.bonds target) {amount : A} {place : SlashPlace}
    (hok : rail.slashable p kind r amount (slashDebit target place h r) = true) :
    (kind.debits p).Ordered (rail.slash_debits ++ [slashDebit target place h r]) := by
  refine hj.debits_ordered.concat (before_irrefl _) fun e he hkey => ?_
  have hbefore : kind.before p e (slashDebit target place h r) = true := by
    cases kind with
    | capability =>
      simp only [slashable, List.all_eq_true, Bool.or_eq_true, decide_eq_true_eq] at hok
      exact (hok e he).resolve_left (fun hne => hne hkey)
    | contract =>
      simp only [RailKind.debits, slashDebit, Prod.mk.injEq] at hkey
      obtain ⟨rfl, hrow⟩ := hkey
      have := hj.debits_cut rfl e he r hr hrow.symm
      simp [RailKind.before, slashDebit, this]
  exact ⟨hbefore, before_asymm hbefore⟩

def modified (target : TargetTable) (key : Int) (f : Bond A → Bond A) (t : TargetTable)
    (r : Bond A) : Bond A :=
  if t = target && r.action_index = key then f r else r

theorem modified_same {target : TargetTable} {key : Int} {f : Bond A → Bond A}
    (hf : ∀ r, Bond.Same kind r (f r)) (t : TargetTable) (r : Bond A) :
    Bond.Same kind r (modified target key f t r) := by
  unfold modified
  split
  · exact hf r
  · exact ⟨rfl, rfl, rfl, rfl, fun _ => rfl⟩

theorem modified_action_index {target : TargetTable} {key : Int} {f : Bond A → Bond A}
    (hf : ∀ r, (f r).action_index = r.action_index) (t : TargetTable) (r : Bond A) :
    (modified target key f t r).action_index = r.action_index := by
  unfold modified
  split
  · exact hf r
  · rfl

/-- Rows of `rail'` are those of `rail`, changed under one key of one table. -/
structure Modified (target : TargetTable) (key : Int) (f : Bond A → Bond A) (rail rail' : Rail A) :
    Prop where
  stakes : rail'.stakes = (rail.mapBonds (modified target key f)).stakes
  unstakes : rail'.unstakes = (rail.mapBonds (modified target key f)).unstakes

theorem Modified.bonds {target : TargetTable} {key : Int} {f : Bond A → Bond A}
    (hm : Modified target key f rail rail') (t : TargetTable) :
    rail'.bonds t = (rail.bonds t).map (modified target key f t) := by
  rw [bonds_congr hm.stakes hm.unstakes, bonds_mapBonds]

theorem Modified.keys {target : TargetTable} {key : Int} {f : Bond A → Bond A}
    (hm : Modified target key f rail rail') (hf : ∀ r, (f r).action_index = r.action_index)
    (t : TargetTable) :
    (rail'.bonds t).map Bond.action_index = (rail.bonds t).map Bond.action_index := by
  rw [hm.bonds, List.map_map]
  apply List.map_congr_left
  intro r _
  exact modified_action_index hf t r

theorem Shape.modified (hs : rail.Shape p kind actions h) {target : TargetTable} {key : Int}
    {f : Bond A → Bond A} (hm : Modified target key f rail rail')
    (hf : ∀ r, Bond.Same kind r (f r)) : rail'.Shape p kind actions h :=
  hs.mapBonds (modified_same hf) hm.stakes hm.unstakes

theorem slash_cases {target : TargetTable} {key : Int} {amount : A} {place : SlashPlace}
    (hslash : rail.slash p kind h target key amount place = some rail') :
    ∃ r ∈ rail.bonds target, r.action_index = key ∧
      rail.slashable p kind r amount (slashDebit target place h r) = true ∧
      Modified target r.action_index (fun r => { r with amount := amount }) rail rail' ∧
      rail'.slash_debits = rail.slash_debits ++ [slashDebit target place h r] ∧
      rail'.rotations = rail.rotations := by
  obtain ⟨r, hfind, hsome⟩ := Option.bind_eq_some_iff.mp hslash
  obtain ⟨hr, rfl⟩ := mem_of_find hfind
  dsimp only at hsome
  split at hsome
  · rename_i hok
    obtain rfl := Option.some.inj hsome
    exact ⟨r, hr, rfl, hok, ⟨rfl, rfl⟩, rfl, rfl⟩
  · simp at hsome

theorem rotate_cases {target : TargetTable} {key delegation signing : Int}
    (hrotate : rail.rotate kind h target key delegation signing = some rail') :
    ∃ r ∈ rail.bonds target, r.action_index = key ∧ kind = .contract ∧
      (∀ e ∈ rail.rotations, e.target_table = target ∧ e.stake_action_index = r.action_index →
        rotationJournal.before e ⟨target, r.action_index, h, delegation, r.signing_pubkey_id⟩ = true) ∧
      Modified target r.action_index (fun r => { r with signing_pubkey_id := signing }) rail rail' ∧
      rail'.slash_debits = rail.slash_debits ∧
      rail'.rotations =
        rail.rotations ++ [⟨target, r.action_index, h, delegation, r.signing_pubkey_id⟩] := by
  obtain ⟨r, hfind, hsome⟩ := Option.bind_eq_some_iff.mp hrotate
  obtain ⟨hr, rfl⟩ := mem_of_find hfind
  dsimp only at hsome
  split at hsome
  · rename_i hok
    obtain rfl := Option.some.inj hsome
    simp only [Bool.and_eq_true, decide_eq_true_eq, List.all_eq_true, Bool.or_eq_true] at hok
    refine ⟨r, hr, rfl, hok.1, ?_, ⟨rfl, rfl⟩, rfl, rfl⟩
    intro e he hkey
    refine (hok.2 e he).resolve_left fun hne => hne ?_
    simpa [rotationJournal] using hkey
  · simp at hsome

theorem Journaled.slash (hs : rail.Shape p kind actions h) (hj : rail.Journaled p kind h)
    {target : TargetTable} {r : Bond A} (hr : r ∈ rail.bonds target) {amount : A}
    {place : SlashPlace}
    (hok : rail.slashable p kind r amount (slashDebit target place h r) = true)
    (hm : Modified target r.action_index (fun r => { r with amount := amount }) rail rail')
    (hdebits : rail'.slash_debits = rail.slash_debits ++ [slashDebit target place h r])
    (hrotations : rail'.rotations = rail.rotations) : rail'.Journaled p kind h := by
  refine ⟨hdebits ▸ hj.debits_concat hr hok, ?_, ?_, ?_, hrotations ▸ hj.rotations_ordered,
    hrotations ▸ hj.rotations_by, hrotations ▸ hj.rotations_contract⟩ <;> rw [hdebits]
  · intro d hd
    rcases List.mem_append.mp hd with hd | hd
    · exact hj.debits_by d hd
    · rw [List.mem_singleton.mp hd]
      exact Int.le_refl h
  · intro d hd
    rw [hm.keys fun _ => rfl]
    rcases List.mem_append.mp hd with hd | hd
    · exact hj.debits_row d hd
    · rw [List.mem_singleton.mp hd]
      exact List.mem_map.mpr ⟨r, hr, rfl⟩
  · intro hk d hd r' hr' hrow
    rw [hm.bonds] at hr'
    obtain ⟨r₀, hr₀, rfl⟩ := List.mem_map.mp hr'
    have hcut : p.cast amount < p.cast r.amount := by
      subst hk
      simpa [slashable] using hok
    by_cases hthis : d.target_table = target ∧ r₀.action_index = r.action_index
    · -- the slashed row: its new amount is below the one it had
      obtain ⟨rfl, hkey⟩ := hthis
      obtain rfl := hs.unique hr₀ hr hkey
      simp only [modified, decide_true, Bool.and_self, if_true] at hrow ⊢
      rcases List.mem_append.mp hd with hd | hd
      · exact lt_trans hcut (hj.debits_cut hk d hd r₀ hr hrow)
      · rw [List.mem_singleton.mp hd]
        exact hcut
    · have hsame : modified target r.action_index (fun r => { r with amount := amount })
          d.target_table r₀ = r₀ := by
        refine if_neg ?_
        simpa using hthis
      rw [hsame] at hrow ⊢
      rcases List.mem_append.mp hd with hd | hd
      · exact hj.debits_cut hk d hd r₀ hr₀ hrow
      · rw [List.mem_singleton.mp hd] at hthis hrow
        exact absurd ⟨rfl, hrow⟩ hthis

theorem Journaled.rotate (hj : rail.Journaled p kind h) (hk : kind = .contract)
    {target : TargetTable} {r : Bond A} {delegation signing : Int}
    (hafter : ∀ e ∈ rail.rotations, e.target_table = target ∧ e.stake_action_index = r.action_index →
      rotationJournal.before e ⟨target, r.action_index, h, delegation, r.signing_pubkey_id⟩ = true)
    (hm : Modified target r.action_index (fun r => { r with signing_pubkey_id := signing }) rail rail')
    (hdebits : rail'.slash_debits = rail.slash_debits)
    (hrotations : rail'.rotations =
      rail.rotations ++ [⟨target, r.action_index, h, delegation, r.signing_pubkey_id⟩]) :
    rail'.Journaled p kind h where
  debits_ordered := hdebits ▸ hj.debits_ordered
  debits_by := hdebits ▸ hj.debits_by
  debits_row d hd := by
    rw [hm.keys fun _ => rfl]
    exact hj.debits_row d (hdebits ▸ hd)
  debits_cut hk d hd r' hr' hrow := by
    rw [hm.bonds] at hr'
    obtain ⟨r₀, hr₀, rfl⟩ := List.mem_map.mp hr'
    have hamount : (modified target r.action_index (fun r => { r with signing_pubkey_id := signing })
        d.target_table r₀).amount = r₀.amount := by
      unfold modified
      split <;> rfl
    rw [hamount]
    rw [modified_action_index] at hrow
    · exact hj.debits_cut hk d (hdebits ▸ hd) r₀ hr₀ hrow
    · exact fun _ => rfl
  rotations_ordered := by
    rw [hrotations]
    refine hj.rotations_ordered.concat (by simp [rotationJournal]) fun e he hkey => ?_
    have hbefore := hafter e he (by simpa [rotationJournal] using hkey)
    refine ⟨hbefore, ?_⟩
    simp only [rotationJournal, Bool.or_eq_true, Bool.and_eq_true, decide_eq_true_eq,
      Bool.or_eq_false_iff, Bool.and_eq_false_imp, decide_eq_false_iff_not] at hbefore ⊢
    omega
  rotations_by e he := by
    rw [hrotations] at he
    rcases List.mem_append.mp he with he | he
    · exact hj.rotations_by e he
    · rw [List.mem_singleton.mp he]
  rotations_contract hcap := by simp [hk] at hcap

/-! ### A rollback and a write at or above its block -/

/-- Writes that only touch bonds and journals, undone bond by bond. -/
theorem rollback_modified (hs : rail.Shape p kind actions h) (hj : rail.Journaled p kind h)
    (hs' : rail'.Shape p kind actions h) (hj' : rail'.Journaled p kind h) {target : TargetTable}
    {key : Int} {f : Bond A → Bond A} (hm : Modified target key f rail rail')
    (hrestore : ∀ t, ∀ r ∈ rail.bonds t,
      restoreBond p kind b rail'.slash_debits rail'.rotations t (modified target key f t r) =
        restoreBond p kind b rail.slash_debits rail.rotations t r)
    (hdebits : rail'.slash_debits.filter (·.block_index < b) =
      rail.slash_debits.filter (·.block_index < b))
    (hrotations : rail'.rotations.filter (·.block_index < b) =
      rail.rotations.filter (·.block_index < b)) :
    rail'.rollback p first b kind = rail.rollback p first b kind := by
  have hstakes : rail'.stakes.map (rail'.undoStake p kind b) =
      rail.stakes.map (rail.undoStake p kind b) := by
    rw [hm.stakes]
    simp only [mapBonds, List.map_map]
    apply List.map_congr_left
    intro s hmem
    simp only [Function.comp, undoStake, hrestore .stakes s.toBond (List.mem_map_of_mem hmem)]
  have hunstakes : rail'.unstakes.map (rail'.undoUnstake p kind b) =
      rail.unstakes.map (rail.undoUnstake p kind b) := by
    rw [hm.unstakes]
    simp only [mapBonds, List.map_map]
    apply List.map_congr_left
    intro u hmem
    simp only [Function.comp, undoUnstake, orphanedMaturity,
      hrestore .unstakes u.toBond (List.mem_map_of_mem hmem)]
    rfl
  rw [rollback_eq hs hj, rollback_eq hs' hj', hstakes, hunstakes, hdebits, hrotations]

theorem filter_concat_orphaned {E : Type} {block : E → Int} {entries : List E} {e : E}
    (hb : b ≤ block e) : (entries ++ [e]).filter (block · < b) = entries.filter (block · < b) := by
  have hnot : ¬ block e < b := by omega
  simp [hnot]

theorem restoreBond_slash (hs : rail.Shape p kind actions h) (hj : rail.Journaled p kind h)
    {target : TargetTable} {r : Bond A} (hr : r ∈ rail.bonds target) {amount : A}
    {place : SlashPlace}
    (hok : rail.slashable p kind r amount (slashDebit target place h r) = true) (hb : b ≤ h)
    (rotations : List Rotation) (t : TargetTable) (r₀ : Bond A) (hr₀ : r₀ ∈ rail.bonds t) :
    restoreBond p kind b (rail.slash_debits ++ [slashDebit target place h r]) rotations t
        (modified target r.action_index (fun r => { r with amount := amount }) t r₀) =
      restoreBond p kind b rail.slash_debits rotations t r₀ := by
  have hordered := hj.debits_concat hr hok
  by_cases hthis : t = target ∧ r₀.action_index = r.action_index
  · obtain ⟨rfl, hkey⟩ := hthis
    obtain rfl := hs.unique hr₀ hr hkey
    have hrestored := Journal.restore_rewrite (k := (t, r₀.action_index)) hordered rfl hb amount
    simp only [modified, decide_true, Bool.and_self, if_true, restoreBond, hrestored]
    rfl
  · have hsame : modified target r.action_index (fun r => { r with amount := amount }) t r₀ = r₀ := by
      refine if_neg ?_
      simpa using hthis
    rw [hsame]
    simp only [restoreBond]
    rw [Journal.restore_other hordered]
    intro hkey
    simp only [RailKind.debits, slashDebit, Prod.mk.injEq] at hkey
    exact hthis ⟨hkey.1.symm, hkey.2.symm⟩

theorem restoreBond_rotate (hs : rail.Shape p kind actions h) {target : TargetTable} {r : Bond A}
    (hr : r ∈ rail.bonds target) {delegation signing : Int}
    (hordered : rotationJournal.Ordered
      (rail.rotations ++ [⟨target, r.action_index, h, delegation, r.signing_pubkey_id⟩]))
    (hb : b ≤ h) (debits : List (SlashDebit A)) (t : TargetTable) (r₀ : Bond A)
    (hr₀ : r₀ ∈ rail.bonds t) :
    restoreBond p kind b debits
        (rail.rotations ++ [⟨target, r.action_index, h, delegation, r.signing_pubkey_id⟩]) t
        (modified target r.action_index (fun r => { r with signing_pubkey_id := signing }) t r₀) =
      restoreBond p kind b debits rail.rotations t r₀ := by
  by_cases hthis : t = target ∧ r₀.action_index = r.action_index
  · obtain ⟨rfl, hkey⟩ := hthis
    obtain rfl := hs.unique hr₀ hr hkey
    have hrestored := Journal.restore_rewrite (k := (t, r₀.action_index)) hordered rfl hb signing
    simp only [modified, decide_true, Bool.and_self, if_true, restoreBond, hrestored]
    rfl
  · have hsame : modified target r.action_index (fun r => { r with signing_pubkey_id := signing }) t
        r₀ = r₀ := by
      refine if_neg ?_
      simpa using hthis
    rw [hsame]
    simp only [restoreBond]
    rw [Journal.restore_other hordered]
    intro hkey
    simp only [rotationJournal, Prod.mk.injEq] at hkey
    exact hthis ⟨hkey.1.symm, hkey.2.symm⟩

/-! ### Rows added, stamped and completed -/

theorem not_mem_keys {target : TargetTable} {key : Int}
    (hfind : (rail.find target key).isNone = true) :
    key ∉ (rail.bonds target).map Bond.action_index := by
  intro hmem
  obtain ⟨r, hr, hkey⟩ := List.mem_map.mp hmem
  have hnone := List.find?_eq_none.mp (Option.isNone_iff_eq_none.mp hfind) r hr
  simp [hkey] at hnone

/-- Rows of `rail'` are those of `rail` and new ones under new keys. -/
def Grown (rail rail' : Rail A) : Prop :=
  ∀ t, ∃ new, rail'.bonds t = rail.bonds t ++ new ∧ (new.map Bond.action_index).Nodup ∧
    ∀ r ∈ new, r.action_index ∉ (rail.bonds t).map Bond.action_index

theorem Grown.keys (hg : Grown rail rail') (hs : rail.Shape p kind actions h) (t : TargetTable) :
    ((rail'.bonds t).map Bond.action_index).Nodup := by
  obtain ⟨new, hbonds, hnodup, hfresh⟩ := hg t
  rw [hbonds, List.map_append]
  refine List.nodup_append.mpr ⟨hs.keys t, hnodup, ?_⟩
  rintro a ha a' ha' rfl
  obtain ⟨r, hr, rfl⟩ := List.mem_map.mp ha'
  exact hfresh r hr ha

theorem Journaled.grown (hj : rail.Journaled p kind h) (hg : Grown rail rail')
    (hdebits : rail'.slash_debits = rail.slash_debits) (hrotations : rail'.rotations = rail.rotations) :
    rail'.Journaled p kind h where
  debits_ordered := hdebits ▸ hj.debits_ordered
  debits_by := hdebits ▸ hj.debits_by
  debits_row d hd := by
    obtain ⟨new, hbonds, -⟩ := hg d.target_table
    rw [hbonds, List.map_append]
    exact List.mem_append_left _ (hj.debits_row d (hdebits ▸ hd))
  debits_cut hk d hd r hr hrow := by
    obtain ⟨new, hbonds, -, hfresh⟩ := hg d.target_table
    rw [hbonds] at hr
    rcases List.mem_append.mp hr with hr | hr
    · exact hj.debits_cut hk d (hdebits ▸ hd) r hr hrow
    · exact absurd (hrow ▸ hj.debits_row d (hdebits ▸ hd)) (hfresh r hr)
  rotations_ordered := hrotations ▸ hj.rotations_ordered
  rotations_by := hrotations ▸ hj.rotations_by
  rotations_contract := hrotations ▸ hj.rotations_contract

/-- An action index divides rows as its block does. -/
def SplitsAt (actions : List (Int × Int)) (first : Option Int) (b : Int) : Prop :=
  ∀ a k, (a, k) ∈ actions → (survives first a = true ↔ k < b)

theorem SplitsAt.dropped (hsplit : SplitsAt actions first b) {a k : Int} (hk : (a, k) ∈ actions)
    (hb : b ≤ k) : survives first a = false := by
  rw [Bool.eq_false_iff]
  intro hsurvives
  have := (hsplit a k hk).mp hsurvives
  omega

theorem filter_concat_dropped {R : Type} {key : R → Int} {rows : List R} {r : R}
    (hdropped : survives first (key r) = false) :
    (rows ++ [r]).filter (survives first <| key ·) = rows.filter (survives first <| key ·) := by
  simp [hdropped]

structure WF (p : Params A) (kind : RailKind) (actions : List (Int × Int)) (h : Int)
    (rail : Rail A) : Prop where
  shape : rail.Shape p kind actions h
  journaled : rail.Journaled p kind h

theorem wf_slash (hwf : rail.WF p kind actions h) {target : TargetTable} {key : Int} {amount : A}
    {place : SlashPlace} (hslash : rail.slash p kind h target key amount place = some rail') :
    rail'.WF p kind actions h ∧
      ∀ b ≤ h, rail'.rollback p first b kind = rail.rollback p first b kind := by
  obtain ⟨r, hr, rfl, hok, hm, hdebits, hrotations⟩ := slash_cases hslash
  have hs' : rail'.Shape p kind actions h :=
    hwf.shape.modified hm fun _ => ⟨rfl, rfl, rfl, rfl, fun _ => rfl⟩
  have hj' := hwf.journaled.slash hwf.shape hr hok hm hdebits hrotations
  refine ⟨⟨hs', hj'⟩, fun b hb => ?_⟩
  apply rollback_modified hwf.shape hwf.journaled hs' hj' hm
  · rw [hdebits, hrotations]
    exact restoreBond_slash hwf.shape hwf.journaled hr hok hb rail.rotations
  · rw [hdebits]
    exact filter_concat_orphaned hb
  · rw [hrotations]

theorem wf_rotate (hwf : rail.WF p kind actions h) {target : TargetTable}
    {key delegation signing : Int}
    (hrotate : rail.rotate kind h target key delegation signing = some rail') :
    rail'.WF p kind actions h ∧
      ∀ b ≤ h, rail'.rollback p first b kind = rail.rollback p first b kind := by
  obtain ⟨r, hr, rfl, hk, hafter, hm, hdebits, hrotations⟩ := rotate_cases hrotate
  have hs' : rail'.Shape p kind actions h :=
    hwf.shape.modified hm fun _ => ⟨rfl, rfl, rfl, rfl, by simp [hk]⟩
  have hj' := hwf.journaled.rotate hk hafter hm hdebits hrotations
  refine ⟨⟨hs', hj'⟩, fun b hb => ?_⟩
  apply rollback_modified hwf.shape hwf.journaled hs' hj' hm
  · rw [hdebits, hrotations]
    exact restoreBond_rotate hwf.shape hr (hrotations ▸ hj'.rotations_ordered) hb rail.slash_debits
  · rw [hdebits]
  · rw [hrotations]
    exact filter_concat_orphaned hb

theorem wf_stake (hwf : rail.WF p kind actions h) {s : Stake A}
    (happly : rail.apply p kind actions h (.stake s) = some rail') :
    rail'.WF p kind actions h ∧
      ∀ b ≤ h, SplitsAt actions first b →
        rail'.rollback p first b kind = rail.rollback p first b kind := by
  simp only [apply] at happly
  split at happly
  · rename_i hguard
    obtain ⟨hknown, hactive, hfresh⟩ := hguard
    obtain rfl := Option.some.inj happly
    have hgrown : Grown rail { rail with stakes := rail.stakes ++ [s] } := by
      intro t
      cases t with
      | stakes => exact ⟨[s.toBond], by simp [bonds], by simp, by simpa using not_mem_keys hfresh⟩
      | unstakes => exact ⟨[], by simp [bonds], by simp, by simp⟩
    have hs' : Shape p kind actions h { rail with stakes := rail.stakes ++ [s] } :=
      { hwf.shape with
        keys := hgrown.keys hwf.shape
        stake_known := by
          intro s' hs'
          rcases List.mem_append.mp hs' with hs' | hs'
          · exact hwf.shape.stake_known s' hs'
          · rw [List.mem_singleton.mp hs']
            exact ⟨h, hknown⟩
        stamped := by
          intro s' hs' d hd
          rcases List.mem_append.mp hs' with hs' | hs'
          · exact hwf.shape.stamped s' hs' d hd
          · rw [List.mem_singleton.mp hs', hactive] at hd
            simp at hd }
    have hj' := hwf.journaled.grown hgrown rfl rfl
    refine ⟨⟨hs', hj'⟩, fun b hb hsplit => ?_⟩
    rw [rollback_eq hwf.shape hwf.journaled, rollback_eq hs' hj']
    simp only [mk.injEq, and_true, List.map_append, List.map_cons, List.map_nil]
    refine ⟨filter_concat_dropped ?_, rfl⟩
    exact hsplit.dropped hknown hb
  · simp at happly

theorem toBond_stampRow (stamped : List Int) (s : Stake A) :
    (stampRow p h stamped s).toBond = s.toBond := by
  unfold stampRow
  split <;> rfl

theorem unstake_cases {u : Unstake A} {stamped : List Int}
    (happly : rail.apply p kind actions h (.unstake u stamped) = some rail') :
    (u.action_index, h) ∈ actions ∧ u.block_index = h ∧ u.status = .valid ∧
      (rail.find .unstakes u.action_index).isNone = true ∧
      (∀ s ∈ rail.stakes, s.action_index ∈ stamped →
        kind.sameBond s.toBond u.toBond = true ∧ s.deactivation_block = none) ∧
      rail' = { rail with
        stakes := rail.stakes.map (stampRow p h stamped), unstakes := rail.unstakes ++ [u] } := by
  simp only [apply] at happly
  split at happly
  · rename_i hguard
    obtain ⟨hknown, hblock, hvalid, hfresh⟩ := hguard
    unfold stamp at happly
    split at happly
    · rename_i hstamp
      simp only [List.all_eq_true, Bool.or_eq_true, decide_eq_true_eq, Bool.and_eq_true,
        Option.isNone_iff_eq_none] at hstamp
      exact ⟨hknown, hblock, hvalid, hfresh,
        fun s hs hin => (hstamp s hs).resolve_left fun hnot => hnot hin, (Option.some.inj happly).symm⟩
    · simp at happly
  · simp at happly

theorem Shape.unstake (hs : rail.Shape p kind actions h) {u : Unstake A} {stamped : List Int}
    (hknown : (u.action_index, h) ∈ actions) (hblock : u.block_index = h) (hvalid : u.status = .valid)
    (hstamp : ∀ s ∈ rail.stakes, s.action_index ∈ stamped →
      kind.sameBond s.toBond u.toBond = true ∧ s.deactivation_block = none)
    (hstakes : rail'.stakes = rail.stakes.map (stampRow p h stamped))
    (hunstakes : rail'.unstakes = rail.unstakes ++ [u]) (hgrown : Grown rail rail') :
    rail'.Shape p kind actions h := by
  have hsplit : ∀ u' ∈ rail'.unstakes, u' ∈ rail.unstakes ∨ u' = u := by
    intro u' hu'
    rw [hunstakes] at hu'
    simpa using hu'
  have hrow : ∀ s' ∈ rail'.stakes, ∃ s ∈ rail.stakes, stampRow p h stamped s = s' := by
    intro s' hs'
    rw [hstakes] at hs'
    exact List.mem_map.mp hs'
  refine ⟨hgrown.keys hs, ?_, ?_, ?_, ?_, ?_⟩
  · intro s' hs'
    obtain ⟨s, hmem, rfl⟩ := hrow s' hs'
    rw [toBond_stampRow]
    exact hs.stake_known s hmem
  · intro u' hu'
    rcases hsplit u' hu' with hu' | rfl
    · exact hs.unstake_known u' hu'
    · rw [hblock]
      exact hknown
  · intro s' hs' d hd
    obtain ⟨s, hmem, rfl⟩ := hrow s' hs'
    rw [toBond_stampRow, hunstakes]
    unfold stampRow at hd
    split at hd
    · rename_i hin
      obtain rfl := Option.some.inj hd
      exact ⟨u, List.mem_append_right _ (List.mem_singleton.mpr rfl), (hstamp s hmem hin).1,
        by rw [hblock]⟩
    · obtain ⟨u', hu', hrest⟩ := hs.stamped s hmem d hd
      exact ⟨u', List.mem_append_left _ hu', hrest⟩
  · intro u' hu'
    rcases hsplit u' hu' with hu' | rfl
    · exact hs.stamped_by u' hu'
    · omega
  · intro u' hu' hc
    rcases hsplit u' hu' with hu' | rfl
    · exact hs.completed_by u' hu' hc
    · simp [hvalid] at hc

theorem wf_unstake (hwf : rail.WF p kind actions h) {u : Unstake A} {stamped : List Int}
    (happly : rail.apply p kind actions h (.unstake u stamped) = some rail') :
    rail'.WF p kind actions h ∧
      ∀ b ≤ h, SplitsAt actions first b →
        rail'.rollback p first b kind = rail.rollback p first b kind := by
  obtain ⟨hknown, hblock, hvalid, hfresh, hstamp, rfl⟩ := unstake_cases happly
  have hgrown : Grown rail { rail with
      stakes := rail.stakes.map (stampRow p h stamped), unstakes := rail.unstakes ++ [u] } := by
    intro t
    cases t with
    | stakes => exact ⟨[], by simp [bonds, Function.comp_def, toBond_stampRow], by simp, by simp⟩
    | unstakes => exact ⟨[u.toBond], by simp [bonds], by simp, by simpa using not_mem_keys hfresh⟩
  have hs' := hwf.shape.unstake hknown hblock hvalid hstamp rfl rfl hgrown
  have hj' := hwf.journaled.grown hgrown rfl rfl
  refine ⟨⟨hs', hj'⟩, fun b hb hsplit => ?_⟩
  rw [rollback_eq hwf.shape hwf.journaled, rollback_eq hs' hj']
  simp only [mk.injEq, and_true, List.map_append, List.map_cons, List.map_nil, List.map_map]
  constructor
  · congr 1
    apply List.map_congr_left
    intro s hs
    simp only [Function.comp, stampRow]
    split
    · -- a stamp of this block is at or above the threshold, and the row had none
      rename_i hin
      have hle : b + p.activationDelay ≤ h + p.activationDelay := by omega
      simp [undoStake, (hstamp s hs hin).2, hle]
    · rfl
  · exact filter_concat_dropped (hsplit.dropped hknown hb)

theorem complete_cases {key : Int}
    (happly : rail.apply p kind actions h (.complete key) = some rail') :
    (∃ u ∈ rail.unstakes, u.action_index = key ∧ u.status = .valid ∧ u.cooldown_end_block = h) ∧
      rail' = { rail with
        unstakes := rail.unstakes.map fun u =>
          if u.action_index = key then { u with status := .completed } else u } := by
  simp only [apply] at happly
  split at happly
  · rename_i hguard
    simp only [List.any_eq_true, Bool.and_eq_true, decide_eq_true_eq] at hguard
    obtain ⟨u, hu, ⟨hkey, hvalid⟩, hend⟩ := hguard
    exact ⟨⟨u, hu, hkey, hvalid, hend⟩, (Option.some.inj happly).symm⟩
  · simp at happly

theorem Shape.unique_unstake (hs : rail.Shape p kind actions h) {u u' : Unstake A}
    (hu : u ∈ rail.unstakes) (hu' : u' ∈ rail.unstakes) (heq : u.action_index = u'.action_index) :
    u = u' := by
  have hnodup : (rail.unstakes.map fun u => u.action_index).Nodup := by
    simpa [bonds, Function.comp_def] using hs.keys .unstakes
  exact List.inj_on_of_nodup_map hnodup hu hu' heq

/-- Two images of a table agree where rows survive. -/
theorem filter_map_congr {R : Type} {rows : List R} {key : R → Int} {f g : R → R}
    (hf : ∀ r, key (f r) = key r) (hg : ∀ r, key (g r) = key r)
    (heq : ∀ r ∈ rows, survives first (key r) = true → f r = g r) :
    (rows.map f).filter (survives first <| key ·) = (rows.map g).filter (survives first <| key ·) := by
  rw [List.filter_map, List.filter_map]
  simp only [Function.comp_def, hf, hg]
  apply List.map_congr_left
  intro r hr
  exact heq r (List.mem_of_mem_filter hr) (by simpa using List.of_mem_filter hr)

theorem wf_complete (hwf : rail.WF p kind actions h) {key : Int}
    (happly : rail.apply p kind actions h (.complete key) = some rail') :
    rail'.WF p kind actions h ∧
      ∀ b ≤ h, SplitsAt actions first b →
        rail'.rollback p first b kind = rail.rollback p first b kind := by
  obtain ⟨⟨u, hu, rfl, hvalid, hend⟩, rfl⟩ := complete_cases happly
  have hgrown : Grown rail { rail with
      unstakes := rail.unstakes.map fun u' =>
        if u'.action_index = u.action_index then { u' with status := .completed } else u' } := by
    intro t
    refine ⟨[], ?_, by simp, by simp⟩
    cases t with
    | stakes => simp [bonds]
    | unstakes =>
      simp only [bonds, List.map_map, List.append_nil]
      apply List.map_congr_left
      intro u' _
      simp only [Function.comp]
      split <;> rfl
  have hrow : ∀ u', u' ∈ rail.unstakes.map (fun u' => if u'.action_index = u.action_index then
      { u' with status := .completed } else u') →
      (u' ∈ rail.unstakes ∨ u' = { u with status := .completed }) := by
    intro u' hu'
    obtain ⟨u₀, hu₀, rfl⟩ := List.mem_map.mp hu'
    split
    · rename_i hkey
      rw [hwf.shape.unique_unstake hu₀ hu hkey]
      exact Or.inr rfl
    · exact Or.inl hu₀
  have hs' : Shape p kind actions h { rail with
      unstakes := rail.unstakes.map fun u' =>
        if u'.action_index = u.action_index then { u' with status := .completed } else u' } := by
    refine ⟨hgrown.keys hwf.shape, hwf.shape.stake_known, ?_, ?_, ?_, ?_⟩
    · intro u' hu'
      rcases hrow u' hu' with hu' | rfl
      · exact hwf.shape.unstake_known u' hu'
      · exact hwf.shape.unstake_known u hu
    · intro s hs d hd
      obtain ⟨u', hu', hbond, hd'⟩ := hwf.shape.stamped s hs d hd
      refine ⟨_, List.mem_map_of_mem hu', ?_, ?_⟩
      · split <;> exact hbond
      · split <;> exact hd'
    · intro u' hu'
      rcases hrow u' hu' with hu' | rfl
      · exact hwf.shape.stamped_by u' hu'
      · exact hwf.shape.stamped_by u hu
    · intro u' hu' hc
      rcases hrow u' hu' with hu' | rfl
      · exact hwf.shape.completed_by u' hu' hc
      · exact Int.le_of_eq hend
  have hj' := hwf.journaled.grown hgrown rfl rfl
  refine ⟨⟨hs', hj'⟩, fun b hb hsplit => ?_⟩
  rw [rollback_eq hwf.shape hwf.journaled, rollback_eq hs' hj']
  simp only [mk.injEq, and_true, List.map_map]
  refine ⟨rfl, filter_map_congr ?_ (fun _ => rfl) ?_⟩
  · intro u'
    simp only [Function.comp]
    split <;> rfl
  · intro u' hu' hsurvives
    simp only [Function.comp]
    split
    · rename_i hkey
      obtain rfl := hwf.shape.unique_unstake hu' hu hkey
      have hbefore := (hsplit _ _ (hwf.shape.unstake_known u' hu)).mp hsurvives
      simp [undoUnstake, orphanedMaturity, hvalid, hend, hb, hbefore]
    · rfl

/-- One write, whichever it is. -/
theorem wf_apply (hwf : rail.WF p kind actions h) {op : RailOp A}
    (happly : rail.apply p kind actions h op = some rail') :
    rail'.WF p kind actions h ∧
      ∀ b ≤ h, SplitsAt actions first b →
        rail'.rollback p first b kind = rail.rollback p first b kind := by
  cases op with
  | stake s => exact wf_stake hwf happly
  | slash target key amount place =>
    obtain ⟨hwf', hundone⟩ := wf_slash hwf happly
    exact ⟨hwf', fun b hb _ => hundone b hb⟩
  | rotate target key delegation signing =>
    obtain ⟨hwf', hundone⟩ := wf_rotate hwf happly
    exact ⟨hwf', fun b hb _ => hundone b hb⟩
  | unstake u stamped => exact wf_unstake hwf happly
  | complete key => exact wf_complete hwf happly

theorem filter_map_settled {R : Type} {rows : List R} {key : R → Int} {f : R → R}
    (hf : ∀ r ∈ rows, f r = r) (hlive : ∀ r ∈ rows, survives first (key r) = true) :
    (rows.map f).filter (survives first <| key ·) = rows := by
  have hmap : rows.map f = rows := (List.map_congr_left hf).trans (List.map_id rows)
  rw [hmap]
  exact List.filter_eq_self.mpr hlive

theorem filter_settled {E : Type} {entries : List E} {block : E → Int}
    (hby : ∀ e ∈ entries, block e ≤ h) (hb : h < b) : entries.filter (block · < b) = entries := by
  refine List.filter_eq_self.mpr fun e he => ?_
  have := hby e he
  simp only [decide_eq_true_eq]
  omega

theorem WF.undoStake_settled (hwf : rail.WF p kind actions h) (hb : h < b)
    (hbond : ∀ t r, restoreBond p kind b rail.slash_debits rail.rotations t r = r) (s : Stake A)
    (hs : s ∈ rail.stakes) : rail.undoStake p kind b s = s := by
  have hstamp : atOrAbove (b + p.activationDelay) s.deactivation_block = false := by
    refine not_atOrAbove (h := h + p.activationDelay) ?_ (by omega)
    intro d hd
    obtain ⟨u, hu, -, rfl⟩ := hwf.shape.stamped s hs d hd
    have := hwf.shape.stamped_by u hu
    omega
  simp [undoStake, hstamp, hbond]

theorem WF.undoUnstake_settled (hwf : rail.WF p kind actions h) (hb : h < b)
    (hbond : ∀ t r, restoreBond p kind b rail.slash_debits rail.rotations t r = r) (u : Unstake A)
    (hu : u ∈ rail.unstakes) : rail.undoUnstake p kind b u = u := by
  have hmaturity : orphanedMaturity b u = false := by
    rw [Bool.eq_false_iff]
    intro hm
    simp only [orphanedMaturity, Bool.and_eq_true, decide_eq_true_eq] at hm
    have := hwf.shape.completed_by u hu hm.1.1
    omega
  simp [undoUnstake, hmaturity, hbond]

/-- A rollback above every write leaves the rail as it is. -/
theorem WF.rollback_settled (hwf : rail.WF p kind actions h) (hb : h < b)
    (hsplit : SplitsAt actions first b) (hactions : ∀ a k, (a, k) ∈ actions → k ≤ h) :
    rail.rollback p first b kind = rail := by
  have hlive : ∀ a k, (a, k) ∈ actions → survives first a = true := by
    intro a k hk
    have := hactions a k hk
    exact (hsplit a k hk).mpr (by omega)
  have hbond : ∀ t (r : Bond A),
      restoreBond p kind b rail.slash_debits rail.rotations t r = r := by
    intro t r
    unfold restoreBond
    rw [Journal.restore_settled, Journal.restore_settled]
    · intro e he
      exact Int.lt_of_le_of_lt (hwf.journaled.debits_by e he) hb
    · intro e he
      exact Int.lt_of_le_of_lt (hwf.journaled.rotations_by e he) hb
  have hstakes : (rail.stakes.map (rail.undoStake p kind b)).filter
      (survives first ·.action_index) = rail.stakes := by
    refine filter_map_settled (hwf.undoStake_settled hb hbond) fun s hs => ?_
    obtain ⟨k, hk⟩ := hwf.shape.stake_known s hs
    exact hlive _ k hk
  have hunstakes : (rail.unstakes.map (rail.undoUnstake p kind b)).filter
      (survives first ·.action_index) = rail.unstakes :=
    filter_map_settled (hwf.undoUnstake_settled hb hbond) fun u hu =>
      hlive _ _ (hwf.shape.unstake_known u hu)
  rw [rollback_eq hwf.shape hwf.journaled, hstakes, hunstakes,
    filter_settled hwf.journaled.debits_by hb, filter_settled hwf.journaled.rotations_by hb]

end Rail

end XChainSync.Rollback
