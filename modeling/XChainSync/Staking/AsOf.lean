import Mathlib.Data.String.Basic
import XChainSync.Library.Runs
import XChainSync.Staking.ScanOrder

/-!
# Weights as of a past block

What blocks write to the staking tables, and that nothing written after a block is seen by the weights
as of it: new rows are not active yet, stamps and revocations lie above it, slashes come later than it,
and what a slash takes off an amount the add-back puts on again.
-/

namespace XChainSync.Staking
set_option autoImplicit false

open Runs

/-! ### What blocks write -/

inductive Write (A : Type) where
  | address (row : IndexRow)
  | pubkey (row : IndexRow)
  | status (row : IndexRow)
  | stake (s : Stake A)
  | delegate (d : Delegation)
  /-- An unstake, a revocation or an eviction, with the actions whose rows it stamps. -/
  | stampStakes (stamped : List Int)
  | stampDelegations (stamped : List Int)
  | revokeKey (r : KeyRevocation)
  | slashKey (e : SlashEvent)
  /-- A slash of the stake of an action: what it leaves, and what it takes. -/
  | slash (stake_action_index : Int) (amount cut : A)
  | slashUnstake (stake_action_index : Int) (cut : A)
  deriving DecidableEq, Repr

variable {A K : Type}

namespace Tables

def hasAddress (t : Tables A) (id : Int) : Bool := t.index_addresses.any (·.id = id)

def hasPubkey (t : Tables A) (id : Int) : Bool := t.index_pubkeys.any (·.id = id)

def hasStatus (t : Tables A) (id : Int) : Bool := t.index_statuses.any (·.id = id)

def stampStakes (stamp : Int) (stamped : List Int) (t : Tables A) : Tables A :=
  { t with stakes := t.stakes.map fun s =>
      if s.action_index ∈ stamped then { s with deactivation_block := some stamp } else s }

def stampDelegations (stamp : Int) (stamped : List Int) (t : Tables A) : Tables A :=
  { t with delegations := t.delegations.map fun d =>
      if d.action_index ∈ stamped then { d with deactivation_block := some stamp } else d }

def slash (h stake_action_index : Int) (amount cut : A) (t : Tables A) : Tables A :=
  { t with
    stakes := t.stakes.map fun s =>
      if s.action_index = stake_action_index then { s with amount := amount } else s
    capability_slash_debits :=
      t.capability_slash_debits ++ [⟨stake_action_index, cut, h, .stakes⟩] }

variable [DecidableEq K]

/-- One write of block `h`; none where no block writes it. Stamps go on rows that are still active. -/
def apply (p : Params A K) (h : Int) (t : Tables A) : Write A → Option (Tables A)
  | .address row =>
    if !t.hasAddress row.id && t.index_addresses.all fun r =>
        p.collation.general_ci r.text ≠ p.collation.general_ci row.text then
      some { t with index_addresses := t.index_addresses ++ [row] }
    else none
  | .pubkey row =>
    if !t.hasPubkey row.id && t.index_pubkeys.all fun r =>
        p.collation.general_ci r.text ≠ p.collation.general_ci row.text then
      some { t with index_pubkeys := t.index_pubkeys ++ [row] }
    else none
  | .status row =>
    if !t.hasStatus row.id && t.index_statuses.all (·.text ≠ row.text) then
      some { t with index_statuses := t.index_statuses ++ [row] }
    else none
  | .stake s =>
    if t.hasAddress s.source_id && t.hasPubkey s.signing_pubkey_id && t.hasStatus s.status_id &&
        s.activation_block.all (h ≤ ·) then
      some { t with stakes := t.stakes ++ [s] }
    else none
  | .delegate d =>
    if t.hasPubkey d.signing_pubkey_id && d.activation_block.all (h ≤ ·) then
      some { t with delegations := t.delegations ++ [d] }
    else none
  | .stampStakes stamped =>
    if t.stakes.all fun s => s.action_index ∉ stamped || s.deactivation_block.all (h < ·) then
      some (t.stampStakes (h + p.activationDelay) stamped)
    else none
  | .stampDelegations stamped =>
    if t.delegations.all fun d => d.action_index ∉ stamped || d.deactivation_block.all (h < ·) then
      some (t.stampDelegations (h + p.activationDelay) stamped)
    else none
  | .revokeKey r =>
    if r.deactivation_block = some (h + p.activationDelay) then
      some { t with stake_key_revocations := t.stake_key_revocations ++ [r] }
    else none
  | .slashKey e =>
    if e.block_index = h then
      some { t with capability_slash_events := t.capability_slash_events ++ [e] }
    else none
  | .slash key amount cut =>
    if t.stakes.all fun s => s.action_index ≠ key ||
        p.units amount + p.units cut = p.units s.amount then
      some (t.slash h key amount cut)
    else none
  | .slashUnstake key cut =>
    some { t with capability_slash_debits :=
        t.capability_slash_debits ++ [⟨key, cut, h, .unstakes⟩] }

def applyBlock (p : Params A K) (h : Int) (t : Tables A) (block : List (Write A)) :
    Option (Tables A) :=
  block.foldlM (fun t w => t.apply p h w) t

def empty : Tables A := ⟨[], [], [], [], [], [], [], []⟩

end Tables

/-- The tables at a tip. -/
structure Chain (A : Type) where
  tip : Int
  tables : Tables A

namespace Chain
variable [DecidableEq K]

def next (p : Params A K) (s : Chain A) (block : List (Write A)) : Option (Chain A) :=
  (s.tables.applyBlock p (s.tip + 1) block).map fun t => ⟨s.tip + 1, t⟩

def Steps (p : Params A K) (s : Chain A) (block : List (Write A)) (s' : Chain A) : Prop :=
  s.next p block = some s'

end Chain

/-! ### The writes one by one -/

/-- What a write does, under what it needs. -/
inductive Applied (p : Params A K) (h : Int) (t : Tables A) : Write A → Tables A → Prop where
  | address {row : IndexRow} (hid : t.hasAddress row.id = false)
      (htext : ∀ r ∈ t.index_addresses,
        p.collation.general_ci r.text ≠ p.collation.general_ci row.text) :
      Applied p h t (.address row) { t with index_addresses := t.index_addresses ++ [row] }
  | pubkey {row : IndexRow} (hid : t.hasPubkey row.id = false)
      (htext : ∀ r ∈ t.index_pubkeys,
        p.collation.general_ci r.text ≠ p.collation.general_ci row.text) :
      Applied p h t (.pubkey row) { t with index_pubkeys := t.index_pubkeys ++ [row] }
  | status {row : IndexRow} (hid : t.hasStatus row.id = false)
      (htext : ∀ r ∈ t.index_statuses, r.text ≠ row.text) :
      Applied p h t (.status row) { t with index_statuses := t.index_statuses ++ [row] }
  | stake {s : Stake A} (haddress : t.hasAddress s.source_id)
      (hpubkey : t.hasPubkey s.signing_pubkey_id) (hstatus : t.hasStatus s.status_id)
      (hactive : s.activation_block.all (h ≤ ·)) :
      Applied p h t (.stake s) { t with stakes := t.stakes ++ [s] }
  | delegate {d : Delegation} (hpubkey : t.hasPubkey d.signing_pubkey_id)
      (hactive : d.activation_block.all (h ≤ ·)) :
      Applied p h t (.delegate d) { t with delegations := t.delegations ++ [d] }
  | stampStakes {stamped : List Int}
      (hopen : ∀ s ∈ t.stakes, s.action_index ∈ stamped → s.deactivation_block.all (h < ·)) :
      Applied p h t (.stampStakes stamped) (t.stampStakes (h + p.activationDelay) stamped)
  | stampDelegations {stamped : List Int}
      (hopen : ∀ d ∈ t.delegations, d.action_index ∈ stamped → d.deactivation_block.all (h < ·)) :
      Applied p h t (.stampDelegations stamped) (t.stampDelegations (h + p.activationDelay) stamped)
  | revokeKey {r : KeyRevocation} (hstamp : r.deactivation_block = some (h + p.activationDelay)) :
      Applied p h t (.revokeKey r)
        { t with stake_key_revocations := t.stake_key_revocations ++ [r] }
  | slashKey {e : SlashEvent} (hblock : e.block_index = h) :
      Applied p h t (.slashKey e)
        { t with capability_slash_events := t.capability_slash_events ++ [e] }
  | slash {key : Int} {amount cut : A}
      (hcut : ∀ s ∈ t.stakes, s.action_index = key →
        p.units amount + p.units cut = p.units s.amount) :
      Applied p h t (.slash key amount cut) (t.slash h key amount cut)
  | slashUnstake {key : Int} {cut : A} :
      Applied p h t (.slashUnstake key cut)
        { t with capability_slash_debits :=
            t.capability_slash_debits ++ [⟨key, cut, h, .unstakes⟩] }

theorem apply_cases [DecidableEq K] {p : Params A K} {h : Int} {t t' : Tables A} {w : Write A}
    (hw : t.apply p h w = some t') : Applied p h t w t' := by
  cases w with
  | address row =>
    simp only [Tables.apply, Option.ite_none_right_eq_some, Bool.and_eq_true, Bool.not_eq_true',
      List.all_eq_true, decide_eq_true_eq, Option.some.injEq] at hw
    obtain ⟨⟨hid, htext⟩, rfl⟩ := hw
    exact .address hid htext
  | pubkey row =>
    simp only [Tables.apply, Option.ite_none_right_eq_some, Bool.and_eq_true, Bool.not_eq_true',
      List.all_eq_true, decide_eq_true_eq, Option.some.injEq] at hw
    obtain ⟨⟨hid, htext⟩, rfl⟩ := hw
    exact .pubkey hid htext
  | status row =>
    simp only [Tables.apply, Option.ite_none_right_eq_some, Bool.and_eq_true, Bool.not_eq_true',
      List.all_eq_true, decide_eq_true_eq, Option.some.injEq] at hw
    obtain ⟨⟨hid, htext⟩, rfl⟩ := hw
    exact .status hid htext
  | stake s =>
    simp only [Tables.apply, Option.ite_none_right_eq_some, Bool.and_eq_true,
      Option.some.injEq] at hw
    obtain ⟨⟨⟨⟨haddress, hpubkey⟩, hstatus⟩, hactive⟩, rfl⟩ := hw
    exact .stake haddress hpubkey hstatus hactive
  | delegate d =>
    simp only [Tables.apply, Option.ite_none_right_eq_some, Bool.and_eq_true,
      Option.some.injEq] at hw
    obtain ⟨⟨hpubkey, hactive⟩, rfl⟩ := hw
    exact .delegate hpubkey hactive
  | stampStakes stamped =>
    simp only [Tables.apply, Option.ite_none_right_eq_some, List.all_eq_true, Bool.or_eq_true,
      decide_eq_true_eq, Option.some.injEq] at hw
    obtain ⟨hopen, rfl⟩ := hw
    exact .stampStakes fun s hs hmem => (hopen s hs).resolve_left (not_not_intro hmem)
  | stampDelegations stamped =>
    simp only [Tables.apply, Option.ite_none_right_eq_some, List.all_eq_true, Bool.or_eq_true,
      decide_eq_true_eq, Option.some.injEq] at hw
    obtain ⟨hopen, rfl⟩ := hw
    exact .stampDelegations fun d hd hmem => (hopen d hd).resolve_left (not_not_intro hmem)
  | revokeKey r =>
    simp only [Tables.apply, Option.ite_none_right_eq_some, Option.some.injEq] at hw
    obtain ⟨hstamp, rfl⟩ := hw
    exact .revokeKey hstamp
  | slashKey e =>
    simp only [Tables.apply, Option.ite_none_right_eq_some, Option.some.injEq] at hw
    obtain ⟨hblock, rfl⟩ := hw
    exact .slashKey hblock
  | slash key amount cut =>
    simp only [Tables.apply, Option.ite_none_right_eq_some, List.all_eq_true, Bool.or_eq_true,
      decide_eq_true_eq, Option.some.injEq] at hw
    obtain ⟨hcut, rfl⟩ := hw
    exact .slash fun s hs hkey => (hcut s hs).resolve_left (not_not_intro hkey)
  | slashUnstake key cut =>
    obtain rfl := Option.some.inj hw
    exact .slashUnstake

/-! ### What is kept from the start -/

/-- Rows name rows of the index tables, texts are unique, and no debit is later than the tip. -/
structure WellFormed (p : Params A K) (tip : Int) (t : Tables A) : Prop where
  unique : UniqueTexts p.collation t
  sources : ∀ s ∈ t.stakes, t.hasAddress s.source_id ∧ t.hasPubkey s.signing_pubkey_id ∧
    t.hasStatus s.status_id
  delegates : ∀ d ∈ t.delegations, t.hasPubkey d.signing_pubkey_id
  debits : ∀ d ∈ t.capability_slash_debits, d.block_index ≤ tip

theorem wellFormed_empty (p : Params A K) (tip : Int) : WellFormed p tip (Tables.empty : Tables A) where
  unique := ⟨List.nodup_nil, List.nodup_nil, List.nodup_nil⟩
  sources := by simp [Tables.empty]
  delegates := by simp [Tables.empty]
  debits := by simp [Tables.empty]

theorem nodup_append_text {B : Type} [DecidableEq B] {f : IndexRow → B} {rows : List IndexRow}
    {row : IndexRow} (h : (rows.map f).Nodup) (hnew : ∀ r ∈ rows, f r ≠ f row) :
    ((rows ++ [row]).map f).Nodup := by
  rw [List.map_append, List.nodup_append]
  refine ⟨h, by simp, ?_⟩
  intro a ha b hb
  obtain ⟨r, hr, rfl⟩ := List.mem_map.mp ha
  simp only [List.map_cons, List.map_nil, List.mem_singleton] at hb
  rw [hb]
  exact hnew r hr

theorem any_append_of_any {B : Type} {q : B → Bool} {rows more : List B} (h : rows.any q) :
    (rows ++ more).any q := by
  rw [List.any_append, h]
  rfl

theorem WellFormed.mono {p : Params A K} {tip tip' : Int} {t : Tables A} (hw : WellFormed p tip t)
    (hle : tip ≤ tip') : WellFormed p tip' t :=
  { hw with debits := fun d hd => (hw.debits d hd).trans hle }

theorem wellFormed_applied {p : Params A K} {h : Int} {t t' : Tables A} {w : Write A}
    (hw : WellFormed p h t) (ha : Applied p h t w t') : WellFormed p h t' := by
  cases ha with
  | address hid htext =>
    classical
    refine { hw with unique := { hw.unique with addresses := ?_ }, sources := ?_ }
    · exact nodup_append_text hw.unique.addresses htext
    · intro s hs
      obtain ⟨haddress, hpubkey, hstatus⟩ := hw.sources s hs
      exact ⟨any_append_of_any haddress, hpubkey, hstatus⟩
  | pubkey hid htext =>
    classical
    refine { hw with
      unique := { hw.unique with pubkeys := ?_ }, sources := ?_, delegates := ?_ }
    · exact nodup_append_text hw.unique.pubkeys htext
    · intro s hs
      obtain ⟨haddress, hpubkey, hstatus⟩ := hw.sources s hs
      exact ⟨haddress, any_append_of_any hpubkey, hstatus⟩
    · intro d hd
      exact any_append_of_any (hw.delegates d hd)
  | status hid htext =>
    refine { hw with unique := { hw.unique with statuses := ?_ }, sources := ?_ }
    · exact nodup_append_text hw.unique.statuses htext
    · intro s hs
      obtain ⟨haddress, hpubkey, hstatus⟩ := hw.sources s hs
      exact ⟨haddress, hpubkey, any_append_of_any hstatus⟩
  | stake haddress hpubkey hstatus hactive =>
    refine { hw with unique := ⟨hw.unique.1, hw.unique.2, hw.unique.3⟩, sources := ?_ }
    intro s' hs'
    rcases List.mem_append.mp hs' with hs' | hs'
    · exact hw.sources s' hs'
    · rw [List.mem_singleton.mp hs']
      exact ⟨haddress, hpubkey, hstatus⟩
  | delegate hpubkey hactive =>
    refine { hw with unique := ⟨hw.unique.1, hw.unique.2, hw.unique.3⟩, delegates := ?_ }
    intro d' hd'
    rcases List.mem_append.mp hd' with hd' | hd'
    · exact hw.delegates d' hd'
    · rw [List.mem_singleton.mp hd']
      exact hpubkey
  | stampStakes hopen =>
    refine { hw with unique := ⟨hw.unique.1, hw.unique.2, hw.unique.3⟩, sources := ?_ }
    intro s' hs'
    obtain ⟨s, hs, rfl⟩ := List.mem_map.mp hs'
    split <;> exact hw.sources s hs
  | stampDelegations hopen =>
    refine { hw with unique := ⟨hw.unique.1, hw.unique.2, hw.unique.3⟩, delegates := ?_ }
    intro d' hd'
    obtain ⟨d, hd, rfl⟩ := List.mem_map.mp hd'
    split <;> exact hw.delegates d hd
  | revokeKey hstamp => exact { hw with unique := ⟨hw.unique.1, hw.unique.2, hw.unique.3⟩ }
  | slashKey hblock => exact { hw with unique := ⟨hw.unique.1, hw.unique.2, hw.unique.3⟩ }
  | slash hcut =>
    refine { hw with unique := ⟨hw.unique.1, hw.unique.2, hw.unique.3⟩, sources := ?_, debits := ?_ }
    · intro s' hs'
      obtain ⟨s, hs, rfl⟩ := List.mem_map.mp hs'
      split <;> exact hw.sources s hs
    · intro d hd
      rcases List.mem_append.mp hd with hd | hd
      · exact hw.debits d hd
      · rw [List.mem_singleton.mp hd]
  | slashUnstake =>
    refine { hw with unique := ⟨hw.unique.1, hw.unique.2, hw.unique.3⟩, debits := ?_ }
    intro d hd
    rcases List.mem_append.mp hd with hd | hd
    · exact hw.debits d hd
    · rw [List.mem_singleton.mp hd]

/-! ### What later writes leave alone -/

/-- An index table only grows, by rows with new ids. -/
def Grows (rows rows' : List IndexRow) : Prop :=
  ∃ more, rows' = rows ++ more ∧ ∀ r ∈ more, ∀ r' ∈ rows, r'.id ≠ r.id

namespace Grows
variable {rows rows' rows'' : List IndexRow}

theorem refl (rows : List IndexRow) : Grows rows rows := ⟨[], by simp, by simp⟩

theorem trans (h : Grows rows rows') (h' : Grows rows' rows'') : Grows rows rows'' := by
  obtain ⟨more, rfl, hnew⟩ := h
  obtain ⟨more', rfl, hnew'⟩ := h'
  refine ⟨more ++ more', by simp, ?_⟩
  intro r hr r' hr'
  rcases List.mem_append.mp hr with hr | hr
  · exact hnew r hr r' hr'
  · exact hnew' r hr r' (List.mem_append_left more hr')

theorem append_new {row : IndexRow} (h : rows.any (·.id = row.id) = false) :
    Grows rows (rows ++ [row]) := by
  refine ⟨[row], rfl, ?_⟩
  intro r hr r' hr'
  rw [List.mem_singleton.mp hr]
  simpa using List.any_eq_false.mp h r' hr'

/-- The row of an id that is there already. -/
theorem filter_id (h : Grows rows rows') {id : Int} (hid : rows.any (·.id = id)) :
    rows'.filter (·.id = id) = rows.filter (·.id = id) := by
  obtain ⟨more, rfl, hnew⟩ := h
  obtain ⟨r', hr', heq⟩ := List.any_eq_true.mp hid
  have hnone : more.filter (·.id = id) = [] := by
    apply List.filter_eq_nil_iff.mpr
    intro r hr hr''
    simp only [decide_eq_true_eq] at heq hr''
    exact hnew r hr r' hr' (heq.trans hr''.symm)
  rw [List.filter_append, hnone, List.append_nil]

end Grows

/-- What the weights as of a block read is the same. -/
structure SameAsOf (units : A → Nat) (S : Int) (t t' : Tables A) : Prop where
  counted : ∀ valid_id, t'.counted (t'.amountAsOf units S) valid_id S =
    t.counted (t.amountAsOf units S) valid_id S
  keys : ∀ valid_id, t'.effectiveKeys valid_id S = t.effectiveKeys valid_id S
  addresses : Grows t.index_addresses t'.index_addresses
  pubkeys : Grows t.index_pubkeys t'.index_pubkeys
  statuses : Grows t.index_statuses t'.index_statuses

variable {units : A → Nat} {S : Int} {t t' t'' : Tables A}

theorem SameAsOf.refl (t : Tables A) : SameAsOf units S t t :=
  ⟨fun _ => rfl, fun _ => rfl, .refl _, .refl _, .refl _⟩

theorem SameAsOf.trans (h : SameAsOf units S t t') (h' : SameAsOf units S t' t'') :
    SameAsOf units S t t'' where
  counted v := (h'.counted v).trans (h.counted v)
  keys v := (h'.keys v).trans (h.keys v)
  addresses := h.addresses.trans h'.addresses
  pubkeys := h.pubkeys.trans h'.pubkeys
  statuses := h.statuses.trans h'.statuses

/-- Rows rewritten one by one, of which a query takes the same ones and reads the same off them. -/
theorem map_filter_map {B C D : Type} {f : B → C} {q : B → Bool} {q' : C → Bool} {g : B → D}
    {g' : C → D} {rows : List B} (hq : ∀ r ∈ rows, q' (f r) = q r) (hg : ∀ r ∈ rows, g' (f r) = g r) :
    ((rows.map f).filter q').map g' = (rows.filter q).map g := by
  induction rows with
  | nil => rfl
  | cons r rows ih =>
    have ih := ih (fun r hr => hq r (List.mem_cons_of_mem _ hr))
      fun r hr => hg r (List.mem_cons_of_mem _ hr)
    have hqr := hq r List.mem_cons_self
    have hgr := hg r List.mem_cons_self
    cases hcase : q r with
    | true => simp [hqr, hcase, hgr, ih]
    | false => simp [hqr, hcase, ih]

/-- A stake row after a later write: still as active as it was as of the block, and of the same
amount. -/
structure Stake.Kept (units : A → Nat) (S : Int) (t t' : Tables A) (s s' : Stake A) : Prop where
  action_index : s'.action_index = s.action_index
  source_id : s'.source_id = s.source_id
  signing_pubkey_id : s'.signing_pubkey_id = s.signing_pubkey_id
  counts : ∀ valid_id, s'.counts valid_id S = s.counts valid_id S
  amount : t'.amountAsOf units S s' = t.amountAsOf units S s

theorem revoked_congr {s s' : Stake A} (ha : s'.action_index = s.action_index)
    (hs : s'.source_id = s.source_id) (hk : s'.signing_pubkey_id = s.signing_pubkey_id)
    (valid_id : Int) : t.revoked valid_id S s' = t.revoked valid_id S s := by
  simp only [Tables.revoked, ha, hs, hk]

/-- Stakes are rewritten as kept, and what else is read stays. -/
theorem sameAsOf_stakes {f : Stake A → Stake A} (hstakes : t'.stakes = t.stakes.map f)
    (hkept : ∀ s ∈ t.stakes, s.Kept units S t t' (f s))
    (hdelegations : t'.delegations = t.delegations)
    (hrevocations : t'.stake_key_revocations = t.stake_key_revocations)
    (hevents : t'.capability_slash_events = t.capability_slash_events)
    (haddresses : t'.index_addresses = t.index_addresses)
    (hpubkeys : t'.index_pubkeys = t.index_pubkeys)
    (hstatuses : t'.index_statuses = t.index_statuses) : SameAsOf units S t t' where
  counted v := by
    unfold Tables.counted
    rw [hstakes]
    refine map_filter_map (fun s hs => (hkept s hs).counts v) fun s hs => ?_
    rw [(hkept s hs).source_id, (hkept s hs).amount]
  keys v := by
    have hrevoked : ∀ s, t'.revoked v S s = t.revoked v S s := by
      simp [Tables.revoked, hrevocations]
    have hslashed : ∀ key, t'.slashed S key = t.slashed S key := by
      simp [Tables.slashed, hevents]
    have hkeys : t'.stakeKeys v S = t.stakeKeys v S := by
      unfold Tables.stakeKeys
      rw [hstakes]
      refine map_filter_map (fun s hs => ?_) fun s hs => ?_
      · have hk := hkept s hs
        rw [hk.counts, hrevoked, hslashed, hk.signing_pubkey_id,
          revoked_congr hk.action_index hk.source_id hk.signing_pubkey_id]
      · rw [(hkept s hs).source_id, (hkept s hs).signing_pubkey_id]
    unfold Tables.effectiveKeys Tables.delegatedKeys
    simp only [hkeys, hslashed, hdelegations]
  addresses := haddresses ▸ .refl _
  pubkeys := hpubkeys ▸ .refl _
  statuses := hstatuses ▸ .refl _

section Later
variable {p : Params A K} {h : Int} {w : Write A}

/-- A row of a later block is not active yet. -/
theorem activeAt_of_later {activation deactivation : Option Int} (hlt : S < h)
    (ha : activation.all (h ≤ ·)) : activeAt S activation deactivation = false := by
  cases activation with
  | none => rfl
  | some a =>
    have hle : h ≤ a := by simpa using ha
    have hnot : ¬ a ≤ S := by omega
    simp [activeAt, hnot]

/-- A later stamp on a row that was still active leaves it active as of the block. -/
theorem activeAt_of_stamp {activation deactivation : Option Int} (hlt : S < h)
    (hopen : deactivation.all (h < ·)) (delay : Nat) :
    activeAt S activation (some (h + delay)) = activeAt S activation deactivation := by
  have hstamp : S < h + delay := by omega
  have hbefore : deactivation.all (S < ·) := by
    cases deactivation with
    | none => rfl
    | some d =>
      have hd : h < d := by simpa using hopen
      simpa using hlt.trans hd
  simp [activeAt, hstamp, hbefore]

theorem addback_append (t : Tables A) (d : SlashDebit A) (key : Int) :
    Tables.addback units { t with capability_slash_debits := t.capability_slash_debits ++ [d] } S key =
      t.addback units S key + if d.target_table = .stakes ∧ S < d.block_index ∧
        d.stake_action_index = key then units d.amount else 0 := by
  simp only [Tables.addback, List.filter_append, List.map_append, List.sum_append]
  congr 1
  split
  · rename_i hd
    simp [hd.1, hd.2.1, hd.2.2]
  · rename_i hd
    have hfalse : (decide (d.target_table = .stakes) && decide (S < d.block_index) &&
        decide (d.stake_action_index = key)) = false := by
      rw [Bool.eq_false_iff]
      simpa [and_assoc] using hd
    simp [hfalse]

/-- What is taken off the slashed row is added back to it, and to no other. -/
theorem kept_slash (hlt : S < h) {key : Int} {amount cut : A} {s : Stake A}
    (hcut : s.action_index = key → p.units amount + p.units cut = p.units s.amount) :
    s.Kept p.units S t (t.slash h key amount cut)
      (if s.action_index = key then { s with amount := amount } else s) := by
  have hadd : ∀ k, (t.slash h key amount cut).addback p.units S k =
      t.addback p.units S k + if key = k then p.units cut else 0 := by
    intro k
    have happ : (t.slash h key amount cut).addback p.units S k = _ :=
      addback_append t ⟨key, cut, h, .stakes⟩ k
    rw [happ]
    simp [hlt]
  split
  · rename_i hkey
    refine ⟨rfl, rfl, rfl, fun _ => rfl, ?_⟩
    have hunits := hcut hkey
    simp only [Tables.amountAsOf, hadd, hkey, if_true]
    omega
  · rename_i hkey
    refine ⟨rfl, rfl, rfl, fun _ => rfl, ?_⟩
    have hne : key ≠ s.action_index := fun heq => hkey heq.symm
    simp only [Tables.amountAsOf, hadd, hne, if_false, Nat.add_zero]

theorem sameAsOf_applied (hlt : S < h) (ha : Applied p h t w t') : SameAsOf p.units S t t' := by
  cases ha with
  | address hid htext => exact { SameAsOf.refl t with addresses := .append_new hid }
  | pubkey hid htext => exact { SameAsOf.refl t with pubkeys := .append_new hid }
  | status hid htext => exact { SameAsOf.refl t with statuses := .append_new hid }
  | @stake s haddress hpubkey hstatus hactive =>
    have hcounts : ∀ v, s.counts v S = false := fun v => by
      simp [Stake.counts, activeAt_of_later hlt hactive]
    refine ⟨fun v => ?_, fun v => ?_, .refl _, .refl _, .refl _⟩
    · have hstakes : (t.stakes ++ [s]).filter (·.counts v S) = t.stakes.filter (·.counts v S) := by
        simp [List.filter_append, hcounts]
      unfold Tables.counted
      rw [hstakes]
      rfl
    · have hkeys : Tables.stakeKeys { t with stakes := t.stakes ++ [s] } v S = t.stakeKeys v S := by
        simp only [Tables.stakeKeys, List.filter_append, List.filter_singleton, hcounts]
        simp
        rfl
      unfold Tables.effectiveKeys
      rw [hkeys]
      rfl
  | @delegate d hpubkey hactive =>
    refine ⟨fun _ => rfl, fun v => ?_, .refl _, .refl _, .refl _⟩
    have hkeys : Tables.delegatedKeys { t with delegations := t.delegations ++ [d] } v S =
        t.delegatedKeys v S := by
      simp only [Tables.delegatedKeys, List.filter_append, List.filter_singleton,
        activeAt_of_later hlt hactive]
      simp
      rfl
    unfold Tables.effectiveKeys
    rw [hkeys]
    rfl
  | @stampStakes stamped hopen =>
    refine sameAsOf_stakes rfl (fun s hs => ?_) rfl rfl rfl rfl rfl rfl
    split
    · rename_i hmem
      refine ⟨rfl, rfl, rfl, fun v => ?_, rfl⟩
      simp only [Stake.counts, activeAt_of_stamp hlt (hopen s hs hmem) p.activationDelay]
    · exact ⟨rfl, rfl, rfl, fun _ => rfl, rfl⟩
  | @stampDelegations stamped hopen =>
    refine ⟨fun _ => rfl, fun v => ?_, .refl _, .refl _, .refl _⟩
    have hkeys : (t.stampDelegations (h + p.activationDelay) stamped).delegatedKeys v S =
        t.delegatedKeys v S := by
      refine map_filter_map (fun d hd => ?_) fun d hd => ?_
      · split
        · rename_i hmem
          simp only [activeAt_of_stamp hlt (hopen d hd hmem) p.activationDelay]
          rfl
        · rfl
      · split <;> rfl
    unfold Tables.effectiveKeys
    rw [hkeys]
    rfl
  | @revokeKey r hstamp =>
    refine ⟨fun _ => rfl, fun v => ?_, .refl _, .refl _, .refl _⟩
    have hnot : ¬ h + (p.activationDelay : Int) ≤ S := by omega
    have hrevoked : ∀ s, Tables.revoked
        { t with stake_key_revocations := t.stake_key_revocations ++ [r] } v S s =
          t.revoked v S s := by
      intro s
      simp [Tables.revoked, List.any_append, hstamp, hnot]
    unfold Tables.effectiveKeys Tables.stakeKeys
    simp only [hrevoked]
    rfl
  | @slashKey e hblock =>
    refine ⟨fun _ => rfl, fun v => ?_, .refl _, .refl _, .refl _⟩
    have hnot : ¬ e.block_index ≤ S := by omega
    have hslashed : ∀ key, Tables.slashed
        { t with capability_slash_events := t.capability_slash_events ++ [e] } S key =
          t.slashed S key := by
      intro key
      simp [Tables.slashed, List.any_append, hnot]
    unfold Tables.effectiveKeys Tables.stakeKeys Tables.delegatedKeys
    simp only [hslashed]
    rfl
  | slash hcut =>
    exact sameAsOf_stakes rfl (fun s hs => kept_slash hlt (hcut s hs)) rfl rfl rfl rfl rfl rfl
  | @slashUnstake key cut =>
    refine ⟨fun v => ?_, fun _ => rfl, .refl _, .refl _, .refl _⟩
    have hamount : Tables.amountAsOf p.units { t with capability_slash_debits :=
        t.capability_slash_debits ++ [⟨key, cut, h, .unstakes⟩] } S = t.amountAsOf p.units S := by
      funext s
      unfold Tables.amountAsOf
      rw [addback_append]
      simp
    rw [hamount]
    rfl

end Later

/-! ### The weights -/

theorem mem_counted {amount : Stake A → Nat} {valid_id : Int} {w : Int × Nat}
    (hw : w ∈ t.counted amount valid_id S) :
    ∃ s ∈ t.stakes, s.status_id = valid_id ∧ s.source_id = w.1 := by
  obtain ⟨s, hs, rfl⟩ := List.mem_map.mp hw
  simp only [List.mem_filter, Stake.counts, Bool.and_eq_true, decide_eq_true_eq] at hs
  exact ⟨s, hs.1, hs.2.1, rfl⟩

theorem fst_mem_of_mem_totals {floor : Nat} {rows : List (Int × Nat)} {w : Int × Nat}
    (hw : w ∈ totals floor rows) : ∃ r ∈ rows, r.1 = w.1 := by
  simp only [totals, List.mem_filter, List.mem_map, List.mem_dedup] at hw
  obtain ⟨⟨id, ⟨r, hr, rfl⟩, rfl⟩, -⟩ := hw
  exact ⟨r, hr, rfl⟩

section Read
variable {p : Params A K} {tip : Int}

theorem hasPubkey_of_mem_effectiveKeys (hw : WellFormed p tip t) {valid_id : Int} {k : Int × Int}
    (hk : k ∈ t.effectiveKeys valid_id S) : t.hasPubkey k.2 := by
  rcases List.mem_append.mp (List.mem_dedup.mp hk) with hk | hk
  · obtain ⟨s, hs, rfl⟩ := List.mem_map.mp hk
    exact (hw.sources s (List.mem_filter.mp hs).1).2.1
  · obtain ⟨d, hd, rfl⟩ := List.mem_map.mp hk
    exact hw.delegates d (List.mem_filter.mp hd).1

theorem stakeWeightsAsOf_same (hw : WellFormed p tip t) (hs : SameAsOf p.units S t t')
    (valid_id : Int) (minStake : Nat) :
    t'.stakeWeightsAsOfSql p.units valid_id S minStake =
      t.stakeWeightsAsOfSql p.units valid_id S minStake := by
  unfold Tables.stakeWeightsAsOfSql Tables.stakeWeights
  rw [hs.counted, hs.keys]
  apply List.flatMap_congr
  intro w hmem
  obtain ⟨r, hr, hrw⟩ := fst_mem_of_mem_totals hmem
  obtain ⟨s, hstake, -, hsource⟩ := mem_counted hr
  have haddress : t.hasAddress w.1 := by
    rw [← hrw, ← hsource]
    exact (hw.sources s hstake).1
  rw [hs.addresses.filter_id haddress]
  apply List.flatMap_congr
  intro address _
  apply List.flatMap_congr
  intro k hk
  rw [hs.pubkeys.filter_id (hasPubkey_of_mem_effectiveKeys hw (List.mem_filter.mp hk).1)]

/-- At the tip there is nothing to add back. -/
theorem stakeWeightsAsOf_tip (hw : WellFormed p tip t) (valid_id : Int) :
    t.stakeWeightsAsOfSql p.units valid_id tip = t.stakeWeightsSql p.units valid_id tip := by
  have hamount : t.amountAsOf p.units tip = fun s => p.units s.amount := by
    funext s
    have hnone : (t.capability_slash_debits.filter fun d => d.target_table = .stakes &&
        tip < d.block_index && d.stake_action_index = s.action_index) = [] := by
      apply List.filter_eq_nil_iff.mpr
      intro d hd
      have hle := hw.debits d hd
      have hnot : ¬ tip < d.block_index := by omega
      simp [hnot]
    unfold Tables.amountAsOf Tables.addback
    rw [hnone]
    simp
  unfold Tables.stakeWeightsAsOfSql Tables.stakeWeightsSql
  rw [hamount]

/-- Where no row can have the status, there is no weight. -/
theorem stakeWeightsSql_of_no_status (hw : WellFormed p tip t) {valid_id : Int}
    (hnone : t.hasStatus valid_id = false) (minStake : Nat) :
    t.stakeWeightsSql p.units valid_id S minStake = [] := by
  have hcounted : t.counted (fun s => p.units s.amount) valid_id S = [] := by
    apply List.eq_nil_iff_forall_not_mem.mpr
    intro w hmem
    obtain ⟨s, hs, hstatus, -⟩ := mem_counted hmem
    have hhas := (hw.sources s hs).2.2
    rw [hstatus, hnone] at hhas
    simp at hhas
  unfold Tables.stakeWeightsSql Tables.stakeWeights
  rw [hcounted]
  rfl

variable [LinearOrder K]

theorem asOf_eq_live_of_same (hw : WellFormed p tip t) (hw' : UniqueTexts p.collation t')
    (hs : SameAsOf p.units tip t t') (minStake : A) {limit : Nat} (hl : 0 < limit)
    (coin : Option String) (network : String) :
    getStakeWeightsByCapabilityAsOf p t' tip minStake limit coin network =
      getStakeWeightsByCapability p t tip minStake limit coin network := by
  obtain ⟨more, hmore, hnew⟩ := hs.statuses
  unfold getStakeWeightsByCapabilityAsOf getStakeWeightsByCapability
  cases hvalid : t.getStatusId "valid" with
  | some valid_id =>
    have hvalid' : t'.getStatusId "valid" = some valid_id := by
      rw [getStatusId_eq_some_iff hw'.statuses, hmore]
      exact List.mem_append_left _ ((getStatusId_eq_some_iff hw.unique.statuses).mp hvalid)
    simp only [hvalid', stakeWeightsAsOf_same hw hs, stakeWeightsAsOf_tip hw]
  | none =>
    cases hvalid' : t'.getStatusId "valid" with
    | none => rfl
    | some valid_id =>
      -- the status came later than the block, so no row as of the block has it
      have hmem : (⟨valid_id, "valid"⟩ : IndexRow) ∈ more := by
        have hmem := (getStatusId_eq_some_iff hw'.statuses).mp hvalid'
        rw [hmore] at hmem
        rcases List.mem_append.mp hmem with hmem | hmem
        · rw [(getStatusId_eq_some_iff hw.unique.statuses).mpr hmem] at hvalid
          simp at hvalid
        · exact hmem
      have hnone : t.hasStatus valid_id = false := by
        apply List.any_eq_false.mpr
        intro r hr
        simpa using hnew _ hmem r hr
      simp only [stakeWeightsAsOf_same hw hs, stakeWeightsAsOf_tip hw,
        stakeWeightsSql_of_no_status hw hnone]
      exact applyStakeWeightCap_nil p tip hl coin network

end Read

/-! ### Runs -/

namespace Chain
variable [LinearOrder K] {p : Params A K} {s s' : Chain A} {block : List (Write A)}

theorem wellFormed_step (hw : WellFormed p s.tip s.tables) (h : Steps p s block s') :
    WellFormed p s'.tip s'.tables := by
  obtain ⟨t, ht, rfl⟩ := Option.map_eq_some_iff.mp h
  exact foldlM_invariant (fun _ _ _ hw ha => wellFormed_applied hw (apply_cases ha))
    (hw.mono (Int.le_of_lt (Int.lt_succ s.tip))) ht

theorem sameAsOf_step {S : Int} (hS : S ≤ s.tip) (h : Steps p s block s') :
    SameAsOf p.units S s.tables s'.tables ∧ S ≤ s'.tip := by
  obtain ⟨t, ht, rfl⟩ := Option.map_eq_some_iff.mp h
  refine ⟨foldlM_invariant (I := SameAsOf p.units S s.tables) (fun _ _ _ hs ha => ?_) (.refl _) ht, ?_⟩
  · exact hs.trans (sameAsOf_applied (by omega) (apply_cases ha))
  · change S ≤ s.tip + 1
    omega

/-- The weights as of a block, read at any later tip, are those read when it was the tip. The scans
may meet the rows in any order. -/
theorem weights_asOf_are_weights_at {start : Int} {now tables : Tables A}
    (hs : Run (Steps p) Any ⟨start, .empty⟩ s) (hs' : Run (Steps p) Any s s')
    (hrows : SameRows s.tables tables) (hrows' : SameRows s'.tables now) (minStake : A) {limit : Nat}
    (hl : 0 < limit) (coin : Option String) (network : String) :
    getStakeWeightsByCapabilityAsOf p now s.tip minStake limit coin network =
      getStakeWeightsByCapability p tables s.tip minStake limit coin network := by
  have hw : WellFormed p s.tip s.tables :=
    hs.invariant (I := fun s => WellFormed p s.tip s.tables) (wellFormed_empty p start)
      fun _ _ _ hw _ hstep => wellFormed_step hw hstep
  have hw' : WellFormed p s'.tip s'.tables :=
    hs'.invariant (I := fun s => WellFormed p s.tip s.tables) hw
      fun _ _ _ hw _ hstep => wellFormed_step hw hstep
  have hsame : SameAsOf p.units s.tip s.tables s'.tables ∧ s.tip ≤ s'.tip := by
    refine hs'.invariant (I := fun u => SameAsOf p.units s.tip s.tables u.tables ∧ s.tip ≤ u.tip)
      ⟨.refl _, le_refl _⟩ ?_
    rintro u block u' ⟨hsame, hle⟩ - hstep
    obtain ⟨hnext, hle'⟩ := sameAsOf_step hle hstep
    exact ⟨hsame.trans hnext, hle'⟩
  calc getStakeWeightsByCapabilityAsOf p now s.tip minStake limit coin network
      = getStakeWeightsByCapabilityAsOf p s'.tables s.tip minStake limit coin network :=
        (getStakeWeightsByCapabilityAsOf_congr p hrows' hw'.unique _ _ _ _ _).symm
    _ = getStakeWeightsByCapability p s.tables s.tip minStake limit coin network :=
        asOf_eq_live_of_same hw hw'.unique hsame.1 minStake hl coin network
    _ = getStakeWeightsByCapability p tables s.tip minStake limit coin network :=
        getStakeWeightsByCapability_congr p hrows hw.unique _ _ _ _ _

/-- Amounts in units, texts folded to lower case. -/
def plainParams : Params Nat String where
  units := id
  collation := ⟨String.toLower, id, fun _ _ h => congrArg String.toLower h⟩
  gates := .registry
  activationDelay := 1

/-- A stake of 500 at block 1, active from block 2. -/
def stakeOfFiveHundred : List (Write Nat) :=
  [.address ⟨1, "bc1"⟩, .pubkey ⟨1, "02aa"⟩, .status ⟨1, "valid"⟩, .stake ⟨10, 1, 1, 500, 1, some 2, none⟩]

/-- The stake is slashed to nothing at block 3; as of block 2 it has its weight. -/
theorem slashed_stake_weighs_as_of_two : ∃ s s' : Chain Nat, s.tip = 2 ∧ s'.tip = 3 ∧
    getStakeWeightsByCapabilityAsOf plainParams s'.tables 2 100 VALIDATOR_QUERY_LIMIT (some "BTC")
        "mainnet" =
      getStakeWeightsByCapability plainParams s.tables 2 100 VALIDATOR_QUERY_LIMIT (some "BTC")
        "mainnet" ∧
    getStakeWeightsByCapability plainParams s.tables 2 100 VALIDATOR_QUERY_LIMIT (some "BTC")
        "mainnet" = ⟨[⟨"02aa", "bc1", 500⟩], false⟩ ∧
    getStakeWeightsByCapability plainParams s'.tables 2 100 VALIDATOR_QUERY_LIMIT (some "BTC")
        "mainnet" = ⟨[], false⟩ := by
  have hexec : ((execAll (next plainParams) Any ⟨0, .empty⟩ [stakeOfFiveHundred, []]).map fun s =>
      (s.tip, getStakeWeightsByCapability plainParams s.tables 2 100 VALIDATOR_QUERY_LIMIT (some "BTC")
        "mainnet")) = some (2, ⟨[⟨"02aa", "bc1", 500⟩], false⟩) := by
    decide +kernel
  obtain ⟨s, hs, hstate⟩ := Option.map_eq_some_iff.mp hexec
  obtain ⟨htip, hlive⟩ := Prod.mk.inj hstate
  have hexec' : (((execAll (next plainParams) Any ⟨0, .empty⟩ [stakeOfFiveHundred, []]).bind fun s =>
      execAll (next plainParams) Any s [[.slash 10 0 500, .stampStakes [10]]]).map fun s =>
      (s.tip, getStakeWeightsByCapability plainParams s.tables 2 100 VALIDATOR_QUERY_LIMIT (some "BTC")
        "mainnet")) = some (3, ⟨[], false⟩) := by
    decide +kernel
  rw [hs, Option.bind_some] at hexec'
  obtain ⟨s', hs', hstate'⟩ := Option.map_eq_some_iff.mp hexec'
  obtain ⟨htip', hlive'⟩ := Prod.mk.inj hstate'
  have hlimit : 0 < VALIDATOR_QUERY_LIMIT := by decide
  have hasOf := weights_asOf_are_weights_at (run_execAll hs) (run_execAll hs') (.refl _) (.refl _) 100
    hlimit (some "BTC") "mainnet"
  rw [htip] at hasOf
  exact ⟨s, s', htip, htip', hasOf, hlive, hlive'⟩

end Chain

end XChainSync.Staking
