import XChainSync.Staking.Weights

/-!
# The order of a scan

Tables with the same rows in another order give the same weight sets. The queries give the same rows
in some order, and the ORDER BY leaves no choice: the index tables are unique on their texts as the
column compares them, so no two rows of a result are alike in both sort keys.
-/

namespace XChainSync.Staking
set_option autoImplicit false

open List

variable {A K : Type}

/-- The same rows in any order. -/
structure SameRows (t t' : Tables A) : Prop where
  stakes : t.stakes ~ t'.stakes
  delegations : t.delegations ~ t'.delegations
  stake_key_revocations : t.stake_key_revocations ~ t'.stake_key_revocations
  capability_slash_events : t.capability_slash_events ~ t'.capability_slash_events
  capability_slash_debits : t.capability_slash_debits ~ t'.capability_slash_debits
  index_addresses : t.index_addresses ~ t'.index_addresses
  index_pubkeys : t.index_pubkeys ~ t'.index_pubkeys
  index_statuses : t.index_statuses ~ t'.index_statuses

theorem SameRows.refl (t : Tables A) : SameRows t t :=
  ⟨.refl _, .refl _, .refl _, .refl _, .refl _, .refl _, .refl _, .refl _⟩

/-! ### The queries -/

theorem totals_perm {rows rows' : List (Int × Nat)} (floor : Nat) (h : rows ~ rows') :
    totals floor rows ~ totals floor rows' := by
  have hsum : (fun id : Int => (id, ((rows.filter (·.1 = id)).map Prod.snd).sum)) =
      fun id => (id, ((rows'.filter (·.1 = id)).map Prod.snd).sum) := by
    funext id
    rw [((h.filter _).map Prod.snd).sum_eq]
  unfold totals
  rw [hsum]
  exact (((h.map Prod.fst).dedup).map _).filter _

namespace SameRows
variable {t t' : Tables A}

theorem revoked (h : SameRows t t') (valid_id blockIndex : Int) (s : Stake A) :
    t.revoked valid_id blockIndex s = t'.revoked valid_id blockIndex s :=
  h.stake_key_revocations.any_eq

theorem slashed (h : SameRows t t') (blockIndex key : Int) :
    t.slashed blockIndex key = t'.slashed blockIndex key :=
  h.capability_slash_events.any_eq

theorem effectiveKeys (h : SameRows t t') (valid_id blockIndex : Int) :
    t.effectiveKeys valid_id blockIndex ~ t'.effectiveKeys valid_id blockIndex := by
  have hstakes : t.stakeKeys valid_id blockIndex ~ t'.stakeKeys valid_id blockIndex := by
    simp only [Tables.stakeKeys, h.revoked, h.slashed]
    exact (h.stakes.filter _).map _
  have hdelegated : t.delegatedKeys valid_id blockIndex ~ t'.delegatedKeys valid_id blockIndex := by
    simp only [Tables.delegatedKeys, h.slashed]
    exact (h.delegations.filter _).map _
  exact (hstakes.append hdelegated).dedup

theorem resolve (h : SameRows t t') {q q' : List (Int × Nat)} {keys keys' : List (Int × Int)}
    (hq : q ~ q') (hkeys : keys ~ keys') : t.resolve q keys ~ t'.resolve q' keys' := by
  apply hq.flatMap
  intro w _
  apply (h.index_addresses.filter _).flatMap
  intro address _
  apply (hkeys.filter _).flatMap
  intro k _
  exact (h.index_pubkeys.filter _).map _

theorem stakeWeights (h : SameRows t t') (amount : Stake A → Nat) (valid_id blockIndex : Int)
    (minStake : Nat) :
    t.stakeWeights amount valid_id blockIndex minStake ~
      t'.stakeWeights amount valid_id blockIndex minStake :=
  h.resolve (totals_perm minStake ((h.stakes.filter _).map _)) (h.effectiveKeys valid_id blockIndex)

theorem amountAsOf (h : SameRows t t') (units : A → Nat) (snapshotBlock : Int) :
    t.amountAsOf units snapshotBlock = t'.amountAsOf units snapshotBlock := by
  funext s
  unfold Tables.amountAsOf Tables.addback
  rw [((h.capability_slash_debits.filter _).map _).sum_eq]

end SameRows

/-! ### The order of a result -/

section Order
variable [LinearOrder K]

instance (key : String → K) : Std.Total (fun a b : WeightRow => (rowLe key a b : Prop)) where
  total a b := by
    simp only [rowLe, Bool.or_eq_true, Bool.and_eq_true, decide_eq_true_eq]
    rcases lt_trichotomy (key a.source) (key b.source) with h | h | h
    · exact Or.inl (Or.inl h)
    · rcases le_total (key a.pubkey) (key b.pubkey) with h' | h'
      · exact Or.inl (Or.inr ⟨h, h'⟩)
      · exact Or.inr (Or.inr ⟨h.symm, h'⟩)
    · exact Or.inr (Or.inl h)

instance (key : String → K) : IsTrans WeightRow (fun a b => (rowLe key a b : Prop)) where
  trans a b c := by
    simp only [rowLe, Bool.or_eq_true, Bool.and_eq_true, decide_eq_true_eq]
    rintro (hab | ⟨hab, hab'⟩) (hbc | ⟨hbc, hbc'⟩)
    · exact Or.inl (hab.trans hbc)
    · exact Or.inl (hbc ▸ hab)
    · exact Or.inl (hab ▸ hbc)
    · exact Or.inr ⟨hab.trans hbc, hab'.trans hbc'⟩

theorem rowLe_antisymm {key : String → K} {a b : WeightRow} (hab : rowLe key a b)
    (hba : rowLe key b a) : key a.source = key b.source ∧ key a.pubkey = key b.pubkey := by
  simp only [rowLe, Bool.or_eq_true, Bool.and_eq_true, decide_eq_true_eq] at hab hba
  rcases hab with hab | ⟨hs, hp⟩
  · rcases hba with hba | ⟨hs, -⟩
    · exact absurd hab hba.asymm
    · exact absurd hs.symm hab.ne
  · rcases hba with hba | ⟨-, hp'⟩
    · exact absurd hs.symm hba.ne
    · exact ⟨hs, le_antisymm hp hp'⟩

/-- No two rows are alike in both sort keys. -/
def Distinguished (key : String → K) (rows : List WeightRow) : Prop :=
  ∀ a ∈ rows, ∀ b ∈ rows, key a.source = key b.source → key a.pubkey = key b.pubkey → a = b

theorem orderBy_eq_of_perm {key : String → K} {rows rows' : List WeightRow} (h : rows ~ rows')
    (hd : Distinguished key rows) : orderBy key rows = orderBy key rows' := by
  have hperm : orderBy key rows ~ orderBy key rows' :=
    (perm_insertionSort _ rows).trans (h.trans (perm_insertionSort _ rows').symm)
  refine hperm.eq_of_pairwise ?_ (pairwise_insertionSort _ rows) (pairwise_insertionSort _ rows')
  intro a b ha hb hab hba
  obtain ⟨hs, hp⟩ := rowLe_antisymm hab hba
  have hb' : b ∈ rows := h.mem_iff.mpr ((mem_insertionSort _).mp hb)
  exact hd a ((mem_insertionSort _).mp ha) b hb' hs hp

/-- The caps see a result in its order only. -/
theorem applyStakeWeightCap_congr (p : Params A K) {rows rows' : List WeightRow} (h : rows ~ rows')
    (hd : ∀ binCollation, Distinguished (p.collation.key binCollation) rows) (blockIndex : Int)
    (limit : Nat) (coin : Option String) (network : String) :
    applyStakeWeightCap p rows blockIndex limit coin network =
      applyStakeWeightCap p rows' blockIndex limit coin network := by
  unfold applyStakeWeightCap cappedStakeWeightsSql
  dsimp only
  rw [orderBy_eq_of_perm h (hd _)]

theorem applyStakeWeightCap_nil (p : Params A K) (blockIndex : Int) {limit : Nat} (hl : 0 < limit)
    (coin : Option String) (network : String) :
    applyStakeWeightCap p [] blockIndex limit coin network = ⟨[], false⟩ := by
  unfold applyStakeWeightCap
  dsimp only
  split
  · rfl
  · have hne : limit ≠ 0 := by omega
    simp [orderBy, hne]

end Order

/-! ### Unique texts -/

theorem Collation.general_ci_of_key {c : Collation K} {binCollation : Bool} {a b : String}
    (h : c.key binCollation a = c.key binCollation b) : c.general_ci a = c.general_ci b := by
  unfold Collation.key at h
  split at h
  · exact c.finer a b h
  · exact h

/-- The unique indexes of the index tables. -/
structure UniqueTexts (c : Collation K) (t : Tables A) : Prop where
  addresses : (t.index_addresses.map fun r => c.general_ci r.text).Nodup
  pubkeys : (t.index_pubkeys.map fun r => c.general_ci r.text).Nodup
  statuses : (t.index_statuses.map IndexRow.text).Nodup

theorem UniqueTexts.congr {c : Collation K} {t t' : Tables A} (h : UniqueTexts c t)
    (hs : SameRows t t') : UniqueTexts c t' :=
  ⟨(hs.index_addresses.map _).nodup_iff.mp h.addresses, (hs.index_pubkeys.map _).nodup_iff.mp h.pubkeys,
    (hs.index_statuses.map _).nodup_iff.mp h.statuses⟩

theorem mem_resolve {t : Tables A} {q : List (Int × Nat)} {keys : List (Int × Int)}
    {row : WeightRow} (h : row ∈ t.resolve q keys) :
    ∃ w ∈ q, ∃ address ∈ t.index_addresses, ∃ pubkey ∈ t.index_pubkeys,
      address.id = w.1 ∧ row = ⟨pubkey.text, address.text, w.2⟩ := by
  obtain ⟨w, hw, h⟩ := mem_flatMap.mp h
  obtain ⟨address, ha, h⟩ := mem_flatMap.mp h
  obtain ⟨k, -, h⟩ := mem_flatMap.mp h
  obtain ⟨pubkey, hp, rfl⟩ := mem_map.mp h
  simp only [mem_filter, decide_eq_true_eq] at ha hp
  exact ⟨w, hw, address, ha.1, pubkey, hp.1, ha.2, rfl⟩

/-- A source has one total. -/
theorem totals_functional {floor : Nat} {rows : List (Int × Nat)} {w w' : Int × Nat}
    (hw : w ∈ totals floor rows) (hw' : w' ∈ totals floor rows) (h : w.1 = w'.1) : w = w' := by
  simp only [totals, mem_filter, mem_map] at hw hw'
  obtain ⟨⟨id, -, rfl⟩, -⟩ := hw
  obtain ⟨⟨id', -, rfl⟩, -⟩ := hw'
  dsimp only at h
  rw [h]

theorem stakeWeights_distinguished {c : Collation K} {t : Tables A} (hu : UniqueTexts c t)
    (amount : Stake A → Nat) (valid_id blockIndex : Int) (minStake : Nat) (binCollation : Bool) :
    Distinguished (c.key binCollation) (t.stakeWeights amount valid_id blockIndex minStake) := by
  intro a ha b hb hs hp
  obtain ⟨w, hw, address, haddress, pubkey, hpubkey, hid, rfl⟩ := mem_resolve ha
  obtain ⟨w', hw', address', haddress', pubkey', hpubkey', hid', rfl⟩ := mem_resolve hb
  obtain rfl : address = address' :=
    inj_on_of_nodup_map hu.addresses haddress haddress' (Collation.general_ci_of_key hs)
  obtain rfl : pubkey = pubkey' :=
    inj_on_of_nodup_map hu.pubkeys hpubkey hpubkey' (Collation.general_ci_of_key hp)
  rw [totals_functional hw hw' (hid.symm.trans hid')]

/-- With unique texts the one row of a status is found whatever the order. -/
theorem getStatusId_eq_some_iff {t : Tables A} (hu : (t.index_statuses.map IndexRow.text).Nodup)
    {status : String} {id : Int} : t.getStatusId status = some id ↔ ⟨id, status⟩ ∈ t.index_statuses := by
  unfold Tables.getStatusId
  constructor
  · intro h
    obtain ⟨row, hrow, rfl⟩ := Option.map_eq_some_iff.mp h
    have htext : row.text = status := by simpa using find?_some hrow
    rw [← htext]
    exact mem_of_find?_eq_some hrow
  · intro h
    cases hf : t.index_statuses.find? (·.text = status) with
    | none =>
      have hnone := find?_eq_none.mp hf _ h
      simp at hnone
    | some row =>
      have htext : row.text = status := by simpa using find?_some hf
      have heq : row = ⟨id, status⟩ :=
        inj_on_of_nodup_map hu (mem_of_find?_eq_some hf) h htext
      rw [heq]
      rfl

theorem SameRows.getStatusId {c : Collation K} {t t' : Tables A} (h : SameRows t t')
    (hu : UniqueTexts c t) (status : String) : t.getStatusId status = t'.getStatusId status := by
  apply Option.ext
  intro id
  rw [getStatusId_eq_some_iff hu.statuses, getStatusId_eq_some_iff (hu.congr h).statuses]
  exact h.index_statuses.mem_iff

/-! ### The weight sets -/

section Sets
variable [LinearOrder K] (p : Params A K) {t t' : Tables A}

theorem getStakeWeightsByCapability_congr (h : SameRows t t') (hu : UniqueTexts p.collation t)
    (blockIndex : Int) (minStake : A) (limit : Nat) (coin : Option String) (network : String) :
    getStakeWeightsByCapability p t blockIndex minStake limit coin network =
      getStakeWeightsByCapability p t' blockIndex minStake limit coin network := by
  unfold getStakeWeightsByCapability
  rw [h.getStatusId hu]
  cases t'.getStatusId "valid" with
  | none => rfl
  | some valid_id =>
    exact applyStakeWeightCap_congr p (h.stakeWeights _ _ _ _)
      (stakeWeights_distinguished hu _ _ _ _) _ _ _ _

theorem getStakeWeightsByCapabilityAsOf_congr (h : SameRows t t') (hu : UniqueTexts p.collation t)
    (snapshotBlock : Int) (minStake : A) (limit : Nat) (coin : Option String) (network : String) :
    getStakeWeightsByCapabilityAsOf p t snapshotBlock minStake limit coin network =
      getStakeWeightsByCapabilityAsOf p t' snapshotBlock minStake limit coin network := by
  unfold getStakeWeightsByCapabilityAsOf Tables.stakeWeightsAsOfSql
  rw [h.getStatusId hu, h.amountAsOf p.units snapshotBlock]
  cases t'.getStatusId "valid" with
  | none => rfl
  | some valid_id =>
    exact applyStakeWeightCap_congr p (h.stakeWeights _ _ _ _)
      (stakeWeights_distinguished hu _ _ _ _) _ _ _ _

end Sets

end XChainSync.Staking
