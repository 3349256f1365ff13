import Mathlib

/-!
# Stake weights at a block

The two queries of `db/stakes.js` over the staking tables, the live one and the one as of a past
block, and the caps both go through. A table is the list of its rows in the order the engine happens
to scan them, which no result may depend on.
-/

namespace XChainSync.Staking
set_option autoImplicit false

/-! ### Tables -/

structure Stake (A : Type) where
  action_index : Int
  source_id : Int
  signing_pubkey_id : Int
  amount : A
  status_id : Int
  activation_block : Option Int
  deactivation_block : Option Int
  deriving DecidableEq, Repr

structure Delegation where
  action_index : Int
  source_id : Int
  signing_pubkey_id : Int
  status_id : Int
  activation_block : Option Int
  deactivation_block : Option Int
  deriving DecidableEq, Repr

/-- A row of `stake_key_revocations`. -/
structure KeyRevocation where
  action_index : Int
  source_id : Int
  signing_pubkey_id : Int
  status_id : Int
  deactivation_block : Option Int
  deriving DecidableEq, Repr

/-- A row of `capability_slash_events`. -/
structure SlashEvent where
  signing_pubkey_id : Int
  block_index : Int
  deriving DecidableEq, Repr

inductive TargetTable where
  | stakes
  | unstakes
  deriving DecidableEq, Repr

/-- A row of `capability_slash_debits`. -/
structure SlashDebit (A : Type) where
  stake_action_index : Int
  amount : A
  block_index : Int
  target_table : TargetTable
  deriving DecidableEq, Repr

/-- A row of an index table: the id and the text it stands for. -/
structure IndexRow where
  id : Int
  text : String
  deriving DecidableEq, Repr

structure Tables (A : Type) where
  stakes : List (Stake A)
  delegations : List Delegation
  stake_key_revocations : List KeyRevocation
  capability_slash_events : List SlashEvent
  capability_slash_debits : List (SlashDebit A)
  index_addresses : List IndexRow
  index_pubkeys : List IndexRow
  index_statuses : List IndexRow
  deriving DecidableEq, Repr

structure WeightRow where
  pubkey : String
  source : String
  weight : Nat
  deriving DecidableEq, Repr

/-! ### The queries -/

/-- `activation_block <= ? AND (deactivation_block IS NULL OR deactivation_block > ?)` -/
def activeAt (blockIndex : Int) (activation_block deactivation_block : Option Int) : Bool :=
  activation_block.any (· ≤ blockIndex) && deactivation_block.all (blockIndex < ·)

/-- `GROUP BY source_id HAVING total >= ?` -/
def totals (floor : Nat) (rows : List (Int × Nat)) : List (Int × Nat) :=
  ((rows.map Prod.fst).dedup.map fun id =>
    (id, ((rows.filter (·.1 = id)).map Prod.snd).sum)).filter (floor ≤ ·.2)

variable {A : Type}

def Stake.counts (valid_id blockIndex : Int) (s : Stake A) : Bool :=
  s.status_id = valid_id && activeAt blockIndex s.activation_block s.deactivation_block

namespace Tables

def revoked (t : Tables A) (valid_id blockIndex : Int) (s : Stake A) : Bool :=
  t.stake_key_revocations.any fun r =>
    r.source_id = s.source_id && r.signing_pubkey_id = s.signing_pubkey_id &&
      r.status_id = valid_id && r.deactivation_block.any (· ≤ blockIndex) &&
        s.action_index < r.action_index

/-- `stakeWeightSlashExclusion`, as a condition on the key. -/
def slashed (t : Tables A) (blockIndex key : Int) : Bool :=
  t.capability_slash_events.any fun e => e.signing_pubkey_id = key && e.block_index ≤ blockIndex

def stakeKeys (t : Tables A) (valid_id blockIndex : Int) : List (Int × Int) :=
  (t.stakes.filter fun s => s.counts valid_id blockIndex && !t.revoked valid_id blockIndex s &&
    !t.slashed blockIndex s.signing_pubkey_id).map fun s => (s.source_id, s.signing_pubkey_id)

def delegatedKeys (t : Tables A) (valid_id blockIndex : Int) : List (Int × Int) :=
  (t.delegations.filter fun d => d.status_id = valid_id &&
    activeAt blockIndex d.activation_block d.deactivation_block &&
      !t.slashed blockIndex d.signing_pubkey_id).map fun d => (d.source_id, d.signing_pubkey_id)

/-- The UNION of the two. -/
def effectiveKeys (t : Tables A) (valid_id blockIndex : Int) : List (Int × Int) :=
  (t.stakeKeys valid_id blockIndex ++ t.delegatedKeys valid_id blockIndex).dedup

/-- What each counted stake adds to its source. -/
def counted (t : Tables A) (amount : Stake A → Nat) (valid_id blockIndex : Int) : List (Int × Nat) :=
  (t.stakes.filter (·.counts valid_id blockIndex)).map fun s => (s.source_id, amount s)

/-- The joins with the addresses, the keys and their texts. -/
def resolve (t : Tables A) (q : List (Int × Nat)) (keys : List (Int × Int)) : List WeightRow :=
  q.flatMap fun w =>
    (t.index_addresses.filter (·.id = w.1)).flatMap fun address =>
      (keys.filter (·.1 = w.1)).flatMap fun k =>
        (t.index_pubkeys.filter (·.id = k.2)).map fun pubkey =>
          ⟨pubkey.text, address.text, w.2⟩

def stakeWeights (t : Tables A) (amount : Stake A → Nat) (valid_id blockIndex : Int)
    (minStake : Nat) : List WeightRow :=
  t.resolve (totals minStake (t.counted amount valid_id blockIndex))
    (t.effectiveKeys valid_id blockIndex)

variable (units : A → Nat)

/-- `stakeWeightsSql`, with `units` the DECIMAL(30,8) of an amount in its last place. -/
def stakeWeightsSql (t : Tables A) : Int → Int → Nat → List WeightRow :=
  t.stakeWeights fun s => units s.amount

/-- The debits after the block that the LEFT JOIN adds back to the stake of the action, 0 for none. -/
def addback (t : Tables A) (snapshotBlock stake_action_index : Int) : Nat :=
  ((t.capability_slash_debits.filter fun d => d.target_table = .stakes &&
    snapshotBlock < d.block_index && d.stake_action_index = stake_action_index).map
      fun d => units d.amount).sum

/-- A stake's amount as it was at the block. -/
def amountAsOf (t : Tables A) (snapshotBlock : Int) (s : Stake A) : Nat :=
  units s.amount + t.addback units snapshotBlock s.action_index

/-- `STAKE_WEIGHTS_AS_OF_SQL`. -/
def stakeWeightsAsOfSql (t : Tables A) (valid_id snapshotBlock : Int) : Nat → List WeightRow :=
  t.stakeWeights (t.amountAsOf units snapshotBlock) valid_id snapshotBlock

def getStatusId (t : Tables A) (status : String) : Option Int :=
  (t.index_statuses.find? (·.text = status)).map IndexRow.id

end Tables

/-! ### The caps -/

/-- How the engine compares the texts of an index column: folding as the column declares, or binary
where the query says so. Texts alike under the binary collation are alike under the folding one. -/
structure Collation (K : Type) where
  general_ci : String → K
  bin : String → K
  finer : ∀ a b, bin a = bin b → general_ci a = general_ci b

def Collation.key {K : Type} (c : Collation K) (binCollation : Bool) : String → K :=
  if binCollation then c.bin else c.general_ci

/-- The heights of the two gates, by coin and network or by network alone. -/
structure Gates where
  swqSourceCap : List (String × Int)
  stakeWeightCollation : List (String × Int)

def activationThreshold (table : List (String × Int)) (network : String) (coin : Option String) :
    Option Int :=
  (coin.bind fun c => table.lookup (c ++ ":" ++ network)).orElse fun _ => table.lookup network

namespace Gates

def isSwqSourceCapActive (g : Gates) (blockIndex : Int) (network : String) (coin : Option String) :
    Bool :=
  (activationThreshold g.swqSourceCap network coin).any (· ≤ blockIndex)

def isStakeWeightBinCollationActive (g : Gates) (blockIndex : Int) (network : String)
    (coin : Option String) : Bool :=
  (activationThreshold g.stakeWeightCollation network coin).any (· ≤ blockIndex)

/-- The heights of the registry. -/
def registry : Gates where
  swqSourceCap := [("BTC:mainnet", 960000), ("LTC:mainnet", 3143000), ("DOGE:mainnet", 6291000),
    ("BTC:testnet", 0), ("LTC:testnet", 0), ("DOGE:testnet", 0), ("regtest", 0)]
  stakeWeightCollation := [("BTC:mainnet", 0), ("LTC:mainnet", 0), ("DOGE:mainnet", 0),
    ("BTC:testnet", 155001), ("LTC:testnet", 4906040), ("DOGE:testnet", 67962387), ("regtest", 0)]

end Gates

def STAKE_WEIGHT_MAX_SOURCES : Nat := 1000

def STAKE_WEIGHT_MAX_KEYS_PER_SOURCE : Nat := 64

def VALIDATOR_QUERY_LIMIT : Nat := 1000

section Caps
variable {K : Type} [LinearOrder K]

def rowLe (key : String → K) (a b : WeightRow) : Bool :=
  key a.source < key b.source || (key a.source = key b.source && key a.pubkey ≤ key b.pubkey)

/-- `ORDER BY source, pubkey` -/
def orderBy (key : String → K) (rows : List WeightRow) : List WeightRow :=
  rows.insertionSort fun a b => rowLe key a b

/-- `DENSE_RANK` by source and `ROW_NUMBER` by key within one, along ordered rows. -/
def ranked (key : String → K) :
    Option K → Nat → Nat → List WeightRow → List (WeightRow × Nat × Nat)
  | _, _, _, [] => []
  | last, sr, kr, r :: rows =>
    if last = some (key r.source) then
      (r, sr, kr + 1) :: ranked key last sr (kr + 1) rows
    else (r, sr + 1, 1) :: ranked key (some (key r.source)) (sr + 1) 1 rows

/-- `cappedStakeWeightsSql`: the rows within the caps, each with its `_sr`. -/
def cappedStakeWeightsSql (key : String → K) (rows : List WeightRow) (maxSources maxKeys : Nat) :
    List (WeightRow × Nat) :=
  ((ranked key none 0 0 (orderBy key rows)).filter fun r =>
    r.2.1 ≤ maxSources + 1 && r.2.2 ≤ maxKeys).map fun r => (r.1, r.2.1)

/-- The rows a call returns and the flag on them. -/
structure WeightSet where
  rows : List WeightRow
  truncated : Bool
  deriving DecidableEq, Repr

structure Params (A K : Type) where
  units : A → Nat
  collation : Collation K
  gates : Gates
  activationDelay : Nat

variable (p : Params A K)

def applyStakeWeightCap (rows : List WeightRow) (blockIndex : Int) (limit : Nat)
    (coin : Option String) (network : String) : WeightSet :=
  let key := p.collation.key (p.gates.isStakeWeightBinCollationActive blockIndex network coin)
  if p.gates.isSwqSourceCapActive blockIndex network coin then
    let raw := cappedStakeWeightsSql key rows STAKE_WEIGHT_MAX_SOURCES
      STAKE_WEIGHT_MAX_KEYS_PER_SOURCE
    let truncated := raw.any (STAKE_WEIGHT_MAX_SOURCES < ·.2)
    ⟨(if truncated then raw.filter (·.2 ≤ STAKE_WEIGHT_MAX_SOURCES) else raw).map Prod.fst, truncated⟩
  else
    let raw := (orderBy key rows).take limit
    ⟨raw, limit ≤ raw.length⟩

def getStakeWeightsByCapability (t : Tables A) (blockIndex : Int) (minStake : A) (limit : Nat)
    (coin : Option String) (network : String) : WeightSet :=
  match t.getStatusId "valid" with
  | none => ⟨[], false⟩
  | some valid_id => applyStakeWeightCap p
      (t.stakeWeightsSql p.units valid_id blockIndex (p.units minStake)) blockIndex limit coin network

def getStakeWeightsByCapabilityAsOf (t : Tables A) (snapshotBlock : Int) (minStake : A) (limit : Nat)
    (coin : Option String) (network : String) : WeightSet :=
  match t.getStatusId "valid" with
  | none => ⟨[], false⟩
  | some valid_id => applyStakeWeightCap p
      (t.stakeWeightsAsOfSql p.units valid_id snapshotBlock (p.units minStake)) snapshotBlock limit
        coin network

end Caps

end XChainSync.Staking
