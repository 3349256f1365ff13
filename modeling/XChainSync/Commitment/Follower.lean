import Mathlib
import XChainSync.Library.Runs
import XChainSync.Commitment.Balances

/-!
# The state commitment of a follower

A replica whose applies, rollbacks and snapshots write the roots of src/state_commitment/index.js.
Every operation is a transaction: one that throws leaves the replica as it was. The other trees on
the node store are the rows they file.
-/

namespace XChainSync.Commitment
open HashTree Merkle
open Runs (Run)
set_option autoImplicit false

/-- The columns of `state_tree_roots` that are threaded. -/
structure StateRootsRow (Digest : Type) where
  block_index : Int
  balances_root : Digest
  contract_state_root : Option Digest
  contract_state_root_shadow : Option Digest
  balances_root_escrow_shadow : Option Digest

/-- `tip` is the height of the last block or snapshot that stands. -/
structure Follower (Digest : Type) where
  contract_state : List ContractStateRow
  ledger : Ledger
  state_tree_roots : List (StateRootsRow Digest)
  state_tree_nodes : NodeStore Digest
  tip : Int

/-- The rows an apply inserts. -/
structure BlockRows where
  contract_state : List ContractStateRow
  credits : List LedgerRow
  debits : List LedgerRow
  escrow_leaf_journal : List EscrowLeafRow

/-- `otherNodes` are the children of the rows that other trees file. -/
inductive FollowerOp (Digest : Type) where
  | applyBlock (block_index : Int) (rows : BlockRows) (escrows : List LedgerRow)
      (otherNodes : List (Digest × Digest))
  | rollback (height : Int)
  | applyFullSnapshot (block_height : Int) (contract_state : List ContractStateRow) (ledger : Ledger)
      (state_tree_nodes : NodeStore Digest) (otherNodes : List (Digest × Digest))
  | applyIncrementalSnapshot (block_height : Int) (rows : BlockRows)
      (otherNodes : List (Digest × Digest))

def Follower.empty {Digest : Type} : Follower Digest := ⟨[], ⟨[], [], []⟩, [], [], -1⟩

def Follower.insertRows {Digest : Type} (s : Follower Digest) (rows : BlockRows) : Follower Digest :=
  { s with
    contract_state := s.contract_state ++ rows.contract_state
    ledger :=
      { credits := s.ledger.credits ++ rows.credits
        debits := s.ledger.debits ++ rows.debits
        escrow_leaf_journal := s.ledger.escrow_leaf_journal ++ rows.escrow_leaf_journal } }

section Operations
variable {Digest : Type} [DecidableEq Digest] (h : SmtHashes Digest) (cfg : CommitmentConfig)

/-- One column of a row: its root, none where it is not computed. -/
structure Column (Digest : Type) where
  root : Option Digest
  nodes : NodeStore Digest
  hashed : List (HashInput Digest)

def column (active : Bool) (nodes : NodeStore Digest)
    (build : NodeStore Digest → Except String (Build Digest)) : Except String (Column Digest) :=
  if active then (build nodes).map fun b => ⟨some b.root, b.nodes, b.hashed⟩
  else .ok ⟨none, nodes, []⟩

def fileNodes (nodes : NodeStore Digest) (otherNodes : List (Digest × Digest)) : NodeStore Digest :=
  nodes.putMany (otherNodes.map fun p => ⟨h.nodeHash p.1 p.2, p.1, p.2⟩)

/-- A row of roots, with the node store and what was hashed for it. -/
structure Roots (Digest : Type) where
  row : StateRootsRow Digest
  nodes : NodeStore Digest
  hashed : List (HashInput Digest)

namespace Follower
variable (s : Follower Digest)

def rootsAt (blockIndex : Int) : Option (StateRootsRow Digest) :=
  s.state_tree_roots.find? fun row => row.block_index = blockIndex

/-- `reservedSubRootCandidates` and its gate. -/
def contractStateColumn (nodes : NodeStore Digest) (blockIndex : Int) :
    Except String (Column Digest) :=
  column (cfg.isSubtreeActive blockIndex) nodes fun nodes =>
    resolveContractStateRoot h cfg nodes s.contract_state
      ((s.rootsAt (blockIndex - 1)).bind StateRootsRow.contract_state_root) blockIndex

/-- `shadowSubRoots`. -/
def contractShadowColumn (nodes : NodeStore Digest) (blockIndex : Int) :
    Except String (Column Digest) :=
  column (cfg.isSubtreeShadowActive blockIndex) nodes fun nodes =>
    resolveContractStateRoot h cfg nodes s.contract_state
      ((s.rootsAt (blockIndex - 1)).bind StateRootsRow.contract_state_root_shadow) blockIndex

def escrowShadowColumn (nodes : NodeStore Digest) (blockIndex : Int)
    (balanceUpdates : Option (List (Buf × Option Buf))) : Except String (Column Digest) :=
  column (cfg.isEscrowLockedLeafShadowActive blockIndex) nodes fun nodes =>
    resolveShadowBalancesRoot h cfg nodes s.ledger
      ((s.rootsAt (blockIndex - 1)).bind StateRootsRow.balances_root_escrow_shadow) blockIndex
      balanceUpdates

def computeFollowerRoots (blockIndex : Int) (touchedKeys : List (String × String))
    (isActivationBlock : Bool) (otherNodes : List (Digest × Digest)) :
    Except String (Roots Digest) := do
  let (balances, updates) ← computeFollowerBalancesRoot h cfg s.state_tree_nodes s.ledger
    ((s.rootsAt (blockIndex - 1)).map StateRootsRow.balances_root) blockIndex touchedKeys
    isActivationBlock
  let contract ← s.contractStateColumn h cfg (fileNodes h balances.nodes otherNodes) blockIndex
  let shadow ← s.contractShadowColumn h cfg contract.nodes blockIndex
  let escrow ← s.escrowShadowColumn h cfg shadow.nodes blockIndex updates
  return {
    row := ⟨blockIndex, balances.root, contract.root, shadow.root, escrow.root⟩
    nodes := escrow.nodes
    hashed := balances.hashed ++ otherNodes.map (fun p => .node p.1 p.2) ++ contract.hashed ++
      shadow.hashed ++ escrow.hashed }

/-- The escrow shadow of a row that is there already is not among the updated columns. -/
def seedSnapshotRoots (blockHeight : Int) (otherNodes : List (Digest × Digest)) :
    Except String (Roots Digest) := do
  let balances ← buildFullBalancesRoot h cfg s.state_tree_nodes s.ledger
    (cfg.isEscrowLockedLeafActive blockHeight)
  let contract ← s.contractStateColumn h cfg (fileNodes h balances.nodes otherNodes) blockHeight
  let shadow ← s.contractShadowColumn h cfg contract.nodes blockHeight
  return {
    row := ⟨blockHeight, balances.root, contract.root, shadow.root,
      (s.rootsAt blockHeight).bind StateRootsRow.balances_root_escrow_shadow⟩
    nodes := shadow.nodes
    hashed := balances.hashed ++ otherNodes.map (fun p => .node p.1 p.2) ++ contract.hashed ++
      shadow.hashed }

/-- `INSERT ... ON DUPLICATE KEY UPDATE`, the block now standing at the height. -/
def store (blockIndex : Int) (roots : Except String (Roots Digest)) :
    Except String (Follower Digest × List (HashInput Digest)) :=
  roots.map fun roots =>
    ({ s with
        state_tree_roots :=
          (s.state_tree_roots.filter fun row => row.block_index ≠ blockIndex) ++ [roots.row]
        state_tree_nodes := roots.nodes
        tip := blockIndex }, roots.hashed)

def deleteStateTreeRootsFromBlock (blockIndex : Int) : Follower Digest :=
  { s with state_tree_roots := s.state_tree_roots.filter fun row => row.block_index < blockIndex }

def rollback (height : Int) : Follower Digest :=
  { s.deleteStateTreeRootsFromBlock height with
    contract_state := rowsUpTo (height - 1) s.contract_state
    ledger := s.ledger.upTo (height - 1)
    tip := min s.tip (height - 1) }

/-- The replica after an operation, with what was hashed in it. -/
def applyOp : FollowerOp Digest → Except String (Follower Digest × List (HashInput Digest))
  | .applyBlock blockIndex rows escrows otherNodes =>
    let t := s.insertRows rows
    if cfg.isStateCommitmentActive blockIndex then
      let isActivation := cfg.isStateCommitmentActivationBlock blockIndex
      let touchedKeys := if isActivation then []
        else collectSmtTouchedKeys rows.credits rows.debits escrows
      t.store blockIndex (t.computeFollowerRoots h cfg blockIndex touchedKeys isActivation otherNodes)
    else .ok ({ t with tip := blockIndex }, [])
  | .rollback height => .ok (s.rollback height, [])
  | .applyFullSnapshot blockHeight contract_state ledger nodes otherNodes =>
    let t : Follower Digest :=
      { (s.deleteStateTreeRootsFromBlock blockHeight) with
        contract_state := contract_state
        ledger := ledger
        state_tree_nodes := nodes }
    if cfg.isStateCommitmentActive blockHeight then
      t.store blockHeight (t.seedSnapshotRoots h cfg blockHeight otherNodes)
    else .ok ({ t with tip := blockHeight }, [])
  | .applyIncrementalSnapshot blockHeight rows otherNodes =>
    let t := s.insertRows rows
    if cfg.isStateCommitmentActive blockHeight then
      t.store blockHeight (t.seedSnapshotRoots h cfg blockHeight otherNodes)
    else .ok ({ t with tip := blockHeight }, [])

def step (op : FollowerOp Digest) : Follower Digest :=
  match s.applyOp h cfg op with
  | .ok (t, _) => t
  | .error _ => s

end Follower

end Operations

/-! ### What the operations are asked for -/

section Domain
variable {Digest : Type} [DecidableEq Digest] (h : SmtHashes Digest) (cfg : CommitmentConfig)
variable (A : Set (HashInput Digest))

/-- The ids of the rows are keys, and each id of an index has a text of its own. -/
structure Follower.Keyed (s : Follower Digest) : Prop where
  contract_state : (s.contract_state.map ContractStateRow.id).Nodup
  ledger : s.ledger.Unique

def BlockRows.Within (rows : BlockRows) (p : Int → Prop) : Prop :=
  (∀ r ∈ rows.contract_state, p r.block_index) ∧ (∀ r ∈ rows.credits, p r.block_index) ∧
    (∀ r ∈ rows.debits, p r.block_index) ∧ ∀ r ∈ rows.escrow_leaf_journal, p r.block_index

/-- A block is above the tip and adds rows of its own height, a snapshot has no row above its
height, and its node rows are filed under the hash of their children. -/
def Follower.Feasible (s : Follower Digest) : FollowerOp Digest → Prop
  | .applyBlock blockIndex rows _ _ =>
    s.tip < blockIndex ∧ rows.Within (· = blockIndex) ∧ (s.insertRows rows).Keyed
  | .rollback _ => True
  | .applyFullSnapshot blockHeight contract_state ledger nodes _ =>
    (∀ r ∈ contract_state, r.block_index ≤ blockHeight) ∧
      (∀ r ∈ ledger.credits ++ ledger.debits, r.block_index ≤ blockHeight) ∧
      (∀ r ∈ ledger.escrow_leaf_journal, r.block_index ≤ blockHeight) ∧
      Follower.Keyed { s with contract_state := contract_state, ledger := ledger } ∧
      ∀ row ∈ nodes, h.nodeHash row.left row.right = row.hash
  | .applyIncrementalSnapshot blockHeight rows _ =>
    s.tip ≤ blockHeight ∧ rows.Within (fun b => s.tip < b ∧ b ≤ blockHeight) ∧
      (s.insertRows rows).Keyed

def hashedOf (b : Except String (Build Digest)) : List (HashInput Digest) :=
  match b with
  | .ok b => b.hashed
  | .error _ => []

/-- What the full builds over a replica hash. -/
def Follower.fullBuildHashes (s : Follower Digest) : List (HashInput Digest) :=
  hashedOf (buildFullContractStateRoot h cfg s.state_tree_nodes s.contract_state) ++
    hashedOf (buildFullBalancesRoot h cfg s.state_tree_nodes s.ledger
      (cfg.isEscrowLockedLeafActive s.tip)) ++
    hashedOf (buildFullBalancesRoot h cfg s.state_tree_nodes s.ledger true)

/-- What was hashed for the node rows that come with an operation. -/
def FollowerOp.shipped : FollowerOp Digest → List (HashInput Digest)
  | .applyFullSnapshot _ _ _ nodes _ => nodes.map fun row => .node row.left row.right
  | _ => []

/-- The inputs of the hash functions, those of the full builds over the outcome among them, are
in `A`. -/
structure Fits (s : Follower Digest) (op : FollowerOp Digest) : Prop where
  hashed : ∀ t log, s.applyOp h cfg op = .ok (t, log) → ∀ i ∈ log, i ∈ A
  shipped : ∀ i ∈ op.shipped, i ∈ A
  full : ∀ i ∈ (s.step h cfg op).fullBuildHashes h cfg, i ∈ A

end Domain

/-! ### The node store grows -/

section Growth
variable {Digest : Type} [DecidableEq Digest] {h : SmtHashes Digest} {cfg : CommitmentConfig}
variable {A : Set (HashInput Digest)}

/-- A store that was filed row by row keeps its rows and is still so. -/
def Grows (h : SmtHashes Digest) (A : Set (HashInput Digest)) (nodes nodes' : NodeStore Digest) :
    Prop :=
  Filed h A nodes → Filed h A nodes' ∧ Extends nodes.get nodes'.get

theorem Grows.refl (nodes : NodeStore Digest) : Grows h A nodes nodes :=
  fun hF => ⟨hF, fun _ _ hget => hget⟩

theorem Grows.trans {nodes nodes' nodes'' : NodeStore Digest} (hg : Grows h A nodes nodes')
    (hg' : Grows h A nodes' nodes'') : Grows h A nodes nodes'' := by
  intro hF
  obtain ⟨hF', hx⟩ := hg hF
  obtain ⟨hF'', hx'⟩ := hg' hF'
  exact ⟨hF'', fun hash r hget => hx' hash r (hx hash r hget)⟩

/-- A build that is leaf writes over a store, from whatever root. -/
def BuiltOn (h : SmtHashes Digest) (nodes : NodeStore Digest) (b : Build Digest) : Prop :=
  ∃ root ws, b = writeLeaves h ⟨root, nodes, []⟩ ws

theorem BuiltOn.grows {nodes : NodeStore Digest} {b : Build Digest} (hb : BuiltOn h nodes b)
    (hlog : ∀ i ∈ b.hashed, i ∈ A) : Grows h A nodes b.nodes := by
  obtain ⟨root, ws, rfl⟩ := hb
  exact fun hF => @Filed.writeLeaves _ _ h A ⟨root, nodes, []⟩ hF ws hlog

theorem builtOn_resolveContractStateRoot {nodes : NodeStore Digest} {rows : List ContractStateRow}
    {priorRoot : Option Digest} {blockIndex : Int} {b : Build Digest}
    (hb : resolveContractStateRoot h cfg nodes rows priorRoot blockIndex = .ok b) :
    BuiltOn h nodes b := by
  cases priorRoot with
  | none =>
    obtain ⟨ws, -, rfl⟩ := of_map_eq_ok hb
    exact ⟨_, ws, rfl⟩
  | some root =>
    obtain ⟨ws, -, rfl⟩ := of_map_eq_ok hb
    exact ⟨_, ws, rfl⟩

theorem builtOn_buildFullBalancesRoot {nodes : NodeStore Digest} {l : Ledger}
    {escrowLeaves : Bool} {b : Build Digest}
    (hb : buildFullBalancesRoot h cfg nodes l escrowLeaves = .ok b) : BuiltOn h nodes b := by
  obtain ⟨-, ws, -, -, rfl⟩ := buildFullBalancesRoot_eq_ok hb
  exact ⟨_, ws, rfl⟩

theorem builtOn_applyEscrowLeaves {nodes : NodeStore Digest} {l : Ledger} {blockIndex : Int}
    {b b' : Build Digest} (hb : BuiltOn h nodes b)
    (hb' : applyEscrowLeaves h cfg b l blockIndex = .ok b') : BuiltOn h nodes b' := by
  obtain ⟨root, ws, rfl⟩ := hb
  rw [applyEscrowLeaves] at hb'
  obtain ⟨writes, -, hb'⟩ := of_bind_eq_ok hb'
  obtain ⟨ws', -, hb'⟩ := of_bind_eq_ok hb'
  refine ⟨root, ws ++ ws', ?_⟩
  rw [← Except.ok.inj hb', writeLeaves, writeLeaves, writeLeaves, List.foldl_append]

theorem builtOn_computeFollowerBalancesRoot {nodes : NodeStore Digest} {l : Ledger}
    {priorRoot : Option Digest} {blockIndex : Int} {touchedKeys : List (String × String)}
    {isActivationBlock : Bool} {b : Build Digest} {updates : Option (List (Buf × Option Buf))}
    (hb : computeFollowerBalancesRoot h cfg nodes l priorRoot blockIndex touchedKeys
      isActivationBlock = .ok (b, updates)) : BuiltOn h nodes b := by
  rw [computeFollowerBalancesRoot] at hb
  dsimp only at hb
  split at hb
  · obtain ⟨b', hb', hb⟩ := of_bind_eq_ok hb
    obtain ⟨rfl, -⟩ := Prod.mk.inj (Except.ok.inj hb)
    exact builtOn_buildFullBalancesRoot hb'
  · obtain ⟨writes, -, hb⟩ := of_bind_eq_ok hb
    obtain ⟨ws, -, hb⟩ := of_bind_eq_ok hb
    obtain ⟨b', hb', hb⟩ := of_bind_eq_ok hb
    obtain ⟨rfl, -⟩ := Prod.mk.inj (Except.ok.inj hb)
    split at hb'
    · exact builtOn_applyEscrowLeaves ⟨_, ws, rfl⟩ hb'
    · obtain rfl := Except.ok.inj hb'
      exact ⟨_, ws, rfl⟩

theorem builtOn_resolveShadowBalancesRoot {nodes : NodeStore Digest} {l : Ledger}
    {priorRoot : Option Digest} {blockIndex : Int} {updates : Option (List (Buf × Option Buf))}
    {b : Build Digest}
    (hb : resolveShadowBalancesRoot h cfg nodes l priorRoot blockIndex updates = .ok b) :
    BuiltOn h nodes b := by
  cases priorRoot with
  | none => exact builtOn_buildFullBalancesRoot hb
  | some root =>
    cases updates with
    | none => exact builtOn_buildFullBalancesRoot hb
    | some ws => exact builtOn_applyEscrowLeaves ⟨_, ws, rfl⟩ hb

theorem grows_fileNodes (nodes : NodeStore Digest) {otherNodes : List (Digest × Digest)}
    (hlog : ∀ p ∈ otherNodes, HashInput.node p.1 p.2 ∈ A) :
    Grows h A nodes (fileNodes h nodes otherNodes) := by
  intro hF
  refine ⟨?_, NodeStore.putMany_extends _ _⟩
  intro hash l r hget
  rcases NodeStore.get_putMany_cases hget with hget | ⟨row, hrow, rfl, heq⟩
  · exact hF hash l r hget
  · obtain ⟨p, hp, rfl⟩ := List.mem_map.mp hrow
    obtain ⟨rfl, rfl⟩ := Prod.mk.inj heq
    exact ⟨hlog p hp, rfl⟩

theorem grows_column {active : Bool} {nodes : NodeStore Digest}
    {build : NodeStore Digest → Except String (Build Digest)} {c : Column Digest}
    (hc : column active nodes build = .ok c)
    (hbuilt : ∀ b, build nodes = .ok b → BuiltOn h nodes b) (hlog : ∀ i ∈ c.hashed, i ∈ A) :
    Grows h A nodes c.nodes := by
  rw [column] at hc
  split at hc
  · obtain ⟨b, hb, rfl⟩ := of_map_eq_ok hc
    exact (hbuilt b hb).grows hlog
  · obtain rfl := Except.ok.inj hc
    exact Grows.refl nodes

end Growth

section Columns
variable {Digest : Type} {A : Set (HashInput Digest)}

/-- A column at an active height has a root with some property, and none at another. -/
def ColumnIs (active : Bool) (root : Option Digest) (Q : Digest → Prop) : Prop :=
  if active then ∃ r, root = some r ∧ Q r else root = none

theorem ColumnIs.imp {active : Bool} {root : Option Digest} {Q Q' : Digest → Prop}
    (hc : ColumnIs active root Q) (hQ : ∀ r, root = some r → Q r → Q' r) :
    ColumnIs active root Q' := by
  cases active with
  | false => exact hc
  | true =>
    obtain ⟨r, hr, hq⟩ := hc
    exact ⟨r, hr, hQ r hr hq⟩

theorem ColumnIs.of_some {active : Bool} {root : Option Digest} {Q : Digest → Prop}
    (hc : ColumnIs active root Q) {r : Digest} (hr : root = some r) : Q r := by
  cases active with
  | false =>
    rw [ColumnIs, if_neg Bool.false_ne_true, hr] at hc
    cases hc
  | true =>
    obtain ⟨r', hr', hq⟩ := hc
    rw [hr] at hr'
    rwa [Option.some.inj hr']

theorem columnIs_column {active : Bool} {nodes : NodeStore Digest}
    {build : NodeStore Digest → Except String (Build Digest)} {c : Column Digest}
    (hc : column active nodes build = .ok c) (hlog : ∀ i ∈ c.hashed, i ∈ A)
    {Q : NodeStore Digest → Digest → Prop}
    (hbuild : ∀ b, build nodes = .ok b → (∀ i ∈ b.hashed, i ∈ A) → Q b.nodes b.root) :
    ColumnIs active c.root (Q c.nodes) := by
  rw [column] at hc
  cases active with
  | false =>
    obtain rfl := Except.ok.inj hc
    exact rfl
  | true =>
    obtain ⟨b, hb, rfl⟩ := of_map_eq_ok hc
    exact ⟨b.root, rfl, hbuild b hb hlog⟩

end Columns

/-! ### The stages of a row -/

section Stages
variable {Digest : Type} [DecidableEq Digest] (h : SmtHashes Digest) (cfg : CommitmentConfig)
variable (A : Set (HashInput Digest))

/-- What an apply and a seed have in common: a build of the balances tree, the rows of other trees,
the two columns of the contract state, and at most one more build. -/
structure Stages (s : Follower Digest) (blockIndex : Int) (otherNodes : List (Digest × Digest))
    (roots : Roots Digest) (balances : Build Digest) (contract shadow : Column Digest) : Prop where
  built : BuiltOn h s.state_tree_nodes balances
  candidate : s.contractStateColumn h cfg (fileNodes h balances.nodes otherNodes) blockIndex =
    .ok contract
  shadowed : s.contractShadowColumn h cfg contract.nodes blockIndex = .ok shadow
  balances_hashed : ∀ i ∈ balances.hashed, i ∈ roots.hashed
  other_hashed : ∀ p ∈ otherNodes, HashInput.node p.1 p.2 ∈ roots.hashed
  contract_hashed : ∀ i ∈ contract.hashed, i ∈ roots.hashed
  shadow_hashed : ∀ i ∈ shadow.hashed, i ∈ roots.hashed
  last : (∀ i ∈ roots.hashed, i ∈ A) → Grows h A shadow.nodes roots.nodes
  block_index : roots.row.block_index = blockIndex
  balances_root : roots.row.balances_root = balances.root
  contract_state_root : roots.row.contract_state_root = contract.root
  contract_state_root_shadow : roots.row.contract_state_root_shadow = shadow.root

variable {h cfg A}

theorem computeFollowerRoots_ok {s : Follower Digest} {blockIndex : Int}
    {touchedKeys : List (String × String)} {isActivationBlock : Bool}
    {otherNodes : List (Digest × Digest)} {roots : Roots Digest}
    (hr : s.computeFollowerRoots h cfg blockIndex touchedKeys isActivationBlock otherNodes =
      .ok roots) :
    ∃ balances updates contract shadow escrow,
      computeFollowerBalancesRoot h cfg s.state_tree_nodes s.ledger
        ((s.rootsAt (blockIndex - 1)).map StateRootsRow.balances_root) blockIndex touchedKeys
        isActivationBlock = .ok (balances, updates) ∧
      s.escrowShadowColumn h cfg shadow.nodes blockIndex updates = .ok escrow ∧
      roots.row.balances_root_escrow_shadow = escrow.root ∧ roots.nodes = escrow.nodes ∧
      (∀ i ∈ escrow.hashed, i ∈ roots.hashed) ∧
      Stages h cfg A s blockIndex otherNodes roots balances contract shadow := by
  rw [Follower.computeFollowerRoots] at hr
  obtain ⟨⟨balances, updates⟩, hbalances, hr⟩ := of_bind_eq_ok hr
  obtain ⟨contract, hcontract, hr⟩ := of_bind_eq_ok hr
  obtain ⟨shadow, hshadow, hr⟩ := of_bind_eq_ok hr
  obtain ⟨escrow, hescrow, hr⟩ := of_bind_eq_ok hr
  obtain rfl := Except.ok.inj hr
  refine ⟨balances, updates, contract, shadow, escrow, hbalances, hescrow, rfl, rfl, ?_, ?_⟩
  · exact fun i hi => List.mem_append.mpr (Or.inr hi)
  · exact {
      built := builtOn_computeFollowerBalancesRoot hbalances
      candidate := hcontract
      shadowed := hshadow
      balances_hashed := fun i hi => by simp [hi]
      other_hashed := fun p hp => by
        have hmem : HashInput.node p.1 p.2 ∈ otherNodes.map fun p => HashInput.node p.1 p.2 :=
          List.mem_map_of_mem hp
        simp only [List.mem_append]
        exact Or.inl (Or.inl (Or.inl (Or.inr hmem)))
      contract_hashed := fun i hi => by simp [hi]
      shadow_hashed := fun i hi => by simp [hi]
      last := fun hlog => grows_column hescrow
        (fun b hb => builtOn_resolveShadowBalancesRoot hb)
        fun i hi => hlog i (List.mem_append.mpr (Or.inr hi))
      block_index := rfl
      balances_root := rfl
      contract_state_root := rfl
      contract_state_root_shadow := rfl }

theorem seedSnapshotRoots_ok {s : Follower Digest} {blockHeight : Int}
    {otherNodes : List (Digest × Digest)} {roots : Roots Digest}
    (hr : s.seedSnapshotRoots h cfg blockHeight otherNodes = .ok roots) :
    ∃ balances contract shadow,
      buildFullBalancesRoot h cfg s.state_tree_nodes s.ledger
        (cfg.isEscrowLockedLeafActive blockHeight) = .ok balances ∧
      roots.row.balances_root_escrow_shadow =
        (s.rootsAt blockHeight).bind StateRootsRow.balances_root_escrow_shadow ∧
      Stages h cfg A s blockHeight otherNodes roots balances contract shadow := by
  rw [Follower.seedSnapshotRoots] at hr
  obtain ⟨balances, hbalances, hr⟩ := of_bind_eq_ok hr
  obtain ⟨contract, hcontract, hr⟩ := of_bind_eq_ok hr
  obtain ⟨shadow, hshadow, hr⟩ := of_bind_eq_ok hr
  obtain rfl := Except.ok.inj hr
  refine ⟨balances, contract, shadow, hbalances, rfl, ?_⟩
  exact {
    built := builtOn_buildFullBalancesRoot hbalances
    candidate := hcontract
    shadowed := hshadow
    balances_hashed := fun i hi => by simp [hi]
    other_hashed := fun p hp => by
      have hmem : HashInput.node p.1 p.2 ∈ otherNodes.map fun p => HashInput.node p.1 p.2 :=
        List.mem_map_of_mem hp
      simp only [List.mem_append]
      exact Or.inl (Or.inl (Or.inr hmem))
    contract_hashed := fun i hi => by simp [hi]
    shadow_hashed := fun i hi => by simp [hi]
    last := fun _ => Grows.refl _
    block_index := rfl
    balances_root := rfl
    contract_state_root := rfl
    contract_state_root_shadow := rfl }

section Growing
variable {s : Follower Digest} {blockIndex : Int} {otherNodes : List (Digest × Digest)}
variable {roots : Roots Digest} {balances : Build Digest} {contract shadow : Column Digest}

theorem Stages.grows_balances (hs : Stages h cfg A s blockIndex otherNodes roots balances contract
    shadow) (hlog : ∀ i ∈ roots.hashed, i ∈ A) : Grows h A s.state_tree_nodes balances.nodes :=
  hs.built.grows fun i hi => hlog i (hs.balances_hashed i hi)

theorem Stages.grows_other (hs : Stages h cfg A s blockIndex otherNodes roots balances contract
    shadow) (hlog : ∀ i ∈ roots.hashed, i ∈ A) :
    Grows h A balances.nodes (fileNodes h balances.nodes otherNodes) :=
  grows_fileNodes _ fun p hp => hlog _ (hs.other_hashed p hp)

theorem Stages.grows_contract (hs : Stages h cfg A s blockIndex otherNodes roots balances contract
    shadow) (hlog : ∀ i ∈ roots.hashed, i ∈ A) :
    Grows h A (fileNodes h balances.nodes otherNodes) contract.nodes :=
  grows_column hs.candidate (fun _ hb => builtOn_resolveContractStateRoot hb)
    fun i hi => hlog i (hs.contract_hashed i hi)

theorem Stages.grows_shadow (hs : Stages h cfg A s blockIndex otherNodes roots balances contract
    shadow) (hlog : ∀ i ∈ roots.hashed, i ∈ A) : Grows h A contract.nodes shadow.nodes :=
  grows_column hs.shadowed (fun _ hb => builtOn_resolveContractStateRoot hb)
    fun i hi => hlog i (hs.shadow_hashed i hi)

/-- What follows the build of the balances tree. -/
theorem Stages.grows_rest (hs : Stages h cfg A s blockIndex otherNodes roots balances contract
    shadow) (hlog : ∀ i ∈ roots.hashed, i ∈ A) : Grows h A balances.nodes roots.nodes :=
  (hs.grows_other hlog).trans <| (hs.grows_contract hlog).trans <|
    (hs.grows_shadow hlog).trans (hs.last hlog)

theorem Stages.grows (hs : Stages h cfg A s blockIndex otherNodes roots balances contract shadow)
    (hlog : ∀ i ∈ roots.hashed, i ∈ A) : Grows h A s.state_tree_nodes roots.nodes :=
  (hs.grows_balances hlog).trans (hs.grows_rest hlog)

end Growing

end Stages

/-! ### One operation -/

section Inversion
variable {Digest : Type} [DecidableEq Digest] {h : SmtHashes Digest} {cfg : CommitmentConfig}

/-- The replica with the rows an operation brings, before it writes roots at its height. -/
def Follower.prepare (s : Follower Digest) : FollowerOp Digest → Option (Follower Digest × Int)
  | .applyBlock blockIndex rows _ _ => some (s.insertRows rows, blockIndex)
  | .rollback _ => none
  | .applyFullSnapshot blockHeight contract_state ledger nodes _ =>
    some ({ (s.deleteStateTreeRootsFromBlock blockHeight) with
      contract_state := contract_state
      ledger := ledger
      state_tree_nodes := nodes }, blockHeight)
  | .applyIncrementalSnapshot blockHeight rows _ => some (s.insertRows rows, blockHeight)

/-- The replica with a row of roots stored at a height. -/
def Follower.stored (s : Follower Digest) (height : Int) (roots : Roots Digest) : Follower Digest :=
  { s with
    state_tree_roots := (s.state_tree_roots.filter fun row => row.block_index ≠ height) ++ [roots.row]
    state_tree_nodes := roots.nodes
    tip := height }

/-- How the roots of an operation come about: an apply computes them, a snapshot seeds them. -/
def WrittenBy (h : SmtHashes Digest) (cfg : CommitmentConfig) (u : Follower Digest) (height : Int)
    (roots : Roots Digest) : FollowerOp Digest → Prop
  | .applyBlock _ rows escrows otherNodes =>
    u.computeFollowerRoots h cfg height
      (if cfg.isStateCommitmentActivationBlock height then []
      else collectSmtTouchedKeys rows.credits rows.debits escrows)
      (cfg.isStateCommitmentActivationBlock height) otherNodes = .ok roots
  | .rollback _ => False
  | .applyFullSnapshot _ _ _ _ otherNodes => u.seedSnapshotRoots h cfg height otherNodes = .ok roots
  | .applyIncrementalSnapshot _ _ otherNodes => u.seedSnapshotRoots h cfg height otherNodes = .ok roots

omit [DecidableEq Digest] in
theorem store_ok {s t : Follower Digest} {height : Int} {roots : Except String (Roots Digest)}
    {log : List (HashInput Digest)} (ht : s.store height roots = .ok (t, log)) :
    ∃ r, roots = .ok r ∧ t = s.stored height r ∧ log = r.hashed := by
  obtain ⟨r, hr, heq⟩ := of_map_eq_ok ht
  obtain ⟨rfl, rfl⟩ := Prod.mk.inj heq
  exact ⟨r, hr, rfl, rfl⟩

/-- An operation that succeeds rolls back, or prepares the replica and, past the flag day, stores
the roots it writes over that. -/
theorem applyOp_ok {s t : Follower Digest} {op : FollowerOp Digest} {log : List (HashInput Digest)}
    (ht : s.applyOp h cfg op = .ok (t, log)) :
    (∃ height, op = .rollback height ∧ t = s.rollback height) ∨
    ∃ u height, s.prepare op = some (u, height) ∧
      ((cfg.isStateCommitmentActive height = false ∧ t = { u with tip := height }) ∨
        ∃ roots, WrittenBy h cfg u height roots op ∧ t = u.stored height roots ∧
          log = roots.hashed) := by
  cases op with
  | rollback height =>
    obtain ⟨rfl, -⟩ := Prod.mk.inj (Except.ok.inj ht)
    exact Or.inl ⟨height, rfl, rfl⟩
  | applyBlock blockIndex rows escrows otherNodes =>
    refine Or.inr ⟨_, _, rfl, ?_⟩
    simp only [Follower.applyOp] at ht
    split at ht
    · obtain ⟨roots, hroots, rfl, rfl⟩ := store_ok ht
      exact Or.inr ⟨roots, hroots, rfl, rfl⟩
    · rename_i hoff
      obtain ⟨rfl, -⟩ := Prod.mk.inj (Except.ok.inj ht)
      exact Or.inl ⟨Bool.eq_false_iff.mpr hoff, rfl⟩
  | applyFullSnapshot blockHeight contract_state ledger nodes otherNodes =>
    refine Or.inr ⟨_, _, rfl, ?_⟩
    simp only [Follower.applyOp] at ht
    split at ht
    · obtain ⟨roots, hroots, rfl, rfl⟩ := store_ok ht
      exact Or.inr ⟨roots, hroots, rfl, rfl⟩
    · rename_i hoff
      obtain ⟨rfl, -⟩ := Prod.mk.inj (Except.ok.inj ht)
      exact Or.inl ⟨Bool.eq_false_iff.mpr hoff, rfl⟩
  | applyIncrementalSnapshot blockHeight rows otherNodes =>
    refine Or.inr ⟨_, _, rfl, ?_⟩
    simp only [Follower.applyOp] at ht
    split at ht
    · obtain ⟨roots, hroots, rfl, rfl⟩ := store_ok ht
      exact Or.inr ⟨roots, hroots, rfl, rfl⟩
    · rename_i hoff
      obtain ⟨rfl, -⟩ := Prod.mk.inj (Except.ok.inj ht)
      exact Or.inl ⟨Bool.eq_false_iff.mpr hoff, rfl⟩

theorem applyOp_of_writtenBy {s u : Follower Digest} {op : FollowerOp Digest} {height : Int}
    {roots : Roots Digest} (hu : s.prepare op = some (u, height))
    (hactive : cfg.isStateCommitmentActive height = true) (hw : WrittenBy h cfg u height roots op) :
    s.applyOp h cfg op = .ok (u.stored height roots, roots.hashed) := by
  cases op with
  | rollback height => cases hu
  | applyBlock blockIndex rows escrows otherNodes =>
    obtain ⟨rfl, rfl⟩ := Prod.mk.inj (Option.some.inj hu)
    rw [Follower.applyOp]
    exact (if_pos hactive).trans (congrArg (Follower.store _ _) hw)
  | applyFullSnapshot blockHeight contract_state ledger nodes otherNodes =>
    obtain ⟨rfl, rfl⟩ := Prod.mk.inj (Option.some.inj hu)
    rw [Follower.applyOp]
    exact (if_pos hactive).trans (congrArg (Follower.store _ _) hw)
  | applyIncrementalSnapshot blockHeight rows otherNodes =>
    obtain ⟨rfl, rfl⟩ := Prod.mk.inj (Option.some.inj hu)
    rw [Follower.applyOp]
    exact (if_pos hactive).trans (congrArg (Follower.store _ _) hw)

theorem stages_of_writtenBy {A : Set (HashInput Digest)} {u : Follower Digest} {height : Int}
    {roots : Roots Digest} {op : FollowerOp Digest} (hw : WrittenBy h cfg u height roots op) :
    ∃ otherNodes balances contract shadow,
      Stages h cfg A u height otherNodes roots balances contract shadow := by
  cases op with
  | rollback height => exact hw.elim
  | applyBlock blockIndex rows escrows otherNodes =>
    obtain ⟨balances, updates, contract, shadow, escrow, -, -, -, -, -, hs⟩ :=
      @computeFollowerRoots_ok _ _ _ _ A _ _ _ _ _ _ hw
    exact ⟨otherNodes, balances, contract, shadow, hs⟩
  | applyFullSnapshot blockHeight contract_state ledger nodes otherNodes =>
    obtain ⟨balances, contract, shadow, -, -, hs⟩ := @seedSnapshotRoots_ok _ _ _ _ A _ _ _ _ hw
    exact ⟨otherNodes, balances, contract, shadow, hs⟩
  | applyIncrementalSnapshot blockHeight rows otherNodes =>
    obtain ⟨balances, contract, shadow, -, -, hs⟩ := @seedSnapshotRoots_ok _ _ _ _ A _ _ _ _ hw
    exact ⟨otherNodes, balances, contract, shadow, hs⟩

end Inversion

/-! ### What every operation keeps -/

section Kept
variable {Digest : Type} [DecidableEq Digest]

/-- No row is above a height. -/
structure Follower.Below (s : Follower Digest) (height : Int) : Prop where
  contract_rows : ∀ r ∈ s.contract_state, r.block_index ≤ height
  ledger_rows : ∀ r ∈ s.ledger.credits ++ s.ledger.debits, r.block_index ≤ height
  journal_rows : ∀ r ∈ s.ledger.escrow_leaf_journal, r.block_index ≤ height
  root_rows : ∀ row ∈ s.state_tree_roots, row.block_index ≤ height

structure Kept (h : SmtHashes Digest) (A : Set (HashInput Digest)) (s : Follower Digest) : Prop where
  filed : Filed h A s.state_tree_nodes
  below : s.Below s.tip
  keyed : s.Keyed

/-- A replica that an operation has prepared for its height. -/
structure Ready (h : SmtHashes Digest) (A : Set (HashInput Digest)) (u : Follower Digest)
    (height : Int) : Prop where
  filed : Filed h A u.state_tree_nodes
  below : u.Below height
  keyed : u.Keyed

variable {h : SmtHashes Digest} {cfg : CommitmentConfig} {A : Set (HashInput Digest)}

theorem Ledger.unique_nil : Ledger.Unique ⟨[], [], []⟩ where
  addresses := fun _ ha => absurd ha List.not_mem_nil
  ticks := fun _ ht => absurd ht List.not_mem_nil
  ids := List.nodup_nil

theorem kept_empty : Kept h A Follower.empty where
  filed := fun _ _ _ hget => absurd hget nofun
  below :=
    { contract_rows := fun _ hr => absurd hr List.not_mem_nil
      ledger_rows := fun _ hr => absurd hr List.not_mem_nil
      journal_rows := fun _ hr => absurd hr List.not_mem_nil
      root_rows := fun _ hr => absurd hr List.not_mem_nil }
  keyed := ⟨List.nodup_nil, Ledger.unique_nil⟩

omit [DecidableEq Digest] in
theorem Follower.Below.insertRows {s : Follower Digest} (hb : s.Below s.tip) {height : Int}
    (hle : s.tip ≤ height) {rows : BlockRows} (hrows : rows.Within (· ≤ height)) :
    (s.insertRows rows).Below height := by
  obtain ⟨hcontract, hcredits, hdebits, hjournal⟩ := hrows
  constructor
  · intro r hr
    rcases List.mem_append.mp hr with hr | hr
    · exact (hb.contract_rows r hr).trans hle
    · exact hcontract r hr
  · intro r hr
    rcases List.mem_append.mp hr with hr | hr
    · rcases List.mem_append.mp hr with hr | hr
      · exact (hb.ledger_rows r (List.mem_append.mpr (Or.inl hr))).trans hle
      · exact hcredits r hr
    · rcases List.mem_append.mp hr with hr | hr
      · exact (hb.ledger_rows r (List.mem_append.mpr (Or.inr hr))).trans hle
      · exact hdebits r hr
  · intro r hr
    rcases List.mem_append.mp hr with hr | hr
    · exact (hb.journal_rows r hr).trans hle
    · exact hjournal r hr
  · exact fun row hrow => (hb.root_rows row hrow).trans hle

theorem BlockRows.Within.imp {rows : BlockRows} {p q : Int → Prop} (hw : rows.Within p)
    (hpq : ∀ b, p b → q b) : rows.Within q :=
  ⟨fun r hr => hpq _ (hw.1 r hr), fun r hr => hpq _ (hw.2.1 r hr), fun r hr => hpq _ (hw.2.2.1 r hr),
    fun r hr => hpq _ (hw.2.2.2 r hr)⟩

theorem Kept.ready {s : Follower Digest} (hk : Kept h A s) {op : FollowerOp Digest}
    (hf : s.Feasible h op) (hshipped : ∀ i ∈ op.shipped, i ∈ A) {u : Follower Digest} {height : Int}
    (hu : s.prepare op = some (u, height)) : Ready h A u height := by
  cases op with
  | rollback height => cases hu
  | applyBlock blockIndex rows escrows otherNodes =>
    obtain ⟨rfl, rfl⟩ := Prod.mk.inj (Option.some.inj hu)
    obtain ⟨htip, hrows, hkeyed⟩ := hf
    exact ⟨hk.filed, hk.below.insertRows htip.le (hrows.imp fun b hb => hb.le), hkeyed⟩
  | applyIncrementalSnapshot blockHeight rows otherNodes =>
    obtain ⟨rfl, rfl⟩ := Prod.mk.inj (Option.some.inj hu)
    obtain ⟨htip, hrows, hkeyed⟩ := hf
    exact ⟨hk.filed, hk.below.insertRows htip (hrows.imp fun b hb => hb.2), hkeyed⟩
  | applyFullSnapshot blockHeight contract_state ledger nodes otherNodes =>
    obtain ⟨rfl, rfl⟩ := Prod.mk.inj (Option.some.inj hu)
    obtain ⟨hcontract, hledger, hjournal, hkeyed, hhashed⟩ := hf
    refine ⟨?_, ⟨hcontract, hledger, hjournal, ?_⟩, ⟨hkeyed.contract_state, hkeyed.ledger⟩⟩
    · intro hash l r hget
      obtain ⟨row, hrow, heq⟩ := Option.map_eq_some_iff.mp hget
      obtain ⟨rfl, rfl⟩ := Prod.mk.inj heq
      have hmem := List.mem_of_find?_eq_some hrow
      refine ⟨hshipped _ (List.mem_map_of_mem hmem), ?_⟩
      rw [hhashed row hmem]
      simpa using List.find?_some hrow
    · intro row hrow
      exact (of_decide_eq_true (List.mem_filter.mp hrow).2 : row.block_index < blockHeight).le

theorem Ready.kept {u : Follower Digest} {height : Int} (hr : Ready h A u height) :
    Kept h A { u with tip := height } where
  filed := hr.filed
  below := ⟨hr.below.contract_rows, hr.below.ledger_rows, hr.below.journal_rows, hr.below.root_rows⟩
  keyed := ⟨hr.keyed.contract_state, hr.keyed.ledger⟩

theorem Ready.kept_stored {u : Follower Digest} {height : Int} (hr : Ready h A u height)
    {roots : Roots Digest} {op : FollowerOp Digest} (hw : WrittenBy h cfg u height roots op)
    (hlog : ∀ i ∈ roots.hashed, i ∈ A) : Kept h A (u.stored height roots) := by
  obtain ⟨otherNodes, balances, contract, shadow, hs⟩ := @stages_of_writtenBy _ _ _ _ A _ _ _ _ hw
  refine ⟨(hs.grows hlog hr.filed).1, ⟨hr.below.contract_rows, hr.below.ledger_rows,
    hr.below.journal_rows, ?_⟩, ⟨hr.keyed.contract_state, hr.keyed.ledger⟩⟩
  intro row hrow
  rcases List.mem_append.mp hrow with hrow | hrow
  · exact hr.below.root_rows row (List.mem_filter.mp hrow).1
  · rw [List.mem_singleton.mp hrow, hs.block_index]
    exact le_rfl

theorem Ledger.Unique.upTo {l : Ledger} (hu : l.Unique) (height : Int) : (l.upTo height).Unique := by
  have hrows : ∀ r ∈ (l.upTo height).credits ++ (l.upTo height).debits, r ∈ l.credits ++ l.debits := by
    intro r hr
    rcases List.mem_append.mp hr with hr | hr
    · exact List.mem_append.mpr (Or.inl (List.mem_filter.mp hr).1)
    · exact List.mem_append.mpr (Or.inr (List.mem_filter.mp hr).1)
  have hrefs : ∀ p ∈ ((l.upTo height).credits ++ (l.upTo height).debits).filterMap LedgerRow.refs,
      p ∈ (l.credits ++ l.debits).filterMap LedgerRow.refs := by
    intro p hp
    obtain ⟨r, hr, hp⟩ := List.mem_filterMap.mp hp
    exact List.mem_filterMap.mpr ⟨r, hrows r hr, hp⟩
  have haddress : ∀ a ∈ (l.upTo height).addressRefs, a ∈ l.addressRefs := by
    intro a ha
    rcases List.mem_append.mp ha with ha | ha
    · obtain ⟨p, hp, rfl⟩ := List.mem_map.mp ha
      exact List.mem_append.mpr (Or.inl (List.mem_map_of_mem (hrefs p hp)))
    · obtain ⟨r, hr, rfl⟩ := List.mem_map.mp ha
      exact List.mem_append.mpr (Or.inr (List.mem_map_of_mem (List.mem_filter.mp hr).1))
  have htick : ∀ t ∈ (l.upTo height).tickRefs, t ∈ l.tickRefs := by
    intro t ht
    rcases List.mem_append.mp ht with ht | ht
    · obtain ⟨p, hp, rfl⟩ := List.mem_map.mp ht
      exact List.mem_append.mpr (Or.inl (List.mem_map_of_mem (hrefs p hp)))
    · obtain ⟨r, hr, rfl⟩ := List.mem_map.mp ht
      exact List.mem_append.mpr (Or.inr (List.mem_map_of_mem (List.mem_filter.mp hr).1))
  exact ⟨fun a ha a' ha' => hu.addresses a (haddress a ha) a' (haddress a' ha'),
    fun t ht t' ht' => hu.ticks t (htick t ht) t' (htick t' ht'),
    hu.ids.sublist (List.filter_sublist.map _)⟩

theorem Kept.rollback {s : Follower Digest} (hk : Kept h A s) (height : Int) :
    Kept h A (s.rollback height) where
  filed := hk.filed
  below := by
    have hcut : ∀ b : Int, b ≤ s.tip → b ≤ height - 1 → b ≤ min s.tip (height - 1) :=
      fun b hb hb' => le_min hb hb'
    constructor
    · intro r hr
      obtain ⟨hmem, hle⟩ := List.mem_filter.mp hr
      exact hcut _ (hk.below.contract_rows r hmem) (of_decide_eq_true hle)
    · intro r hr
      rcases List.mem_append.mp hr with hr | hr
      all_goals obtain ⟨hmem, hle⟩ := List.mem_filter.mp hr
      · exact hcut _ (hk.below.ledger_rows r (List.mem_append.mpr (Or.inl hmem)))
          (of_decide_eq_true hle)
      · exact hcut _ (hk.below.ledger_rows r (List.mem_append.mpr (Or.inr hmem)))
          (of_decide_eq_true hle)
    · intro r hr
      obtain ⟨hmem, hle⟩ := List.mem_filter.mp hr
      exact hcut _ (hk.below.journal_rows r hmem) (of_decide_eq_true hle)
    · intro row hrow
      obtain ⟨hmem, hlt⟩ := List.mem_filter.mp hrow
      have hlt' : row.block_index < height := of_decide_eq_true hlt
      exact hcut _ (hk.below.root_rows row hmem) (by omega)
  keyed := ⟨hk.keyed.contract_state.sublist (List.filter_sublist.map _), hk.keyed.ledger.upTo _⟩

end Kept

/-! ### Laws of the rows of roots -/

section Laws
variable {Digest : Type} [DecidableEq Digest] {h : SmtHashes Digest} {cfg : CommitmentConfig}
variable {A : Set (HashInput Digest)}

omit [DecidableEq Digest] in
theorem mem_of_rootsAt {s : Follower Digest} {height : Int} {row : StateRootsRow Digest}
    (hrow : s.rootsAt height = some row) : row ∈ s.state_tree_roots ∧ row.block_index = height := by
  refine ⟨List.mem_of_find?_eq_some hrow, ?_⟩
  simpa using List.find?_some hrow

/-- Every row of roots of a replica follows a law. -/
def Lawful (Law : Follower Digest → StateRootsRow Digest → Prop) (s : Follower Digest) : Prop :=
  ∀ row ∈ s.state_tree_roots, Law s row

/-- What makes a law of the rows hold along a run whose operations meet a condition. -/
structure RowLaw (h : SmtHashes Digest) (cfg : CommitmentConfig) (A : Set (HashInput Digest))
    (Keeps : Follower Digest → FollowerOp Digest → Prop)
    (Law : Follower Digest → StateRootsRow Digest → Prop) : Prop where
  grown : ∀ u t : Follower Digest, Extends u.state_tree_nodes.get t.state_tree_nodes.get →
    t.contract_state = u.contract_state → t.ledger = u.ledger → ∀ row, Law u row → Law t row
  rolledBack : ∀ {s : Follower Digest}, Lawful Law s → ∀ height, Lawful Law (s.rollback height)
  prepared : ∀ {s u : Follower Digest} {op : FollowerOp Digest} {height : Int}, Kept h A s →
    Ready h A u height → Lawful Law s → s.Feasible h op → Keeps s op →
    s.prepare op = some (u, height) → Lawful Law u
  written : ∀ {s u : Follower Digest} {op : FollowerOp Digest} {height : Int} {roots : Roots Digest},
    Kept h A s → Ready h A u height → Lawful Law u → s.Feasible h op → Keeps s op →
    s.prepare op = some (u, height) → WrittenBy h cfg u height roots op →
    (∀ i ∈ roots.hashed, i ∈ A) → Law (u.stored height roots) roots.row

section Rule
variable {Keeps : Follower Digest → FollowerOp Digest → Prop}
variable {Law : Follower Digest → StateRootsRow Digest → Prop}

theorem RowLaw.applyOp (hlaw : RowLaw h cfg A Keeps Law) {s t : Follower Digest} (hk : Kept h A s)
    (hl : Lawful Law s) {op : FollowerOp Digest} (hf : s.Feasible h op) (hfits : Fits h cfg A s op)
    (hkeeps : Keeps s op) {log : List (HashInput Digest)}
    (ht : s.applyOp h cfg op = .ok (t, log)) : Kept h A t ∧ Lawful Law t := by
  rcases applyOp_ok ht with ⟨height, rfl, rfl⟩ | ⟨u, height, hu, ⟨-, hoff⟩ | ⟨roots, hw, rfl, rfl⟩⟩
  · exact ⟨hk.rollback height, hlaw.rolledBack hl height⟩
  · have hready := hk.ready hf hfits.shipped hu
    have hlawful := hlaw.prepared hk hready hl hf hkeeps hu
    rw [hoff]
    exact ⟨hready.kept, fun row hrow =>
      hlaw.grown u { u with tip := height } (fun _ _ hget => hget) rfl rfl row (hlawful row hrow)⟩
  · have hready := hk.ready hf hfits.shipped hu
    have hlawful := hlaw.prepared hk hready hl hf hkeeps hu
    have hlog := hfits.hashed _ _ ht
    obtain ⟨otherNodes, balances, contract, shadow, hs⟩ := @stages_of_writtenBy _ _ _ _ A _ _ _ _ hw
    refine ⟨hready.kept_stored hw hlog, fun row hrow => ?_⟩
    rcases List.mem_append.mp hrow with hrow | hrow
    · exact hlaw.grown u (u.stored height roots) (hs.grows hlog hready.filed).2 rfl rfl row
        (hlawful row (List.mem_filter.mp hrow).1)
    · rw [List.mem_singleton.mp hrow]
      exact hlaw.written hk hready hlawful hf hkeeps hu hw hlog

/-- A law holds in every state of a run from an empty replica. An operation that fails is no step. -/
theorem RowLaw.run (hlaw : RowLaw h cfg A Keeps Law) {s : Follower Digest}
    (hrun : Run (fun s op t => t = s.step h cfg op)
      (fun s op => s.Feasible h op ∧ Fits h cfg A s op ∧ Keeps s op) Follower.empty s) :
    Kept h A s ∧ Lawful Law s := by
  refine hrun.invariant (I := fun s => Kept h A s ∧ Lawful Law s) ?_ ?_
  · exact ⟨kept_empty, fun row hrow => absurd hrow List.not_mem_nil⟩
  · rintro s op t ⟨hk, hl⟩ ⟨hf, hfits, hkeeps⟩ rfl
    cases ht : s.applyOp h cfg op with
    | error e =>
      rw [Follower.step, ht]
      exact ⟨hk, hl⟩
    | ok t =>
      rw [Follower.step, ht]
      exact hlaw.applyOp hk hl hf hfits hkeeps ht

omit [DecidableEq Digest] in
/-- The last operation of a run in which a row of roots stands has met the condition. -/
theorem exists_last {step : Follower Digest → FollowerOp Digest → Follower Digest → Prop}
    {ok : Follower Digest → FollowerOp Digest → Prop} {s : Follower Digest}
    (hrun : Run step ok Follower.empty s) {row : StateRootsRow Digest}
    (hrow : row ∈ s.state_tree_roots) : ∃ r op, ok r op ∧ step r op s := by
  cases hrun with
  | refl => exact absurd hrow List.not_mem_nil
  | tail _ hok hstep => exact ⟨_, _, hok, hstep⟩

end Rule

theorem fits_of_applyOp {s t : Follower Digest} {op : FollowerOp Digest}
    {log : List (HashInput Digest)} (ht : s.applyOp h cfg op = .ok (t, log))
    (hlog : ∀ i ∈ log, i ∈ A) (hshipped : ∀ i ∈ op.shipped, i ∈ A)
    (hfull : ∀ i ∈ t.fullBuildHashes h cfg, i ∈ A) : Fits h cfg A s op where
  hashed := by
    intro t' log' ht'
    rw [ht] at ht'
    obtain ⟨-, rfl⟩ := Prod.mk.inj (Except.ok.inj ht')
    exact hlog
  shipped := hshipped
  full := by
    have hstep : s.step h cfg op = t := by rw [Follower.step, ht]
    rw [hstep]
    exact hfull

/-- An apply or a snapshot that succeeds past the flag day leaves a row of roots for its height. -/
theorem row_of_applyOp {s t : Follower Digest} {op : FollowerOp Digest}
    {log : List (HashInput Digest)} (ht : s.applyOp h cfg op = .ok (t, log))
    (hop : ∀ height, op ≠ .rollback height) (hactive : cfg.isStateCommitmentActive t.tip = true) :
    ∃ row ∈ t.state_tree_roots, row.block_index = t.tip := by
  rcases applyOp_ok ht with ⟨height, rfl, -⟩ | ⟨u, height, hu, ⟨hoff, rfl⟩ | ⟨roots, hw, rfl, -⟩⟩
  · exact absurd rfl (hop height)
  · exact absurd hactive (Bool.eq_false_iff.mp hoff)
  · obtain ⟨otherNodes, balances, contract, shadow, hs⟩ := @stages_of_writtenBy _ _ _ _ ∅ _ _ _ _ hw
    exact ⟨roots.row, List.mem_append.mpr (Or.inr (List.mem_singleton_self _)), hs.block_index⟩

end Laws

end XChainSync.Commitment
