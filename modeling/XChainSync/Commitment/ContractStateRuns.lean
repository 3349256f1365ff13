import Mathlib
import XChainSync.Commitment.Follower

/-!
# Runs of the contract-state root

A full snapshot replaces the journal and the node store but keeps the rows of roots below its
height, and the seed threads from the one just below it.
-/

namespace XChainSync.Commitment
open HashTree Merkle
open Runs (Run)
set_option autoImplicit false

section Law
variable {Digest : Type} [DecidableEq Digest] (h : SmtHashes Digest) (cfg : CommitmentConfig)
variable (A : Set (HashInput Digest))

/-- Both contract-state columns of a row commit the journal up to its height. -/
structure ContractLaw (nodes : NodeStore Digest) (rows : List ContractStateRow)
    (row : StateRootsRow Digest) : Prop where
  committed : ColumnIs (cfg.isSubtreeActive row.block_index) row.contract_state_root fun r =>
    Commits h cfg A nodes r (rowsUpTo row.block_index rows)
  shadow : ColumnIs (cfg.isSubtreeShadowActive row.block_index) row.contract_state_root_shadow
    fun r => Commits h cfg A nodes r (rowsUpTo row.block_index rows)

/-- Of the roots that a full snapshot leaves in place, each commits in the snapshot what it commits
in the replica, and has its whole tree in the node store of the snapshot. -/
def KeepsContractRoots (s : Follower Digest) : FollowerOp Digest → Prop
  | .applyFullSnapshot blockHeight contract_state _ nodes _ =>
    ∀ row ∈ s.state_tree_roots, row.block_index < blockHeight → ∀ r,
      row.contract_state_root = some r ∨ row.contract_state_root_shadow = some r →
      contractView (rowsUpTo row.block_index contract_state) =
          contractView (rowsUpTo row.block_index s.contract_state) ∧
        Whole h.nodeHash h.EMPTY0 nodes.get SMT_DEPTH r
  | _ => True

variable {h cfg A}

theorem ContractLaw.imp {nodes nodes' : NodeStore Digest} {rows rows' : List ContractStateRow}
    {row : StateRootsRow Digest} (hl : ContractLaw h cfg A nodes rows row)
    (himp : ∀ r, row.contract_state_root = some r ∨ row.contract_state_root_shadow = some r →
      Commits h cfg A nodes r (rowsUpTo row.block_index rows) →
      Commits h cfg A nodes' r (rowsUpTo row.block_index rows')) :
    ContractLaw h cfg A nodes' rows' row :=
  ⟨hl.committed.imp fun r hr => himp r (Or.inl hr), hl.shadow.imp fun r hr => himp r (Or.inr hr)⟩

theorem ContractLaw.mono {nodes nodes' : NodeStore Digest} (hx : Extends nodes.get nodes'.get)
    {rows rows' : List ContractStateRow} {row : StateRootsRow Digest}
    (hrows : rowsUpTo row.block_index rows' = rowsUpTo row.block_index rows)
    (hl : ContractLaw h cfg A nodes rows row) : ContractLaw h cfg A nodes' rows' row := by
  apply hl.imp
  intro r _ hc
  rw [hrows]
  exact hc.mono hx

/-- A root whose whole tree is in another store commits there what it commits here. -/
theorem Threads.of_whole {κ : Type} {keyBytes : κ → Except String Buf} (hA : NoCollision h A)
    {nodes nodes' : NodeStore Digest} (hF : Filed h A nodes') {root : Digest} {g : κ → Option Buf}
    (ht : Threads h A keyBytes nodes root g)
    (hw : Whole h.nodeHash h.EMPTY0 nodes'.get SMT_DEPTH root) :
    Threads h A keyBytes nodes' root g where
  keyed := ht.keyed
  stands := by
    obtain ⟨hroot, -, hcovered, hleaves⟩ := ht.stands
    rw [hroot] at hw
    exact ⟨hroot, stored_of_whole hA.binding hF (Nat.le_refl _) hcovered hleaves hw, hcovered,
      hleaves⟩

end Law

section Step
variable {Digest : Type} [DecidableEq Digest] {h : SmtHashes Digest} {cfg : CommitmentConfig}
variable {A : Set (HashInput Digest)}

theorem contractLaw_insertRows {s : Follower Digest} (hb : s.Below s.tip)
    (hl : ∀ row ∈ s.state_tree_roots, ContractLaw h cfg A s.state_tree_nodes s.contract_state row)
    {rows : BlockRows} (hrows : ∀ r ∈ rows.contract_state, s.tip < r.block_index) :
    ∀ row ∈ s.state_tree_roots,
      ContractLaw h cfg A s.state_tree_nodes (s.contract_state ++ rows.contract_state) row := by
  intro row hrow
  refine (hl row hrow).mono (fun _ _ hget => hget) (filter_upTo_append fun r hr => ?_)
  exact (hb.root_rows row hrow).trans_lt (hrows r hr)

/-- The row an operation writes follows the law where the rows below do. -/
theorem contractLaw_row (hA : NoCollision h A) {u : Follower Digest} {height : Int}
    (hr : Ready h A u height)
    (hl : ∀ row ∈ u.state_tree_roots, ContractLaw h cfg A u.state_tree_nodes u.contract_state row)
    {otherNodes : List (Digest × Digest)} {roots : Roots Digest} {balances : Build Digest}
    {contract shadow : Column Digest}
    (hs : Stages h cfg A u height otherNodes roots balances contract shadow)
    (hlog : ∀ i ∈ roots.hashed, i ∈ A) :
    ContractLaw h cfg A roots.nodes u.contract_state roots.row := by
  have hall : rowsUpTo height u.contract_state = u.contract_state :=
    filter_upTo_of_below hr.below.contract_rows
  have hgrown := (hs.grows_balances hlog).trans (hs.grows_other hlog)
  obtain ⟨hFother, hxother⟩ := hgrown hr.filed
  obtain ⟨hFcontract, hxcontract⟩ := hs.grows_contract hlog hFother
  obtain ⟨-, hxlast⟩ := ((hs.grows_shadow hlog).trans (hs.last hlog)) hFcontract
  have hlast := (hs.last hlog) (hs.grows_shadow hlog hFcontract).1
  have hprior : ∀ (column : StateRootsRow Digest → Option Digest),
      (∀ row ∈ u.state_tree_roots, ∀ root, column row = some root →
        Commits h cfg A u.state_tree_nodes root (rowsUpTo row.block_index u.contract_state)) →
      ∀ root, (u.rootsAt (height - 1)).bind column = some root →
        Commits h cfg A u.state_tree_nodes root (rowsUpTo (height - 1) u.contract_state) := by
    intro column hcolumn root hroot
    obtain ⟨row, hrow, hroot⟩ := Option.bind_eq_some_iff.mp hroot
    obtain ⟨hmem, hblock⟩ := mem_of_rootsAt hrow
    have hc := hcolumn row hmem root hroot
    rwa [hblock] at hc
  constructor
  · rw [hs.block_index, hs.contract_state_root, hall]
    have hcolumn := @columnIs_column _ A _ _ _ _ hs.candidate
      (fun i hi => hlog i (hs.contract_hashed i hi))
      (fun nodes r => Commits h cfg A nodes r u.contract_state)
      (fun b hb hblog => (resolveContractStateRoot_spec hA hFother hr.keyed.contract_state
        hr.below.contract_rows (fun root hroot => (hprior _ (fun row hrow root hroot =>
          (hl row hrow).committed.of_some hroot) root hroot).mono hxother) hb hblog).2.2)
    exact hcolumn.imp fun r _ hc => hc.mono hxlast
  · rw [hs.block_index, hs.contract_state_root_shadow, hall]
    have hcolumn := @columnIs_column _ A _ _ _ _ hs.shadowed
      (fun i hi => hlog i (hs.shadow_hashed i hi))
      (fun nodes r => Commits h cfg A nodes r u.contract_state)
      (fun b hb hblog => (resolveContractStateRoot_spec hA hFcontract hr.keyed.contract_state
        hr.below.contract_rows (fun root hroot => ((hprior _ (fun row hrow root hroot =>
          (hl row hrow).shadow.of_some hroot) root hroot).mono hxother).mono hxcontract) hb hblog).2.2)
    exact hcolumn.imp fun r _ hc => hc.mono hlast.2

theorem contractLaw_rowLaw (hA : NoCollision h A) :
    RowLaw h cfg A (KeepsContractRoots h) fun s row =>
      ContractLaw h cfg A s.state_tree_nodes s.contract_state row where
  grown u t hx hcontract _ row hl := by
    rw [hcontract]
    exact hl.mono hx rfl
  rolledBack {s} hl height row hrow := by
    obtain ⟨hmem, hlt⟩ := List.mem_filter.mp hrow
    have hlt' : row.block_index < height := of_decide_eq_true hlt
    exact (hl row hmem).mono (fun _ _ hget => hget) (filter_upTo_upTo (by omega))
  prepared {s u op height} hk hready hl hf hkeeps hu := by
    cases op with
    | rollback height => cases hu
    | applyBlock blockIndex rows escrows otherNodes =>
      obtain ⟨rfl, rfl⟩ := Prod.mk.inj (Option.some.inj hu)
      obtain ⟨htip, hrows, -⟩ := hf
      exact contractLaw_insertRows hk.below hl fun r hr => by
        rw [hrows.1 r hr]
        exact htip
    | applyIncrementalSnapshot blockHeight rows otherNodes =>
      obtain ⟨rfl, rfl⟩ := Prod.mk.inj (Option.some.inj hu)
      obtain ⟨-, hrows, -⟩ := hf
      exact contractLaw_insertRows hk.below hl fun r hr => (hrows.1 r hr).1
    | applyFullSnapshot blockHeight contract_state ledger nodes otherNodes =>
      obtain ⟨rfl, rfl⟩ := Prod.mk.inj (Option.some.inj hu)
      intro row hrow
      obtain ⟨hmem, hlt⟩ := List.mem_filter.mp hrow
      apply (hl row hmem).imp
      intro r hr hc
      obtain ⟨hview, hwhole⟩ := hkeeps row hmem (of_decide_eq_true hlt) r hr
      rw [Commits, hview]
      exact hc.of_whole hA hready.filed hwhole
  written _ hready hl _ _ _ hw hlog := by
    obtain ⟨otherNodes, balances, contract, shadow, hs⟩ := @stages_of_writtenBy _ _ _ _ A _ _ _ _ hw
    exact contractLaw_row hA hready hl hs hlog

/-- A stored column is the root of the full build over the rows of the replica. -/
def IsFullContractState (h : SmtHashes Digest) (cfg : CommitmentConfig) (s : Follower Digest)
    (active : Bool) (stored : Option Digest) : Prop :=
  ColumnIs active stored fun r => ∃ b,
    buildFullContractStateRoot h cfg s.state_tree_nodes s.contract_state = .ok b ∧ b.root = r

end Step

/-! ### Two snapshots -/

section Samples

def termHashes : SmtHashes Term where
  sha256 _ := zeroKey
  leafHash bytes := .leaf (bytes.foldl (fun n b => 256 * n + b.toNat) 1)
  nodeHash := .node
  EMPTY0 := .empty

/-- All leaves and nodes, and one key. -/
def oneKey (bytes : Buf) : Set (HashInput Term) := fun i => ∀ b, i = .key b → b = bytes

theorem noCollision_oneKey (bytes : Buf) : NoCollision termHashes (oneKey bytes) where
  key_inj := fun b b' hb hb' _ => (hb b rfl).trans (hb' b' rfl).symm
  leaf_ne := fun _ _ => nofun
  node_inj := fun _ _ heq => Term.node.inj heq
  empties := fun _ _ => nofun

theorem oneKey_writeLeaves {bytes : Buf} {b : Build Term} {ws : List (Buf × Option Buf)}
    (hws : ∀ w ∈ ws, w.1 = bytes) (hb : ∀ i ∈ b.hashed, i ∈ oneKey bytes) :
    ∀ i ∈ (writeLeaves termHashes b ws).hashed, i ∈ oneKey bytes := by
  induction ws generalizing b with
  | nil => exact hb
  | cons w ws ih =>
    apply ih fun w' hw' => hws w' (List.mem_cons_of_mem w hw')
    intro i hi
    rcases List.mem_append.mp hi with hi | hi
    · exact hb i hi
    · rcases List.mem_cons.mp hi with rfl | hi
      · intro b' heq
        rw [← HashInput.key.inj heq]
        exact hws w List.mem_cons_self
      · rintro b' rfl
        rcases List.mem_append.mp hi with hi | hi
        · obtain ⟨_, -, heq⟩ := List.mem_map.mp hi
          cases heq
        · obtain ⟨_, -, heq⟩ := List.mem_map.mp hi
          cases heq

theorem column_of_active {Digest : Type} {active : Bool} (hactive : active = true)
    {nodes : NodeStore Digest} {build : NodeStore Digest → Except String (Build Digest)}
    {b : Build Digest} (hb : build nodes = .ok b) :
    column active nodes build = .ok ⟨some b.root, b.nodes, b.hashed⟩ := by
  rw [column, if_pos hactive, hb]
  rfl

theorem column_of_inactive {Digest : Type} {active : Bool} (hactive : active = false)
    (nodes : NodeStore Digest) (build : NodeStore Digest → Except String (Build Digest)) :
    column active nodes build = .ok ⟨none, nodes, []⟩ := by
  rw [column, if_neg (Bool.eq_false_iff.mp hactive)]

theorem buildFullBalancesRoot_nil {Digest : Type} [DecidableEq Digest] (h : SmtHashes Digest)
    (cfg : CommitmentConfig) (nodes : NodeStore Digest) (escrowLeaves : Bool) :
    buildFullBalancesRoot h cfg nodes ⟨[], [], []⟩ escrowLeaves = .ok ⟨h.emptyRoot, nodes, []⟩ := by
  cases escrowLeaves with
  | false => rfl
  | true => rfl

/-- A seed without a ledger. -/
theorem seedSnapshotRoots_nil {Digest : Type} [DecidableEq Digest] {h : SmtHashes Digest}
    {cfg : CommitmentConfig} {s : Follower Digest} (hledger : s.ledger = ⟨[], [], []⟩)
    {blockHeight : Int} {contract shadow : Column Digest}
    (hcontract : s.contractStateColumn h cfg s.state_tree_nodes blockHeight = .ok contract)
    (hshadow : s.contractShadowColumn h cfg contract.nodes blockHeight = .ok shadow) :
    s.seedSnapshotRoots h cfg blockHeight [] = .ok {
      row := ⟨blockHeight, h.emptyRoot, contract.root, shadow.root,
        (s.rootsAt blockHeight).bind StateRootsRow.balances_root_escrow_shadow⟩
      nodes := shadow.nodes
      hashed := contract.hashed ++ shadow.hashed } := by
  have hfiled : s.contractStateColumn h cfg (fileNodes h s.state_tree_nodes []) blockHeight =
      .ok contract := hcontract
  rw [Follower.seedSnapshotRoots, hledger, buildFullBalancesRoot_nil]
  simp only [bind, Except.bind, hfiled, hshadow]
  rfl

/-- An apply, its stages given, with no rows of other trees. -/
theorem computeFollowerRoots_eq {Digest : Type} [DecidableEq Digest] {h : SmtHashes Digest}
    {cfg : CommitmentConfig} {s : Follower Digest} {blockIndex : Int}
    {touchedKeys : List (String × String)} {isActivationBlock : Bool} {balances : Build Digest}
    {updates : Option (List (Buf × Option Buf))}
    (hbalances : computeFollowerBalancesRoot h cfg s.state_tree_nodes s.ledger
      ((s.rootsAt (blockIndex - 1)).map StateRootsRow.balances_root) blockIndex touchedKeys
      isActivationBlock = .ok (balances, updates))
    {contract shadow escrow : Column Digest}
    (hcontract : s.contractStateColumn h cfg balances.nodes blockIndex = .ok contract)
    (hshadow : s.contractShadowColumn h cfg contract.nodes blockIndex = .ok shadow)
    (hescrow : s.escrowShadowColumn h cfg shadow.nodes blockIndex updates = .ok escrow) :
    s.computeFollowerRoots h cfg blockIndex touchedKeys isActivationBlock [] = .ok {
      row := ⟨blockIndex, balances.root, contract.root, shadow.root, escrow.root⟩
      nodes := escrow.nodes
      hashed := balances.hashed ++ contract.hashed ++ shadow.hashed ++ escrow.hashed } := by
  have hfiled : s.contractStateColumn h cfg (fileNodes h balances.nodes []) blockIndex =
      .ok contract := hcontract
  rw [Follower.computeFollowerRoots, hbalances]
  simp only [bind, Except.bind, hfiled, hshadow, hescrow, List.map_nil, List.append_nil]
  rfl

def armedConfig : CommitmentConfig := ⟨"BTC", "mainnet", some 5, some 5, none, none, none⟩

def storedKey : Buf := encode ["XCHAIN_CST", "BTC", "mainnet", "1", "k"]

theorem keyWrites_storedKey (v : Option Buf) :
    keyWrites (contractStateKey armedConfig) [(⟨1, "k"⟩, v)] = .ok [(storedKey, v)] := by
  have hkey : contractStateKey armedConfig ⟨1, "k"⟩ = .ok storedKey := rfl
  rw [keyWrites, List.mapM_cons, hkey]
  rfl

def setRow : ContractStateRow := ⟨1, 1, "k", some "v", 5⟩

def setBuild : Build Term :=
  writeLeaves termHashes ⟨termHashes.emptyRoot, [], []⟩ [(storedKey, some (utf8 "v"))]

theorem build_setRow (nodes : NodeStore Term) :
    buildFullContractStateRoot termHashes armedConfig nodes [setRow] =
      .ok (writeLeaves termHashes ⟨termHashes.emptyRoot, nodes, []⟩
        [(storedKey, some (utf8 "v"))]) := by
  have hlive : liveWrites [setRow] = [(⟨1, "k"⟩, some (utf8 "v"))] := rfl
  rw [buildFullContractStateRoot, hlive, keyWrites_storedKey]
  rfl

def setBlock : FollowerOp Term := .applyBlock 5 ⟨[setRow], [], [], []⟩ [] []

/-- A fresh replica after the block that sets the key, its build given. -/
def afterSet (b : Build Term) : Follower Term :=
  ⟨[setRow], ⟨[], [], []⟩, [⟨5, termHashes.emptyRoot, some b.root, none, none⟩], b.nodes, 5⟩

theorem applyOp_setBlock {b : Build Term}
    (hb : buildFullContractStateRoot termHashes armedConfig [] [setRow] = .ok b) :
    Follower.empty.applyOp termHashes armedConfig setBlock = .ok (afterSet b, b.hashed) := by
  have hroots := @computeFollowerRoots_eq _ _ termHashes armedConfig
    ⟨[setRow], ⟨[], [], []⟩, [], [], -1⟩ 5 [] true ⟨termHashes.emptyRoot, [], []⟩ none rfl _ _ _
    (column_of_active rfl hb) (column_of_inactive rfl _ _) (column_of_inactive rfl _ _)
  rw [List.append_nil, List.append_nil, List.nil_append] at hroots
  exact @applyOp_of_writtenBy _ _ _ _ Follower.empty _ setBlock _ _ rfl rfl hroots

/-- A bootstrap from a source that does not have the row. -/
def resnapshot : FollowerOp Term := .applyFullSnapshot 6 [] ⟨[], [], []⟩ [] []

def afterResnapshot (b : Build Term) : Follower Term :=
  ⟨[], ⟨[], [], []⟩, [⟨5, termHashes.emptyRoot, some b.root, none, none⟩,
    ⟨6, termHashes.emptyRoot, some b.root, none, none⟩], [], 6⟩

theorem applyOp_resnapshot (b : Build Term) :
    (afterSet b).applyOp termHashes armedConfig resnapshot = .ok (afterResnapshot b, []) := by
  have hseed := @seedSnapshotRoots_nil _ _ termHashes armedConfig
    ⟨[], ⟨[], [], []⟩, [⟨5, termHashes.emptyRoot, some b.root, none, none⟩], [], 5⟩ rfl 6
    ⟨some b.root, [], []⟩ _ rfl (column_of_inactive rfl _ _)
  exact @applyOp_of_writtenBy _ _ _ _ (afterSet b) _ resnapshot _ _ rfl rfl hseed

def deleteRow : ContractStateRow := ⟨2, 1, "k", none, 6⟩

def deleteBlock : FollowerOp Term := .applyBlock 6 ⟨[deleteRow], [], [], []⟩ [] []

def afterDelete (b b' : Build Term) : Follower Term :=
  ⟨[setRow, deleteRow], ⟨[], [], []⟩, [⟨5, termHashes.emptyRoot, some b.root, none, none⟩,
    ⟨6, termHashes.emptyRoot, some b'.root, none, none⟩], b'.nodes, 6⟩

theorem applyOp_deleteBlock {b b' : Build Term}
    (hb : resolveContractStateRoot termHashes armedConfig b.nodes [setRow, deleteRow] (some b.root) 6 =
      .ok b') :
    (afterSet b).applyOp termHashes armedConfig deleteBlock = .ok (afterDelete b b', b'.hashed) := by
  have hroots := @computeFollowerRoots_eq _ _ termHashes armedConfig
    ⟨[setRow, deleteRow], ⟨[], [], []⟩, [⟨5, termHashes.emptyRoot, some b.root, none, none⟩],
      b.nodes, 5⟩ 6 [] false ⟨termHashes.emptyRoot, b.nodes, []⟩ none rfl _ _ _
    (column_of_active rfl hb) (column_of_inactive rfl _ _) (column_of_inactive rfl _ _)
  rw [List.append_nil, List.append_nil, List.nil_append] at hroots
  exact @applyOp_of_writtenBy _ _ _ _ (afterSet b) _ deleteBlock _ _ rfl rfl hroots

theorem resolve_deleteRow (nodes : NodeStore Term) (root : Term) :
    resolveContractStateRoot termHashes armedConfig nodes [setRow, deleteRow] (some root) 6 =
      .ok (writeLeaves termHashes ⟨root, nodes, []⟩ [(storedKey, none)]) := by
  have htouched : touchedWrites [setRow, deleteRow] 6 = [(⟨1, "k"⟩, none)] := rfl
  rw [resolveContractStateRoot, htouched, keyWrites_storedKey]
  rfl

theorem fits_oneKey {s t : Follower Term} {op : FollowerOp Term} {log : List (HashInput Term)}
    (ht : s.applyOp termHashes armedConfig op = .ok (t, log))
    (hlog : ∀ i ∈ log, i ∈ oneKey storedKey) (hshipped : op.shipped = [])
    (hledger : t.ledger = ⟨[], [], []⟩)
    (hfull : ∀ b, buildFullContractStateRoot termHashes armedConfig t.state_tree_nodes
      t.contract_state = .ok b → ∀ i ∈ b.hashed, i ∈ oneKey storedKey) :
    Fits termHashes armedConfig (oneKey storedKey) s op := by
  apply fits_of_applyOp ht hlog
  · rw [hshipped]
    exact fun i hi => absurd hi List.not_mem_nil
  · rw [Follower.fullBuildHashes, hledger, buildFullBalancesRoot_nil, buildFullBalancesRoot_nil]
    intro i hi
    simp only [hashedOf, List.append_nil] at hi
    split at hi
    · rename_i b hb
      exact hfull b hb i hi
    · exact absurd hi List.not_mem_nil

theorem oneKey_build_setRow {nodes : NodeStore Term} {b : Build Term}
    (hb : buildFullContractStateRoot termHashes armedConfig nodes [setRow] = .ok b) :
    ∀ i ∈ b.hashed, i ∈ oneKey storedKey := by
  rw [build_setRow] at hb
  rw [← Except.ok.inj hb]
  apply oneKey_writeLeaves
  · intro w hw
    rw [List.mem_singleton.mp hw]
  · exact fun i hi => absurd hi List.not_mem_nil

theorem fits_setBlock :
    Fits termHashes armedConfig (oneKey storedKey) Follower.empty setBlock :=
  fits_oneKey (applyOp_setBlock (build_setRow [])) (oneKey_build_setRow (build_setRow [])) rfl rfl
    fun _ hb => oneKey_build_setRow hb

theorem fits_deleteBlock (b : Build Term) :
    Fits termHashes armedConfig (oneKey storedKey) (afterSet b) deleteBlock := by
  apply fits_oneKey (applyOp_deleteBlock (resolve_deleteRow b.nodes b.root))
  · apply oneKey_writeLeaves
    · intro w hw
      rw [List.mem_singleton.mp hw]
    · exact fun i hi => absurd hi List.not_mem_nil
  · rfl
  · rfl
  · intro b' hb'
    have hlive : liveWrites [setRow, deleteRow] = [] := rfl
    rw [afterDelete, buildFullContractStateRoot, hlive] at hb'
    rw [← Except.ok.inj hb']
    exact fun i hi => absurd hi List.not_mem_nil

theorem fits_resnapshot (b : Build Term) :
    Fits termHashes armedConfig (oneKey storedKey) (afterSet b) resnapshot := by
  apply fits_oneKey (applyOp_resnapshot b) (fun i hi => absurd hi List.not_mem_nil) rfl rfl
  intro b' hb'
  rw [← Except.ok.inj hb']
  exact fun i hi => absurd hi List.not_mem_nil

/-- The tree that has the key is not the empty one. -/
theorem setBuild_root_ne : setBuild.root ≠ termHashes.emptyRoot := by
  intro heq
  have hids : ([setRow].map ContractStateRow.id).Nodup := List.nodup_singleton _
  have hF : Filed termHashes (oneKey storedKey) [] := (@kept_empty Term _ _ _).filed
  obtain ⟨-, -, hc⟩ := buildFullContractStateRoot_spec (noCollision_oneKey storedKey) hF hids
    (build_setRow []) (oneKey_build_setRow (build_setRow []))
  have hroot : (writeLeaves termHashes ⟨termHashes.emptyRoot, [], []⟩
    [(storedKey, some (utf8 "v"))]).root = termHashes.emptyRoot := heq
  rw [hroot] at hc
  have hnone := hc.vacant (noCollision_oneKey storedKey) contractStateKey_inj ⟨1, "k"⟩
  cases hnone

theorem feasible_setBlock : Follower.empty.Feasible termHashes setBlock := by
  refine ⟨by decide, ⟨?_, nofun, nofun, nofun⟩, ⟨List.nodup_singleton _, Ledger.unique_nil⟩⟩
  intro r hr
  rw [List.mem_singleton.mp hr]
  rfl

theorem feasible_deleteBlock (b : Build Term) : (afterSet b).Feasible termHashes deleteBlock := by
  refine ⟨(by decide : (5 : Int) < 6), ⟨?_, nofun, nofun, nofun⟩,
    ⟨(by decide : [1, 2].Nodup), Ledger.unique_nil⟩⟩
  intro r hr
  rw [List.mem_singleton.mp hr]
  rfl

theorem feasible_resnapshot (b : Build Term) : (afterSet b).Feasible termHashes resnapshot :=
  ⟨nofun, nofun, nofun, ⟨List.nodup_nil, Ledger.unique_nil⟩, nofun⟩

theorem step_setBlock :
    Follower.empty.step termHashes armedConfig setBlock = afterSet setBuild := by
  have hb : buildFullContractStateRoot termHashes armedConfig [] [setRow] = .ok setBuild :=
    build_setRow []
  rw [Follower.step, applyOp_setBlock hb]

theorem step_deleteBlock (b : Build Term) :
    (afterSet b).step termHashes armedConfig deleteBlock =
      afterDelete b (writeLeaves termHashes ⟨b.root, b.nodes, []⟩ [(storedKey, none)]) := by
  rw [Follower.step, applyOp_deleteBlock (resolve_deleteRow b.nodes b.root)]

theorem step_resnapshot (b : Build Term) :
    (afterSet b).step termHashes armedConfig resnapshot = afterResnapshot b := by
  rw [Follower.step, applyOp_resnapshot]

end Samples

/-! ### The runs -/

section Runs
variable {Digest : Type} [DecidableEq Digest] {h : SmtHashes Digest} {cfg : CommitmentConfig}
variable {A : Set (HashInput Digest)}

/-- In a run whose full snapshots keep the contract-state roots below them, the contract-state
columns of the tip are full builds. -/
theorem contract_state_roots_are_full_builds (hA : NoCollision h A) {s : Follower Digest}
    (hrun : Run (fun s op t => t = s.step h cfg op)
      (fun s op => s.Feasible h op ∧ Fits h cfg A s op ∧ KeepsContractRoots h s op)
      Follower.empty s) :
    (∀ row ∈ s.state_tree_roots, row.block_index = s.tip →
      IsFullContractState h cfg s (cfg.isSubtreeActive s.tip) row.contract_state_root ∧
      IsFullContractState h cfg s (cfg.isSubtreeShadowActive s.tip)
        row.contract_state_root_shadow) ∧
    ∀ op t log, s.applyOp h cfg op = .ok (t, log) → (∀ height, op ≠ .rollback height) →
      cfg.isStateCommitmentActive t.tip = true →
      ∃ row ∈ t.state_tree_roots, row.block_index = t.tip := by
  obtain ⟨hk, hl⟩ := (contractLaw_rowLaw hA).run hrun
  refine ⟨fun row hrow htip => ?_, fun op t log ht hop hactive => row_of_applyOp ht hop hactive⟩
  have hlaw := hl row hrow
  have hall : rowsUpTo s.tip s.contract_state = s.contract_state :=
    filter_upTo_of_below hk.below.contract_rows
  have hlog : ∀ b, buildFullContractStateRoot h cfg s.state_tree_nodes s.contract_state = .ok b →
      ∀ i ∈ b.hashed, i ∈ A := by
    intro b hb i hi
    obtain ⟨r, op, ⟨-, hfits, -⟩, rfl⟩ := exists_last hrun hrow
    refine hfits.full i ?_
    rw [Follower.fullBuildHashes, hb]
    exact List.mem_append.mpr (Or.inl (List.mem_append.mpr (Or.inl hi)))
  have hfull : ∀ r, Commits h cfg A s.state_tree_nodes r (rowsUpTo row.block_index s.contract_state) →
      ∃ b, buildFullContractStateRoot h cfg s.state_tree_nodes s.contract_state = .ok b ∧
        b.root = r := by
    intro r hc
    rw [htip, hall] at hc
    exact hc.full_build hA hk.filed hk.keyed.contract_state hlog
  constructor
  · rw [← htip]
    exact hlaw.committed.imp fun r _ hc => hfull r hc
  · rw [← htip]
    exact hlaw.shadow.imp fun r _ hc => hfull r hc

/-- A key that a block sets and the next one deletes. -/
theorem contract_state_roots_set_delete :
    ((Follower.empty.step termHashes armedConfig setBlock).step termHashes armedConfig
      deleteBlock).state_tree_roots.length = 2 ∧
    ∀ row ∈ ((Follower.empty.step termHashes armedConfig setBlock).step termHashes armedConfig
        deleteBlock).state_tree_roots, row.block_index = 6 →
      IsFullContractState termHashes armedConfig
        ((Follower.empty.step termHashes armedConfig setBlock).step termHashes armedConfig
          deleteBlock) true row.contract_state_root := by
  have hfirst : Run (fun s op t => t = s.step termHashes armedConfig op)
      (fun s op => s.Feasible termHashes op ∧
        Fits termHashes armedConfig (oneKey storedKey) s op ∧ KeepsContractRoots termHashes s op)
      Follower.empty (Follower.empty.step termHashes armedConfig setBlock) :=
    Run.tail .refl ⟨feasible_setBlock, fits_setBlock, trivial⟩ rfl
  rw [step_setBlock] at hfirst ⊢
  have hrun := hfirst.tail ⟨feasible_deleteBlock setBuild, fits_deleteBlock setBuild, trivial⟩ rfl
  have hfull := (contract_state_roots_are_full_builds (noCollision_oneKey storedKey) hrun).1
  rw [step_deleteBlock] at hfull ⊢
  exact ⟨rfl, fun row hrow htip => (hfull row hrow htip).1⟩

/-- After a bootstrap over a replica that has a row of roots just below, the seeded root is that of
the journal before. -/
theorem contract_state_root_of_old_journal :
    Run (fun s op t => t = s.step termHashes armedConfig op)
      (fun s op => s.Feasible termHashes op ∧ Fits termHashes armedConfig (oneKey storedKey) s op)
      Follower.empty (afterResnapshot setBuild) ∧
    ∃ row ∈ (afterResnapshot setBuild).state_tree_roots,
      row.block_index = (afterResnapshot setBuild).tip ∧
      ¬ IsFullContractState termHashes armedConfig (afterResnapshot setBuild)
        (armedConfig.isSubtreeActive (afterResnapshot setBuild).tip) row.contract_state_root := by
  constructor
  · have hfirst : Run (fun s op t => t = s.step termHashes armedConfig op)
        (fun s op => s.Feasible termHashes op ∧
          Fits termHashes armedConfig (oneKey storedKey) s op)
        Follower.empty (Follower.empty.step termHashes armedConfig setBlock) :=
      Run.tail .refl ⟨feasible_setBlock, fits_setBlock⟩ rfl
    rw [step_setBlock] at hfirst
    exact hfirst.tail ⟨feasible_resnapshot setBuild, fits_resnapshot setBuild⟩
      (step_resnapshot setBuild).symm
  · refine ⟨_, List.mem_cons_of_mem _ List.mem_cons_self, rfl, ?_⟩
    rintro ⟨r, hr, b, hb, hroot⟩
    have hempty : b.root = termHashes.emptyRoot := by rw [← Except.ok.inj hb]; rfl
    exact setBuild_root_ne ((Option.some.inj hr).trans (hroot.symm.trans hempty))

end Runs

end XChainSync.Commitment
