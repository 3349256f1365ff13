import Mathlib
import XChainSync.Commitment.Threading

/-!
# The contract-state sub-tree

src/contract_state_subtree.js over the `contract_state` journal: one leaf per key that the newest
row does not delete. A root is threaded from the stored root of the block before, or built from
all keys where there is none.
-/

namespace XChainSync.Commitment
open HashTree Merkle
open Client (JsVal)
set_option autoImplicit false

universe u

/-! ### Heights -/

/-- The chain, and its heights in the gate registry, none where it has no entry. -/
structure CommitmentConfig where
  chain : String
  network : String
  stateCommitment : Option Nat
  contractStateRoot : Option Nat
  contractStateRootShadow : Option Nat
  escrowLockedLeaf : Option Nat
  escrowLockedLeafShadow : Option Nat
  deriving DecidableEq, Repr

def atOrAfter (threshold : Option Nat) (blockIndex : Int) : Bool :=
  threshold.any fun t => decide ((t : Int) ≤ blockIndex)

theorem atOrAfter_mono {threshold : Option Nat} {a b : Int} (hab : a ≤ b)
    (h : atOrAfter threshold a = true) : atOrAfter threshold b = true := by
  cases threshold with
  | none => cases h
  | some t =>
    have ha : (t : Int) ≤ a := of_decide_eq_true h
    exact decide_eq_true (by omega : (t : Int) ≤ b)

namespace CommitmentConfig
variable (cfg : CommitmentConfig)

def isStateCommitmentActive (blockIndex : Int) : Bool := atOrAfter cfg.stateCommitment blockIndex

def isStateCommitmentActivationBlock (blockIndex : Int) : Bool :=
  cfg.isStateCommitmentActive blockIndex && !cfg.isStateCommitmentActive (blockIndex - 1)

/-- Of the slot `contract_state_root`. -/
def isSubtreeActive (blockIndex : Int) : Bool := atOrAfter cfg.contractStateRoot blockIndex

/-- Armed wins. -/
def isSubtreeShadowActive (blockIndex : Int) : Bool :=
  !cfg.isSubtreeActive blockIndex && atOrAfter cfg.contractStateRootShadow blockIndex

def isEscrowLockedLeafActive (blockIndex : Int) : Bool := atOrAfter cfg.escrowLockedLeaf blockIndex

def isEscrowLockedLeafShadowActive (blockIndex : Int) : Bool :=
  !cfg.isEscrowLockedLeafActive blockIndex && atOrAfter cfg.escrowLockedLeafShadow blockIndex

end CommitmentConfig

/-! ### The newest row -/

/-- `ORDER BY id DESC LIMIT 1`. -/
def newest {ρ : Type} (id : ρ → Nat) (rows : List ρ) (p : ρ → Bool) : Option ρ :=
  (rows.filter p).argmax id

theorem newest_mem {ρ : Type} {id : ρ → Nat} {rows : List ρ} {p : ρ → Bool} {r : ρ}
    (h : newest id rows p = some r) : r ∈ rows ∧ p r = true :=
  List.mem_filter.mp (List.argmax_mem h)

theorem newest_isSome {ρ : Type} {id : ρ → Nat} {rows : List ρ} {p : ρ → Bool} {r : ρ}
    (hr : r ∈ rows) (hp : p r = true) : ∃ w, newest id rows p = some w := by
  rw [← Option.ne_none_iff_exists', newest, Ne, List.argmax_eq_none]
  exact List.ne_nil_of_mem (List.mem_filter.mpr ⟨hr, hp⟩)

/-! ### Rows up to a height -/

section UpTo
variable {ρ : Type} {block_index : ρ → Int} {rows : List ρ} {height : Int}

theorem filter_upTo_append {more : List ρ} (hmore : ∀ r ∈ more, height < block_index r) :
    (rows ++ more).filter (fun r => decide (block_index r ≤ height)) =
      rows.filter fun r => decide (block_index r ≤ height) := by
  have hnone : more.filter (fun r => decide (block_index r ≤ height)) = [] := by
    rw [List.filter_eq_nil_iff]
    intro r hr
    have := hmore r hr
    rw [decide_eq_true_eq]
    omega
  rw [List.filter_append, hnone, List.append_nil]

theorem filter_upTo_upTo {top : Int} (hle : height ≤ top) :
    (rows.filter fun r => decide (block_index r ≤ top)).filter
        (fun r => decide (block_index r ≤ height)) =
      rows.filter fun r => decide (block_index r ≤ height) := by
  rw [List.filter_filter]
  apply List.filter_congr
  intro r _
  rw [Bool.and_eq_left_iff_imp, decide_eq_true_eq, decide_eq_true_eq]
  exact fun hr => hr.trans hle

theorem filter_upTo_of_below (hrows : ∀ r ∈ rows, block_index r ≤ height) :
    rows.filter (fun r => decide (block_index r ≤ height)) = rows :=
  List.filter_eq_self.mpr fun r hr => decide_eq_true (hrows r hr)

end UpTo

/-! ### The journal -/

/-- A row of `contract_state`; a NULL value deletes its key. -/
structure ContractStateRow where
  id : Nat
  contract_index : Nat
  state_key : String
  state_value : Option String
  block_index : Int
  deriving DecidableEq, Repr

structure ContractStateKey where
  contract_index : Nat
  state_key : String
  deriving DecidableEq, Repr

def ContractStateRow.key (r : ContractStateRow) : ContractStateKey := ⟨r.contract_index, r.state_key⟩

def contractStateKey (cfg : CommitmentConfig) (k : ContractStateKey) : Except String Buf :=
  joinFields [.str "XCHAIN_CST", .str cfg.chain, .str cfg.network, .str (toString k.contract_index),
    .str k.state_key]

/-- What the leaf of a value hashes, none where there is no leaf. -/
def contractStateLeaf (stateValue : Option String) : Option Buf := stateValue.map utf8

def touchedContractStateKeys (rows : List ContractStateRow) (blockIndex : Int) :
    List ContractStateKey :=
  ((rows.filter fun r => r.block_index = blockIndex).map ContractStateRow.key).dedup

def latestStateRow (rows : List ContractStateRow) (k : ContractStateKey) :
    Option ContractStateRow :=
  newest ContractStateRow.id rows fun r => r.key = k

/-- None for no row as for a deleted key. -/
def latestStateValue (rows : List ContractStateRow) (k : ContractStateKey) : Option String :=
  (latestStateRow rows k).bind ContractStateRow.state_value

/-- The rows whose id is the greatest of their key, deleted keys left out. -/
def liveContractState (rows : List ContractStateRow) : List ContractStateRow :=
  rows.filter fun r => (latestStateRow rows r.key).map ContractStateRow.id = some r.id ∧
    r.state_value ≠ none

section Build
variable {Digest : Type u} [DecidableEq Digest] (h : SmtHashes Digest) (cfg : CommitmentConfig)

def liveWrites (rows : List ContractStateRow) : List (ContractStateKey × Option Buf) :=
  (liveContractState rows).map fun r => (r.key, contractStateLeaf r.state_value)

def touchedWrites (rows : List ContractStateRow) (blockIndex : Int) :
    List (ContractStateKey × Option Buf) :=
  (touchedContractStateKeys rows blockIndex).map fun k =>
    (k, contractStateLeaf (latestStateValue rows k))

def buildFullContractStateRoot (nodes : NodeStore Digest) (rows : List ContractStateRow) :
    Except String (Build Digest) :=
  (keyWrites (contractStateKey cfg) (liveWrites rows)).map (writeLeaves h ⟨h.emptyRoot, nodes, []⟩)

/-- `priorRoot` is the stored root of the block before, in the column that is resolved. -/
def resolveContractStateRoot (nodes : NodeStore Digest) (rows : List ContractStateRow)
    (priorRoot : Option Digest) (blockIndex : Int) : Except String (Build Digest) :=
  match priorRoot with
  | none => buildFullContractStateRoot h cfg nodes rows
  | some root =>
    (keyWrites (contractStateKey cfg) (touchedWrites rows blockIndex)).map
      (writeLeaves h ⟨root, nodes, []⟩)

end Build

/-! ### What a root commits -/

/-- The leaf input of every key over some rows. -/
def contractView (rows : List ContractStateRow) (k : ContractStateKey) : Option Buf :=
  contractStateLeaf (latestStateValue rows k)

def rowsUpTo (height : Int) (rows : List ContractStateRow) : List ContractStateRow :=
  rows.filter fun r => r.block_index ≤ height

theorem contractStateKey_inj {cfg : CommitmentConfig} (k k' : ContractStateKey) (bytes : Buf)
    (hk : contractStateKey cfg k = .ok bytes) (hk' : contractStateKey cfg k' = .ok bytes) :
    k = k' := by
  obtain ⟨hbytes, hfree⟩ := joinFields_eq_ok hk
  obtain ⟨hbytes', hfree'⟩ := joinFields_eq_ok hk'
  have htexts := encode_inj (by simp) (by simp) hfree hfree' (hbytes.symm.trans hbytes')
  simp only [List.map_cons, List.map_nil, List.cons.injEq, JsVal.text, and_true, true_and] at htexts
  obtain ⟨hindex, hkey⟩ := htexts
  cases k
  cases k'
  rw [Nat.toString_eq_repr, Nat.toString_eq_repr] at hindex
  simp only at hindex hkey
  rw [Nat.repr_inj.mp hindex, hkey]

theorem latestStateRow_congr {rows rows' : List ContractStateRow} {k : ContractStateKey}
    (hrows : (rows.filter fun r => r.key = k) = rows'.filter fun r => r.key = k) :
    latestStateRow rows k = latestStateRow rows' k := by
  rw [latestStateRow, latestStateRow, newest, newest, hrows]

/-- A key that a block does not touch has the value it had before. -/
theorem contractView_rowsUpTo {rows : List ContractStateRow} {blockIndex : Int}
    (htip : ∀ r ∈ rows, r.block_index ≤ blockIndex) {k : ContractStateKey}
    (hk : k ∉ touchedContractStateKeys rows blockIndex) :
    contractView (rowsUpTo (blockIndex - 1) rows) k = contractView rows k := by
  rw [contractView, contractView, latestStateValue, latestStateValue]
  congr 2
  apply latestStateRow_congr
  rw [rowsUpTo, List.filter_filter]
  apply List.filter_congr
  intro r hr
  rw [Bool.and_eq_left_iff_imp]
  intro hkey
  have hblock : r.block_index ≠ blockIndex := by
    intro heq
    apply hk
    rw [touchedContractStateKeys, List.mem_dedup]
    refine List.mem_map.mpr ⟨r, List.mem_filter.mpr ⟨hr, decide_eq_true heq⟩, ?_⟩
    exact of_decide_eq_true hkey
  have hle := htip r hr
  rw [decide_eq_true_eq]
  omega

theorem touchedWrites_keys (rows : List ContractStateRow) (blockIndex : Int) :
    (touchedWrites rows blockIndex).map Prod.fst = touchedContractStateKeys rows blockIndex := by
  rw [touchedWrites, List.map_map]
  exact List.map_id _

theorem touchedWrites_val (rows : List ContractStateRow) (blockIndex : Int) :
    ∀ w ∈ touchedWrites rows blockIndex, w.2 = contractView rows w.1 := by
  intro w hw
  obtain ⟨k, -, rfl⟩ := List.mem_map.mp hw
  rfl

theorem liveWrites_val {rows : List ContractStateRow} (hids : (rows.map ContractStateRow.id).Nodup) :
    ∀ w ∈ liveWrites rows, w.2 = contractView rows w.1 := by
  intro w hw
  obtain ⟨r, hr, rfl⟩ := List.mem_map.mp hw
  obtain ⟨hmem, hlive⟩ := List.mem_filter.mp hr
  obtain ⟨hnewest, -⟩ := of_decide_eq_true hlive
  obtain ⟨w, hw, hid⟩ := Option.map_eq_some_iff.mp hnewest
  -- the newest row of the key has the id of the row, and so is the row
  have hsame : w = r := List.inj_on_of_nodup_map hids (newest_mem hw).1 hmem hid
  rw [contractView, latestStateValue, hw, hsame]
  rfl

theorem liveWrites_rest {rows : List ContractStateRow} {k : ContractStateKey}
    (hk : k ∉ (liveWrites rows).map Prod.fst) : contractView rows k = none := by
  rw [contractView, latestStateValue]
  cases hw : latestStateRow rows k with
  | none => rfl
  | some w =>
    obtain ⟨hmem, hkey⟩ := newest_mem hw
    have hkey' : w.key = k := of_decide_eq_true hkey
    cases hvalue : w.state_value with
    | none =>
      rw [Option.bind_some, hvalue]
      rfl
    | some value =>
      exfalso
      apply hk
      refine List.mem_map.mpr ⟨(w.key, contractStateLeaf w.state_value), ?_, hkey'⟩
      refine List.mem_map.mpr ⟨w, List.mem_filter.mpr ⟨hmem, decide_eq_true ⟨?_, ?_⟩⟩, rfl⟩
      · rw [hkey', hw, Option.map_some]
      · rw [hvalue]
        exact Option.some_ne_none value

section Spec
variable {Digest : Type u} [DecidableEq Digest] {h : SmtHashes Digest} {cfg : CommitmentConfig}
variable {A : Set (HashInput Digest)}

theorem of_map_eq_ok {α : Type} {β : Type u} {x : Except String α} {f : α → β} {b : β}
    (hx : x.map f = .ok b) : ∃ a, x = .ok a ∧ b = f a := by
  cases x with
  | error e => cases hx
  | ok a => exact ⟨a, rfl, (Except.ok.inj hx).symm⟩

/-- A root that commits the rows. -/
abbrev Commits (h : SmtHashes Digest) (cfg : CommitmentConfig) (A : Set (HashInput Digest))
    (nodes : NodeStore Digest) (root : Digest) (rows : List ContractStateRow) : Prop :=
  Threads h A (contractStateKey cfg) nodes root (contractView rows)

theorem buildFullContractStateRoot_spec (hA : NoCollision h A) {nodes : NodeStore Digest}
    (hF : Filed h A nodes) {rows : List ContractStateRow}
    (hids : (rows.map ContractStateRow.id).Nodup) {b : Build Digest}
    (hb : buildFullContractStateRoot h cfg nodes rows = .ok b) (hlog : ∀ i ∈ b.hashed, i ∈ A) :
    Filed h A b.nodes ∧ Extends nodes.get b.nodes.get ∧ Commits h cfg A b.nodes b.root rows := by
  rw [buildFullContractStateRoot] at hb
  obtain ⟨ws, hws, rfl⟩ := of_map_eq_ok hb
  obtain ⟨hF', hx⟩ := @Filed.writeLeaves _ _ h A ⟨h.emptyRoot, nodes, []⟩ hF ws hlog
  refine ⟨hF', hx, ?_⟩
  exact threads_of_writes hA contractStateKey_inj hF (threads_empty hA nodes) hws hlog
    (liveWrites_val hids) fun k hk => (liveWrites_rest hk).symm

/-- With a prior root that commits the rows of the blocks before, the resolved root commits all. -/
theorem resolveContractStateRoot_spec (hA : NoCollision h A) {nodes : NodeStore Digest}
    (hF : Filed h A nodes) {rows : List ContractStateRow}
    (hids : (rows.map ContractStateRow.id).Nodup) {blockIndex : Int}
    (htip : ∀ r ∈ rows, r.block_index ≤ blockIndex) {priorRoot : Option Digest}
    (hprior : ∀ root, priorRoot = some root →
      Commits h cfg A nodes root (rowsUpTo (blockIndex - 1) rows)) {b : Build Digest}
    (hb : resolveContractStateRoot h cfg nodes rows priorRoot blockIndex = .ok b)
    (hlog : ∀ i ∈ b.hashed, i ∈ A) :
    Filed h A b.nodes ∧ Extends nodes.get b.nodes.get ∧ Commits h cfg A b.nodes b.root rows := by
  cases priorRoot with
  | none => exact buildFullContractStateRoot_spec hA hF hids hb hlog
  | some root =>
    rw [resolveContractStateRoot] at hb
    obtain ⟨ws, hws, rfl⟩ := of_map_eq_ok hb
    obtain ⟨hF', hx⟩ := @Filed.writeLeaves _ _ h A ⟨root, nodes, []⟩ hF ws hlog
    refine ⟨hF', hx, ?_⟩
    refine threads_of_writes hA contractStateKey_inj hF (hprior root rfl) hws hlog
      (touchedWrites_val rows blockIndex) fun k hk => contractView_rowsUpTo htip ?_
    rwa [touchedWrites_keys] at hk

/-- A root that commits the rows is that of their full build, which succeeds. -/
theorem Commits.full_build (hA : NoCollision h A) {nodes : NodeStore Digest}
    (hF : Filed h A nodes) {rows : List ContractStateRow}
    (hids : (rows.map ContractStateRow.id).Nodup) {root : Digest}
    (hc : Commits h cfg A nodes root rows)
    (hlog : ∀ b, buildFullContractStateRoot h cfg nodes rows = .ok b → ∀ i ∈ b.hashed, i ∈ A) :
    ∃ b, buildFullContractStateRoot h cfg nodes rows = .ok b ∧ b.root = root := by
  have hkeyed : ∀ w ∈ liveWrites rows, ∃ bytes, contractStateKey cfg w.1 = .ok bytes := by
    intro w hw
    have hval := liveWrites_val hids w hw
    obtain ⟨r, hr, rfl⟩ := List.mem_map.mp hw
    obtain ⟨-, hvalue⟩ := of_decide_eq_true (List.mem_filter.mp hr).2
    have hne : contractView rows r.key ≠ none := by
      rw [← hval, contractStateLeaf, Ne, Option.map_eq_none_iff]
      exact hvalue
    obtain ⟨bytes, hbytes, -⟩ := hc.keyed r.key hne
    exact ⟨bytes, hbytes⟩
  obtain ⟨ws, hws⟩ := keyWrites_isOk hkeyed
  have hb : buildFullContractStateRoot h cfg nodes rows =
      .ok (writeLeaves h ⟨h.emptyRoot, nodes, []⟩ ws) := by
    rw [buildFullContractStateRoot, hws]
    rfl
  obtain ⟨-, -, hfull⟩ := buildFullContractStateRoot_spec hA hF hids hb (hlog _ hb)
  exact ⟨_, hb, hfull.root_eq hc⟩

end Spec

end XChainSync.Commitment
