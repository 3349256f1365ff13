import Mathlib
import XChainSync.Commitment.ContractStateRuns

/-!
# Runs of the balances root

A seed builds the whole tree, and a block threads from the row below it. Only the rows that a full
snapshot leaves below its height can be of another ledger, and only a thread leaves out the rows of
the empty tick.
-/

namespace XChainSync.Commitment
open HashTree Merkle
open Runs (Run)
set_option autoImplicit false

/-! ### Ledgers up to a height -/

namespace Ledger
variable {l : Ledger} {height : Int}

theorem upTo_upTo {top : Int} (hle : height ≤ top) : (l.upTo top).upTo height = l.upTo height := by
  simp only [upTo, filter_upTo_upTo hle]

theorem upTo_of_below (hrows : ∀ r ∈ l.credits ++ l.debits, r.block_index ≤ height)
    (hjournal : ∀ r ∈ l.escrow_leaf_journal, r.block_index ≤ height) : l.upTo height = l := by
  rw [upTo, filter_upTo_of_below fun r hr => hrows r (List.mem_append.mpr (Or.inl hr)),
    filter_upTo_of_below fun r hr => hrows r (List.mem_append.mpr (Or.inr hr)),
    filter_upTo_of_below hjournal]

end Ledger

theorem upTo_insertRows {Digest : Type} {s : Follower Digest} {rows : BlockRows} {height : Int}
    (hrows : rows.Within (height < ·)) :
    (s.insertRows rows).ledger.upTo height = s.ledger.upTo height := by
  obtain ⟨-, hcredits, hdebits, hjournal⟩ := hrows
  rw [Follower.insertRows, Ledger.upTo, Ledger.upTo, filter_upTo_append hcredits,
    filter_upTo_append hdebits, filter_upTo_append hjournal]

section Law
variable {Digest : Type} [DecidableEq Digest] (h : SmtHashes Digest) (cfg : CommitmentConfig)
variable (A : Set (HashInput Digest))

/-- Both balances columns of a row commit the ledger up to its height. -/
structure BalancesLaw (nodes : NodeStore Digest) (l : Ledger) (row : StateRootsRow Digest) :
    Prop where
  committed : BalanceCommits h cfg A nodes row.balances_root (l.upTo row.block_index)
    (cfg.isEscrowLockedLeafActive row.block_index)
  shadow : ∀ r, row.balances_root_escrow_shadow = some r →
    BalanceCommits h cfg A nodes r (l.upTo row.block_index) true

/-- A root stays good over another ledger and node store: the leaves are the same there, and its
whole tree is in that store. -/
def StaysGood (l l' : Ledger) (nodes : NodeStore Digest) (root : Digest) (escrowLeaves : Bool) :
    Prop :=
  (∀ k, l'.leafAt escrowLeaves k = l.leafAt escrowLeaves k) ∧
    Whole h.nodeHash h.EMPTY0 nodes.get SMT_DEPTH root

/-- A block is threaded from the row below it. -/
def Follower.isThreaded (s : Follower Digest) (blockIndex : Int) : Bool :=
  !(cfg.isStateCommitmentActivationBlock blockIndex || (cfg.isEscrowLockedLeafActive blockIndex &&
    !cfg.isEscrowLockedLeafActive (blockIndex - 1))) && (s.rootsAt (blockIndex - 1)).isSome

/-- No credit or debit of a threaded block is of the empty tick, and the roots that a full snapshot
leaves in place stay good over what it brings. -/
def KeepsBalancesRoots (s : Follower Digest) : FollowerOp Digest → Prop
  | .applyBlock blockIndex rows _ _ => s.isThreaded cfg blockIndex = true →
    ∀ r ∈ rows.credits ++ rows.debits, ∀ p, r.refs = some p → p.2.text ≠ ""
  | .applyFullSnapshot blockHeight _ ledger nodes _ =>
    ∀ row ∈ s.state_tree_roots, row.block_index < blockHeight →
      StaysGood h (s.ledger.upTo row.block_index) (ledger.upTo row.block_index) nodes
        row.balances_root (cfg.isEscrowLockedLeafActive row.block_index) ∧
      ∀ r, row.balances_root_escrow_shadow = some r →
        StaysGood h (s.ledger.upTo row.block_index) (ledger.upTo row.block_index) nodes r true
  | _ => True

variable {h cfg A}

theorem BalanceCommits.of_staysGood (hA : NoCollision h A) {nodes nodes' : NodeStore Digest}
    (hF : Filed h A nodes') {root : Digest} {l l' : Ledger} {escrowLeaves : Bool}
    (hc : BalanceCommits h cfg A nodes root l escrowLeaves)
    (hg : StaysGood h l l' nodes' root escrowLeaves) :
    BalanceCommits h cfg A nodes' root l' escrowLeaves where
  threads := by
    have hview : l'.view escrowLeaves = l.view escrowLeaves := by
      funext k
      rw [Ledger.view, Ledger.view, hg.1 k]
    rw [hview]
    exact hc.threads.of_whole hA hF hg.2
  readable k := by
    rw [hg.1 k]
    exact hc.readable k

theorem BalancesLaw.mono {nodes nodes' : NodeStore Digest} (hx : Extends nodes.get nodes'.get)
    {l l' : Ledger} {row : StateRootsRow Digest}
    (hrows : l'.upTo row.block_index = l.upTo row.block_index)
    (hl : BalancesLaw h cfg A nodes l row) : BalancesLaw h cfg A nodes' l' row where
  committed := by
    rw [hrows]
    exact hl.committed.mono hx
  shadow r hr := by
    rw [hrows]
    exact (hl.shadow r hr).mono hx

end Law

section Step
variable {Digest : Type} [DecidableEq Digest] {h : SmtHashes Digest} {cfg : CommitmentConfig}
variable {A : Set (HashInput Digest)}

/-- The rows of the block that are there are those of its payload. -/
theorem touched_insertRows {s : Follower Digest} (hb : s.Below s.tip) {blockIndex : Int}
    (hlt : s.tip < blockIndex) {rows : BlockRows} (hr : Ready h A (s.insertRows rows) blockIndex)
    (hnamed : ∀ r ∈ rows.credits ++ rows.debits, ∀ p, r.refs = some p → p.2.text ≠ "")
    (escrows : List LedgerRow) :
    Touched (s.insertRows rows).ledger blockIndex
      (collectSmtTouchedKeys rows.credits rows.debits escrows) where
  rows := hr.below.ledger_rows
  journal := hr.below.journal_rows
  keys r hr heq p hp := by
    have hpayload : r ∈ rows.credits ++ rows.debits := by
      have hold : r ∉ s.ledger.credits ++ s.ledger.debits := by
        intro hmem
        have := hb.ledger_rows r hmem
        omega
      rw [List.mem_append, not_or] at hold
      rcases List.mem_append.mp hr with hr | hr
      · exact List.mem_append.mpr (Or.inl ((List.mem_append.mp hr).resolve_left hold.1))
      · exact List.mem_append.mpr (Or.inr ((List.mem_append.mp hr).resolve_left hold.2))
    refine ⟨hnamed r hpayload p hp, ?_⟩
    refine List.mem_filter.mpr ⟨?_, decide_eq_true (hnamed r hpayload p hp)⟩
    have hpair : p ∈ (rows.credits ++ rows.debits ++ escrows).filterMap LedgerRow.refs :=
      List.mem_filterMap.mpr ⟨r, List.mem_append.mpr (Or.inl hpayload), hp⟩
    exact List.mem_map.mpr ⟨p, List.mem_dedup.mpr hpair, rfl⟩

/-- The roots that a law of the rows gives for the row below a block. -/
theorem balancesLaw_prior {u : Follower Digest} {height : Int}
    (hl : ∀ row ∈ u.state_tree_roots, BalancesLaw h cfg A u.state_tree_nodes u.ledger row) :
    (∀ root, (u.rootsAt height).map StateRootsRow.balances_root = some root →
      BalanceCommits h cfg A u.state_tree_nodes root (u.ledger.upTo height)
        (cfg.isEscrowLockedLeafActive height)) ∧
    ∀ root, (u.rootsAt height).bind StateRootsRow.balances_root_escrow_shadow = some root →
      BalanceCommits h cfg A u.state_tree_nodes root (u.ledger.upTo height) true := by
  constructor
  · intro root hroot
    obtain ⟨row, hrow, rfl⟩ := Option.map_eq_some_iff.mp hroot
    obtain ⟨hmem, rfl⟩ := mem_of_rootsAt hrow
    exact (hl row hmem).committed
  · intro root hroot
    obtain ⟨row, hrow, hshadow⟩ := Option.bind_eq_some_iff.mp hroot
    obtain ⟨hmem, rfl⟩ := mem_of_rootsAt hrow
    exact (hl row hmem).shadow root hshadow

/-- The row of an apply follows the law where the rows below do. -/
theorem balancesLaw_compute (hA : NoCollision h A) {u : Follower Digest} {height : Int}
    (hr : Ready h A u height)
    (hl : ∀ row ∈ u.state_tree_roots, BalancesLaw h cfg A u.state_tree_nodes u.ledger row)
    {touchedKeys : List (String × String)}
    (ht : u.isThreaded cfg height = true → Touched u.ledger height touchedKeys)
    {otherNodes : List (Digest × Digest)} {roots : Roots Digest}
    (hw : u.computeFollowerRoots h cfg height touchedKeys
      (cfg.isStateCommitmentActivationBlock height) otherNodes = .ok roots)
    (hlog : ∀ i ∈ roots.hashed, i ∈ A) :
    BalancesLaw h cfg A roots.nodes u.ledger roots.row := by
  obtain ⟨balances, updates, contract, shadow, escrow, hbalances, hescrow, hrow, hnodes, hhashed,
    hs⟩ := @computeFollowerRoots_ok _ _ _ _ A _ _ _ _ _ _ hw
  obtain ⟨hprior, hpriorShadow⟩ := balancesLaw_prior hl
  have hall := Ledger.upTo_of_below hr.below.ledger_rows hr.below.journal_rows
  have htouched : (cfg.isStateCommitmentActivationBlock height ||
      (cfg.isEscrowLockedLeafActive height && !cfg.isEscrowLockedLeafActive (height - 1))) = false →
      (u.rootsAt (height - 1)).map StateRootsRow.balances_root ≠ none →
      Touched u.ledger height touchedKeys := by
    intro hpath hsome
    apply ht
    rw [Follower.isThreaded, hpath]
    simpa [Option.isSome_iff_ne_none] using hsome
  obtain ⟨⟨-, hx, hcommits⟩, hupdates⟩ := computeFollowerBalancesRoot_spec hA hr.filed hr.keyed.ledger
    htouched hprior hbalances fun i hi => hlog i (hs.balances_hashed i hi)
  have hgrown := ((hs.grows_balances hlog).trans (hs.grows_other hlog)).trans
    ((hs.grows_contract hlog).trans (hs.grows_shadow hlog))
  obtain ⟨hFshadow, hxshadow⟩ := hgrown hr.filed
  have hFbalances := (hs.grows_balances hlog hr.filed).1
  constructor
  · rw [hs.block_index, hs.balances_root, hall]
    exact hcommits.mono (hs.grows_rest hlog hFbalances).2
  · rw [hs.block_index, hrow, hall, hnodes]
    have hcolumn := @columnIs_column _ A _ _ _ _ hescrow (fun i hi => hlog i (hhashed i hi))
      (fun nodes r => BalanceCommits h cfg A nodes r u.ledger true)
      (fun b hb hblog => (resolveShadowBalancesRoot_spec hA hFshadow hr.keyed.ledger
        (fun root hroot => (hpriorShadow root hroot).mono hxshadow) hupdates hb hblog).2.2)
    exact fun r => hcolumn.of_some

/-- A seed builds the whole tree, and keeps the shadow root of a row of its height. -/
theorem balancesLaw_seed (hA : NoCollision h A) {u : Follower Digest} {height : Int}
    (hr : Ready h A u height)
    (hl : ∀ row ∈ u.state_tree_roots, BalancesLaw h cfg A u.state_tree_nodes u.ledger row)
    {otherNodes : List (Digest × Digest)} {roots : Roots Digest}
    (hw : u.seedSnapshotRoots h cfg height otherNodes = .ok roots)
    (hlog : ∀ i ∈ roots.hashed, i ∈ A) :
    BalancesLaw h cfg A roots.nodes u.ledger roots.row := by
  obtain ⟨balances, contract, shadow, hbalances, hrow, hs⟩ := @seedSnapshotRoots_ok _ _ _ _ A _ _ _ _ hw
  have hall := Ledger.upTo_of_below hr.below.ledger_rows hr.below.journal_rows
  obtain ⟨hFbalances, -, hcommits⟩ := buildFullBalancesRoot_spec hA hr.filed hr.keyed.ledger hbalances
    fun i hi => hlog i (hs.balances_hashed i hi)
  constructor
  · rw [hs.block_index, hs.balances_root, hall]
    exact hcommits.mono (hs.grows_rest hlog hFbalances).2
  · rw [hs.block_index, hrow]
    exact fun r hroot => ((balancesLaw_prior hl).2 r hroot).mono (hs.grows hlog hr.filed).2

theorem balancesLaw_rowLaw (hA : NoCollision h A) :
    RowLaw h cfg A (KeepsBalancesRoots h cfg) fun s row =>
      BalancesLaw h cfg A s.state_tree_nodes s.ledger row where
  grown u t hx _ hledger _ hl := by
    rw [hledger]
    exact hl.mono hx rfl
  rolledBack {s} hl height row hrow := by
    obtain ⟨hmem, hlt⟩ := List.mem_filter.mp hrow
    have hlt' : row.block_index < height := of_decide_eq_true hlt
    exact (hl row hmem).mono (fun _ _ hget => hget) (Ledger.upTo_upTo (by omega))
  prepared {s u op height} hk hready hl hf hkeeps hu := by
    have hinsert : ∀ rows : BlockRows, rows.Within (s.tip < ·) → ∀ row ∈ s.state_tree_roots,
        BalancesLaw h cfg A s.state_tree_nodes (s.insertRows rows).ledger row := by
      intro rows hrows row hrow
      have hle := hk.below.root_rows row hrow
      exact (hl row hrow).mono (fun _ _ hget => hget)
        (upTo_insertRows (hrows.imp fun b hb => hle.trans_lt hb))
    cases op with
    | rollback height => cases hu
    | applyBlock blockIndex rows escrows otherNodes =>
      obtain ⟨rfl, rfl⟩ := Prod.mk.inj (Option.some.inj hu)
      obtain ⟨htip, hrows, -⟩ := hf
      exact hinsert rows (hrows.imp fun b hb => hb ▸ htip)
    | applyIncrementalSnapshot blockHeight rows otherNodes =>
      obtain ⟨rfl, rfl⟩ := Prod.mk.inj (Option.some.inj hu)
      obtain ⟨-, hrows, -⟩ := hf
      exact hinsert rows (hrows.imp fun b hb => hb.1)
    | applyFullSnapshot blockHeight contract_state ledger nodes otherNodes =>
      obtain ⟨rfl, rfl⟩ := Prod.mk.inj (Option.some.inj hu)
      intro row hrow
      obtain ⟨hmem, hlt⟩ := List.mem_filter.mp hrow
      obtain ⟨hgood, hshadow⟩ := hkeeps row hmem (of_decide_eq_true hlt)
      exact ⟨(hl row hmem).committed.of_staysGood hA hready.filed hgood, fun r hr =>
        ((hl row hmem).shadow r hr).of_staysGood hA hready.filed (hshadow r hr)⟩
  written {s u op height roots} hk hready hl hf hkeeps hu hw hlog := by
    cases op with
    | rollback height => cases hu
    | applyBlock blockIndex rows escrows otherNodes =>
      obtain ⟨rfl, rfl⟩ := Prod.mk.inj (Option.some.inj hu)
      obtain ⟨htip, -, -⟩ := hf
      refine balancesLaw_compute hA hready hl (fun hthreaded => ?_) hw hlog
      have hpath : cfg.isStateCommitmentActivationBlock blockIndex = false := by
        rw [Follower.isThreaded, Bool.and_eq_true, Bool.not_eq_true', Bool.or_eq_false_iff]
          at hthreaded
        exact hthreaded.1.1
      rw [hpath, if_neg Bool.false_ne_true]
      exact touched_insertRows hk.below htip hready (hkeeps hthreaded) escrows
    | applyFullSnapshot blockHeight contract_state ledger nodes otherNodes =>
      exact balancesLaw_seed hA hready hl hw hlog
    | applyIncrementalSnapshot blockHeight rows otherNodes =>
      exact balancesLaw_seed hA hready hl hw hlog

end Step

/-! ### A credit that a bootstrap does not have -/

section Samples

def creditConfig : CommitmentConfig := ⟨"BTC", "mainnet", some 5, none, none, none, none⟩

def creditKey : Buf := encode ["XCHAIN_BAL", "BTC", "mainnet", "a", "T"]

def credited : Ledger := ⟨[⟨some ⟨1, "a"⟩, some ⟨2, "T"⟩, 10 ^ 18, 5⟩], [], []⟩

def creditWrites : List (Buf × Option Buf) := [(creditKey, some (utf8 "1.000000000000000000"))]

def creditBuild : Build Term := writeLeaves termHashes ⟨termHashes.emptyRoot, [], []⟩ creditWrites

theorem build_credited (nodes : NodeStore Term) (escrowLeaves : Bool) :
    buildFullBalancesRoot termHashes creditConfig nodes credited escrowLeaves =
      .ok (writeLeaves termHashes ⟨termHashes.emptyRoot, nodes, []⟩ creditWrites) := by
  have hwrites : fullWrites credited escrowLeaves =
      .ok [(⟨.balance, "a", "T"⟩, some (utf8 "1.000000000000000000"))] := by
    cases escrowLeaves with
    | false => decide
    | true => decide
  have hkey : balanceKey creditConfig ⟨.balance, "a", "T"⟩ = .ok creditKey := rfl
  have hws : keyWrites (balanceKey creditConfig)
      [(⟨.balance, "a", "T"⟩, some (utf8 "1.000000000000000000"))] = .ok creditWrites := by
    rw [keyWrites, List.mapM_cons, hkey]
    rfl
  rw [buildFullBalancesRoot, hwrites]
  dsimp only [bind, Except.bind]
  rw [hws]
  rfl

theorem oneKey_build_credited {nodes : NodeStore Term} {escrowLeaves : Bool} {b : Build Term}
    (hb : buildFullBalancesRoot termHashes creditConfig nodes credited escrowLeaves = .ok b) :
    ∀ i ∈ b.hashed, i ∈ oneKey creditKey := by
  rw [build_credited] at hb
  rw [← Except.ok.inj hb]
  apply oneKey_writeLeaves
  · intro w hw
    rw [List.mem_singleton.mp hw]
  · exact fun i hi => absurd hi List.not_mem_nil

theorem unique_credited : credited.Unique where
  addresses := by decide
  ticks := by decide
  ids := List.nodup_nil

/-- The tree that has the credit is not the empty one. -/
theorem creditBuild_root_ne : creditBuild.root ≠ termHashes.emptyRoot := by
  intro heq
  have hF : Filed termHashes (oneKey creditKey) [] := (@kept_empty Term _ _ _).filed
  obtain ⟨-, -, hc⟩ := buildFullBalancesRoot_spec (noCollision_oneKey creditKey) hF unique_credited
    (build_credited [] false) (oneKey_build_credited (build_credited [] false))
  have hroot : (writeLeaves termHashes ⟨termHashes.emptyRoot, [], []⟩ creditWrites).root =
    termHashes.emptyRoot := heq
  have hthreads := hc.threads
  rw [hroot] at hthreads
  have hnone := hthreads.vacant (noCollision_oneKey creditKey) balanceKey_inj ⟨.balance, "a", "T"⟩
  have hview : credited.view false ⟨.balance, "a", "T"⟩ = some (utf8 "1.000000000000000000") := by
    decide
  rw [hview] at hnone
  cases hnone

def creditBlock : FollowerOp Term := .applyBlock 5 ⟨[], credited.credits, [], []⟩ [] []

def creditRoots (blockIndex : Int) (b : Build Term) : StateRootsRow Term :=
  ⟨blockIndex, b.root, none, none, none⟩

/-- A fresh replica after the block with the credit, its build given. -/
def afterCredit (b : Build Term) : Follower Term :=
  ⟨[], credited, [creditRoots 5 b], b.nodes, 5⟩

theorem applyOp_creditBlock {b : Build Term}
    (hb : buildFullBalancesRoot termHashes creditConfig [] credited false = .ok b) :
    Follower.empty.applyOp termHashes creditConfig creditBlock = .ok (afterCredit b, b.hashed) := by
  have hbalances : computeFollowerBalancesRoot termHashes creditConfig [] credited none 5 [] true =
      .ok (b, none) := by
    have hfull : computeFollowerBalancesRoot termHashes creditConfig [] credited none 5 [] true =
        (buildFullBalancesRoot termHashes creditConfig [] credited false).bind
          fun b => .ok (b, none) := rfl
    rw [hfull, hb]
    rfl
  have hroots := @computeFollowerRoots_eq _ _ termHashes creditConfig
    ⟨[], credited, [], [], -1⟩ 5 [] true b none hbalances _ _ _ (column_of_inactive rfl _ _)
    (column_of_inactive rfl _ _) (column_of_inactive rfl _ _)
  rw [List.append_nil, List.append_nil, List.append_nil] at hroots
  exact @applyOp_of_writtenBy _ _ _ _ Follower.empty _ creditBlock _ _ rfl rfl hroots

/-- A bootstrap from a source that does not have the credit. -/
def creditDrop : FollowerOp Term := .applyFullSnapshot 6 [] ⟨[], [], []⟩ [] []

def afterDrop (b : Build Term) : Follower Term :=
  ⟨[], ⟨[], [], []⟩, [creditRoots 5 b, ⟨6, termHashes.emptyRoot, none, none, none⟩], [], 6⟩

theorem applyOp_creditDrop (b : Build Term) :
    (afterCredit b).applyOp termHashes creditConfig creditDrop = .ok (afterDrop b, []) := by
  have hseed := @seedSnapshotRoots_nil _ _ termHashes creditConfig
    ⟨[], ⟨[], [], []⟩, [creditRoots 5 b], [], 5⟩ rfl 6 _ _ (column_of_inactive rfl _ _)
    (column_of_inactive rfl _ _)
  exact @applyOp_of_writtenBy _ _ _ _ (afterCredit b) _ creditDrop _ _ rfl rfl hseed

def afterRollback (b : Build Term) : Follower Term :=
  ⟨[], ⟨[], [], []⟩, [creditRoots 5 b], [], 5⟩

theorem applyOp_rollback (b : Build Term) :
    (afterDrop b).applyOp termHashes creditConfig (.rollback 6) = .ok (afterRollback b, []) := rfl

def emptyBlock : FollowerOp Term := .applyBlock 6 ⟨[], [], [], []⟩ [] []

/-- The root is threaded from the row that the bootstrap left. -/
def afterEmptyBlock (b : Build Term) : Follower Term :=
  ⟨[], ⟨[], [], []⟩, [creditRoots 5 b, creditRoots 6 b], [], 6⟩

theorem applyOp_emptyBlock (b : Build Term) :
    (afterRollback b).applyOp termHashes creditConfig emptyBlock = .ok (afterEmptyBlock b, []) := by
  have hroots := @computeFollowerRoots_eq _ _ termHashes creditConfig
    ⟨[], ⟨[], [], []⟩, [creditRoots 5 b], [], 5⟩ 6 [] false ⟨b.root, [], []⟩ none rfl _ _ _
    (column_of_inactive rfl _ _) (column_of_inactive rfl _ _) (column_of_inactive rfl _ _)
  exact @applyOp_of_writtenBy _ _ _ _ (afterRollback b) _ emptyBlock _ _ rfl rfl hroots

def debitRow : LedgerRow := ⟨some ⟨1, "a"⟩, some ⟨2, "T"⟩, 10 ^ 18, 6⟩

def spent : Ledger := ⟨credited.credits, [debitRow], []⟩

def debitBlock : FollowerOp Term := .applyBlock 6 ⟨[], [], [debitRow], []⟩ [] []

def debitBuild (b : Build Term) : Build Term :=
  writeLeaves termHashes ⟨b.root, b.nodes, []⟩ [(creditKey, none)]

def afterDebit (b b' : Build Term) : Follower Term :=
  ⟨[], spent, [creditRoots 5 b, creditRoots 6 b'], b'.nodes, 6⟩

theorem compute_spent (nodes : NodeStore Term) (root : Term) :
    computeFollowerBalancesRoot termHashes creditConfig nodes spent (some root) 6 [("a", "T")] false =
      .ok (writeLeaves termHashes ⟨root, nodes, []⟩ [(creditKey, none)], none) := by
  have hwrites : spendableWrites spent [("a", "T")] = .ok [(⟨.balance, "a", "T"⟩, none)] := by decide
  have hkey : balanceKey creditConfig ⟨.balance, "a", "T"⟩ = .ok creditKey := rfl
  have hws : keyWrites (balanceKey creditConfig) [(⟨.balance, "a", "T"⟩, none)] =
      .ok [(creditKey, none)] := by
    rw [keyWrites, List.mapM_cons, hkey]
    rfl
  have hthreaded : computeFollowerBalancesRoot termHashes creditConfig nodes spent (some root) 6
      [("a", "T")] false = (spendableWrites spent [("a", "T")]).bind fun writes =>
        (keyWrites (balanceKey creditConfig) writes).bind fun ws =>
          .ok (writeLeaves termHashes ⟨root, nodes, []⟩ ws, none) := rfl
  rw [hthreaded, hwrites]
  dsimp only [Except.bind]
  rw [hws]

theorem applyOp_debitBlock {b b' : Build Term}
    (hb : computeFollowerBalancesRoot termHashes creditConfig b.nodes spent (some b.root) 6
      [("a", "T")] false = .ok (b', none)) :
    (afterCredit b).applyOp termHashes creditConfig debitBlock = .ok (afterDebit b b', b'.hashed) := by
  have hroots := @computeFollowerRoots_eq _ _ termHashes creditConfig
    ⟨[], spent, [creditRoots 5 b], b.nodes, 5⟩ 6 [("a", "T")] false b' none hb _ _ _
    (column_of_inactive rfl _ _) (column_of_inactive rfl _ _) (column_of_inactive rfl _ _)
  rw [List.append_nil, List.append_nil, List.append_nil] at hroots
  exact @applyOp_of_writtenBy _ _ _ _ (afterCredit b) _ debitBlock _ _ rfl rfl hroots

theorem build_spent (nodes : NodeStore Term) (escrowLeaves : Bool) :
    buildFullBalancesRoot termHashes creditConfig nodes spent escrowLeaves =
      .ok ⟨termHashes.emptyRoot, nodes, []⟩ := by
  have hwrites : fullWrites spent escrowLeaves = .ok [] := by
    cases escrowLeaves with
    | false => decide
    | true => decide
  rw [buildFullBalancesRoot, hwrites]
  rfl

theorem step_creditBlock :
    Follower.empty.step termHashes creditConfig creditBlock = afterCredit creditBuild := by
  have hb : buildFullBalancesRoot termHashes creditConfig [] credited false = .ok creditBuild :=
    build_credited [] false
  rw [Follower.step, applyOp_creditBlock hb]

theorem step_debitBlock (b : Build Term) :
    (afterCredit b).step termHashes creditConfig debitBlock = afterDebit b (debitBuild b) := by
  have hb : computeFollowerBalancesRoot termHashes creditConfig b.nodes spent (some b.root) 6
      [("a", "T")] false = .ok (debitBuild b, none) := compute_spent b.nodes b.root
  rw [Follower.step, applyOp_debitBlock hb]

theorem feasible_creditBlock : Follower.empty.Feasible termHashes creditBlock := by
  refine ⟨by decide, ⟨nofun, ?_, nofun, nofun⟩, ⟨List.nodup_nil, unique_credited⟩⟩
  intro r hr
  rw [List.mem_singleton.mp hr]

theorem feasible_debitBlock (b : Build Term) : (afterCredit b).Feasible termHashes debitBlock := by
  have hunique : spent.Unique := ⟨by decide, by decide, List.nodup_nil⟩
  refine ⟨(by decide : (5 : Int) < 6), ⟨nofun, nofun, ?_, nofun⟩, ⟨List.nodup_nil, hunique⟩⟩
  intro r hr
  rw [List.mem_singleton.mp hr]
  rfl

theorem fits_creditBlock :
    Fits termHashes creditConfig (oneKey creditKey) Follower.empty creditBlock := by
  apply fits_of_applyOp (applyOp_creditBlock (build_credited [] false))
    (oneKey_build_credited (build_credited [] false)) (fun i hi => absurd hi List.not_mem_nil)
  intro i hi
  rcases List.mem_append.mp hi with hi | hi
  · rcases List.mem_append.mp hi with hi | hi
    · exact absurd hi List.not_mem_nil
    · rw [afterCredit, build_credited] at hi
      exact oneKey_build_credited (build_credited _ false) i hi
  · rw [afterCredit, build_credited] at hi
    exact oneKey_build_credited (build_credited _ true) i hi

theorem fits_debitBlock (b : Build Term) :
    Fits termHashes creditConfig (oneKey creditKey) (afterCredit b) debitBlock := by
  apply fits_of_applyOp (applyOp_debitBlock (compute_spent b.nodes b.root))
  · apply oneKey_writeLeaves
    · intro w hw
      rw [List.mem_singleton.mp hw]
    · exact fun i hi => absurd hi List.not_mem_nil
  · exact fun i hi => absurd hi List.not_mem_nil
  · rw [Follower.fullBuildHashes, afterDebit, build_spent, build_spent]
    exact fun i hi => absurd hi List.not_mem_nil

/-- Without a ledger and rows of contract state nothing is hashed. -/
theorem fullBuildHashes_nil (roots : List (StateRootsRow Term)) (nodes : NodeStore Term) (tip : Int) :
    Follower.fullBuildHashes termHashes creditConfig ⟨[], ⟨[], [], []⟩, roots, nodes, tip⟩ = [] := by
  rw [Follower.fullBuildHashes, buildFullBalancesRoot_nil, buildFullBalancesRoot_nil]
  rfl

theorem fits_still {s : Follower Term} {op : FollowerOp Term} (hshipped : op.shipped = [])
    {roots : List (StateRootsRow Term)} {nodes : NodeStore Term} {tip : Int}
    (ht : s.applyOp termHashes creditConfig op = .ok (⟨[], ⟨[], [], []⟩, roots, nodes, tip⟩, [])) :
    Fits termHashes creditConfig (oneKey creditKey) s op := by
  apply fits_of_applyOp ht (fun i hi => absurd hi List.not_mem_nil)
  · rw [hshipped]
    exact fun i hi => absurd hi List.not_mem_nil
  · rw [fullBuildHashes_nil]
    exact fun i hi => absurd hi List.not_mem_nil

theorem feasible_creditDrop (b : Build Term) : (afterCredit b).Feasible termHashes creditDrop :=
  ⟨nofun, nofun, nofun, ⟨List.nodup_nil, Ledger.unique_nil⟩, nofun⟩

theorem feasible_emptyBlock (b : Build Term) : (afterRollback b).Feasible termHashes emptyBlock :=
  ⟨(by decide : (5 : Int) < 6), ⟨nofun, nofun, nofun, nofun⟩, ⟨List.nodup_nil, Ledger.unique_nil⟩⟩

/-- Credit, bootstrap without it, roll the bootstrap back, apply a block with no rows. -/
theorem run_emptyBlock :
    Run (fun s op t => t = s.step termHashes creditConfig op)
      (fun s op => s.Feasible termHashes op ∧ Fits termHashes creditConfig (oneKey creditKey) s op)
      Follower.empty (afterEmptyBlock creditBuild) := by
  have hfirst : Run (fun s op t => t = s.step termHashes creditConfig op)
      (fun s op => s.Feasible termHashes op ∧ Fits termHashes creditConfig (oneKey creditKey) s op)
      Follower.empty (Follower.empty.step termHashes creditConfig creditBlock) :=
    Run.tail .refl ⟨feasible_creditBlock, fits_creditBlock⟩ rfl
  rw [step_creditBlock] at hfirst
  have hdrop := hfirst.tail (u := afterDrop creditBuild)
    ⟨feasible_creditDrop _, fits_still rfl (applyOp_creditDrop _)⟩
    (by rw [Follower.step, applyOp_creditDrop])
  have hfeasible : (afterDrop creditBuild).Feasible termHashes (.rollback 6) := trivial
  have hrollback := hdrop.tail (u := afterRollback creditBuild)
    ⟨hfeasible, fits_still rfl (applyOp_rollback creditBuild)⟩ (by rw [Follower.step, applyOp_rollback])
  exact hrollback.tail ⟨feasible_emptyBlock _, fits_still rfl (applyOp_emptyBlock _)⟩
    (by rw [Follower.step, applyOp_emptyBlock])

end Samples

/-! ### The runs -/

section Runs
variable {Digest : Type} [DecidableEq Digest] {h : SmtHashes Digest} {cfg : CommitmentConfig}
variable {A : Set (HashInput Digest)}

/-- A stored root is that of the full build over the ledger of the replica. -/
def IsFullBalances (h : SmtHashes Digest) (cfg : CommitmentConfig) (s : Follower Digest)
    (escrowLeaves : Bool) (root : Digest) : Prop :=
  ∃ b, buildFullBalancesRoot h cfg s.state_tree_nodes s.ledger escrowLeaves = .ok b ∧ b.root = root

omit [DecidableEq Digest] in
theorem column_isSome {active : Bool} {nodes : NodeStore Digest}
    {build : NodeStore Digest → Except String (Build Digest)} {c : Column Digest}
    (hc : column active nodes build = .ok c) : c.root.isSome = active := by
  cases active with
  | false =>
    obtain rfl := Except.ok.inj hc
    rfl
  | true =>
    obtain ⟨b, -, rfl⟩ := of_map_eq_ok hc
    rfl

/-- A block past the flag day leaves a row of roots, with a shadow root at the shadow heights. -/
theorem row_of_applyBlock {s t : Follower Digest} {blockIndex : Int} {rows : BlockRows}
    {escrows : List LedgerRow} {otherNodes : List (Digest × Digest)} {log : List (HashInput Digest)}
    (ht : s.applyOp h cfg (.applyBlock blockIndex rows escrows otherNodes) = .ok (t, log))
    (hactive : cfg.isStateCommitmentActive blockIndex = true) :
    t.tip = blockIndex ∧ ∃ row ∈ t.state_tree_roots, row.block_index = blockIndex ∧
      row.balances_root_escrow_shadow.isSome = cfg.isEscrowLockedLeafShadowActive blockIndex := by
  rcases applyOp_ok ht with ⟨height, hop, -⟩ | ⟨u, height, hu, ⟨hoff, -⟩ | ⟨roots, hw, rfl, -⟩⟩
  · cases hop
  · obtain ⟨-, rfl⟩ := Prod.mk.inj (Option.some.inj hu)
    exact absurd hactive (Bool.eq_false_iff.mp hoff)
  · obtain ⟨-, rfl⟩ := Prod.mk.inj (Option.some.inj hu)
    obtain ⟨_, _, _, _, escrow, -, hescrow, hrow, -, -, hs⟩ :=
      @computeFollowerRoots_ok _ _ _ _ ∅ _ _ _ _ _ _ hw
    refine ⟨rfl, roots.row, List.mem_append.mpr (Or.inr (List.mem_singleton_self _)),
      hs.block_index, ?_⟩
    rw [hrow]
    exact column_isSome hescrow

/-- In a run whose full snapshots keep the balances roots below them good, and whose threaded blocks
have no row of the empty tick, the balances columns of the tip are full builds. -/
theorem balances_roots_are_full_builds (hA : NoCollision h A) {s : Follower Digest}
    (hrun : Run (fun s op t => t = s.step h cfg op)
      (fun s op => s.Feasible h op ∧ Fits h cfg A s op ∧ KeepsBalancesRoots h cfg s op)
      Follower.empty s) :
    (∀ row ∈ s.state_tree_roots, row.block_index = s.tip →
      IsFullBalances h cfg s (cfg.isEscrowLockedLeafActive s.tip) row.balances_root ∧
      ∀ r, row.balances_root_escrow_shadow = some r → IsFullBalances h cfg s true r) ∧
    ∀ blockIndex rows escrows otherNodes t log,
      s.applyOp h cfg (.applyBlock blockIndex rows escrows otherNodes) = .ok (t, log) →
      cfg.isStateCommitmentActive blockIndex = true →
      t.tip = blockIndex ∧ ∃ row ∈ t.state_tree_roots, row.block_index = blockIndex ∧
        row.balances_root_escrow_shadow.isSome = cfg.isEscrowLockedLeafShadowActive blockIndex := by
  obtain ⟨hk, hl⟩ := (balancesLaw_rowLaw hA).run hrun
  refine ⟨fun row hrow htip => ?_, fun _ _ _ _ _ _ ht hactive => row_of_applyBlock ht hactive⟩
  have hlaw := hl row hrow
  have hall : s.ledger.upTo s.tip = s.ledger :=
    Ledger.upTo_of_below hk.below.ledger_rows hk.below.journal_rows
  have hfull : ∀ escrowLeaves r,
      (escrowLeaves = cfg.isEscrowLockedLeafActive s.tip ∨ escrowLeaves = true) →
      BalanceCommits h cfg A s.state_tree_nodes r s.ledger escrowLeaves →
      IsFullBalances h cfg s escrowLeaves r := by
    intro escrowLeaves r hflag hc
    refine hc.full_build hA hk.filed hk.keyed.ledger fun b hb i hi => ?_
    obtain ⟨r, op, ⟨-, hfits, -⟩, rfl⟩ := exists_last hrun hrow
    refine hfits.full i ?_
    rw [Follower.fullBuildHashes]
    rcases hflag with rfl | rfl
    · rw [hb]
      exact List.mem_append.mpr (Or.inl (List.mem_append.mpr (Or.inr hi)))
    · rw [hb]
      exact List.mem_append.mpr (Or.inr hi)
  have hcommitted := hlaw.committed
  have hshadow := hlaw.shadow
  rw [htip, hall] at hcommitted hshadow
  exact ⟨hfull _ _ (Or.inl rfl) hcommitted, fun r hr => hfull _ _ (Or.inr rfl) (hshadow r hr)⟩

/-- A balance that a block credits and the next one spends. -/
theorem balances_roots_credit_spend :
    ((Follower.empty.step termHashes creditConfig creditBlock).step termHashes creditConfig
      debitBlock).state_tree_roots.length = 2 ∧
    ∀ row ∈ ((Follower.empty.step termHashes creditConfig creditBlock).step termHashes creditConfig
        debitBlock).state_tree_roots, row.block_index = 6 →
      IsFullBalances termHashes creditConfig
        ((Follower.empty.step termHashes creditConfig creditBlock).step termHashes creditConfig
          debitBlock) false row.balances_root := by
  have hfirst : Run (fun s op t => t = s.step termHashes creditConfig op)
      (fun s op => s.Feasible termHashes op ∧ Fits termHashes creditConfig (oneKey creditKey) s op ∧
        KeepsBalancesRoots termHashes creditConfig s op)
      Follower.empty (Follower.empty.step termHashes creditConfig creditBlock) := by
    refine Run.tail .refl ⟨feasible_creditBlock, fits_creditBlock, fun hthreaded => ?_⟩ rfl
    cases hthreaded
  rw [step_creditBlock] at hfirst ⊢
  have hnamed : KeepsBalancesRoots termHashes creditConfig (afterCredit creditBuild) debitBlock := by
    intro _ r hr p hp
    rw [List.mem_singleton.mp hr] at hp
    obtain rfl := Option.some.inj hp
    decide
  have hrun := hfirst.tail ⟨feasible_debitBlock creditBuild, fits_debitBlock creditBuild, hnamed⟩ rfl
  have hfull := (balances_roots_are_full_builds (noCollision_oneKey creditKey) hrun).1
  rw [step_debitBlock] at hfull ⊢
  exact ⟨rfl, fun row hrow htip => (hfull row hrow htip).1⟩

/-- After a bootstrap is rolled back to a row that it left in place, the threaded root is that of the
ledger before. -/
theorem balances_root_of_old_ledger :
    Run (fun s op t => t = s.step termHashes creditConfig op)
      (fun s op => s.Feasible termHashes op ∧ Fits termHashes creditConfig (oneKey creditKey) s op)
      Follower.empty (afterEmptyBlock creditBuild) ∧
    ∃ row ∈ (afterEmptyBlock creditBuild).state_tree_roots,
      row.block_index = (afterEmptyBlock creditBuild).tip ∧
      ¬ IsFullBalances termHashes creditConfig (afterEmptyBlock creditBuild)
        (creditConfig.isEscrowLockedLeafActive (afterEmptyBlock creditBuild).tip)
        row.balances_root := by
  refine ⟨run_emptyBlock, _, List.mem_cons_of_mem _ List.mem_cons_self, rfl, ?_⟩
  rintro ⟨b, hb, hroot⟩
  have hempty := buildFullBalancesRoot_nil termHashes creditConfig
    (afterEmptyBlock creditBuild).state_tree_nodes
    (creditConfig.isEscrowLockedLeafActive (afterEmptyBlock creditBuild).tip)
  have hledger : (afterEmptyBlock creditBuild).ledger = ⟨[], [], []⟩ := rfl
  rw [hledger, hempty] at hb
  rw [← Except.ok.inj hb] at hroot
  exact creditBuild_root_ne hroot.symm

end Runs

end XChainSync.Commitment
