import Mathlib
import XChainSync.Library.Runs
import XChainSync.Transparency.MerkleTree

/-!
# The transparency log

`TransparencyLog` of src/server/transparency_log.js over its three tables. No operation runs in a
transaction, so `pruneFrom` may stop between two of its statements. `next` is the height that the
chain hands over next, none before the first block.
-/

namespace XChainSync.Transparency
open Runs (Run)
set_option autoImplicit false

structure SyncMetaRow where
  block_index : Int
  ledger_hash : Option String
  actions_hash : Option String
  contract_hash : Option String
  deriving DecidableEq, Repr

structure MerkleEpochRow where
  epoch : Int
  start_block : Int
  end_block : Int
  merkle_root : String
  leaf_count : Nat
  deriving DecidableEq, Repr

structure MerkleReorgRow where
  reorg_block : Int
  epoch : Int
  start_block : Int
  end_block : Int
  old_root : String
  new_root : Option String
  deriving DecidableEq, Repr

structure LogConfig where
  epochSize : Nat
  epochSize_pos : 0 < epochSize
  readOnly : Bool
  retentionBlocks : Nat
  retentionFloor : Nat

structure TransparencyLog where
  syncMeta : List SyncMetaRow
  merkleEpochs : List MerkleEpochRow
  merkleReorgs : List MerkleReorgRow
  next : Option Int
  deriving DecidableEq, Repr

/-- Where `pruneFrom` stops on a fault. -/
inductive PruneFault where
  /-- After the markers of that many invalidated epochs. -/
  | inMarkers (written : Nat)
  /-- Between the two deletes. -/
  | betweenDeletes
  deriving DecidableEq, Repr

inductive ProofAnswer where
  | null
  | error (message : String)
  | proof (blockIndex epoch : Int) (leaf merkleRoot : String)
      (steps : Option (List MerkleTree.ProofStep)) (verified : Bool)
  deriving DecidableEq, Repr

/-- Not a proof that fails. -/
def ProofAnswer.verifies : ProofAnswer → Bool
  | .null => true
  | .error _ => true
  | .proof _ _ _ _ _ verified => verified

namespace TransparencyLog

def empty : TransparencyLog := ⟨[], [], [], none⟩

/-! ### Statements -/

def inRange (startBlock endBlock : Int) (r : SyncMetaRow) : Bool :=
  startBlock ≤ r.block_index ∧ r.block_index ≤ endBlock

/-- `ORDER BY block_index`. -/
def AtOrBelow (r r' : SyncMetaRow) : Prop := r.block_index ≤ r'.block_index

instance : DecidableRel AtOrBelow := fun r r' => Int.decLe r.block_index r'.block_index

instance : Std.Total AtOrBelow := ⟨fun r r' => Int.le_total r.block_index r'.block_index⟩

instance : IsTrans SyncMetaRow AtOrBelow := ⟨fun _ _ _ => Int.le_trans⟩

def findSyncMetaLeaves (log : TransparencyLog) (startBlock endBlock : Int) : List SyncMetaRow :=
  (log.syncMeta.filter (inRange startBlock endBlock)).insertionSort AtOrBelow

def getHighWaterMark (log : TransparencyLog) : Option Int := (log.syncMeta.map (·.block_index)).max?

def getHighestEpochEndAtOrBelow (log : TransparencyLog) (cutoff : Int) : Option Int :=
  ((log.merkleEpochs.map (·.end_block)).filter (· ≤ cutoff)).max?

def countEpochsStraddling (log : TransparencyLog) (boundary : Int) : Nat :=
  log.merkleEpochs.countP fun e => e.start_block ≤ boundary ∧ boundary < e.end_block

def isPending (epoch : Int) (m : MerkleReorgRow) : Bool := m.epoch = epoch ∧ m.new_root = none

/-- The least first block of an epoch's pending markers. -/
def findPendingReorgMarkerStart (log : TransparencyLog) (epoch : Int) : Option Int :=
  ((log.merkleReorgs.filter (isPending epoch)).map (·.start_block)).min?

def backfillReorgMarkerRoot (log : TransparencyLog) (root : String) (epoch : Int) :
    TransparencyLog :=
  { log with
    merkleReorgs := log.merkleReorgs.map fun m =>
      if isPending epoch m then { m with new_root := some root } else m }

/-! ### Operations -/

section Operations
variable (sha : Sha256) (cfg : LogConfig)

def leafOf (r : SyncMetaRow) : String :=
  MerkleTree.computeLeaf sha r.ledger_hash r.actions_hash r.contract_hash

def reorgedLeavesTruncated (log : TransparencyLog) (epoch firstLeaf : Int) : Bool :=
  match log.findPendingReorgMarkerStart epoch with
  | none => false
  | some start => start < firstLeaf

def commitEpoch (log : TransparencyLog) (epoch : Int) : TransparencyLog :=
  if cfg.readOnly then log
  else
    let startBlock := (epoch - 1) * cfg.epochSize + 1
    let endBlock := epoch * cfg.epochSize
    if log.merkleEpochs.any (·.epoch = epoch) then log
    else
      match log.findSyncMetaLeaves startBlock endBlock with
      | [] => log
      | first :: rest =>
        if log.reorgedLeavesTruncated epoch first.block_index then log
        else
          let leaves := (first :: rest).map (leafOf sha)
          match (MerkleTree.buildTree sha leaves).root with
          | none => log
          | some root =>
            let last := (first :: rest).getLast (List.cons_ne_nil first rest)
            let row : MerkleEpochRow :=
              ⟨epoch, first.block_index, last.block_index, root, leaves.length⟩
            let inserted : TransparencyLog := { log with merkleEpochs := log.merkleEpochs ++ [row] }
            inserted.backfillReorgMarkerRoot root epoch

/-- `retentionBlocks` as `parseInt` reads it: none where it is undefined or null, and none within
where it is no number. -/
def pruneSyncMeta (log : TransparencyLog) (retentionBlocks : Option (Option Int)) :
    TransparencyLog :=
  match retentionBlocks.getD (some (cfg.retentionBlocks : Int)) with
  | none => log
  | some keep =>
    if keep ≤ 0 ∨ cfg.readOnly then log
    else
      match log.getHighWaterMark with
      | none => log
      | some tip =>
        let cutoff := tip - max keep cfg.retentionFloor
        if cutoff < 1 then log
        else
          match log.getHighestEpochEndAtOrBelow cutoff with
          | none => log
          | some boundary =>
            if boundary < 1 ∨ 0 < log.countEpochsStraddling boundary then log
            else { log with syncMeta := log.syncMeta.filter fun r => boundary < r.block_index }

/-- `commits` and `prunes` tell that no fault stops the work of an epoch boundary: such faults are
caught. -/
def recordBlock (log : TransparencyLog) (row : SyncMetaRow) (commits prunes : Bool) :
    TransparencyLog :=
  if cfg.readOnly then log
  else
    let recorded : TransparencyLog :=
      if log.syncMeta.any (·.block_index = row.block_index) then log
      else { log with syncMeta := log.syncMeta ++ [row], next := some (row.block_index + 1) }
    if 0 < row.block_index ∧ row.block_index % cfg.epochSize = 0 then
      let committed :=
        if commits then recorded.commitEpoch sha cfg (row.block_index / cfg.epochSize) else recorded
      if 0 < cfg.retentionBlocks ∧ prunes then committed.pruneSyncMeta cfg none else committed
    else recorded

def recommitEpoch (log : TransparencyLog) (epoch : Int) (highWaterMark : Option Int) :
    TransparencyLog :=
  if cfg.readOnly then log
  else if highWaterMark.any fun h => decide (h < epoch * cfg.epochSize) then log
  else
    { log with merkleEpochs := log.merkleEpochs.filter (·.epoch ≠ epoch) }.commitEpoch sha cfg epoch

def addMarker (block_index : Int) (log : TransparencyLog) (e : MerkleEpochRow) : TransparencyLog :=
  if log.merkleReorgs.any (isPending e.epoch) then log
  else
    { log with
      merkleReorgs := log.merkleReorgs ++
        [⟨block_index, e.epoch, e.start_block, e.end_block, e.merkle_root, none⟩] }

def deleteEpochsEndingAtOrAfter (log : TransparencyLog) (block_index : Int) : TransparencyLog :=
  { log with merkleEpochs := log.merkleEpochs.filter fun e => e.end_block < block_index }

def deleteSyncMetaFrom (log : TransparencyLog) (block_index : Int) : TransparencyLog :=
  { log with syncMeta := log.syncMeta.filter fun r => r.block_index < block_index }

/-- A prune that completes hands the chain back to the pruned height. -/
def pruneFrom (log : TransparencyLog) (block_index : Int) (fault : Option PruneFault) :
    TransparencyLog :=
  if cfg.readOnly then log
  else
    let invalidated := log.merkleEpochs.filter fun e => block_index ≤ e.end_block
    match fault with
    | some (.inMarkers written) => (invalidated.take written).foldl (addMarker block_index) log
    | some .betweenDeletes =>
      (invalidated.foldl (addMarker block_index) log).deleteEpochsEndingAtOrAfter block_index
    | none =>
      let pruned := ((invalidated.foldl (addMarker block_index) log).deleteEpochsEndingAtOrAfter
        block_index).deleteSyncMetaFrom block_index
      { pruned with next := log.next.map (min block_index) }

/-- The last row of the block among the rows. -/
def leafIndexOf (rows : List SyncMetaRow) (blockIndex : Int) : Option Nat :=
  (rows.zipIdx.filter fun p => p.1.block_index = blockIndex).getLast?.map (·.2)

/-- `blockIndex` is none where it is no number. -/
def getProof (log : TransparencyLog) (blockIndex : Option Int) : ProofAnswer :=
  match blockIndex with
  | none => .null
  | some blockIndex =>
    if blockIndex < 1 then .null
    else
      let epoch := (blockIndex + cfg.epochSize - 1) / cfg.epochSize
      match log.merkleEpochs.find? (·.epoch = epoch) with
      | none => .error "epoch not yet committed"
      | some epochData =>
        let rows := log.findSyncMetaLeaves epochData.start_block epochData.end_block
        if rows = [] then .null
        else if rows.length ≠ epochData.leaf_count then .error "epoch leaves incomplete"
        else
          match leafIndexOf rows blockIndex with
          | none => .error "block not found in epoch"
          | some leafIndex =>
            let leaves := rows.map (leafOf sha)
            let leaf := leaves.getD leafIndex ""
            let steps := MerkleTree.generateProof (MerkleTree.buildTree sha leaves).layers leafIndex
            .proof blockIndex epoch leaf epochData.merkle_root steps
              (MerkleTree.verifyProof sha leaf steps (some epochData.merkle_root))

end Operations

/-! ### The invariant -/

section Invariant
variable {sha : Sha256} {cfg : LogConfig} {log : TransparencyLog}

/-- A committed epoch describes exactly the rows now in its range, or they are all pruned. -/
def Described (sha : Sha256) (log : TransparencyLog) (e : MerkleEpochRow) : Prop :=
  let rows := log.findSyncMetaLeaves e.start_block e.end_block
  rows = [] ∨ ((MerkleTree.buildTree sha (rows.map (leafOf sha))).root = some e.merkle_root ∧
    rows.length = e.leaf_count)

structure Consistent (sha : Sha256) (log : TransparencyLog) : Prop where
  described : ∀ e ∈ log.merkleEpochs, Described sha log e
  ordered : ∀ e ∈ log.merkleEpochs, e.start_block ≤ e.end_block
  epochs_below : ∀ e ∈ log.merkleEpochs, ∃ n, log.next = some n ∧ e.end_block < n
  rows_below : ∀ r ∈ log.syncMeta, ∃ n, log.next = some n ∧ r.block_index < n

theorem findSyncMetaLeaves_congr {log' : TransparencyLog} {a b : Int}
    (h : log'.syncMeta.filter (inRange a b) = log.syncMeta.filter (inRange a b)) :
    log'.findSyncMetaLeaves a b = log.findSyncMetaLeaves a b := by
  rw [findSyncMetaLeaves, h, findSyncMetaLeaves]

theorem Described.congr {log' : TransparencyLog} {e : MerkleEpochRow}
    (h : log'.findSyncMetaLeaves e.start_block e.end_block =
      log.findSyncMetaLeaves e.start_block e.end_block) (he : Described sha log e) :
    Described sha log' e := by
  rw [Described, h]
  exact he

theorem mem_findSyncMetaLeaves {a b : Int} {r : SyncMetaRow} :
    r ∈ log.findSyncMetaLeaves a b ↔ r ∈ log.syncMeta ∧ a ≤ r.block_index ∧ r.block_index ≤ b := by
  rw [findSyncMetaLeaves, List.mem_insertionSort, List.mem_filter, inRange, decide_eq_true_eq]

theorem pairwise_findSyncMetaLeaves (log : TransparencyLog) (a b : Int) :
    (log.findSyncMetaLeaves a b).Pairwise AtOrBelow :=
  List.pairwise_insertionSort AtOrBelow _

/-- The rows from the first to the last of a range are those of the range. -/
theorem findSyncMetaLeaves_tight {a b : Int} {first : SyncMetaRow} {rest : List SyncMetaRow}
    (h : log.findSyncMetaLeaves a b = first :: rest) :
    let last := (first :: rest).getLast (List.cons_ne_nil first rest)
    log.findSyncMetaLeaves first.block_index last.block_index = first :: rest ∧
      first.block_index ≤ last.block_index := by
  intro last
  have hsorted := pairwise_findSyncMetaLeaves log a b
  rw [h] at hsorted
  have hlast : last ∈ first :: rest := List.getLast_mem _
  have hfirst : ∀ r ∈ first :: rest, first.block_index ≤ r.block_index := by
    intro r hr
    rcases List.mem_cons.mp hr with rfl | hr
    · exact Int.le_refl _
    · exact (List.pairwise_cons.mp hsorted).1 r hr
  have hle : ∀ r ∈ first :: rest, r.block_index ≤ last.block_index := by
    intro r hr
    have hsplit := List.dropLast_append_getLast (List.cons_ne_nil first rest)
    rw [← hsplit] at hsorted hr
    rcases List.mem_append.mp hr with hr | hr
    · exact (List.pairwise_append.mp hsorted).2.2 r hr last (List.mem_singleton_self _)
    · rw [List.mem_singleton.mp hr]
  have hmem : ∀ r, r ∈ first :: rest ↔ r ∈ log.syncMeta ∧ a ≤ r.block_index ∧ r.block_index ≤ b := by
    intro r
    rw [← h]
    exact mem_findSyncMetaLeaves
  refine ⟨?_, hfirst last hlast⟩
  rw [← h, findSyncMetaLeaves, findSyncMetaLeaves]
  congr 1
  refine List.filter_congr fun r hr => ?_
  have hF := ((hmem first).mp List.mem_cons_self).2
  have hL := ((hmem last).mp hlast).2
  rw [inRange, inRange, decide_eq_decide]
  constructor
  · intro hr'
    omega
  · intro hr'
    have hin := (hmem r).mpr ⟨hr, hr'⟩
    exact ⟨hfirst r hin, hle r hin⟩

theorem consistent_empty : Consistent sha empty where
  described := fun _ he => absurd he List.not_mem_nil
  ordered := fun _ he => absurd he List.not_mem_nil
  epochs_below := fun _ he => absurd he List.not_mem_nil
  rows_below := fun _ hr => absurd hr List.not_mem_nil

/-- Fewer epochs over the same rows. -/
theorem Consistent.fewerEpochs (h : Consistent sha log) {log' : TransparencyLog}
    (hrows : log'.syncMeta = log.syncMeta) (hnext : log'.next = log.next)
    (hepochs : ∀ e ∈ log'.merkleEpochs, e ∈ log.merkleEpochs) : Consistent sha log' where
  described e he := (h.described e (hepochs e he)).congr (findSyncMetaLeaves_congr (by rw [hrows]))
  ordered e he := h.ordered e (hepochs e he)
  epochs_below e he := by
    rw [hnext]
    exact h.epochs_below e (hepochs e he)
  rows_below := by
    rw [hrows, hnext]
    exact h.rows_below

theorem Consistent.commitEpoch (h : Consistent sha log) (epoch : Int) :
    Consistent sha (log.commitEpoch sha cfg epoch) := by
  unfold TransparencyLog.commitEpoch
  split
  · exact h
  dsimp only
  split
  · exact h
  split
  · exact h
  rename_i first rest hrows
  split
  · exact h
  split
  · exact h
  rename_i root hroot
  obtain ⟨htight, hle⟩ := findSyncMetaLeaves_tight hrows
  constructor
  · intro e he
    rcases List.mem_append.mp he with he | he
    · exact (h.described e he).congr rfl
    · rw [List.mem_singleton.mp he]
      refine @Described.congr sha log _ _ rfl (.inr ?_)
      dsimp only
      rw [htight]
      exact ⟨hroot, (List.length_map _).symm⟩
  · intro e he
    rcases List.mem_append.mp he with he | he
    · exact h.ordered e he
    · rw [List.mem_singleton.mp he]
      exact hle
  · intro e he
    rcases List.mem_append.mp he with he | he
    · exact h.epochs_below e he
    · rw [List.mem_singleton.mp he]
      have hmem : ∀ r ∈ first :: rest, r ∈ log.syncMeta := by
        rw [← hrows]
        exact fun r hr => (mem_findSyncMetaLeaves.mp hr).1
      exact h.rows_below _ (hmem _ (List.getLast_mem _))
  · exact h.rows_below

/-- A boundary that no epoch straddles leaves of each epoch all rows or none. -/
theorem Consistent.pruneThrough (h : Consistent sha log) {boundary : Int}
    (hstraddling : log.countEpochsStraddling boundary = 0) :
    Consistent sha
      { log with syncMeta := log.syncMeta.filter fun r => boundary < r.block_index } where
  described e he := by
    by_cases hend : e.end_block ≤ boundary
    · left
      rw [List.eq_nil_iff_forall_not_mem]
      intro r hr
      obtain ⟨hmem, -, hle⟩ := mem_findSyncMetaLeaves.mp hr
      have hkept := of_decide_eq_true (List.mem_filter.mp hmem).2
      omega
    · have hstart : boundary < e.start_block := by
        have hcount := List.countP_eq_zero.mp hstraddling e he
        rw [decide_eq_true_eq] at hcount
        omega
      refine (h.described e he).congr (findSyncMetaLeaves_congr ?_)
      rw [List.filter_filter]
      apply List.filter_congr
      intro r _
      rw [Bool.and_eq_left_iff_imp]
      intro hr
      have hrange := of_decide_eq_true hr
      rw [decide_eq_true_eq]
      omega
  ordered := h.ordered
  epochs_below := h.epochs_below
  rows_below r hr := h.rows_below r (List.mem_filter.mp hr).1

theorem Consistent.pruneSyncMeta (h : Consistent sha log) (retentionBlocks : Option (Option Int)) :
    Consistent sha (log.pruneSyncMeta cfg retentionBlocks) := by
  unfold TransparencyLog.pruneSyncMeta
  split
  · exact h
  split
  · exact h
  split
  · exact h
  dsimp only
  split
  · exact h
  split
  · exact h
  split
  · exact h
  · rename_i boundary _ hguard
    apply h.pruneThrough
    omega

/-- The row of the next block is above every committed range. -/
theorem Consistent.addRow (h : Consistent sha log) (row : SyncMetaRow)
    (hnext : log.next = none ∨ log.next = some row.block_index) :
    Consistent sha
      { log with syncMeta := log.syncMeta ++ [row], next := some (row.block_index + 1) } := by
  have hbelow : ∀ b, (∃ n, log.next = some n ∧ b < n) → b < row.block_index := by
    rintro b ⟨n, hn, hb⟩
    rcases hnext with hnone | hsome
    · rw [hnone] at hn
      cases hn
    · rw [hsome] at hn
      cases hn
      exact hb
  constructor
  · intro e he
    refine (h.described e he).congr (findSyncMetaLeaves_congr ?_)
    have hout : inRange e.start_block e.end_block row = false := by
      have := hbelow _ (h.epochs_below e he)
      rw [inRange, decide_eq_false_iff_not]
      omega
    simp [List.filter_append, hout]
  · exact h.ordered
  · intro e he
    have := hbelow _ (h.epochs_below e he)
    exact ⟨_, rfl, by omega⟩
  · intro r hr
    rcases List.mem_append.mp hr with hr | hr
    · have := hbelow _ (h.rows_below r hr)
      exact ⟨_, rfl, by omega⟩
    · rw [List.mem_singleton.mp hr]
      exact ⟨_, rfl, by omega⟩

theorem Consistent.recordBlock (h : Consistent sha log) (row : SyncMetaRow) (commits prunes : Bool)
    (hnext : log.next = none ∨ log.next = some row.block_index ∨
      log.syncMeta.any (·.block_index = row.block_index) = true) :
    Consistent sha (log.recordBlock sha cfg row commits prunes) := by
  unfold TransparencyLog.recordBlock
  split
  · exact h
  have hrecorded : Consistent sha
      (if log.syncMeta.any (·.block_index = row.block_index) then log
      else { log with syncMeta := log.syncMeta ++ [row], next := some (row.block_index + 1) }) := by
    split
    · exact h
    · rename_i hnew
      apply h.addRow
      rcases hnext with hnone | hsome | hold
      · exact .inl hnone
      · exact .inr hsome
      · exact absurd hold hnew
  dsimp only
  generalize (if log.syncMeta.any (·.block_index = row.block_index) then log else _) = recorded
    at hrecorded ⊢
  have hcommitted : Consistent sha (if commits then
      recorded.commitEpoch sha cfg (row.block_index / cfg.epochSize) else recorded) := by
    split
    · exact hrecorded.commitEpoch _
    · exact hrecorded
  split
  · split
    · exact hcommitted.pruneSyncMeta none
    · exact hcommitted
  · exact hrecorded

theorem Consistent.recommitEpoch (h : Consistent sha log) (epoch : Int)
    (highWaterMark : Option Int) :
    Consistent sha (log.recommitEpoch sha cfg epoch highWaterMark) := by
  unfold TransparencyLog.recommitEpoch
  split
  · exact h
  split
  · exact h
  · apply Consistent.commitEpoch
    exact h.fewerEpochs rfl rfl fun e he => (List.mem_filter.mp he).1

theorem addMarker_eq (block_index : Int) (log : TransparencyLog) (e : MerkleEpochRow) :
    ∃ reorgs, addMarker block_index log e = { log with merkleReorgs := reorgs } := by
  unfold addMarker
  split
  · exact ⟨_, rfl⟩
  · exact ⟨_, rfl⟩

theorem foldl_addMarker (block_index : Int) (invalidated : List MerkleEpochRow)
    (log : TransparencyLog) :
    ∃ reorgs, invalidated.foldl (addMarker block_index) log =
      { log with merkleReorgs := reorgs } := by
  induction invalidated generalizing log with
  | nil => exact ⟨_, rfl⟩
  | cons e invalidated ih =>
    obtain ⟨reorgs, hmarker⟩ := addMarker_eq block_index log e
    rw [List.foldl_cons, hmarker]
    exact ih _

/-- The rows and the epochs that a completed prune keeps are below its height. -/
theorem Consistent.pruneFrom (h : Consistent sha log) (block_index : Int)
    (fault : Option PruneFault) : Consistent sha (log.pruneFrom cfg block_index fault) := by
  unfold TransparencyLog.pruneFrom
  split
  · exact h
  dsimp only
  split
  · rename_i written
    obtain ⟨reorgs, hmarkers⟩ := foldl_addMarker block_index
      ((log.merkleEpochs.filter fun e => block_index ≤ e.end_block).take written) log
    rw [hmarkers]
    exact h.fewerEpochs rfl rfl fun _ he => he
  all_goals
    obtain ⟨reorgs, hmarkers⟩ := foldl_addMarker block_index
      (log.merkleEpochs.filter fun e => block_index ≤ e.end_block) log
    rw [hmarkers]
  · exact h.fewerEpochs rfl rfl fun e he => (List.mem_filter.mp he).1
  · have hbound : ∀ b, b < block_index → (∃ n, log.next = some n ∧ b < n) →
        ∃ n, log.next.map (min block_index) = some n ∧ b < n := by
      rintro b hb ⟨n, hn, hbn⟩
      exact ⟨min block_index n, by rw [hn, Option.map_some], by omega⟩
    constructor
    · intro e he
      obtain ⟨hmem, hend⟩ := List.mem_filter.mp he
      refine (h.described e hmem).congr (findSyncMetaLeaves_congr ?_)
      rw [decide_eq_true_eq] at hend
      change ((log.syncMeta.filter _).filter _) = _
      rw [List.filter_filter]
      apply List.filter_congr
      intro r _
      rw [Bool.and_eq_left_iff_imp]
      intro hr
      have hrange := of_decide_eq_true hr
      rw [decide_eq_true_eq]
      omega
    · exact fun e he => h.ordered e (List.mem_filter.mp he).1
    · intro e he
      obtain ⟨hmem, hend⟩ := List.mem_filter.mp he
      exact hbound _ (of_decide_eq_true hend) (h.epochs_below e hmem)
    · intro r hr
      obtain ⟨hmem, hlt⟩ := List.mem_filter.mp hr
      exact hbound _ (of_decide_eq_true hlt) (h.rows_below r hmem)

end Invariant

/-! ### Proofs -/

section Proofs
variable {sha : Sha256} {cfg : LogConfig} {log : TransparencyLog}

theorem leafIndexOf_lt {rows : List SyncMetaRow} {blockIndex : Int} {i : Nat}
    (h : leafIndexOf rows blockIndex = some i) : i < rows.length := by
  obtain ⟨p, hp, rfl⟩ := Option.map_eq_some_iff.mp h
  have hmem := (List.mem_filter.mp (List.mem_of_getLast? hp)).1
  obtain ⟨-, hlt, -⟩ := List.mem_zipIdx hmem
  omega

theorem Consistent.verifies_getProof (h : Consistent sha log) (blockIndex : Option Int) :
    (log.getProof sha cfg blockIndex).verifies = true := by
  unfold getProof
  split
  · rfl
  split
  · rfl
  dsimp only
  split
  · rfl
  rename_i e hfind
  split
  · rfl
  rename_i hrows
  split
  · rfl
  split
  · rfl
  rename_i i hi
  have hdescribed := h.described e (List.mem_of_find?_eq_some hfind)
  obtain ⟨hroot, -⟩ := hdescribed.resolve_left hrows
  have hlt := leafIndexOf_lt hi
  rw [ProofAnswer.verifies, ← hroot]
  refine MerkleTree.verifyProof_generateProof ?_ ?_
  · intro leaf hleaf
    obtain ⟨r, -, rfl⟩ := List.mem_map.mp hleaf
    exact sha.isHash _
  · rw [List.getD_eq_getElem?_getD, List.getElem?_eq_getElem (by rw [List.length_map]; exact hlt),
      Option.getD_some]

end Proofs

/-! ### Runs -/

inductive LogOp where
  | recordBlock (row : SyncMetaRow) (commits prunes : Bool)
  | commitEpoch (epoch : Int)
  | recommitEpoch (epoch : Int) (highWaterMark : Option Int)
  | pruneFrom (block_index : Int) (fault : Option PruneFault)
  | pruneSyncMeta (retentionBlocks : Option (Option Int))
  deriving DecidableEq, Repr

section Runs
variable (sha : Sha256) (cfg : LogConfig)

def step (log : TransparencyLog) : LogOp → TransparencyLog
  | .recordBlock row commits prunes => log.recordBlock sha cfg row commits prunes
  | .commitEpoch epoch => log.commitEpoch sha cfg epoch
  | .recommitEpoch epoch highWaterMark => log.recommitEpoch sha cfg epoch highWaterMark
  | .pruneFrom block_index fault => log.pruneFrom cfg block_index fault
  | .pruneSyncMeta retentionBlocks => log.pruneSyncMeta cfg retentionBlocks

/-- Every block from the first one on is recorded in order. A recorded one may come again. -/
def InOrder (log : TransparencyLog) : LogOp → Prop
  | .recordBlock row _ _ => log.next = none ∨ log.next = some row.block_index ∨
      log.syncMeta.any (·.block_index = row.block_index) = true
  | _ => True

instance (log : TransparencyLog) (op : LogOp) : Decidable (log.InOrder op) := by
  cases op <;> unfold InOrder <;> infer_instance

variable {sha cfg}

theorem Consistent.step {log : TransparencyLog} (h : Consistent sha log) {op : LogOp}
    (hop : log.InOrder op) : Consistent sha (log.step sha cfg op) := by
  cases op with
  | recordBlock row commits prunes => exact h.recordBlock row commits prunes hop
  | commitEpoch epoch => exact h.commitEpoch epoch
  | recommitEpoch epoch highWaterMark => exact h.recommitEpoch epoch highWaterMark
  | pruneFrom block_index fault => exact h.pruneFrom block_index fault
  | pruneSyncMeta retentionBlocks => exact h.pruneSyncMeta retentionBlocks

theorem consistent_of_run {log : TransparencyLog}
    (h : Run (fun s op t => t = s.step sha cfg op) InOrder empty log) : Consistent sha log := by
  refine h.invariant consistent_empty ?_
  rintro s op t hs hop rfl
  exact hs.step hop

def sampleConfig : LogConfig where
  epochSize := 2
  epochSize_pos := by decide
  readOnly := false
  retentionBlocks := 0
  retentionFloor := 1

def sampleRow (block_index : Int) (ledger_hash : String) : SyncMetaRow :=
  ⟨block_index, some ledger_hash, none, none⟩

/-- A prune at 3 stops between its deletes, is retried, and the two blocks come again. -/
def sampleOps : List LogOp :=
  [.recordBlock (sampleRow 1 "a") true true, .recordBlock (sampleRow 2 "b") true true,
    .recordBlock (sampleRow 3 "c") true true, .recordBlock (sampleRow 4 "d") true true,
    .pruneFrom 3 (some .betweenDeletes), .pruneFrom 3 none,
    .recordBlock (sampleRow 3 "e") true true, .recordBlock (sampleRow 4 "f") true true,
    .pruneSyncMeta (some (some 1))]

end Runs

end TransparencyLog

end XChainSync.Transparency
