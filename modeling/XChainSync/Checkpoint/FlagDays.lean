import XChainSync.Library.JsText
import XChainSync.Checkpoint.Verifier

/-!
# The flag days of a checkpoint

The heights of the gate registry. A regtest venue arms some rows through its environment, but none
of these.
-/

namespace XChainSync.Checkpoint
open Client (JsVal)
set_option autoImplicit false

/-- A threshold table: a network, or a coin and a network, to a height, none where unpinned. -/
abbrev Thresholds := List (String × Option Int)

def UNARMED : Int := 9999999999

def resolveThreshold (table : Thresholds) (network : String) (coin : Option String) : Option Int :=
  match coin.bind fun c => table.lookup (c ++ ":" ++ network) with
  | some threshold => threshold
  | none => (table.lookup network).join

/-- `reached(threshold, clock)`. -/
def reached (threshold : Option Int) (clock : JsVal) : Bool :=
  match JsText.parseInt clock.text, threshold with
  | some c, some t => t ≤ c
  | _, _ => false

/-- `activeAt` of a height row. -/
def activeAt (table : Thresholds) (network : JsVal) (coin : Option String) (height : JsVal) : Bool :=
  match network with
  | .str n => reached (resolveThreshold table n coin) height
  | _ => false

/-- A lookup `table[network]` and the comparison after it; an inherited member is no height. -/
def activeByNetwork (table : Thresholds) (snapshotBlock network : JsVal) : Bool :=
  reached (table.lookup network.text).join snapshotBlock

def CHECKPOINT_COMMITMENT_ACTIVATION : Thresholds :=
  [("mainnet", some 961000), ("testnet", some 146000), ("regtest", some 0)]

def CHECKPOINT_SUPERSEDE_ACTIVATION : Thresholds :=
  [("mainnet", none), ("BTC:testnet", some 158557), ("LTC:testnet", some 4949697),
    ("DOGE:testnet", some 68035864), ("testnet", some UNARMED), ("regtest", some 0)]

def EQUIV_HEADER_ACTIVATION : Thresholds :=
  [("mainnet", some 961000), ("testnet", some 0), ("regtest", some 0)]

def STAKE_WEIGHTED_QUORUM_ACTIVATION : Thresholds :=
  [("mainnet", some 961000), ("testnet", some 0), ("regtest", some 0)]

def isCheckpointCommitmentActive (snapshotBlock network : JsVal) : Bool :=
  activeAt CHECKPOINT_COMMITMENT_ACTIVATION network none snapshotBlock

def isCheckpointSupersedeActive (snapshotBlock network : JsVal) : Bool :=
  activeAt CHECKPOINT_SUPERSEDE_ACTIVATION network (some "BTC") snapshotBlock

def isEquivHeaderActive (snapshotBlock network : JsVal) : Bool :=
  activeByNetwork EQUIV_HEADER_ACTIVATION snapshotBlock network

def isStakeWeightedQuorumActive (snapshotBlock network : JsVal) : Bool :=
  activeByNetwork STAKE_WEIGHTED_QUORUM_ACTIVATION snapshotBlock network

@[simp] theorem reached_none (clock : JsVal) : reached none clock = false := by
  unfold reached
  split <;> simp_all

theorem reached_of_le {t t' : Int} {clock : JsVal} (ht : t' ≤ t)
    (h : reached (some t) clock = true) : reached (some t') clock = true := by
  unfold reached at h ⊢
  cases hclock : JsText.parseInt clock.text with
  | none => simp [hclock] at h
  | some c =>
    simp only [hclock, decide_eq_true_eq] at h ⊢
    exact ht.trans h

/-- On every network the header comes no later than the commitment. -/
theorem isEquivHeaderActive_of_commitment {snapshotBlock network : JsVal}
    (h : isCheckpointCommitmentActive snapshotBlock network = true) :
    isEquivHeaderActive snapshotBlock network = true := by
  unfold isCheckpointCommitmentActive activeAt at h
  cases network with
  | str n =>
    unfold isEquivHeaderActive activeByNetwork
    simp only [resolveThreshold, Option.bind_none, CHECKPOINT_COMMITMENT_ACTIVATION,
      List.lookup_cons, List.lookup_nil] at h
    simp only [JsVal.text, EQUIV_HEADER_ACTIVATION, List.lookup_cons, List.lookup_nil]
    cases hmain : n == "mainnet" with
    | true => simpa [hmain] using h
    | false =>
      cases htest : n == "testnet" with
      | true =>
        have hreached : reached (some 146000) snapshotBlock = true := by
          simpa [hmain, htest] using h
        have hzero : reached (some 0) snapshotBlock = true := reached_of_le (by decide) hreached
        simpa [hmain, htest] using hzero
      | false =>
        cases hreg : n == "regtest" with
        | true => simpa [hmain, htest, hreg] using h
        | false => simp [hmain, htest, hreg] at h
  | _ => simp at h

/-- The gates of the registry; `Number()` of a snapshot_block decides its burial. -/
def Gates.registry (isSnapshotBurialActive : JsVal → String → Bool) : Gates where
  commitment := isCheckpointCommitmentActive
  supersede := isCheckpointSupersedeActive
  equivHeader := isEquivHeaderActive
  stakeWeighted := isStakeWeightedQuorumActive
  snapshotBurial := isSnapshotBurialActive

end XChainSync.Checkpoint
