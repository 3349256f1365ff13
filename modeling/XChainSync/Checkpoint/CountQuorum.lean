import Mathlib
import XChainSync.Checkpoint.Canonical

/-!
# Overlap of two count quorums

Below the stake-weighted flag day a checkpoint of `n` qualified keys needs `2f + 1` signatures and
a majority, with `f = (n - 1) / 3`. Two accepted signer sets share at least `2q - n` keys. That is
more than `f` where `n = 3f + 1`, and at 2, 3 and 6 keys, where the majority is what counts; at
any other `n` it is not.
-/

namespace XChainSync.Checkpoint
open Client (JsVal)
set_option autoImplicit false

namespace Verifier
variable {N : Type} (vf : Verifier N)

/-- The distinct keys of a set, as `verifyCheckpoint` collects them. -/
def qualified (vset : ValidatorSet) : List String :=
  (vset.entries.map fun v => vf.js.lower v.pubkey).dedup

/-- The keys whose signatures `verifyCheckpoint` counts. -/
def signers (cp : Body) (vset : ValidatorSet) : List String :=
  (vf.tryCanonicalCheckpoint cp).elim [] fun canonical =>
    vf.validSigners canonical (vf.qualified vset) cp.validator_signatures

/-- `f` of `n` validators. -/
def tolerated (n : Nat) : Nat := (n - 1) / 3

variable {vf}

/-- Every counted signer is qualified and counted once. -/
theorem validSigners_spec (canonical : String) (keys : List String) (sigs : List Signature) :
    (vf.validSigners canonical keys sigs).Nodup ∧
      ∀ pk ∈ vf.validSigners canonical keys sigs, pk ∈ keys := by
  unfold validSigners
  suffices h : ∀ seen : List String, seen.Nodup → (∀ pk ∈ seen, pk ∈ keys) →
      let res := sigs.foldl (fun seen s =>
        let pk := vf.js.lower s.pubkey
        if pk = "" || seen.contains pk || !keys.contains pk then seen
        else if vf.verifySignature canonical s.sig pk then seen ++ [pk] else seen) seen
      res.Nodup ∧ ∀ pk ∈ res, pk ∈ keys by
    exact h [] List.nodup_nil (by simp)
  induction sigs with
  | nil => exact fun seen hn hk => ⟨hn, hk⟩
  | cons s sigs ih =>
    intro seen hn hk
    rw [List.foldl_cons]
    dsimp only
    split
    · exact ih seen hn hk
    · rename_i hnew
      simp only [Bool.or_eq_true, Bool.not_eq_true', not_or, List.contains_eq_mem,
        decide_eq_true_eq, decide_eq_false_iff_not, not_not] at hnew
      obtain ⟨⟨-, hseen⟩, hmem⟩ := hnew
      split
      · apply ih
        · rw [List.nodup_append]
          refine ⟨hn, by simp, ?_⟩
          intro a ha b hb heq
          rw [List.mem_singleton.mp hb] at heq
          exact hseen (heq ▸ ha)
        · intro pk hpk
          rcases List.mem_append.mp hpk with h | h
          · exact hk pk h
          · rw [List.mem_singleton.mp h]
            exact hmem
      · exact ih seen hn hk

theorem signers_nodup (cp : Body) (vset : ValidatorSet) : (vf.signers cp vset).Nodup := by
  unfold signers
  cases vf.tryCanonicalCheckpoint cp with
  | none => exact List.nodup_nil
  | some canonical => exact (validSigners_spec canonical _ _).1

theorem signers_subset (cp : Body) (vset : ValidatorSet) :
    (vf.signers cp vset).toFinset ⊆ (vf.qualified vset).toFinset := by
  intro pk hpk
  rw [List.mem_toFinset] at hpk ⊢
  unfold signers at hpk
  cases hc : vf.tryCanonicalCheckpoint cp with
  | none => simp [hc] at hpk
  | some canonical =>
    rw [hc] at hpk
    exact (validSigners_spec canonical _ _).2 pk hpk

/-- What acceptance means in the count regime. -/
theorem quorum_of_valid {cp : Body} {vset : ValidatorSet}
    (hcount : (vf.verifyCheckpoint cp vset).weighted = false)
    (h : (vf.verifyCheckpoint cp vset).valid = true) :
    vf.qualified vset ≠ [] ∧
      countQuorum (vf.qualified vset).length ≤ (vf.signers cp vset).length := by
  unfold verifyCheckpoint at h hcount
  unfold signers
  dsimp only at h hcount
  cases hc : vf.tryCanonicalCheckpoint cp with
  | none => simp [hc] at h
  | some canonical =>
    simp only [hc] at h hcount
    split at h
    · simp at h
    · rename_i hfields
      rw [if_neg hfields] at hcount
      dsimp only at h hcount
      rw [hcount] at h
      simpa [qualified, List.isEmpty_iff] using h

/-- Two quorums of the size the code asks for overlap in more than `f` keys, whatever they are,
exactly for these numbers of keys. -/
theorem countQuorum_overlap_iff {n : Nat} (hn : 1 ≤ n) :
    n + tolerated n < 2 * countQuorum n ↔ n % 3 = 1 ∨ n = 2 ∨ n = 3 ∨ n = 6 := by
  unfold countQuorum tolerated
  split
  · omega
  · omega

theorem countQuorum_majority (n : Nat) : n < 2 * countQuorum n := by
  unfold countQuorum
  split
  · omega
  · omega

/-- The keys that signed both of two checkpoints. -/
def sharedSigners (vf : Verifier N) (cp cp' : Body) (vset : ValidatorSet) : Finset String :=
  (vf.signers cp vset).toFinset ∩ (vf.signers cp' vset).toFinset

theorem card_sharedSigners {cp cp' : Body} {vset : ValidatorSet}
    (hcount : (vf.verifyCheckpoint cp vset).weighted = false)
    (hcount' : (vf.verifyCheckpoint cp' vset).weighted = false)
    (h : (vf.verifyCheckpoint cp vset).valid = true)
    (h' : (vf.verifyCheckpoint cp' vset).valid = true) :
    2 * countQuorum (vf.qualified vset).length ≤
      (vf.qualified vset).length + (vf.sharedSigners cp cp' vset).card := by
  have hunion : ((vf.signers cp vset).toFinset ∪ (vf.signers cp' vset).toFinset).card ≤
      (vf.qualified vset).length :=
    (Finset.card_le_card (Finset.union_subset (signers_subset cp vset) (signers_subset cp' vset))).trans
      (vf.qualified vset).toFinset_card_le
  have hsum := Finset.card_union_add_card_inter (vf.signers cp vset).toFinset
    (vf.signers cp' vset).toFinset
  rw [List.toFinset_card_of_nodup (signers_nodup cp vset),
    List.toFinset_card_of_nodup (signers_nodup cp' vset)] at hsum
  have hq := (quorum_of_valid hcount h).2
  have hq' := (quorum_of_valid hcount' h').2
  unfold sharedSigners
  omega

/-- Two checkpoints accepted by count share a signer. They share more than `f`, so that no `f`
faulty keys account for both, where `n` is 1 modulo 3 or one of 2, 3 and 6: the numbers of keys
for which `2q - n` exceeds `f`. -/
theorem accepted_signers_overlap {cp cp' : Body} {vset : ValidatorSet}
    (hcount : (vf.verifyCheckpoint cp vset).weighted = false)
    (hcount' : (vf.verifyCheckpoint cp' vset).weighted = false)
    (h : (vf.verifyCheckpoint cp vset).valid = true)
    (h' : (vf.verifyCheckpoint cp' vset).valid = true) :
    let n := (vf.qualified vset).length
    let shared := vf.sharedSigners cp cp' vset
    shared.Nonempty ∧ 2 * countQuorum n - n ≤ shared.card ∧
      (tolerated n < 2 * countQuorum n - n ↔ n % 3 = 1 ∨ n = 2 ∨ n = 3 ∨ n = 6) ∧
      (n % 3 = 1 ∨ n = 2 ∨ n = 3 ∨ n = 6 → tolerated n < shared.card ∧
        ∀ faulty : Finset String, faulty.card ≤ tolerated n → ∃ pk ∈ shared, pk ∉ faulty) := by
  intro n shared
  have hn : 1 ≤ n := List.length_pos_iff.mpr (quorum_of_valid hcount h).1
  have hcard : 2 * countQuorum n ≤ n + shared.card := card_sharedSigners hcount hcount' h h'
  have hmajority := countQuorum_majority n
  have hiff := countQuorum_overlap_iff hn
  refine ⟨Finset.card_pos.mp (by omega), by omega, ?_, fun hmod => ?_⟩
  · rw [← hiff]
    omega
  · have hmore : tolerated n < shared.card := by
      have := hiff.mpr hmod
      omega
    refine ⟨hmore, fun faulty hf => ?_⟩
    exact Finset.exists_mem_notMem_of_card_lt_card (hf.trans_lt hmore)

end Verifier

/-! ### Four keys and five keys -/

/-- A mainnet checkpoint below the stake-weighted flag day, signed by the keys. -/
def mainnetBody (block_hash : String) (keys : List String) : Body :=
  { regtestBody with
    network := .str "mainnet"
    block_hash := .str block_hash
    snapshot_block := .num "900120"
    validator_signatures := keys.map fun pk => ⟨pk, pk⟩ }

def bareKeys (keys : List String) : ValidatorSet := ⟨keys.map fun pk => ⟨pk, "", ""⟩, false⟩

/-- Of four keys, two conflicting checkpoints cannot both be signed by three. -/
theorem four_keys_overlap :
    let vset := bareKeys ["a", "b", "c", "d"]
    let cp := mainnetBody "left" ["a", "b", "c"]
    let cp' := mainnetBody "right" ["b", "c", "d"]
    Verifier.tolerated 4 < (registryVerifier.sharedSigners cp cp' vset).card := by
  have h := @Verifier.accepted_signers_overlap Int registryVerifier
    (mainnetBody "left" ["a", "b", "c"]) (mainnetBody "right" ["b", "c", "d"])
    (bareKeys ["a", "b", "c", "d"]) (by decide +kernel) (by decide +kernel)
    (by decide +kernel) (by decide +kernel)
  have hn : (registryVerifier.qualified (bareKeys ["a", "b", "c", "d"])).length = 4 := by
    decide +kernel
  dsimp only at h
  rw [hn] at h
  exact (h.2.2.2 (Or.inl rfl)).1

/-- Of five keys, two conflicting checkpoints are both accepted over one key in common, which is
no more than the one faulty key `f` allows. -/
theorem five_keys_split :
    let vset := bareKeys ["a", "b", "c", "d", "e"]
    let cp := mainnetBody "left" ["a", "b", "c"]
    let cp' := mainnetBody "right" ["c", "d", "e"]
    (registryVerifier.verifyCheckpoint cp vset).valid = true ∧
      (registryVerifier.verifyCheckpoint cp' vset).valid = true ∧
      (registryVerifier.verifyCheckpoint cp vset).weighted = false ∧
      (registryVerifier.verifyCheckpoint cp' vset).weighted = false ∧
      (registryVerifier.qualified vset).length = 5 ∧
      (registryVerifier.sharedSigners cp cp' vset).card = Verifier.tolerated 5 := by
  decide +kernel

end XChainSync.Checkpoint
