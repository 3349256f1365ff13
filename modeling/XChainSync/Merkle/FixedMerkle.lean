import Mathlib
import XChainSync.Library.LayerTree
import XChainSync.Merkle.SmtProofs

/-!
# The fixed binary Merkle tree

`fixedMerkleRoot`, its proofs and the top state root of src/merkle.js. Bit operations are those of
32-bit integers: the width of a vector of more than 2^30 leaves is shifted out and the loop of
`nextPow2` does not end, which is `none` here.
-/

namespace XChainSync.Merkle
set_option autoImplicit false
open LayerTree Bytes

/-- `ToInt32`. -/
def toInt32 (x : Int) : Int := if x % 2^32 < 2^31 then x % 2^32 else x % 2^32 - 2^32

/-- `while(p < n) p <<= 1`. -/
def nextPow2From (n : Nat) : Nat → Int → Option Nat
  | 0, _ => none
  | fuel+1, p => if p < n then nextPow2From n fuel (toInt32 (2*p)) else some p.toNat

/-- After 32 rounds the shifted one is gone. -/
def nextPow2 (n : Nat) : Option Nat := nextPow2From n 33 1

/-- A Buffer, or a hex text that `toBuf` reads. -/
inductive BufLike where
  | buffer (bytes : Buf)
  | hex (text : String)
  deriving DecidableEq, Repr

def toBuf : BufLike → Buf
  | .buffer bytes => bytes
  | .hex text => fromHex text

/-- `toHex(x)`: a text is left as it is. -/
def hexOf : BufLike → String
  | .buffer bytes => toHex bytes
  | .hex text => text

section Tree
variable (sha256 : Buf → Buf)

/-- The layer the loops start from. -/
def padded (leaves : List BufLike) (width : Nat) : List Buf :=
  leaves.map toBuf ++ List.replicate (width - leaves.length) (emptyLeaf sha256)

/-- `while(layer.length > 1)`. -/
def foldLayers : Nat → List Buf → List Buf
  | 0, layer => layer
  | fuel+1, layer =>
      if layer.length > 1 then foldLayers fuel (next (nodeHash sha256) layer) else layer

def fixedMerkleRoot (leaves : List BufLike) : Option Buf :=
  if leaves = [] then some (emptyLeaf sha256)
  else (nextPow2 leaves.length).map fun width =>
    (foldLayers sha256 width (padded sha256 leaves width)).headD []

def proofSiblings : Nat → List Buf → Nat → List String
  | 0, _, _ => []
  | fuel+1, layer, idx =>
      if layer.length > 1 then
        toHex (layer.getD (idx ^^^ 1) []) ::
          proofSiblings fuel (next (nodeHash sha256) layer) (idx >>> 1)
      else []

structure FixedProof where
  index : Nat
  siblings : List String
  deriving DecidableEq, Repr

/-- None where it does not return. -/
def fixedMerkleProof (leaves : List BufLike) (index : Int) : Option (Except String FixedProof) :=
  if index < 0 ∨ index ≥ leaves.length then some (.error "merkle: index out of range")
  else (nextPow2 leaves.length).map fun width =>
    .ok ⟨index.toNat, proofSiblings sha256 width (padded sha256 leaves width) index.toNat⟩

/-- The loop of `verifyFixedMerkleProof`. -/
def foldPath : Int → List Buf → Buf → Buf
  | _, [], node => node
  | idx, sib :: rest, node =>
      foldPath (toInt32 idx / 2) rest
        (if toInt32 idx % 2 = 0 then nodeHash sha256 node sib else nodeHash sha256 sib node)

def verifyFixedMerkleProof (rootHex leafBuf : BufLike) (index : Int) (siblings : List BufLike) :
    Bool :=
  toHex (foldPath sha256 index (siblings.map toBuf) (toBuf leafBuf)) = hexOf rootHex

end Tree

theorem toInt32_of_lt {x : Nat} (hx : x < 2^31) : toInt32 x = x := by
  unfold toInt32
  omega

/-- `nextPow2` from a power of two on. -/
theorem nextPow2From_pow {n : Nat} (fuel k : Nat) (hk : k ≤ 30) (hfuel : 30 < fuel + k)
    (hn : n ≤ 2^30) : ∃ d, k ≤ d ∧ d ≤ 30 ∧ nextPow2From n fuel ((2^k : Nat) : Int) = some (2^d) ∧
      n ≤ 2^d ∧ (d = k ∨ 2^(d-1) < n) := by
  induction fuel generalizing k with
  | zero => omega
  | succ fuel ih =>
    unfold nextPow2From
    split
    · rename_i hlt
      have hlt' : 2^k < n := by exact_mod_cast hlt
      have hk' : k < 30 := by
        by_contra hge
        obtain rfl : k = 30 := by omega
        omega
      have hshift : toInt32 (2 * ((2^k : Nat) : Int)) = ((2^(k+1) : Nat) : Int) := by
        have hpow : 2^(k+1) < 2^31 := Nat.pow_lt_pow_right (by omega) (by omega)
        rw [← toInt32_of_lt hpow, Nat.pow_succ]
        push_cast
        ring_nf
      rw [hshift]
      obtain ⟨d, hkd, hd, hrun, hle, hgt⟩ := ih (k+1) (by omega) (by omega)
      refine ⟨d, by omega, hd, hrun, hle, Or.inr ?_⟩
      rcases hgt with rfl | hgt
      · exact hlt'
      · exact hgt
    · rename_i hge
      refine ⟨k, le_refl k, hk, ?_, by exact_mod_cast not_lt.mp hge, Or.inl rfl⟩
      rw [Int.toNat_natCast]

theorem nextPow2_spec {n : Nat} (hn : n ≤ 2^30) :
    ∃ d ≤ 30, nextPow2 n = some (2^d) ∧ n ≤ 2^d := by
  obtain ⟨d, -, hd, hrun, hle, -⟩ := nextPow2From_pow 33 0 (by omega) (by omega) hn
  exact ⟨d, hd, hrun, hle⟩

/-- What the shifted one can be. -/
def Shifted (p : Int) : Prop := (∃ k : Nat, k ≤ 30 ∧ p = 2^k) ∨ p = -2^31 ∨ p = 0

theorem Shifted.le {p : Int} (h : Shifted p) : p ≤ 2^30 := by
  rcases h with ⟨k, hk, rfl⟩ | rfl | rfl
  · exact_mod_cast Nat.pow_le_pow_right (by omega : 0 < 2) hk
  · omega
  · omega

theorem Shifted.shift {p : Int} (h : Shifted p) : Shifted (toInt32 (2*p)) := by
  rcases h with ⟨k, hk, rfl⟩ | rfl | rfl
  · by_cases hlast : k = 30
    · subst hlast
      exact Or.inr (Or.inl (by decide))
    · refine Or.inl ⟨k+1, by omega, ?_⟩
      have hpow : 2^(k+1) < 2^31 := Nat.pow_lt_pow_right (by omega) (by omega)
      have h := toInt32_of_lt hpow
      push_cast at h
      rw [← h, pow_succ]
      ring_nf
  · exact Or.inr (Or.inr (by decide))
  · exact Or.inr (Or.inr (by decide))

/-- Beyond 2^30 no number of rounds is enough. -/
theorem nextPow2From_eq_none {n : Nat} (hn : 2^30 < n) (fuel : Nat) {p : Int} (hp : Shifted p) :
    nextPow2From n fuel p = none := by
  induction fuel generalizing p with
  | zero => rfl
  | succ fuel ih =>
    have hle := hp.le
    rw [nextPow2From, if_pos (by omega)]
    exact ih hp.shift

theorem nextPow2_eq_none {n : Nat} (hn : 2^30 < n) : nextPow2 n = none :=
  nextPow2From_eq_none hn 33 (Or.inl ⟨0, by omega, rfl⟩)

section Layers
variable {sha256 : Buf → Buf}

theorem length_padded (leaves : List BufLike) {width : Nat} (h : leaves.length ≤ width) :
    (padded sha256 leaves width).length = width := by
  simp [padded]
  omega

theorem foldLayers_eq_reduce (fuel d : Nat) (hd : d ≤ fuel) {layer : List Buf}
    (hl : layer.length = 2^d) : foldLayers sha256 fuel layer = reduce (nodeHash sha256) d layer := by
  induction fuel generalizing d layer with
  | zero =>
    obtain rfl : d = 0 := by omega
    rfl
  | succ fuel ih =>
    unfold foldLayers
    cases d with
    | zero => simp [hl, reduce]
    | succ d =>
      have hpos := Nat.two_pow_pos d
      rw [Nat.pow_succ] at hl
      rw [if_pos (by omega)]
      apply ih d (by omega)
      rw [length_next]
      omega

/-- The root of at most 2^30 leaves is the one node `d` levels up. -/
theorem fixedMerkleRoot_eq {leaves : List BufLike} {d : Nat}
    (hw : nextPow2 leaves.length = some (2^d)) (hle : leaves.length ≤ 2^d) (hne : leaves ≠ []) :
    ∃ root, fixedMerkleRoot sha256 leaves = some root ∧
      reduce (nodeHash sha256) d (padded sha256 leaves (2^d)) = [root] := by
  have hone := length_reduce (nodeHash sha256) d 0 (l := padded sha256 leaves (2^d))
    (by rw [length_padded leaves hle, Nat.add_zero])
  obtain ⟨root, hroot⟩ := List.length_eq_one_iff.mp hone
  refine ⟨root, ?_, hroot⟩
  rw [fixedMerkleRoot, if_neg hne, hw, Option.map_some,
    foldLayers_eq_reduce (2^d) d Nat.lt_two_pow_self.le (length_padded leaves hle), hroot]
  rfl

theorem xor_one (i : Nat) : i ^^^ 1 = if i % 2 = 1 then i - 1 else i + 1 := by
  have hhalf : (i ^^^ 1) / 2 = i / 2 := by simp [Nat.xor_div_two]
  have hlow : (i ^^^ 1) % 2 = (i + 1) % 2 := by simp [Nat.xor_mod_two_eq]
  split
  · omega
  · omega

/-- In a layer of even length every node has a partner. -/
theorem sibling_eq_xor {layer : List Buf} (heven : layer.length % 2 = 0) {i : Nat}
    (hi : i < layer.length) : sibling layer i = some (layer.getD (i ^^^ 1) []) := by
  unfold sibling
  rw [xor_one]
  by_cases hodd : i % 2 = 1
  · rw [if_pos hodd, if_pos hodd, List.getD_eq_getElem?_getD,
      List.getElem?_eq_getElem (by omega), Option.getD_some]
  · rw [if_neg hodd, if_neg hodd, List.getD_eq_getElem?_getD,
      List.getElem?_eq_getElem (by omega), Option.getD_some, Option.some_or]

theorem proofSiblings_eq_path (fuel d : Nat) (hd : d ≤ fuel) {layer : List Buf}
    (hl : layer.length = 2^d) {i : Nat} (hi : i < 2^d) :
    proofSiblings sha256 fuel layer i = (path (nodeHash sha256) d layer i).map toHex := by
  induction fuel generalizing d layer i with
  | zero =>
    obtain rfl : d = 0 := by omega
    rfl
  | succ fuel ih =>
    unfold proofSiblings
    cases d with
    | zero => simp [hl, path]
    | succ d =>
      have hpos := Nat.two_pow_pos d
      rw [Nat.pow_succ] at hl hi
      rw [if_pos (by omega), Nat.shiftRight_eq_div_pow, Nat.pow_one,
        ih d (by omega) (by rw [length_next]; omega) (by omega), path,
        sibling_eq_xor (by omega) (by omega)]
      simp

/-- Below 2^31 the loop of the verifier climbs by the bits of the index. -/
theorem foldPath_eq_climb (siblings : List Buf) {i : Nat} (hi : i < 2^31) (node : Buf) :
    foldPath sha256 i siblings node = LayerTree.climb (nodeHash sha256) i siblings node := by
  induction siblings generalizing i node with
  | nil => rfl
  | cons sib rest ih =>
    unfold foldPath LayerTree.climb
    rw [toInt32_of_lt hi, show (i : Int) / 2 = ((i / 2 : Nat) : Int) by omega,
      ih (by omega)]
    congr 1
    unfold join ordered
    by_cases hodd : i % 2 = 1
    · rw [if_neg (by omega), if_pos hodd]
    · rw [if_pos (by omega), if_neg hodd]

theorem length_next_bytes (hsha : ∀ b, (sha256 b).length = 32) (layer : List Buf) :
    ∀ b ∈ next (nodeHash sha256) layer, b.length = 32 := by
  intro b hb
  obtain ⟨p, -, rfl⟩ := List.mem_map.mp hb
  exact hsha _

/-- A pair and an ordered value and sibling with one hash agree on the value's side. -/
theorem ordered_inj {i : Nat} {sib cur a b : Buf} (hcur : cur.length = 32) (ha : a.length = 32)
    (hb : b.length = 32)
    (h : (ordered i sib cur).1 ++ (ordered i sib cur).2 = a ++ b) :
    cur = if i % 2 = 1 then b else a := by
  unfold ordered at h
  split at h
  · rename_i hodd
    rw [if_pos hodd]
    exact (List.append_inj' h (hcur.trans hb.symm)).2
  · rename_i heven
    rw [if_neg heven]
    exact (List.append_inj h (hcur.trans ha.symm)).1

/-- A climb of as many siblings as there are levels starts from the leaf at the index. -/
theorem climb_binds (hsha : ∀ b, (sha256 b).length = 32) {S : Set Buf} (hinj : Set.InjOn sha256 S)
    (d : Nat) {layer : List Buf} (hl : layer.length = 2^d) (hbytes : ∀ b ∈ layer, b.length = 32)
    {i : Nat} (hi : i < 2^d) {siblings : List Buf} (hs : siblings.length = d) {leaf : Buf}
    (hleaf : leaf.length = 32)
    (htree : ∀ p ∈ hashed (nodeHash sha256) d layer, 0x01 :: (p.1 ++ p.2) ∈ S)
    (hclimb : ∀ p ∈ climbed (nodeHash sha256) i siblings leaf, 0x01 :: (p.1 ++ p.2) ∈ S)
    (h : reduce (nodeHash sha256) d layer = [LayerTree.climb (nodeHash sha256) i siblings leaf]) :
    layer[i]? = some leaf := by
  induction d generalizing layer i siblings leaf with
  | zero =>
    obtain rfl : i = 0 := by omega
    obtain rfl : siblings = [] := List.length_eq_zero_iff.mp hs
    rw [reduce, LayerTree.climb] at h
    simp [h]
  | succ d ih =>
    obtain ⟨sib, rest, rfl⟩ := List.exists_cons_of_length_eq_add_one hs
    simp only [hashed, climbed, List.mem_append, List.mem_cons] at htree hclimb
    rw [Nat.pow_succ] at hl hi
    have hnext := ih (by rw [length_next]; omega) (length_next_bytes hsha layer) (by omega)
      (by simpa using hs) (hsha _) (fun p hp => htree p (Or.inr hp))
      (fun p hp => hclimb p (Or.inr hp)) h
    rw [next_getElem?] at hnext
    have hleft : 2*(i/2) < layer.length := by omega
    have hright : 2*(i/2)+1 < layer.length := by omega
    rw [List.getElem?_eq_getElem hleft, List.getElem?_eq_getElem hright, Option.map_some,
      Option.getD_some] at hnext
    have hpair : (layer[2*(i/2)], layer[2*(i/2)+1]) ∈ pairs layer := by
      apply List.mem_of_getElem? (i := i/2)
      rw [pairs_getElem?, List.getElem?_eq_getElem hleft, List.getElem?_eq_getElem hright]
      rfl
    have hbytes' := hinj (htree _ (Or.inl hpair)) (hclimb _ (Or.inl rfl)) (Option.some.inj hnext)
    have hcur := ordered_inj hleaf (hbytes _ (List.getElem_mem hleft))
      (hbytes _ (List.getElem_mem hright)) (List.cons.inj hbytes').2.symm
    by_cases hodd : i % 2 = 1
    · rw [if_pos hodd] at hcur
      have : 2*(i/2)+1 = i := by omega
      rw [List.getElem?_eq_getElem (by omega), hcur]
      simp only [this]
    · rw [if_neg hodd] at hcur
      have : 2*(i/2) = i := by omega
      rw [List.getElem?_eq_getElem (by omega), hcur]
      simp only [this]

/-- What `nodeHash` gives to SHA-256 for a pair. -/
def nodeInput (p : Buf × Buf) : Buf := 0x01 :: (p.1 ++ p.2)

variable (sha256) in
/-- What the loop of `fixedMerkleRoot` hashes. -/
def layerInputs : Nat → List Buf → List Buf
  | 0, _ => []
  | fuel+1, layer =>
      if layer.length > 1 then
        (pairs layer).map nodeInput ++ layerInputs fuel (next (nodeHash sha256) layer)
      else []

variable (sha256) in
/-- What the loop of `verifyFixedMerkleProof` hashes. -/
def pathInputs : Int → List Buf → Buf → List Buf
  | _, [], _ => []
  | idx, sib :: rest, node =>
      nodeInput (if toInt32 idx % 2 = 0 then (node, sib) else (sib, node)) ::
        pathInputs (toInt32 idx / 2) rest
          (if toInt32 idx % 2 = 0 then nodeHash sha256 node sib else nodeHash sha256 sib node)

theorem layerInputs_eq_hashed (fuel d : Nat) (hd : d ≤ fuel) {layer : List Buf}
    (hl : layer.length = 2^d) :
    layerInputs sha256 fuel layer = (hashed (nodeHash sha256) d layer).map nodeInput := by
  induction fuel generalizing d layer with
  | zero =>
    obtain rfl : d = 0 := by omega
    rfl
  | succ fuel ih =>
    unfold layerInputs
    cases d with
    | zero => simp [hl, hashed]
    | succ d =>
      have hpos := Nat.two_pow_pos d
      rw [Nat.pow_succ] at hl
      rw [if_pos (by omega), ih d (by omega) (by rw [length_next]; omega), hashed, List.map_append]

theorem pathInputs_eq_climbed (siblings : List Buf) {i : Nat} (hi : i < 2^31) (node : Buf) :
    pathInputs sha256 i siblings node =
      (climbed (nodeHash sha256) i siblings node).map nodeInput := by
  induction siblings generalizing i node with
  | nil => rfl
  | cons sib rest ih =>
    unfold pathInputs climbed
    rw [toInt32_of_lt hi, show (i : Int) / 2 = ((i / 2 : Nat) : Int) by omega, ih (by omega),
      List.map_cons]
    unfold join ordered
    by_cases hodd : i % 2 = 1
    · rw [if_neg (by omega), if_pos hodd, if_neg (by omega)]
    · rw [if_pos (by omega), if_neg hodd, if_pos (by omega)]

end Layers

/-! ### Proofs of every leaf, and what an accepted proof binds -/

def Has32Bytes (x : BufLike) : Prop := (toBuf x).length = 32

/-- Every leaf of a vector of `k` leaves has a proof that verifies. -/
def ProvesLeaves (k : Nat) : Prop :=
  ∀ sha256 : Buf → Buf, (∀ b, (sha256 b).length = 32) →
  ∀ leaves : List BufLike, leaves.length = k → (∀ leaf ∈ leaves, Has32Bytes leaf) →
  ∀ (i : Nat) (leaf : BufLike), leaves[i]? = some leaf →
    ∃ root proof, fixedMerkleRoot sha256 leaves = some root ∧
      fixedMerkleProof sha256 leaves i = some (.ok proof) ∧
      verifyFixedMerkleProof sha256 (.buffer root) leaf i (proof.siblings.map .hex) = true

/-- A 32-byte value accepted at index `i` with `n` siblings, against the root of `k` leaves, stands
at that index of the padded vector. SHA-256 is injective on what the root and the proof hash. -/
def BindsLeaf (k n i : Nat) : Prop :=
  ∀ sha256 : Buf → Buf, (∀ b, (sha256 b).length = 32) →
  ∀ leaves : List BufLike, leaves.length = k → (∀ leaf ∈ leaves, Has32Bytes leaf) →
  ∀ (leaf : BufLike) (siblings : List BufLike), Has32Bytes leaf → siblings.length = n →
  ∀ root width, fixedMerkleRoot sha256 leaves = some root → nextPow2 k = some width →
    Set.InjOn sha256 {b | b ∈ layerInputs sha256 width (padded sha256 leaves width) ∨
      b ∈ pathInputs sha256 i (siblings.map toBuf) (toBuf leaf)} →
    verifyFixedMerkleProof sha256 (.buffer root) leaf i siblings = true →
    i < width ∧ (padded sha256 leaves width)[i]? = some (toBuf leaf)

theorem provesLeaves_of_le {k : Nat} (hk : k ≤ 2^30) : ProvesLeaves k := by
  intro sha256 _ leaves hlen _ i leaf hi
  obtain ⟨d, hd, hw, hle⟩ := nextPow2_spec hk
  rw [← hlen] at hw hle
  obtain ⟨hlt, hget⟩ := List.getElem?_eq_some_iff.mp hi
  have hne : leaves ≠ [] := List.ne_nil_of_length_pos (by omega)
  obtain ⟨root, hroot, htop⟩ := @fixedMerkleRoot_eq sha256 leaves d hw hle hne
  have hidx : i < 2^31 := by
    have := Nat.pow_le_pow_right (show 0 < 2 by omega) hd
    omega
  have hleaf : (padded sha256 leaves (2^d))[i]? = some (toBuf leaf) := by
    rw [padded, List.getElem?_append_left (by simpa using hlt), List.getElem?_map, hi]
    rfl
  have hclimb := reduce_climb (nodeHash sha256) d hleaf
  rw [htop, Nat.div_eq_of_lt (by omega)] at hclimb
  refine ⟨root, ⟨i, proofSiblings sha256 (2^d) (padded sha256 leaves (2^d)) i⟩, hroot, ?_, ?_⟩
  · rw [fixedMerkleProof, if_neg (by omega), hw, Option.map_some, Int.toNat_natCast]
  · rw [proofSiblings_eq_path (2^d) d Nat.lt_two_pow_self.le
      (length_padded leaves hle) (by omega)]
    unfold verifyFixedMerkleProof
    rw [List.map_map, List.map_map, foldPath_eq_climb _ hidx]
    have hback : (toBuf ∘ BufLike.hex) ∘ toHex = id := by
      funext b
      simp [toBuf, fromHex_toHex]
    rw [hback, List.map_id]
    exact decide_eq_true (congrArg toHex (Option.some.inj hclimb).symm)

theorem bindsLeaf_of_levels {k d i : Nat} (hk : 0 < k) (hk' : k ≤ 2^30)
    (hw : nextPow2 k = some (2^d)) (hi : i < 2^d) : BindsLeaf k d i := by
  intro sha256 hsha leaves hlen hbytes leaf siblings hleaf hs root width hroot hwidth hinj haccept
  obtain ⟨d', hd', hw', hle⟩ := nextPow2_spec hk'
  obtain rfl : d' = d := Nat.pow_right_injective (le_refl 2) (Option.some.inj (hw'.symm.trans hw))
  obtain rfl : width = 2^d' := Option.some.inj (hwidth.symm.trans hw)
  subst hlen
  have hne : leaves ≠ [] := List.ne_nil_of_length_pos hk
  obtain ⟨root', hroot', htop⟩ := @fixedMerkleRoot_eq sha256 leaves d' hw hle hne
  obtain rfl : root' = root := Option.some.inj (hroot'.symm.trans hroot)
  have hidx : i < 2^31 := by
    have := Nat.pow_le_pow_right (show 0 < 2 by omega) hd'
    omega
  have hpad : ∀ b ∈ padded sha256 leaves (2^d'), b.length = 32 := by
    intro b hb
    rcases List.mem_append.mp hb with hb | hb
    · obtain ⟨x, hx, rfl⟩ := List.mem_map.mp hb
      exact hbytes x hx
    · rw [List.eq_of_mem_replicate hb]
      exact hsha _
  unfold verifyFixedMerkleProof at haccept
  rw [foldPath_eq_climb _ hidx] at haccept
  have hfold := toHex_injective (of_decide_eq_true haccept)
  rw [layerInputs_eq_hashed (2^d') d' Nat.lt_two_pow_self.le (length_padded leaves hle),
    pathInputs_eq_climbed _ hidx] at hinj
  refine ⟨hi, climb_binds hsha hinj d' (length_padded leaves hle) hpad hi (by simpa using hs) hleaf
    (fun p hp => Or.inl (List.mem_map_of_mem hp)) (fun p hp => Or.inr (List.mem_map_of_mem hp)) ?_⟩
  rw [htop, hfold]

/-! ### A hash that counts -/

/-- A number in little-endian bytes. -/
def numBytes : Nat → Nat → Buf
  | 0, _ => []
  | length+1, j => UInt8.ofNat (j % 256) :: numBytes length (j / 256)

def numOf (bytes : Buf) : Nat := bytes.foldr (fun b acc => b.toNat + 256 * acc) 0

theorem length_numBytes (length j : Nat) : (numBytes length j).length = length := by
  induction length generalizing j with
  | zero => rfl
  | succ length ih => simp [numBytes, ih]

theorem numOf_numBytes (length : Nat) {j : Nat} (hj : j < 256^length) :
    numOf (numBytes length j) = j := by
  induction length generalizing j with
  | zero =>
    obtain rfl : j = 0 := by omega
    rfl
  | succ length ih =>
    have hdiv : j / 256 < 256^length := Nat.div_lt_of_lt_mul (by rwa [Nat.mul_comm, ← Nat.pow_succ])
    have hrec := ih hdiv
    unfold numOf at hrec ⊢
    rw [numBytes, List.foldr_cons, hrec]
    simp
    omega

/-- A pair hashes to the number after its left half; everything else to the start. -/
def countFrom (start : Nat) : Buf → Buf
  | 0x01 :: rest => numBytes 32 (numOf (rest.take 32) + 1)
  | _ => numBytes 32 start

theorem length_countFrom (start : Nat) (b : Buf) : (countFrom start b).length = 32 := by
  unfold countFrom
  split
  · exact length_numBytes 32 _
  · exact length_numBytes 32 _

section Counting
variable {start : Nat}

theorem nodeHash_numBytes {j : Nat} (hj : j < 2^34) :
    nodeHash (countFrom start) (numBytes 32 j) (numBytes 32 j) = numBytes 32 (j+1) := by
  have htake : (numBytes 32 j ++ numBytes 32 j).take 32 = numBytes 32 j := by
    rw [List.take_append_of_le_length (by rw [length_numBytes]), List.take_of_length_le]
    rw [length_numBytes]
  rw [nodeHash, countFrom, htake, numOf_numBytes 32 (by omega)]

theorem pairs_replicate {m : Nat} (x : Buf) :
    pairs (List.replicate (2*m) x) = List.replicate m (x, x) := by
  induction m with
  | zero => rfl
  | succ m ih =>
    rw [show 2*(m+1) = 2*m+1+1 by omega, List.replicate_succ, List.replicate_succ, pairs, ih,
      List.replicate_succ]

theorem next_replicate {j m : Nat} (hj : j < 2^34) :
    next (nodeHash (countFrom start)) (List.replicate (2*m) (numBytes 32 j)) =
      List.replicate m (numBytes 32 (j+1)) := by
  rw [next, pairs_replicate, List.map_replicate, nodeHash_numBytes hj]

theorem reduce_replicate (d : Nat) {j : Nat} (hj : j + d < 2^34) :
    reduce (nodeHash (countFrom start)) d (List.replicate (2^d) (numBytes 32 j)) =
      [numBytes 32 (j+d)] := by
  induction d generalizing j with
  | zero => rfl
  | succ d ih =>
    rw [reduce, Nat.pow_succ, Nat.mul_comm, next_replicate (by omega), ih (by omega)]
    congr 2
    omega

theorem hashed_replicate (d : Nat) {j : Nat} (hj : j + d < 2^34) :
    ∀ p ∈ hashed (nodeHash (countFrom start)) d (List.replicate (2^d) (numBytes 32 j)),
      ∃ c < 2^34, p = (numBytes 32 c, numBytes 32 c) := by
  induction d generalizing j with
  | zero => simp [hashed]
  | succ d ih =>
    intro p hp
    rw [hashed, Nat.pow_succ, Nat.mul_comm, next_replicate (by omega), pairs_replicate] at hp
    rcases List.mem_append.mp hp with hp | hp
    · exact ⟨j, by omega, List.eq_of_mem_replicate hp⟩
    · exact ih (by omega) p hp

/-- The siblings of a count of `n` from `j` on. -/
def countPath (n j : Nat) : List Buf := (List.range n).map fun t => numBytes 32 (j+t)

theorem countPath_succ (n j : Nat) : countPath (n+1) j = numBytes 32 j :: countPath n (j+1) := by
  simp [countPath, List.range_succ_eq_map, Function.comp_def, Nat.add_assoc, Nat.add_comm 1]

/-- A value and an equal sibling are hashed alike on either side. -/
theorem foldPath_countPath (n : Nat) {j : Nat} (hj : j + n < 2^34) (idx : Int) :
    foldPath (countFrom start) idx (countPath n j) (numBytes 32 j) = numBytes 32 (j+n) := by
  induction n generalizing j idx with
  | zero => rfl
  | succ n ih =>
    rw [countPath_succ, foldPath, ite_self, nodeHash_numBytes (by omega), ih (by omega)]
    congr 1
    omega

theorem pathInputs_countPath (n : Nat) {j : Nat} (hj : j + n < 2^34) (idx : Int) :
    ∀ b ∈ pathInputs (countFrom start) idx (countPath n j) (numBytes 32 j),
      ∃ c < 2^34, b = nodeInput (numBytes 32 c, numBytes 32 c) := by
  induction n generalizing j idx with
  | zero => simp [countPath, pathInputs]
  | succ n ih =>
    intro b hb
    rw [countPath_succ, pathInputs, ite_self, ite_self, nodeHash_numBytes (by omega)] at hb
    rcases List.mem_cons.mp hb with rfl | hb
    · exact ⟨j, by omega, rfl⟩
    · exact ih (by omega) _ b hb

/-- The count tells equal pairs apart. -/
theorem countFrom_injOn {S : Set Buf}
    (hS : ∀ b ∈ S, ∃ c < 2^34, b = nodeInput (numBytes 32 c, numBytes 32 c)) :
    Set.InjOn (countFrom start) S := by
  intro a ha b hb h
  obtain ⟨c, hc, rfl⟩ := hS a ha
  obtain ⟨c', hc', rfl⟩ := hS b hb
  have h' : numBytes 32 (c+1) = numBytes 32 (c'+1) := by
    rw [← @nodeHash_numBytes start c hc, ← @nodeHash_numBytes start c' hc']
    exact h
  have hnum := congrArg numOf h'
  rw [numOf_numBytes 32 (by omega), numOf_numBytes 32 (by omega)] at hnum
  obtain rfl : c = c' := by omega
  rfl

theorem emptyLeaf_countFrom : emptyLeaf (countFrom start) = numBytes 32 start := rfl

/-- Where a vector has one leaf throughout, its padding too, every index is accepted, and so is a
path of any length. -/
theorem levels_of_bindsLeaf {k n i d : Nat} (hk : 0 < k) (hd : d ≤ 30) (hn : n < 2^32)
    (hw : nextPow2 k = some (2^d)) (hle : k ≤ 2^d) (h : BindsLeaf k n i) : n = d ∧ i < 2^d := by
  have hlen : (List.replicate k (BufLike.buffer (numBytes 32 n))).length = k :=
    List.length_replicate
  have hpad : padded (countFrom n) (List.replicate k (.buffer (numBytes 32 n))) (2^d) =
      List.replicate (2^d) (numBytes 32 n) := by
    rw [padded, hlen, List.map_replicate, emptyLeaf_countFrom, toBuf, List.replicate_append_replicate]
    congr 1
    omega
  have hne : List.replicate k (BufLike.buffer (numBytes 32 n)) ≠ [] :=
    List.ne_nil_of_length_pos (by omega)
  obtain ⟨root, hroot, htop⟩ := @fixedMerkleRoot_eq (countFrom n) _ d
    (by rw [hlen]; exact hw) (by rw [hlen]; exact hle) hne
  rw [hpad, reduce_replicate d (by omega)] at htop
  have hmap : ((countPath n d).map BufLike.buffer).map toBuf = countPath n d := by
    rw [List.map_map]
    exact List.map_id _
  obtain ⟨hi, hget⟩ := h (countFrom n) (length_countFrom n) _ hlen
    (by
      intro leaf hleaf
      rw [List.eq_of_mem_replicate hleaf]
      exact length_numBytes 32 n)
    (.buffer (numBytes 32 d)) ((countPath n d).map .buffer) (length_numBytes 32 d)
    (by simp [countPath]) root (2^d) hroot hw
    (by
      apply countFrom_injOn
      rw [hpad, hmap, layerInputs_eq_hashed (2^d) d Nat.lt_two_pow_self.le List.length_replicate]
      intro b hb
      rcases hb with hb | hb
      · obtain ⟨p, hp, rfl⟩ := List.mem_map.mp hb
        obtain ⟨c, hc, rfl⟩ := hashed_replicate d (by omega) p hp
        exact ⟨c, hc, rfl⟩
      · exact pathInputs_countPath n (by omega) i b hb)
    (by
      unfold verifyFixedMerkleProof
      rw [hmap, toBuf, foldPath_countPath n (by omega), Nat.add_comm d n, (List.cons.inj htop).1]
      simp [hexOf])
  rw [hpad, List.getElem?_replicate, if_pos hi, toBuf] at hget
  have hnum := congrArg numOf (Option.some.inj hget)
  rw [numOf_numBytes 32 (by omega), numOf_numBytes 32 (by omega)] at hnum
  exact ⟨hnum, hi⟩

end Counting

/-- Up to 2^30 leaves every leaf has a proof that verifies, and beyond none has. A path of `n`
siblings binds its value and its index exactly where `n` is the number of levels and the index is
below the width: a shorter path ends at an inner node, a longer one goes on below a leaf, and the
bits of the index above the path are not looked at. -/
theorem fixed_proofs_bind_iff (k n i : Nat) (hk : 0 < k) (hn : n < 2^32) :
    (ProvesLeaves k ↔ k ≤ 2^30) ∧
      (k ≤ 2^30 → (BindsLeaf k n i ↔ nextPow2 k = some (2^n) ∧ i < 2^n)) := by
  refine ⟨⟨fun h => ?_, provesLeaves_of_le⟩, fun hle => ?_⟩
  · by_contra hgt
    have hlen : (List.replicate k (BufLike.buffer (numBytes 32 0))).length = k :=
      List.length_replicate
    obtain ⟨root, _, hroot, -⟩ := h (countFrom 0) (length_countFrom 0) _ hlen
      (by
        intro leaf hleaf
        rw [List.eq_of_mem_replicate hleaf]
        exact length_numBytes 32 0)
      0 (.buffer (numBytes 32 0)) (by simp [hk])
    rw [fixedMerkleRoot, if_neg (List.ne_nil_of_length_pos (by omega)), hlen,
      nextPow2_eq_none (by omega)] at hroot
    simp at hroot
  · obtain ⟨d, hd, hw, hwidth⟩ := nextPow2_spec hle
    constructor
    · intro h
      obtain ⟨rfl, hi⟩ := levels_of_bindsLeaf hk hd hn hw hwidth h
      exact ⟨hw, hi⟩
    · rintro ⟨hw', hi⟩
      exact bindsLeaf_of_levels hk hle hw' hi

theorem two_leaves_bound : ProvesLeaves 2 ∧ BindsLeaf 2 1 1 := by
  have h := fixed_proofs_bind_iff 2 1 1 (by decide) (by decide)
  exact ⟨h.1.mpr (by decide), (h.2 (by decide)).mpr ⟨by decide, by decide⟩⟩

def leftLeaf : BufLike := .buffer (numBytes 32 5)

def rightLeaf : BufLike := .buffer (numBytes 32 7)

/-- Of two leaves, the left one is accepted at index 2 with its own sibling, and the root itself
at index 0 with no sibling. -/
theorem aliased_and_inner_paths_accepted :
    (∃ root, fixedMerkleRoot (countFrom 0) [leftLeaf, rightLeaf] = some root ∧
      verifyFixedMerkleProof (countFrom 0) (.buffer root) leftLeaf 2 [rightLeaf] = true ∧
      verifyFixedMerkleProof (countFrom 0) (.buffer root) (.buffer root) 0 [] = true ∧
      (padded (countFrom 0) [leftLeaf, rightLeaf] 2)[0]? ≠ some root) ∧
    ¬ BindsLeaf 2 1 2 ∧ ¬ BindsLeaf 2 0 0 := by
  have hroot : fixedMerkleRoot (countFrom 0) [leftLeaf, rightLeaf] = some (numBytes 32 6) := by
    decide
  have hbytes : ∀ leaf ∈ [leftLeaf, rightLeaf], Has32Bytes leaf := by
    intro leaf hleaf
    simp only [List.mem_cons, List.not_mem_nil, or_false] at hleaf
    rcases hleaf with rfl | rfl
    · exact length_numBytes 32 5
    · exact length_numBytes 32 7
  refine ⟨⟨numBytes 32 6, hroot, by decide, by decide, by decide⟩, fun h => ?_, fun h => ?_⟩
  · have hone := h (countFrom 0) (length_countFrom 0) [leftLeaf, rightLeaf] rfl hbytes leftLeaf
      [rightLeaf] (length_numBytes 32 5) rfl _ 2 hroot (by decide)
      (by
        have hinput : ∀ b, b ∈ layerInputs (countFrom 0) 2 (padded (countFrom 0)
            [leftLeaf, rightLeaf] 2) ∨ b ∈ pathInputs (countFrom 0) 2
            ([rightLeaf].map toBuf) (toBuf leftLeaf) →
            b = nodeInput (toBuf leftLeaf, toBuf rightLeaf) := by
          intro b hb
          simpa [layerInputs, pathInputs, padded, pairs, next, nodeInput, toInt32] using hb
        intro a ha b hb _
        rw [hinput a ha, hinput b hb])
      (by decide)
    exact absurd hone.1 (by decide)
  · have hone := h (countFrom 0) (length_countFrom 0) [leftLeaf, rightLeaf] rfl hbytes
      (.buffer (numBytes 32 6)) [] (length_numBytes 32 6) rfl _ 2 hroot (by decide)
      (by
        have hinput : ∀ b, b ∈ layerInputs (countFrom 0) 2 (padded (countFrom 0)
            [leftLeaf, rightLeaf] 2) ∨ b ∈ pathInputs (countFrom 0) 0
            ([].map toBuf) (toBuf (.buffer (numBytes 32 6))) →
            b = nodeInput (toBuf leftLeaf, toBuf rightLeaf) := by
          intro b hb
          simpa [layerInputs, pathInputs, padded, pairs, next, nodeInput, toInt32] using hb
        intro a ha b hb _
        rw [hinput a ha, hinput b hb])
      (by decide)
    exact absurd hone.2 (by decide)

/-! ### The top-level state root -/

def STATE_SUBTREES : List String :=
  ["balances_root", "stakes_root", "ownership_root", "tokens_root", "contract_state_root"]

section StateRoot
variable (sha256 : Buf → Buf) (subRoots : String → Option BufLike)

/-- A sub-tree that is absent has the empty root. -/
def subRootLeaf (name : String) : BufLike := (subRoots name).getD (.buffer (emptyAt sha256 SMT_DEPTH))

def stateRoot : Option Buf :=
  fixedMerkleRoot sha256 (STATE_SUBTREES.map (subRootLeaf sha256 subRoots))

def stateRootProof (name : String) : Option (Except String FixedProof) :=
  if name ∈ STATE_SUBTREES then
    fixedMerkleProof sha256 (STATE_SUBTREES.map (subRootLeaf sha256 subRoots))
      (STATE_SUBTREES.idxOf name)
  else some (.error ("merkle: unknown state sub-tree " ++ name))

/-- An accepted path of three siblings at the position of a sub-tree carries its sub-root. -/
theorem stateRoot_path_binds {sha256 : Buf → Buf} (hsha : ∀ b, (sha256 b).length = 32)
    {subRoots : String → Option BufLike} (hroots : ∀ name root, subRoots name = some root →
      Has32Bytes root) {name : String} (hname : name ∈ STATE_SUBTREES) {leaf : BufLike}
    (hleaf : Has32Bytes leaf) {siblings : List BufLike} (hs : siblings.length = 3) {root : Buf}
    (hroot : stateRoot sha256 subRoots = some root)
    (hinj : Set.InjOn sha256 {b |
      b ∈ layerInputs sha256 8 (padded sha256 (STATE_SUBTREES.map (subRootLeaf sha256 subRoots)) 8) ∨
      b ∈ pathInputs sha256 (STATE_SUBTREES.idxOf name) (siblings.map toBuf) (toBuf leaf)})
    (haccept : verifyFixedMerkleProof sha256 (.buffer root) leaf (STATE_SUBTREES.idxOf name) siblings) :
    toBuf leaf = toBuf (subRootLeaf sha256 subRoots name) := by
  have hidx : STATE_SUBTREES.idxOf name < 5 := List.idxOf_lt_length_iff.mpr hname
  have hbytes : ∀ x ∈ STATE_SUBTREES.map (subRootLeaf sha256 subRoots), Has32Bytes x := by
    intro x hx
    obtain ⟨n, -, rfl⟩ := List.mem_map.mp hx
    unfold subRootLeaf
    cases hn : subRoots n with
    | none =>
      rw [Option.getD_none]
      exact hsha _
    | some r => exact hroots n r hn
  have hbinds : BindsLeaf 5 3 (STATE_SUBTREES.idxOf name) :=
    bindsLeaf_of_levels (by decide) (by decide) (by decide) (by omega)
  have h := (hbinds sha256 hsha _ (by simp [STATE_SUBTREES]) hbytes leaf siblings hleaf hs root 8
    hroot (by decide) hinj haccept).2
  rw [padded, List.getElem?_append_left (by simpa [STATE_SUBTREES] using hidx), List.map_map,
    List.getElem?_map, List.getElem?_idxOf hname] at h
  exact (Option.some.inj h).symm

end StateRoot

end XChainSync.Merkle
