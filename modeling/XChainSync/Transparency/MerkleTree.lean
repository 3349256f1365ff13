import Mathlib.Data.Set.Function
import XChainSync.Library.Bytes
import XChainSync.Library.LayerTree

/-!
# The Merkle tree of the transparency log

`MerkleTree` of src/server/merkle_tree.js over hashes as hex texts. SHA-256 is a parameter that
answers 64 hex digits.
-/

namespace XChainSync.Transparency
set_option autoImplicit false
open LayerTree

/-- A 64-digit hex text. -/
def IsHash (s : String) : Prop := s.length = 64 ∧ Bytes.IsHex s

theorem IsHash.ne_empty {s : String} (h : IsHash s) : s ≠ "" := by
  rintro rfl
  exact absurd h.1 (by decide)

/-- `createHash('sha256').update(data).digest('hex')`. -/
structure Sha256 where
  hexDigest : String → String
  isHash : ∀ data, IsHash (hexDigest data)

namespace MerkleTree
variable (sha : Sha256)

/-- A missing hash contributes the empty text. -/
def computeLeaf (ledgerHash actionsHash contractHash : Option String) : String :=
  sha.hexDigest (ledgerHash.getD "" ++ actionsHash.getD "" ++ contractHash.getD "")

def hashPair (left right : String) : String := sha.hexDigest (left ++ right)

structure Tree where
  root : Option String
  layers : List (List String)

/-- The loop of `buildTree`: a layer, and those above it until one node is left. -/
def layersFrom : Nat → List String → List (List String)
  | 0, layer => [layer]
  | fuel+1, layer =>
      if layer.length > 1 then layer :: layersFrom fuel (next (hashPair sha) layer) else [layer]

/-- Each layer is shorter than the one below it, so the leaves number enough rounds. -/
def buildTree (leaves : List String) : Tree :=
  if leaves = [] then ⟨none, []⟩
  else
    let layers := layersFrom sha leaves.length leaves
    ⟨layers.getLast?.bind List.head?, layers⟩

inductive Position where
  | left
  | right
  deriving DecidableEq, Repr

structure ProofStep where
  hash : String
  position : Position
  deriving DecidableEq, Repr

/-- A step of `generateProof` on one layer. -/
def proofStep (layer : List String) (index : Nat) : ProofStep :=
  let isRight : Bool := index % 2 = 1
  let siblingIndex := if isRight then index - 1 else index + 1
  if siblingIndex < layer.length then
    ⟨layer.getD siblingIndex "", if isRight then .left else .right⟩
  else ⟨layer.getD index "", .right⟩

def proofSteps : List (List String) → Nat → List ProofStep
  | layer :: above :: rest, index => proofStep layer index :: proofSteps (above :: rest) (index / 2)
  | _, _ => []

def generateProof (layers : List (List String)) (leafIndex : Int) : Option (List ProofStep) :=
  if leafIndex < 0 ∨ leafIndex ≥ (layers.headD []).length then none
  else some (proofSteps layers leafIndex.toNat)

def foldStep (current : String) (step : ProofStep) : String :=
  match step.position with
  | .left => hashPair sha step.hash current
  | .right => hashPair sha current step.hash

/-- A null or an empty text is no leaf and no root. -/
def verifyProof (leaf : String) (proof : Option (List ProofStep)) (expectedRoot : Option String) :
    Bool :=
  match proof, expectedRoot with
  | some proof, some root =>
      leaf ≠ "" && root ≠ "" && proof.foldl (foldStep sha) leaf = root
  | _, _ => false

/-- The pairs `buildTree` hashes. -/
def hashedPairs (leaves : List String) : List (String × String) :=
  (buildTree sha leaves).layers.dropLast.flatMap pairs

variable {sha}

theorem layersFrom_head (fuel : Nat) (layer : List String) :
    ∃ rest, layersFrom sha fuel layer = layer :: rest := by
  cases fuel with
  | zero => exact ⟨[], rfl⟩
  | succ fuel =>
    unfold layersFrom
    split
    · exact ⟨_, rfl⟩
    · exact ⟨[], rfl⟩

theorem layersFrom_ne_nil (fuel : Nat) (layer : List String) : layersFrom sha fuel layer ≠ [] := by
  obtain ⟨rest, h⟩ := @layersFrom_head sha fuel layer
  simp [h]

/-- The top of the layers above a layer. -/
def topOf (layers : List (List String)) : Option String := layers.getLast?.bind List.head?

theorem topOf_cons {layer : List String} {layers : List (List String)} (h : layers ≠ []) :
    topOf (layer :: layers) = topOf layers := by
  obtain ⟨above, rest, rfl⟩ := List.exists_cons_of_ne_nil h
  simp [topOf]

/-- A step hashes a value into the value of half the index. -/
theorem next_foldStep {layer : List String} {index : Nat} {x : String}
    (hx : layer[index]? = some x) :
    (next (hashPair sha) layer)[index / 2]? = some (foldStep sha x (proofStep layer index)) := by
  obtain ⟨hi, -⟩ := List.getElem?_eq_some_iff.mp hx
  unfold proofStep
  dsimp only
  by_cases hodd : index % 2 = 1
  · have hsib : sibling layer index = some (layer.getD (index - 1) "") := by
      simp [sibling, hodd, List.getD, List.getElem?_eq_getElem (show index - 1 < layer.length by omega)]
    rw [next_join _ hx hsib]
    simp [hodd, foldStep, join, ordered, show index - 1 < layer.length by omega]
  · have hlone : layer.getD index "" = x := by simp [List.getD, hx]
    by_cases hsome : index + 1 < layer.length
    · have hsib : sibling layer index = some (layer.getD (index + 1) "") := by
        simp [sibling, hodd, List.getD, List.getElem?_eq_getElem hsome]
      rw [next_join _ hx hsib]
      simp [hodd, foldStep, join, ordered, hsome]
    · have hsib : sibling layer index = some x := by
        simp [sibling, hodd, List.getElem?_eq_none (Nat.le_of_not_lt hsome), hx]
      rw [next_join _ hx hsib]
      simp [hodd, foldStep, join, ordered, hsome, hx]

/-- Folding the steps of a value's path reaches the root. -/
theorem topOf_proofSteps (fuel : Nat) {layer : List String} (hfuel : layer.length ≤ fuel + 1)
    {index : Nat} {x : String} (hx : layer[index]? = some x) :
    topOf (layersFrom sha fuel layer) =
      some ((proofSteps (layersFrom sha fuel layer) index).foldl (foldStep sha) x) := by
  have hlone : layer.length ≤ 1 → topOf [layer] = some x := by
    intro hle
    obtain ⟨hi, -⟩ := List.getElem?_eq_some_iff.mp hx
    obtain rfl : index = 0 := by omega
    simpa [topOf, List.head?_eq_getElem?] using hx
  induction fuel generalizing layer index x with
  | zero => simpa [layersFrom, proofSteps] using hlone hfuel
  | succ fuel ih =>
    by_cases hmany : layer.length > 1
    · obtain ⟨rest, hrest⟩ := @layersFrom_head sha fuel (next (hashPair sha) layer)
      have hshort : (next (hashPair sha) layer).length ≤ fuel + 1 := by
        rw [length_next]
        omega
      have hnext := @next_foldStep sha layer index x hx
      have habove := ih hshort hnext ?_
      · rw [layersFrom, if_pos hmany, topOf_cons (by simp [hrest]), habove, hrest]
        rfl
      · intro hle
        obtain ⟨hi, -⟩ := List.getElem?_eq_some_iff.mp hnext
        obtain hzero : index / 2 = 0 := by omega
        simpa [topOf, List.head?_eq_getElem?, hzero] using hnext
    · simpa [layersFrom, hmany, proofSteps] using hlone (by omega)

theorem singleton_of_topOf {layer layer' : List String} (hne : layer ≠ [])
    (hlen : layer.length = layer'.length) (hle : layer.length ≤ 1)
    (h : topOf [layer] = topOf [layer']) : layer = layer' := by
  have hone : layer.length = 1 := by
    have := List.length_pos_iff.mpr hne
    omega
  obtain ⟨x, rfl⟩ := List.length_eq_one_iff.mp hone
  obtain ⟨y, rfl⟩ := List.length_eq_one_iff.mp (hlen ▸ hone)
  simpa [topOf] using h

/-- Layers of one length with one top are one layer. -/
theorem topOf_inj (fuel : Nat) {layer layer' : List String} (hfuel : layer.length ≤ fuel + 1)
    (hlen : layer.length = layer'.length) (hne : layer ≠ []) {P : String × String → Prop}
    (hinj : ∀ p q, P p → P q → hashPair sha p.1 p.2 = hashPair sha q.1 q.2 → p = q)
    (hP : ∀ p ∈ (layersFrom sha fuel layer).dropLast.flatMap pairs, P p)
    (hP' : ∀ p ∈ (layersFrom sha fuel layer').dropLast.flatMap pairs, P p)
    (h : topOf (layersFrom sha fuel layer) = topOf (layersFrom sha fuel layer')) :
    layer = layer' := by
  have hlone := singleton_of_topOf hne hlen
  induction fuel generalizing layer layer' with
  | zero => exact hlone hfuel h
  | succ fuel ih =>
    by_cases hmany : layer.length > 1
    · have hmany' : layer'.length > 1 := hlen ▸ hmany
      rw [layersFrom, if_pos hmany] at h hP
      rw [layersFrom, if_pos hmany'] at h hP'
      rw [topOf_cons (layersFrom_ne_nil _ _), topOf_cons (layersFrom_ne_nil _ _)] at h
      rw [List.dropLast_cons_of_ne_nil (layersFrom_ne_nil _ _), List.flatMap_cons] at hP hP'
      simp only [List.mem_append] at hP hP'
      have hlen' : (next (hashPair sha) layer).length = (next (hashPair sha) layer').length := by
        rw [length_next, length_next, hlen]
      have hne' : next (hashPair sha) layer ≠ [] := by
        rw [← List.length_pos_iff, length_next]
        omega
      have hnext := ih (by rw [length_next]; omega) hlen' hne' (fun p hp => hP p (Or.inr hp))
        (fun p hp => hP' p (Or.inr hp)) h ?_
      · exact next_inj hinj hlen (fun p hp => hP p (Or.inl hp)) (fun p hp => hP' p (Or.inl hp)) hnext
      · exact singleton_of_topOf hne' hlen'
    · have hmany' : ¬ layer'.length > 1 := hlen ▸ hmany
      rw [layersFrom, if_neg hmany, layersFrom, if_neg hmany'] at h
      exact hlone (by omega) h

theorem buildTree_root {leaves : List String} (hne : leaves ≠ []) :
    (buildTree sha leaves).root = topOf (layersFrom sha leaves.length leaves) := by
  rw [buildTree, if_neg hne]
  rfl

theorem buildTree_layers {leaves : List String} (hne : leaves ≠ []) :
    (buildTree sha leaves).layers = layersFrom sha leaves.length leaves := by
  rw [buildTree, if_neg hne]

/-- Steps keep hashes non-empty. -/
theorem foldl_foldStep_ne {leaf : String} (hleaf : IsHash leaf) (steps : List ProofStep) :
    steps.foldl (foldStep sha) leaf ≠ "" := by
  suffices h : IsHash (steps.foldl (foldStep sha) leaf) from h.ne_empty
  induction steps generalizing leaf with
  | nil => exact hleaf
  | cons step steps ih =>
    apply ih
    unfold foldStep hashPair
    split
    · exact sha.isHash _
    · exact sha.isHash _

theorem verifyProof_generateProof {leaves : List String} (hleaves : ∀ leaf ∈ leaves, IsHash leaf)
    {i : Nat} {leaf : String} (hi : leaves[i]? = some leaf) :
    verifyProof sha leaf (generateProof (buildTree sha leaves).layers i)
      (buildTree sha leaves).root = true := by
  obtain ⟨hlt, -⟩ := List.getElem?_eq_some_iff.mp hi
  have hne : leaves ≠ [] := List.ne_nil_of_length_pos (by omega)
  have hleaf := hleaves leaf (List.mem_of_getElem? hi)
  obtain ⟨rest, hrest⟩ := @layersFrom_head sha leaves.length leaves
  have hproof : generateProof (buildTree sha leaves).layers i =
      some (proofSteps (layersFrom sha leaves.length leaves) i) := by
    rw [buildTree_layers hne, generateProof, if_neg]
    · rfl
    · rw [hrest, List.headD_cons]
      omega
  rw [hproof, buildTree_root hne, topOf_proofSteps leaves.length (by omega) hi]
  simp [verifyProof, hleaf.ne_empty, foldl_foldStep_ne hleaf]

/-- The proof of every leaf verifies against the root, and, the hash being injective on the pairs
of the two trees, leaf lists of one length with one root are one list. -/
theorem proofs_verify_and_root_binds (sha : Sha256) :
    (∀ leaves : List String, leaves ≠ [] → (∀ leaf ∈ leaves, IsHash leaf) →
      ∀ (i : Nat) (leaf : String), leaves[i]? = some leaf →
        verifyProof sha leaf (generateProof (buildTree sha leaves).layers i)
          (buildTree sha leaves).root = true) ∧
    ∀ leaves leaves' : List String, leaves ≠ [] → leaves.length = leaves'.length →
      (∀ leaf ∈ leaves ++ leaves', IsHash leaf) →
      Set.InjOn (fun p => hashPair sha p.1 p.2)
        {p | p ∈ hashedPairs sha leaves ∨ p ∈ hashedPairs sha leaves'} →
      (buildTree sha leaves).root = (buildTree sha leaves').root → leaves = leaves' := by
  refine ⟨fun leaves _ hleaves i leaf hi => verifyProof_generateProof hleaves hi, ?_⟩
  intro leaves leaves' hne hlen _ hinj hroot
  have hne' : leaves' ≠ [] := by
    rw [← List.length_pos_iff] at hne ⊢
    omega
  unfold hashedPairs at hinj
  rw [buildTree_layers hne, buildTree_layers hne', ← hlen] at hinj
  rw [buildTree_root hne, buildTree_root hne', ← hlen] at hroot
  exact topOf_inj leaves.length (by omega) hlen hne (fun p q hp hq heq => hinj hp hq heq)
    (fun p hp => Or.inl hp) (fun p hp => Or.inr hp) hroot

/-- The SHA-256 digests of "a", "b" and "c". -/
def sampleLeaves : List String :=
  ["ca978112ca1bbdcafac231b39a23dc4da786eff8147c4e72b9807785afee48bb",
    "3e23e8160039594a33894f6564e1b1348bbd7a0088d42c4acb73eeaed59c009d",
    "2e7d2c03a9507ae265ecf5b5356885a53393a2029d241394997265a1a25aefc6"]

/-- The same with the last leaf repeating the one before it. -/
def repeatedLeaves : List String := sampleLeaves.take 2 ++ (sampleLeaves.drop 1).take 1

/-- SHA-256 on what the two trees hash: the first pair, the two last leaves paired with
themselves, and the two roots. -/
def digestTable : List (String × String) :=
  let first := "62af5c3cb8da3e4f25061e829ebeea5c7513c54949115b1acc225930a90154da"
  let last := "d50c873877f38fcbc56dbe836b9d979912efcb587ed8eea919372d403b5c2bd4"
  let repeated := "0efa36bcac6839f0e7aef69cc742c3cde6829ba2769df54c9e726dd6f68ef128"
  [(sampleLeaves.getD 0 "" ++ sampleLeaves.getD 1 "", first),
    (sampleLeaves.getD 2 "" ++ sampleLeaves.getD 2 "", last),
    (sampleLeaves.getD 1 "" ++ sampleLeaves.getD 1 "", repeated),
    (first ++ last, "0bdf27bf7ec894ca7cadfe491ec1a3ece840f117989e8c5e9bd7086467bf6c38"),
    (first ++ repeated, "11f161cdb6d8a339010b6ec3d0645d7324e915d4ef055748e2b66c6dfba21fb0")]

def zeroHash : String := String.ofList (List.replicate 64 '0')

/-- The characters of a hash, for the evaluation. -/
def hashChars : List Char :=
  ['0', '1', '2', '3', '4', '5', '6', '7', '8', '9', 'a', 'b', 'c', 'd', 'e', 'f']

theorem isHash_iff (s : String) :
    IsHash s ↔ s.toList.length = 64 ∧ s.toList.all (hashChars.contains ·) = true := by
  have hchars : Bytes.hexDigits = hashChars := by decide
  rw [IsHash, Bytes.IsHex, hchars, ← String.length_toList, List.all_eq_true]
  simp only [List.contains_iff_mem]
  constructor
  · rintro ⟨hlen, -, hmem⟩
    exact ⟨hlen, hmem⟩
  · rintro ⟨hlen, hmem⟩
    exact ⟨hlen, by rw [hlen], hmem⟩

instance (s : String) : Decidable (IsHash s) := decidable_of_iff _ (isHash_iff s).symm

theorem digestTable_isHash : ∀ e ∈ digestTable, IsHash e.2 := by decide +kernel

def tableSha : Sha256 where
  hexDigest data := (digestTable.lookup data).getD zeroHash
  isHash data := by
    cases h : digestTable.lookup data with
    | none => exact (by decide +kernel : IsHash zeroHash)
    | some digest =>
      obtain ⟨l, r, hmem, -⟩ := List.lookup_eq_some_iff.mp h
      exact digestTable_isHash (data, digest) (by rw [hmem]; simp)

theorem sample_proof_verifies_and_root_differs :
    verifyProof tableSha (sampleLeaves.getD 2 "")
        (generateProof (buildTree tableSha sampleLeaves).layers 2)
        (buildTree tableSha sampleLeaves).root = true ∧
      (buildTree tableSha sampleLeaves).root ≠ (buildTree tableSha repeatedLeaves).root := by
  obtain ⟨hverify, hbind⟩ := proofs_verify_and_root_binds tableSha
  refine ⟨hverify sampleLeaves (by decide) (by decide +kernel) 2 _ rfl, fun hroot => ?_⟩
  have heq := hbind sampleLeaves repeatedLeaves (by decide) rfl (by decide +kernel) ?_ hroot
  · exact absurd heq (by decide +kernel)
  · have hdistinct : ∀ p ∈ hashedPairs tableSha sampleLeaves ++ hashedPairs tableSha repeatedLeaves,
        ∀ q ∈ hashedPairs tableSha sampleLeaves ++ hashedPairs tableSha repeatedLeaves,
        hashPair tableSha p.1 p.2 = hashPair tableSha q.1 q.2 → p = q := by decide +kernel
    intro p hp q hq heq
    exact hdistinct p (List.mem_append.mpr hp) q (List.mem_append.mpr hq) heq

end MerkleTree

end XChainSync.Transparency
