import Mathlib.Data.List.Perm.Basic
import Mathlib.Data.List.Nodup
import XChainSync.Library.HashTree

/-!
# The reference sparse Merkle tree

`smtNode` and `SparseMerkleTree` as in src/merkle.js, over an arbitrary digest type: the
buffers and their hex spellings are one value here, and `nodeHash` and `EMPTY[0]` are
parameters. The tree is the root of a key-to-leaf map, whatever the order of its entries.
-/

namespace XChainSync.Merkle
set_option autoImplicit false

def SMT_DEPTH : Nat := 256

/-- A 32-byte path. -/
structure Key where
  bytes : List UInt8
  length_eq : bytes.length = 32
  deriving DecidableEq

/-- Bit `i` of a path, most significant bit of the first byte first. -/
def bitAt (keyBuf : Key) (i : Nat) : Bool :=
  ((keyBuf.bytes.getD (i >>> 3) 0).toNat >>> (7 - (i &&& 7))) &&& 1 == 1

theorem bitAt_byte (k : Key) (j b : Nat) (hb : b < 8) :
    bitAt k (8*j + (7-b)) = (k.bytes.getD j 0).toNat.testBit b := by
  have hj : (8*j + (7-b)) >>> 3 = j := by
    rw [Nat.shiftRight_eq_div_pow]
    omega
  have hi : (8*j + (7-b)) &&& 7 = 7-b := by
    rw [show (7 : Nat) = 2^3 - 1 by rfl, Nat.and_two_pow_sub_one_eq_mod]
    omega
  have hs : 7 - (7-b) = b := by omega
  simp only [bitAt, hj, hi, hs, Nat.testBit, Nat.one_and_eq_mod_two, Nat.and_one_is_mod]
  rcases Nat.mod_two_eq_zero_or_one ((k.bytes.getD j 0).toNat >>> b) with h | h <;> simp

theorem bitAt_separates : HashTree.Separates bitAt SMT_DEPTH := by
  intro k k' h
  have hbytes : k.bytes = k'.bytes := by
    apply List.ext_getElem
    · rw [k.length_eq, k'.length_eq]
    · intro j hj hj'
      have hj32 : j < 32 := by rw [← k.length_eq]; exact hj
      have hbit : ∀ b < 8, (k.bytes.getD j 0).toNat.testBit b = (k'.bytes.getD j 0).toNat.testBit b := by
        intro b hb
        rw [← bitAt_byte k j b hb, ← bitAt_byte k' j b hb]
        exact h _ (by unfold SMT_DEPTH; omega)
      have hnat : (k.bytes.getD j 0).toNat = (k'.bytes.getD j 0).toNat := by
        apply Nat.eq_of_testBit_eq
        intro b
        by_cases hb : b < 8
        · exact hbit b hb
        · have hpow : 2^8 ≤ 2^b := Nat.pow_le_pow_right (by omega) (by omega)
          rw [Nat.testBit_lt_two_pow (Nat.lt_of_lt_of_le (k.bytes.getD j 0).toNat_lt hpow),
            Nat.testBit_lt_two_pow (Nat.lt_of_lt_of_le (k'.bytes.getD j 0).toNat_lt hpow)]
      have heq := UInt8.toNat_inj.mp hnat
      simpa [List.getD_eq_getElem?_getD, hj, hj'] using heq
  cases k
  cases k'
  simp_all

universe u
variable {Digest : Type u} (nodeHash : Digest → Digest → Digest) (EMPTY0 : Digest)

/-- `EMPTY[h]`, the root of an all-empty subtree of height `h`. -/
def EMPTY (h : Nat) : Digest := HashTree.emptyHash nodeHash EMPTY0 h

def EMPTY_SMT_ROOT : Digest := EMPTY nodeHash EMPTY0 SMT_DEPTH

/-- `smtNode(entries, depth)`, with `height = SMT_DEPTH - depth` as the recursion measure. -/
def smtNode : (height depth : Nat) → List (Key × Digest) → Digest
  | height, _, [] => EMPTY nodeHash EMPTY0 height
  | 0, _, e :: _ => e.2
  | height+1, depth, e :: es =>
      nodeHash (smtNode height (depth+1) ((e :: es).filter fun x => !bitAt x.1 depth))
        (smtNode height (depth+1) ((e :: es).filter fun x => bitAt x.1 depth))

/-- The `_leaves` Map of the reference tree: entries in insertion order, one for each key. -/
structure SparseMerkleTree (Digest : Type u) where
  leaves : List (Key × Digest)
  nodup : (leaves.map Prod.fst).Nodup

namespace SparseMerkleTree

def empty : SparseMerkleTree Digest := ⟨[], List.nodup_nil⟩

def get (t : SparseMerkleTree Digest) (k : Key) : Option Digest := t.leaves.lookup k

theorem map_fst_overwrite (es : List (Key × Digest)) (k : Key) (v : Digest) :
    (es.map fun e => if e.1 = k then (k, v) else e).map Prod.fst = es.map Prod.fst := by
  rw [List.map_map]
  apply List.map_congr_left
  intro e _
  by_cases he : e.1 = k <;> simp [he]

def delete (t : SparseMerkleTree Digest) (k : Key) : SparseMerkleTree Digest where
  leaves := t.leaves.filter fun e => e.1 ≠ k
  nodup := (List.filter_sublist.map Prod.fst).nodup t.nodup

/-- `Map.set`: a key already there keeps its place, a new one goes to the end. -/
def put (t : SparseMerkleTree Digest) (k : Key) (v : Digest) : SparseMerkleTree Digest :=
  if hk : k ∈ t.leaves.map Prod.fst then
    { leaves := t.leaves.map fun e => if e.1 = k then (k, v) else e
      nodup := by rw [map_fst_overwrite]; exact t.nodup }
  else
    { leaves := t.leaves ++ [(k, v)]
      nodup := by
        rw [List.map_append]
        exact t.nodup.append (by simp) (by simpa using hk) }

/-- `set(keyBuf, leafBufOrNull)`: null deletes the key. -/
def set (t : SparseMerkleTree Digest) (k : Key) : Option Digest → SparseMerkleTree Digest
  | none => t.delete k
  | some v => t.put k v

def root (t : SparseMerkleTree Digest) : Digest := smtNode nodeHash EMPTY0 SMT_DEPTH 0 t.leaves

end SparseMerkleTree

theorem lookup_filter (es : List (Key × Digest)) (p : Key → Bool) (k : Key) :
    (es.filter fun x => p x.1).lookup k = if p k then es.lookup k else none := by
  induction es with
  | nil => simp
  | cons e es ih =>
    obtain ⟨k', v⟩ := e
    by_cases hk : k = k'
    · subst k'
      by_cases hp : p k = true
      · simp [hp]
      · simp [hp, ih]
    · have hne : (k == k') = false := by simpa using hk
      by_cases hp : p k' = true
      · simp [hp, List.lookup_cons, hne, ih]
      · simp [hp, List.lookup_cons, hne, ih]

theorem lookup_overwrite (es : List (Key × Digest)) (k k' : Key) (v : Digest)
    (hk : k ∈ es.map Prod.fst) :
    (es.map fun e => if e.1 = k then (k, v) else e).lookup k' =
      if k' = k then some v else es.lookup k' := by
  induction es with
  | nil => simp at hk
  | cons e es ih =>
    obtain ⟨a, w⟩ := e
    by_cases ha : a = k
    · subst a
      by_cases hk' : k' = k
      · subst k'; simp
      · have hne : (k' == k) = false := by simpa using hk'
        simp only [List.map_cons, if_true, List.lookup_cons, hne, hk', if_false]
        by_cases hm : k ∈ es.map Prod.fst
        · simpa [hk'] using ih hm
        · have hmap : (es.map fun e => if e.1 = k then (k, v) else e) = es := by
            conv_rhs => rw [← List.map_id es]
            apply List.map_congr_left
            intro e he
            have hek : e.1 ≠ k := fun h => hm (h ▸ List.mem_map_of_mem he)
            simp [hek]
          rw [hmap]
    · have hmem : k ∈ es.map Prod.fst := by
        rcases List.mem_cons.mp (by simpa using hk : k ∈ a :: es.map Prod.fst) with h | h
        · exact absurd h.symm ha
        · exact h
      simp only [List.map_cons, ha, if_false, List.lookup_cons, ih hmem]
      by_cases hk' : k' = a
      · subst k'; simp [ha]
      · have hne : (k' == a) = false := by simpa using hk'
        simp [hne]

namespace SparseMerkleTree

@[simp] theorem get_empty (k : Key) : (empty : SparseMerkleTree Digest).get k = none := rfl

theorem get_delete (t : SparseMerkleTree Digest) (k : Key) :
    (t.delete k).get = Function.update t.get k none := by
  funext k'
  simp only [get, delete]
  rw [lookup_filter t.leaves (fun x => decide (x ≠ k)) k']
  by_cases hk : k' = k
  · subst k'; simp
  · simp [hk, get]

theorem get_put (t : SparseMerkleTree Digest) (k : Key) (v : Digest) :
    (t.put k v).get = Function.update t.get k (some v) := by
  funext k'
  unfold put
  split
  · rename_i hk
    simp only [get, lookup_overwrite t.leaves k k' v hk]
    by_cases he : k' = k
    · subst k'; simp
    · simp [he, get]
  · rename_i hk
    simp only [get, List.lookup_append]
    by_cases he : k' = k
    · subst k'
      have hnone : t.leaves.lookup k = none := by
        rw [List.lookup_eq_none_iff]
        intro e he
        have hne : k ≠ e.1 := fun h => hk (h ▸ List.mem_map_of_mem he)
        simpa using hne
      simp [hnone]
    · have hne : (k' == k) = false := by simpa using he
      simp [List.lookup_cons, hne, Function.update_of_ne he, get]

theorem get_set (t : SparseMerkleTree Digest) (k : Key) (v : Option Digest) :
    (t.set k v).get = Function.update t.get k v := by
  cases v with
  | none => exact get_delete t k
  | some v => exact get_put t k v

end SparseMerkleTree

/-- The entries on one side of a level are the side of the entries' map. -/
theorem lookup_side (es : List (Key × Digest)) (depth : Nat) (b : Bool) :
    (fun k => (es.filter fun x => bitAt x.1 depth == b).lookup k) =
      HashTree.side bitAt (fun k => es.lookup k) depth b := by
  funext k
  rw [lookup_filter es (fun x => bitAt x depth == b) k]
  simp [HashTree.side]

/-- The recursion of the reference computes the abstract tree of the entries' map. -/
theorem smtNode_eq_treeHash (height depth : Nat) (es : List (Key × Digest)) (k : Key)
    (hd : height + depth = SMT_DEPTH)
    (hu : ∀ e ∈ es, ∀ i < depth, bitAt e.1 i = bitAt k i) :
    smtNode nodeHash EMPTY0 height depth es =
      HashTree.treeHash bitAt nodeHash EMPTY0 height depth (fun k => es.lookup k) := by
  induction height generalizing depth es k with
  | zero =>
    have hunder : HashTree.Under bitAt k SMT_DEPTH (fun k => es.lookup k) := by
      intro k' hk' i hi
      have hk'' : es.lookup k' ≠ none := hk'
      rw [ne_eq, List.lookup_eq_none_iff] at hk''
      push Not at hk''
      obtain ⟨e, he, hke⟩ := hk''
      have hke' : k' = e.1 := by simpa using hke
      rw [hke']
      exact hu e he i (by omega)
    rw [HashTree.treeHash_leaf bitAt nodeHash EMPTY0 bitAt_separates hunder]
    cases es with
    | nil => simp [smtNode, EMPTY, HashTree.emptyHash]
    | cons e es =>
      have hek : e.1 = k := bitAt_separates e.1 k fun i hi => hu e List.mem_cons_self i (by omega)
      obtain ⟨a, v⟩ := e
      simp only at hek
      subst a
      simp [smtNode]
  | succ height ih =>
    cases es with
    | nil =>
      have hv : HashTree.Vacant (fun k : Key => ([] : List (Key × Digest)).lookup k) := fun _ => rfl
      rw [HashTree.treeHash_vacant bitAt nodeHash EMPTY0 hv]
      simp [smtNode, EMPTY]
    | cons e es =>
      have hrec : ∀ b : Bool, smtNode nodeHash EMPTY0 height (depth+1)
          ((e :: es).filter fun x => bitAt x.1 depth == b) =
          HashTree.treeHash bitAt nodeHash EMPTY0 height (depth+1)
            (HashTree.side bitAt (fun k => (e :: es).lookup k) depth b) := by
        intro b
        rw [← lookup_side (e :: es) depth b]
        -- any key of the half names its prefix; an empty half needs none
        cases hf : (e :: es).filter (fun x => bitAt x.1 depth == b) with
        | nil => exact ih (depth+1) [] k (by omega) (by simp)
        | cons f fs =>
          have hmem : ∀ x ∈ f :: fs, x ∈ e :: es ∧ bitAt x.1 depth = b := by
            intro x hx
            rw [← hf] at hx
            simpa using List.mem_filter.mp hx
          apply ih (depth+1) (f :: fs) f.1 (by omega)
          intro x hx i hi
          rcases Nat.lt_succ_iff_lt_or_eq.mp hi with hlt | heq
          · rw [hu x (hmem x hx).1 i hlt, hu f (hmem f List.mem_cons_self).1 i hlt]
          · subst i
            rw [(hmem x hx).2, (hmem f List.mem_cons_self).2]
      have hf := hrec false
      have ht := hrec true
      simp only [beq_false, beq_true] at hf ht
      simp only [smtNode, HashTree.treeHash, hf, ht]

/-- Entries that agree on the bits above the level need no key to name their prefix. -/
theorem smtNode_eq_treeHash_of_agree (height depth : Nat) (es : List (Key × Digest))
    (hd : height + depth = SMT_DEPTH)
    (hu : ∀ e ∈ es, ∀ f ∈ es, ∀ i < depth, bitAt e.1 i = bitAt f.1 i) :
    smtNode nodeHash EMPTY0 height depth es =
      HashTree.treeHash bitAt nodeHash EMPTY0 height depth (fun k => es.lookup k) := by
  cases es with
  | nil =>
    exact smtNode_eq_treeHash nodeHash EMPTY0 height depth [] ⟨List.replicate 32 0, by simp⟩ hd
      (by simp)
  | cons f fs =>
    exact smtNode_eq_treeHash nodeHash EMPTY0 height depth (f :: fs) f.1 hd
      fun e he => hu e he f List.mem_cons_self

/-- One side of a level agrees on one bit more. -/
theorem agree_filter {es : List (Key × Digest)} {depth : Nat} (b : Bool)
    (hu : ∀ e ∈ es, ∀ f ∈ es, ∀ i < depth, bitAt e.1 i = bitAt f.1 i) :
    ∀ e ∈ es.filter (fun x => bitAt x.1 depth == b),
      ∀ f ∈ es.filter (fun x => bitAt x.1 depth == b), ∀ i < depth + 1, bitAt e.1 i = bitAt f.1 i := by
  intro e he f hf i hi
  obtain ⟨he, hbe⟩ := List.mem_filter.mp he
  obtain ⟨hf, hbf⟩ := List.mem_filter.mp hf
  rcases Nat.lt_succ_iff_lt_or_eq.mp hi with hlt | rfl
  · exact hu e he f hf i hlt
  · rw [beq_iff_eq.mp hbe, beq_iff_eq.mp hbf]

theorem SparseMerkleTree.root_eq_treeHash (t : SparseMerkleTree Digest) :
    t.root nodeHash EMPTY0 = HashTree.treeHash bitAt nodeHash EMPTY0 SMT_DEPTH 0 t.get :=
  smtNode_eq_treeHash nodeHash EMPTY0 SMT_DEPTH 0 t.leaves ⟨List.replicate 32 0, by simp⟩ (by omega)
    (by simp)

theorem SparseMerkleTree.root_congr {t t' : SparseMerkleTree Digest}
    (h : ∀ k, t.get k = t'.get k) : t.root nodeHash EMPTY0 = t'.root nodeHash EMPTY0 := by
  rw [root_eq_treeHash, root_eq_treeHash, funext h]

end XChainSync.Merkle
