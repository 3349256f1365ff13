import Mathlib
import XChainSync.Library.Bytes
import XChainSync.Merkle.PersistentSMT

/-!
# Proofs against the sparse Merkle tree

`prove` of both trees, `verifySmtProof` and the compressed form, on bytes and their hex texts.
SHA-256 is a parameter. Siblings are texts a source sends, of any length; a sibling that is missing
makes `toBuf` throw.
-/

namespace XChainSync.Merkle
set_option autoImplicit false
open HashTree Bytes

/-- A Buffer. -/
abbrev Buf := List UInt8

section Hashing
variable (sha256 : Buf → Buf)

def nodeHash (left right : Buf) : Buf := sha256 (0x01 :: (left ++ right))

/-- `EMPTY[0]`. -/
def emptyLeaf : Buf :=
  sha256 (0x02 :: "XCHAIN_EMPTY_LEAF".toList.map fun c => UInt8.ofNat c.toNat)

def emptyAt (h : Nat) : Buf := EMPTY (nodeHash sha256) (emptyLeaf sha256) h

/-! ### Proving -/

/-- The loop of `prove` from depth `depth`, `height` levels above the leaves. -/
def proveFrom (key : Key) : (height depth : Nat) → List (Key × Buf) → List Buf
  | 0, _, _ => []
  | height+1, depth, level =>
      let left := level.filter fun e => !bitAt e.1 depth
      let right := level.filter fun e => bitAt e.1 depth
      let sibEntries := if bitAt key depth then left else right
      smtNode (nodeHash sha256) (emptyLeaf sha256) height (depth+1) sibEntries ::
        proveFrom key height (depth+1) (if bitAt key depth then right else left)

structure Compressed where
  bitmap : String
  siblings : List String
  deriving DecidableEq, Repr

/-- The bitmap and the real siblings so far. -/
structure Packed where
  bitmap : List UInt8
  real : List String

/-- One turn of `compressSmtProof`. -/
def packSibling (siblings : List String) (acc : Packed) (d : Nat) : Except String Packed :=
  match siblings[d]? with
  | none => .error "ERR_INVALID_ARG_TYPE"
  | some s =>
    let sib := fromHex s
    if sib = emptyAt sha256 (SMT_DEPTH - 1 - d) then .ok acc
    else .ok ⟨setFlag acc.bitmap d, acc.real ++ [toHex sib]⟩

def compressSmtProof (siblings : List String) : Except String Compressed :=
  ((List.range SMT_DEPTH).foldlM (packSibling sha256 siblings) ⟨List.replicate 32 0, []⟩).map
    fun packed => ⟨toHex packed.bitmap, packed.real⟩

structure SmtProof where
  key : String
  leaf_value : Option String
  siblings : List String
  compressed : Except String Compressed

namespace SparseMerkleTree

def prove (t : SparseMerkleTree Buf) (key : Key) : SmtProof :=
  let siblings := (proveFrom sha256 key SMT_DEPTH 0 t.leaves).map toHex
  { key := toHex key.bytes
    leaf_value := (t.get key).map toHex
    siblings := siblings
    compressed := compressSmtProof sha256 siblings }

end SparseMerkleTree

/-- `PersistentSMT.prove(rootHex, keyBuf)`. -/
def provePersistent (store : NodeStore Buf) (root : Buf) (key : Key) : SmtProof :=
  let found := descend (nodeHash sha256) (emptyLeaf sha256) store root key
  let siblings := found.1.map toHex
  { key := toHex key.bytes
    leaf_value := if found.2 ≠ emptyLeaf sha256 then some (toHex found.2) else none
    siblings := siblings
    compressed := compressSmtProof sha256 siblings }

/-! ### Verifying -/

/-- One turn of the loop of `verifySmtProof`, at the depth of its sibling. -/
def foldSibling (key : Key) (sib : Buf × Nat) (node : Buf) : Buf :=
  if bitAt key sib.2 then nodeHash sha256 sib.1 node else nodeHash sha256 node sib.1

/-- The node the loop ends on, from the leaf level up. -/
def foldedRoot (key : Key) (leafValue : Option String) (siblings : List Buf) : Buf :=
  siblings.zipIdx.foldr (foldSibling sha256 key) (leafValue.elim (emptyLeaf sha256) fromHex)

/-- Siblings an array has no element for are none. -/
def verifySmtProof (rootHex : String) (key : Key) (leafValue : Option String)
    (siblings : List (Option String)) : Except String Bool :=
  if siblings.length ≠ SMT_DEPTH then .ok false
  else match siblings.mapM id with
    | none => .error "ERR_INVALID_ARG_TYPE"
    | some texts => .ok (toHex (foldedRoot sha256 key leafValue (texts.map fromHex)) = rootHex)

/-- One turn of `decompressSmtProof`: the next real sibling where the flag is set. -/
def unpackSibling (bitmap : List UInt8) (real : List String) (acc : Nat × List (Option String))
    (d : Nat) : Nat × List (Option String) :=
  if getFlag bitmap d then (acc.1 + 1, acc.2 ++ [real[acc.1]?])
  else (acc.1, acc.2 ++ [some (toHex (emptyAt sha256 (SMT_DEPTH - 1 - d)))])

def decompressSmtProof (compressed : Compressed) : Except String (List (Option String)) :=
  let unpacked := (List.range SMT_DEPTH).foldl
    (unpackSibling sha256 (fromHex compressed.bitmap) compressed.siblings) (0, [])
  if unpacked.1 ≠ compressed.siblings.length then
    .error "merkle: surplus siblings in compressed proof"
  else .ok unpacked.2

def verifyCompressedSmtProof (rootHex : String) (key : Key) (leafValue : Option String)
    (compressed : Compressed) : Except String Bool := do
  verifySmtProof sha256 rootHex key leafValue (← decompressSmtProof sha256 compressed)

end Hashing

/-! ### The folds of the two loops -/

section Spec
variable {sha256 : Buf → Buf}

/-- The loop of the verifier is the climb of an update. -/
theorem foldr_eq_climb (key : Key) (depth : Nat) (siblings : List Buf) (leaf : Buf) :
    (siblings.zipIdx depth).foldr (foldSibling sha256 key) leaf =
      (climb (nodeHash sha256) (emptyLeaf sha256) key depth siblings leaf).cur := by
  induction siblings generalizing depth with
  | nil => rfl
  | cons sib siblings ih =>
    rw [List.zipIdx_cons, List.foldr_cons, ih (depth+1)]
    simp only [foldSibling, climb, children]
    split <;> rfl

/-- The loop of the prover reads the siblings off the map. -/
theorem proveFrom_eq_siblings (key : Key) (height depth : Nat) (level : List (Key × Buf))
    (hd : height + depth = SMT_DEPTH)
    (hu : ∀ e ∈ level, ∀ i < depth, bitAt e.1 i = bitAt key i) :
    proveFrom sha256 key height depth level =
      siblings bitAt (nodeHash sha256) (emptyLeaf sha256) height depth (fun k => level.lookup k)
        key := by
  induction height generalizing depth level with
  | zero => rfl
  | succ height ih =>
    have hon : ∀ e ∈ level.filter (fun x => bitAt x.1 depth == bitAt key depth), ∀ i < depth + 1,
        bitAt e.1 i = bitAt key i := by
      intro e he i hi
      obtain ⟨he, hb⟩ := List.mem_filter.mp he
      rcases Nat.lt_succ_iff_lt_or_eq.mp hi with hlt | rfl
      · exact hu e he i hlt
      · exact beq_iff_eq.mp hb
    have hrest := ih (depth+1) _ (by omega) hon
    have hagree : ∀ e ∈ level, ∀ f ∈ level, ∀ i < depth, bitAt e.1 i = bitAt f.1 i := by
      intro e he f hf i hi
      rw [hu e he i hi, hu f hf i hi]
    have hsib := smtNode_eq_treeHash_of_agree (nodeHash sha256) (emptyLeaf sha256) height (depth+1)
      _ (by omega) (agree_filter (!bitAt key depth) hagree)
    rw [lookup_side] at hsib
    rw [lookup_side] at hrest
    unfold siblings
    rw [← hrest, ← hsib]
    simp only [proveFrom]
    cases bitAt key depth <;> simp

/-- Both provers give the siblings of the map. -/
theorem proveFrom_leaves (t : SparseMerkleTree Buf) (key : Key) :
    proveFrom sha256 key SMT_DEPTH 0 t.leaves =
      siblings bitAt (nodeHash sha256) (emptyLeaf sha256) SMT_DEPTH 0 t.get key :=
  proveFrom_eq_siblings key SMT_DEPTH 0 t.leaves (by omega) (fun _ _ _ hi => absurd hi (by omega))

/-- The siblings of a map fold back to its root. -/
theorem foldedRoot_siblings (sha256 : Buf → Buf) (t : SparseMerkleTree Buf) (key : Key) :
    foldedRoot sha256 key ((t.get key).map toHex)
        (siblings bitAt (nodeHash sha256) (emptyLeaf sha256) SMT_DEPTH 0 t.get key) =
      t.root (nodeHash sha256) (emptyLeaf sha256) := by
  have hleaf : ((t.get key).map toHex).elim (emptyLeaf sha256) fromHex =
      (t.get key).getD (emptyLeaf sha256) := by
    cases t.get key <;> simp
  have hunder : Under bitAt key 0 t.get := fun _ _ _ hi => absurd hi (by omega)
  have hclimb := climb_siblings (nodeHash sha256) (emptyLeaf sha256) SMT_DEPTH (by omega) hunder
    (t.get key)
  rw [Function.update_eq_self] at hclimb
  rw [foldedRoot, foldr_eq_climb, hleaf, hclimb, SparseMerkleTree.root_eq_treeHash]

theorem mapM_id_map_some {α : Type} (xs : List α) : (xs.map some).mapM id = some xs := by
  induction xs with
  | nil => rfl
  | cons x xs ih => simp [List.mapM_cons, ih]

/-- The verifier takes the proof of any key against the root. -/
theorem verifySmtProof_prove (t : SparseMerkleTree Buf) (key : Key) :
    verifySmtProof sha256 (toHex (t.root (nodeHash sha256) (emptyLeaf sha256))) key
      (t.prove sha256 key).leaf_value ((t.prove sha256 key).siblings.map some) = .ok true := by
  have hlength : ((t.prove sha256 key).siblings.map some).length = SMT_DEPTH := by
    simp [SparseMerkleTree.prove, proveFrom_leaves, siblings_length]
  have htexts : (t.prove sha256 key).siblings.map fromHex =
      siblings bitAt (nodeHash sha256) (emptyLeaf sha256) SMT_DEPTH 0 t.get key := by
    simp [SparseMerkleTree.prove, proveFrom_leaves, Function.comp_def]
  have hroot := foldedRoot_siblings sha256 t key
  unfold verifySmtProof
  rw [if_neg (by simpa using hlength), mapM_id_map_some]
  dsimp only
  rw [htexts]
  simp [SparseMerkleTree.prove, hroot]

/-! ### What an accepted proof says -/

/-- The pairs that `smtNode` hashes. -/
def smtPairs (sha256 : Buf → Buf) : (height depth : Nat) → List (Key × Buf) → List (Buf × Buf)
  | _, _, [] => []
  | 0, _, _ :: _ => []
  | height+1, depth, e :: es =>
      let left := (e :: es).filter fun x => !bitAt x.1 depth
      let right := (e :: es).filter fun x => bitAt x.1 depth
      (smtNode (nodeHash sha256) (emptyLeaf sha256) height (depth+1) left,
        smtNode (nodeHash sha256) (emptyLeaf sha256) height (depth+1) right) ::
        (smtPairs sha256 height (depth+1) left ++ smtPairs sha256 height (depth+1) right)

/-- The pairs of the EMPTY table. -/
def emptyPairs (sha256 : Buf → Buf) : List (Buf × Buf) :=
  (List.range SMT_DEPTH).map fun h => (emptyAt sha256 h, emptyAt sha256 h)

/-- The pairs a verification hashes. -/
def verifiedPairs (sha256 : Buf → Buf) (key : Key) (leafValue : Option String)
    (siblings : List (Option String)) : List (Buf × Buf) :=
  (climb (nodeHash sha256) (emptyLeaf sha256) key 0 (siblings.reduceOption.map fromHex)
    (leafValue.elim (emptyLeaf sha256) fromHex)).hashed

/-- The texts SHA-256 is applied to by the EMPTY table, the tree and a verification. -/
def hashInputs (sha256 : Buf → Buf) (t : SparseMerkleTree Buf) (key : Key)
    (leafValue : Option String) (siblings : List (Option String)) : List Buf :=
  (emptyPairs sha256 ++ smtPairs sha256 SMT_DEPTH 0 t.leaves ++
    verifiedPairs sha256 key leafValue siblings).map fun p => 0x01 :: (p.1 ++ p.2)

/-- The pair is hashed for one of the inputs. -/
def IsInput (inputs : List Buf) (a b : Buf) : Prop := 0x01 :: (a ++ b) ∈ inputs

section Sound
variable {P : Buf → Buf → Prop}

/-- The tree of the entries hashes the pairs of `smtNode` and of the EMPTY table. -/
theorem covered_smtPairs (hempty : ∀ n < SMT_DEPTH, P (emptyAt sha256 n) (emptyAt sha256 n))
    (height depth : Nat) (es : List (Key × Buf)) (hd : height + depth = SMT_DEPTH)
    (hu : ∀ e ∈ es, ∀ f ∈ es, ∀ i < depth, bitAt e.1 i = bitAt f.1 i)
    (hP : ∀ p ∈ smtPairs sha256 height depth es, P p.1 p.2) :
    Covered bitAt (nodeHash sha256) (emptyLeaf sha256) P height depth (fun k => es.lookup k) := by
  induction height generalizing depth es with
  | zero => trivial
  | succ height ih =>
    cases es with
    | nil => exact covered_vacant hempty (fun _ => rfl) _ _ (by omega)
    | cons e es =>
      simp only [smtPairs, List.mem_cons, List.mem_append] at hP
      have hside : ∀ b, (∀ p ∈ smtPairs sha256 height (depth+1)
          ((e :: es).filter fun x => bitAt x.1 depth == b), P p.1 p.2) →
          smtNode (nodeHash sha256) (emptyLeaf sha256) height (depth+1)
              ((e :: es).filter fun x => bitAt x.1 depth == b) =
            treeHash bitAt (nodeHash sha256) (emptyLeaf sha256) height (depth+1)
              (side bitAt (fun k => (e :: es).lookup k) depth b) ∧
          Covered bitAt (nodeHash sha256) (emptyLeaf sha256) P height (depth+1)
            (side bitAt (fun k => (e :: es).lookup k) depth b) := by
        intro b hb
        have hagree := agree_filter b hu
        rw [← lookup_side]
        exact ⟨smtNode_eq_treeHash_of_agree _ _ height (depth+1) _ (by omega) hagree,
          ih (depth+1) _ (by omega) hagree hb⟩
      obtain ⟨hleft, hcleft⟩ := hside false (by simpa using fun p hp => hP p (.inr (.inl hp)))
      obtain ⟨hright, hcright⟩ := hside true (by simpa using fun p hp => hP p (.inr (.inr hp)))
      refine ⟨?_, hcleft, hcright⟩
      rw [← hleft, ← hright]
      simpa using hP _ (.inl rfl)

/-- Every node of the tree is 32 bytes long. -/
theorem length_treeHash (hsha : ∀ b, (sha256 b).length = 32) {m : Key → Option Buf}
    (hm : Leaves (fun v => v.length = 32) m) (height depth : Nat) :
    (treeHash bitAt (nodeHash sha256) (emptyLeaf sha256) height depth m).length = 32 := by
  cases height with
  | zero =>
    unfold treeHash
    split
    · rename_i hv
      obtain ⟨k, hk⟩ := hv.choose_spec
      exact hm k _ hk
    · exact hsha _
  | succ height => exact hsha _

theorem length_climb (hsha : ∀ b, (sha256 b).length = 32) (key : Key) (depth : Nat)
    (siblings : List Buf) {leaf : Buf} (hleaf : leaf.length = 32) :
    (climb (nodeHash sha256) (emptyLeaf sha256) key depth siblings leaf).cur.length = 32 := by
  cases siblings with
  | nil => exact hleaf
  | cons sib siblings => exact hsha _

/-- Two node inputs with a child of 32 bytes each on the same side have the same children. -/
theorem children_inj {key : Key} {depth : Nat} {sib sib' cur cur' : Buf} (hcur : cur.length = 32)
    (hcur' : cur'.length = 32)
    (h : (children bitAt key depth sib cur).1 ++ (children bitAt key depth sib cur).2 =
      (children bitAt key depth sib' cur').1 ++ (children bitAt key depth sib' cur').2) :
    cur = cur' := by
  unfold children at h
  split at h
  · exact (List.append_inj' h (hcur.trans hcur'.symm)).2
  · exact (List.append_inj h (hcur.trans hcur'.symm)).1

/-- A climb that ends on the root of a map starts from the leaf the map has at the key. -/
theorem climb_sound (hsha : ∀ b, (sha256 b).length = 32)
    (hinj : ∀ {a b c d}, P a b → P c d → nodeHash sha256 a b = nodeHash sha256 c d →
      a ++ b = c ++ d)
    {key : Key} (height : Nat) {depth : Nat} {m : Key → Option Buf} {siblings : List Buf}
    {leaf : Buf} (hd : height + depth = SMT_DEPTH) (hlength : siblings.length = height)
    (hleaf : leaf.length = 32) (hm : Leaves (fun v => v.length = 32) m)
    (hu : Under bitAt key depth m)
    (hc : Covered bitAt (nodeHash sha256) (emptyLeaf sha256) P height depth m)
    (hP : ∀ p ∈ (climb (nodeHash sha256) (emptyLeaf sha256) key depth siblings leaf).hashed,
      P p.1 p.2)
    (h : (climb (nodeHash sha256) (emptyLeaf sha256) key depth siblings leaf).cur =
      treeHash bitAt (nodeHash sha256) (emptyLeaf sha256) height depth m) :
    leaf = (m key).getD (emptyLeaf sha256) := by
  induction height generalizing depth m siblings with
  | zero =>
    obtain rfl := List.length_eq_zero_iff.mp hlength
    have hu' : Under bitAt key SMT_DEPTH m := by rwa [← hd, Nat.zero_add]
    rwa [treeHash_leaf bitAt _ _ bitAt_separates hu'] at h
  | succ height ih =>
    obtain ⟨sib, siblings, rfl⟩ := List.exists_cons_of_length_eq_add_one hlength
    simp only [climb, List.mem_append, List.mem_singleton] at hP h
    rw [treeHash_children bitAt _ _ height depth m key] at h
    have hon : Covered bitAt (nodeHash sha256) (emptyLeaf sha256) P height (depth+1)
        (side bitAt m depth (bitAt key depth)) := by
      cases hb : bitAt key depth
      · exact hc.2.1
      · exact hc.2.2
    have hpair : P (children bitAt key depth
          (treeHash bitAt (nodeHash sha256) (emptyLeaf sha256) height (depth+1)
            (side bitAt m depth (!bitAt key depth)))
          (treeHash bitAt (nodeHash sha256) (emptyLeaf sha256) height (depth+1)
            (side bitAt m depth (bitAt key depth)))).1
        (children bitAt key depth
          (treeHash bitAt (nodeHash sha256) (emptyLeaf sha256) height (depth+1)
            (side bitAt m depth (!bitAt key depth)))
          (treeHash bitAt (nodeHash sha256) (emptyLeaf sha256) height (depth+1)
            (side bitAt m depth (bitAt key depth)))).2 := by
      have h := hc.1
      cases hb : bitAt key depth <;> simpa [children, hb] using h
    have hcur := children_inj (length_climb hsha key (depth+1) siblings hleaf)
      (length_treeHash hsha (hm.side depth _) height (depth+1)) (hinj (hP _ (.inr rfl)) hpair h)
    have hself : side bitAt m depth (bitAt key depth) key = m key := by simp [side]
    rw [← hself]
    exact ih (by omega) (by simpa using hlength) (hm.side depth _) (hu.side bitAt) hon
      (fun p hp => hP p (.inl hp)) hcur

end Sound

theorem mapM_id_eq_some {α : Type} {xs : List (Option α)} {ys : List α}
    (h : xs.mapM id = some ys) : xs.reduceOption = ys ∧ xs.length = ys.length := by
  induction xs generalizing ys with
  | nil =>
    simp only [List.mapM_nil] at h
    cases h
    exact ⟨rfl, rfl⟩
  | cons x xs ih =>
    rw [List.mapM_cons] at h
    obtain ⟨y, hx, h⟩ := Option.bind_eq_some_iff.mp h
    obtain ⟨zs, hzs, h⟩ := Option.bind_eq_some_iff.mp h
    cases h
    obtain ⟨hreduce, hlength⟩ := ih hzs
    obtain rfl : x = some y := hx
    exact ⟨by simpa [List.reduceOption] using hreduce, by simp [hlength]⟩

/-- A proof a verification accepts against the root of a map tells what the map has at the key. -/
theorem smt_proof_sound (sha256 : Buf → Buf) (hsha : ∀ b, (sha256 b).length = 32)
    (t : SparseMerkleTree Buf)
    (hleaves : ∀ k v, t.get k = some v → v.length = 32 ∧ v ≠ emptyLeaf sha256) (key : Key)
    (leafValue : Option String)
    (hvalue : ∀ v, leafValue = some v → (fromHex v).length = 32 ∧ fromHex v ≠ emptyLeaf sha256)
    (siblings : List (Option String))
    (hinj : Set.InjOn sha256 {b | b ∈ hashInputs sha256 t key leafValue siblings})
    (haccept : verifySmtProof sha256 (toHex (t.root (nodeHash sha256) (emptyLeaf sha256))) key
        leafValue siblings = .ok true ∨
      ∃ compressed, decompressSmtProof sha256 compressed = .ok siblings ∧
        verifyCompressedSmtProof sha256 (toHex (t.root (nodeHash sha256) (emptyLeaf sha256))) key
          leafValue compressed = .ok true) :
    t.get key = leafValue.map fromHex := by
  have hverify : verifySmtProof sha256 (toHex (t.root (nodeHash sha256) (emptyLeaf sha256))) key
      leafValue siblings = .ok true := by
    rcases haccept with h | ⟨compressed, hunpack, h⟩
    · exact h
    · rw [verifyCompressedSmtProof, hunpack] at h
      exact h
  unfold verifySmtProof at hverify
  split at hverify
  · simp at hverify
  rename_i hlength
  rw [not_not] at hlength
  split at hverify
  · cases hverify
  rename_i texts htexts
  obtain ⟨hreduce, hlen⟩ := mapM_id_eq_some htexts
  have hroot : foldedRoot sha256 key leafValue (texts.map fromHex) =
      t.root (nodeHash sha256) (emptyLeaf sha256) := by
    simpa using toHex_injective (by simpa using hverify)
  rw [foldedRoot, foldr_eq_climb, SparseMerkleTree.root_eq_treeHash] at hroot
  -- the pairs hashed by the table, by the tree and by the climb
  have hempty : ∀ n < SMT_DEPTH, IsInput (hashInputs sha256 t key leafValue siblings)
      (emptyAt sha256 n) (emptyAt sha256 n) := by
    intro n hn
    refine List.mem_map.mpr ⟨(emptyAt sha256 n, emptyAt sha256 n), ?_, rfl⟩
    simp only [List.mem_append]
    exact .inl (.inl (List.mem_map.mpr ⟨n, List.mem_range.mpr hn, rfl⟩))
  have htree : ∀ p ∈ smtPairs sha256 SMT_DEPTH 0 t.leaves,
      IsInput (hashInputs sha256 t key leafValue siblings) p.1 p.2 :=
    fun p hp => List.mem_map.mpr ⟨p, by simp [hp], rfl⟩
  have hclimb : ∀ p ∈ (climb (nodeHash sha256) (emptyLeaf sha256) key 0 (texts.map fromHex)
      (leafValue.elim (emptyLeaf sha256) fromHex)).hashed,
      IsInput (hashInputs sha256 t key leafValue siblings) p.1 p.2 :=
    fun p hp => List.mem_map.mpr ⟨p, by simp [verifiedPairs, hreduce, hp], rfl⟩
  have hcovered := covered_smtPairs hempty SMT_DEPTH 0 t.leaves (by omega)
    (fun _ _ _ _ _ hi => absurd hi (by omega)) htree
  have hleaf : (leafValue.elim (emptyLeaf sha256) fromHex).length = 32 := by
    cases leafValue with
    | none => exact hsha _
    | some v => exact (hvalue v rfl).1
  have hsame := climb_sound hsha (fun ha hb h => (List.cons.inj (hinj ha hb h)).2) SMT_DEPTH
    (by omega) (by simpa using hlen.symm.trans hlength) hleaf (fun k v hv => (hleaves k v hv).1)
    (fun _ _ _ hi => absurd hi (by omega)) hcovered hclimb hroot
  cases hv : leafValue with
  | none =>
    rw [hv] at hsame
    cases hget : t.get key with
    | none => rfl
    | some w =>
      rw [hget] at hsame
      exact absurd hsame.symm (hleaves key w hget).2
  | some v =>
    rw [hv] at hsame
    cases hget : t.get key with
    | none =>
      rw [hget] at hsame
      exact absurd hsame (hvalue v hv).2
    | some w =>
      rw [hget] at hsame
      exact congrArg some hsame.symm

/-! ### A tree of one leaf under a hash that counts -/

/-- 32 bytes that start with a count. -/
def countBytes (n : Nat) : Buf :=
  UInt8.ofNat (n % 256) :: UInt8.ofNat (n / 256) :: List.replicate 30 0

def countOf : Buf → Nat
  | a :: b :: _ => a.toNat + 256 * b.toNat
  | _ => 0

/-- Counts one more than the left child of a node. -/
def countSha : Buf → Buf
  | 0x01 :: children => countBytes (countOf children + 1)
  | _ => countBytes 0

theorem countOf_countBytes {n : Nat} (hn : n < 65536) (rest : Buf) :
    countOf (countBytes n ++ rest) = n := by
  simp only [countBytes, List.cons_append, countOf, UInt8.toNat_ofNat']
  omega

theorem countBytes_injective {n n' : Nat} (hn : n < 65536) (hn' : n' < 65536)
    (h : countBytes n = countBytes n') : n = n' := by
  rw [← countOf_countBytes hn [], ← countOf_countBytes hn' [], h]

@[simp] theorem length_countBytes (n : Nat) : (countBytes n).length = 32 := rfl

theorem length_countSha (b : Buf) : (countSha b).length = 32 := by
  unfold countSha
  split <;> simp

theorem nodeHash_countSha {n : Nat} (hn : n < 65536) (right : Buf) :
    nodeHash countSha (countBytes n) right = countBytes (n+1) := by
  simp [nodeHash, countSha, countOf_countBytes hn]

theorem emptyAt_countSha {h : Nat} (hh : h ≤ SMT_DEPTH) : emptyAt countSha h = countBytes h := by
  induction h with
  | zero => rfl
  | succ h ih =>
    unfold SMT_DEPTH at hh ih
    have hstep : emptyAt countSha (h+1) = nodeHash countSha (emptyAt countSha h)
        (emptyAt countSha h) := rfl
    rw [hstep, ih (by omega), nodeHash_countSha (by omega)]

@[simp] theorem bitAt_zeroKey (i : Nat) : bitAt zeroKey i = false := by
  have hbyte : (List.replicate 32 (0 : UInt8)).getD (i >>> 3) 0 = 0 := by
    rw [List.getD_eq_getElem?_getD, List.getElem?_replicate]
    split <;> rfl
  unfold bitAt zeroKey
  rw [hbyte]
  simp

/-- The pairs of the tree whose leaf on the leftmost path counts from `n`. -/
def CountPair (n : Nat) (p : Buf × Buf) : Prop :=
  ∃ h < SMT_DEPTH, p = (countBytes (n+h), countBytes h)

theorem smtNode_countSha {n : Nat} (hn : n < 60000) (height depth : Nat) (hh : height ≤ SMT_DEPTH) :
    smtNode (nodeHash countSha) (emptyLeaf countSha) height depth [(zeroKey, countBytes n)] =
        countBytes (n+height) ∧
      ∀ p ∈ smtPairs countSha height depth [(zeroKey, countBytes n)], CountPair n p := by
  induction height generalizing depth with
  | zero => simp [smtNode, smtPairs]
  | succ height ih =>
    obtain ⟨hnode, hpairs⟩ := ih (depth+1) (by omega)
    have hvacant : smtNode (nodeHash countSha) (emptyLeaf countSha) height (depth+1) [] =
        countBytes height := by
      rw [← emptyAt_countSha (by omega)]
      cases height <;> rfl
    have hsmall : n + height < 65536 := by
      unfold SMT_DEPTH at hh
      omega
    constructor
    · simp [smtNode, hnode, nodeHash_countSha hsmall, Nat.add_assoc]
    · intro p hp
      simp only [smtPairs, bitAt_zeroKey, List.filter_cons, List.filter_nil, Bool.not_false, if_true,
        Bool.false_eq_true, if_false, hnode, hvacant, List.append_nil, List.mem_cons] at hp
      rcases hp with rfl | hp
      · exact ⟨height, hh, rfl⟩
      · exact hpairs p hp

/-- The climb from a leaf that counts from `n` over the siblings of that tree. -/
theorem climb_countSha {n : Nat} (hn : n < 60000) (v : Buf) (height depth : Nat)
    (hh : height ≤ SMT_DEPTH) :
    let path := climb (nodeHash countSha) (emptyLeaf countSha) zeroKey depth
      (proveFrom countSha zeroKey height depth [(zeroKey, v)]) (countBytes n)
    path.cur = countBytes (n+height) ∧ ∀ p ∈ path.hashed, CountPair n p := by
  induction height generalizing depth with
  | zero => simp [proveFrom, climb]
  | succ height ih =>
    obtain ⟨hcur, hpairs⟩ := ih (depth+1) (by omega)
    have hvacant : smtNode (nodeHash countSha) (emptyLeaf countSha) height (depth+1) [] =
        countBytes height := by
      rw [← emptyAt_countSha (by omega)]
      cases height <;> rfl
    have hsmall : n + height < 65536 := by
      unfold SMT_DEPTH at hh
      omega
    simp only [proveFrom, bitAt_zeroKey, List.filter_cons, List.filter_nil, Bool.not_false, if_true,
      Bool.false_eq_true, if_false, climb, children, hcur, hvacant, List.mem_append,
      List.mem_singleton]
    refine ⟨by rw [nodeHash_countSha hsmall, Nat.add_assoc], fun p hp => ?_⟩
    rcases hp with hp | rfl
    · exact hpairs p hp
    · exact ⟨height, hh, rfl⟩

/-- A hash that counts tells the pairs of such trees and of the EMPTY table apart. -/
theorem countSha_injOn : Set.InjOn countSha
    {b | ∃ p : Buf × Buf, (CountPair 0 p ∨ CountPair 1000 p) ∧ b = 0x01 :: (p.1 ++ p.2)} := by
  have hform : ∀ b, (∃ p : Buf × Buf, (CountPair 0 p ∨ CountPair 1000 p) ∧
      b = 0x01 :: (p.1 ++ p.2)) → ∃ n h, (n = 0 ∨ n = 1000) ∧ h < 256 ∧
        b = 0x01 :: (countBytes (n+h) ++ countBytes h) := by
    rintro b ⟨p, ⟨h, hh, rfl⟩ | ⟨h, hh, rfl⟩, rfl⟩
    · exact ⟨0, h, .inl rfl, hh, rfl⟩
    · exact ⟨1000, h, .inr rfl, hh, rfl⟩
  intro b hb b' hb' hsame
  obtain ⟨n, h, hn, hh, rfl⟩ := hform b hb
  obtain ⟨n', h', hn', hh', rfl⟩ := hform b' hb'
  simp only [countSha, countOf_countBytes (show n + h < 65536 by omega),
    countOf_countBytes (show n' + h' < 65536 by omega)] at hsame
  have hcount := countBytes_injective (by omega) (by omega) hsame
  obtain rfl : h = h' := by omega
  obtain rfl : n = n' := by omega
  rfl

def oneLeaf : SparseMerkleTree Buf := SparseMerkleTree.empty.put zeroKey (countBytes 1000)

theorem oneLeaf_leaves : oneLeaf.leaves = [(zeroKey, countBytes 1000)] := rfl

/-- The proof of the one leaf is accepted, and says what the tree has. -/
theorem one_leaf_proved : oneLeaf.get zeroKey = some (countBytes 1000) := by
  have hsiblings : ((oneLeaf.prove countSha zeroKey).siblings.map some).reduceOption.map fromHex =
      proveFrom countSha zeroKey SMT_DEPTH 0 [(zeroKey, countBytes 1000)] := by
    rw [show ∀ xs : List String, (xs.map some).reduceOption = xs by
      intro xs
      simp [List.reduceOption]]
    simp [SparseMerkleTree.prove, oneLeaf_leaves, Function.comp_def]
  have h := smt_proof_sound countSha length_countSha oneLeaf
    (by
      intro k v hv
      rw [oneLeaf, SparseMerkleTree.get_put] at hv
      by_cases hk : k = zeroKey
      · subst hk
        rw [Function.update_self] at hv
        cases hv
        exact ⟨rfl, by decide⟩
      · simp [Function.update_of_ne hk] at hv)
    zeroKey (some (toHex (countBytes 1000)))
    (by
      rintro v ⟨⟩
      rw [fromHex_toHex]
      exact ⟨rfl, by decide⟩)
    ((oneLeaf.prove countSha zeroKey).siblings.map some)
    (by
      apply countSha_injOn.mono
      intro b hb
      obtain ⟨p, hp, rfl⟩ := List.mem_map.mp hb
      refine ⟨p, ?_, rfl⟩
      simp only [List.mem_append] at hp
      rcases hp with (hp | hp) | hp
      · obtain ⟨h, hh, rfl⟩ := List.mem_map.mp hp
        have hh := List.mem_range.mp hh
        refine .inl ⟨h, hh, ?_⟩
        rw [emptyAt_countSha hh.le, Nat.zero_add]
      · rw [oneLeaf_leaves] at hp
        exact .inr ((smtNode_countSha (by omega) SMT_DEPTH 0 le_rfl).2 p hp)
      · rw [verifiedPairs, hsiblings, Option.elim_some, fromHex_toHex] at hp
        exact .inr ((climb_countSha (by omega) _ SMT_DEPTH 0 le_rfl).2 p hp))
    (.inl (verifySmtProof_prove oneLeaf zeroKey))
  rw [h]
  simp

end Spec

end XChainSync.Merkle
