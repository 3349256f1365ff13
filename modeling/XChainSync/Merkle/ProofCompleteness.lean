import XChainSync.Merkle.SmtProofs

/-!
# The proofs of both trees, and their compressed form

The reference tree proves from its entries and the persistent tree from the rows of its store. At
the root of one map they give the same proof, and its compressed form decompresses to it.
-/

namespace XChainSync.Merkle
set_option autoImplicit false
open HashTree Bytes

section Compression
variable (sha256 : Buf → Buf) (siblings : List String)

/-- The sibling at a depth is no EMPTY constant. -/
def isReal (d : Nat) : Bool :=
  fromHex (siblings.getD d "") ≠ emptyAt sha256 (SMT_DEPTH - 1 - d)

/-- One turn of `compressSmtProof` where the sibling is there. -/
def packPresent (acc : Packed) (d : Nat) : Packed :=
  if isReal sha256 siblings d then
    ⟨setFlag acc.bitmap d, acc.real ++ [toHex (fromHex (siblings.getD d ""))]⟩
  else acc

/-- The loop of `compressSmtProof` after `n` turns. -/
def packedAfter (n : Nat) : Packed :=
  (List.range n).foldl (packPresent sha256 siblings) ⟨List.replicate 32 0, []⟩

variable {sha256 siblings}

theorem packSibling_eq {acc : Packed} {d : Nat} (hd : d < siblings.length) :
    packSibling sha256 siblings acc d = .ok (packPresent sha256 siblings acc d) := by
  have hget : siblings[d]? = some (siblings.getD d "") := by
    rw [List.getD_eq_getElem?_getD, List.getElem?_eq_getElem hd, Option.getD_some]
  unfold packSibling packPresent isReal
  rw [hget]
  generalize siblings.getD d "" = s
  by_cases hempty : fromHex s = emptyAt sha256 (SMT_DEPTH - 1 - d)
  · simp [hempty]
  · simp [hempty]

theorem packedAfter_succ (n : Nat) : packedAfter sha256 siblings (n+1) =
    packPresent sha256 siblings (packedAfter sha256 siblings n) n := by
  simp [packedAfter, List.range_succ]

theorem packSibling_foldlM {n : Nat} (hn : n ≤ siblings.length) :
    (List.range n).foldlM (packSibling sha256 siblings) ⟨List.replicate 32 0, []⟩ =
      .ok (packedAfter sha256 siblings n) := by
  induction n with
  | zero => rfl
  | succ n ih =>
    rw [List.range_succ, List.foldlM_append, ih (by omega), packedAfter_succ]
    exact (bind_pure _).trans (packSibling_eq (by omega))

@[simp] theorem length_packed_bitmap (n : Nat) :
    (packedAfter sha256 siblings n).bitmap.length = 32 := by
  induction n with
  | zero => simp [packedAfter]
  | succ n ih =>
    rw [packedAfter_succ, packPresent]
    split
    · simpa using ih
    · exact ih

variable (sha256 siblings)

/-- The flags set so far are those of the real siblings so far. -/
theorem getFlag_packed {n : Nat} (hn : n ≤ SMT_DEPTH) (j : Nat) :
    getFlag (packedAfter sha256 siblings n).bitmap j =
      (decide (j < n) && isReal sha256 siblings j) := by
  induction n with
  | zero =>
    have hzero : getFlag (List.replicate 32 0) j = false := by
      rw [getFlag_eq_testBit, List.getD_eq_getElem?_getD, List.getElem?_replicate]
      split <;> simp
    simpa [packedAfter] using hzero
  | succ n ih =>
    have hbound : n < 8 * (packedAfter sha256 siblings n).bitmap.length := by
      rw [length_packed_bitmap]
      unfold SMT_DEPTH at hn
      omega
    rw [packedAfter_succ, packPresent]
    split
    · rename_i hreal
      rw [getFlag_setFlag hbound, ih (by omega)]
      by_cases hj : j = n
      · subst j
        simp [hreal]
      · have hlt : (j < n + 1) = (j < n) := by
          rw [eq_iff_iff]
          omega
        simp [hlt, Ne.symm hj]
    · rename_i hreal
      rw [ih (by omega)]
      by_cases hj : j = n
      · subst j
        simp [hreal]
      · have hlt : (j < n + 1) = (j < n) := by
          rw [eq_iff_iff]
          omega
        simp only [hlt]

theorem packed_real_mono {n n' : Nat} (h : n ≤ n') :
    (packedAfter sha256 siblings n).real <+: (packedAfter sha256 siblings n').real := by
  induction n', h using Nat.le_induction with
  | base => exact List.prefix_refl _
  | succ n' _ ih =>
    apply ih.trans
    rw [packedAfter_succ, packPresent]
    split
    · exact List.prefix_append _ _
    · exact List.prefix_refl _

/-- The loop of `decompressSmtProof` reads back what the loop of `compressSmtProof` wrote. -/
theorem unpack_packed {n : Nat} (hn : n ≤ SMT_DEPTH) :
    (List.range n).foldl (unpackSibling sha256 (packedAfter sha256 siblings SMT_DEPTH).bitmap
        (packedAfter sha256 siblings SMT_DEPTH).real) (0, []) =
      ((packedAfter sha256 siblings n).real.length,
        (List.range n).map fun d => some (toHex (fromHex (siblings.getD d "")))) := by
  induction n with
  | zero => rfl
  | succ n ih =>
    have hflag := getFlag_packed sha256 siblings le_rfl n
    rw [List.range_succ, List.foldl_append, ih (by omega), List.map_append]
    simp only [List.foldl_cons, List.foldl_nil, unpackSibling, hflag, show n < SMT_DEPTH from hn,
      decide_true, Bool.true_and]
    cases hreal : isReal sha256 siblings n with
    | true =>
      -- the next real sibling is the one the packing loop adds at this depth
      have hnext : (packedAfter sha256 siblings (n+1)).real =
          (packedAfter sha256 siblings n).real ++ [toHex (fromHex (siblings.getD n ""))] := by
        rw [packedAfter_succ, packPresent, if_pos hreal]
      obtain ⟨rest, hrest⟩ := packed_real_mono sha256 siblings hn
      rw [← hrest, hnext]
      simp
    | false =>
      have hsame : (packedAfter sha256 siblings (n+1)).real =
          (packedAfter sha256 siblings n).real := by
        rw [packedAfter_succ, packPresent, if_neg (by simp [hreal])]
      have hempty : fromHex (siblings.getD n "") = emptyAt sha256 (SMT_DEPTH - 1 - n) := by
        simpa [isReal] using hreal
      simp only [hsame, List.map_cons, List.map_nil, hempty, Bool.false_eq_true, if_false]

variable {sha256 siblings}

/-- What is decompressed is each sibling as `toHex` writes its bytes. -/
theorem decompress_compress (hlength : siblings.length = SMT_DEPTH) :
    ∃ c, compressSmtProof sha256 siblings = .ok c ∧ decompressSmtProof sha256 c =
      .ok (siblings.map fun s => some (toHex (fromHex s))) := by
  refine ⟨⟨toHex (packedAfter sha256 siblings SMT_DEPTH).bitmap,
    (packedAfter sha256 siblings SMT_DEPTH).real⟩, ?_, ?_⟩
  · rw [compressSmtProof, packSibling_foldlM hlength.ge]
    rfl
  · have hmap : (List.range SMT_DEPTH).map (fun d => some (toHex (fromHex (siblings.getD d "")))) =
        siblings.map fun s => some (toHex (fromHex s)) := by
      apply List.ext_getElem
      · simp [hlength]
      · intro i hi hi'
        simp only [List.length_map] at hi'
        simp [hi']
    unfold decompressSmtProof
    rw [fromHex_toHex, unpack_packed _ _ le_rfl, hmap]
    simp

theorem decompress_compress_of_isHex (hlength : siblings.length = SMT_DEPTH)
    (hhex : ∀ s ∈ siblings, IsHex s) :
    ∃ c, compressSmtProof sha256 siblings = .ok c ∧
      decompressSmtProof sha256 c = .ok (siblings.map some) := by
  obtain ⟨c, hcompress, hdecompress⟩ := @decompress_compress sha256 siblings hlength
  have hsame : (siblings.map fun s => some (toHex (fromHex s))) = siblings.map some :=
    List.map_congr_left fun s hs => congrArg some (toHex_fromHex (hhex s hs))
  exact ⟨c, hcompress, hsame ▸ hdecompress⟩

end Compression

/-! ### One proof from two provers -/

section Provers
variable {sha256 : Buf → Buf}

theorem prove_siblings (t : SparseMerkleTree Buf) (key : Key) :
    (t.prove sha256 key).siblings =
      (siblings bitAt (nodeHash sha256) (emptyLeaf sha256) SMT_DEPTH 0 t.get key).map toHex := by
  rw [SparseMerkleTree.prove, proveFrom_leaves]

/-- The compressed form of a proof is accepted. -/
theorem verifyCompressed_prove (t : SparseMerkleTree Buf) (key : Key) :
    ∃ c, (t.prove sha256 key).compressed = .ok c ∧
      verifyCompressedSmtProof sha256 (toHex (t.root (nodeHash sha256) (emptyLeaf sha256))) key
        (t.prove sha256 key).leaf_value c = .ok true := by
  have hlength : (t.prove sha256 key).siblings.length = SMT_DEPTH := by
    rw [prove_siblings, List.length_map, siblings_length]
  have hhex : ∀ s ∈ (t.prove sha256 key).siblings, IsHex s := by
    intro s hs
    rw [prove_siblings] at hs
    obtain ⟨sib, -, rfl⟩ := List.mem_map.mp hs
    exact isHex_toHex sib
  obtain ⟨c, hcompress, hdecompress⟩ := decompress_compress_of_isHex hlength hhex
  refine ⟨c, hcompress, ?_⟩
  unfold verifyCompressedSmtProof
  rw [hdecompress]
  have hverify := @verifySmtProof_prove sha256 t key
  simpa only [bind, Except.bind] using hverify

/-- On a store that stands for the map of the tree, the descent proves what the tree proves. -/
theorem provePersistent_eq {P : Buf → Buf → Prop} {Leaf : Buf → Prop}
    (hB : Binding (nodeHash sha256) (emptyLeaf sha256) P Leaf SMT_DEPTH) {store : NodeStore Buf}
    (hR : RowsHashed (nodeHash sha256) P store.get) {root : Buf} {t : SparseMerkleTree Buf}
    (hm : Holds (nodeHash sha256) (emptyLeaf sha256) P Leaf store root t.get) (key : Key) :
    provePersistent sha256 store root key = t.prove sha256 key := by
  have hfound := descend_stored hB hR hm.stored key
  rw [← hm.root_eq] at hfound
  have hleaf : (if (t.get key).getD (emptyLeaf sha256) ≠ emptyLeaf sha256 then
      some (toHex ((t.get key).getD (emptyLeaf sha256))) else none) = (t.get key).map toHex := by
    cases hget : t.get key with
    | none => simp
    | some v => simp [hB.leaf_ne (hm.leaves key v hget)]
  simp only [provePersistent, hfound, hleaf, SparseMerkleTree.prove, proveFrom_leaves]

/-- Both provers return one proof at the root of one map, and its compressed form is accepted and
decompresses to its siblings. -/
theorem smt_proofs_complete (sha256 : Buf → Buf) (calls : List (Call Buf))
    (hinj : InjectiveOnApplied (nodeHash sha256) (emptyLeaf sha256) calls)
    (hne : ∀ c ∈ calls, ∀ v ∈ c.leaves, v ≠ emptyLeaf sha256) :
    let s := (Session.start (nodeHash sha256) (emptyLeaf sha256)).run (nodeHash sha256)
      (emptyLeaf sha256) calls
    (∀ b ∈ s.branches, ∀ t : SparseMerkleTree Buf, (∀ k, t.get k = b.tree.get k) → ∀ key,
      provePersistent sha256 s.store b.root key = t.prove sha256 key ∧
      ∃ c, (t.prove sha256 key).compressed = .ok c ∧
        verifyCompressedSmtProof sha256 (toHex b.root) key (t.prove sha256 key).leaf_value c =
          .ok true) ∧
    ∀ siblings : List String, siblings.length = SMT_DEPTH → (∀ s ∈ siblings, IsHex s) →
      ∃ c, compressSmtProof sha256 siblings = .ok c ∧
        decompressSmtProof sha256 c = .ok (siblings.map some) := by
  intro s
  obtain ⟨hB, hs⟩ := session_spec hinj hne
  refine ⟨?_, fun siblings hlength hhex => decompress_compress_of_isHex hlength hhex⟩
  intro b hb t ht key
  have hm := hs.holds b hb
  rw [← funext ht] at hm
  refine ⟨provePersistent_eq hB hs.hashed hm key, ?_⟩
  rw [hm.root_eq, ← SparseMerkleTree.root_eq_treeHash]
  exact verifyCompressed_prove t key

end Provers

/-! ### What the compression and the delete-on-zero rule lose -/

theorem descendFrom_nil (sha256 : Buf → Buf) (root : Buf) (key : Key) (height depth : Nat) :
    descendFrom (nodeHash sha256) (emptyLeaf sha256) [] key (height+1) depth (some root) =
      (siblings bitAt (nodeHash sha256) (emptyLeaf sha256) (height+1) depth (fun _ => none) key,
        emptyLeaf sha256) := by
  have hvacant : Vacant fun _ : Key => (none : Option Buf) := fun _ => rfl
  have hget : NodeStore.get ([] : NodeStore Buf) root = none := rfl
  rw [descendFrom, hget, ← descendFrom_none [] key hvacant (height+1) depth, descendFrom]

/-- Climbing from `EMPTY[0]` over the siblings of the empty map reaches EMPTY constants only, and
those get no row. -/
theorem climb_vacant (sha256 : Buf → Buf) (key : Key) {m : Key → Option Buf} (hm : Vacant m)
    (height depth : Nat) :
    let path := climb (nodeHash sha256) (emptyLeaf sha256) key depth
      (siblings bitAt (nodeHash sha256) (emptyLeaf sha256) height depth m key) (emptyLeaf sha256)
    path.cur = emptyAt sha256 height ∧ path.pending = [] := by
  induction height generalizing depth m with
  | zero => exact ⟨rfl, rfl⟩
  | succ height ih =>
    obtain ⟨hcur, hpending⟩ := ih (vacant_side bitAt hm depth (bitAt key depth)) (depth+1)
    have hsib : treeHash bitAt (nodeHash sha256) (emptyLeaf sha256) height (depth+1)
        (side bitAt m depth (!bitAt key depth)) = emptyAt sha256 height :=
      treeHash_vacant bitAt _ _ (vacant_side bitAt hm depth _) height (depth+1)
    have hparent : nodeHash sha256 (emptyAt sha256 height) (emptyAt sha256 height) =
        emptyAt sha256 (height+1) := rfl
    simp only [siblings, climb, hcur, hsib, children, ite_self, hparent, siblings_length, hpending]
    exact ⟨trivial, if_pos rfl⟩

/-- Hex in upper case comes back in lower case; a leaf `EMPTY[0]` is there for the reference tree and
absent for the persistent one, at the same root. -/
theorem proofs_disagree :
    (∀ sha256 : Buf → Buf, ¬ ∀ siblings : List String, siblings.length = SMT_DEPTH →
      (∀ s ∈ siblings, s.length = 64 ∧ (fromHex s).length = 32) →
        ∃ c, compressSmtProof sha256 siblings = .ok c ∧
          decompressSmtProof sha256 c = .ok (siblings.map some)) ∧
    ∀ sha256 : Buf → Buf,
      let t := SparseMerkleTree.empty.put zeroKey (emptyLeaf sha256)
      let written := update (nodeHash sha256) (emptyLeaf sha256) []
        (EMPTY_SMT_ROOT (nodeHash sha256) (emptyLeaf sha256)) zeroKey (some (emptyLeaf sha256))
      written.root = t.root (nodeHash sha256) (emptyLeaf sha256) ∧
      (provePersistent sha256 written.store written.root zeroKey).leaf_value = none ∧
      (t.prove sha256 zeroKey).leaf_value = some (toHex (emptyLeaf sha256)) := by
  refine ⟨fun sha256 h => ?_, fun sha256 => ?_⟩
  · let upper := String.ofList (List.replicate 64 'A')
    have hlength : (List.replicate SMT_DEPTH upper).length = SMT_DEPTH := List.length_replicate
    obtain ⟨c, hcompress, hsame⟩ := h _ hlength fun s hs => by
      rw [List.eq_of_mem_replicate hs]
      exact ⟨by decide, by decide⟩
    obtain ⟨c', hcompress', hlower⟩ := @decompress_compress sha256 _ hlength
    obtain rfl : c = c' := by simpa [hcompress] using hcompress'
    rw [hsame] at hlower
    have hfirst := congrArg (fun r => r.toOption.bind fun ss => ss[0]?) hlower
    have hcase : toHex (fromHex upper) ≠ upper := by decide
    simp only [Except.toOption, Option.bind_some, List.getElem?_map, List.getElem?_replicate,
      SMT_DEPTH, show 0 < 256 by decide, if_true, Option.map_some, Option.some.injEq] at hfirst
    exact hcase hfirst.symm
  · intro t written
    have hvacant : Vacant fun _ : Key => (none : Option Buf) := fun _ => rfl
    obtain ⟨hcur, hpending⟩ := climb_vacant sha256 zeroKey hvacant SMT_DEPTH 0
    have hdescend : ∀ root, descend (nodeHash sha256) (emptyLeaf sha256) [] root zeroKey =
        (siblings bitAt (nodeHash sha256) (emptyLeaf sha256) SMT_DEPTH 0 (fun _ => none) zeroKey,
          emptyLeaf sha256) := fun root => descendFrom_nil sha256 root zeroKey 255 0
    have hstore : written.store = [] := by
      simp only [written, update, hdescend, Option.getD_some, hpending]
      rfl
    have hget : t.get = Function.update (fun _ => none) zeroKey (some (emptyLeaf sha256)) :=
      SparseMerkleTree.get_put SparseMerkleTree.empty zeroKey (emptyLeaf sha256)
    have hunder : Under bitAt zeroKey 0 fun _ : Key => (none : Option Buf) :=
      fun _ _ _ hi => absurd hi (by omega)
    refine ⟨?_, ?_, ?_⟩
    · rw [SparseMerkleTree.root_eq_treeHash, hget,
        ← climb_siblings _ _ SMT_DEPTH (by omega) hunder (some (emptyLeaf sha256))]
      simp only [written, update, hdescend]
    · rw [hstore]
      simp [provePersistent, hdescend]
    · simp [SparseMerkleTree.prove, hget]

theorem proveFrom_zeroKey (sha256 : Buf → Buf) (v : Buf) (height depth : Nat) :
    proveFrom sha256 zeroKey height depth [(zeroKey, v)] =
      proveFrom sha256 zeroKey height depth [] := by
  induction height generalizing depth with
  | zero => rfl
  | succ height ih => simp [proveFrom, ih]

/-- The tree with one leaf, written by one update. -/
theorem one_leaf_proofs :
    let s := (Session.start (nodeHash countSha) (emptyLeaf countSha)).run (nodeHash countSha)
      (emptyLeaf countSha) [.update 0 zeroKey (some (countBytes 1000))]
    ∃ b ∈ s.branches, b.tree = oneLeaf ∧
      provePersistent countSha s.store b.root zeroKey = oneLeaf.prove countSha zeroKey := by
  intro s
  have h := smt_proofs_complete countSha [.update 0 zeroKey (some (countBytes 1000))]
    (by
      have hpairs : ∀ p ∈ appliedPairs (nodeHash countSha) (emptyLeaf countSha)
          [.update 0 zeroKey (some (countBytes 1000))], CountPair 0 p ∨ CountPair 1000 p := by
        intro p hp
        rcases List.mem_append.mp hp with hp | hp
        · obtain ⟨h, hh, rfl⟩ := List.mem_map.mp hp
          have hh := List.mem_range.mp hh
          have hempty := emptyAt_countSha hh.le
          unfold emptyAt at hempty
          exact .inl ⟨h, hh, by rw [hempty, Nat.zero_add]⟩
        · have hdescend : (descend (nodeHash countSha) (emptyLeaf countSha) []
              (EMPTY_SMT_ROOT (nodeHash countSha) (emptyLeaf countSha)) zeroKey).1 =
              proveFrom countSha zeroKey SMT_DEPTH 0 [(zeroKey, countBytes 1000)] := by
            rw [proveFrom_zeroKey]
            exact (congrArg Prod.fst (descendFrom_nil countSha _ zeroKey 255 0)).trans
              (proveFrom_leaves SparseMerkleTree.empty zeroKey).symm
          have hclimb := @climb_countSha 1000 (by omega) (countBytes 1000) SMT_DEPTH 0 le_rfl
          simp only [Session.run, List.foldl_cons, List.foldl_nil, Session.call, Session.start,
            List.getElem?_cons_zero, update, List.nil_append, Option.getD_some, hdescend] at hp
          exact .inr (hclimb.2 p hp)
      intro p hp q hq hsame
      have hinput := countSha_injOn ⟨p, hpairs p hp, rfl⟩ ⟨q, hpairs q hq, rfl⟩ hsame
      have hlength : p.1.length = q.1.length := by
        rcases hpairs p hp with ⟨h, -, rfl⟩ | ⟨h, -, rfl⟩ <;>
        rcases hpairs q hq with ⟨h', -, rfl⟩ | ⟨h', -, rfl⟩ <;> rfl
      exact Prod.ext_iff.mpr (List.append_inj (List.cons.inj hinput).2 hlength))
    (by
      intro c hc v hv
      obtain rfl := List.mem_singleton.mp hc
      obtain rfl : v = countBytes 1000 := by simpa [Call.leaves] using hv
      decide)
  have hmem : (⟨(update (nodeHash countSha) (emptyLeaf countSha) []
      (EMPTY_SMT_ROOT (nodeHash countSha) (emptyLeaf countSha)) zeroKey
      (some (countBytes 1000))).root, oneLeaf⟩ : Branch Buf) ∈ s.branches :=
    List.mem_append_right _ (List.mem_singleton.mpr rfl)
  exact ⟨_, hmem, rfl, (h.1 _ hmem oneLeaf (fun _ => rfl) zeroKey).1⟩

end XChainSync.Merkle
