import XChainSync.Merkle.SparseMerkleTree

/-!
# The persistent sparse Merkle tree

`descend`, `update` and `buildFull` of src/state_commitment/index.js over one content-addressed
node store. Every call is pure state passing here: it returns the new root, the store with the
path's rows in it and the pairs it handed to `nodeHash`. `Session` runs any sequence of calls
over one store, each from an earlier root, next to the reference tree of that branch.
-/

namespace XChainSync.Merkle
set_option autoImplicit false
open HashTree

universe u
variable {Digest : Type u}

/-- A row of `state_tree_nodes`. -/
structure NodeRow (Digest : Type u) where
  hash : Digest
  left : Digest
  right : Digest

/-- The rows in insertion order; `node_hash` is the primary key. -/
abbrev NodeStore (Digest : Type u) := List (NodeRow Digest)

namespace NodeStore
variable [DecidableEq Digest]

def get (store : NodeStore Digest) (hash : Digest) : Option (Digest × Digest) :=
  (store.find? fun row => row.hash = hash).map fun row => (row.left, row.right)

/-- INSERT IGNORE: a row whose hash is there already is dropped. -/
def put (store : NodeStore Digest) (row : NodeRow Digest) : NodeStore Digest :=
  if (store.get row.hash).isSome then store else store ++ [row]

def putMany (store : NodeStore Digest) (rows : List (NodeRow Digest)) : NodeStore Digest :=
  rows.foldl put store

theorem get_append (store : NodeStore Digest) (row : NodeRow Digest) (h : Digest) :
    get (store ++ [row]) h =
      (store.get h).or (if row.hash = h then some (row.left, row.right) else none) := by
  unfold get
  rw [List.find?_append]
  cases hf : store.find? fun r => r.hash = h with
  | some r => simp
  | none => by_cases he : row.hash = h <;> simp [he]

theorem put_extends (store : NodeStore Digest) (row : NodeRow Digest) :
    Extends store.get (store.put row).get := by
  intro h r hr
  unfold put
  split
  · exact hr
  · rw [get_append, hr, Option.some_or]

theorem get_put_cases {store : NodeStore Digest} {row : NodeRow Digest} {h : Digest}
    {r : Digest × Digest} (hr : (store.put row).get h = some r) :
    store.get h = some r ∨ (h = row.hash ∧ r = (row.left, row.right)) := by
  unfold put at hr
  split at hr
  · exact Or.inl hr
  · rw [get_append] at hr
    cases hg : store.get h with
    | some r' => rw [hg, Option.some_or] at hr; exact Or.inl hr
    | none =>
      rw [hg, Option.none_or] at hr
      split at hr
      · rename_i he
        exact Or.inr ⟨he.symm, (Option.some.inj hr).symm⟩
      · simp at hr

theorem putMany_extends (store : NodeStore Digest) (rows : List (NodeRow Digest)) :
    Extends store.get (store.putMany rows).get := by
  induction rows generalizing store with
  | nil => exact fun _ _ h => h
  | cons row rows ih => exact fun h r hr => ih (store.put row) h r (put_extends store row h r hr)

theorem get_putMany_cases {store : NodeStore Digest} {rows : List (NodeRow Digest)} {h : Digest}
    {r : Digest × Digest} (hr : (store.putMany rows).get h = some r) :
    store.get h = some r ∨ ∃ row ∈ rows, h = row.hash ∧ r = (row.left, row.right) := by
  induction rows generalizing store with
  | nil => exact Or.inl hr
  | cons row rows ih =>
    rcases @ih (store.put row) hr with h' | ⟨row', hm, h'⟩
    · rcases get_put_cases h' with h'' | h''
      · exact Or.inl h''
      · exact Or.inr ⟨row, List.mem_cons_self, h''⟩
    · exact Or.inr ⟨row', List.mem_cons_of_mem row hm, h'⟩

theorem get_put_self_isSome (store : NodeStore Digest) (row : NodeRow Digest) :
    ((store.put row).get row.hash).isSome := by
  unfold put
  split
  · assumption
  · rw [get_append]
    cases store.get row.hash <;> simp

theorem get_putMany_isSome (store : NodeStore Digest) {rows : List (NodeRow Digest)}
    {row : NodeRow Digest} (hm : row ∈ rows) : ((store.putMany rows).get row.hash).isSome := by
  induction rows generalizing store with
  | nil => simp at hm
  | cons head rows ih =>
    rcases List.mem_cons.mp hm with rfl | hm
    · obtain ⟨r, hr⟩ := Option.isSome_iff_exists.mp (get_put_self_isSome store row)
      exact Option.isSome_iff_exists.mpr ⟨r, putMany_extends (store.put row) rows _ _ hr⟩
    · exact ih (store.put head) hm

end NodeStore

section Engine
variable [DecidableEq Digest] (nodeHash : Digest → Digest → Digest) (EMPTY0 : Digest)

/-- The loop of `descend` from depth `depth`, `height` levels above the leaves. The current
node is `none` once a missing row has set the loop's `empty` flag. -/
def descendFrom (store : NodeStore Digest) (keyBuf : Key) :
    (height depth : Nat) → Option Digest → List Digest × Digest
  | 0, _, cur => ([], cur.getD EMPTY0)
  | height+1, depth, none =>
      let rest := descendFrom store keyBuf height (depth+1) none
      (EMPTY nodeHash EMPTY0 height :: rest.1, rest.2)
  | height+1, depth, some cur =>
      match store.get cur with
      | none =>
          let rest := descendFrom store keyBuf height (depth+1) none
          (EMPTY nodeHash EMPTY0 height :: rest.1, rest.2)
      | some (left, right) =>
          if bitAt keyBuf depth then
            let rest := descendFrom store keyBuf height (depth+1) (some right)
            (left :: rest.1, rest.2)
          else
            let rest := descendFrom store keyBuf height (depth+1) (some left)
            (right :: rest.1, rest.2)

/-- `descend(rootHex, keyBuf)`: the 256 siblings, top-down, and the current leaf. -/
def descend (store : NodeStore Digest) (root : Digest) (keyBuf : Key) : List Digest × Digest :=
  descendFrom nodeHash EMPTY0 store keyBuf SMT_DEPTH 0 (some root)

/-- What the climb of `update` has produced: the node reached, the rows to write and the
pairs hashed so far. -/
structure Climb (Digest : Type u) where
  cur : Digest
  pending : List (NodeRow Digest)
  hashed : List (Digest × Digest)

/-- The climb of `update` from the leaf up to depth `depth`. -/
def climb (keyBuf : Key) : Nat → List Digest → Digest → Climb Digest
  | _, [], leaf => ⟨leaf, [], []⟩
  | depth, sib :: rest, leaf =>
      let below := climb keyBuf (depth+1) rest leaf
      let pair := children bitAt keyBuf depth sib below.cur
      let parent := nodeHash pair.1 pair.2
      { cur := parent
        -- an all-empty subtree is an EMPTY constant and gets no row
        pending := if parent = EMPTY nodeHash EMPTY0 (rest.length+1) then below.pending
          else below.pending ++ [⟨parent, pair.1, pair.2⟩]
        hashed := below.hashed ++ [pair] }

structure UpdateResult (Digest : Type u) where
  root : Digest
  store : NodeStore Digest
  hashed : List (Digest × Digest)

/-- `update(rootHex, keyBuf, newLeafHexOrNull)`. -/
def update (store : NodeStore Digest) (root : Digest) (keyBuf : Key) (newLeaf : Option Digest) :
    UpdateResult Digest :=
  let siblings := (descend nodeHash EMPTY0 store root keyBuf).1
  let path := climb nodeHash EMPTY0 keyBuf 0 siblings (newLeaf.getD EMPTY0)
  ⟨path.cur, store.putMany path.pending, path.hashed⟩

/-- `buildFull(entries)`: one update after another from the empty root. -/
def buildFull (store : NodeStore Digest) (entries : List (Key × Digest)) : UpdateResult Digest :=
  entries.foldl
    (fun acc e =>
      let next := update nodeHash EMPTY0 acc.store acc.root e.1 (some e.2)
      { next with hashed := acc.hashed ++ next.hashed })
    ⟨EMPTY_SMT_ROOT nodeHash EMPTY0, store, []⟩

end Engine

section Spec
variable [DecidableEq Digest] {nodeHash : Digest → Digest → Digest} {EMPTY0 : Digest}
variable {P : Digest → Digest → Prop} {Leaf : Digest → Prop}

theorem descendFrom_none (store : NodeStore Digest) (k : Key) {m : Key → Option Digest}
    (hm : Vacant m) (height depth : Nat) :
    descendFrom nodeHash EMPTY0 store k height depth none =
      (siblings bitAt nodeHash EMPTY0 height depth m k, EMPTY0) := by
  induction height generalizing depth m with
  | zero => simp [descendFrom, siblings]
  | succ height ih =>
    rw [descendFrom, ih (vacant_side bitAt hm depth (bitAt k depth)) (depth+1)]
    simp only [siblings, EMPTY,
      treeHash_vacant bitAt nodeHash EMPTY0 (vacant_side bitAt hm depth (!bitAt k depth))]

/-- Below an EMPTY constant the descent reads EMPTY constants, with rows or without. -/
theorem descendFrom_vacant (hB : Binding nodeHash EMPTY0 P Leaf SMT_DEPTH)
    {store : NodeStore Digest} (hR : RowsHashed nodeHash P store.get) (k : Key)
    {m : Key → Option Digest} (hm : Vacant m) (height depth : Nat) (hh : height ≤ SMT_DEPTH) :
    descendFrom nodeHash EMPTY0 store k height depth (some (EMPTY nodeHash EMPTY0 height)) =
      (siblings bitAt nodeHash EMPTY0 height depth m k, EMPTY0) := by
  induction height generalizing depth m with
  | zero => simp [descendFrom, siblings, EMPTY, emptyHash]
  | succ height ih =>
    have hsib := treeHash_vacant bitAt nodeHash EMPTY0 (vacant_side bitAt hm depth (!bitAt k depth))
      height (depth+1)
    rw [descendFrom]
    cases hg : store.get (EMPTY nodeHash EMPTY0 (height+1)) with
    | none =>
      rw [descendFrom_none store k (vacant_side bitAt hm depth (bitAt k depth)) height (depth+1)]
      simp only [siblings, EMPTY, hsib]
    | some row =>
      obtain ⟨hP, hnode⟩ := hR _ row.1 row.2 hg
      obtain ⟨hl, hr⟩ := hB.inj hP (hB.empties height (by omega)) hnode
      have hrest := ih (vacant_side bitAt hm depth (bitAt k depth)) (depth+1) (by omega)
      unfold EMPTY at hrest
      dsimp only
      rw [hl, hr, hrest, ite_self]
      simp only [siblings, hsib]

/-- On a store that holds the tree of `m`, the descent reads off the siblings and the leaf. -/
theorem descendFrom_stored (hB : Binding nodeHash EMPTY0 P Leaf SMT_DEPTH)
    {store : NodeStore Digest} (hR : RowsHashed nodeHash P store.get)
    {k : Key} {height depth : Nat} {m : Key → Option Digest} (hd : height + depth = SMT_DEPTH)
    (hs : Stored bitAt nodeHash EMPTY0 store.get height depth m) (hu : Under bitAt k depth m) :
    descendFrom nodeHash EMPTY0 store k height depth
        (some (treeHash bitAt nodeHash EMPTY0 height depth m)) =
      (siblings bitAt nodeHash EMPTY0 height depth m k, (m k).getD EMPTY0) := by
  induction height generalizing depth m with
  | zero =>
    have hu' : Under bitAt k SMT_DEPTH m := by rwa [← hd, Nat.zero_add]
    simp only [descendFrom, siblings, Option.getD_some,
      treeHash_leaf bitAt nodeHash EMPTY0 bitAt_separates hu']
  | succ height ih =>
    have hside := ih (by omega) (hs.side (bitAt k depth)) (hu.side bitAt)
    have hself : side bitAt m depth (bitAt k depth) k = m k := by simp [side]
    rcases hs with hv | ⟨hg, -, -⟩
    · rw [treeHash_vacant bitAt nodeHash EMPTY0 hv, hv k, Option.getD_none]
      exact descendFrom_vacant hB hR k hv (height+1) depth (by omega)
    · rw [descendFrom, hg]
      cases hb : bitAt k depth with
      | false =>
        rw [hb] at hside hself
        simp only [Bool.false_eq_true, if_false, hside, hself, siblings, hb, Bool.not_false]
      | true =>
        rw [hb] at hside hself
        simp only [if_true, hside, hself, siblings, hb, Bool.not_true]

theorem descend_stored (hB : Binding nodeHash EMPTY0 P Leaf SMT_DEPTH)
    {store : NodeStore Digest} (hR : RowsHashed nodeHash P store.get)
    {m : Key → Option Digest} (hs : Stored bitAt nodeHash EMPTY0 store.get SMT_DEPTH 0 m) (k : Key) :
    descend nodeHash EMPTY0 store (treeHash bitAt nodeHash EMPTY0 SMT_DEPTH 0 m) k =
      (siblings bitAt nodeHash EMPTY0 SMT_DEPTH 0 m k, (m k).getD EMPTY0) :=
  descendFrom_stored hB hR (by omega) hs (fun _ _ _ hi => absurd hi (by omega))

omit [DecidableEq Digest] in
theorem siblings_length (height depth : Nat) (m : Key → Option Digest) (k : Key) :
    (siblings bitAt nodeHash EMPTY0 height depth m k).length = height := by
  induction height generalizing depth m with
  | zero => rfl
  | succ height ih => simp [siblings, ih]

variable (nodeHash EMPTY0) in
/-- Climbing the siblings of `m` from a new leaf computes the tree of the updated map. -/
theorem climb_siblings {k : Key} (height : Nat) {depth : Nat} {m : Key → Option Digest}
    (hd : height + depth = SMT_DEPTH) (hu : Under bitAt k depth m) (v : Option Digest) :
    (climb nodeHash EMPTY0 k depth (siblings bitAt nodeHash EMPTY0 height depth m k)
        (v.getD EMPTY0)).cur =
      treeHash bitAt nodeHash EMPTY0 height depth (Function.update m k v) := by
  induction height generalizing depth m with
  | zero =>
    have hu' : Under bitAt k SMT_DEPTH (Function.update m k v) := by
      have h := hu.update bitAt v
      rwa [← hd, Nat.zero_add]
    rw [treeHash_leaf bitAt nodeHash EMPTY0 bitAt_separates hu']
    simp [siblings, climb]
  | succ height ih =>
    have hcur := ih (by omega) (hu.side bitAt)
    rw [treeHash_children bitAt nodeHash EMPTY0 height depth (Function.update m k v) k,
      side_update_same, side_update_other]
    simp only [siblings, climb, hcur]

/-- The pairs of one climb and the old tree's pairs cover the new tree. -/
theorem covered_update {k : Key} {height depth : Nat} {m : Key → Option Digest}
    (hd : height + depth = SMT_DEPTH) (hu : Under bitAt k depth m) (v : Option Digest)
    (hc : Covered bitAt nodeHash EMPTY0 P height depth m)
    (hP : ∀ p ∈ (climb nodeHash EMPTY0 k depth (siblings bitAt nodeHash EMPTY0 height depth m k)
        (v.getD EMPTY0)).hashed, P p.1 p.2) :
    Covered bitAt nodeHash EMPTY0 P height depth (Function.update m k v) := by
  induction height generalizing depth m with
  | zero => trivial
  | succ height ih =>
    obtain ⟨-, hf, ht⟩ := hc
    have hcur := climb_siblings nodeHash EMPTY0 height (by omega) (hu.side bitAt) v
    simp only [siblings, climb, hcur, List.mem_append, List.mem_singleton] at hP
    have hpair := hP _ (Or.inr rfl)
    have hon : Covered bitAt nodeHash EMPTY0 P height (depth+1)
        (Function.update (side bitAt m depth (bitAt k depth)) k v) := by
      apply ih (by omega) (hu.side bitAt)
      · cases hb : bitAt k depth
        · exact hf
        · exact ht
      · exact fun p hp => hP p (Or.inl hp)
    rw [← side_update_same] at hpair hon
    rw [← side_update_other bitAt m depth k v] at hpair
    unfold Covered
    cases hb : bitAt k depth with
    | false =>
      simp only [children, hb, Bool.not_false, Bool.false_eq_true, if_false] at hpair hon
      have hoff : side bitAt (Function.update m k v) depth true = side bitAt m depth true := by
        simpa [hb] using side_update_other bitAt m depth k v
      exact ⟨hpair, hon, hoff ▸ ht⟩
    | true =>
      simp only [children, hb, Bool.not_true, if_true] at hpair hon
      have hoff : side bitAt (Function.update m k v) depth false = side bitAt m depth false := by
        simpa [hb] using side_update_other bitAt m depth k v
      exact ⟨hpair, hoff ▸ hf, hon⟩

/-- Every row of a climb is hashed from its own children. -/
theorem climb_pending {k : Key}
    {height depth : Nat} {m : Key → Option Digest} (hd : height + depth = SMT_DEPTH)
    (hu : Under bitAt k depth m) (v : Option Digest)
    (hc : Covered bitAt nodeHash EMPTY0 P height depth (Function.update m k v)) :
    ∀ row ∈ (climb nodeHash EMPTY0 k depth (siblings bitAt nodeHash EMPTY0 height depth m k)
        (v.getD EMPTY0)).pending,
      P row.left row.right ∧ nodeHash row.left row.right = row.hash := by
  induction height generalizing depth m with
  | zero => simp [siblings, climb]
  | succ height ih =>
    have hcur := climb_siblings nodeHash EMPTY0 height (by omega) (hu.side bitAt) v
    have hpath := treeHash_children bitAt nodeHash EMPTY0 height depth (Function.update m k v) k
    rw [side_update_same, side_update_other] at hpath
    have hon : Covered bitAt nodeHash EMPTY0 P height (depth+1)
        (Function.update (side bitAt m depth (bitAt k depth)) k v) := by
      rw [← side_update_same]
      cases hb : bitAt k depth
      · exact hc.2.1
      · exact hc.2.2
    have hbelow := ih (by omega) (hu.side bitAt) hon
    have hP : P (children bitAt k depth
          (treeHash bitAt nodeHash EMPTY0 height (depth+1) (side bitAt m depth (!bitAt k depth)))
          (treeHash bitAt nodeHash EMPTY0 height (depth+1)
            (Function.update (side bitAt m depth (bitAt k depth)) k v))).1
        (children bitAt k depth
          (treeHash bitAt nodeHash EMPTY0 height (depth+1) (side bitAt m depth (!bitAt k depth)))
          (treeHash bitAt nodeHash EMPTY0 height (depth+1)
            (Function.update (side bitAt m depth (bitAt k depth)) k v))).2 := by
      have h := hc.1
      rw [← side_update_same, ← side_update_other bitAt m depth k v]
      cases hb : bitAt k depth <;> simpa [children, hb] using h
    intro row hrow
    simp only [siblings, climb, hcur, ← hpath, siblings_length] at hrow
    split at hrow
    · exact hbelow row hrow
    · rcases List.mem_append.mp hrow with hrow | hrow
      · exact hbelow row hrow
      · rw [List.mem_singleton.mp hrow]
        exact ⟨hP, hpath.symm⟩

/-- Once the rows of a climb are in the store, the path of the updated map is. -/
theorem climb_pathStored (hB : Binding nodeHash EMPTY0 P Leaf SMT_DEPTH) {k : Key}
    {height depth : Nat} {m : Key → Option Digest} (hd : height + depth = SMT_DEPTH)
    (hu : Under bitAt k depth m) (v : Option Digest)
    (hc : Covered bitAt nodeHash EMPTY0 P height depth (Function.update m k v))
    (hl : Leaves Leaf (Function.update m k v)) {get : Digest → Option (Digest × Digest)}
    (hget : ∀ row ∈ (climb nodeHash EMPTY0 k depth
        (siblings bitAt nodeHash EMPTY0 height depth m k) (v.getD EMPTY0)).pending,
      get row.hash = some (row.left, row.right)) :
    PathStored bitAt nodeHash EMPTY0 get k height depth (Function.update m k v) := by
  induction height generalizing depth m with
  | zero => trivial
  | succ height ih =>
    have hcur := climb_siblings nodeHash EMPTY0 height (by omega) (hu.side bitAt) v
    have hpath := treeHash_children bitAt nodeHash EMPTY0 height depth (Function.update m k v) k
    rw [side_update_same, side_update_other] at hpath
    simp only [siblings, climb, hcur, ← hpath, siblings_length] at hget
    have hon : Covered bitAt nodeHash EMPTY0 P height (depth+1)
        (Function.update (side bitAt m depth (bitAt k depth)) k v) := by
      rw [← side_update_same]
      cases hb : bitAt k depth
      · exact hc.2.1
      · exact hc.2.2
    constructor
    · by_cases hv : Vacant (Function.update m k v)
      · exact Or.inl hv
      · have hne : treeHash bitAt nodeHash EMPTY0 (height+1) depth (Function.update m k v) ≠
            EMPTY nodeHash EMPTY0 (height+1) :=
          fun heq => hv (vacant_of_treeHash_eq hB (by omega) hc hl heq)
        rw [if_neg hne] at hget
        refine Or.inr ?_
        rw [hget _ (List.mem_append.mpr (Or.inr (List.mem_singleton.mpr rfl)))]
        rw [← side_update_same, ← side_update_other bitAt m depth k v]
        cases hb : bitAt k depth <;> simp [children, hb]
    · rw [side_update_same]
      apply ih (by omega) (hu.side bitAt) hon
      · rw [← side_update_same]; exact hl.side depth _
      · intro row hrow
        apply hget
        split
        · exact hrow
        · exact List.mem_append.mpr (Or.inl hrow)

/-- A root of a store stands for a key-to-leaf map. -/
structure Holds (nodeHash : Digest → Digest → Digest) (EMPTY0 : Digest)
    (P : Digest → Digest → Prop) (Leaf : Digest → Prop) (store : NodeStore Digest)
    (root : Digest) (m : Key → Option Digest) : Prop where
  root_eq : root = treeHash bitAt nodeHash EMPTY0 SMT_DEPTH 0 m
  stored : Stored bitAt nodeHash EMPTY0 store.get SMT_DEPTH 0 m
  covered : Covered bitAt nodeHash EMPTY0 P SMT_DEPTH 0 m
  leaves : Leaves Leaf m

theorem Holds.mono {store store' : NodeStore Digest} (hx : Extends store.get store'.get)
    {root : Digest} {m : Key → Option Digest} (h : Holds nodeHash EMPTY0 P Leaf store root m) :
    Holds nodeHash EMPTY0 P Leaf store' root m :=
  ⟨h.root_eq, h.stored.mono hx, h.covered, h.leaves⟩

theorem holds_empty (hB : Binding nodeHash EMPTY0 P Leaf SMT_DEPTH) (store : NodeStore Digest) :
    Holds nodeHash EMPTY0 P Leaf store (EMPTY_SMT_ROOT nodeHash EMPTY0) (fun _ => none) where
  root_eq := (treeHash_vacant bitAt nodeHash EMPTY0 (fun _ => rfl) SMT_DEPTH 0).symm
  stored := stored_vacant (fun _ => rfl) _ _
  covered := covered_vacant hB.empties (fun _ => rfl) _ _ (Nat.le_refl _)
  leaves := by intro k v h; simp at h

/-- The specification of `update`: the store only grows, and the new root stands for the
updated map. -/
theorem update_spec (hB : Binding nodeHash EMPTY0 P Leaf SMT_DEPTH) {store : NodeStore Digest}
    (hS : RowsHashed nodeHash P store.get) {root : Digest} {m : Key → Option Digest}
    (hm : Holds nodeHash EMPTY0 P Leaf store root m) (k : Key) (v : Option Digest)
    (hv : ∀ w, v = some w → Leaf w)
    (hP : ∀ p ∈ (update nodeHash EMPTY0 store root k v).hashed, P p.1 p.2) :
    RowsHashed nodeHash P (update nodeHash EMPTY0 store root k v).store.get ∧
    Extends store.get (update nodeHash EMPTY0 store root k v).store.get ∧
    Holds nodeHash EMPTY0 P Leaf (update nodeHash EMPTY0 store root k v).store
      (update nodeHash EMPTY0 store root k v).root (Function.update m k v) := by
  have hu : Under bitAt k 0 m := fun _ _ _ hi => absurd hi (by omega)
  simp only [update, hm.root_eq, descend_stored hB hS hm.stored k] at hP ⊢
  have hc := covered_update (by omega) hu v hm.covered hP
  have hl := hm.leaves.update k hv
  have hrows := climb_pending (by omega) hu v hc
  have hx := NodeStore.putMany_extends store (climb nodeHash EMPTY0 k 0
    (siblings bitAt nodeHash EMPTY0 SMT_DEPTH 0 m k) (v.getD EMPTY0)).pending
  have hhashed : RowsHashed nodeHash P (store.putMany (climb nodeHash EMPTY0 k 0
      (siblings bitAt nodeHash EMPTY0 SMT_DEPTH 0 m k) (v.getD EMPTY0)).pending).get := by
    intro h l r hr
    rcases NodeStore.get_putMany_cases hr with hr | ⟨row, hrow, hh, he⟩
    · exact hS h l r hr
    · obtain ⟨hp, hn⟩ := hrows row hrow
      obtain ⟨hl, hr⟩ := Prod.mk.inj he
      rw [hl, hr, hh]
      exact ⟨hp, hn⟩
  refine ⟨hhashed, hx, ?_⟩
  refine ⟨climb_siblings nodeHash EMPTY0 SMT_DEPTH (by omega) hu v, ?_, hc, hl⟩
  apply stored_update hx hm.stored
  apply climb_pathStored hB (by omega) hu v hc hl
  intro row hrow
  obtain ⟨⟨l, r⟩, hlr⟩ := Option.isSome_iff_exists.mp (NodeStore.get_putMany_isSome store hrow)
  -- a row already filed under this hash has the same children, by injectivity
  obtain ⟨hp, hn⟩ := hhashed _ _ _ hlr
  obtain ⟨hp', hn'⟩ := hrows row hrow
  obtain ⟨hl, hr⟩ := hB.inj hp hp' (hn.trans hn'.symm)
  rw [hlr, hl, hr]

/-- The map that setting the entries one by one makes of `m`. -/
def setAll (entries : List (Key × Digest)) (m : Key → Option Digest) : Key → Option Digest :=
  entries.foldl (fun m e => Function.update m e.1 (some e.2)) m

/-- The specification of `buildFull`: its root stands for the map the entries set one by one. -/
theorem buildFull_spec (hB : Binding nodeHash EMPTY0 P Leaf SMT_DEPTH) {store : NodeStore Digest}
    (hS : RowsHashed nodeHash P store.get) (entries : List (Key × Digest))
    (hv : ∀ e ∈ entries, Leaf e.2)
    (hP : ∀ p ∈ (buildFull nodeHash EMPTY0 store entries).hashed, P p.1 p.2) :
    RowsHashed nodeHash P (buildFull nodeHash EMPTY0 store entries).store.get ∧
    Extends store.get (buildFull nodeHash EMPTY0 store entries).store.get ∧
    Holds nodeHash EMPTY0 P Leaf (buildFull nodeHash EMPTY0 store entries).store
      (buildFull nodeHash EMPTY0 store entries).root
      (setAll entries fun _ => none) := by
  -- from any accumulator on; the hashed pairs of the prefix stay in the result
  suffices h : ∀ (acc : UpdateResult Digest) (m : Key → Option Digest),
      RowsHashed nodeHash P acc.store.get → Extends store.get acc.store.get →
      Holds nodeHash EMPTY0 P Leaf acc.store acc.root m →
      let res := entries.foldl (fun acc e =>
        let next := update nodeHash EMPTY0 acc.store acc.root e.1 (some e.2)
        { next with hashed := acc.hashed ++ next.hashed }) acc
      (∀ p ∈ res.hashed, P p.1 p.2) →
      RowsHashed nodeHash P res.store.get ∧ Extends store.get res.store.get ∧
        Holds nodeHash EMPTY0 P Leaf res.store res.root (setAll entries m) by
    exact h ⟨_, store, []⟩ _ hS (fun _ _ h => h) (holds_empty hB store) hP
  clear hP
  induction entries with
  | nil => exact fun acc m hg hx hm _ => ⟨hg, hx, hm⟩
  | cons e entries ih =>
    intro acc m hg hx hm res hP
    have hkeep : ∀ (es : List (Key × Digest)) (a : UpdateResult Digest), ∀ p ∈ a.hashed,
        p ∈ (es.foldl (fun acc e =>
          let next := update nodeHash EMPTY0 acc.store acc.root e.1 (some e.2)
          { next with hashed := acc.hashed ++ next.hashed }) a).hashed := by
      intro es
      induction es with
      | nil => exact fun _ _ hp => hp
      | cons f es ihes => exact fun a p hp => ihes _ p (List.mem_append.mpr (Or.inl hp))
    obtain ⟨hg', hx', hm'⟩ := update_spec hB hg hm e.1 (some e.2)
      (fun w hw => by rw [← Option.some.inj hw]; exact hv e List.mem_cons_self)
      (fun p hp => hP p (hkeep entries _ p (List.mem_append.mpr (Or.inr hp))))
    exact ih (fun f hf => hv f (List.mem_cons_of_mem e hf)) _ _ hg'
      (fun h r hr => hx' h r (hx h r hr)) hm' hP

end Spec

section Sessions
variable [DecidableEq Digest] (nodeHash : Digest → Digest → Digest) (EMPTY0 : Digest)

/-- A call on one shared store. `update` starts from the root at index `branch` among the
roots returned so far, of which the first is `EMPTY_ROOT_HEX`. -/
inductive Call (Digest : Type u) where
  | update (branch : Nat) (key : Key) (leaf : Option Digest)
  | buildFull (entries : List (Key × Digest))

/-- A root that was returned, with the reference tree its branch has built. -/
structure Branch (Digest : Type u) where
  root : Digest
  tree : SparseMerkleTree Digest

structure Session (Digest : Type u) where
  store : NodeStore Digest
  branches : List (Branch Digest)
  hashed : List (Digest × Digest)

def SparseMerkleTree.ofEntries (entries : List (Key × Digest)) : SparseMerkleTree Digest :=
  entries.foldl (fun t e => t.put e.1 e.2) SparseMerkleTree.empty

namespace Session

def start : Session Digest :=
  ⟨[], [⟨EMPTY_SMT_ROOT nodeHash EMPTY0, SparseMerkleTree.empty⟩], []⟩

def call (s : Session Digest) : Call Digest → Session Digest
  | .update branch key leaf =>
      match s.branches[branch]? with
      | none => s
      | some b =>
          let next := Merkle.update nodeHash EMPTY0 s.store b.root key leaf
          ⟨next.store, s.branches ++ [⟨next.root, b.tree.set key leaf⟩], s.hashed ++ next.hashed⟩
  | .buildFull entries =>
      let next := Merkle.buildFull nodeHash EMPTY0 s.store entries
      ⟨next.store, s.branches ++ [⟨next.root, SparseMerkleTree.ofEntries entries⟩],
        s.hashed ++ next.hashed⟩

def run (s : Session Digest) (calls : List (Call Digest)) : Session Digest :=
  calls.foldl (call nodeHash EMPTY0) s

end Session

/-- The value leaves a call writes. -/
def Call.leaves : Call Digest → List Digest
  | .update _ _ leaf => leaf.toList
  | .buildFull entries => entries.map Prod.snd

/-- The pairs `nodeHash` is applied to: those of the EMPTY table and those of the calls. -/
def appliedPairs (calls : List (Call Digest)) : List (Digest × Digest) :=
  ((List.range SMT_DEPTH).map fun h => (EMPTY nodeHash EMPTY0 h, EMPTY nodeHash EMPTY0 h)) ++
    ((Session.start nodeHash EMPTY0).run nodeHash EMPTY0 calls).hashed

/-- The assumption on the hash: injective on the pairs it is applied to, and no output of
those is a value leaf or `EMPTY[0]`. -/
structure HashAssumption (calls : List (Call Digest)) : Prop where
  injective : ∀ p ∈ appliedPairs nodeHash EMPTY0 calls, ∀ q ∈ appliedPairs nodeHash EMPTY0 calls,
    nodeHash p.1 p.2 = nodeHash q.1 q.2 → p = q
  ne_leaf : ∀ p ∈ appliedPairs nodeHash EMPTY0 calls, ∀ c ∈ calls, ∀ v ∈ c.leaves,
    nodeHash p.1 p.2 ≠ v
  ne_empty : ∀ p ∈ appliedPairs nodeHash EMPTY0 calls, nodeHash p.1 p.2 ≠ EMPTY0

variable {nodeHash EMPTY0}

theorem hashed_subset_call (s : Session Digest) (c : Call Digest) :
    ∀ p ∈ s.hashed, p ∈ (s.call nodeHash EMPTY0 c).hashed := by
  intro p hp
  cases c with
  | update branch key leaf =>
    cases hb : s.branches[branch]? with
    | none => simpa only [Session.call, hb] using hp
    | some b => simp only [Session.call, hb]; exact List.mem_append.mpr (Or.inl hp)
  | buildFull entries => exact List.mem_append.mpr (Or.inl hp)

theorem hashed_subset_run (s : Session Digest) (calls : List (Call Digest)) :
    ∀ p ∈ s.hashed, p ∈ (s.run nodeHash EMPTY0 calls).hashed := by
  induction calls generalizing s with
  | nil => exact fun _ hp => hp
  | cons c calls ih => exact fun p hp => ih _ p (hashed_subset_call s c p hp)

/-- The hash tells the applied pairs apart. -/
def InjectiveOnApplied (nodeHash : Digest → Digest → Digest) (EMPTY0 : Digest)
    (calls : List (Call Digest)) : Prop :=
  ∀ p ∈ appliedPairs nodeHash EMPTY0 calls, ∀ q ∈ appliedPairs nodeHash EMPTY0 calls,
    nodeHash p.1 p.2 = nodeHash q.1 q.2 → p = q

theorem binding_of_injective {calls : List (Call Digest)}
    (hinj : InjectiveOnApplied nodeHash EMPTY0 calls) (hne : ∀ c ∈ calls, ∀ v ∈ c.leaves, v ≠ EMPTY0) :
    Binding nodeHash EMPTY0 (fun a b => (a, b) ∈ appliedPairs nodeHash EMPTY0 calls)
      (fun v => ∃ c ∈ calls, v ∈ c.leaves) SMT_DEPTH where
  inj := fun hp hq h => Prod.mk.inj (hinj _ hp _ hq h)
  leaf_ne := fun ⟨c, hc, hv⟩ => hne c hc _ hv
  empties := fun n hn => List.mem_append.mpr (Or.inl (List.mem_map.mpr ⟨n, List.mem_range.mpr hn, rfl⟩))

/-- The closure invariant of the shared store: every root returned so far, on any branch,
still stands for its branch's map. -/
structure SessionInv (nodeHash : Digest → Digest → Digest) (EMPTY0 : Digest)
    (P : Digest → Digest → Prop) (Leaf : Digest → Prop) (s : Session Digest) : Prop where
  hashed : RowsHashed nodeHash P s.store.get
  holds : ∀ b ∈ s.branches, Holds nodeHash EMPTY0 P Leaf s.store b.root b.tree.get

theorem sessionInv_start {P : Digest → Digest → Prop} {Leaf : Digest → Prop}
    (hB : Binding nodeHash EMPTY0 P Leaf SMT_DEPTH) :
    SessionInv nodeHash EMPTY0 P Leaf (Session.start nodeHash EMPTY0) where
  hashed := by
    intro h l r hr
    simp [Session.start, NodeStore.get] at hr
  holds := by
    intro b hb
    rw [List.mem_singleton.mp hb]
    exact holds_empty hB _

/-- A call adds one branch over a larger store. -/
theorem SessionInv.extend {P : Digest → Digest → Prop} {Leaf : Digest → Prop}
    {s : Session Digest} (h : SessionInv nodeHash EMPTY0 P Leaf s) {store : NodeStore Digest}
    {b : Branch Digest} {hashed : List (Digest × Digest)}
    (hg : RowsHashed nodeHash P store.get) (hx : Extends s.store.get store.get)
    (hb : Holds nodeHash EMPTY0 P Leaf store b.root b.tree.get) :
    SessionInv nodeHash EMPTY0 P Leaf ⟨store, s.branches ++ [b], hashed⟩ where
  hashed := hg
  holds := by
    intro b' hb'
    rcases List.mem_append.mp hb' with hb' | hb'
    · exact (h.holds b' hb').mono hx
    · rw [List.mem_singleton.mp hb']
      exact hb

omit [DecidableEq Digest] in
theorem get_ofEntries (entries : List (Key × Digest)) :
    (SparseMerkleTree.ofEntries entries).get = setAll entries fun _ => none := by
  suffices h : ∀ t : SparseMerkleTree Digest,
      (entries.foldl (fun t e => t.put e.1 e.2) t).get = setAll entries t.get by
    exact h SparseMerkleTree.empty
  induction entries with
  | nil => exact fun _ => rfl
  | cons e entries ih =>
    intro t
    rw [List.foldl_cons, ih, SparseMerkleTree.get_put]
    rfl

theorem sessionInv_call {P : Digest → Digest → Prop} {Leaf : Digest → Prop}
    (hB : Binding nodeHash EMPTY0 P Leaf SMT_DEPTH) {s : Session Digest}
    (hs : SessionInv nodeHash EMPTY0 P Leaf s) (c : Call Digest) (hv : ∀ v ∈ c.leaves, Leaf v)
    (hP : ∀ p ∈ (s.call nodeHash EMPTY0 c).hashed, P p.1 p.2) :
    SessionInv nodeHash EMPTY0 P Leaf (s.call nodeHash EMPTY0 c) := by
  cases c with
  | update branch key leaf =>
    cases hb : s.branches[branch]? with
    | none => simpa only [Session.call, hb] using hs
    | some b =>
      simp only [Session.call, hb] at hP ⊢
      obtain ⟨hg, hx, hm⟩ := update_spec hB hs.hashed (hs.holds b (List.mem_of_getElem? hb)) key leaf
        (fun w hw => hv w (by simp [Call.leaves, hw]))
        (fun p hp => hP p (List.mem_append.mpr (Or.inr hp)))
      exact hs.extend hg hx (by rw [SparseMerkleTree.get_set]; exact hm)
  | buildFull entries =>
    obtain ⟨hg, hx, hm⟩ := buildFull_spec hB hs.hashed entries
      (fun e he => hv e.2 (List.mem_map_of_mem he))
      (fun p hp => hP p (List.mem_append.mpr (Or.inr hp)))
    exact hs.extend hg hx (by rw [get_ofEntries]; exact hm)

theorem sessionInv_run {P : Digest → Digest → Prop} {Leaf : Digest → Prop}
    (hB : Binding nodeHash EMPTY0 P Leaf SMT_DEPTH) (calls : List (Call Digest))
    {s : Session Digest} (hs : SessionInv nodeHash EMPTY0 P Leaf s)
    (hv : ∀ c ∈ calls, ∀ v ∈ c.leaves, Leaf v)
    (hP : ∀ p ∈ (s.run nodeHash EMPTY0 calls).hashed, P p.1 p.2) :
    SessionInv nodeHash EMPTY0 P Leaf (s.run nodeHash EMPTY0 calls) := by
  induction calls generalizing s with
  | nil => exact hs
  | cons c calls ih =>
    have hc := sessionInv_call hB hs c (hv c List.mem_cons_self)
      (fun p hp => hP p (hashed_subset_run _ calls p hp))
    exact ih hc (fun c' hc' => hv c' (List.mem_cons_of_mem c hc')) hP

/-- What a session leaves behind, from the start on. -/
theorem session_spec {calls : List (Call Digest)} (hinj : InjectiveOnApplied nodeHash EMPTY0 calls)
    (hne : ∀ c ∈ calls, ∀ v ∈ c.leaves, v ≠ EMPTY0) :
    Binding nodeHash EMPTY0 (fun a b => (a, b) ∈ appliedPairs nodeHash EMPTY0 calls)
      (fun v => ∃ c ∈ calls, v ∈ c.leaves) SMT_DEPTH ∧
    SessionInv nodeHash EMPTY0 (fun a b => (a, b) ∈ appliedPairs nodeHash EMPTY0 calls)
      (fun v => ∃ c ∈ calls, v ∈ c.leaves)
      ((Session.start nodeHash EMPTY0).run nodeHash EMPTY0 calls) := by
  have hB := binding_of_injective hinj hne
  exact ⟨hB, sessionInv_run hB calls (sessionInv_start hB) (fun c hc v hv => ⟨c, hc, hv⟩)
    (fun p hp => List.mem_append.mpr (Or.inr hp))⟩

omit [DecidableEq Digest] in
theorem get_ofEntries_perm {es es' : List (Key × Digest)} (h : es.Perm es')
    (hn : (es.map Prod.fst).Nodup) (k : Key) :
    (SparseMerkleTree.ofEntries es).get k = (SparseMerkleTree.ofEntries es').get k := by
  rw [get_ofEntries, get_ofEntries]
  apply congrFun
  apply h.foldl_eq'
  intro x hx y hy m
  by_cases hxy : x.1 = y.1
  · rw [List.inj_on_of_nodup_map hn hx hy hxy]
  · exact Function.update_comm hxy _ _ m

/-- Every root ever returned, on any branch and after any later calls, is the reference root
of the map its branch has built, and descending from it still reads that map. So two branches
with the same map have the same root (a delete restores the root of the map without the key),
and `buildFull` does not depend on the order of its entries. -/
theorem returned_roots_are_reference_roots (calls : List (Call Digest))
    (hA : HashAssumption nodeHash EMPTY0 calls)
    (hne : ∀ c ∈ calls, ∀ v ∈ c.leaves, v ≠ EMPTY0) :
    let s := (Session.start nodeHash EMPTY0).run nodeHash EMPTY0 calls
    (∀ b ∈ s.branches, b.root = b.tree.root nodeHash EMPTY0 ∧
      ∀ k, (descend nodeHash EMPTY0 s.store b.root k).2 = (b.tree.get k).getD EMPTY0) ∧
    (∀ b ∈ s.branches, ∀ b' ∈ s.branches, ∀ k, (∀ k', b'.tree.get k' = (b.tree.delete k).get k') →
      b'.root = (b.tree.delete k).root nodeHash EMPTY0) ∧
    (∀ b ∈ s.branches, ∀ b' ∈ s.branches, ∀ es es' : List (Key × Digest), es.Perm es' →
      (es.map Prod.fst).Nodup → b.tree = SparseMerkleTree.ofEntries es →
      b'.tree = SparseMerkleTree.ofEntries es' → b.root = b'.root) := by
  intro s
  obtain ⟨hB, hs⟩ := session_spec hA.injective hne
  have hroot : ∀ b ∈ s.branches, b.root = b.tree.root nodeHash EMPTY0 := by
    intro b hb
    rw [SparseMerkleTree.root_eq_treeHash]
    exact (hs.holds b hb).root_eq
  refine ⟨?_, ?_, ?_⟩
  · intro b hb
    refine ⟨hroot b hb, fun k => ?_⟩
    rw [(hs.holds b hb).root_eq, descend_stored hB hs.hashed (hs.holds b hb).stored]
  · intro b _ b' hb' k hk
    rw [hroot b' hb']
    exact SparseMerkleTree.root_congr nodeHash EMPTY0 hk
  · intro b hb b' hb' es es' hperm hn ht ht'
    rw [hroot b hb, hroot b' hb', ht, ht']
    exact SparseMerkleTree.root_congr nodeHash EMPTY0 (get_ofEntries_perm hperm hn)

/-- Hash terms: the free node hash, for running sessions by hand. -/
inductive Term where
  | empty
  | leaf (n : Nat)
  | node (left right : Term)
  deriving DecidableEq

def zeroKey : Key := ⟨List.replicate 32 0, by simp⟩

/-- Set a key, delete it from the new root, set it again from the first root. -/
def setDeleteSet : List (Call Term) :=
  [.update 0 zeroKey (some (.leaf 1)), .update 1 zeroKey none, .update 0 zeroKey (some (.leaf 2))]

theorem setDeleteSet_roots :
    ((Session.start Term.node Term.empty).run Term.node Term.empty setDeleteSet).branches.length = 4 ∧
    ∀ b ∈ ((Session.start Term.node Term.empty).run Term.node Term.empty setDeleteSet).branches,
      b.root = b.tree.root Term.node Term.empty := by
  have h := @returned_roots_are_reference_roots Term _ Term.node Term.empty setDeleteSet
    { injective := by
        rintro ⟨a, b⟩ _ ⟨c, d⟩ _ h
        simpa using h
      ne_leaf := by
        intro p _ c hc v hv
        simp only [setDeleteSet, List.mem_cons, List.not_mem_nil, or_false] at hc
        rcases hc with rfl | rfl | rfl <;> simp_all [Call.leaves]
      ne_empty := by intro p _; simp }
    (by
      intro c hc v hv
      simp only [setDeleteSet, List.mem_cons, List.not_mem_nil, or_false] at hc
      rcases hc with rfl | rfl | rfl <;> simp_all [Call.leaves])
  exact ⟨rfl, fun b hb => (h.1 b hb).1⟩

end Sessions

end XChainSync.Merkle
