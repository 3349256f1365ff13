import Mathlib
import XChainSync.Merkle.BlockLeaves
import XChainSync.Merkle.PersistentSMT

/-!
# Leaf writes on a persistent tree

The sub-trees of src/state_commitment are written leaf by leaf, a full build from the empty root
and a threaded one from a stored root. Over any type of logical keys, a root stands for the leaf
input that every key has.
-/

namespace XChainSync.Commitment
open HashTree Merkle
set_option autoImplicit false

universe u v

/-- The hash functions of src/merkle/primitives.js; `sha256` gives the path of a key. -/
structure SmtHashes (Digest : Type u) where
  sha256 : Buf → Key
  leafHash : Buf → Digest
  nodeHash : Digest → Digest → Digest
  EMPTY0 : Digest

inductive HashInput (Digest : Type u) where
  | key (bytes : Buf)
  | leaf (bytes : Buf)
  | node (left right : Digest)

structure Build (Digest : Type u) where
  root : Digest
  nodes : NodeStore Digest
  hashed : List (HashInput Digest)

section Writes
variable {Digest : Type u} [DecidableEq Digest] (h : SmtHashes Digest)

def SmtHashes.emptyRoot : Digest := EMPTY_SMT_ROOT h.nodeHash h.EMPTY0

/-- `smt.update` of the key under some bytes to the leaf over others, none for a deletion. -/
def writeLeaf (b : Build Digest) (w : Buf × Option Buf) : Build Digest :=
  let next := update h.nodeHash h.EMPTY0 b.nodes b.root (h.sha256 w.1) (w.2.map h.leafHash)
  { root := next.root
    nodes := next.store
    hashed := b.hashed ++ .key w.1 :: (w.2.toList.map .leaf ++
      next.hashed.map fun p => .node p.1 p.2) }

def writeLeaves (b : Build Digest) (ws : List (Buf × Option Buf)) : Build Digest :=
  ws.foldl (writeLeaf h) b

/-- No collision among some inputs, which have the EMPTY table among them. -/
structure NoCollision (A : Set (HashInput Digest)) : Prop where
  key_inj : ∀ b b', .key b ∈ A → .key b' ∈ A → h.sha256 b = h.sha256 b' → b = b'
  leaf_ne : ∀ b, .leaf b ∈ A → h.leafHash b ≠ h.EMPTY0
  node_inj : ∀ {l r l' r'}, .node l r ∈ A → .node l' r' ∈ A →
    h.nodeHash l r = h.nodeHash l' r' → l = l' ∧ r = r'
  empties : ∀ n < SMT_DEPTH,
    .node (EMPTY h.nodeHash h.EMPTY0 n) (EMPTY h.nodeHash h.EMPTY0 n) ∈ A

/-- Every row of the store is hashed from its children. -/
def Filed (A : Set (HashInput Digest)) (nodes : NodeStore Digest) : Prop :=
  RowsHashed h.nodeHash (fun l r => .node l r ∈ A) nodes.get

/-- A root stands for a map from paths to leaves. -/
abbrev Stands (A : Set (HashInput Digest)) (nodes : NodeStore Digest) (root : Digest)
    (m : Key → Option Digest) : Prop :=
  Holds h.nodeHash h.EMPTY0 (fun l r => .node l r ∈ A)
    (fun v => ∃ b, .leaf b ∈ A ∧ v = h.leafHash b) nodes root m

variable {h} {A : Set (HashInput Digest)}

omit [DecidableEq Digest] in
theorem NoCollision.binding (hA : NoCollision h A) :
    Binding h.nodeHash h.EMPTY0 (fun l r => .node l r ∈ A)
      (fun v => ∃ b, .leaf b ∈ A ∧ v = h.leafHash b) SMT_DEPTH where
  inj := hA.node_inj
  leaf_ne := by
    rintro v ⟨b, hb, rfl⟩
    exact hA.leaf_ne b hb
  empties := hA.empties

theorem hashed_writeLeaf (b : Build Digest) (w : Buf × Option Buf) :
    ∀ i ∈ b.hashed, i ∈ (writeLeaf h b w).hashed :=
  fun _ hi => List.mem_append.mpr (Or.inl hi)

theorem hashed_writeLeaves (b : Build Digest) (ws : List (Buf × Option Buf)) :
    ∀ i ∈ b.hashed, i ∈ (writeLeaves h b ws).hashed := by
  induction ws generalizing b with
  | nil => exact fun _ hi => hi
  | cons w ws ih => exact fun i hi => ih _ i (hashed_writeLeaf b w i hi)

/-- The rows of a climb are hashed from pairs of the climb. -/
theorem climb_row_hashed {nodeHash : Digest → Digest → Digest} {EMPTY0 : Digest} (keyBuf : Key)
    (depth : Nat) (sibs : List Digest) (leaf : Digest) :
    ∀ row ∈ (climb nodeHash EMPTY0 keyBuf depth sibs leaf).pending,
      (row.left, row.right) ∈ (climb nodeHash EMPTY0 keyBuf depth sibs leaf).hashed ∧
        nodeHash row.left row.right = row.hash := by
  induction sibs generalizing depth with
  | nil =>
    intro row hrow
    cases hrow
  | cons sib rest ih =>
    intro row hrow
    have hbelow : row ∈ (climb nodeHash EMPTY0 keyBuf (depth+1) rest leaf).pending →
        (row.left, row.right) ∈ (climb nodeHash EMPTY0 keyBuf depth (sib :: rest) leaf).hashed ∧
          nodeHash row.left row.right = row.hash := by
      intro hmem
      obtain ⟨hpair, hhash⟩ := ih (depth+1) row hmem
      exact ⟨List.mem_append.mpr (Or.inl hpair), hhash⟩
    simp only [climb] at hrow
    split at hrow
    · exact hbelow hrow
    · rcases List.mem_append.mp hrow with hrow | hrow
      · exact hbelow hrow
      · rw [List.mem_singleton.mp hrow]
        exact ⟨List.mem_append.mpr (Or.inr List.mem_cons_self), rfl⟩

/-- Whatever root it starts from, a write only files hashed rows. -/
theorem Filed.writeLeaf {b : Build Digest} (hF : Filed h A b.nodes) (w : Buf × Option Buf)
    (hlog : ∀ i ∈ (writeLeaf h b w).hashed, i ∈ A) :
    Filed h A (writeLeaf h b w).nodes ∧ Extends b.nodes.get (writeLeaf h b w).nodes.get := by
  refine ⟨?_, NodeStore.putMany_extends _ _⟩
  intro hash l r hget
  rcases NodeStore.get_putMany_cases hget with hget | ⟨row, hrow, rfl, heq⟩
  · exact hF hash l r hget
  · obtain ⟨rfl, rfl⟩ := Prod.mk.inj heq
    obtain ⟨hpair, hhash⟩ := climb_row_hashed _ _ _ _ row hrow
    refine ⟨hlog _ ?_, hhash⟩
    apply List.mem_append.mpr
    right
    apply List.mem_cons_of_mem
    apply List.mem_append.mpr
    right
    exact List.mem_map.mpr ⟨_, hpair, rfl⟩

theorem Filed.writeLeaves {b : Build Digest} (hF : Filed h A b.nodes)
    (ws : List (Buf × Option Buf)) (hlog : ∀ i ∈ (writeLeaves h b ws).hashed, i ∈ A) :
    Filed h A (writeLeaves h b ws).nodes ∧ Extends b.nodes.get (writeLeaves h b ws).nodes.get := by
  induction ws generalizing b with
  | nil => exact ⟨hF, fun _ _ hget => hget⟩
  | cons w ws ih =>
    obtain ⟨hF', hx⟩ := hF.writeLeaf w fun i hi => hlog i (hashed_writeLeaves _ ws i hi)
    obtain ⟨hF'', hx'⟩ := ih hF' hlog
    exact ⟨hF'', fun hash r hget => hx' hash r (hx hash r hget)⟩

theorem stands_writeLeaf (hA : NoCollision h A) {b : Build Digest} (hF : Filed h A b.nodes)
    {m : Key → Option Digest} (hm : Stands h A b.nodes b.root m) (w : Buf × Option Buf)
    (hlog : ∀ i ∈ (writeLeaf h b w).hashed, i ∈ A) :
    Stands h A (writeLeaf h b w).nodes (writeLeaf h b w).root
      (Function.update m (h.sha256 w.1) (w.2.map h.leafHash)) := by
  have hnew : ∀ i ∈ HashInput.key w.1 :: (w.2.toList.map HashInput.leaf ++
      (update h.nodeHash h.EMPTY0 b.nodes b.root (h.sha256 w.1)
        (w.2.map h.leafHash)).hashed.map fun p => HashInput.node p.1 p.2), i ∈ A :=
    fun i hi => hlog i (List.mem_append.mpr (Or.inr hi))
  refine (update_spec hA.binding hF hm (h.sha256 w.1) (w.2.map h.leafHash) ?_ ?_).2.2
  · intro v hv
    obtain ⟨bytes, hbytes, rfl⟩ := Option.map_eq_some_iff.mp hv
    refine ⟨bytes, hnew _ (List.mem_cons_of_mem _ (List.mem_append.mpr (Or.inl ?_))), rfl⟩
    rw [hbytes]
    exact List.mem_singleton_self _
  · intro p hp
    refine hnew _ (List.mem_cons_of_mem _ (List.mem_append.mpr (Or.inr ?_)))
    exact List.mem_map.mpr ⟨p, hp, rfl⟩

end Writes

/-! ### Logical keys -/

section Keys
variable {Digest : Type u} [DecidableEq Digest] (h : SmtHashes Digest)
variable (A : Set (HashInput Digest)) {κ : Type v} (keyBytes : κ → Except String Buf)

open Classical in
/-- The map on paths of a map on keys: of the keys that were hashed to a path there is one. -/
noncomputable def pathMap (g : κ → Option Buf) (path : Key) : Option Digest :=
  if hx : ∃ x bytes, keyBytes x = .ok bytes ∧ .key bytes ∈ A ∧ h.sha256 bytes = path then
    (g hx.choose).map h.leafHash
  else none

/-- A root of the store stands for the leaf input of every key. -/
structure Threads (nodes : NodeStore Digest) (root : Digest) (g : κ → Option Buf) : Prop where
  keyed : ∀ x, g x ≠ none → ∃ bytes, keyBytes x = .ok bytes ∧ .key bytes ∈ A
  stands : Stands h A nodes root (pathMap h A keyBytes g)

/-- The leaf writes of a list of keys with their leaf inputs. -/
def keyWrites (writes : List (κ × Option Buf)) : Except String (List (Buf × Option Buf)) :=
  writes.mapM fun w => (keyBytes w.1).map fun bytes => (bytes, w.2)

/-- What setting the keys one by one makes of a map. -/
def setMany [DecidableEq κ] (writes : List (κ × Option Buf)) (g : κ → Option Buf) :
    κ → Option Buf :=
  writes.foldl (fun g w => Function.update g w.1 w.2) g

variable {h A keyBytes}

/-- A map that agrees with another off the written keys becomes that other one. -/
theorem setMany_eq [DecidableEq κ] {writes : List (κ × Option Buf)} {g g' : κ → Option Buf}
    (hval : ∀ w ∈ writes, w.2 = g' w.1) (hrest : ∀ x, x ∉ writes.map Prod.fst → g x = g' x) :
    setMany writes g = g' := by
  induction writes generalizing g with
  | nil => exact funext fun x => hrest x List.not_mem_nil
  | cons w writes ih =>
    apply ih fun w' hw' => hval w' (List.mem_cons_of_mem w hw')
    intro x hx
    dsimp only
    by_cases hxw : x = w.1
    · rw [hxw, Function.update_self]
      exact hval w List.mem_cons_self
    · rw [Function.update_of_ne hxw]
      apply hrest
      rw [List.map_cons, List.mem_cons, not_or]
      exact ⟨hxw, hx⟩

theorem Threads.mono {nodes nodes' : NodeStore Digest} (hx : Extends nodes.get nodes'.get)
    {root : Digest} {g : κ → Option Buf} (ht : Threads h A keyBytes nodes root g) :
    Threads h A keyBytes nodes' root g :=
  ⟨ht.keyed, ht.stands.mono hx⟩

/-- Roots that stand for one map are one. -/
theorem Threads.root_eq {nodes nodes' : NodeStore Digest} {root root' : Digest}
    {g : κ → Option Buf} (ht : Threads h A keyBytes nodes root g)
    (ht' : Threads h A keyBytes nodes' root' g) : root = root' :=
  ht.stands.root_eq.trans ht'.stands.root_eq.symm

theorem threads_empty (hA : NoCollision h A) (nodes : NodeStore Digest) :
    Threads h A keyBytes nodes h.emptyRoot fun _ => none := by
  refine ⟨fun x hx => absurd rfl hx, ?_⟩
  have hnone : pathMap h A keyBytes (fun _ => none) = fun _ => none := by
    funext path
    unfold pathMap
    split
    · rfl
    · rfl
  rw [hnone]
  exact holds_empty hA.binding nodes

omit [DecidableEq Digest] in
theorem pathMap_of_mem (hA : NoCollision h A)
    (hkeys : ∀ x y bytes, keyBytes x = .ok bytes → keyBytes y = .ok bytes → x = y) {x : κ}
    {bytes : Buf} (hx : keyBytes x = .ok bytes) (hmem : .key bytes ∈ A) (g : κ → Option Buf) :
    pathMap h A keyBytes g (h.sha256 bytes) = (g x).map h.leafHash := by
  have hex : ∃ y bytes', keyBytes y = .ok bytes' ∧ .key bytes' ∈ A ∧
      h.sha256 bytes' = h.sha256 bytes := ⟨x, bytes, hx, hmem, rfl⟩
  rw [pathMap, dif_pos hex]
  obtain ⟨bytes', hy, hmem', hpath⟩ := hex.choose_spec
  have hbytes := hA.key_inj _ _ hmem' hmem hpath
  rw [hbytes] at hy
  rw [hkeys _ _ _ hy hx]

/-- The empty root stands for no leaf. -/
theorem Threads.vacant (hA : NoCollision h A)
    (hkeys : ∀ x y bytes, keyBytes x = .ok bytes → keyBytes y = .ok bytes → x = y)
    {nodes : NodeStore Digest} {g : κ → Option Buf}
    (ht : Threads h A keyBytes nodes h.emptyRoot g) (x : κ) : g x = none := by
  by_contra hx
  obtain ⟨bytes, hbytes, hmem⟩ := ht.keyed x hx
  obtain ⟨hroot, -, hcovered, hleaves⟩ := ht.stands
  have hvacant := vacant_of_treeHash_eq hA.binding le_rfl hcovered hleaves hroot.symm
    (h.sha256 bytes)
  rw [pathMap_of_mem hA hkeys hbytes hmem, Option.map_eq_none_iff] at hvacant
  exact hx hvacant

omit [DecidableEq Digest] in
theorem pathMap_update [DecidableEq κ] (hA : NoCollision h A)
    (hkeys : ∀ x y bytes, keyBytes x = .ok bytes → keyBytes y = .ok bytes → x = y) {x : κ}
    {bytes : Buf} (hx : keyBytes x = .ok bytes) (hmem : .key bytes ∈ A) (g : κ → Option Buf)
    (v : Option Buf) :
    pathMap h A keyBytes (Function.update g x v) =
      Function.update (pathMap h A keyBytes g) (h.sha256 bytes) (v.map h.leafHash) := by
  funext path
  by_cases hpath : path = h.sha256 bytes
  · rw [hpath, Function.update_self, pathMap_of_mem hA hkeys hx hmem, Function.update_self]
  · rw [Function.update_of_ne hpath]
    unfold pathMap
    split
    · rename_i hex
      obtain ⟨bytes', hy, -, hpath'⟩ := hex.choose_spec
      -- the key of another path is another key
      have hne : hex.choose ≠ x := by
        intro heq
        rw [heq, hx] at hy
        exact hpath (hpath'.symm.trans (congrArg h.sha256 (Except.ok.inj hy).symm))
      rw [Function.update_of_ne hne]
    · rfl

theorem threads_writeLeaf [DecidableEq κ] (hA : NoCollision h A)
    (hkeys : ∀ x y bytes, keyBytes x = .ok bytes → keyBytes y = .ok bytes → x = y)
    {b : Build Digest} (hF : Filed h A b.nodes) {g : κ → Option Buf}
    (ht : Threads h A keyBytes b.nodes b.root g) {x : κ} {bytes : Buf}
    (hx : keyBytes x = .ok bytes) (v : Option Buf)
    (hlog : ∀ i ∈ (writeLeaf h b (bytes, v)).hashed, i ∈ A) :
    Threads h A keyBytes (writeLeaf h b (bytes, v)).nodes (writeLeaf h b (bytes, v)).root
      (Function.update g x v) := by
  have hmem : HashInput.key bytes ∈ A :=
    hlog _ (List.mem_append.mpr (Or.inr List.mem_cons_self))
  constructor
  · intro y hy
    by_cases hyx : y = x
    · exact ⟨bytes, hyx ▸ hx, hmem⟩
    · rw [Function.update_of_ne hyx] at hy
      exact ht.keyed y hy
  · rw [pathMap_update hA hkeys hx hmem]
    exact stands_writeLeaf hA hF ht.stands (bytes, v) hlog

theorem threads_setMany [DecidableEq κ] (hA : NoCollision h A)
    (hkeys : ∀ x y bytes, keyBytes x = .ok bytes → keyBytes y = .ok bytes → x = y)
    {b : Build Digest} (hF : Filed h A b.nodes) {g : κ → Option Buf}
    (ht : Threads h A keyBytes b.nodes b.root g) {writes : List (κ × Option Buf)}
    {ws : List (Buf × Option Buf)} (hws : keyWrites keyBytes writes = .ok ws)
    (hlog : ∀ i ∈ (writeLeaves h b ws).hashed, i ∈ A) :
    Threads h A keyBytes (writeLeaves h b ws).nodes (writeLeaves h b ws).root
      (setMany writes g) := by
  induction writes generalizing b g ws with
  | nil =>
    rw [keyWrites, List.mapM_nil] at hws
    obtain rfl := Except.ok.inj hws
    exact ht
  | cons w writes ih =>
    rw [keyWrites, List.mapM_cons] at hws
    cases hx : keyBytes w.1 with
    | error e =>
      rw [hx] at hws
      cases hws
    | ok bytes =>
      rw [hx] at hws
      cases hrest : writes.mapM fun w => (keyBytes w.1).map fun bytes => (bytes, w.2) with
      | error e =>
        rw [hrest] at hws
        cases hws
      | ok rest =>
        rw [hrest] at hws
        obtain rfl := Except.ok.inj hws
        have hfirst : ∀ i ∈ (writeLeaf h b (bytes, w.2)).hashed, i ∈ A :=
          fun i hi => hlog i (hashed_writeLeaves _ rest i hi)
        exact ih (hF.writeLeaf _ hfirst).1 (threads_writeLeaf hA hkeys hF ht hx w.2 hfirst) hrest
          hlog

/-- The writes of a build whose keys have their leaf input in a map, from a root that stands for
that map off these keys. -/
theorem threads_of_writes [DecidableEq κ] (hA : NoCollision h A)
    (hkeys : ∀ x y bytes, keyBytes x = .ok bytes → keyBytes y = .ok bytes → x = y)
    {b : Build Digest} (hF : Filed h A b.nodes) {g g' : κ → Option Buf}
    (ht : Threads h A keyBytes b.nodes b.root g) {writes : List (κ × Option Buf)}
    {ws : List (Buf × Option Buf)} (hws : keyWrites keyBytes writes = .ok ws)
    (hlog : ∀ i ∈ (writeLeaves h b ws).hashed, i ∈ A) (hval : ∀ w ∈ writes, w.2 = g' w.1)
    (hrest : ∀ x, x ∉ writes.map Prod.fst → g x = g' x) :
    Threads h A keyBytes (writeLeaves h b ws).nodes (writeLeaves h b ws).root g' := by
  have hthreads := threads_setMany hA hkeys hF ht hws hlog
  rwa [setMany_eq hval hrest] at hthreads

theorem keyWrites_isOk {writes : List (κ × Option Buf)}
    (hkeyed : ∀ w ∈ writes, ∃ bytes, keyBytes w.1 = .ok bytes) :
    ∃ ws, keyWrites keyBytes writes = .ok ws := by
  induction writes with
  | nil => exact ⟨[], rfl⟩
  | cons w writes ih =>
    obtain ⟨bytes, hbytes⟩ := hkeyed w List.mem_cons_self
    obtain ⟨ws, hws⟩ := ih fun w' hw' => hkeyed w' (List.mem_cons_of_mem w hw')
    refine ⟨(bytes, w.2) :: ws, ?_⟩
    rw [keyWrites] at hws ⊢
    rw [List.mapM_cons, hbytes, hws]
    rfl

end Keys

end XChainSync.Commitment
