import Mathlib
import XChainSync.Library.Bytes
import XChainSync.Library.Joined
import XChainSync.Merkle.PersistentSMT

/-!
# The memo of the stakes tree

`buildStakesRoot` of src/state_commitment/index.js keeps the root of the last stake set in the
process and returns it for the next block where the set did not change and the root still has a row.
The node store is shared with the other sub-trees and is set back when an apply transaction rolls
back; the memo is not.
-/

namespace XChainSync.Merkle
set_option autoImplicit false
open HashTree

universe v

section Closure
variable {Digest : Type v} [DecidableEq Digest] {nodeHash : Digest → Digest → Digest}
variable {EMPTY0 : Digest} {P : Digest → Digest → Prop} {Leaf : Digest → Prop}

/-- The siblings that `descend` finds in a closed store are known there, whatever it starts from. -/
theorem known_of_mem_descendFrom {store : NodeStore Digest}
    (hC : Closed nodeHash EMPTY0 Leaf SMT_DEPTH store.get) (keyBuf : Key) {height depth : Nat}
    (hh : height ≤ SMT_DEPTH) {cur : Option Digest} {x : Digest}
    (hx : x ∈ (descendFrom nodeHash EMPTY0 store keyBuf height depth cur).1) :
    Known nodeHash EMPTY0 Leaf SMT_DEPTH store.get x := by
  have hempty : ∀ n < SMT_DEPTH,
      Known nodeHash EMPTY0 Leaf SMT_DEPTH store.get (EMPTY nodeHash EMPTY0 n) :=
    fun n hn => Or.inl ⟨n, hn.le, rfl⟩
  induction height generalizing depth cur with
  | zero => cases hx
  | succ height ih =>
    match cur with
    | none =>
      rcases List.mem_cons.mp hx with rfl | hx
      · exact hempty height (by omega)
      · exact ih (by omega) hx
    | some node =>
      rw [descendFrom] at hx
      split at hx
      · rcases List.mem_cons.mp hx with rfl | hx
        · exact hempty height (by omega)
        · exact ih (by omega) hx
      · rename_i left right hrow
        obtain ⟨hleft, hright⟩ := hC _ _ _ hrow
        split at hx
        · rcases List.mem_cons.mp hx with rfl | hx
          · exact hleft
          · exact ih (by omega) hx
        · rcases List.mem_cons.mp hx with rfl | hx
          · exact hright
          · exact ih (by omega) hx

/-- A digest that a row may have as a child: known in the store, or filed by one of the rows. -/
def KnownWith (nodeHash : Digest → Digest → Digest) (EMPTY0 : Digest) (Leaf : Digest → Prop)
    (store : NodeStore Digest) (rows : List (NodeRow Digest)) (x : Digest) : Prop :=
  Known nodeHash EMPTY0 Leaf SMT_DEPTH store.get x ∨ ∃ row ∈ rows, row.hash = x

theorem KnownWith.append {store : NodeStore Digest} {rows : List (NodeRow Digest)} {x : Digest}
    (h : KnownWith nodeHash EMPTY0 Leaf store rows x) (more : List (NodeRow Digest)) :
    KnownWith nodeHash EMPTY0 Leaf store (rows ++ more) x := by
  rcases h with h | ⟨row, hrow, hx⟩
  · exact Or.inl h
  · exact Or.inr ⟨row, List.mem_append.mpr (Or.inl hrow), hx⟩

/-- The node a climb has reached is known with the rows it wrote. -/
theorem knownWith_climb_cur {store : NodeStore Digest} (keyBuf : Key) (depth : Nat)
    {sibs : List Digest} {leaf : Digest} (hlen : sibs.length ≤ SMT_DEPTH)
    (hleaf : Known nodeHash EMPTY0 Leaf SMT_DEPTH store.get leaf) :
    KnownWith nodeHash EMPTY0 Leaf store (climb nodeHash EMPTY0 keyBuf depth sibs leaf).pending
      (climb nodeHash EMPTY0 keyBuf depth sibs leaf).cur := by
  cases sibs with
  | nil => exact Or.inl hleaf
  | cons sib rest =>
    simp only [climb]
    split
    · rename_i hempty
      exact Or.inl (Or.inl ⟨rest.length + 1, hlen, hempty⟩)
    · exact Or.inr ⟨_, List.mem_append.mpr (Or.inr List.mem_cons_self), rfl⟩

/-- A row over two known digests that is hashed from them. -/
def RowOver (nodeHash : Digest → Digest → Digest) (EMPTY0 : Digest) (P : Digest → Digest → Prop)
    (Leaf : Digest → Prop) (store : NodeStore Digest) (rows : List (NodeRow Digest))
    (row : NodeRow Digest) : Prop :=
  (P row.left row.right ∧ nodeHash row.left row.right = row.hash) ∧
    KnownWith nodeHash EMPTY0 Leaf store rows row.left ∧
    KnownWith nodeHash EMPTY0 Leaf store rows row.right

theorem RowOver.append {store : NodeStore Digest} {rows : List (NodeRow Digest)}
    {row : NodeRow Digest} (h : RowOver nodeHash EMPTY0 P Leaf store rows row)
    (more : List (NodeRow Digest)) : RowOver nodeHash EMPTY0 P Leaf store (rows ++ more) row :=
  ⟨h.1, h.2.1.append more, h.2.2.append more⟩

/-- The rows of a climb, as far as they were written: they go from the leaf upward, each after the
row of its child on the path. -/
theorem climb_rows {store : NodeStore Digest} (keyBuf : Key) (depth : Nat) {sibs : List Digest}
    {leaf : Digest} (hlen : sibs.length ≤ SMT_DEPTH)
    (hleaf : Known nodeHash EMPTY0 Leaf SMT_DEPTH store.get leaf)
    (hsibs : ∀ x ∈ sibs, Known nodeHash EMPTY0 Leaf SMT_DEPTH store.get x)
    (hP : ∀ p ∈ (climb nodeHash EMPTY0 keyBuf depth sibs leaf).hashed, P p.1 p.2)
    (n : Nat) : ∀ row ∈ (climb nodeHash EMPTY0 keyBuf depth sibs leaf).pending.take n,
      RowOver nodeHash EMPTY0 P Leaf store
        ((climb nodeHash EMPTY0 keyBuf depth sibs leaf).pending.take n) row := by
  induction sibs generalizing depth n with
  | nil => simp [climb]
  | cons sib rest ih =>
    have hrest : rest.length ≤ SMT_DEPTH := by
      rw [List.length_cons] at hlen
      omega
    have hbelow := ih (depth + 1) hrest (fun x hx => hsibs x (List.mem_cons_of_mem _ hx))
      (fun p hp => hP p (List.mem_append.mpr (Or.inl hp)))
    have hcur := knownWith_climb_cur keyBuf (depth + 1) hrest hleaf
    have hsib := hsibs sib List.mem_cons_self
    have hpair := hP _ (List.mem_append.mpr (Or.inr List.mem_cons_self))
    simp only [climb]
    split
    · exact hbelow n
    · by_cases hn : n ≤ (climb nodeHash EMPTY0 keyBuf (depth + 1) rest leaf).pending.length
      · rw [List.take_append_of_le_length hn]
        exact hbelow n
      · rw [List.take_of_length_le (by rw [List.length_append, List.length_singleton]; omega)]
        intro row hrow
        rcases List.mem_append.mp hrow with hrow | hrow
        · have hwhole := hbelow (climb nodeHash EMPTY0 keyBuf (depth + 1) rest leaf).pending.length
          rw [List.take_length] at hwhole
          exact (hwhole row hrow).append _
        · rw [List.mem_singleton.mp hrow]
          refine ⟨⟨hpair, rfl⟩, ?_⟩
          unfold children
          split
          · exact ⟨Or.inl hsib, hcur.append _⟩
          · exact ⟨hcur.append _, Or.inl hsib⟩

/-- A store whose rows are hashed and closed. -/
structure Sound (nodeHash : Digest → Digest → Digest) (EMPTY0 : Digest)
    (P : Digest → Digest → Prop) (Leaf : Digest → Prop) (store : NodeStore Digest) : Prop where
  hashed : RowsHashed nodeHash P store.get
  closed : Closed nodeHash EMPTY0 Leaf SMT_DEPTH store.get

theorem Sound.putMany {store : NodeStore Digest} (h : Sound nodeHash EMPTY0 P Leaf store)
    {rows : List (NodeRow Digest)}
    (hrows : ∀ row ∈ rows, RowOver nodeHash EMPTY0 P Leaf store rows row) :
    Sound nodeHash EMPTY0 P Leaf (store.putMany rows) := by
  have hx := NodeStore.putMany_extends store rows
  have hknown : ∀ {x}, KnownWith nodeHash EMPTY0 Leaf store rows x →
      Known nodeHash EMPTY0 Leaf SMT_DEPTH (store.putMany rows).get x := by
    rintro x (hx' | ⟨row, hrow, rfl⟩)
    · exact hx'.mono hx
    · exact Or.inr (Or.inr (NodeStore.get_putMany_isSome store hrow))
  constructor
  · intro hash l r hget
    rcases NodeStore.get_putMany_cases hget with hget | ⟨row, hrow, rfl, heq⟩
    · exact h.hashed hash l r hget
    · obtain ⟨rfl, rfl⟩ := Prod.mk.inj heq
      exact (hrows row hrow).1
  · intro hash l r hget
    rcases NodeStore.get_putMany_cases hget with hget | ⟨row, hrow, rfl, heq⟩
    · obtain ⟨hl, hr⟩ := h.closed hash l r hget
      exact ⟨hl.mono hx, hr.mono hx⟩
    · obtain ⟨rfl, rfl⟩ := Prod.mk.inj heq
      exact ⟨hknown (hrows row hrow).2.1, hknown (hrows row hrow).2.2⟩

theorem length_descendFrom (store : NodeStore Digest) (keyBuf : Key) (height depth : Nat)
    (cur : Option Digest) :
    (descendFrom nodeHash EMPTY0 store keyBuf height depth cur).1.length = height := by
  induction height generalizing depth cur with
  | zero => rfl
  | succ height ih =>
    match cur with
    | none => simp [descendFrom, ih]
    | some node =>
      rw [descendFrom]
      split
      · simp [ih]
      · split
        · simp [ih]
        · simp [ih]

/-- The rows an update would write. -/
def updateRows (nodeHash : Digest → Digest → Digest) (EMPTY0 : Digest) (store : NodeStore Digest)
    (root : Digest) (keyBuf : Key) (newLeaf : Option Digest) : List (NodeRow Digest) :=
  (climb nodeHash EMPTY0 keyBuf 0 (descend nodeHash EMPTY0 store root keyBuf).1
    (newLeaf.getD EMPTY0)).pending

/-- An update keeps the store sound from whatever root it starts and however many of its rows
were written. -/
theorem Sound.update {store : NodeStore Digest} (h : Sound nodeHash EMPTY0 P Leaf store)
    (root : Digest) (keyBuf : Key) (newLeaf : Option Digest) (hleaf : ∀ v, newLeaf = some v → Leaf v)
    (hP : ∀ p ∈ (Merkle.update nodeHash EMPTY0 store root keyBuf newLeaf).hashed, P p.1 p.2)
    (n : Nat) : Sound nodeHash EMPTY0 P Leaf
      (store.putMany ((updateRows nodeHash EMPTY0 store root keyBuf newLeaf).take n)) := by
  apply h.putMany
  refine climb_rows keyBuf 0 ?_ ?_ ?_ hP n
  · exact (length_descendFrom store keyBuf SMT_DEPTH 0 _).le
  · cases newLeaf with
    | none => exact Or.inl ⟨0, Nat.zero_le _, rfl⟩
    | some v => exact Or.inr (Or.inl (hleaf v rfl))
  · exact fun x hx => known_of_mem_descendFrom h.closed keyBuf (Nat.le_refl _) hx

theorem buildFull_concat (store : NodeStore Digest) (entries : List (Key × Digest))
    (e : Key × Digest) :
    Merkle.buildFull nodeHash EMPTY0 store (entries ++ [e]) =
      let built := Merkle.buildFull nodeHash EMPTY0 store entries
      let next := Merkle.update nodeHash EMPTY0 built.store built.root e.1 (some e.2)
      { next with hashed := built.hashed ++ next.hashed } := by
  rw [Merkle.buildFull, List.foldl_append]
  rfl

theorem Sound.buildFull {store : NodeStore Digest} (h : Sound nodeHash EMPTY0 P Leaf store)
    {entries : List (Key × Digest)} (hleaves : ∀ e ∈ entries, Leaf e.2)
    (hP : ∀ p ∈ (Merkle.buildFull nodeHash EMPTY0 store entries).hashed, P p.1 p.2) :
    Sound nodeHash EMPTY0 P Leaf (Merkle.buildFull nodeHash EMPTY0 store entries).store := by
  induction entries using List.reverseRecOn with
  | nil => exact h
  | append_singleton entries e ih =>
    rw [buildFull_concat] at hP ⊢
    have hbuilt := ih (fun e he => hleaves e (List.mem_append.mpr (Or.inl he)))
      (fun p hp => hP p (List.mem_append.mpr (Or.inl hp)))
    have hlast := hbuilt.update (Merkle.buildFull nodeHash EMPTY0 store entries).root e.1
      (some e.2)
      (fun v hv => Option.some.inj hv ▸ hleaves e (List.mem_append.mpr (Or.inr List.mem_cons_self)))
      (fun p hp => hP p (List.mem_append.mpr (Or.inr hp)))
    have hall := hlast (updateRows nodeHash EMPTY0 (Merkle.buildFull nodeHash EMPTY0 store entries).store
      (Merkle.buildFull nodeHash EMPTY0 store entries).root e.1 (some e.2)).length
    rwa [List.take_length] at hall

end Closure

/-! ### Stake sets and their digest -/

structure StakeEntry where
  key : Key
  leaf : String
  hex : Bytes.IsHex leaf

/-- A list of entries with distinct keys, as `gatherStakeEntries` returns it. -/
structure StakeSet where
  entries : List StakeEntry
  nodup : (entries.map StakeEntry.key).Nodup

def StakeEntry.pair (e : StakeEntry) : Key × String := (e.key, e.leaf)

def StakeSet.pairs (set : StakeSet) : List (Key × String) := set.entries.map StakeEntry.pair

def pairText (e : Key × String) : String := Bytes.toHex e.1.bytes ++ ":" ++ e.2

/-- What `_stakeEntriesDigest` hashes: the number of the pairs and the sorted pairs. -/
def digestText (pairs : List (Key × String)) : String :=
  let sorted := (pairs.map pairText).mergeSort fun a b => decide (a ≤ b)
  String.ofList ((toString sorted.length).toList ++ '|' :: Joined.join '|' (sorted.map String.toList))

theorem length_encodeChars (bytes : List UInt8) :
    (Bytes.encodeChars bytes).length = 2 * bytes.length := by
  induction bytes with
  | nil => rfl
  | cons b bytes ih =>
    simp only [Bytes.encodeChars, List.flatMap_cons, List.length_append, List.length_cons] at ih ⊢
    rw [ih]
    simp
    omega

theorem pairText_injective : Function.Injective pairText := by
  rintro ⟨k, leaf⟩ ⟨k', leaf'⟩ h
  have hchars := congrArg String.toList h
  simp only [pairText, String.toList_append, Bytes.toHex, String.toList_ofList,
    List.append_assoc] at hchars
  obtain ⟨hkey, hrest⟩ := List.append_inj hchars (by
    rw [length_encodeChars, length_encodeChars, k.length_eq, k'.length_eq])
  have hbytes : k.bytes = k'.bytes := by
    rw [← Bytes.decodeChars_encodeChars k.bytes, hkey, Bytes.decodeChars_encodeChars]
  have hleaf : leaf = leaf' := String.toList_inj.mp (List.append_cancel_left hrest)
  have hk : k = k' := by
    cases k
    cases k'
    congr
  rw [hk, hleaf]

theorem pairText_free (e : StakeEntry) : '|' ∉ (pairText e.pair).toList := by
  have hhex : '|' ∉ Bytes.hexDigits := by
    intro h
    obtain ⟨n, -, hn, -⟩ := Bytes.hexDigit_digit '|' h
    have hnone : JsText.digit 16 '|' = none := by decide
    rw [hnone] at hn
    cases hn
  simp only [pairText, StakeEntry.pair, String.toList_append, List.mem_append, not_or]
  refine ⟨⟨?_, by decide⟩, ?_⟩
  · exact fun h => hhex ((Bytes.isHex_toHex _).2 '|' h)
  · exact fun h => hhex (e.hex.2 '|' h)

theorem append_cons_inj {α : Type} [DecidableEq α] {sep : α} {a a' b b' : List α} (ha : sep ∉ a)
    (ha' : sep ∉ a') (h : a ++ sep :: b = a' ++ sep :: b') : a = a' ∧ b = b' := by
  have htake : ∀ {x y : List α}, sep ∉ x → (x ++ sep :: y).takeWhile (· ≠ sep) = x := by
    intro x y hx
    rw [List.takeWhile_append_of_pos]
    · simp
    · intro z hz
      simpa using fun hzsep : z = sep => hx (hzsep ▸ hz)
  have heq : a = a' := by rw [← htake ha, h, htake ha']
  subst heq
  exact ⟨rfl, (List.cons.inj (List.append_cancel_left h)).2⟩

theorem not_mem_toString {c : Char} (hc : c.isDigit = false) (n : Nat) :
    c ∉ (toString n).toList := by
  intro h
  rw [Nat.toString_eq_repr, Nat.toList_repr] at h
  have hdigit := Nat.isDigit_of_mem_toDigits (by decide) (by decide) h
  rw [hc] at hdigit
  cases hdigit

/-- A digest text tells the set of its entries. -/
theorem perm_of_digestText {set set' : StakeSet} (h : digestText set.pairs = digestText set'.pairs) :
    set.pairs.Perm set'.pairs := by
  let sorted : StakeSet → List String :=
    fun s => (s.pairs.map pairText).mergeSort fun a b => decide (a ≤ b)
  have hperm : ∀ s : StakeSet, (sorted s).Perm (s.pairs.map pairText) :=
    fun s => List.mergeSort_perm _ _
  have hfree : ∀ s : StakeSet, ∀ x ∈ (sorted s).map String.toList, '|' ∉ x := by
    intro s x hx
    obtain ⟨text, htext, rfl⟩ := List.mem_map.mp hx
    obtain ⟨pair, hpair, rfl⟩ := List.mem_map.mp ((hperm s).mem_iff.mp htext)
    obtain ⟨e, -, rfl⟩ := List.mem_map.mp hpair
    exact pairText_free e
  have hchars := String.ofList_injective h
  obtain ⟨hcount, hjoin⟩ := append_cons_inj (not_mem_toString (by decide) _)
    (not_mem_toString (by decide) _) hchars
  have hlength : (sorted set).length = (sorted set').length := by
    have htext := String.toList_inj.mp hcount
    exact Nat.repr_inj.mp (by simpa only [Nat.toString_eq_repr] using htext)
  have hlists := Joined.join_inj
    (by rw [List.length_map, List.length_map]; exact hlength) (hfree set) hjoin
  have hsorted : sorted set = sorted set' :=
    List.map_injective_iff.mpr (fun a b => String.toList_inj.mp) hlists
  have htexts : (set.pairs.map pairText).Perm (set'.pairs.map pairText) :=
    (hperm set).symm.trans (hsorted ▸ hperm set')
  exact (List.map_perm_map_iff pairText_injective).mp htexts

/-! ### The process and its database -/

/-- `_stakesMemo`. -/
structure StakesMemo where
  chain : String
  network : String
  blockIndex : Int
  digest : String
  root : String

/-- `begun` is the store when the open transaction began. `hashed` and `texts` note what the hash
functions are applied to; a call that returns the memo notes the full build it stands for. -/
structure StakesProcess where
  store : NodeStore String
  begun : Option (NodeStore String)
  memo : Option StakesMemo
  hashed : List (String × String)
  texts : List String

/-- One step of the process or of its database. `write` is an update of any tree on the shared
store of which the first `landed` rows were written: the climb writes them in two statements, and
the second may fail. -/
inductive StakesOp where
  | build (chain network : String) (blockIndex : Int) (set : StakeSet)
  | write (root : String) (keyBuf : Key) (newLeaf : Option String) (landed : Nat)
  | beginTransaction
  | commitTransaction
  | rollbackTransaction
  | resetStakesMemo

namespace StakesProcess

def start : StakesProcess := ⟨[], none, none, [], []⟩

section Steps
variable (nodeHash : String → String → String) (EMPTY0 : String) (sha256 : String → String)

/-- The memo's root where it may be returned. -/
def memoRoot (s : StakesProcess) (chain network : String) (blockIndex : Int) (digest : String) :
    Option String :=
  s.memo.bind fun memo =>
    if memo.chain = chain ∧ memo.network = network ∧ memo.blockIndex = blockIndex - 1 ∧
        memo.digest = digest ∧
        (memo.root = EMPTY_SMT_ROOT nodeHash EMPTY0 ∨ (s.store.get memo.root).isSome) then
      some memo.root
    else none

def buildStakesRoot (s : StakesProcess) (chain network : String) (blockIndex : Int)
    (set : StakeSet) : String × StakesProcess :=
  let digest := sha256 (digestText set.pairs)
  let built := buildFull nodeHash EMPTY0 s.store set.pairs
  let noted : StakesProcess :=
    { s with hashed := s.hashed ++ built.hashed, texts := digestText set.pairs :: s.texts }
  match s.memoRoot nodeHash EMPTY0 chain network blockIndex digest with
  | some root => (root, { noted with memo := some ⟨chain, network, blockIndex, digest, root⟩ })
  | none =>
    (built.root, { noted with
      store := built.store
      memo := some ⟨chain, network, blockIndex, digest, built.root⟩ })

def step (s : StakesProcess) : StakesOp → StakesProcess
  | .build chain network blockIndex set =>
    (s.buildStakesRoot nodeHash EMPTY0 sha256 chain network blockIndex set).2
  | .write root keyBuf newLeaf landed =>
    { s with
      store := s.store.putMany ((updateRows nodeHash EMPTY0 s.store root keyBuf newLeaf).take landed)
      hashed := s.hashed ++ (update nodeHash EMPTY0 s.store root keyBuf newLeaf).hashed }
  | .beginTransaction => { s with begun := some s.store }
  | .commitTransaction => { s with begun := none }
  | .rollbackTransaction => { s with store := s.begun.getD s.store, begun := none }
  | .resetStakesMemo => { s with memo := none }

def run (s : StakesProcess) (ops : List StakesOp) : StakesProcess :=
  ops.foldl (step nodeHash EMPTY0 sha256) s

end Steps

end StakesProcess

/-- The value leaves that a step writes. -/
def StakesOp.leaves : StakesOp → List String
  | .build _ _ _ set => set.pairs.map Prod.snd
  | .write _ _ newLeaf _ => newLeaf.toList
  | _ => []

section Assumption
variable (nodeHash : String → String → String) (EMPTY0 : String) (sha256 : String → String)

/-- The pairs `nodeHash` is applied to: those of the EMPTY table and those of the run. -/
def stakesPairs (ops : List StakesOp) : List (String × String) :=
  ((List.range SMT_DEPTH).map fun h => (EMPTY nodeHash EMPTY0 h, EMPTY nodeHash EMPTY0 h)) ++
    (StakesProcess.start.run nodeHash EMPTY0 sha256 ops).hashed

/-- The hash functions have no collision on what the run applies them to, and the tags keep nodes,
leaves and the empty leaf apart. -/
structure NoCollision (ops : List StakesOp) : Prop where
  injective : ∀ p ∈ stakesPairs nodeHash EMPTY0 sha256 ops,
    ∀ q ∈ stakesPairs nodeHash EMPTY0 sha256 ops, nodeHash p.1 p.2 = nodeHash q.1 q.2 → p = q
  node_ne_leaf : ∀ p ∈ stakesPairs nodeHash EMPTY0 sha256 ops, ∀ op ∈ ops, ∀ v ∈ op.leaves,
    nodeHash p.1 p.2 ≠ v
  node_ne_empty : ∀ p ∈ stakesPairs nodeHash EMPTY0 sha256 ops, nodeHash p.1 p.2 ≠ EMPTY0
  leaf_ne_empty : ∀ op ∈ ops, ∀ v ∈ op.leaves, v ≠ EMPTY0
  digest : Set.InjOn sha256 {t | t ∈ (StakesProcess.start.run nodeHash EMPTY0 sha256 ops).texts}

end Assumption

section Memo
variable {nodeHash : String → String → String} {EMPTY0 : String} {sha256 : String → String}
variable {P : String → String → Prop} {Leaf : String → Prop} {T : Set String}

/-- The key-to-leaf map of a stake set. -/
def StakeSet.map (set : StakeSet) : Key → Option String := setAll set.pairs fun _ => none

theorem StakeSet.map_eq_of_perm {set set' : StakeSet} (h : set.pairs.Perm set'.pairs) :
    set.map = set'.map := by
  have hnodup : (set.pairs.map Prod.fst).Nodup := by
    rw [StakeSet.pairs, List.map_map]
    exact set.nodup
  funext k
  have hget := get_ofEntries_perm h hnodup k
  rwa [get_ofEntries, get_ofEntries] at hget

theorem StakeSet.get_ofEntries (set : StakeSet) :
    (SparseMerkleTree.ofEntries set.pairs).get = set.map := Merkle.get_ofEntries set.pairs

/-- What the memo remembers: a stake set that was noted, with the root of its map. -/
def Remembers (nodeHash : String → String → String) (EMPTY0 : String) (sha256 : String → String)
    (P : String → String → Prop) (Leaf : String → Prop) (T : Set String) (memo : StakesMemo) : Prop :=
  ∃ set : StakeSet, memo.digest = sha256 (digestText set.pairs) ∧ digestText set.pairs ∈ T ∧
    memo.root = treeHash bitAt nodeHash EMPTY0 SMT_DEPTH 0 set.map ∧
    Covered bitAt nodeHash EMPTY0 P SMT_DEPTH 0 set.map ∧ Leaves Leaf set.map

structure MemoInv (nodeHash : String → String → String) (EMPTY0 : String)
    (sha256 : String → String) (P : String → String → Prop) (Leaf : String → Prop) (T : Set String)
    (s : StakesProcess) : Prop where
  sound : Sound nodeHash EMPTY0 P Leaf s.store
  begun : ∀ store, s.begun = some store → Sound nodeHash EMPTY0 P Leaf store
  memo : ∀ memo, s.memo = some memo → Remembers nodeHash EMPTY0 sha256 P Leaf T memo

theorem memoRoot_eq_some {s : StakesProcess} {chain network : String} {blockIndex : Int}
    {digest root : String}
    (h : s.memoRoot nodeHash EMPTY0 chain network blockIndex digest = some root) :
    ∃ memo, s.memo = some memo ∧ memo.digest = digest ∧ memo.root = root ∧
      (root = EMPTY_SMT_ROOT nodeHash EMPTY0 ∨ (s.store.get root).isSome) := by
  obtain ⟨memo, hmemo, hif⟩ := Option.bind_eq_some_iff.mp h
  split_ifs at hif with hhit
  obtain rfl := Option.some.inj hif
  exact ⟨memo, hmemo, hhit.2.2.2.1, rfl, hhit.2.2.2.2⟩

/-- A call returns the root of a full build, and its tree is in the store. -/
theorem buildStakesRoot_spec (hT : Tagged nodeHash EMPTY0 P Leaf SMT_DEPTH)
    (hinj : Set.InjOn sha256 T) {s : StakesProcess}
    (hs : MemoInv nodeHash EMPTY0 sha256 P Leaf T s) {chain network : String} {blockIndex : Int}
    {set : StakeSet} (hleaves : ∀ e ∈ set.pairs, Leaf e.2)
    (hP : ∀ p ∈ (buildFull nodeHash EMPTY0 s.store set.pairs).hashed, P p.1 p.2)
    (htext : digestText set.pairs ∈ T) :
    let call := s.buildStakesRoot nodeHash EMPTY0 sha256 chain network blockIndex set
    call.1 = (buildFull nodeHash EMPTY0 s.store set.pairs).root ∧
      Holds nodeHash EMPTY0 P Leaf call.2.store call.1 set.map ∧
      MemoInv nodeHash EMPTY0 sha256 P Leaf T call.2 := by
  obtain ⟨-, -, hbuilt⟩ := buildFull_spec hT.toBinding hs.sound.hashed set.pairs hleaves hP
  have hremembers : ∀ root, root = (buildFull nodeHash EMPTY0 s.store set.pairs).root →
      Remembers nodeHash EMPTY0 sha256 P Leaf T
        ⟨chain, network, blockIndex, sha256 (digestText set.pairs), root⟩ :=
    fun root hroot => ⟨set, rfl, htext, hroot.trans hbuilt.root_eq, hbuilt.covered, hbuilt.leaves⟩
  intro call
  cases hhit : s.memoRoot nodeHash EMPTY0 chain network blockIndex
      (sha256 (digestText set.pairs)) with
  | some root =>
    have hcall : call = (root, { s with
        hashed := s.hashed ++ (buildFull nodeHash EMPTY0 s.store set.pairs).hashed
        texts := digestText set.pairs :: s.texts
        memo := some ⟨chain, network, blockIndex, sha256 (digestText set.pairs), root⟩ }) := by
      simp only [call, StakesProcess.buildStakesRoot, hhit]
    obtain ⟨memo, hmemo, hdigest, rfl, hrow⟩ := memoRoot_eq_some hhit
    obtain ⟨set', hdigest', htext', hroot', hcovered, hleaves'⟩ := hs.memo memo hmemo
    -- equal digests come from equal texts, and those from the same set in some order
    have hmap : set'.map = set.map := StakeSet.map_eq_of_perm
      (perm_of_digestText (hinj htext' htext (hdigest'.symm.trans hdigest)))
    rw [hmap] at hroot' hcovered hleaves'
    have hknown : Known nodeHash EMPTY0 Leaf SMT_DEPTH s.store.get
        (treeHash bitAt nodeHash EMPTY0 SMT_DEPTH 0 set.map) := by
      rw [← hroot']
      rcases hrow with hempty | hsome
      · exact Or.inl ⟨SMT_DEPTH, Nat.le_refl _, hempty⟩
      · exact Or.inr (Or.inr hsome)
    have hstored := stored_of_known hT hs.sound.hashed hs.sound.closed hcovered hleaves' hknown
    have hsame : memo.root = (buildFull nodeHash EMPTY0 s.store set.pairs).root :=
      hroot'.trans hbuilt.root_eq.symm
    rw [hcall]
    refine ⟨hsame, ⟨hroot', hstored, hcovered, hleaves'⟩, hs.sound, hs.begun, ?_⟩
    intro memo' hmemo'
    rw [← Option.some.inj hmemo']
    exact hremembers _ hsame
  | none =>
    have hcall : call = ((buildFull nodeHash EMPTY0 s.store set.pairs).root, { s with
        hashed := s.hashed ++ (buildFull nodeHash EMPTY0 s.store set.pairs).hashed
        texts := digestText set.pairs :: s.texts
        store := (buildFull nodeHash EMPTY0 s.store set.pairs).store
        memo := some ⟨chain, network, blockIndex, sha256 (digestText set.pairs),
          (buildFull nodeHash EMPTY0 s.store set.pairs).root⟩ }) := by
      simp only [call, StakesProcess.buildStakesRoot, hhit]
    rw [hcall]
    refine ⟨rfl, hbuilt, hs.sound.buildFull hleaves hP, hs.begun, ?_⟩
    intro memo' hmemo'
    rw [← Option.some.inj hmemo']
    exact hremembers _ rfl

section Noted
variable (nodeHash EMPTY0 sha256)

/-- What the hash functions were applied to stays noted. -/
theorem noted_step (s : StakesProcess) (op : StakesOp) :
    (∀ p ∈ s.hashed, p ∈ (s.step nodeHash EMPTY0 sha256 op).hashed) ∧
      ∀ t ∈ s.texts, t ∈ (s.step nodeHash EMPTY0 sha256 op).texts := by
  cases op with
  | build chain network blockIndex set =>
    simp only [StakesProcess.step, StakesProcess.buildStakesRoot]
    split
    all_goals exact ⟨fun p hp => List.mem_append.mpr (Or.inl hp), fun t ht => List.mem_cons_of_mem _ ht⟩
  | write root keyBuf newLeaf landed =>
    exact ⟨fun p hp => List.mem_append.mpr (Or.inl hp), fun t ht => ht⟩
  | beginTransaction | commitTransaction | rollbackTransaction | resetStakesMemo =>
    exact ⟨fun p hp => hp, fun t ht => ht⟩

theorem noted_run (s : StakesProcess) (ops : List StakesOp) :
    (∀ p ∈ s.hashed, p ∈ (s.run nodeHash EMPTY0 sha256 ops).hashed) ∧
      ∀ t ∈ s.texts, t ∈ (s.run nodeHash EMPTY0 sha256 ops).texts := by
  induction ops generalizing s with
  | nil => exact ⟨fun p hp => hp, fun t ht => ht⟩
  | cons op ops ih =>
    obtain ⟨hhashed, htexts⟩ := noted_step nodeHash EMPTY0 sha256 s op
    obtain ⟨hhashed', htexts'⟩ := ih (s.step nodeHash EMPTY0 sha256 op)
    exact ⟨fun p hp => hhashed' p (hhashed p hp), fun t ht => htexts' t (htexts t ht)⟩

theorem noted_build (s : StakesProcess) (chain network : String) (blockIndex : Int)
    (set : StakeSet) :
    let call := s.buildStakesRoot nodeHash EMPTY0 sha256 chain network blockIndex set
    call.2.hashed = s.hashed ++ (buildFull nodeHash EMPTY0 s.store set.pairs).hashed ∧
      call.2.texts = digestText set.pairs :: s.texts := by
  simp only [StakesProcess.buildStakesRoot]
  split
  · exact ⟨rfl, rfl⟩
  · exact ⟨rfl, rfl⟩

end Noted

theorem memoInv_step (hT : Tagged nodeHash EMPTY0 P Leaf SMT_DEPTH) (hinj : Set.InjOn sha256 T)
    {s : StakesProcess} (hs : MemoInv nodeHash EMPTY0 sha256 P Leaf T s) {op : StakesOp}
    (hleaves : ∀ v ∈ op.leaves, Leaf v)
    (hP : ∀ p ∈ (s.step nodeHash EMPTY0 sha256 op).hashed, P p.1 p.2)
    (htexts : ∀ t ∈ (s.step nodeHash EMPTY0 sha256 op).texts, t ∈ T) :
    MemoInv nodeHash EMPTY0 sha256 P Leaf T (s.step nodeHash EMPTY0 sha256 op) := by
  cases op with
  | build chain network blockIndex set =>
    obtain ⟨hhashed, htext⟩ := noted_build nodeHash EMPTY0 sha256 s chain network blockIndex set
    refine (buildStakesRoot_spec hT hinj hs ?_ ?_ ?_).2.2
    · exact fun e he => hleaves e.2 (List.mem_map_of_mem he)
    · exact fun p hp => hP p (hhashed ▸ List.mem_append.mpr (Or.inr hp))
    · exact htexts _ (htext ▸ List.mem_cons_self)
  | write root keyBuf newLeaf landed =>
    refine ⟨?_, hs.begun, hs.memo⟩
    refine hs.sound.update root keyBuf newLeaf ?_ ?_ landed
    · exact fun v hv => hleaves v (by rw [hv]; exact List.mem_singleton_self v)
    · exact fun p hp => hP p (List.mem_append.mpr (Or.inr hp))
  | beginTransaction =>
    refine ⟨hs.sound, fun store hstore => ?_, hs.memo⟩
    rw [← Option.some.inj hstore]
    exact hs.sound
  | commitTransaction => exact ⟨hs.sound, fun _ hstore => absurd hstore nofun, hs.memo⟩
  | rollbackTransaction =>
    refine ⟨?_, fun _ hstore => absurd hstore nofun, hs.memo⟩
    simp only [StakesProcess.step]
    cases hbegun : s.begun with
    | none => exact hs.sound
    | some store => exact hs.begun store hbegun
  | resetStakesMemo => exact ⟨hs.sound, hs.begun, fun _ hmemo => absurd hmemo nofun⟩

theorem memoInv_run (hT : Tagged nodeHash EMPTY0 P Leaf SMT_DEPTH) (hinj : Set.InjOn sha256 T)
    {ops : List StakesOp} {s : StakesProcess} (hs : MemoInv nodeHash EMPTY0 sha256 P Leaf T s)
    (hleaves : ∀ op ∈ ops, ∀ v ∈ op.leaves, Leaf v)
    (hP : ∀ p ∈ (s.run nodeHash EMPTY0 sha256 ops).hashed, P p.1 p.2)
    (htexts : ∀ t ∈ (s.run nodeHash EMPTY0 sha256 ops).texts, t ∈ T) :
    MemoInv nodeHash EMPTY0 sha256 P Leaf T (s.run nodeHash EMPTY0 sha256 ops) := by
  induction ops generalizing s with
  | nil => exact hs
  | cons op ops ih =>
    obtain ⟨hhashed, htexts'⟩ := noted_run nodeHash EMPTY0 sha256 (s.step nodeHash EMPTY0 sha256 op) ops
    have hstep := memoInv_step hT hinj hs (hleaves op List.mem_cons_self)
      (fun p hp => hP p (hhashed p hp)) (fun t ht => htexts t (htexts' t ht))
    exact ih hstep (fun op' hop' => hleaves op' (List.mem_cons_of_mem op hop')) hP htexts

theorem memoInv_start :
    MemoInv nodeHash EMPTY0 sha256 P Leaf T StakesProcess.start where
  sound := ⟨fun _ _ _ hget => absurd hget nofun, fun _ _ _ hget => absurd hget nofun⟩
  begun := fun _ hstore => absurd hstore nofun
  memo := fun _ hmemo => absurd hmemo nofun

theorem tagged_of_noCollision {ops : List StakesOp}
    (h : NoCollision nodeHash EMPTY0 sha256 ops) :
    Tagged nodeHash EMPTY0 (fun a b => (a, b) ∈ stakesPairs nodeHash EMPTY0 sha256 ops)
      (fun v => ∃ op ∈ ops, v ∈ op.leaves) SMT_DEPTH where
  inj := fun hp hq heq => Prod.mk.inj (h.injective _ hp _ hq heq)
  leaf_ne := fun ⟨op, hop, hv⟩ => h.leaf_ne_empty op hop _ hv
  empties := fun n hn =>
    List.mem_append.mpr (Or.inl (List.mem_map.mpr ⟨n, List.mem_range.mpr hn, rfl⟩))
  node_not_leaf := fun hp ⟨op, hop, hv⟩ => h.node_ne_leaf _ hp op hop _ hv rfl
  node_ne_empty := fun hp => h.node_ne_empty _ hp

/-- In every run every call of `buildStakesRoot` returns the root of a full build of its entries,
which is that of the reference tree, and leaves every node of that tree in the store. -/
theorem stakes_roots_are_full_builds {before after : List StakesOp} {chain network : String}
    {blockIndex : Int} {set : StakeSet}
    (h : NoCollision nodeHash EMPTY0 sha256
      (before ++ .build chain network blockIndex set :: after)) :
    let s := StakesProcess.start.run nodeHash EMPTY0 sha256 before
    let call := s.buildStakesRoot nodeHash EMPTY0 sha256 chain network blockIndex set
    call.1 = (buildFull nodeHash EMPTY0 s.store set.pairs).root ∧
      call.1 = (SparseMerkleTree.ofEntries set.pairs).root nodeHash EMPTY0 ∧
      Stored bitAt nodeHash EMPTY0 call.2.store.get SMT_DEPTH 0
        (SparseMerkleTree.ofEntries set.pairs).get := by
  intro s call
  have hT := tagged_of_noCollision h
  let ops := before ++ .build chain network blockIndex set :: after
  let final := StakesProcess.start.run nodeHash EMPTY0 sha256 ops
  have hfinal : final = StakesProcess.run nodeHash EMPTY0 sha256 call.2 after := by
    simp only [final, ops, StakesProcess.run, List.foldl_append, List.foldl_cons]
    rfl
  obtain ⟨hnoted, htexts⟩ := noted_run nodeHash EMPTY0 sha256 call.2 after
  rw [← hfinal] at hnoted htexts
  obtain ⟨hcall, htext⟩ := noted_build nodeHash EMPTY0 sha256 s chain network blockIndex set
  have hpairs : ∀ p ∈ call.2.hashed, p ∈ stakesPairs nodeHash EMPTY0 sha256 ops :=
    fun p hp => List.mem_append.mpr (Or.inr (hnoted p hp))
  have hs : MemoInv nodeHash EMPTY0 sha256
      (fun a b => (a, b) ∈ stakesPairs nodeHash EMPTY0 sha256 ops)
      (fun v => ∃ op ∈ ops, v ∈ op.leaves) {t | t ∈ final.texts} s := by
    refine memoInv_run hT h.digest memoInv_start ?_ ?_ ?_
    · exact fun op hop v hv => ⟨op, List.mem_append.mpr (Or.inl hop), hv⟩
    · exact fun p hp => hpairs p (hcall ▸ List.mem_append.mpr (Or.inl hp))
    · exact fun t ht => htexts t (htext ▸ List.mem_cons_of_mem _ ht)
  obtain ⟨hroot, hholds, -⟩ := @buildStakesRoot_spec _ _ _ _ _ _ hT h.digest s hs chain network
    blockIndex set (fun e he => ⟨_, List.mem_append.mpr (Or.inr List.mem_cons_self), List.mem_map_of_mem he⟩)
    (fun p hp => hpairs p (hcall ▸ List.mem_append.mpr (Or.inr hp)))
    (htexts _ (htext ▸ List.mem_cons_self))
  refine ⟨hroot, ?_, ?_⟩
  · rw [SparseMerkleTree.root_eq_treeHash, set.get_ofEntries]
    exact hholds.root_eq
  · rw [set.get_ofEntries]
    exact hholds.stored

end Memo

/-! ### A run by hand -/

/-- A node hash that writes its children out, behind the length of the left one. -/
def writtenNode (left right : String) : String :=
  String.ofList ('n' :: ((toString left.length).toList ++ ':' :: (left.toList ++ right.toList)))

theorem writtenNode_inj {l r l' r' : String} (h : writtenNode l r = writtenNode l' r') :
    l = l' ∧ r = r' := by
  have hchars := (List.cons.inj (String.ofList_injective h)).2
  obtain ⟨hcount, hrest⟩ := append_cons_inj (not_mem_toString (by decide) _)
    (not_mem_toString (by decide) _) hchars
  have hlength : l.length = l'.length := by
    have htext := String.toList_inj.mp hcount
    exact Nat.repr_inj.mp (by simpa only [Nat.toString_eq_repr] using htext)
  obtain ⟨hl, hr⟩ := List.append_inj hrest hlength
  exact ⟨String.toList_inj.mp hl, String.toList_inj.mp hr⟩

theorem writtenNode_ne {l r s : String} (h : s.toList.head? ≠ some 'n') : writtenNode l r ≠ s := by
  rintro rfl
  exact h (by rw [writtenNode, String.toList_ofList]; rfl)

def oneStake : StakeSet where
  entries := [⟨zeroKey, Bytes.toHex [0xab], Bytes.isHex_toHex _⟩]
  nodup := List.nodup_singleton _

/-- A block is applied and rolled back, the next one is applied over the memo of the first, and a
third one after a commit. -/
def rolledBackRun : List StakesOp :=
  [.beginTransaction, .build "BTC" "mainnet" 10 oneStake, .rollbackTransaction, .beginTransaction,
    .build "BTC" "mainnet" 11 oneStake, .commitTransaction]

theorem memo_after_rollback :
    let s := StakesProcess.start.run writtenNode "" id rolledBackRun
    let call := s.buildStakesRoot writtenNode "" id "BTC" "mainnet" 12 oneStake
    call.1 = (SparseMerkleTree.ofEntries oneStake.pairs).root writtenNode "" ∧
      Stored bitAt writtenNode "" call.2.store.get SMT_DEPTH 0
        (SparseMerkleTree.ofEntries oneStake.pairs).get := by
  have hleaves : ∀ op ∈ rolledBackRun ++ [.build "BTC" "mainnet" 12 oneStake], ∀ v ∈ op.leaves,
      v = Bytes.toHex [0xab] := by
    intro op hop v hv
    simp only [rolledBackRun, List.cons_append, List.nil_append, List.mem_cons, List.not_mem_nil,
      or_false] at hop
    rcases hop with rfl | rfl | rfl | rfl | rfl | rfl | rfl
    all_goals simp_all [StakesOp.leaves, StakeSet.pairs, oneStake, StakeEntry.pair]
  have hnone : NoCollision writtenNode "" id
      (rolledBackRun ++ [.build "BTC" "mainnet" 12 oneStake]) :=
    { injective := fun p _ q _ h => Prod.ext (writtenNode_inj h).1 (writtenNode_inj h).2
      node_ne_leaf := fun p _ op hop v hv => by
        rw [hleaves op hop v hv]
        exact writtenNode_ne (by decide)
      node_ne_empty := fun p _ => writtenNode_ne (by decide)
      leaf_ne_empty := fun op hop v hv => by
        rw [hleaves op hop v hv]
        decide
      digest := Function.injective_id.injOn }
  exact (stakes_roots_are_full_builds hnone).2

end XChainSync.Merkle
