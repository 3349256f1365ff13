import Mathlib.Logic.Function.Basic

/-!
# Sparse hash trees, independently of any node store

`treeHash n d m` is the root of the height-`n` subtree that holds the map `m`, branching on
the key bits from depth `d` on. Nothing below assumes that `node` is injective: the binding
facts ask for it on the pairs of a predicate `P` only, and `Covered P n d m` says that the
tree of `m` hashes no other pair.
-/

namespace HashTree
set_option autoImplicit false

universe u v
variable {K : Type u} {H : Type v}

section Shape
variable (bit : K → Nat → Bool) (node : H → H → H) (empty0 : H)

/-- Root of an all-empty subtree of the given height. -/
def emptyHash : Nat → H
  | 0 => empty0
  | n+1 => node (emptyHash n) (emptyHash n)

/-- The part of a map whose keys take branch `b` at depth `d`. -/
def side (m : K → Option H) (d : Nat) (b : Bool) : K → Option H :=
  fun k => if bit k d = b then m k else none

def Vacant (m : K → Option H) : Prop := ∀ k, m k = none

open Classical in
/-- The leaf level picks the one value left; `Under` is what makes it unique. -/
noncomputable def treeHash : Nat → Nat → (K → Option H) → H
  | 0, _, m => if h : ∃ v k, m k = some v then h.choose else empty0
  | n+1, d, m => node (treeHash n (d+1) (side bit m d false)) (treeHash n (d+1) (side bit m d true))

/-- Sibling hashes on the way to `k`, from the top down. -/
noncomputable def siblings : Nat → Nat → (K → Option H) → K → List H
  | 0, _, _, _ => []
  | n+1, d, m, k =>
      treeHash bit node empty0 n (d+1) (side bit m d (!bit k d)) ::
        siblings n (d+1) (side bit m d (bit k d)) k

/-- The two children of the node at depth `d` on the path of `k`. -/
def children (k : K) (d : Nat) (sibling cur : H) : H × H :=
  if bit k d then (sibling, cur) else (cur, sibling)

/-- Every key of `m` agrees with `k` on the bits above depth `d`. -/
def Under (k : K) (d : Nat) (m : K → Option H) : Prop :=
  ∀ k', m k' ≠ none → ∀ i < d, bit k' i = bit k i

/-- The first `depth` bits tell keys apart. -/
def Separates (depth : Nat) : Prop := ∀ k k', (∀ i < depth, bit k i = bit k' i) → k = k'

theorem side_of_ne {m : K → Option H} {d : Nat} {b : Bool} {k : K} (h : bit k d ≠ b) :
    side bit m d b k = none := by simp [side, h]

theorem side_update_same (m : K → Option H) (d : Nat) (k : K) (v : Option H) [DecidableEq K] :
    side bit (Function.update m k v) d (bit k d) =
      Function.update (side bit m d (bit k d)) k v := by
  funext k'
  by_cases hk : k' = k
  · subst k'; simp [side]
  · simp [side, Function.update_of_ne hk]

theorem side_update_other (m : K → Option H) (d : Nat) (k : K) (v : Option H) [DecidableEq K] :
    side bit (Function.update m k v) d (!bit k d) = side bit m d (!bit k d) := by
  funext k'
  by_cases hk : k' = k
  · subst k'; simp [side]
  · simp [side, Function.update_of_ne hk]

theorem vacant_side {m : K → Option H} (h : Vacant m) (d : Nat) (b : Bool) :
    Vacant (side bit m d b) := by
  intro k
  simp [side, h k]

theorem vacant_of_sides {m : K → Option H} {d : Nat} (hf : Vacant (side bit m d false))
    (ht : Vacant (side bit m d true)) : Vacant m := by
  intro k
  cases hb : bit k d with
  | false => simpa [side, hb] using hf k
  | true => simpa [side, hb] using ht k

theorem Under.side {k : K} {d : Nat} {m : K → Option H} (h : Under bit k d m) :
    Under bit k (d+1) (side bit m d (bit k d)) := by
  intro k' hk' i hi
  by_cases hb : bit k' d = bit k d
  · rcases Nat.lt_succ_iff_lt_or_eq.mp hi with hlt | heq
    · exact h k' (by simpa [HashTree.side, hb] using hk') i hlt
    · subst i; exact hb
  · exact absurd (side_of_ne bit hb) hk'

theorem treeHash_vacant {m : K → Option H} (h : Vacant m) (n d : Nat) :
    treeHash bit node empty0 n d m = emptyHash node empty0 n := by
  induction n generalizing d m with
  | zero => simp [treeHash, emptyHash, h _]
  | succ n ih =>
    simp only [treeHash, emptyHash, ih (vacant_side bit h d false), ih (vacant_side bit h d true)]

/-- Along the path of `k` the node value is hashed from its child on the path and a sibling. -/
theorem treeHash_children (n d : Nat) (m : K → Option H) (k : K) :
    treeHash bit node empty0 (n+1) d m =
      node (children bit k d (treeHash bit node empty0 n (d+1) (side bit m d (!bit k d)))
          (treeHash bit node empty0 n (d+1) (side bit m d (bit k d)))).1
        (children bit k d (treeHash bit node empty0 n (d+1) (side bit m d (!bit k d)))
          (treeHash bit node empty0 n (d+1) (side bit m d (bit k d)))).2 := by
  cases hb : bit k d <;> simp [treeHash, children, hb]

theorem Under.eq_of_ne_none {depth : Nat} (hsep : Separates bit depth) {k k' : K}
    {m : K → Option H} (h : Under bit k depth m) (hk' : m k' ≠ none) : k' = k :=
  hsep k' k (h k' hk')

theorem treeHash_leaf {depth : Nat} (hsep : Separates bit depth) {k : K} {m : K → Option H}
    (h : Under bit k depth m) (d : Nat) :
    treeHash bit node empty0 0 d m = (m k).getD empty0 := by
  unfold treeHash
  split
  · rename_i hv
    obtain ⟨k', hk'⟩ := hv.choose_spec
    have he : k' = k := h.eq_of_ne_none bit hsep (by simp [hk'])
    rw [← he, hk', Option.getD_some]
  · rename_i hv
    cases hm : m k with
    | none => rfl
    | some v => exact absurd ⟨v, k, hm⟩ hv

theorem Under.update [DecidableEq K] {k : K} {d : Nat} {m : K → Option H}
    (h : Under bit k d m) (v : Option H) : Under bit k d (Function.update m k v) := by
  intro k' hk' i hi
  by_cases he : k' = k
  · rw [he]
  · exact h k' (by simpa [Function.update_of_ne he] using hk') i hi

end Shape

section Binding
variable (bit : K → Nat → Bool) (node : H → H → H) (empty0 : H)
variable (P : H → H → Prop) (Leaf : H → Prop) (depth : Nat)

/-- What is asked of the hash, on the pairs of `P` only. -/
structure Binding : Prop where
  inj : ∀ {a b c d}, P a b → P c d → node a b = node c d → a = c ∧ b = d
  leaf_ne : ∀ {v}, Leaf v → v ≠ empty0
  empties : ∀ n < depth, P (emptyHash node empty0 n) (emptyHash node empty0 n)

/-- Every pair the tree of `m` hashes satisfies `P`. -/
def Covered : Nat → Nat → (K → Option H) → Prop
  | 0, _, _ => True
  | n+1, d, m =>
      P (treeHash bit node empty0 n (d+1) (side bit m d false))
        (treeHash bit node empty0 n (d+1) (side bit m d true)) ∧
      Covered n (d+1) (side bit m d false) ∧ Covered n (d+1) (side bit m d true)

def Leaves (m : K → Option H) : Prop := ∀ k v, m k = some v → Leaf v

variable {bit node empty0 P Leaf depth}

theorem Leaves.side {m : K → Option H} (h : Leaves Leaf m) (d : Nat) (b : Bool) :
    Leaves Leaf (side bit m d b) := by
  intro k v hv
  by_cases hb : bit k d = b
  · exact h k v (by simpa [HashTree.side, hb] using hv)
  · simp [HashTree.side, hb] at hv

theorem Leaves.update [DecidableEq K] {m : K → Option H} (h : Leaves Leaf m) (k : K)
    {v : Option H} (hv : ∀ w, v = some w → Leaf w) : Leaves Leaf (Function.update m k v) := by
  intro k' w hw
  by_cases he : k' = k
  · subst k'; exact hv w (by simpa using hw)
  · exact h k' w (by simpa [Function.update_of_ne he] using hw)

theorem covered_vacant (hempty : ∀ n < depth, P (emptyHash node empty0 n) (emptyHash node empty0 n))
    {m : K → Option H} (hm : Vacant m) (n d : Nat) (hn : n ≤ depth) :
    Covered bit node empty0 P n d m := by
  induction n generalizing d m with
  | zero => trivial
  | succ n ih =>
    refine ⟨?_, ih (vacant_side bit hm d false) _ (by omega),
      ih (vacant_side bit hm d true) _ (by omega)⟩
    rw [treeHash_vacant bit node empty0 (vacant_side bit hm d false),
      treeHash_vacant bit node empty0 (vacant_side bit hm d true)]
    exact hempty n (by omega)

/-- An empty-subtree constant is the root of no other map of its height than the empty one. -/
theorem vacant_of_treeHash_eq (hB : Binding node empty0 P Leaf depth) {n d : Nat}
    {m : K → Option H} (hn : n ≤ depth) (hc : Covered bit node empty0 P n d m)
    (hl : Leaves Leaf m) (h : treeHash bit node empty0 n d m = emptyHash node empty0 n) :
    Vacant m := by
  induction n generalizing d m with
  | zero =>
    unfold treeHash at h
    split at h
    · rename_i hv
      obtain ⟨k, hk⟩ := hv.choose_spec
      exact absurd h (hB.leaf_ne (hl k _ hk))
    · rename_i hv
      intro k
      cases hm : m k with
      | none => rfl
      | some v => exact absurd ⟨v, k, hm⟩ hv
  | succ n ih =>
    obtain ⟨hp, hf, ht⟩ := hc
    obtain ⟨hleft, hright⟩ := hB.inj hp (hB.empties n (by omega)) h
    apply vacant_of_sides bit (d := d)
    · exact ih (by omega) hf (hl.side d false) hleft
    · exact ih (by omega) ht (hl.side d true) hright

end Binding

section Store
variable (bit : K → Nat → Bool) (node : H → H → H) (empty0 : H)

/-- A content-addressed store `get` holds every node of the tree of `m`. -/
def Stored (get : H → Option (H × H)) : Nat → Nat → (K → Option H) → Prop
  | 0, _, _ => True
  | n+1, d, m => Vacant m ∨
      (get (treeHash bit node empty0 (n+1) d m) =
          some (treeHash bit node empty0 n (d+1) (side bit m d false),
            treeHash bit node empty0 n (d+1) (side bit m d true)) ∧
        Stored get n (d+1) (side bit m d false) ∧ Stored get n (d+1) (side bit m d true))

/-- A store `get` holds the nodes of the tree of `m` on the path of `k`. -/
def PathStored (get : H → Option (H × H)) (k : K) : Nat → Nat → (K → Option H) → Prop
  | 0, _, _ => True
  | n+1, d, m => (Vacant m ∨
      get (treeHash bit node empty0 (n+1) d m) =
        some (treeHash bit node empty0 n (d+1) (side bit m d false),
          treeHash bit node empty0 n (d+1) (side bit m d true))) ∧
      PathStored get k n (d+1) (side bit m d (bit k d))

def Extends (get get' : H → Option (H × H)) : Prop := ∀ h r, get h = some r → get' h = some r

/-- Every row is filed under the hash of its own children. -/
def RowsHashed (P : H → H → Prop) (get : H → Option (H × H)) : Prop :=
  ∀ h l r, get h = some (l, r) → P l r ∧ node l r = h

variable {bit node empty0}

theorem stored_vacant {get : H → Option (H × H)} {m : K → Option H} (h : Vacant m) (n d : Nat) :
    Stored bit node empty0 get n d m := by
  cases n with
  | zero => trivial
  | succ n => exact Or.inl h

theorem Stored.side {get : H → Option (H × H)} {n d : Nat} {m : K → Option H}
    (h : Stored bit node empty0 get (n+1) d m) (b : Bool) :
    Stored bit node empty0 get n (d+1) (side bit m d b) := by
  rcases h with hv | ⟨-, hf, ht⟩
  · exact stored_vacant (vacant_side bit hv d b) _ _
  · cases b
    · exact hf
    · exact ht

theorem Stored.mono {get get' : H → Option (H × H)} (hx : Extends get get') {n d : Nat}
    {m : K → Option H} (h : Stored bit node empty0 get n d m) :
    Stored bit node empty0 get' n d m := by
  induction n generalizing d m with
  | zero => trivial
  | succ n ih =>
    rcases h with hv | ⟨hg, hf, ht⟩
    · exact Or.inl hv
    · exact Or.inr ⟨hx _ _ hg, ih hf, ih ht⟩

/-- Only the nodes on the path of `k` have to be new after an update at `k`. -/
theorem stored_update [DecidableEq K] {get get' : H → Option (H × H)} (hx : Extends get get')
    {n d : Nat} {m : K → Option H} {k : K} {v : Option H}
    (hs : Stored bit node empty0 get n d m)
    (hp : PathStored bit node empty0 get' k n d (Function.update m k v)) :
    Stored bit node empty0 get' n d (Function.update m k v) := by
  induction n generalizing d m with
  | zero => trivial
  | succ n ih =>
    obtain ⟨hrow, hrest⟩ := hp
    rw [side_update_same] at hrest
    have hon := ih (hs.side (bit k d)) hrest
    have hoff := (hs.side (!bit k d)).mono hx
    rw [← side_update_same] at hon
    rw [← side_update_other bit m d k v] at hoff
    rcases hrow with hv | hg
    · exact Or.inl hv
    · refine Or.inr ⟨hg, ?_⟩
      cases hb : bit k d with
      | false =>
        simp only [hb, Bool.not_false] at hon hoff
        exact ⟨hon, hoff⟩
      | true =>
        simp only [hb, Bool.not_true] at hon hoff
        exact ⟨hoff, hon⟩

end Store

section Whole
variable (node : H → H → H) (empty0 : H)

/-- Every node of the tree under a digest has its row, down to empty subtrees. -/
def Whole (get : H → Option (H × H)) : Nat → H → Prop
  | 0, _ => True
  | n+1, x => x = emptyHash node empty0 (n+1) ∨
      ∃ l r, get x = some (l, r) ∧ Whole get n l ∧ Whole get n r

variable {bit : K → Nat → Bool} {node empty0} {P : H → H → Prop} {Leaf : H → Prop} {depth : Nat}

/-- A store with the whole tree under the root of a map holds the tree of that map. -/
theorem stored_of_whole (hB : Binding node empty0 P Leaf depth) {get : H → Option (H × H)}
    (hR : RowsHashed node P get) {n d : Nat} (hn : n ≤ depth) {m : K → Option H}
    (hc : Covered bit node empty0 P n d m) (hl : Leaves Leaf m)
    (hw : Whole node empty0 get n (treeHash bit node empty0 n d m)) :
    Stored bit node empty0 get n d m := by
  induction n generalizing d m with
  | zero => trivial
  | succ n ih =>
    obtain ⟨hpair, hcf, hct⟩ := hc
    rcases hw with hempty | ⟨l, r, hget, hwl, hwr⟩
    · exact Or.inl (vacant_of_treeHash_eq hB hn ⟨hpair, hcf, hct⟩ hl hempty)
    · obtain ⟨hp, hnode⟩ := hR _ _ _ hget
      obtain ⟨rfl, rfl⟩ := hB.inj hp hpair hnode
      exact Or.inr ⟨hget, ih (by omega) hcf (hl.side d false) hwl,
        ih (by omega) hct (hl.side d true) hwr⟩

end Whole

section Closed
variable (bit : K → Nat → Bool) (node : H → H → H) (empty0 : H)
variable (P : H → H → Prop) (Leaf : H → Prop) (depth : Nat)

/-- A binding that also tells the hash of a pair from a leaf and from the empty leaf. -/
structure Tagged : Prop extends Binding node empty0 P Leaf depth where
  node_not_leaf : ∀ {a b}, P a b → ¬ Leaf (node a b)
  node_ne_empty : ∀ {a b}, P a b → node a b ≠ empty0

/-- An empty constant, a leaf, or a node with a row. -/
def Known (get : H → Option (H × H)) (x : H) : Prop :=
  (∃ n ≤ depth, x = emptyHash node empty0 n) ∨ Leaf x ∨ (get x).isSome

/-- Both children of every row are known. -/
def Closed (get : H → Option (H × H)) : Prop :=
  ∀ h l r, get h = some (l, r) →
    Known node empty0 Leaf depth get l ∧ Known node empty0 Leaf depth get r

variable {bit node empty0 P Leaf depth}

theorem Known.mono {get get' : H → Option (H × H)} (hx : Extends get get') {x : H}
    (h : Known node empty0 Leaf depth get x) : Known node empty0 Leaf depth get' x := by
  rcases h with h | h | h
  · exact Or.inl h
  · exact Or.inr (Or.inl h)
  · obtain ⟨row, hrow⟩ := Option.isSome_iff_exists.mp h
    exact Or.inr (Or.inr (Option.isSome_iff_exists.mpr ⟨row, hx x row hrow⟩))

/-- An empty constant of whatever height is the root of no map but the empty one. -/
theorem vacant_of_treeHash_eq_emptyHash (hT : Tagged node empty0 P Leaf depth) {n d k : Nat}
    {m : K → Option H} (hk : k ≤ depth) (hc : Covered bit node empty0 P n d m)
    (hl : Leaves Leaf m) (h : treeHash bit node empty0 n d m = emptyHash node empty0 k) :
    Vacant m := by
  induction n generalizing d m k with
  | zero =>
    unfold treeHash at h
    split at h
    · rename_i hv
      obtain ⟨x, hx⟩ := hv.choose_spec
      have hleaf := hl x _ hx
      cases k with
      | zero => exact absurd h (hT.leaf_ne hleaf)
      | succ k =>
        rw [h] at hleaf
        exact absurd hleaf (hT.node_not_leaf (hT.empties k (by omega)))
    · rename_i hv
      intro x
      cases hm : m x with
      | none => rfl
      | some v => exact absurd ⟨v, x, hm⟩ hv
  | succ n ih =>
    obtain ⟨hp, hf, ht⟩ := hc
    cases k with
    | zero => exact absurd h (hT.node_ne_empty hp)
    | succ k =>
      obtain ⟨hleft, hright⟩ := hT.inj hp (hT.empties k (by omega)) h
      apply vacant_of_sides bit (d := d)
      · exact ih (by omega) hf (hl.side d false) hleft
      · exact ih (by omega) ht (hl.side d true) hright

/-- In a closed store a tree is stored as soon as its root is known. -/
theorem stored_of_known (hT : Tagged node empty0 P Leaf depth) {get : H → Option (H × H)}
    (hS : RowsHashed node P get) (hC : Closed node empty0 Leaf depth get) {n d : Nat}
    {m : K → Option H} (hc : Covered bit node empty0 P n d m) (hl : Leaves Leaf m)
    (h : Known node empty0 Leaf depth get (treeHash bit node empty0 n d m)) :
    Stored bit node empty0 get n d m := by
  induction n generalizing d m with
  | zero => trivial
  | succ n ih =>
    have hcovered := hc
    obtain ⟨hp, hf, ht⟩ := hc
    rcases h with ⟨k, hk, h⟩ | h | h
    · exact Or.inl (vacant_of_treeHash_eq_emptyHash hT hk hcovered hl h)
    · exact absurd h (hT.node_not_leaf hp)
    · obtain ⟨⟨l, r⟩, hrow⟩ := Option.isSome_iff_exists.mp h
      obtain ⟨hp', heq⟩ := hS _ _ _ hrow
      obtain ⟨rfl, rfl⟩ := hT.inj hp' hp heq
      obtain ⟨hleft, hright⟩ := hC _ _ _ hrow
      exact Or.inr ⟨hrow, ih hf (hl.side d false) hleft, ih ht (hl.side d true) hright⟩

end Closed

end HashTree
