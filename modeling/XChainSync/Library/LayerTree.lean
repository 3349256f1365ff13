import Mathlib.Data.List.Basic
import Mathlib.Tactic.Ring

/-!
# Binary hash trees built layer by layer

A layer is hashed pair by pair into the next one; a last node without a partner is paired with
itself. `climb` hashes a value with the siblings of a path, the low bit of the index first. As in
the sparse trees, injectivity of `node` is asked on the pairs of a predicate only.
-/

namespace LayerTree
set_option autoImplicit false

universe u
variable {H : Type u}

def pairs : List H → List (H × H)
  | [] => []
  | [x] => [(x, x)]
  | x :: y :: rest => (x, y) :: pairs rest

theorem length_pairs (l : List H) : (pairs l).length = (l.length + 1) / 2 := by
  fun_induction pairs l with
  | case1 => simp
  | case2 x => simp
  | case3 x y rest ih =>
    simp only [List.length_cons, ih]
    omega

theorem pairs_getElem? (l : List H) (j : Nat) :
    (pairs l)[j]? = l[2*j]?.map fun x => (x, l[2*j+1]?.getD x) := by
  fun_induction pairs l generalizing j with
  | case1 => simp
  | case2 x => cases j <;> simp [Nat.mul_add]
  | case3 x y rest ih =>
    cases j with
    | zero => simp
    | succ j => simpa [Nat.mul_add] using ih j

theorem mem_pairs {l : List H} {p : H × H} (h : p ∈ pairs l) : p.1 ∈ l ∧ p.2 ∈ l := by
  fun_induction pairs l with
  | case1 => simp at h
  | case2 x => simp_all
  | case3 x y rest ih =>
    rcases List.mem_cons.mp h with rfl | h
    · simp
    · obtain ⟨hl, hr⟩ := ih h
      exact ⟨by simp [hl], by simp [hr]⟩

/-- Layers of one length are told apart by their pairs. -/
theorem pairs_inj {l l' : List H} (hlen : l.length = l'.length) (h : pairs l = pairs l') :
    l = l' := by
  fun_induction pairs l generalizing l' with
  | case1 => exact (List.length_eq_zero_iff.mp hlen.symm).symm
  | case2 x =>
    obtain ⟨y, rfl⟩ := List.length_eq_one_iff.mp hlen.symm
    simpa [pairs] using h
  | case3 x y rest ih =>
    match l', hlen, h with
    | x' :: y' :: rest', hlen, h =>
      simp only [pairs, List.cons.injEq, Prod.mk.injEq] at h
      obtain ⟨⟨rfl, rfl⟩, hrest⟩ := h
      rw [ih (by simpa using hlen) hrest]

section Node
variable (node : H → H → H)

def next (l : List H) : List H := (pairs l).map fun p => node p.1 p.2

/-- The layer `n` levels up. -/
def reduce : Nat → List H → List H
  | 0, l => l
  | n+1, l => reduce n (next node l)

/-- The pairs hashed on the way to the layer `n` levels up. -/
def hashed : Nat → List H → List (H × H)
  | 0, _ => []
  | n+1, l => pairs l ++ hashed n (next node l)

/-- What the value at index `i` is hashed with. -/
def sibling (l : List H) (i : Nat) : Option H :=
  if i % 2 = 1 then l[i-1]? else l[i+1]?.or l[i]?

/-- A value and its sibling in the order they are hashed. -/
def ordered (i : Nat) (sib cur : H) : H × H := if i % 2 = 1 then (sib, cur) else (cur, sib)

def join (i : Nat) (sib cur : H) : H := node (ordered i sib cur).1 (ordered i sib cur).2

def climb : Nat → List H → H → H
  | _, [], cur => cur
  | i, sib :: rest, cur => climb (i/2) rest (join node i sib cur)

/-- The pairs hashed by a climb. -/
def climbed : Nat → List H → H → List (H × H)
  | _, [], _ => []
  | i, sib :: rest, cur => ordered i sib cur :: climbed (i/2) rest (join node i sib cur)

/-- The siblings of a path `n` levels up. -/
def path : Nat → List H → Nat → List H
  | 0, _, _ => []
  | n+1, l, i => (sibling l i).toList ++ path n (next node l) (i/2)

theorem length_next (l : List H) : (next node l).length = (l.length + 1) / 2 := by
  simp [next, length_pairs]

theorem next_getElem? (l : List H) (j : Nat) :
    (next node l)[j]? = l[2*j]?.map fun x => node x (l[2*j+1]?.getD x) := by
  rw [next, List.getElem?_map, pairs_getElem?, Option.map_map]
  rfl

theorem isSome_sibling {l : List H} {i : Nat} (hi : i < l.length) : (sibling l i).isSome := by
  unfold sibling
  split
  · rw [List.getElem?_eq_getElem (by omega), Option.isSome_some]
  · rw [List.getElem?_eq_getElem hi, Option.isSome_or, Option.isSome_some, Bool.or_true]

/-- A value and its sibling are hashed into the value of half the index. -/
theorem next_join {l : List H} {i : Nat} {x sib : H} (hx : l[i]? = some x)
    (hs : sibling l i = some sib) : (next node l)[i/2]? = some (join node i sib x) := by
  rw [next_getElem?]
  unfold sibling at hs
  unfold join ordered
  split at hs
  · rename_i hodd
    rw [if_pos hodd, show 2*(i/2) = i-1 by omega, show i-1+1 = i by omega, hs, hx]
    rfl
  · rename_i heven
    rw [if_neg heven, show 2*(i/2) = i by omega, hx]
    cases hr : l[i+1]? with
    | none =>
      rw [hr, hx, Option.none_or] at hs
      simp [Option.some.inj hs]
    | some y =>
      rw [hr, Option.some_or] at hs
      simp [Option.some.inj hs]

theorem length_reduce (n d : Nat) {l : List H} (hl : l.length = 2^(n+d)) :
    (reduce node n l).length = 2^d := by
  induction n generalizing l with
  | zero => simpa [reduce] using hl
  | succ n ih =>
    apply ih
    rw [length_next, hl, show n+1+d = n+d+1 by omega, Nat.pow_succ]
    omega

theorem reduce_add (d n : Nat) (l : List H) :
    reduce node (d+n) l = reduce node n (reduce node d l) := by
  induction d generalizing l with
  | zero => simp [reduce]
  | succ d ih => rw [show d+1+n = d+n+1 by omega, reduce, reduce, ih]

theorem reduce_succ' (d : Nat) (l : List H) : reduce node (d+1) l = next node (reduce node d l) :=
  reduce_add node d 1 l

theorem hashed_add (d n : Nat) (l : List H) :
    hashed node (d+n) l = hashed node d l ++ hashed node n (reduce node d l) := by
  induction d generalizing l with
  | zero => simp [hashed, reduce]
  | succ d ih => rw [show d+1+n = d+n+1 by omega, hashed, hashed, reduce, ih, List.append_assoc]

theorem hashed_succ' (d : Nat) (l : List H) :
    hashed node (d+1) l = hashed node d l ++ pairs (reduce node d l) := by
  rw [hashed_add, hashed, hashed, List.append_nil]

/-- Climbing the siblings of a value reaches the value above it. -/
theorem reduce_climb (n : Nat) {l : List H} {i : Nat} {x : H} (hx : l[i]? = some x) :
    (reduce node n l)[i / 2^n]? = some (climb node i (path node n l i) x) := by
  induction n generalizing l i x with
  | zero => simpa [reduce, path, climb] using hx
  | succ n ih =>
    obtain ⟨hi, -⟩ := List.getElem?_eq_some_iff.mp hx
    obtain ⟨sib, hs⟩ := Option.isSome_iff_exists.mp (isSome_sibling hi)
    have h := ih (next_join node hx hs)
    rw [Nat.div_div_eq_div_mul, Nat.mul_comm, ← Nat.pow_succ] at h
    simpa [reduce, path, climb, hs] using h

end Node

section Binding
variable {node : H → H → H} {P : H × H → Prop}

/-- Equal layers come from equal layers of one length. -/
theorem next_inj (hinj : ∀ p q, P p → P q → node p.1 p.2 = node q.1 q.2 → p = q)
    {l l' : List H} (hlen : l.length = l'.length) (hP : ∀ p ∈ pairs l, P p)
    (hP' : ∀ p ∈ pairs l', P p) (h : next node l = next node l') : l = l' := by
  apply pairs_inj hlen
  apply List.ext_getElem
  · rw [length_pairs, length_pairs, hlen]
  · intro j hj hj'
    apply hinj _ _ (hP _ (List.getElem_mem hj)) (hP' _ (List.getElem_mem hj'))
    have hget : (next node l)[j]? = (next node l')[j]? := by rw [h]
    simpa [next, hj, hj'] using hget

theorem reduce_inj (hinj : ∀ p q, P p → P q → node p.1 p.2 = node q.1 q.2 → p = q) (n : Nat)
    {l l' : List H} (hlen : l.length = l'.length) (hP : ∀ p ∈ hashed node n l, P p)
    (hP' : ∀ p ∈ hashed node n l', P p) (h : reduce node n l = reduce node n l') : l = l' := by
  induction n generalizing l l' with
  | zero => exact h
  | succ n ih =>
    simp only [hashed, List.mem_append] at hP hP'
    have hnext := ih (by rw [length_next, length_next, hlen]) (fun p hp => hP p (Or.inr hp))
      (fun p hp => hP' p (Or.inr hp)) h
    exact next_inj hinj hlen (fun p hp => hP p (Or.inl hp)) (fun p hp => hP' p (Or.inl hp)) hnext

/-- Trees of any heights with one root are one tree, where no value at their feet is a hash. -/
theorem reduce_inj_of_feet (hinj : ∀ p q, P p → P q → node p.1 p.2 = node q.1 q.2 → p = q)
    {n m : Nat} (hle : n ≤ m) {l l' : List H} (hl : l.length = 2^n) (hl' : l'.length = 2^m)
    (hfeet : ∀ x ∈ l, ∀ p, P p → x ≠ node p.1 p.2) (hP : ∀ p ∈ hashed node n l, P p)
    (hP' : ∀ p ∈ hashed node m l', P p) (h : reduce node n l = reduce node m l') : l = l' := by
  obtain ⟨d, rfl⟩ := Nat.exists_eq_add_of_le' hle
  rw [reduce_add] at h
  rw [hashed_add] at hP'
  have hlayer : l = reduce node d l' :=
    reduce_inj hinj n (by rw [hl, length_reduce node d n hl'])
      hP (fun p hp => hP' p (List.mem_append.mpr (Or.inr hp))) h
  cases d with
  | zero => exact hlayer
  | succ d =>
    -- a foot of the lower tree would be a node of the higher one
    have hpos := Nat.two_pow_pos n
    obtain ⟨x, hx⟩ := List.exists_mem_of_ne_nil l (List.ne_nil_of_length_pos (by omega))
    have hx' := hlayer ▸ hx
    rw [reduce_succ'] at hx'
    obtain ⟨p, hp, hxp⟩ := List.mem_map.mp hx'
    refine absurd hxp.symm (hfeet x hx p (hP' p (List.mem_append.mpr (Or.inl ?_))))
    rw [hashed_succ']
    exact List.mem_append.mpr (Or.inr hp)

end Binding

end LayerTree
