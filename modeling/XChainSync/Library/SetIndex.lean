import Mathlib.Data.List.Nodup
import Mathlib.Data.List.Perm.Subperm
import Mathlib.Logic.Function.Basic

/-!
# Items filed under keys

An index is a map from keys to sets of items; a set that runs empty is taken out. It files `under`
when every item stands in the set of its key and in no other.
-/

namespace SetIndex
set_option autoImplicit false

universe u v
variable {K : Type u} {W : Type v} [DecidableEq K] [DecidableEq W]

def members (m : K → Option (List W)) (k : K) : List W := (m k).getD []

def add (m : K → Option (List W)) (k : K) (w : W) : K → Option (List W) :=
  Function.update m k (some (if w ∈ members m k then members m k else members m k ++ [w]))

def remove (m : K → Option (List W)) (k : K) (w : W) : K → Option (List W) :=
  match m k with
  | none => m
  | some set =>
    let rest := set.filter (· ≠ w)
    Function.update m k (if rest = [] then none else some rest)

variable {m : K → Option (List W)} {k k' : K} {w w' : W} {under : W → Option K}

omit [DecidableEq K] [DecidableEq W] in
theorem members_of_some {set : List W} (h : m k = some set) : members m k = set := by
  simp [members, h]

theorem members_add : members (add m k w) k' =
    if k' = k then (if w ∈ members m k then members m k else members m k ++ [w])
    else members m k' := by
  unfold add members
  by_cases h : k' = k
  · subst h
    simp
  · simp [h]

theorem remove_of_none (h : m k = none) : remove m k w = m := by
  simp [remove, h]

theorem remove_of_some {set : List W} (h : m k = some set) : remove m k w =
    Function.update m k (if set.filter (· ≠ w) = [] then none else some (set.filter (· ≠ w))) := by
  simp [remove, h]

theorem members_remove : members (remove m k w) k' =
    if k' = k then (members m k).filter (· ≠ w) else members m k' := by
  cases hk : m k with
  | none =>
    rw [remove_of_none hk]
    split
    · rename_i h
      simp [members, h, hk]
    · rfl
  | some set =>
    rw [remove_of_some hk]
    by_cases h : k' = k
    · subst h
      simp only [members, Function.update_self, hk, if_true, Option.getD_some]
      split
      · rename_i hempty
        exact hempty.symm
      · rfl
    · simp [members, h]

/-- Every item stands in the set of its key, once, and no set is empty. -/
structure Files (m : K → Option (List W)) (under : W → Option K) : Prop where
  mem : ∀ k w, w ∈ members m k ↔ under w = some k
  nodup : ∀ k, (members m k).Nodup
  filled : ∀ k, m k ≠ some []

omit [DecidableEq K] [DecidableEq W] in
theorem files_empty : Files (fun _ : K => (none : Option (List W))) fun _ => none where
  mem k w := by simp [members]
  nodup k := List.nodup_nil
  filled k := by simp

theorem Files.add (h : Files m under) (hnew : under w = none) :
    Files (add m k w) (Function.update under w (some k)) where
  mem k' w' := by
    have hout : w ∉ members m k := fun hmem => by simp [(h.mem k w).mp hmem] at hnew
    rw [members_add, if_neg hout]
    by_cases hw : w' = w
    · subst hw
      simp only [Function.update_self, Option.some.injEq]
      split
      · rename_i hk
        simp [hk]
      · rename_i hk
        rw [h.mem, hnew]
        simpa using Ne.symm hk
    · rw [Function.update_of_ne hw, ← h.mem]
      split
      · rename_i hk
        simp [hk, hw]
      · rfl
  nodup k' := by
    have hout : w ∉ members m k := fun hmem => by simp [(h.mem k w).mp hmem] at hnew
    rw [members_add, if_neg hout]
    split
    · exact List.nodup_append.mpr ⟨h.nodup k, List.nodup_singleton w, by
        intro a ha b hb heq
        rw [List.mem_singleton.mp hb] at heq
        exact hout (heq ▸ ha)⟩
    · exact h.nodup k'
  filled k' := by
    have hout : w ∉ members m k := fun hmem => by simp [(h.mem k w).mp hmem] at hnew
    unfold SetIndex.add
    by_cases hk : k' = k
    · subst hk
      simp [hout]
    · rw [Function.update_of_ne hk]
      exact h.filled k'

theorem Files.remove (h : Files m under) (hk : under w = some k) :
    Files (remove m k w) (Function.update under w none) where
  mem k' w' := by
    rw [members_remove]
    by_cases hw : w' = w
    · subst hw
      simp only [Function.update_self]
      split
      · simp
      · rename_i hne
        rw [h.mem, hk]
        simpa using Ne.symm hne
    · rw [Function.update_of_ne hw, ← h.mem]
      split
      · rename_i heq
        simp [heq, hw]
      · rfl
  nodup k' := by
    rw [members_remove]
    split
    · exact (h.nodup k).filter _
    · exact h.nodup k'
  filled k' := by
    cases hset : m k with
    | none =>
      rw [remove_of_none hset]
      exact h.filled k'
    | some set =>
      rw [remove_of_some hset]
      by_cases heq : k' = k
      · subst heq
        rw [Function.update_self]
        split
        · simp
        · rename_i hne
          simpa using hne
      · rw [Function.update_of_ne heq]
        exact h.filled k'

omit [DecidableEq K] [DecidableEq W] in
/-- Items filed under one key are at most as many as its set holds. -/
theorem Files.length_le (h : Files m under) {l : List W} (hl : l.Nodup)
    (hunder : ∀ w ∈ l, under w = some k) : l.length ≤ (members m k).length := by
  have hsub : l ⊆ members m k := fun w hw => (h.mem k w).mpr (hunder w hw)
  exact (hl.subperm hsub).length_le

theorem length_remove_le : (members (remove m k w) k').length ≤ (members m k').length := by
  rw [members_remove]
  split
  · rename_i h
    rw [h]
    exact List.length_filter_le _ _
  · exact Nat.le_refl _

end SetIndex
