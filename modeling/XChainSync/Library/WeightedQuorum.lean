import Mathlib.Algebra.BigOperators.Group.Finset.Basic
import Mathlib.Algebra.Order.BigOperators.Group.Finset
import Mathlib.Algebra.Order.Field.Basic
import Mathlib.Tactic.Linarith

/-!
# Weighted quorums

A quorum weighs more than two thirds of a finite electorate of nonnegative weights. Two quorums
share more than a third.
-/

namespace WeightedQuorum
set_option autoImplicit false

universe u v
variable {σ : Type u} {K : Type v} [DecidableEq σ] [Field K] [LinearOrder K] [IsStrictOrderedRing K]

def total (w : σ → K) (s : Finset σ) : K := ∑ i ∈ s, w i

/-- More than two thirds, with no division. -/
def IsQuorum (w : σ → K) (electorate s : Finset σ) : Prop :=
  2 * total w electorate < 3 * total w s

variable {w : σ → K} {electorate s t : Finset σ}

omit [DecidableEq σ] in
theorem total_mono (hw : ∀ i ∈ electorate, 0 ≤ w i) (hst : s ⊆ t) (ht : t ⊆ electorate) :
    total w s ≤ total w t :=
  Finset.sum_le_sum_of_subset_of_nonneg hst fun i hi _ => hw i (ht hi)

omit [DecidableEq σ] in
theorem IsQuorum.mono (hw : ∀ i ∈ electorate, 0 ≤ w i) (hst : s ⊆ t) (ht : t ⊆ electorate)
    (h : IsQuorum w electorate s) : IsQuorum w electorate t := by
  have hle := total_mono hw hst ht
  unfold IsQuorum at h ⊢
  linarith

theorem IsQuorum.inter (hw : ∀ i ∈ electorate, 0 ≤ w i) (hs : s ⊆ electorate) (ht : t ⊆ electorate)
    (hqs : IsQuorum w electorate s) (hqt : IsQuorum w electorate t) :
    total w electorate < 3 * total w (s ∩ t) := by
  have hunion : total w (s ∪ t) ≤ total w electorate :=
    total_mono hw (Finset.union_subset hs ht) subset_rfl
  have hsum : total w (s ∪ t) + total w (s ∩ t) = total w s + total w t :=
    Finset.sum_union_inter
  unfold IsQuorum at hqs hqt
  linarith

end WeightedQuorum
