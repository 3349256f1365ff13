import Mathlib

/-!
# Tables of aggregates

A table that holds one row for each key with a value, and its partial recomputation: the rows of a
region of keys are deleted and written again.
-/

namespace Aggregates
set_option autoImplicit false

universe u v
variable {Key : Type u} {Out : Type v} [DecidableEq Key]

/-- The table has one row for a key with a value and none for one without. -/
def AgreesAt (value : Key → Option Out) (table : List (Key × Out)) (k : Key) : Prop :=
  table.filter (·.1 = k) = ((value k).map (k, ·)).toList

def Agrees (value : Key → Option Out) (table : List (Key × Out)) : Prop := ∀ k, AgreesAt value table k

/-- The rows of keys in the region, written again for those of `keys` that have a value. -/
def refresh (region : Key → Bool) (keys : List Key) (value : Key → Option Out)
    (table : List (Key × Out)) : List (Key × Out) :=
  table.filter (fun row => !region row.1) ++
    (keys.filter region).dedup.filterMap fun k => (value k).map (k, ·)

section Refresh
variable {region : Key → Bool} {keys : List Key} {value value' : Key → Option Out}
  {table : List (Key × Out)} {k : Key}

theorem filter_filterMap_of_nodup {keys : List Key} (h : keys.Nodup) (k : Key) :
    (keys.filterMap fun k => (value k).map (k, ·)).filter (·.1 = k) =
      if k ∈ keys then ((value k).map (k, ·)).toList else [] := by
  induction keys with
  | nil => rfl
  | cons j keys ih =>
    obtain ⟨hfresh, hnodup⟩ := List.nodup_cons.mp h
    by_cases hjk : j = k
    · subst hjk
      cases hvalue : value j with
      | none => simp [hvalue, ih hnodup, hfresh]
      | some out => simp [hvalue, ih hnodup, hfresh]
    · have hmem : k ∈ j :: keys ↔ k ∈ keys := by simp [Ne.symm hjk]
      cases hvalue : value j with
      | none => simp [hvalue, ih hnodup, hmem]
      | some out => simp [hvalue, ih hnodup, hmem, hjk]

theorem agreesAt_refresh (hregion : region k = true) (hkeys : value k ≠ none → k ∈ keys) :
    AgreesAt value (refresh region keys value table) k := by
  have hdeleted : (table.filter fun row => !region row.1).filter (·.1 = k) = [] := by
    rw [List.filter_filter, List.filter_eq_nil_iff]
    rintro ⟨j, out⟩ - hrow
    simp only [Bool.and_eq_true, decide_eq_true_eq, Bool.not_eq_true'] at hrow
    rw [hrow.1, hregion] at hrow
    cases hrow.2
  rw [AgreesAt, refresh, List.filter_append, hdeleted, List.nil_append,
    filter_filterMap_of_nodup (List.nodup_dedup _)]
  split_ifs with hmem
  · rfl
  · have hnone : value k = none := by
      by_contra hsome
      exact hmem (List.mem_dedup.mpr (List.mem_filter.mpr ⟨hkeys hsome, hregion⟩))
    rw [hnone]
    rfl

theorem filter_refresh_of_not_region (hregion : region k = false) :
    (refresh region keys value table).filter (·.1 = k) = table.filter (·.1 = k) := by
  have hkept : (table.filter fun row => !region row.1).filter (·.1 = k) = table.filter (·.1 = k) := by
    rw [List.filter_filter]
    apply List.filter_congr
    rintro ⟨j, out⟩ -
    by_cases hjk : j = k
    · simp [hjk, hregion]
    · simp [hjk]
  have hwritten : k ∉ (keys.filter region).dedup := by
    simp [hregion]
  rw [refresh, List.filter_append, hkept, filter_filterMap_of_nodup (List.nodup_dedup _), if_neg hwritten,
    List.append_nil]

/-- A region with every key whose value changed brings the table up to date. -/
theorem agrees_refresh (h : Agrees value table) (hsame : ∀ k, region k = false → value' k = value k)
    (hkeys : ∀ k, value' k ≠ none → k ∈ keys) : Agrees value' (refresh region keys value' table) := by
  intro k
  cases hregion : region k with
  | true => exact agreesAt_refresh hregion (hkeys k)
  | false =>
    rw [AgreesAt, filter_refresh_of_not_region hregion, hsame k hregion]
    exact h k

theorem refresh_congr (h : ∀ k, region k = true → value k = value' k) :
    refresh region keys value table = refresh region keys value' table := by
  unfold refresh
  congr 1
  apply List.filterMap_congr
  intro k hk
  rw [h k (List.mem_filter.mp (List.mem_dedup.mp hk)).2]

/-- The values determine the table, up to the order of its rows. -/
theorem perm_of_agrees [DecidableEq Out] {table' : List (Key × Out)} (h : Agrees value table)
    (h' : Agrees value table') : table.Perm table' := by
  rw [List.perm_iff_count]
  intro row
  have hcount : ∀ rows : List (Key × Out), rows.count row = (rows.filter (·.1 = row.1)).count row := by
    intro rows
    rw [List.count_filter (by simp)]
  rw [hcount table, hcount table', h row.1, h' row.1]

end Refresh

end Aggregates
