import Mathlib.Data.List.Sort
import XChainSync.Library.KeyedRows

/-!
# Reading keys in chunks

A long list of keys is read a chunk at a time into one map. Where a read answers for each key by
itself the map is that of one read of all keys, and so is the order within a key where a read sorts.
-/

namespace ChunkedReads
open KeyedRows
set_option autoImplicit false

universe u v
variable {K : Type u} {R : Type v}

/-- The parts that a loop over `slice(i, i + size)` reads. -/
def chunks (size : Nat) (ids : List K) : List (List K) :=
  (List.range ((ids.length + size - 1) / size)).map fun i => (ids.drop (i * size)).take size

theorem flatten_chunks_range (size m : Nat) (ids : List K) :
    ((List.range m).map fun i => (ids.drop (i * size)).take size).flatten = ids.take (m * size) := by
  induction m with
  | zero => simp
  | succ m ih =>
    rw [List.range_succ, List.map_append, List.flatten_append, ih, List.map_singleton,
      List.flatten_singleton, Nat.succ_mul, List.take_add]

theorem flatten_chunks {size : Nat} (hsize : 0 < size) (ids : List K) :
    (chunks size ids).flatten = ids := by
  have hlength : ids.length ≤ (ids.length + size - 1) / size * size := by
    have hmod := Nat.div_add_mod (ids.length + size - 1) size
    have hlt := Nat.mod_lt (ids.length + size - 1) hsize
    rw [Nat.mul_comm] at hmod
    omega
  rw [chunks, flatten_chunks_range, List.take_of_length_le hlength]

variable [DecidableEq K]

/-- What the parts read, in one map. -/
def readChunks (size : Nat) (key : R → K) (read : List K → List R) (ids : List K) : List R :=
  (chunks size ids).foldl (fun out part => (read part).foldl (mapSet key) out) []

variable {key : R → K} {read : List K → List R} {answer : K → Option R}

/-- A read that answers for every key of its part and for no other. -/
structure Answers (key : R → K) (read : List K → List R) (answer : K → Option R) : Prop where
  keys : ∀ part, ((read part).map key).Nodup
  found : ∀ part k, (read part).find? (fun e => decide (key e = k)) =
    if k ∈ part then answer k else none

theorem find?_foldl_read (h : Answers key read answer) (parts : List (List K)) (out : List R) (k : K) :
    (parts.foldl (fun out part => (read part).foldl (mapSet key) out) out).find?
        (fun e => decide (key e = k)) =
      if k ∈ parts.flatten then (answer k).or (out.find? fun e => decide (key e = k))
      else out.find? fun e => decide (key e = k) := by
  induction parts generalizing out with
  | nil => simp
  | cons part parts ih =>
    rw [List.foldl_cons, ih, find?_foldl_mapSet (h.keys part), h.found, List.flatten_cons]
    by_cases hpart : k ∈ part <;> by_cases hrest : k ∈ parts.flatten
    · rw [if_pos hrest, if_pos hpart, if_pos (List.mem_append_left _ hpart)]
      cases answer k <;> rfl
    · rw [if_neg hrest, if_pos hpart, if_pos (List.mem_append_left _ hpart)]
    · rw [if_pos hrest, if_neg hpart, if_pos (List.mem_append_right _ hrest), Option.none_or]
    · rw [if_neg hrest, if_neg hpart, Option.none_or,
        if_neg fun hmem => (List.mem_append.mp hmem).elim hpart hrest]

/-- Reading in chunks answers as one read does. -/
theorem find?_readChunks {size : Nat} (hsize : 0 < size) (h : Answers key read answer) (ids : List K)
    (k : K) : (readChunks size key read ids).find? (fun e => decide (key e = k)) =
      if k ∈ ids then answer k else none := by
  rw [readChunks, find?_foldl_read h, flatten_chunks hsize]
  split
  · rw [List.find?_nil, Option.or_none]
  · rfl

theorem nodup_readChunks (size : Nat) (ids : List K) :
    ((readChunks size key read ids).map key).Nodup := by
  have hgeneral : ∀ (parts : List (List K)) (out : List R), (out.map key).Nodup →
      ((parts.foldl (fun out part => (read part).foldl (mapSet key) out) out).map key).Nodup := by
    intro parts
    induction parts with
    | nil => exact fun _ h => h
    | cons part parts ih => exact fun out h => ih _ (nodup_foldl_mapSet h)
  exact hgeneral _ _ List.nodup_nil

/-! ### Sorted parts -/

variable {p : R → Bool} {r : R → R → Prop} [DecidableRel r]

/-- Sorting keeps the order of the rows that were in order. -/
theorem filter_insertionSort {rows : List R} (h : (rows.filter p).Pairwise r) :
    (rows.insertionSort r).filter p = rows.filter p := by
  have hsub : (rows.filter p).Sublist ((rows.insertionSort r).filter p) := by
    have hsorted := (List.sublist_insertionSort h List.filter_sublist).filter p
    simpa [List.filter_filter] using hsorted
  have hperm := (List.perm_insertionSort r rows).filter p
  exact (hsub.eq_of_length hperm.length_eq.symm).symm

end ChunkedReads
