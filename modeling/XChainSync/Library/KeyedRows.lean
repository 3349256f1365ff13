import Mathlib.Data.List.Nodup
import Mathlib.Data.List.Perm.Basic

/-!
# Rows collected and merged by key

`joined` is an inner join of which only the left row is kept. `collect` is what a map keyed by `key` holds after every row has been set in it: one row for each key,
the last one, in the order the keys first came. `appendNew` appends rows to others unless their key is
there already. `insertNew` is the insertion that ignores a row in conflict with one that is there.
-/

namespace KeyedRows
set_option autoImplicit false

universe u v
variable {R : Type u} {K : Type v} [DecidableEq K]

/-! ### Joining -/

section Joining

variable {U : Type v}

def joined (on : R → U → Bool) (rows : List R) (others : List U) : List R :=
  rows.flatMap fun r => (others.filter (on r)).map fun _ => r

theorem mem_joined {on : R → U → Bool} {rows : List R} {others : List U} {r : R} :
    r ∈ joined on rows others ↔ r ∈ rows ∧ ∃ u ∈ others, on r u = true := by
  simp only [joined, List.mem_flatMap, List.mem_map, List.mem_filter]
  constructor
  · rintro ⟨r', hr', u, ⟨hu, hon⟩, rfl⟩
    exact ⟨hr', u, hu, hon⟩
  · rintro ⟨hr, u, hu, hon⟩
    exact ⟨r, hr, u, ⟨hu, hon⟩, rfl⟩

omit [DecidableEq K] in
/-- Where the key of the joined row settles that of the other, which is unique, no row is doubled. -/
theorem joined_eq_filter {on : R → U → Bool} {rows : List R} {others : List U} (f : R → K) (g : U → K)
    (hunique : (others.map g).Nodup) (hon : ∀ r u, on r u = true → g u = f r) :
    joined on rows others = rows.filter fun r => others.any (on r) := by
  have hone (r : R) : (others.filter (on r)).map (fun _ => r) =
      if others.any (on r) then [r] else [] := by
    induction others with
    | nil => rfl
    | cons u others ih =>
      rw [List.map_cons, List.nodup_cons] at hunique
      by_cases hu : on r u = true
      · have hrest : others.filter (on r) = [] := by
          rw [List.filter_eq_nil_iff]
          intro u' hu' hon'
          apply hunique.1
          rw [hon r u hu, ← hon r u' hon']
          exact List.mem_map_of_mem hu'
        simp [hu, hrest]
      · simpa [hu] using ih hunique.2
  unfold joined
  induction rows with
  | nil => rfl
  | cons r rows ih =>
    rw [List.flatMap_cons, ih, hone, List.filter_cons]
    split <;> rfl

end Joining

/-! ### Collecting -/

def mapSet (key : R → K) (acc : List R) (r : R) : List R :=
  if acc.any (key · = key r) then acc.map fun e => if key e = key r then r else e else acc ++ [r]

def collect (key : R → K) (rows : List R) : List R := rows.foldl (mapSet key) []

variable {key : R → K} {acc rows out more : List R} {r : R}

theorem mapSet_of_new (h : ∀ e ∈ acc, key e ≠ key r) : mapSet key acc r = acc ++ [r] := by
  have hnone : ¬ acc.any (key · = key r) := by simpa using h
  rw [mapSet, if_neg hnone]

theorem mem_of_mem_mapSet {e : R} (h : e ∈ mapSet key acc r) : e ∈ acc ∨ e = r := by
  unfold mapSet at h
  split at h
  · obtain ⟨e', he', rfl⟩ := List.mem_map.mp h
    split
    · exact Or.inr rfl
    · exact Or.inl he'
  · simpa using h

theorem self_mem_mapSet (key : R → K) (acc : List R) (r : R) : r ∈ mapSet key acc r := by
  unfold mapSet
  split
  · rename_i h
    obtain ⟨e, he, heq⟩ := List.any_eq_true.mp h
    exact List.mem_map.mpr ⟨e, he, if_pos (by simpa using heq)⟩
  · simp

theorem mem_mapSet_of_ne {e : R} (h : e ∈ acc) (hne : key e ≠ key r) : e ∈ mapSet key acc r := by
  unfold mapSet
  split
  · exact List.mem_map.mpr ⟨e, h, if_neg hne⟩
  · exact List.mem_append_left _ h

theorem find?_mapSet (key : R → K) (acc : List R) (r : R) (k : K) :
    (mapSet key acc r).find? (fun e => decide (key e = k)) =
      if key r = k then some r else acc.find? fun e => decide (key e = k) := by
  unfold mapSet
  split
  · rename_i hany
    induction acc with
    | nil => cases hany
    | cons e acc ih =>
      by_cases he : key e = key r
      · rw [List.map_cons, if_pos he, List.find?_cons, List.find?_cons]
        by_cases hk : key r = k
        · simp [hk]
        · have hek : ¬ key e = k := fun h => hk (he.symm.trans h)
          simp only [hk, hek, decide_false, if_false]
          -- the rows behind keep their keys
          rw [List.find?_map]
          have hcongr : (fun e => decide (key e = k)) ∘ (fun e => if key e = key r then r else e) =
              fun e => decide (key e = k) := by
            funext e'
            by_cases h : key e' = key r
            · simp [h, hk]
            · simp [h]
          rw [hcongr]
          cases hfind : acc.find? fun e => decide (key e = k) with
          | none => rfl
          | some e' =>
            have hkey : key e' = k := by simpa using List.find?_some hfind
            have hne : ¬ key e' = key r := fun h => hk (h.symm.trans hkey)
            simp [hne]
      · have hrest : acc.any (key · = key r) = true := by simpa [he] using hany
        rw [List.map_cons, if_neg he, List.find?_cons, List.find?_cons]
        by_cases hk : key e = k
        · have hrk : ¬ key r = k := fun h => he (hk.trans h.symm)
          simp [hk, hrk]
        · simp only [hk, decide_false]
          exact ih hrest
  · rename_i hnone
    rw [List.find?_append]
    by_cases hk : key r = k
    · have hacc : acc.find? (fun e => decide (key e = k)) = none := by
        rw [List.find?_eq_none]
        intro e he
        simp only [List.any_eq_true, decide_eq_true_eq, not_exists, not_and] at hnone
        rw [decide_eq_true_eq, ← hk]
        exact hnone e he
      simp [hacc, hk]
    · simp [hk]

theorem nodup_mapSet (h : (acc.map key).Nodup) : ((mapSet key acc r).map key).Nodup := by
  unfold mapSet
  split
  · have hkeys : (acc.map fun e => if key e = key r then r else e).map key = acc.map key := by
      rw [List.map_map]
      apply List.map_congr_left
      intro e _
      by_cases he : key e = key r
      · simp [he]
      · simp [he]
    rw [hkeys]
    exact h
  · rename_i hnone
    simp only [List.any_eq_true, decide_eq_true_eq, not_exists, not_and] at hnone
    rw [List.map_append, List.nodup_append]
    refine ⟨h, List.nodup_singleton _, ?_⟩
    intro k hk k' hk'
    obtain ⟨e, he, rfl⟩ := List.mem_map.mp hk
    rw [List.map_singleton, List.mem_singleton] at hk'
    rw [hk']
    exact hnone e he

theorem mem_iff_find? (h : (acc.map key).Nodup) {e : R} :
    e ∈ acc ↔ acc.find? (fun e' => decide (key e' = key e)) = some e := by
  constructor
  · intro he
    induction acc with
    | nil => exact absurd he List.not_mem_nil
    | cons first rest ih =>
      rw [List.map_cons, List.nodup_cons] at h
      rw [List.find?_cons]
      rcases List.mem_cons.mp he with rfl | he
      · simp
      · have hne : key first ≠ key e := by
          intro heq
          exact h.1 (heq ▸ List.mem_map_of_mem he)
        rw [decide_eq_false hne]
        exact ih h.2 he
  · exact List.mem_of_find?_eq_some

/-- Rows with different keys are all kept. -/
theorem foldl_mapSet_of_nodup (h : ((acc ++ rows).map key).Nodup) :
    rows.foldl (mapSet key) acc = acc ++ rows := by
  induction rows generalizing acc with
  | nil => simp
  | cons r rows ih =>
    have hnew : ∀ e ∈ acc, key e ≠ key r := by
      intro e he
      rw [List.map_append, List.nodup_append] at h
      exact h.2.2 (key e) (List.mem_map_of_mem he) (key r) (List.mem_map_of_mem List.mem_cons_self)
    have hrest : ((acc ++ [r] ++ rows).map key).Nodup := by simpa using h
    rw [List.foldl_cons, mapSet_of_new hnew, ih hrest, List.append_assoc]
    rfl

theorem collect_of_nodup (h : (rows.map key).Nodup) : collect key rows = rows :=
  foldl_mapSet_of_nodup h

theorem nodup_foldl_mapSet (h : (acc.map key).Nodup) :
    ((rows.foldl (mapSet key) acc).map key).Nodup := by
  induction rows generalizing acc with
  | nil => exact h
  | cons r rows ih => exact ih (nodup_mapSet h)

/-- Rows of distinct keys stand over what was there. -/
theorem find?_foldl_mapSet (h : (rows.map key).Nodup) (acc : List R) (k : K) :
    (rows.foldl (mapSet key) acc).find? (fun e => decide (key e = k)) =
      (rows.find? fun e => decide (key e = k)).or (acc.find? fun e => decide (key e = k)) := by
  induction rows generalizing acc with
  | nil => simp
  | cons r rows ih =>
    rw [List.map_cons, List.nodup_cons] at h
    rw [List.foldl_cons, ih h.2, find?_mapSet, List.find?_cons]
    by_cases hkey : key r = k
    · have hnone : rows.find? (fun e => decide (key e = k)) = none := by
        rw [List.find?_eq_none]
        intro e he heq
        exact h.1 (List.mem_map.mpr ⟨e, he, (of_decide_eq_true heq).trans hkey.symm⟩)
      rw [hnone, if_pos hkey, decide_eq_true hkey, Option.none_or, Option.some_or]
    · rw [if_neg hkey, decide_eq_false hkey]

theorem mem_of_mem_foldl_mapSet {e : R} (h : e ∈ rows.foldl (mapSet key) acc) :
    e ∈ acc ∨ e ∈ rows := by
  induction rows generalizing acc with
  | nil => exact Or.inl h
  | cons r rows ih =>
    rcases ih h with h | h
    · rcases mem_of_mem_mapSet h with h | rfl
      · exact Or.inl h
      · exact Or.inr List.mem_cons_self
    · exact Or.inr (List.mem_cons_of_mem _ h)

theorem mem_of_mem_collect {e : R} (h : e ∈ collect key rows) : e ∈ rows :=
  (mem_of_mem_foldl_mapSet h).resolve_left (by simp)

theorem mem_mapSet_cases {e : R} (h : e ∈ mapSet key acc r) : e = r ∨ e ∈ acc ∧ key e ≠ key r := by
  by_cases hkey : key e = key r
  · left
    unfold mapSet at h
    split at h
    · obtain ⟨e', -, rfl⟩ := List.mem_map.mp h
      split
      · rfl
      · rename_i hne
        rw [if_neg hne] at hkey
        exact absurd hkey hne
    · rename_i hnone
      rcases List.mem_append.mp h with h | h
      · exact absurd (List.any_eq_true.mpr ⟨e, h, by simpa using hkey⟩) hnone
      · simpa using h
  · rcases mem_of_mem_mapSet h with h | h
    · exact Or.inr ⟨h, hkey⟩
    · exact Or.inl h

/-- What is there after rows were set: a row of theirs, or one from before whose key none of them
has. -/
theorem mem_foldl_mapSet_cases {e : R} (h : e ∈ rows.foldl (mapSet key) acc) :
    e ∈ rows ∨ e ∈ acc ∧ ∀ r ∈ rows, key r ≠ key e := by
  induction rows generalizing acc with
  | nil => exact Or.inr ⟨h, by simp⟩
  | cons r rows ih =>
    rcases ih h with hrows | ⟨hacc, hnone⟩
    · exact Or.inl (List.mem_cons_of_mem _ hrows)
    · rcases mem_mapSet_cases hacc with rfl | ⟨hacc, hne⟩
      · exact Or.inl List.mem_cons_self
      · refine Or.inr ⟨hacc, fun r' hr' => ?_⟩
        rcases List.mem_cons.mp hr' with rfl | hr'
        · exact fun heq => hne heq.symm
        · exact hnone r' hr'

/-- A key that is there stays. -/
theorem foldl_mapSet_covers {e : R} (h : e ∈ acc) :
    ∃ e' ∈ rows.foldl (mapSet key) acc, key e' = key e ∧ (e' = e ∨ e' ∈ rows) := by
  induction rows generalizing acc e with
  | nil => exact ⟨e, h, rfl, Or.inl rfl⟩
  | cons r rows ih =>
    by_cases hkey : key e = key r
    · obtain ⟨e', he', hke, hor⟩ := ih (self_mem_mapSet key acc r)
      refine ⟨e', he', hke.trans hkey.symm, Or.inr ?_⟩
      rcases hor with rfl | hmem
      · exact List.mem_cons_self
      · exact List.mem_cons_of_mem _ hmem
    · obtain ⟨e', he', hke, hor⟩ := ih (mem_mapSet_of_ne h hkey)
      exact ⟨e', he', hke, hor.imp id (List.mem_cons_of_mem _)⟩

theorem foldl_mapSet_sets {e : R} (h : e ∈ rows) :
    ∃ e' ∈ rows.foldl (mapSet key) acc, key e' = key e := by
  obtain ⟨before, after, rfl⟩ := List.append_of_mem h
  rw [List.foldl_append, List.foldl_cons]
  have hset := self_mem_mapSet key (before.foldl (mapSet key) acc) e
  obtain ⟨e', he', hkey, -⟩ : ∃ e' ∈ after.foldl (mapSet key) _, key e' = key e ∧ _ :=
    foldl_mapSet_covers hset
  exact ⟨e', he', hkey⟩

theorem mem_foldl_mapSet_of_mem {e : R} (h : e ∈ acc)
    (halone : ∀ e' ∈ rows, key e' = key e → e' = e) : e ∈ rows.foldl (mapSet key) acc := by
  induction rows generalizing acc with
  | nil => exact h
  | cons r rows ih =>
    apply ih
    · by_cases heq : key e = key r
      · rw [halone r List.mem_cons_self heq.symm]
        exact self_mem_mapSet key acc e
      · exact mem_mapSet_of_ne h heq
    · exact fun e' he' => halone e' (List.mem_cons_of_mem _ he')

theorem mem_foldl_mapSet_of_rows {e : R} (h : e ∈ rows)
    (halone : ∀ e' ∈ rows, key e' = key e → e' = e) : e ∈ rows.foldl (mapSet key) acc := by
  induction rows generalizing acc with
  | nil => simp at h
  | cons r rows ih =>
    have hrest : ∀ e' ∈ rows, key e' = key e → e' = e :=
      fun e' he' => halone e' (List.mem_cons_of_mem _ he')
    rw [List.foldl_cons]
    rcases List.mem_cons.mp h with rfl | h
    · exact mem_foldl_mapSet_of_mem (self_mem_mapSet key acc e) hrest
    · exact ih h hrest

/-- A row whose key no other row has is kept. -/
theorem mem_collect {e : R} (h : e ∈ rows) (halone : ∀ e' ∈ rows, key e' = key e → e' = e) :
    e ∈ collect key rows :=
  mem_foldl_mapSet_of_rows h halone

/-! ### Filters -/

section Filters

variable {T : Type u}

/-- The rows of either of two disjoint filters. -/
theorem filter_append_filter_perm {p q : T → Bool} {rows : List T}
    (hdisjoint : ∀ r ∈ rows, p r = true → q r = false) :
    (rows.filter p ++ rows.filter q).Perm (rows.filter fun r => p r || q r) := by
  have hp : (rows.filter fun r => p r || q r).filter p = rows.filter p := by
    rw [List.filter_filter]
    apply List.filter_congr
    intro r hr
    cases hpr : p r <;> simp
  have hq : ((rows.filter fun r => p r || q r).filter fun r => !p r) = rows.filter q := by
    rw [List.filter_filter]
    apply List.filter_congr
    intro r hr
    cases hpr : p r
    · simp
    · simp [hdisjoint r hr hpr]
  have h := List.filter_append_perm p (rows.filter fun r => p r || q r)
  rwa [hp, hq] at h

end Filters

/-! ### Appending what is new -/

def pushNew (key : R → K) (out : List R) (r : R) : List R :=
  if out.any (key · = key r) then out else out ++ [r]

def appendNew (key : R → K) (out more : List R) : List R := more.foldl (pushNew key) out

theorem appendNew_cons (key : R → K) (out : List R) (r : R) (more : List R) :
    appendNew key out (r :: more) = appendNew key (pushNew key out r) more := rfl

/-- Among rows with different keys, those whose key is not there yet are appended. -/
theorem appendNew_of_nodup (h : (more.map key).Nodup) :
    appendNew key out more = out ++ more.filter fun r => !out.any (key · = key r) := by
  induction more generalizing out with
  | nil => simp [appendNew]
  | cons r more ih =>
    rw [List.map_cons, List.nodup_cons] at h
    rw [appendNew_cons, ih h.2]
    unfold pushNew
    split
    · rename_i hany
      rw [List.filter_cons_of_neg (by simp [hany])]
    · rename_i hnone
      -- the pushed row has another key than the rows to come
      have hsame : (more.filter fun r' => !(out ++ [r]).any (key · = key r')) =
          more.filter fun r' => !out.any (key · = key r') := by
        apply List.filter_congr
        intro r' hr'
        have hne : key r ≠ key r' := by
          intro heq
          exact h.1 (heq ▸ List.mem_map_of_mem hr')
        simp [List.any_append, hne]
      rw [hsame, List.filter_cons_of_pos (by simpa using hnone), List.append_assoc]
      rfl

theorem mem_appendNew_left {e : R} (h : e ∈ out) : e ∈ appendNew key out more := by
  induction more generalizing out with
  | nil => exact h
  | cons r more ih =>
    rw [appendNew_cons]
    apply ih
    unfold pushNew
    split
    · exact h
    · exact List.mem_append_left _ h

theorem mem_of_mem_appendNew {e : R} (h : e ∈ appendNew key out more) : e ∈ out ∨ e ∈ more := by
  induction more generalizing out with
  | nil => exact Or.inl h
  | cons r more ih =>
    rw [appendNew_cons] at h
    rcases ih h with h | h
    · unfold pushNew at h
      split at h
      · exact Or.inl h
      · rcases List.mem_append.mp h with h | h
        · exact Or.inl h
        · exact Or.inr (List.mem_singleton.mp h ▸ List.mem_cons_self)
    · exact Or.inr (List.mem_cons_of_mem _ h)

/-- A row whose key no other row has is there in the end. -/
theorem mem_appendNew_right {e : R} (h : e ∈ more) (hout : ∀ e' ∈ out, key e' = key e → e' = e)
    (hmore : ∀ e' ∈ more, key e' = key e → e' = e) : e ∈ appendNew key out more := by
  induction more generalizing out with
  | nil => simp at h
  | cons r more ih =>
    rw [appendNew_cons]
    have hrest : ∀ e' ∈ more, key e' = key e → e' = e :=
      fun e' he' => hmore e' (List.mem_cons_of_mem _ he')
    rcases List.mem_cons.mp h with rfl | h
    · apply mem_appendNew_left
      unfold pushNew
      split
      · rename_i hany
        obtain ⟨e', he', heq⟩ := List.any_eq_true.mp hany
        rw [← hout e' he' (by simpa using heq)]
        exact he'
      · simp
    · apply ih h _ hrest
      intro e' he' heq
      unfold pushNew at he'
      split at he'
      · exact hout e' he' heq
      · rcases List.mem_append.mp he' with he' | he'
        · exact hout e' he' heq
        · rw [List.mem_singleton.mp he'] at heq ⊢
          exact hmore r List.mem_cons_self heq

/-! ### Inserting without conflict -/

variable {S : Type u}

def insertNew (conflicts : S → S → Bool) (table rows : List S) : List S :=
  rows.foldl (fun t r => if t.any (conflicts r) then t else t ++ [r]) table

theorem insertNew_cons (conflicts : S → S → Bool) (table : List S) (r : S) (rows : List S) :
    insertNew conflicts table (r :: rows) =
      insertNew conflicts (if table.any (conflicts r) then table else table ++ [r]) rows := rfl

/-- Where a row conflicts with itself alone, inserting rows adds them to the set. -/
theorem insertNew_spec {conflicts : S → S → Bool} {table rows : List S} (hnodup : table.Nodup)
    (hconflicts : ∀ r ∈ rows, ∀ e, e ∈ table ∨ e ∈ rows → (conflicts r e = true ↔ e = r)) :
    (insertNew conflicts table rows).Nodup ∧
      ∀ e, e ∈ insertNew conflicts table rows ↔ e ∈ table ∨ e ∈ rows := by
  induction rows generalizing table with
  | nil => exact ⟨hnodup, fun e => by simp [insertNew]⟩
  | cons r rows ih =>
    have hself : table.any (conflicts r) = true ↔ r ∈ table := by
      rw [List.any_eq_true]
      constructor
      · rintro ⟨e, he, hc⟩
        exact (hconflicts r List.mem_cons_self e (Or.inl he)).mp hc ▸ he
      · intro h
        exact ⟨r, h, (hconflicts r List.mem_cons_self r (Or.inl h)).mpr rfl⟩
    have hrest : ∀ table' : List S, (∀ e ∈ table', e ∈ table ∨ e = r) →
        ∀ r' ∈ rows, ∀ e, e ∈ table' ∨ e ∈ rows → (conflicts r' e = true ↔ e = r') := by
      intro table' hsub r' hr' e he
      apply hconflicts r' (List.mem_cons_of_mem _ hr') e
      rcases he with he | he
      · rcases hsub e he with he | rfl
        · exact Or.inl he
        · exact Or.inr List.mem_cons_self
      · exact Or.inr (List.mem_cons_of_mem _ he)
    rw [insertNew_cons]
    split
    · rename_i hany
      have hr := hself.mp hany
      obtain ⟨hn, hmem⟩ := ih hnodup (hrest table fun e he => Or.inl he)
      refine ⟨hn, fun e => ?_⟩
      rw [hmem, List.mem_cons]
      constructor
      · rintro (h | h)
        · exact Or.inl h
        · exact Or.inr (Or.inr h)
      · rintro (h | rfl | h)
        · exact Or.inl h
        · exact Or.inl hr
        · exact Or.inr h
    · rename_i hnone
      have hr : r ∉ table := fun h => hnone (hself.mpr h)
      have hnodup' : (table ++ [r]).Nodup := by
        rw [List.nodup_append]
        refine ⟨hnodup, List.nodup_singleton r, ?_⟩
        intro a ha b hb heq
        rw [List.mem_singleton.mp hb] at heq
        exact hr (heq ▸ ha)
      obtain ⟨hn, hmem⟩ := ih hnodup' (hrest (table ++ [r]) fun e he => by simpa using he)
      refine ⟨hn, fun e => ?_⟩
      rw [hmem, List.mem_append, List.mem_singleton, List.mem_cons, or_assoc]

end KeyedRows
