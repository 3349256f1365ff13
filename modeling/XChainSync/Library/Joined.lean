import Mathlib

/-!
# Fields joined by a separator

`join sep xs` writes the fields of `xs` one after another with `sep` between them. It is not
injective: a field may hold the separator. It is injective as soon as one of two lists of the
same length is free of it. Rows written in sections, each behind a tag, are read back section by
section where the tags stay apart.
-/

namespace Joined
set_option autoImplicit false

universe u
variable {α : Type u}

def join (sep : α) : List (List α) → List α
  | [] => []
  | [x] => x
  | x :: y :: rest => x ++ sep :: join sep (y :: rest)

theorem append_sep_inj {sep : α} {x y rest rest' : List α} (hx : sep ∉ x) (hy : sep ∉ y)
    (h : x ++ sep :: rest = y ++ sep :: rest') : x = y ∧ rest = rest' := by
  induction x generalizing y with
  | nil =>
    cases y with
    | nil => exact ⟨rfl, (List.cons.inj h).2⟩
    | cons b y => exact absurd ((List.cons.inj h).1 ▸ List.mem_cons_self) hy
  | cons a x ih =>
    cases y with
    | nil => exact absurd ((List.cons.inj h).1 ▸ List.mem_cons_self) hx
    | cons b y =>
      obtain ⟨hab, h⟩ := List.cons.inj h
      obtain ⟨hxy, hrest⟩ := ih (fun hmem => hx (List.mem_cons_of_mem _ hmem))
        (fun hmem => hy (List.mem_cons_of_mem _ hmem)) h
      exact ⟨by rw [hab, hxy], hrest⟩

variable [DecidableEq α]

theorem count_join (sep : α) (x : List α) (rest : List (List α)) :
    (join sep (x :: rest)).count sep = rest.length + ((x :: rest).map (List.count sep)).sum := by
  induction rest generalizing x with
  | nil => simp [join]
  | cons y rest ih =>
    simp only [join, List.count_append, List.count_cons_self, ih y, List.map_cons, List.sum_cons,
      List.length_cons]
    omega

/-- A list free of the separator is the only one of its length with that join. -/
theorem join_inj {sep : α} {xs ys : List (List α)} (hlen : xs.length = ys.length)
    (hx : ∀ x ∈ xs, sep ∉ x) (h : join sep xs = join sep ys) : xs = ys := by
  induction xs generalizing ys with
  | nil => exact (List.length_eq_zero_iff.mp hlen.symm).symm
  | cons x xs ih =>
    obtain _ | ⟨y, ys⟩ := ys
    · simp at hlen
    -- equal separator counts leave none for the fields of `ys`
    have hfree : ∀ z ∈ y :: ys, sep ∉ z := by
      have hcount := congrArg (List.count sep) h
      rw [count_join, count_join] at hcount
      have hzero : ((x :: xs).map (List.count sep)).sum = 0 := by
        rw [List.sum_eq_zero_iff_forall_eq_nat]
        intro n hn
        obtain ⟨z, hz, rfl⟩ := List.mem_map.mp hn
        exact List.count_eq_zero.mpr (hx z hz)
      have hzero' : ((y :: ys).map (List.count sep)).sum = 0 := by
        simp only [List.length_cons] at hlen
        omega
      rw [List.sum_eq_zero_iff_forall_eq_nat] at hzero'
      exact fun z hz => List.count_eq_zero.mp (hzero' _ (List.mem_map_of_mem hz))
    obtain _ | ⟨x', xs⟩ := xs
    · obtain rfl : ys = [] := List.length_eq_zero_iff.mp (by simpa using hlen.symm)
      simpa [join] using h
    · obtain _ | ⟨y', ys⟩ := ys
      · simp at hlen
      simp only [join] at h
      have hxy : x = y := by
        have hpre := congrArg (List.takeWhile (· ≠ sep)) h
        rw [List.takeWhile_append_of_pos, List.takeWhile_append_of_pos] at hpre
        · simpa using hpre
        · intro a ha
          simpa using fun he : a = sep => hfree y List.mem_cons_self (he ▸ ha)
        · intro a ha
          simpa using fun he : a = sep => hx x List.mem_cons_self (he ▸ ha)
      subst y
      have htail := List.cons.inj (List.append_cancel_left h)
      rw [ih (by simpa using hlen) (fun z hz => hx z (List.mem_cons_of_mem x hz)) htail.2]

/-- Lists free of the separator have different joins. -/
theorem join_inj_of_free {sep : α} {xs ys : List (List α)} (hxs : xs ≠ []) (hys : ys ≠ [])
    (hx : ∀ x ∈ xs, sep ∉ x) (hy : ∀ y ∈ ys, sep ∉ y) (h : join sep xs = join sep ys) : xs = ys := by
  have hzero : ∀ zs : List (List α), (∀ z ∈ zs, sep ∉ z) → (zs.map (List.count sep)).sum = 0 := by
    intro zs hz
    rw [List.sum_eq_zero_iff_forall_eq_nat]
    intro n hn
    obtain ⟨z, hmem, rfl⟩ := List.mem_map.mp hn
    exact List.count_eq_zero.mpr (hz z hmem)
  obtain ⟨x, xs, rfl⟩ := List.exists_cons_of_ne_nil hxs
  obtain ⟨y, ys, rfl⟩ := List.exists_cons_of_ne_nil hys
  apply join_inj _ hx h
  have hcount := congrArg (List.count sep) h
  rw [count_join, count_join, hzero _ hx, hzero _ hy] at hcount
  simpa using hcount

/-! ### Sections of tagged rows -/

/-- Every row of a section behind the tag of the section. -/
def tagged (tags : List (List α)) (sections : List (List (List α))) : List (List α) :=
  (tags.zip sections).flatMap fun kind => kind.2.map (kind.1 ++ ·)

/-- No row of one tag can be a row of the other. -/
def Apart (s t : List α) : Prop := ∀ x y, s ++ x ≠ t ++ y

omit [DecidableEq α] in
theorem mem_tagged {tags : List (List α)} {sections : List (List (List α))} {row : List α}
    (h : row ∈ tagged tags sections) : ∃ t ∈ tags, ∃ x, row = t ++ x := by
  obtain ⟨kind, hkind, hrow⟩ := List.mem_flatMap.mp h
  obtain ⟨x, -, rfl⟩ := List.mem_map.mp hrow
  exact ⟨kind.1, (List.of_mem_zip hkind).1, x, rfl⟩

/-- Sections are read back from their tagged rows. -/
theorem tagged_inj {tags : List (List α)} (hapart : tags.Pairwise Apart)
    {xs ys : List (List (List α))} (hx : xs.length = tags.length) (hy : ys.length = tags.length)
    (h : tagged tags xs = tagged tags ys) : xs = ys := by
  induction tags generalizing xs ys with
  | nil => rw [List.length_eq_zero_iff.mp hx, List.length_eq_zero_iff.mp hy]
  | cons t tags ih =>
    obtain ⟨x, xs, rfl⟩ := List.exists_cons_of_length_eq_add_one hx
    obtain ⟨y, ys, rfl⟩ := List.exists_cons_of_length_eq_add_one hy
    obtain ⟨hhead, htail⟩ := List.pairwise_cons.mp hapart
    have hcons : ∀ z (zs : List (List (List α))), tagged (t :: tags) (z :: zs) =
        z.map (t ++ ·) ++ tagged tags zs := fun _ _ => rfl
    rw [hcons, hcons] at h
    -- the rows of the first section are those that start with its tag
    have hfirst : ∀ z : List (List α), ∀ row ∈ z.map (t ++ ·), t.isPrefixOf row = true := by
      intro z row hrow
      obtain ⟨w, -, rfl⟩ := List.mem_map.mp hrow
      simp [List.isPrefixOf_iff_prefix]
    have hrest : ∀ zs : List (List (List α)), ∀ row ∈ tagged tags zs,
        ¬ t.isPrefixOf row = true := by
      intro zs row hrow hpre
      obtain ⟨s, hs, w, rfl⟩ := mem_tagged hrow
      obtain ⟨v, hv⟩ := List.isPrefixOf_iff_prefix.mp hpre
      exact hhead s hs v w hv
    have hkeep : ∀ (z : List (List α)) (zs : List (List (List α))),
        (z.map (t ++ ·) ++ tagged tags zs).filter (t.isPrefixOf ·) = z.map (t ++ ·) := by
      intro z zs
      rw [List.filter_append, List.filter_eq_self.mpr (hfirst z),
        List.filter_eq_nil_iff.mpr (hrest zs), List.append_nil]
    have hdrop : ∀ (z : List (List α)) (zs : List (List (List α))),
        (z.map (t ++ ·) ++ tagged tags zs).filter (fun row => !t.isPrefixOf row) =
          tagged tags zs := by
      intro z zs
      rw [List.filter_append, List.filter_eq_nil_iff.mpr, List.filter_eq_self.mpr, List.nil_append]
      · intro row hrow
        rw [Bool.not_eq_true', Bool.eq_false_iff]
        exact hrest zs row hrow
      · intro row hrow
        rw [hfirst z row hrow]
        simp
    have hmap := (hkeep x xs).symm.trans ((congrArg _ h).trans (hkeep y ys))
    have htagged := (hdrop x xs).symm.trans ((congrArg _ h).trans (hdrop y ys))
    rw [List.map_injective_iff.mpr (List.append_right_injective t) hmap,
      ih htail (by simpa using hx) (by simpa using hy) htagged]

end Joined
