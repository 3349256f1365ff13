import Mathlib.Data.List.Find

/-!
# Undo journals

A column is rewritten in place and every rewrite leaves an entry with the block it happened in and
the value it replaced. Restoring to a block gives a row the value of an entry at or above that block
that no other such entry of the row comes before. When `before` orders the entries of a row as they
were written, that is the value the row held when the block began.
-/

namespace UndoJournal
set_option autoImplicit false

universe u
variable {E K V : Type u}

structure Journal (E K V : Type u) where
  key : E → K
  block : E → Int
  prev : E → V
  before : E → E → Bool

namespace Journal
variable [DecidableEq K] (j : Journal E K V)

def orphaned (b : Int) (k : K) (e : E) : Bool := j.key e = k && b ≤ j.block e

def isRestorePoint (entries : List E) (b : Int) (k : K) (d : E) : Bool :=
  j.orphaned b k d && !entries.any fun e => j.orphaned b k e && j.before e d

def restore (entries : List E) (b : Int) (k : K) (v : V) : V :=
  match entries.find? (j.isRestorePoint entries b k) with
  | some d => j.prev d
  | none => v

/-- Entries of one row stand in the order of `before`. -/
def Ordered (entries : List E) : Prop :=
  (∀ e ∈ entries, j.before e e = false) ∧
    entries.Pairwise fun a b => j.key a = j.key b → j.before a b = true ∧ j.before b a = false

variable {j} {entries : List E} {b : Int} {k : K}

/-- In an ordered journal the restore point is the first orphaned entry of the row. -/
theorem find_isRestorePoint (h : j.Ordered entries) :
    entries.find? (j.isRestorePoint entries b k) = entries.find? (j.orphaned b k) := by
  cases hfind : entries.find? (j.orphaned b k) with
  | none =>
    rw [List.find?_eq_none] at hfind ⊢
    intro e he hpoint
    simp only [isRestorePoint, Bool.and_eq_true] at hpoint
    exact hfind e he hpoint.1
  | some d =>
    obtain ⟨hd, pre, post, rfl, hpre⟩ := List.find?_eq_some_iff_append.mp hfind
    refine List.find?_eq_some_iff_append.mpr ⟨?_, pre, post, rfl, ?_⟩
    · -- nothing before `d` is orphaned, and `d` comes before all that follow it
      simp only [isRestorePoint, hd, Bool.true_and, Bool.not_eq_true', List.any_eq_false,
        Bool.and_eq_true, not_and, Bool.not_eq_true]
      intro e he horphan
      rcases List.mem_append.mp he with he | he
      · have := hpre e he
        simp [horphan] at this
      · rcases List.mem_cons.mp he with rfl | he
        · exact h.1 e (by simp)
        · have hpair := (List.pairwise_append.mp h.2).2.1
          have hde := (List.pairwise_cons.mp hpair).1 e he
          simp only [orphaned, Bool.and_eq_true, decide_eq_true_eq] at hd horphan
          exact (hde (hd.1.trans horphan.1.symm)).2
    · intro e he
      have := hpre e he
      simp only [Bool.not_eq_true'] at this
      simp [isRestorePoint, this]

theorem restore_eq (h : j.Ordered entries) (v : V) : j.restore entries b k v =
    match entries.find? (j.orphaned b k) with
    | some d => j.prev d
    | none => v := by
  rw [restore, find_isRestorePoint h]

/-- Either the journal decides the value or it leaves what is there. -/
theorem restore_or (entries : List E) (b : Int) (k : K) (v v' : V) :
    j.restore entries b k v = j.restore entries b k v' ∨
      j.restore entries b k v = v ∧ j.restore entries b k v' = v' := by
  unfold restore
  cases entries.find? (j.isRestorePoint entries b k) with
  | some d => exact Or.inl rfl
  | none => exact Or.inr ⟨rfl, rfl⟩

/-- Two blocks that no entry of the row lies between restore alike. -/
theorem restore_congr_block {b' : Int}
    (h : ∀ e ∈ entries, j.key e = k → (b ≤ j.block e ↔ b' ≤ j.block e)) (v : V) :
    j.restore entries b k v = j.restore entries b' k v := by
  have horphaned : ∀ e ∈ entries, j.orphaned b k e = j.orphaned b' k e := by
    intro e he
    unfold orphaned
    by_cases hkey : j.key e = k
    · simp [hkey, h e he hkey]
    · simp [hkey]
  have hpoint : ∀ d ∈ entries, j.isRestorePoint entries b k d = j.isRestorePoint entries b' k d := by
    intro d hd
    unfold isRestorePoint
    rw [horphaned d hd]
    congr 2
    rw [Bool.eq_iff_iff]
    simp only [List.any_eq_true, Bool.and_eq_true]
    constructor
    · rintro ⟨e, he, horphan, hbefore⟩
      exact ⟨e, he, horphaned e he ▸ horphan, hbefore⟩
    · rintro ⟨e, he, horphan, hbefore⟩
      exact ⟨e, he, (horphaned e he).symm ▸ horphan, hbefore⟩
  rw [restore, restore, List.find?_congr hpoint]

theorem restorePoint_unique (h : j.Ordered entries) {d d' : E} (hd : d ∈ entries)
    (hd' : d' ∈ entries) (hpoint : j.isRestorePoint entries b k d = true)
    (hpoint' : j.isRestorePoint entries b k d' = true) : d = d' := by
  simp only [isRestorePoint, orphaned, Bool.and_eq_true, Bool.not_eq_true', List.any_eq_false,
    decide_eq_true_eq, not_and, Bool.not_eq_true] at hpoint hpoint'
  obtain ⟨i, hi, rfl⟩ := List.mem_iff_getElem.mp hd
  obtain ⟨i', hi', rfl⟩ := List.mem_iff_getElem.mp hd'
  have hpair := List.pairwise_iff_getElem.mp h.2
  rcases Nat.lt_trichotomy i i' with hlt | rfl | hgt
  · have hbefore := (hpair i i' hi hi' hlt (hpoint.1.1.trans hpoint'.1.1.symm)).1
    exact absurd hbefore (by simp [hpoint'.2 _ hd hpoint.1])
  · rfl
  · have hbefore := (hpair i' i hi' hi hgt (hpoint'.1.1.trans hpoint.1.1.symm)).1
    exact absurd hbefore (by simp [hpoint.2 _ hd' hpoint'.1])

/-- What an ordered journal restores does not hang on how another copy of it is stored. -/
theorem restore_congr_mem {entries' : List E} (h : j.Ordered entries)
    (hmem : ∀ e, e ∈ entries' ↔ e ∈ entries) (v : V) :
    j.restore entries' b k v = j.restore entries b k v := by
  have hpoint : j.isRestorePoint entries' b k = j.isRestorePoint entries b k := by
    funext d
    unfold isRestorePoint
    congr 2
    rw [Bool.eq_iff_iff]
    simp only [List.any_eq_true, hmem]
  rw [restore, restore, hpoint]
  cases hfind : entries.find? (j.isRestorePoint entries b k) with
  | none =>
    have hnone : entries'.find? (j.isRestorePoint entries b k) = none := by
      rw [List.find?_eq_none] at hfind ⊢
      intro e he
      exact hfind e ((hmem e).mp he)
    rw [hnone]
  | some d =>
    cases hfind' : entries'.find? (j.isRestorePoint entries b k) with
    | none =>
      have hd := List.find?_eq_none.mp hfind' d ((hmem d).mpr (List.mem_of_find?_eq_some hfind))
      exact absurd (List.find?_some hfind) hd
    | some d' =>
      rw [restorePoint_unique h ((hmem d').mp (List.mem_of_find?_eq_some hfind'))
        (List.mem_of_find?_eq_some hfind) (List.find?_some hfind') (List.find?_some hfind)]

/-- A journal with nothing of the row at or above the block leaves the row. -/
theorem restore_row_settled (h : ∀ e ∈ entries, j.key e = k → j.block e < b) (v : V) :
    j.restore entries b k v = v := by
  have hnone : entries.find? (j.isRestorePoint entries b k) = none := by
    rw [List.find?_eq_none]
    intro e he hpoint
    simp only [isRestorePoint, orphaned, Bool.and_eq_true, decide_eq_true_eq] at hpoint
    have := h e he hpoint.1.1
    omega
  rw [restore, hnone]

theorem restore_settled (h : ∀ e ∈ entries, j.block e < b) (v : V) :
    j.restore entries b k v = v :=
  restore_row_settled (fun e he _ => h e he) v

omit [DecidableEq K] in
theorem Ordered.left {more : List E} (h : j.Ordered (entries ++ more)) : j.Ordered entries :=
  ⟨fun e he => h.1 e (List.mem_append_left _ he), (List.pairwise_append.mp h.2).1⟩

omit [DecidableEq K] in
theorem Ordered.concat {e : E} (h : j.Ordered entries) (he : j.before e e = false)
    (hafter : ∀ a ∈ entries, j.key a = j.key e → j.before a e = true ∧ j.before e a = false) :
    j.Ordered (entries ++ [e]) := by
  constructor
  · intro a ha
    rcases List.mem_append.mp ha with ha | ha
    · exact h.1 a ha
    · rw [List.mem_singleton.mp ha]
      exact he
  · refine List.pairwise_append.mpr ⟨h.2, List.pairwise_singleton _ _, ?_⟩
    intro a ha a' ha'
    rw [List.mem_singleton.mp ha']
    exact hafter a ha

/-- A further rewrite at or above the block is undone with the rest. -/
theorem restore_rewrite {e : E} (h : j.Ordered (entries ++ [e])) (hkey : j.key e = k)
    (hb : b ≤ j.block e) (v : V) :
    j.restore (entries ++ [e]) b k v = j.restore entries b k (j.prev e) := by
  rw [restore_eq h, restore_eq h.left, List.find?_append]
  cases entries.find? (j.orphaned b k) with
  | some d => rfl
  | none => simp [orphaned, hkey, hb]

theorem restore_other {e : E} (h : j.Ordered (entries ++ [e])) (hkey : j.key e ≠ k) (v : V) :
    j.restore (entries ++ [e]) b k v = j.restore entries b k v := by
  rw [restore_eq h, restore_eq h.left, List.find?_append]
  cases entries.find? (j.orphaned b k) with
  | some d => rfl
  | none => simp [orphaned, hkey]

end Journal

end UndoJournal
