import Mathlib
import XChainSync.Library.JsonText

/-!
# Texts of code units

The order of texts by their code units, and the characters that a text hands to an encoder: a
surrogate that is not one of a pair becomes U+FFFD. What `JSON.stringify` writes has none of these.
-/

namespace Utf16
open JsonText
set_option autoImplicit false

/-! ### Sorting -/

/-- `Array.prototype.sort` without a comparator. -/
def sort (texts : List CodeUnits) : List CodeUnits := texts.insertionSort (· ≤ ·)

theorem sort_eq_iff_perm {texts texts' : List CodeUnits} :
    sort texts = sort texts' ↔ texts.Perm texts' := by
  constructor
  · intro h
    have hperm : (sort texts).Perm texts' := by
      rw [h]
      exact List.perm_insertionSort _ _
    exact (List.perm_insertionSort _ _).symm.trans hperm
  · intro h
    have hperm : (sort texts).Perm (sort texts') :=
      ((List.perm_insertionSort _ _).trans h).trans (List.perm_insertionSort _ _).symm
    refine @List.Perm.eq_of_pairwise _ (· ≤ ·) _ _ ?_ (List.pairwise_insertionSort _ _)
      (List.pairwise_insertionSort _ _) hperm
    intro a b _ _ hab hba
    exact List.le_antisymm hab hba

theorem mem_sort {texts : List CodeUnits} {text : CodeUnits} : text ∈ sort texts ↔ text ∈ texts :=
  List.mem_insertionSort _

theorem nodup_sort {texts : List CodeUnits} : (sort texts).Nodup ↔ texts.Nodup :=
  (List.perm_insertionSort _ _).nodup_iff

/-! ### Named values -/

section Named
variable {α β : Type}

theorem lookup_eq_some_iff_mem {α : Type} {columns : List (CodeUnits × α)}
    (h : (columns.map Prod.fst).Nodup) {key : CodeUnits} {v : α} :
    columns.lookup key = some v ↔ (key, v) ∈ columns := by
  induction columns with
  | nil => simp
  | cons c columns ih =>
    rw [List.map_cons, List.nodup_cons] at h
    rw [List.lookup_cons, List.mem_cons]
    by_cases hkey : key = c.1
    · subst hkey
      have hfresh : (c.1, v) ∉ columns := fun hmem => h.1 (List.mem_map.mpr ⟨_, hmem, rfl⟩)
      rw [beq_self_eq_true, or_iff_left hfresh, Prod.ext_iff]
      simp [eq_comm]
    · have hne : (key, v) ≠ c := fun heq => hkey (congrArg Prod.fst heq)
      rw [beq_false_of_ne hkey, or_iff_right hne]
      exact ih h.2

theorem lookup_of_perm {columns columns' : List (CodeUnits × α)} (h : (columns.map Prod.fst).Nodup)
    (h' : (columns'.map Prod.fst).Nodup) (hperm : columns.Perm columns') (key : CodeUnits) :
    columns.lookup key = columns'.lookup key := by
  apply Option.ext
  intro v
  rw [lookup_eq_some_iff_mem h, lookup_eq_some_iff_mem h', hperm.mem_iff]

/-- Sorted by the names. -/
def sortNamed (columns : List (CodeUnits × α)) : List (CodeUnits × α) :=
  columns.insertionSort fun p q => p.1 ≤ q.1

theorem sortNamed_perm (columns : List (CodeUnits × α)) : (sortNamed columns).Perm columns :=
  List.perm_insertionSort _ _

theorem pairwise_sortNamed (columns : List (CodeUnits × α)) :
    (sortNamed columns).Pairwise fun p q => p.1 ≤ q.1 := by
  have : Std.Total fun p q : CodeUnits × α => p.1 ≤ q.1 := ⟨fun p q => List.le_total p.1 q.1⟩
  have : IsTrans (CodeUnits × α) fun p q => p.1 ≤ q.1 := ⟨fun _ _ _ => List.le_trans⟩
  exact List.pairwise_insertionSort _ _

/-- A change of the values keeps the order. -/
theorem sortNamed_map (f : α → β) (columns : List (CodeUnits × α)) :
    sortNamed (columns.map fun p => (p.1, f p.2)) = (sortNamed columns).map fun p => (p.1, f p.2) := by
  have hinsert (p : CodeUnits × α) (ps : List (CodeUnits × α)) :
      (ps.map fun p => (p.1, f p.2)).orderedInsert (fun p q => p.1 ≤ q.1) (p.1, f p.2) =
        (ps.orderedInsert (fun p q => p.1 ≤ q.1) p).map fun p => (p.1, f p.2) := by
    induction ps with
    | nil => rfl
    | cons q ps ih =>
      rw [List.map_cons, List.orderedInsert, List.orderedInsert, ih]
      split <;> rfl
  induction columns with
  | nil => rfl
  | cons p columns ih =>
    have hsorted := hinsert p (sortNamed columns)
    rw [← ih] at hsorted
    exact hsorted

/-- Lists with names of their own are the same sorted exactly where they say the same of each name. -/
theorem sortNamed_eq_iff {columns columns' : List (CodeUnits × α)} (h : (columns.map Prod.fst).Nodup)
    (h' : (columns'.map Prod.fst).Nodup) :
    sortNamed columns = sortNamed columns' ↔ ∀ key, columns.lookup key = columns'.lookup key := by
  constructor
  · intro heq
    have hperm : (sortNamed columns).Perm columns' := by
      rw [heq]
      exact sortNamed_perm columns'
    exact lookup_of_perm h h' ((sortNamed_perm columns).symm.trans hperm)
  · intro hlookup
    have hperm : columns.Perm columns' := by
      rw [List.perm_ext_iff_of_nodup h.of_map h'.of_map]
      rintro ⟨key, v⟩
      rw [← lookup_eq_some_iff_mem h, ← lookup_eq_some_iff_mem h', hlookup]
    refine @List.Perm.eq_of_pairwise _ (fun p q => p.1 ≤ q.1) _ _ ?_ (pairwise_sortNamed columns)
      (pairwise_sortNamed columns') (((sortNamed_perm columns).trans hperm).trans (sortNamed_perm columns').symm)
    rintro ⟨key, v⟩ ⟨key', v'⟩ hp hq hle hge
    obtain rfl := List.le_antisymm hle hge
    have hv := (lookup_eq_some_iff_mem h).mpr ((sortNamed_perm columns).mem_iff.mp hp)
    have hv' := (lookup_eq_some_iff_mem h').mpr ((sortNamed_perm columns').mem_iff.mp hq)
    rw [← hlookup, hv] at hv'
    rw [Option.some.inj hv']

end Named

/-! ### Characters -/

def isSurrogate (c : UInt16) : Bool := isLead c || isTrail c

/-- The character of a unit alone. -/
def single (c : UInt16) : Char := if isSurrogate c then '\ufffd' else Char.ofNat c.toNat

def pair (c d : UInt16) : Char := Char.ofNat (0x10000 + (c.toNat - 0xD800) * 0x400 + (d.toNat - 0xDC00))

def scalars : CodeUnits → List Char
  | [] => []
  | [c] => [single c]
  | c :: d :: rest =>
    if isLead c ∧ isTrail d then pair c d :: scalars rest else single c :: scalars (d :: rest)

/-- No surrogate stands alone. -/
def WellFormed : CodeUnits → Prop
  | [] => True
  | [c] => isSurrogate c = false
  | c :: d :: rest =>
    if isLead c ∧ isTrail d then WellFormed rest else isSurrogate c = false ∧ WellFormed (d :: rest)

def units (c : Char) : CodeUnits :=
  if c.toNat < 0x10000 then [UInt16.ofNat c.toNat]
  else [UInt16.ofNat (0xD800 + (c.toNat - 0x10000) / 0x400), UInt16.ofNat (0xDC00 + (c.toNat - 0x10000) % 0x400)]

theorem toNat_lead {c : UInt16} : isLead c = true ↔ 0xD800 ≤ c.toNat ∧ c.toNat ≤ 0xDBFF := by
  simp [isLead, UInt16.le_iff_toNat_le]

theorem toNat_trail {c : UInt16} : isTrail c = true ↔ 0xDC00 ≤ c.toNat ∧ c.toNat ≤ 0xDFFF := by
  simp [isTrail, UInt16.le_iff_toNat_le]

theorem toNat_char {n : Nat} (h : n.isValidChar) : (Char.ofNat n).toNat = n := by
  rw [Char.toNat_ofNat, if_pos h]

theorem units_single {c : UInt16} (h : isSurrogate c = false) : units (single c) = [c] := by
  have hsmall : c.toNat < 0x10000 := c.toNat_lt
  have hvalid : c.toNat.isValidChar := by
    rw [isSurrogate, Bool.or_eq_false_iff, ← Bool.not_eq_true, ← Bool.not_eq_true, toNat_lead, toNat_trail] at h
    rw [Nat.isValidChar]
    omega
  rw [single, h, if_neg Bool.false_ne_true, units, toNat_char hvalid, if_pos hsmall, UInt16.ofNat_toNat]

theorem units_pair {c d : UInt16} (hc : isLead c) (hd : isTrail d) : units (pair c d) = [c, d] := by
  rw [toNat_lead] at hc
  rw [toNat_trail] at hd
  have hvalid : (0x10000 + (c.toNat - 0xD800) * 0x400 + (d.toNat - 0xDC00)).isValidChar := by
    rw [Nat.isValidChar]
    omega
  have hlead : 0xD800 + (0x10000 + (c.toNat - 0xD800) * 0x400 + (d.toNat - 0xDC00) - 0x10000) / 0x400 =
      c.toNat := by omega
  have htrail : 0xDC00 + (0x10000 + (c.toNat - 0xD800) * 0x400 + (d.toNat - 0xDC00) - 0x10000) % 0x400 =
      d.toNat := by omega
  rw [units, pair, toNat_char hvalid, if_neg (by omega), hlead, htrail, UInt16.ofNat_toNat, UInt16.ofNat_toNat]

theorem flatMap_units_scalars {s : CodeUnits} (h : WellFormed s) : (scalars s).flatMap units = s := by
  fun_induction scalars s with
  | case1 => rfl
  | case2 c => simpa using units_single h
  | case3 c d rest hpair ih =>
    rw [WellFormed, if_pos hpair] at h
    rw [List.flatMap_cons, ih h, units_pair hpair.1 hpair.2]
    rfl
  | case4 c d rest hpair ih =>
    rw [WellFormed, if_neg hpair] at h
    rw [List.flatMap_cons, ih h.2, units_single h.1]
    rfl

theorem scalars_inj {s t : CodeUnits} (hs : WellFormed s) (ht : WellFormed t)
    (h : scalars s = scalars t) : s = t := by
  rw [← flatMap_units_scalars hs, h, flatMap_units_scalars ht]

/-! ### What is written is well formed -/

theorem WellFormed.append {s t : CodeUnits} (hs : WellFormed s) (ht : WellFormed t) :
    WellFormed (s ++ t) := by
  fun_induction WellFormed s with
  | case1 => exact ht
  | case2 c =>
    cases t with
    | nil => exact hs
    | cons d t =>
      rw [isSurrogate, Bool.or_eq_false_iff] at hs
      rw [List.singleton_append, WellFormed, if_neg (by simp [hs.1])]
      exact ⟨by rw [isSurrogate, hs.1, hs.2]; rfl, ht⟩
  | case3 c d rest hpair ih =>
    rw [List.cons_append, List.cons_append, WellFormed, if_pos hpair]
    exact ih hs
  | case4 c d rest hpair ih =>
    rw [List.cons_append, List.cons_append, WellFormed, if_neg hpair]
    exact ⟨hs.1, ih hs.2⟩

theorem WellFormed.cons {c : UInt16} {s : CodeUnits} (hc : isSurrogate c = false) (hs : WellFormed s) :
    WellFormed (c :: s) :=
  WellFormed.append (s := [c]) hc hs

theorem wellFormed_of_plain {s : CodeUnits} (h : ∀ c ∈ s, isSurrogate c = false) : WellFormed s := by
  induction s with
  | nil => trivial
  | cons c s ih =>
    exact .cons (h c List.mem_cons_self) (ih fun d hd => h d (List.mem_cons_of_mem _ hd))

theorem wellFormed_single {c : UInt16} (hc : isSurrogate c = false) : WellFormed [c] := hc

theorem wellFormed_unicodeEscape : ∀ c : UInt16, WellFormed (unicodeEscape c) := by
  have hhex : ∀ n < 16, isSurrogate (hex n) = false := by decide
  intro c
  have hlt := c.toNat_lt
  refine .cons (by decide) <| .cons (by decide) <| .cons (hhex _ (by omega)) <|
    .cons (hhex _ (by omega)) <| .cons (hhex _ (by omega)) ?_
  exact hhex _ (by omega)

theorem wellFormed_writeUnit (c : UInt16) : WellFormed (writeUnit c) := by
  unfold writeUnit
  split
  · rename_i h
    rcases h with rfl | rfl <;> exact .cons (by decide) (wellFormed_single (by decide))
  split
  · exact .cons (by decide) (wellFormed_single (by decide))
  split
  · exact .cons (by decide) (wellFormed_single (by decide))
  split
  · exact .cons (by decide) (wellFormed_single (by decide))
  split
  · exact .cons (by decide) (wellFormed_single (by decide))
  split
  · exact .cons (by decide) (wellFormed_single (by decide))
  split
  · exact wellFormed_unicodeEscape c
  · rename_i h
    rw [not_or, not_or] at h
    rw [WellFormed, isSurrogate, Bool.or_eq_false_iff, ← Bool.not_eq_true, ← Bool.not_eq_true]
    exact h.2

theorem wellFormed_writeUnits (s : CodeUnits) : WellFormed (writeUnits s) := by
  fun_induction writeUnits s with
  | case1 => trivial
  | case2 c => exact wellFormed_writeUnit c
  | case3 c d rest hpair ih =>
    rw [WellFormed, if_pos hpair]
    exact ih
  | case4 c d rest hpair ih => exact (wellFormed_writeUnit c).append ih

theorem wellFormed_writeString (s : CodeUnits) : WellFormed (writeString s) :=
  .cons (by decide) <| (wellFormed_writeUnits s).append (wellFormed_single (by decide))

end Utf16
