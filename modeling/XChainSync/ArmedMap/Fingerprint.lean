import Mathlib
import XChainSync.ArmedMap.Injectivity
import XChainSync.Library.Joined

/-!
# Equal preimages

Two values that are accepted are equal exactly where their trees are, and reading an array of one
hole as the empty array changes no text. So the preimages of two lists of rows are equal exactly
where the lists are, read so.
-/

namespace XChainSync.ArmedMap
open JsonText NumberText
set_option autoImplicit false

/-! ### Arrays of one hole -/

mutual

def collapse : Canon → Canon
  | .arr [none] => .arr []
  | .arr elements => .arr (collapseElements elements)
  | .obj members => .obj (collapseMembers members)
  | c => c

def collapseElements : List (Option Canon) → List (Option Canon)
  | [] => []
  | none :: rest => none :: collapseElements rest
  | some c :: rest => some (collapse c) :: collapseElements rest

def collapseMembers : List (CodeUnits × Canon) → List (CodeUnits × Canon)
  | [] => []
  | (name, c) :: rest => (name, collapse c) :: collapseMembers rest

end

theorem collapse_arr {elements : List (Option Canon)} (h : elements ≠ [none]) :
    collapse (.arr elements) = .arr (collapseElements elements) := by
  rw [collapse]
  exact h

theorem collapseMembers_eq_map (members : List (CodeUnits × Canon)) :
    collapseMembers members = members.map fun p => (p.1, collapse p.2) := by
  induction members with
  | nil => rfl
  | cons p members ih => rw [collapseMembers, ih, List.map_cons]

theorem collapseElements_ne_lone {elements : List (Option Canon)} (h : elements ≠ [none]) :
    collapseElements elements ≠ [none] := by
  intro heq
  match elements with
  | [] => cases heq
  | none :: [] => exact h rfl
  | none :: none :: rest => cases heq
  | none :: some c :: rest => cases heq
  | some c :: rest => cases heq

mutual

theorem render_collapse : ∀ c : Canon, render (collapse c) = render c
  | .null => rfl
  | .bool _ => rfl
  | .num _ _ => rfl
  | .str _ => rfl
  | .regexp _ _ => rfl
  | .arr elements => by
    by_cases h : elements = [none]
    · subst h
      rfl
    · rw [collapse_arr h, render, render, renderElements_collapse elements]
  | .obj members => by rw [collapse, render, render, renderMembers_collapse members]

theorem renderElements_collapse : ∀ elements : List (Option Canon),
    renderElements (collapseElements elements) = renderElements elements
  | [] => rfl
  | none :: rest => by rw [collapseElements, renderElements, renderElements, renderElements_collapse rest]
  | some c :: rest => by
    rw [collapseElements, renderElements, renderElements, render_collapse c, renderElements_collapse rest]

theorem renderMembers_collapse : ∀ members : List (CodeUnits × Canon),
    renderMembers (collapseMembers members) = renderMembers members
  | [] => rfl
  | (name, c) :: rest => by
    rw [collapseMembers, renderMembers, renderMembers, render_collapse c, renderMembers_collapse rest]

end

mutual

theorem full_collapse : ∀ c : Canon, Full (collapse c)
  | .null => trivial
  | .bool _ => trivial
  | .num _ _ => trivial
  | .str _ => trivial
  | .regexp _ _ => trivial
  | .arr elements => by
    by_cases h : elements = [none]
    · subst h
      exact ⟨nofun, trivial⟩
    · rw [collapse_arr h]
      exact ⟨collapseElements_ne_lone h, fullElements_collapse elements⟩
  | .obj members => by
    rw [collapse]
    exact fullMembers_collapse members

theorem fullElements_collapse : ∀ elements : List (Option Canon), FullElements (collapseElements elements)
  | [] => trivial
  | none :: rest => fullElements_collapse rest
  | some c :: rest => ⟨full_collapse c, fullElements_collapse rest⟩

theorem fullMembers_collapse : ∀ members : List (CodeUnits × Canon), FullMembers (collapseMembers members)
  | [] => trivial
  | (_, c) :: rest => ⟨full_collapse c, fullMembers_collapse rest⟩

end

theorem fill_arr {elements : List (Option Value)} (h : elements ≠ [none]) :
    fill (.arr elements) = .arr (fillElements elements) := by
  rw [fill]
  exact h

theorem isUndefined_fill (v : Value) : (fill v).isUndefined = v.isUndefined := by
  cases v with
  | arr elements =>
    by_cases h : elements = [none]
    · subst h
      rfl
    · rw [fill_arr h]
      rfl
  | _ => rfl

theorem canonElements_some {v : Value} {rest : List (Option Value)} {cs : List (Option Canon)}
    (h : canonElements (some v :: rest) = some cs) :
    ∃ c ds, canon v = some c ∧ canonElements rest = some ds ∧ cs = some c :: ds := by
  rw [canonElements] at h
  obtain ⟨c, hc, h⟩ := Option.bind_eq_some_iff.mp h
  obtain ⟨ds, hds, h⟩ := Option.bind_eq_some_iff.mp h
  exact ⟨c, ds, hc, hds, (Option.some.inj h).symm⟩

theorem canonElements_none {rest : List (Option Value)} {cs : List (Option Canon)}
    (h : canonElements (none :: rest) = some cs) :
    ∃ ds, canonElements rest = some ds ∧ cs = none :: ds := by
  rw [canonElements] at h
  obtain ⟨ds, hds, h⟩ := Option.map_eq_some_iff.mp h
  exact ⟨ds, hds, h.symm⟩

theorem canonElements_eq_lone {elements : List (Option Value)} (h : canonElements elements = some [none]) :
    elements = [none] := by
  match elements with
  | [] => cases h
  | none :: rest =>
    obtain ⟨ds, hds, heq⟩ := canonElements_none h
    rw [← (List.cons.inj heq).2] at hds
    match rest with
    | [] => rfl
    | none :: rest =>
      obtain ⟨_, _, heq⟩ := canonElements_none hds
      cases heq
    | some v :: rest =>
      obtain ⟨_, _, _, _, heq⟩ := canonElements_some hds
      cases heq
  | some v :: rest =>
    obtain ⟨_, _, _, _, heq⟩ := canonElements_some h
    cases heq

mutual

theorem canon_fill : ∀ v : Value, canon (fill v) = (canon v).map collapse
  | .null => rfl
  | .undefined => rfl
  | .bool _ => rfl
  | .num x => by cases x <;> rfl
  | .str _ => rfl
  | .regexp _ _ => rfl
  | .other _ => rfl
  | .arr elements => by
    by_cases h : elements = [none]
    · subst h
      rfl
    · rw [fill_arr h, canon, canon, canonElements_fill elements, Option.map_map, Option.map_map]
      apply Option.map_congr
      intro cs hcs
      have hlone : cs ≠ [none] := by
        rintro rfl
        exact h (canonElements_eq_lone hcs)
      exact (collapse_arr hlone).symm
  | .obj members => by
    rw [fill, canon, canon, canonMembers_fill members, Option.map_map, Option.map_map]
    apply Option.map_congr
    intro cs _
    rw [Function.comp_apply, Function.comp_apply, collapse, collapseMembers_eq_map, Utf16.sortNamed_map,
      collapseMembers_eq_map]

theorem canonElements_fill : ∀ elements : List (Option Value),
    canonElements (fillElements elements) = (canonElements elements).map collapseElements
  | [] => rfl
  | none :: rest => by
    rw [fillElements, canonElements, canonElements, canonElements_fill rest, Option.map_map, Option.map_map]
    rfl
  | some v :: rest => by
    rw [fillElements, canonElements, canonElements, canon_fill v, canonElements_fill rest]
    cases canon v <;> cases canonElements rest <;> rfl

theorem canonMembers_fill : ∀ members : List (CodeUnits × Value),
    canonMembers (fillMembers members) = (canonMembers members).map collapseMembers
  | [] => rfl
  | (name, v) :: rest => by
    rw [fillMembers, canonMembers, canonMembers, isUndefined_fill, canon_fill v, canonMembers_fill rest]
    split
    · rfl
    · cases canon v <;> cases canonMembers rest <;> rfl

end

/-! ### Equal values have equal trees -/

def valueKind : Value → Option Nat
  | .null => some 0
  | .bool _ => some 1
  | .num _ => some 2
  | .str _ => some 3
  | .regexp _ _ => some 4
  | .arr _ => some 5
  | .obj _ => some 6
  | .undefined => none
  | .other _ => none

theorem canon_kind {v : Value} {c : Canon} (h : canon v = some c) : valueKind v = some (kind c) := by
  cases v with
  | num x => cases x <;> cases h <;> rfl
  | arr elements =>
    rw [canon] at h
    obtain ⟨cs, -, rfl⟩ := Option.map_eq_some_iff.mp h
    rfl
  | obj members =>
    rw [canon] at h
    obtain ⟨cs, -, rfl⟩ := Option.map_eq_some_iff.mp h
    rfl
  | _ => cases h <;> rfl

theorem same_kind {v w : Value} (h : Same v w) : valueKind v = valueKind w := by
  cases v <;> cases w <;> first | rfl | exact absurd h (by simp [Same])

section Fields
variable {members : List (CodeUnits × Value)} {cs : List (CodeUnits × Canon)}

theorem field_cons (name key : CodeUnits) (v : Value) :
    field ((name, v) :: members) key =
      if key = name then (if v.isUndefined then none else some v) else field members key := by
  rw [field, List.lookup_cons]
  split
  · rename_i h
    rw [if_pos (eq_of_beq h), Option.filter_some]
    cases v.isUndefined <;> rfl
  · rename_i h
    rw [if_neg (by simpa using h), field]

theorem field_of_fresh {key : CodeUnits} (h : key ∉ members.map Prod.fst) : field members key = none := by
  have hlookup : members.lookup key = none := by
    rw [List.lookup_eq_none_iff]
    intro p hp
    rw [bne_iff_ne]
    rintro rfl
    exact h (List.mem_map_of_mem hp)
  rw [field, hlookup]
  rfl

theorem canonMembers_cons {name : CodeUnits} {v : Value} (hv : v.isUndefined = false)
    (h : canonMembers ((name, v) :: members) = some cs) :
    ∃ c ds, canon v = some c ∧ canonMembers members = some ds ∧ cs = (name, c) :: ds := by
  rw [canonMembers, hv, if_neg Bool.false_ne_true] at h
  obtain ⟨c, hc, h⟩ := Option.bind_eq_some_iff.mp h
  obtain ⟨ds, hds, h⟩ := Option.bind_eq_some_iff.mp h
  exact ⟨c, ds, hc, hds, (Option.some.inj h).symm⟩

theorem canonMembers_undefined {name : CodeUnits} {v : Value} (hv : v.isUndefined = true) :
    canonMembers ((name, v) :: members) = canonMembers members := by
  rw [canonMembers, if_pos hv]

theorem names_canonMembers (h : canonMembers members = some cs) :
    (cs.map Prod.fst).Sublist (members.map Prod.fst) := by
  induction members generalizing cs with
  | nil =>
    cases h
    exact List.Sublist.refl _
  | cons p members ih =>
    obtain ⟨name, v⟩ := p
    cases hv : v.isUndefined with
    | true =>
      rw [canonMembers_undefined hv] at h
      exact (ih h).cons _
    | false =>
      obtain ⟨c, ds, -, hds, rfl⟩ := canonMembers_cons hv h
      exact (ih hds).cons_cons _

/-- The tree of a field is found under its name. -/
theorem lookup_canonMembers (hnodup : (members.map Prod.fst).Nodup) (h : canonMembers members = some cs)
    (key : CodeUnits) : cs.lookup key = (field members key).bind canon := by
  induction members generalizing cs with
  | nil =>
    cases h
    rfl
  | cons p members ih =>
    obtain ⟨name, v⟩ := p
    rw [List.map_cons, List.nodup_cons] at hnodup
    rw [field_cons]
    cases hv : v.isUndefined with
    | true =>
      rw [canonMembers_undefined hv] at h
      rw [ih hnodup.2 h]
      split
      · rename_i hkey
        rw [hkey, field_of_fresh hnodup.1]
        rfl
      · rfl
    | false =>
      obtain ⟨c, ds, hc, hds, rfl⟩ := canonMembers_cons hv h
      rw [List.lookup_cons]
      by_cases hkey : key = name
      · rw [hkey, beq_self_eq_true, if_pos rfl, if_neg Bool.false_ne_true, Option.bind_some, hc]
      · rw [beq_false_of_ne hkey, if_neg hkey]
        exact ih hnodup.2 hds

/-- Every field has its tree. -/
theorem canon_field (h : canonMembers members = some cs) {key : CodeUnits} {v : Value}
    (hv : field members key = some v) : ∃ c, canon v = some c := by
  induction members generalizing cs with
  | nil => cases hv
  | cons p members ih =>
    obtain ⟨name, w⟩ := p
    rw [field_cons] at hv
    cases hw : w.isUndefined with
    | true =>
      rw [canonMembers_undefined hw] at h
      rw [hw] at hv
      split at hv
      · cases hv
      · exact ih h hv
    | false =>
      obtain ⟨c, ds, hc, hds, -⟩ := canonMembers_cons hw h
      rw [hw] at hv
      split at hv
      · cases hv
        exact ⟨c, hc⟩
      · exact ih hds hv

theorem own_field (h : OwnMembers members) {key : CodeUnits} {v : Value}
    (hv : field members key = some v) : v.Own := by
  induction members with
  | nil => cases hv
  | cons p members ih =>
    obtain ⟨name, w⟩ := p
    rw [field_cons] at hv
    split at hv
    · split at hv
      · cases hv
      · cases hv
        exact h.1
    · exact ih h.2 hv

end Fields

theorem canonNumber_eq_iff {x y : Number} {c d : Canon} (hc : canonNumber x = some c)
    (hd : canonNumber y = some d) : sameNumber x y ↔ c = d := by
  have hnum {q r : ℚ} {hq : Double.round q = some q} {hr : Double.round r = some r} :
      Canon.num q hq = Canon.num r hr ↔ q = r := by rw [Canon.num.injEq]
  cases x with
  | NaN => cases hc
  | infinity negative => cases hc
  | negZero =>
    cases y with
    | NaN => cases hd
    | infinity negative => cases hd
    | negZero =>
      cases hc
      cases hd
      exact ⟨fun _ => rfl, fun _ => trivial⟩
    | finite r hr =>
      cases hc
      cases hd
      rw [hnum]
      exact eq_comm
  | finite q hq =>
    cases y with
    | NaN => cases hd
    | infinity negative => cases hd
    | negZero =>
      cases hc
      cases hd
      rw [hnum]
      exact Iff.rfl
    | finite r hr =>
      cases hc
      cases hd
      rw [hnum]
      exact Iff.rfl

/-- The fields of two objects match exactly where they have the same trees under the same names. -/
theorem fields_match_iff {members members' : List (CodeUnits × Value)} {cs ds : List (CodeUnits × Canon)}
    (hnodup : (members.map Prod.fst).Nodup) (hnodup' : (members'.map Prod.fst).Nodup)
    (hcs : canonMembers members = some cs) (hds : canonMembers members' = some ds) :
    ((∀ key v, field members key = some v → ∃ v', field members' key = some v' ∧ canon v = canon v') ∧
        ∀ key, field members key = none → field members' key = none) ↔
      Utf16.sortNamed cs = Utf16.sortNamed ds := by
  rw [Utf16.sortNamed_eq_iff (hnodup.sublist (names_canonMembers hcs))
    (hnodup'.sublist (names_canonMembers hds))]
  constructor
  · rintro ⟨hfields, hnone⟩ key
    rw [lookup_canonMembers hnodup hcs, lookup_canonMembers hnodup' hds]
    cases hv : field members key with
    | none => rw [hnone key hv]
    | some v =>
      obtain ⟨v', hv', hcanon⟩ := hfields key v hv
      rw [hv', Option.bind_some, Option.bind_some, hcanon]
  · intro hlookup
    have hbind (key : CodeUnits) : (field members key).bind canon = (field members' key).bind canon := by
      rw [← lookup_canonMembers hnodup hcs, ← lookup_canonMembers hnodup' hds, hlookup]
    constructor
    · intro key v hv
      obtain ⟨c, hc⟩ := canon_field hcs hv
      have hkey := hbind key
      rw [hv, Option.bind_some, hc] at hkey
      obtain ⟨v', hv', hc'⟩ := Option.bind_eq_some_iff.mp hkey.symm
      exact ⟨v', hv', hc.trans hc'.symm⟩
    · intro key hv
      have hkey := hbind key
      rw [hv, Option.bind_none] at hkey
      cases hv' : field members' key with
      | none => rfl
      | some v' =>
        obtain ⟨c, hc⟩ := canon_field hds hv'
        rw [hv', Option.bind_some, hc] at hkey
        cases hkey

theorem field_of_mem {members : List (CodeUnits × Value)} (hnodup : (members.map Prod.fst).Nodup)
    {key : CodeUnits} {v : Value} (hv : v.isUndefined = false) :
    field members key = some v ↔ (key, v) ∈ members := by
  rw [field, Option.filter_eq_some_iff, Utf16.lookup_eq_some_iff_mem hnodup, hv]
  simp

theorem kinds_differ {v w : Value} {c d : Canon} (hc : canon v = some c) (hd : canon w = some d)
    (h : valueKind v ≠ valueKind w) : Same v w ↔ c = d := by
  constructor
  · exact fun hsame => absurd (same_kind hsame) h
  · rintro rfl
    exact absurd ((canon_kind hc).trans (canon_kind hd).symm) h

mutual

/-- Accepted values are equal exactly where their trees are. -/
theorem same_iff : ∀ (v w : Value) {c d : Canon}, v.Own → w.Own → canon v = some c → canon w = some d →
    (Same v w ↔ c = d)
  | .null, w, _, _, _, _, hc, hd => by
    cases w with
    | null =>
      cases hc
      cases hd
      exact ⟨fun _ => rfl, fun _ => trivial⟩
    | _ => exact kinds_differ hc hd nofun
  | .bool b, w, _, _, _, _, hc, hd => by
    cases w with
    | bool b' =>
      cases hc
      cases hd
      rw [Same, Canon.bool.injEq]
    | _ => exact kinds_differ hc hd nofun
  | .num x, w, _, _, _, _, hc, hd => by
    cases w with
    | num y =>
      rw [Same]
      exact canonNumber_eq_iff hc hd
    | _ => exact kinds_differ hc hd nofun
  | .str s, w, _, _, _, _, hc, hd => by
    cases w with
    | str s' =>
      cases hc
      cases hd
      rw [Same, Canon.str.injEq]
    | _ => exact kinds_differ hc hd nofun
  | .regexp source flags, w, _, _, _, _, hc, hd => by
    cases w with
    | regexp source' flags' =>
      cases hc
      cases hd
      rw [Same, Canon.regexp.injEq]
    | _ => exact kinds_differ hc hd nofun
  | .undefined, _, _, _, _, _, hc, _ => by cases hc
  | .other what, _, _, _, _, _, hc, _ => by cases hc
  | .arr elements, w, _, _, hown, hown', hc, hd => by
    cases w with
    | arr elements' =>
      rw [canon] at hc hd
      obtain ⟨cs, hcs, rfl⟩ := Option.map_eq_some_iff.mp hc
      obtain ⟨ds, hds, rfl⟩ := Option.map_eq_some_iff.mp hd
      rw [Same, Canon.arr.injEq]
      exact sameElements_iff elements elements' hown hown' hcs hds
    | _ => exact kinds_differ hc hd nofun
  | .obj members, w, _, _, hown, hown', hc, hd => by
    cases w with
    | obj members' =>
      rw [canon] at hc hd
      obtain ⟨cs, hcs, rfl⟩ := Option.map_eq_some_iff.mp hc
      obtain ⟨ds, hds, rfl⟩ := Option.map_eq_some_iff.mp hd
      rw [Same, Canon.obj.injEq, ← fields_match_iff hown.1 hown'.1 hcs hds,
        sameMembers_iff members members' hown.2 hown'.2 hcs hds]
      apply and_congr_left
      intro _
      constructor
      · intro h key v hv
        have hundefined : v.isUndefined = false := by
          rw [field, Option.filter_eq_some_iff] at hv
          simpa using hv.2
        exact h key v ((field_of_mem hown.1 hundefined).mp hv) hundefined
      · intro h key v hmem hundefined
        exact h key v ((field_of_mem hown.1 hundefined).mpr hmem)
    | _ => exact kinds_differ hc hd nofun

theorem sameElements_iff : ∀ (es fs : List (Option Value)) {cs ds : List (Option Canon)},
    OwnElements es → OwnElements fs → canonElements es = some cs → canonElements fs = some ds →
    (SameElements es fs ↔ cs = ds)
  | [], [], _, _, _, _, hc, hd => by
    cases hc
    cases hd
    exact ⟨fun _ => rfl, fun _ => trivial⟩
  | [], none :: fs, _, _, _, _, hc, hd => by
    obtain ⟨ds, -, rfl⟩ := canonElements_none hd
    cases hc
    exact ⟨False.elim, nofun⟩
  | [], some w :: fs, _, _, _, _, hc, hd => by
    obtain ⟨d, ds, -, -, rfl⟩ := canonElements_some hd
    cases hc
    exact ⟨False.elim, nofun⟩
  | none :: es, [], _, _, _, _, hc, hd => by
    obtain ⟨cs, -, rfl⟩ := canonElements_none hc
    cases hd
    exact ⟨False.elim, nofun⟩
  | some v :: es, [], _, _, _, _, hc, hd => by
    obtain ⟨c, cs, -, -, rfl⟩ := canonElements_some hc
    cases hd
    exact ⟨False.elim, nofun⟩
  | none :: es, none :: fs, _, _, hown, hown', hc, hd => by
    obtain ⟨cs, hcs, rfl⟩ := canonElements_none hc
    obtain ⟨ds, hds, rfl⟩ := canonElements_none hd
    rw [SameElements, List.cons.injEq, sameElements_iff es fs hown hown' hcs hds]
    exact (and_iff_right rfl).symm
  | none :: es, some w :: fs, _, _, _, _, hc, hd => by
    obtain ⟨cs, -, rfl⟩ := canonElements_none hc
    obtain ⟨d, ds, -, -, rfl⟩ := canonElements_some hd
    exact ⟨False.elim, nofun⟩
  | some v :: es, none :: fs, _, _, _, _, hc, hd => by
    obtain ⟨c, cs, -, -, rfl⟩ := canonElements_some hc
    obtain ⟨ds, -, rfl⟩ := canonElements_none hd
    exact ⟨False.elim, nofun⟩
  | some v :: es, some w :: fs, _, _, hown, hown', hc, hd => by
    obtain ⟨c, cs, hv, hcs, rfl⟩ := canonElements_some hc
    obtain ⟨d, ds, hw, hds, rfl⟩ := canonElements_some hd
    rw [SameElements, List.cons.injEq, Option.some_inj, same_iff v w hown.1 hown'.1 hv hw,
      sameElements_iff es fs hown.2 hown'.2 hcs hds]

theorem sameMembers_iff : ∀ (ps qs : List (CodeUnits × Value)) {cs ds : List (CodeUnits × Canon)},
    OwnMembers ps → OwnMembers qs → canonMembers ps = some cs → canonMembers qs = some ds →
    (SameMembers ps qs ↔ ∀ key v, (key, v) ∈ ps → v.isUndefined = false →
      ∃ v', field qs key = some v' ∧ canon v = canon v')
  | [], _, _, _, _, _, _, _ => ⟨fun _ _ _ h => absurd h List.not_mem_nil, fun _ => trivial⟩
  | (name, v) :: ps, qs, _, _, hown, hown', hc, hd => by
    have hcs : ∃ cs, canonMembers ps = some cs := by
      cases hv : v.isUndefined with
      | true => exact ⟨_, (canonMembers_undefined hv).symm.trans hc⟩
      | false =>
        obtain ⟨_, cs, -, hcs, -⟩ := canonMembers_cons hv hc
        exact ⟨cs, hcs⟩
    obtain ⟨cs, hcs⟩ := hcs
    have hvalue : v.isUndefined = false → ∀ v', field qs name = some v' →
        (Same v v' ↔ canon v = canon v') := by
      intro hv v' hfield
      obtain ⟨c, -, hcanon, -, -⟩ := canonMembers_cons hv hc
      obtain ⟨d, hd⟩ := canon_field hd hfield
      rw [same_iff v v' hown.1 (own_field hown' hfield) hcanon hd, hcanon, hd, Option.some_inj]
    rw [SameMembers, sameMembers_iff ps qs hown.2 hown' hcs hd]
    constructor
    · rintro ⟨hhead, hrest⟩ key w hmem hw
      rcases List.mem_cons.mp hmem with heq | hmem
      · cases heq
        obtain ⟨v', hfield, hsame⟩ := hhead hw
        exact ⟨v', hfield, (hvalue hw v' hfield).mp hsame⟩
      · exact hrest key w hmem hw
    · intro h
      refine ⟨?_, fun key w hmem => h key w (List.mem_cons_of_mem _ hmem)⟩
      intro hv
      obtain ⟨v', hfield, hcanon⟩ := h name v List.mem_cons_self hv
      exact ⟨v', hfield, (hvalue hv v' hfield).mpr hcanon⟩

end

/-! ### Filled rows -/

theorem names_fillMembers (members : List (CodeUnits × Value)) :
    (fillMembers members).map Prod.fst = members.map Prod.fst := by
  induction members with
  | nil => rfl
  | cons p members ih => rw [fillMembers, List.map_cons, List.map_cons, ih]

mutual

theorem own_fill : ∀ v : Value, v.Own → (fill v).Own
  | .null, _ => trivial
  | .undefined, _ => trivial
  | .bool _, _ => trivial
  | .num _, _ => trivial
  | .str _, _ => trivial
  | .regexp _ _, _ => trivial
  | .other _, _ => trivial
  | .arr elements, h => by
    by_cases hlone : elements = [none]
    · subst hlone
      trivial
    · rw [fill_arr hlone]
      exact ownElements_fill elements h
  | .obj members, h => by
    rw [fill]
    exact ⟨by rw [names_fillMembers]; exact h.1, ownMembers_fill members h.2⟩

theorem ownElements_fill : ∀ elements : List (Option Value), OwnElements elements →
    OwnElements (fillElements elements)
  | [], _ => trivial
  | none :: rest, h => ownElements_fill rest h
  | some v :: rest, h => ⟨own_fill v h.1, ownElements_fill rest h.2⟩

theorem ownMembers_fill : ∀ members : List (CodeUnits × Value), OwnMembers members →
    OwnMembers (fillMembers members)
  | [], _ => trivial
  | (_, v) :: rest, h => ⟨own_fill v h.1, ownMembers_fill rest h.2⟩

end

def Row.fill (row : Row) : Row := ⟨row.key, ArmedMap.fill row.value, own_fill row.value row.own⟩

def members (rows : List Row) : List (CodeUnits × Value) := rows.map fun r => (r.key, r.value)

theorem members_fill (rows : List Row) : members (rows.map Row.fill) = fillMembers (members rows) := by
  induction rows with
  | nil => rfl
  | cons row rows ih =>
    rw [members, List.map_cons, List.map_cons]
    exact congrArg _ ih

theorem ownMembers_rows (rows : List Row) : OwnMembers (members rows) := by
  induction rows with
  | nil => trivial
  | cons row rows ih => exact ⟨row.own, ih⟩

/-! ### What is accepted -/

/-- Rows that are accepted, with the trees of their values. -/
structure Accepted (rows : List Row) (cs : List (CodeUnits × Canon)) : Prop where
  keys : ∀ row ∈ rows, isKey row.key = true
  nodup : ((members rows).map Prod.fst).Nodup
  defined : ∀ p ∈ members rows, p.2.isUndefined = false
  canon_eq : canonMembers (members rows) = some cs

theorem collect_ok {seen : List CodeUnits} {rows : List Row} {out : List (CodeUnits × CodeUnits)}
    (h : collect seen rows = .ok out) :
    ∃ cs, Accepted rows cs ∧ (∀ row ∈ rows, row.key ∉ seen) ∧
      out = cs.map fun p => (p.1, render p.2) := by
  induction rows generalizing seen out with
  | nil =>
    cases h
    exact ⟨[], ⟨nofun, List.nodup_nil, nofun, rfl⟩, nofun, rfl⟩
  | cons row rows ih =>
    rw [collect] at h
    split at h
    · cases h
    rename_i hkey
    split at h
    · cases h
    rename_i hseen
    obtain ⟨vcs, hvcs, h⟩ := bind_ok h
    obtain ⟨rest, hrest, h⟩ := bind_ok h
    obtain ⟨cs, haccepted, hfresh, rfl⟩ := ih hrest
    have hvalue : serialise row.value (ascii "$") = .ok vcs := by
      cases hserialise : serialise row.value (ascii "$") with
      | error e =>
        rw [canonicalValue, hserialise] at hvcs
        cases hvcs
      | ok text =>
        rw [canonicalValue, hserialise] at hvcs
        exact hvcs
    obtain ⟨c, hc, hrender⟩ := serialise_ok row.value hvalue
    have hdefined : row.value.isUndefined = false := by
      cases hv : row.value with
      | undefined =>
        rw [hv] at hc
        cases hc
      | _ => rfl
    refine ⟨(row.key, c) :: cs, ⟨?_, ?_, ?_, ?_⟩, ?_, ?_⟩
    · exact List.forall_mem_cons.mpr ⟨by simpa using hkey, haccepted.keys⟩
    · rw [members, List.map_cons, List.map_cons, List.nodup_cons]
      refine ⟨?_, haccepted.nodup⟩
      intro hmem
      obtain ⟨p, hp, heq⟩ := List.mem_map.mp hmem
      obtain ⟨row', hrow', rfl⟩ := List.mem_map.mp hp
      exact hfresh row' hrow' (List.mem_append_right _ (List.mem_singleton.mpr heq))
    · exact List.forall_mem_cons.mpr ⟨hdefined, haccepted.defined⟩
    · rw [members, List.map_cons, canonMembers, hdefined, if_neg Bool.false_ne_true, hc]
      exact congrArg (Option.bind · _) haccepted.canon_eq
    · refine List.forall_mem_cons.mpr ⟨hseen, fun row' hrow' hmem => ?_⟩
      exact hfresh row' hrow' (List.mem_append_left _ hmem)
    · rw [← Except.ok.inj h, List.map_cons, hrender]

theorem preimage_ok {rows : List Row} {p : CodeUnits} (h : preimage rows = .ok p) :
    ∃ cs, Accepted rows cs ∧
      p = DOMAIN ++ (Utf16.sortNamed cs).flatMap fun c => rowText (c.1, render c.2) := by
  rw [preimage, canonicalRows] at h
  cases hcollect : collect [] rows with
  | error e =>
    rw [hcollect] at h
    cases h
  | ok out =>
    obtain ⟨cs, haccepted, -, rfl⟩ := collect_ok hcollect
    rw [hcollect] at h
    refine ⟨cs, haccepted, ?_⟩
    have hsorted : DOMAIN ++ (Utf16.sortNamed (cs.map fun p => (p.1, render p.2))).flatMap rowText = p :=
      Except.ok.inj h
    rw [← hsorted, Utf16.sortNamed_map, List.flatMap_map]

theorem collapse_accepted {rows : List Row} {cs : List (CodeUnits × Canon)} (h : Accepted rows cs) :
    Accepted (rows.map Row.fill) (collapseMembers cs) where
  keys := by
    intro row hrow
    obtain ⟨row', hrow', rfl⟩ := List.mem_map.mp hrow
    exact h.keys row' hrow'
  nodup := by
    rw [members_fill, names_fillMembers]
    exact h.nodup
  defined := by
    intro p hp
    obtain ⟨row, hrow, rfl⟩ := List.mem_map.mp hp
    obtain ⟨row', hrow', rfl⟩ := List.mem_map.mp hrow
    exact (isUndefined_fill row'.value).trans (h.defined _ (List.mem_map_of_mem hrow'))
  canon_eq := by rw [members_fill, canonMembers_fill, h.canon_eq, Option.map_some]

/-! ### Equal rows have equal trees -/

theorem field_members {rows : List Row} {cs : List (CodeUnits × Canon)} (h : Accepted rows cs)
    (key : CodeUnits) : field (members rows) key = (members rows).lookup key := by
  rw [field]
  cases hlookup : (members rows).lookup key with
  | none => rfl
  | some v =>
    have hv := h.defined _ ((Utf16.lookup_eq_some_iff_mem h.nodup).mp hlookup)
    rw [Option.filter_some, hv]
    rfl

theorem sameRows_iff {rows rows' : List Row} {cs ds : List (CodeUnits × Canon)}
    (h : Accepted rows cs) (h' : Accepted rows' ds) :
    SameRows rows rows' ↔ Utf16.sortNamed cs = Utf16.sortNamed ds := by
  rw [Utf16.sortNamed_eq_iff (h.nodup.sublist (names_canonMembers h.canon_eq))
    (h'.nodup.sublist (names_canonMembers h'.canon_eq))]
  apply forall_congr'
  intro key
  rw [lookup_canonMembers h.nodup h.canon_eq, lookup_canonMembers h'.nodup h'.canon_eq]
  change Option.Rel Same ((members rows).lookup key) ((members rows').lookup key) ↔ _
  rw [← field_members h, ← field_members h']
  cases hv : field (members rows) key with
  | none =>
    cases hw : field (members rows') key with
    | none => exact ⟨fun _ => rfl, fun _ => .none⟩
    | some w =>
      obtain ⟨d, hd⟩ := canon_field h'.canon_eq hw
      rw [Option.bind_none, Option.bind_some, hd]
      exact ⟨nofun, nofun⟩
  | some v =>
    obtain ⟨c, hc⟩ := canon_field h.canon_eq hv
    cases hw : field (members rows') key with
    | none =>
      rw [Option.bind_none, Option.bind_some, hc]
      exact ⟨nofun, nofun⟩
    | some w =>
      obtain ⟨d, hd⟩ := canon_field h'.canon_eq hw
      have hsame := same_iff v w (own_field (ownMembers_rows rows) hv)
        (own_field (ownMembers_rows rows') hw) hc hd
      rw [Option.bind_some, Option.bind_some, hc, hd, Option.some_inj, ← hsame]
      exact ⟨fun hrel => by cases hrel; assumption, .some⟩

/-! ### Reading the rows back -/

theorem mem_intercalate {point c : UInt16} {segments : List CodeUnits}
    (h : c ∈ [point].intercalate segments) : c = point ∨ ∃ s ∈ segments, c ∈ s := by
  induction segments with
  | nil => cases h
  | cons s segments ih =>
    cases segments with
    | nil => exact .inr ⟨s, List.mem_cons_self, by simpa using h⟩
    | cons t segments =>
      have hcons : [point].intercalate (s :: t :: segments) =
          s ++ point :: [point].intercalate (t :: segments) := by
        simp [List.intercalate, List.intersperse]
      rw [hcons, List.mem_append, List.mem_cons] at h
      rcases h with h | h | h
      · exact .inr ⟨s, List.mem_cons_self, h⟩
      · exact .inl h
      · rcases ih h with h | ⟨u, hu, hc⟩
        · exact .inl h
        · exact .inr ⟨u, List.mem_cons_of_mem _ hu, hc⟩

theorem no_equals_in_key {key : CodeUnits} (h : isKey key = true) : (0x3D : UInt16) ∉ key := by
  intro hmem
  have hjoined : [0x2E].intercalate (key.splitOn 0x2E) = key := List.intercalate_splitOn 0x2E
  rw [← hjoined] at hmem
  rw [isKey] at h
  split at h
  · rename_i stem name names hsplit
    rw [decide_eq_true_eq] at h
    obtain ⟨-, hstem, hnames⟩ := h
    rw [hsplit] at hmem
    rcases mem_intercalate hmem with hpoint | ⟨s, hs, hc⟩
    · exact absurd hpoint (by decide)
    · rcases List.mem_cons.mp hs with rfl | hs
      · exact absurd (List.all_eq_true.mp hstem _ hc) (by decide)
      · exact absurd (List.all_eq_true.mp (hnames s hs).2 _ hc) (by decide)
  · cases h

/-- One row of a text and what stands behind it. -/
theorem rowText_append (key vcs rest : CodeUnits) :
    rowText (key, vcs) ++ rest = key ++ 0x3D :: (vcs ++ 0x0A :: rest) := by
  have hequals : ascii "=" = [0x3D] := rfl
  have hend : ascii "\n" = [0x0A] := rfl
  rw [rowText, hequals, hend]
  simp

theorem rows_inj : ∀ (ps qs : List (CodeUnits × Canon)), (∀ p ∈ ps, (0x3D : UInt16) ∉ p.1 ∧ Full p.2) →
    (∀ q ∈ qs, (0x3D : UInt16) ∉ q.1 ∧ Full q.2) →
    (ps.flatMap fun p => rowText (p.1, render p.2)) = (qs.flatMap fun q => rowText (q.1, render q.2)) →
    ps = qs
  | [], [], _, _, _ => rfl
  | [], q :: qs, _, _, h => by
    rw [List.flatMap_cons, rowText_append] at h
    exact absurd h.symm (by simp)
  | p :: ps, [], _, _, h => by
    rw [List.flatMap_cons, rowText_append] at h
    exact absurd h (by simp)
  | p :: ps, q :: qs, hps, hqs, h => by
    rw [List.flatMap_cons, List.flatMap_cons, rowText_append, rowText_append] at h
    rw [List.forall_mem_cons] at hps hqs
    have hend (rest : CodeUnits) : Delimited (0x0A :: rest) := by
      intro c hc
      obtain rfl := Option.some.inj hc
      exact .inr (.inr (.inr rfl))
    obtain ⟨hkey, hbehind⟩ := Joined.append_sep_inj hps.1.1 hqs.1.1 h
    obtain ⟨hvalue, hrest⟩ := render_inj p.2 q.2 hps.1.2 hqs.1.2 (hend _) (hend _) hbehind
    rw [rows_inj ps qs hps.2 hqs.2 (List.cons.inj hrest).2, Prod.ext hkey hvalue]

theorem fullMembers_iff (members : List (CodeUnits × Canon)) :
    FullMembers members ↔ ∀ p ∈ members, Full p.2 := by
  induction members with
  | nil => exact ⟨fun _ => nofun, fun _ => trivial⟩
  | cons p members ih => rw [FullMembers, List.forall_mem_cons, ih]

/-- The preimages are equal exactly where the rows are, with arrays of one hole read as empty. -/
theorem preimage_eq_iff {rows rows' : List Row} {p p' : CodeUnits} (h : preimage rows = .ok p)
    (h' : preimage rows' = .ok p') :
    p = p' ↔ SameRows (rows.map Row.fill) (rows'.map Row.fill) := by
  obtain ⟨cs, haccepted, rfl⟩ := preimage_ok h
  obtain ⟨ds, haccepted', rfl⟩ := preimage_ok h'
  rw [sameRows_iff (collapse_accepted haccepted) (collapse_accepted haccepted'), List.append_cancel_left_eq]
  -- the text of the trees is that of the collapsed ones
  have htext (cs : List (CodeUnits × Canon)) :
      ((Utf16.sortNamed cs).flatMap fun c => rowText (c.1, render c.2)) =
        (Utf16.sortNamed (collapseMembers cs)).flatMap fun c => rowText (c.1, render c.2) := by
    rw [collapseMembers_eq_map, Utf16.sortNamed_map, List.flatMap_map]
    simp only [render_collapse]
  have hrows {rows : List Row} {cs : List (CodeUnits × Canon)} (hrows : Accepted rows cs) :
      ∀ p ∈ Utf16.sortNamed (collapseMembers cs), (0x3D : UInt16) ∉ p.1 ∧ Full p.2 := by
    intro p hp
    rw [(Utf16.sortNamed_perm _).mem_iff] at hp
    refine ⟨?_, (fullMembers_iff _).mp (fullMembers_collapse cs) p hp⟩
    have hname := (names_canonMembers (collapse_accepted hrows).canon_eq).subset (List.mem_map_of_mem hp)
    obtain ⟨m, hm, hkey⟩ := List.mem_map.mp hname
    obtain ⟨row, hrow, rfl⟩ := List.mem_map.mp hm
    rw [← hkey]
    exact no_equals_in_key ((collapse_accepted hrows).keys row hrow)
  rw [htext cs, htext ds]
  exact ⟨rows_inj _ _ (hrows haccepted) (hrows haccepted'), fun heq => by rw [heq]⟩

theorem sameRows_fill {rows rows' : List Row} {p p' : CodeUnits} (h : preimage rows = .ok p)
    (h' : preimage rows' = .ok p') (hsame : SameRows rows rows') :
    SameRows (rows.map Row.fill) (rows'.map Row.fill) := by
  obtain ⟨cs, haccepted, -⟩ := preimage_ok h
  obtain ⟨ds, haccepted', -⟩ := preimage_ok h'
  rw [sameRows_iff haccepted haccepted'] at hsame
  rw [sameRows_iff (collapse_accepted haccepted) (collapse_accepted haccepted'), collapseMembers_eq_map,
    collapseMembers_eq_map, Utf16.sortNamed_map, Utf16.sortNamed_map, hsame]

/-- Rows that differ, but only by arrays of one hole against empty ones. -/
def HoleApart (rows rows' : List Row) : Prop :=
  SameRows (rows.map Row.fill) (rows'.map Row.fill) ∧ ¬ SameRows rows rows'

/-- The preimages tell two lists of rows apart exactly unless only an array of one hole, written as
the empty array is, stands between them. -/
theorem preimages_tell_rows_apart_iff {rows rows' : List Row} {p p' : CodeUnits}
    (h : preimage rows = .ok p) (h' : preimage rows' = .ok p') :
    (p = p' ↔ SameRows rows rows') ↔ ¬ HoleApart rows rows' := by
  rw [preimage_eq_iff h h', HoleApart]
  have hfill := sameRows_fill h h'
  tauto

def rowOf (value : Value) (own : value.Own) : Row := ⟨ascii "stateHash.HEIGHTS", value, own⟩

def holed : Row := rowOf (.arr [none]) trivial

def emptied : Row := rowOf (.arr []) trivial

theorem preimage_of_one_hole :
    preimage [holed] = .ok (ascii "xchain-armed-map/v2\nstateHash.HEIGHTS=[]\n") ∧
      preimage [emptied] = .ok (ascii "xchain-armed-map/v2\nstateHash.HEIGHTS=[]\n") ∧
      ¬ SameRows [holed] [emptied] := by
  refine ⟨by rfl, by rfl, ?_⟩
  intro h
  have hkey : Option.Rel Same (some (.arr [none])) (some (.arr [])) := h (ascii "stateHash.HEIGHTS")
  cases hkey with
  | some hsame => exact hsame

theorem preimages_of_reordered_rows :
    (ascii "xchain-armed-map/v2\na.B=null\na.C=true\n" = ascii "xchain-armed-map/v2\na.B=null\na.C=true\n" ↔
      SameRows [⟨ascii "a.B", .null, trivial⟩, ⟨ascii "a.C", .bool true, trivial⟩]
        [⟨ascii "a.C", .bool true, trivial⟩, ⟨ascii "a.B", .null, trivial⟩]) ↔
    ¬ HoleApart [⟨ascii "a.B", .null, trivial⟩, ⟨ascii "a.C", .bool true, trivial⟩]
        [⟨ascii "a.C", .bool true, trivial⟩, ⟨ascii "a.B", .null, trivial⟩] :=
  preimages_tell_rows_apart_iff (by rfl) (by rfl)

end XChainSync.ArmedMap
