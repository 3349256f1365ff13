import XChainSync.Library.Json

/-!
# Paths into nested objects and merging by path

`merge depth` folds an object into another one, level by level: below `depth` levels the members of
the first replace those of the second. Names that are not allowed are passed over.
-/

namespace Json
set_option autoImplicit false

namespace Value

/-- What stands at a path of member names. -/
def at? : List String → Value → Option Value
  | [], v => some v
  | name :: path, v => (v.member name).bind (at? path)

/-- No object of the first `depth` levels has two members of one name. -/
def Keyed : Nat → Value → Prop
  | depth + 1, obj members =>
    (members.map Prod.fst).Nodup ∧ ∀ m ∈ members, Keyed depth m.2
  | _, _ => True

end Value

/-- `members[name] = v`. -/
def setMember (name : String) (v : Value) : List (String × Value) → List (String × Value)
  | [] => [(name, v)]
  | m :: members => if m.1 = name then (name, v) :: members else m :: setMember name v members

/-- The members of an object whose names are allowed; none for any other value. -/
def ownMembers (allowed : String → Bool) : Value → List (String × Value)
  | .obj members => members.filter (allowed ·.1)
  | _ => []

/-- The members of the object at `name`, none where there is no object. -/
def branch (members : List (String × Value)) (name : String) : List (String × Value) :=
  match members.lookup name with
  | some (.obj own) => own
  | _ => []

def merge (allowed : String → Bool) : Nat → List (String × Value) → Value →
    List (String × Value)
  | 0, base, delta => (ownMembers allowed delta).foldl (fun b m => setMember m.1 m.2 b) base
  | depth + 1, base, delta => (ownMembers allowed delta).foldl
      (fun b m => setMember m.1 (.obj (merge allowed depth (branch b m.1) m.2)) b) base

variable {allowed : String → Bool} {members base : List (String × Value)} {name k : String}
  {v delta : Value} {path : List String}

theorem lookup_cons_member {m : String × Value} :
    (m :: members).lookup k = if k = m.1 then some m.2 else members.lookup k := by
  rw [List.lookup_cons]
  by_cases h : k = m.1
  · simp [h]
  · have hne : (k == m.1) = false := by simpa using h
    rw [hne, if_neg h]

theorem lookup_setMember : (setMember name v members).lookup k =
    if k = name then some v else members.lookup k := by
  induction members with
  | nil => rw [setMember, lookup_cons_member]
  | cons m members ih =>
    unfold setMember
    split
    · rename_i hname
      rw [lookup_cons_member, lookup_cons_member, hname]
      split <;> rfl
    · rename_i hname
      rw [lookup_cons_member, lookup_cons_member, ih]
      by_cases h : k = m.1
      · rw [if_pos h, if_pos h, if_neg (h ▸ hname)]
      · rw [if_neg h, if_neg h]

/-- Setting the members of an object one after another, each by what stands at its name before. -/
theorem lookup_foldl_setMember (g : Option Value → Value → Value)
    {entries : List (String × Value)} (hnodup : (entries.map Prod.fst).Nodup) :
    (entries.foldl (fun b m => setMember m.1 (g (b.lookup m.1) m.2) b) base).lookup k =
      match entries.lookup k with
      | some d => some (g (base.lookup k) d)
      | none => base.lookup k := by
  induction entries generalizing base with
  | nil => rfl
  | cons m entries ih =>
    rw [List.map_cons, List.nodup_cons] at hnodup
    rw [List.foldl_cons, ih hnodup.2, lookup_setMember, lookup_cons_member]
    by_cases h : k = m.1
    · have hnone : entries.lookup k = none := by
        rw [List.lookup_eq_none_iff]
        intro e he
        simp only [bne_iff_ne, ne_eq, h]
        intro heq
        exact hnodup.1 (heq ▸ List.mem_map_of_mem he)
      rw [if_pos h, hnone, if_pos h, h]
    · rw [if_neg h, if_neg h]

theorem lookup_ownMembers (hallowed : allowed k = true) :
    (ownMembers allowed delta).lookup k = delta.member k := by
  cases delta with
  | obj members =>
    simp only [ownMembers, Value.member]
    induction members with
    | nil => rfl
    | cons m members ih =>
      rw [List.filter_cons, lookup_cons_member]
      by_cases h : k = m.1
      · rw [← h, if_pos hallowed, lookup_cons_member, if_pos h, if_pos rfl]
      · rw [if_neg h, ← ih]
        split
        · rw [lookup_cons_member, if_neg h]
        · rfl
  | _ => rfl

theorem nodup_ownMembers {depth : Nat} (h : delta.Keyed (depth + 1)) :
    ((ownMembers allowed delta).map Prod.fst).Nodup := by
  cases delta with
  | obj members => exact h.1.sublist (List.filter_sublist.map Prod.fst)
  | _ => exact List.nodup_nil

theorem keyed_member {depth : Nat} (h : delta.Keyed (depth + 1)) (hmember : delta.member k = some v) :
    v.Keyed depth := by
  cases delta with
  | obj members =>
    obtain ⟨before, after, heq, -⟩ := List.lookup_eq_some_iff.mp hmember
    exact h.2 (k, v) (by simp [heq])
  | _ => simp [Value.member] at hmember

theorem at?_cons : v.at? (k :: path) = (v.member k).bind (Value.at? path) := rfl

theorem at?_obj_cons :
    (Value.obj members).at? (k :: path) = (members.lookup k).bind (Value.at? path) := rfl

theorem at?_branch (hpath : path ≠ []) :
    (Value.obj (branch base k)).at? path = (base.lookup k).bind (Value.at? path) := by
  obtain ⟨name, rest, rfl⟩ := List.exists_cons_of_ne_nil hpath
  unfold branch
  cases hk : base.lookup k with
  | none => rfl
  | some v => cases v <;> rfl

/-- At a path of allowed names that goes all the levels down, a merge has what the first object has
there, or else what the second has. -/
theorem at?_merge {depth : Nat} (hdelta : delta.Keyed (depth + 1)) (hlength : path.length = depth + 1)
    (hallowed : ∀ name ∈ path, allowed name = true) :
    (Value.obj (merge allowed depth base delta)).at? path =
      (delta.at? path).or ((Value.obj base).at? path) := by
  induction depth generalizing base delta path with
  | zero =>
    obtain ⟨k, rfl⟩ := List.length_eq_one_iff.mp hlength
    have hnodup : ((ownMembers allowed delta).map Prod.fst).Nodup := nodup_ownMembers hdelta
    have hlookup := @lookup_foldl_setMember base k (fun _ d => d) (ownMembers allowed delta) hnodup
    rw [lookup_ownMembers (hallowed k (by simp))] at hlookup
    rw [at?_obj_cons, at?_obj_cons, at?_cons, merge, hlookup]
    cases delta.member k with
    | none => rfl
    | some d => rfl
  | succ depth ih =>
    obtain ⟨k, rest, rfl⟩ := List.exists_cons_of_ne_nil (l := path) (by
      rintro rfl
      simp at hlength)
    have hrest : rest.length = depth + 1 := by simpa using hlength
    have hne : rest ≠ [] := by
      rintro rfl
      simp at hrest
    have hnodup : ((ownMembers allowed delta).map Prod.fst).Nodup := nodup_ownMembers hdelta
    have hlookup := @lookup_foldl_setMember base k
      (fun old d => .obj (merge allowed depth
        (match old with
          | some (.obj own) => own
          | _ => []) d)) (ownMembers allowed delta) hnodup
    rw [lookup_ownMembers (hallowed k (by simp))] at hlookup
    have hmerge : (merge allowed (depth + 1) base delta).lookup k = match delta.member k with
        | some d => some (.obj (merge allowed depth (branch base k) d))
        | none => base.lookup k := hlookup
    rw [at?_obj_cons, at?_obj_cons, at?_cons, hmerge]
    cases hd : delta.member k with
    | none => rfl
    | some d =>
      rw [Option.bind_some, Option.bind_some, ih (keyed_member hdelta hd) hrest fun name hname => hallowed name (by simp [hname]),
        at?_branch hne]

end Json
