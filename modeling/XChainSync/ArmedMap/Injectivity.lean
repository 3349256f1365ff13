import Mathlib
import XChainSync.ArmedMap.Canonical

/-!
# What a serialisation tells

The canonical tree of a value: its fields in order and without the undefined ones, and one zero. The
text of a value is the text of its tree, and a tree is read back from its text in every place where
one may stand, but for an array of one hole.
-/

namespace XChainSync.ArmedMap
open JsonText NumberText
set_option autoImplicit false

inductive Canon where
  | null
  | bool (b : Bool)
  | num (q : ℚ) (double : Double.round q = some q)
  | str (s : CodeUnits)
  | regexp (source flags : CodeUnits)
  | arr (elements : List (Option Canon))
  | obj (members : List (CodeUnits × Canon))

theorem round_zero : Double.round 0 = some 0 := by
  exact_mod_cast @Double.round_intCast 0 (by decide)

def canonNumber : Number → Option Canon
  | .negZero => some (.num 0 round_zero)
  | .finite q double => some (.num q double)
  | _ => none

mutual

def canon : Value → Option Canon
  | .null => some .null
  | .bool b => some (.bool b)
  | .num x => canonNumber x
  | .str s => some (.str s)
  | .regexp source flags => some (.regexp source flags)
  | .arr elements => (canonElements elements).map .arr
  | .obj members => (canonMembers members).map fun members => .obj (Utf16.sortNamed members)
  | .undefined => none
  | .other _ => none

def canonElements : List (Option Value) → Option (List (Option Canon))
  | [] => some []
  | none :: rest => (canonElements rest).map (none :: ·)
  | some v :: rest => do
    let c ← canon v
    let cs ← canonElements rest
    return some c :: cs

def canonMembers : List (CodeUnits × Value) → Option (List (CodeUnits × Canon))
  | [] => some []
  | (name, v) :: rest =>
    if v.isUndefined then canonMembers rest
    else do
      let c ← canon v
      let cs ← canonMembers rest
      return (name, c) :: cs

end

mutual

def render : Canon → CodeUnits
  | .null => ascii "null"
  | .bool b => if b then ascii "true" else ascii "false"
  | .num q _ => numberText q
  | .str s => writeString s
  | .regexp source flags => ascii "re:" ++ writeString source ++ ascii ":" ++ writeString flags
  | .arr elements => ascii "[" ++ join (ascii ",") (renderElements elements) ++ ascii "]"
  | .obj members => ascii "\x7b" ++ join (ascii ",") (renderMembers members) ++ ascii "\x7d"

def renderElements : List (Option Canon) → List CodeUnits
  | [] => []
  | none :: rest => [] :: renderElements rest
  | some c :: rest => render c :: renderElements rest

def renderMembers : List (CodeUnits × Canon) → List CodeUnits
  | [] => []
  | (name, c) :: rest => memberText name (render c) :: renderMembers rest

end

/-! ### A text is that of the tree -/

theorem serialiseNumber_ok {x : Number} {place text : CodeUnits}
    (h : serialiseNumber x place = .ok text) : ∃ c, canonNumber x = some c ∧ render c = text := by
  cases x with
  | NaN => cases h
  | infinity negative => cases h
  | negZero =>
    refine ⟨_, rfl, ?_⟩
    rw [← Except.ok.inj h, render, numberText, if_pos rfl]
    rfl
  | finite q double =>
    refine ⟨_, rfl, ?_⟩
    rw [← Except.ok.inj h, render]

theorem bind_ok {α β : Type} {x : Except Message α} {f : α → Except Message β} {b : β}
    (h : (x >>= f) = .ok b) : ∃ a, x = .ok a ∧ f a = .ok b := by
  cases x with
  | error e => cases h
  | ok a => exact ⟨a, rfl, h⟩

theorem renderMembers_eq_map (members : List (CodeUnits × Canon)) :
    renderMembers members = members.map fun p => memberText p.1 (render p.2) := by
  induction members with
  | nil => rfl
  | cons p members ih => rw [renderMembers, ih, List.map_cons]

theorem mapM_ok_iff {α β : Type} {f : α → Except Message β} {xs : List α} {ys : List β} :
    xs.mapM f = .ok ys ↔ List.Forall₂ (fun x y => f x = .ok y) xs ys := by
  induction xs generalizing ys with
  | nil =>
    rw [List.mapM_nil]
    constructor
    · intro h
      rw [← Except.ok.inj h]
      exact .nil
    · intro h
      cases h
      rfl
  | cons x xs ih =>
    rw [List.mapM_cons]
    constructor
    · intro h
      obtain ⟨y, hy, h⟩ := bind_ok h
      obtain ⟨zs, hzs, h⟩ := bind_ok h
      rw [← Except.ok.inj h]
      exact .cons hy (ih.mp hzs)
    · intro h
      cases h with
      | cons hy hrest =>
        rw [hy, ih.mpr hrest]
        rfl

theorem mapM_ok_mem {α β : Type} {f : α → Except Message β} {xs : List α} {ys : List β}
    (h : xs.mapM f = .ok ys) : ∀ x ∈ xs, ∃ y, f x = .ok y := by
  rw [mapM_ok_iff] at h
  induction h with
  | nil => exact fun _ hx => by cases hx
  | cons hy _ ih => exact List.forall_mem_cons.mpr ⟨⟨_, hy⟩, ih⟩

/-- The parts of an object, all of them texts, in order. -/
theorem memberTexts_ok (members : List (CodeUnits × Canon)) :
    (Utf16.sortNamed (members.map fun p => (p.1, (.ok (render p.2) : Except Message CodeUnits)))).mapM
        (fun p => p.2.map fun text => memberText p.1 text) =
      .ok (renderMembers (Utf16.sortNamed members)) := by
  have hsort := Utf16.sortNamed_map (fun c => (.ok (render c) : Except Message CodeUnits)) members
  rw [hsort, mapM_ok_iff, renderMembers_eq_map, List.forall₂_map_left_iff, List.forall₂_map_right_iff,
    List.forall₂_same]
  exact fun _ _ => rfl

mutual

theorem serialise_ok : ∀ (v : Value) {place text : CodeUnits}, serialise v place = .ok text →
    ∃ c, canon v = some c ∧ render c = text
  | .null, _, _, h => ⟨.null, rfl, by rw [serialise] at h; rw [← Except.ok.inj h, render]⟩
  | .bool b, _, _, h => ⟨.bool b, rfl, by rw [serialise] at h; rw [← Except.ok.inj h, render]⟩
  | .num x, _, _, h => by
    rw [serialise] at h
    rw [canon]
    exact serialiseNumber_ok h
  | .str s, _, _, h => ⟨.str s, rfl, by rw [serialise] at h; rw [← Except.ok.inj h, render]⟩
  | .undefined, _, _, h => by
    rw [serialise] at h
    cases h
  | .other what, _, _, h => by
    rw [serialise] at h
    cases h
  | .regexp source flags, _, _, h =>
    ⟨.regexp source flags, rfl, by rw [serialise] at h; rw [← Except.ok.inj h, render]⟩
  | .arr elements, _, _, h => by
    rw [serialise] at h
    obtain ⟨texts, htexts, h⟩ := bind_ok h
    obtain ⟨cs, hcs, hrender⟩ := serialiseElements_ok elements htexts
    refine ⟨.arr cs, by rw [canon, hcs, Option.map_some], ?_⟩
    rw [render, hrender]
    exact Except.ok.inj h
  | .obj members, place, _, h => by
    rw [serialise] at h
    obtain ⟨texts, htexts, h⟩ := bind_ok h
    have hall : ∀ p ∈ serialiseMembers members place, ∃ text, p.2 = .ok text := by
      intro p hp
      obtain ⟨text, htext⟩ := mapM_ok_mem htexts p ((Utf16.sortNamed_perm _).mem_iff.mpr hp)
      cases hpart : p.2 with
      | error e =>
        rw [hpart] at htext
        cases htext
      | ok t => exact ⟨t, rfl⟩
    obtain ⟨cs, hcs, hparts⟩ := serialiseMembers_ok members hall
    refine ⟨.obj (Utf16.sortNamed cs), by rw [canon, hcs, Option.map_some], ?_⟩
    rw [hparts, memberTexts_ok] at htexts
    rw [render, Except.ok.inj htexts]
    exact Except.ok.inj h

theorem serialiseElements_ok : ∀ (elements : List (Option Value)) {place : CodeUnits} {i : Nat}
    {texts : List CodeUnits}, serialiseElements elements place i = .ok texts →
    ∃ cs, canonElements elements = some cs ∧ renderElements cs = texts
  | [], _, _, _, h => ⟨[], rfl, by rw [serialiseElements] at h; rw [← Except.ok.inj h, renderElements]⟩
  | none :: rest, _, _, _, h => by
    rw [serialiseElements] at h
    obtain ⟨texts, htexts, h⟩ := bind_ok h
    obtain ⟨cs, hcs, hrender⟩ := serialiseElements_ok rest htexts
    refine ⟨none :: cs, by rw [canonElements, hcs, Option.map_some], ?_⟩
    rw [renderElements, hrender]
    exact Except.ok.inj h
  | some v :: rest, _, _, _, h => by
    rw [serialiseElements] at h
    obtain ⟨text, htext, h⟩ := bind_ok h
    obtain ⟨texts, htexts, h⟩ := bind_ok h
    obtain ⟨c, hc, hrender⟩ := serialise_ok v htext
    obtain ⟨cs, hcs, hrenders⟩ := serialiseElements_ok rest htexts
    refine ⟨some c :: cs, by rw [canonElements, hc, hcs]; rfl, ?_⟩
    rw [renderElements, hrender, hrenders]
    exact Except.ok.inj h

theorem serialiseMembers_ok : ∀ (members : List (CodeUnits × Value)) {place : CodeUnits},
    (∀ p ∈ serialiseMembers members place, ∃ text, p.2 = .ok text) →
    ∃ cs, canonMembers members = some cs ∧
      serialiseMembers members place = cs.map fun p => (p.1, .ok (render p.2))
  | [], _, _ => ⟨[], rfl, by rw [serialiseMembers, List.map_nil]⟩
  | (name, v) :: rest, place, h => by
    rw [serialiseMembers, canonMembers]
    by_cases hv : v.isUndefined = true
    · rw [if_pos hv, if_pos hv]
      rw [serialiseMembers, if_pos hv] at h
      exact serialiseMembers_ok rest h
    · rw [if_neg hv, if_neg hv]
      rw [serialiseMembers, if_neg hv, List.forall_mem_cons] at h
      obtain ⟨⟨text, htext⟩, hrest⟩ := h
      obtain ⟨c, hc, hrender⟩ := serialise_ok v htext
      obtain ⟨cs, hcs, hparts⟩ := serialiseMembers_ok rest hrest
      refine ⟨(name, c) :: cs, by rw [hc, hcs]; rfl, ?_⟩
      rw [hparts, List.map_cons, hrender]
      exact congrArg (· :: _) (Prod.ext rfl htext)

end

/-! ### Reading a tree back -/

/-- What may follow a value: a comma, a bracket or brace that closes, or the end of the row. -/
def Delimited (rest : CodeUnits) : Prop :=
  ∀ c ∈ rest.head?, c = 0x2C ∨ c = 0x5D ∨ c = 0x7D ∨ c = 0x0A

theorem Delimited.endsNumber {rest : CodeUnits} (h : Delimited rest) : EndsNumber rest := by
  intro c hc
  rcases h c hc with rfl | rfl | rfl | rfl <;> decide

mutual

/-- No array is one hole. -/
def Full : Canon → Prop
  | .arr elements => elements ≠ [none] ∧ FullElements elements
  | .obj members => FullMembers members
  | _ => True

def FullElements : List (Option Canon) → Prop
  | [] => True
  | none :: rest => FullElements rest
  | some c :: rest => Full c ∧ FullElements rest

def FullMembers : List (CodeUnits × Canon) → Prop
  | [] => True
  | (_, c) :: rest => Full c ∧ FullMembers rest

end

/-- The kind of a tree, and the one that the first unit of a text tells. -/
def kind : Canon → Nat
  | .null => 0
  | .bool _ => 1
  | .num _ _ => 2
  | .str _ => 3
  | .regexp _ _ => 4
  | .arr _ => 5
  | .obj _ => 6

def kindOf (c : UInt16) : Nat :=
  if c = 0x6E then 0
  else if c = 0x74 ∨ c = 0x66 then 1
  else if c = 0x22 then 3
  else if c = 0x72 then 4
  else if c = 0x5B then 5
  else if c = 0x7B then 6
  else 2

theorem kindOf_digit {u : UInt16} (h : isDigit u = true) : kindOf u = 2 := by
  rw [isDigit, decide_eq_true_eq] at h
  have hne (v : UInt16) (hv : v < 0x30 ∨ 0x39 < v) : u ≠ v := by
    rintro rfl
    rcases hv with hv | hv
    · exact absurd h.1 (UInt16.not_le.mpr hv)
    · exact absurd h.2 (UInt16.not_le.mpr hv)
  rw [kindOf, if_neg (hne _ (by decide)), if_neg (not_or.mpr ⟨hne _ (by decide), hne _ (by decide)⟩),
    if_neg (hne _ (by decide)), if_neg (hne _ (by decide)), if_neg (hne _ (by decide)),
    if_neg (hne _ (by decide))]

/-- A text begins with a unit that tells the kind, and never as what follows a value does. -/
theorem head_render (c : Canon) :
    ∃ u us, render c = u :: us ∧ kindOf u = kind c ∧ ¬ Delimited (render c) := by
  have hhead {u : UInt16} {us : CodeUnits} (hu : render c = u :: us)
      (h : ¬ (u = 0x2C ∨ u = 0x5D ∨ u = 0x7D ∨ u = 0x0A)) : ¬ Delimited (render c) := by
    rw [hu]
    exact fun hdelim => h (hdelim u rfl)
  cases c with
  | null => exact ⟨_, _, rfl, rfl, hhead rfl (by decide)⟩
  | bool b => cases b <;> exact ⟨_, _, rfl, rfl, hhead rfl (by decide)⟩
  | num q double =>
    obtain ⟨u, us, hu, hnum⟩ := head_numberText double
    have hrender : render (.num q double) = u :: us := by rw [render, hu]
    refine ⟨u, us, hrender, ?_, hhead hrender ?_⟩
    · rcases hnum with rfl | hdigit
      · rfl
      · exact kindOf_digit hdigit
    · rcases hnum with rfl | hdigit
      · decide
      · rintro (rfl | rfl | rfl | rfl) <;> exact absurd hdigit (by decide)
  | str s => exact ⟨_, _, rfl, rfl, hhead rfl (by decide)⟩
  | regexp source flags => exact ⟨_, _, rfl, rfl, hhead rfl (by decide)⟩
  | arr elements => exact ⟨_, _, rfl, rfl, hhead rfl (by decide)⟩
  | obj members => exact ⟨_, _, rfl, rfl, hhead rfl (by decide)⟩

theorem kind_eq_of_append {c d : Canon} {rest rest' : CodeUnits}
    (h : render c ++ rest = render d ++ rest') : kind c = kind d := by
  obtain ⟨u, us, hu, hkind, -⟩ := head_render c
  obtain ⟨w, ws, hw, hkind', -⟩ := head_render d
  rw [hu, hw, List.cons_append, List.cons_append] at h
  rw [← hkind, ← hkind', (List.cons.inj h).1]

/-- A value does not begin where another has just ended. -/
theorem append_ne_delimited {c : Canon} {rest rest' : CodeUnits} (h : Delimited rest') :
    render c ++ rest ≠ rest' := by
  obtain ⟨u, us, hu, -, hdelim⟩ := head_render c
  rintro rfl
  rw [hu] at hdelim h
  exact hdelim h

/-! The elements behind the first. -/

def elementText (e : Option Canon) : CodeUnits := e.elim [] render

def tailText (texts : List CodeUnits) : CodeUnits := texts.flatMap fun text => 0x2C :: text

theorem join_cons (text : CodeUnits) (texts : List CodeUnits) :
    join (ascii ",") (text :: texts) = text ++ tailText texts := by
  induction texts generalizing text with
  | nil => simp [join, tailText]
  | cons t texts ih =>
    have hcons : join (ascii ",") (text :: t :: texts) = text ++ ascii "," ++ join (ascii ",") (t :: texts) := by
      simp [join, List.intercalate, List.intersperse]
    rw [hcons, ih, List.append_assoc]
    rfl

theorem tailText_cons (text : CodeUnits) (texts : List CodeUnits) :
    tailText (text :: texts) = 0x2C :: (text ++ tailText texts) := rfl

theorem delimited_tail (texts : List CodeUnits) {close : UInt16} (rest : CodeUnits)
    (hclose : close = 0x5D ∨ close = 0x7D) : Delimited (tailText texts ++ close :: rest) := by
  intro c hc
  cases texts with
  | nil =>
    obtain rfl := Option.some.inj hc
    exact hclose.elim (fun h => .inr (.inl h)) fun h => .inr (.inr (.inl h))
  | cons text texts =>
    obtain rfl := Option.some.inj hc
    exact .inl rfl

theorem renderElements_cons (e : Option Canon) (es : List (Option Canon)) :
    renderElements (e :: es) = elementText e :: renderElements es := by
  cases e <;> rw [renderElements] <;> rfl

theorem FullElements.cons {e : Option Canon} {es : List (Option Canon)} (h : FullElements (e :: es)) :
    (∀ c ∈ e, Full c) ∧ FullElements es := by
  cases e with
  | none => exact ⟨nofun, h⟩
  | some c => exact ⟨fun _ hc => Option.some.inj hc ▸ h.1, h.2⟩

/-- A text with its opening and closing units, put before another. -/
theorem wrap_append (opening closing : UInt16) (text rest : CodeUnits) :
    [opening] ++ text ++ [closing] ++ rest = opening :: (text ++ closing :: rest) := by
  simp

/-- Elements write something, but for one hole. -/
theorem elements_ne_close {e : Option Canon} {es : List (Option Canon)} (hlone : e :: es ≠ [none])
    {rest rest' : CodeUnits} :
    elementText e ++ (tailText (renderElements es) ++ 0x5D :: rest) ≠ 0x5D :: rest' := by
  cases e with
  | some c =>
    refine @append_ne_delimited c _ _ ?_
    intro u hu
    obtain rfl := Option.some.inj hu
    exact .inr (.inl rfl)
  | none =>
    cases es with
    | nil => exact absurd rfl hlone
    | cons f fs =>
      intro h
      rw [renderElements_cons] at h
      exact absurd (List.cons.inj h).1 (by decide)

mutual

/-- A tree without arrays of one hole is read back from its text. -/
theorem render_inj : ∀ (c d : Canon) {rest rest' : CodeUnits}, Full c → Full d → Delimited rest →
    Delimited rest' → render c ++ rest = render d ++ rest' → c = d ∧ rest = rest'
  | .null, d, _, _, _, _, _, _, h => by
    have hkind := kind_eq_of_append h
    cases d with
    | null => exact ⟨rfl, List.append_cancel_left h⟩
    | _ => cases hkind
  | .bool b, d, _, _, _, _, _, _, h => by
    have hkind := kind_eq_of_append h
    cases d with
    | bool b' =>
      rw [render, render] at h
      cases b <;> cases b'
      · exact ⟨rfl, List.append_cancel_left h⟩
      · exact absurd (List.cons.inj h).1 (by decide)
      · exact absurd (List.cons.inj h).1 (by decide)
      · exact ⟨rfl, List.append_cancel_left h⟩
    | _ => cases hkind
  | .num q double, d, _, _, _, _, hrest, hrest', h => by
    have hkind := kind_eq_of_append h
    cases d with
    | num q' double' =>
      rw [render, render] at h
      obtain ⟨rfl, heq⟩ := numberText_append_inj double double' hrest.endsNumber hrest'.endsNumber h
      exact ⟨rfl, heq⟩
    | _ => cases hkind
  | .str s, d, _, _, _, _, _, _, h => by
    have hkind := kind_eq_of_append h
    cases d with
    | str s' =>
      rw [render, render] at h
      obtain ⟨rfl, heq⟩ := writeString_append_inj h
      exact ⟨rfl, heq⟩
    | _ => cases hkind
  | .regexp source flags, d, _, _, _, _, _, _, h => by
    have hkind := kind_eq_of_append h
    cases d with
    | regexp source' flags' =>
      rw [render, render] at h
      simp only [List.append_assoc] at h
      obtain ⟨hsource, hbehind⟩ := writeString_append_inj (List.append_cancel_left h)
      obtain ⟨hflags, heq⟩ := writeString_append_inj (List.append_cancel_left hbehind)
      rw [hsource, hflags]
      exact ⟨rfl, heq⟩
    | _ => cases hkind
  | .arr elements, d, _, _, hfull, hfull', _, _, h => by
    have hkind := kind_eq_of_append h
    cases d with
    | arr elements' =>
      rw [render, render] at h
      obtain ⟨rfl, heq⟩ := elements_inj elements elements' hfull.1 hfull'.1 hfull.2 hfull'.2
        (List.cons.inj ((wrap_append _ _ _ _).symm.trans (h.trans (wrap_append _ _ _ _)))).2
      exact ⟨rfl, heq⟩
    | _ => cases hkind
  | .obj members, d, _, _, hfull, hfull', _, _, h => by
    have hkind := kind_eq_of_append h
    cases d with
    | obj members' =>
      rw [render, render] at h
      obtain ⟨rfl, heq⟩ := members_inj members members' hfull hfull'
        (List.cons.inj ((wrap_append _ _ _ _).symm.trans (h.trans (wrap_append _ _ _ _)))).2
      exact ⟨rfl, heq⟩
    | _ => cases hkind

theorem element_inj : ∀ (e e' : Option Canon) {rest rest' : CodeUnits}, (∀ c ∈ e, Full c) →
    (∀ c ∈ e', Full c) → Delimited rest → Delimited rest' →
    elementText e ++ rest = elementText e' ++ rest' → e = e' ∧ rest = rest'
  | none, none, _, _, _, _, _, _, h => ⟨rfl, h⟩
  | none, some d, _, _, _, _, hrest, _, h => (append_ne_delimited hrest h.symm).elim
  | some c, none, _, _, _, _, _, hrest', h => (append_ne_delimited hrest' h).elim
  | some c, some d, _, _, hfull, hfull', hrest, hrest', h => by
    obtain ⟨rfl, heq⟩ := render_inj c d (hfull c rfl) (hfull' d rfl) hrest hrest' h
    exact ⟨rfl, heq⟩

theorem elements_inj : ∀ (es fs : List (Option Canon)) {rest rest' : CodeUnits}, es ≠ [none] →
    fs ≠ [none] → FullElements es → FullElements fs →
    join (ascii ",") (renderElements es) ++ 0x5D :: rest =
      join (ascii ",") (renderElements fs) ++ 0x5D :: rest' → es = fs ∧ rest = rest'
  | [], [], _, _, _, _, _, _, h => ⟨rfl, (List.cons.inj h).2⟩
  | [], f :: fs, _, _, _, hlone, _, _, h => by
    rw [renderElements_cons, join_cons, List.append_assoc] at h
    exact (elements_ne_close hlone h.symm).elim
  | e :: es, [], _, _, hlone, _, _, _, h => by
    rw [renderElements_cons, join_cons, List.append_assoc] at h
    exact (elements_ne_close hlone h).elim
  | e :: es, f :: fs, _, _, _, _, hfull, hfull', h => by
    rw [renderElements_cons, renderElements_cons, join_cons, join_cons, List.append_assoc,
      List.append_assoc] at h
    obtain ⟨rfl, hbehind⟩ := element_inj e f hfull.cons.1 hfull'.cons.1
      (delimited_tail _ _ (.inl rfl)) (delimited_tail _ _ (.inl rfl)) h
    obtain ⟨rfl, heq⟩ := elementsTail_inj es fs hfull.cons.2 hfull'.cons.2 hbehind
    exact ⟨rfl, heq⟩

theorem elementsTail_inj : ∀ (es fs : List (Option Canon)) {rest rest' : CodeUnits}, FullElements es →
    FullElements fs →
    tailText (renderElements es) ++ 0x5D :: rest = tailText (renderElements fs) ++ 0x5D :: rest' →
    es = fs ∧ rest = rest'
  | [], [], _, _, _, _, h => ⟨rfl, (List.cons.inj h).2⟩
  | [], f :: fs, _, _, _, _, h => by
    rw [renderElements_cons] at h
    exact absurd (List.cons.inj h).1 (by decide)
  | e :: es, [], _, _, _, _, h => by
    rw [renderElements_cons] at h
    exact absurd (List.cons.inj h).1 (by decide)
  | e :: es, f :: fs, _, _, hfull, hfull', h => by
    rw [renderElements_cons, renderElements_cons, tailText_cons, tailText_cons, List.cons_append,
      List.cons_append, List.append_assoc, List.append_assoc] at h
    obtain ⟨rfl, hbehind⟩ := element_inj e f hfull.cons.1 hfull'.cons.1
      (delimited_tail _ _ (.inl rfl)) (delimited_tail _ _ (.inl rfl)) (List.cons.inj h).2
    obtain ⟨rfl, heq⟩ := elementsTail_inj es fs hfull.cons.2 hfull'.cons.2 hbehind
    exact ⟨rfl, heq⟩

theorem member_inj : ∀ (p q : CodeUnits × Canon) {rest rest' : CodeUnits}, Full p.2 → Full q.2 →
    Delimited rest → Delimited rest' →
    memberText p.1 (render p.2) ++ rest = memberText q.1 (render q.2) ++ rest' → p = q ∧ rest = rest'
  | (name, c), (name', d), _, _, hfull, hfull', hrest, hrest', h => by
    rw [memberText, memberText, List.append_assoc, List.append_assoc] at h
    obtain ⟨hname, h⟩ := writeString_append_inj h
    obtain ⟨hvalue, heq⟩ := render_inj c d hfull hfull' hrest hrest' (List.cons.inj h).2
    exact ⟨Prod.ext hname hvalue, heq⟩

theorem members_inj : ∀ (ps qs : List (CodeUnits × Canon)) {rest rest' : CodeUnits}, FullMembers ps →
    FullMembers qs →
    join (ascii ",") (renderMembers ps) ++ 0x7D :: rest =
      join (ascii ",") (renderMembers qs) ++ 0x7D :: rest' → ps = qs ∧ rest = rest'
  | [], [], _, _, _, _, h => ⟨rfl, (List.cons.inj h).2⟩
  | [], q :: qs, _, _, _, _, h => by
    rw [renderMembers, renderMembers, join_cons] at h
    exact absurd (List.cons.inj h).1 (by decide)
  | p :: ps, [], _, _, _, _, h => by
    rw [renderMembers, renderMembers, join_cons] at h
    exact absurd (List.cons.inj h).1 (by decide)
  | p :: ps, q :: qs, _, _, hfull, hfull', h => by
    rw [renderMembers, renderMembers, join_cons, join_cons, List.append_assoc, List.append_assoc] at h
    obtain ⟨rfl, hbehind⟩ := member_inj p q hfull.1 hfull'.1
      (delimited_tail _ _ (.inr rfl)) (delimited_tail _ _ (.inr rfl)) h
    obtain ⟨rfl, heq⟩ := membersTail_inj ps qs hfull.2 hfull'.2 hbehind
    exact ⟨rfl, heq⟩

theorem membersTail_inj : ∀ (ps qs : List (CodeUnits × Canon)) {rest rest' : CodeUnits},
    FullMembers ps → FullMembers qs →
    tailText (renderMembers ps) ++ 0x7D :: rest = tailText (renderMembers qs) ++ 0x7D :: rest' →
    ps = qs ∧ rest = rest'
  | [], [], _, _, _, _, h => ⟨rfl, (List.cons.inj h).2⟩
  | [], q :: qs, _, _, _, _, h => by
    rw [renderMembers, renderMembers] at h
    exact absurd (List.cons.inj h).1 (by decide)
  | p :: ps, [], _, _, _, _, h => by
    rw [renderMembers, renderMembers] at h
    exact absurd (List.cons.inj h).1 (by decide)
  | p :: ps, q :: qs, _, _, hfull, hfull', h => by
    rw [renderMembers, renderMembers, tailText_cons, tailText_cons, List.cons_append,
      List.cons_append, List.append_assoc, List.append_assoc] at h
    obtain ⟨rfl, hbehind⟩ := member_inj p q hfull.1 hfull'.1
      (delimited_tail _ _ (.inr rfl)) (delimited_tail _ _ (.inr rfl)) (List.cons.inj h).2
    obtain ⟨rfl, heq⟩ := membersTail_inj ps qs hfull.2 hfull'.2 hbehind
    exact ⟨rfl, heq⟩

end

end XChainSync.ArmedMap
