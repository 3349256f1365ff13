import Mathlib
import XChainSync.Library.JsonText

/-!
# Parts of a JSON text

A value that was read from a text is read from every longer text, unless it is a number that the text
ends in. So no proper part of the text of an object or of an array parses.
-/

namespace JsonText
set_option autoImplicit false

variable {cs rest more : CodeUnits}

theorem skip_append (h : skip cs ≠ []) : skip (cs ++ more) = skip cs ++ more := by
  unfold skip at h ⊢
  induction cs with
  | nil => exact absurd rfl h
  | cons c cs ih =>
    rw [List.cons_append, List.dropWhile_cons, List.dropWhile_cons]
    rw [List.dropWhile_cons] at h
    split
    · rename_i hc
      rw [if_pos hc] at h
      exact ih h
    · rfl

theorem skip_append_cons {c : UInt16} (h : skip cs = c :: rest) :
    skip (cs ++ more) = c :: (rest ++ more) := by
  rw [skip_append (by rw [h]; exact List.cons_ne_nil c rest), h, List.cons_append]

theorem goOn_eq_some {c : UInt16} {r : Option (CodeUnits × CodeUnits)} {s : CodeUnits}
    (h : goOn c r = some (s, rest)) : ∃ s', r = some (s', rest) ∧ s = c :: s' := by
  obtain ⟨p, hp, heq⟩ := Option.map_eq_some_iff.mp h
  obtain ⟨rfl, rfl⟩ := Prod.mk.inj heq
  exact ⟨p.1, hp, rfl⟩

theorem readUnits_hex (p q r s : UInt16) (cs : CodeUnits) :
    readUnits (0x5C :: 0x75 :: p :: q :: r :: s :: cs) =
      (unitOfHex p q r s).bind fun c => goOn c (readUnits cs) := by
  rw [readUnits]
  cases unitOfHex p q r s with
  | none => rfl
  | some c =>
    cases readUnits cs with
    | none => rfl
    | some p => rfl

theorem readUnits_append {s : CodeUnits} (h : readUnits cs = some (s, rest)) :
    readUnits (cs ++ more) = some (s, rest ++ more) := by
  fun_induction readUnits cs generalizing s with
  | case1 => cases h
  | case2 tail =>
    obtain ⟨rfl, rfl⟩ := Prod.mk.inj (Option.some.inj h)
    rfl
  | case3 p q r t tail ih =>
    have hread : readUnits (0x5C :: 0x75 :: p :: q :: r :: t :: tail) = some (s, rest) := by
      rw [readUnits]
      exact h
    rw [readUnits_hex] at hread
    obtain ⟨c, hc, hs⟩ := Option.bind_eq_some_iff.mp hread
    obtain ⟨s', hs', rfl⟩ := goOn_eq_some hs
    rw [List.cons_append, List.cons_append, List.cons_append, List.cons_append, List.cons_append,
      List.cons_append, readUnits_hex, hc, Option.bind_some, ih hs']
    rfl
  | case4 e tail hne ih =>
    obtain ⟨c, hc, hs⟩ := Option.bind_eq_some_iff.mp h
    obtain ⟨p, hp, heq⟩ := Option.bind_eq_some_iff.mp hs
    obtain ⟨rfl, rfl⟩ := Prod.mk.inj (Option.some.inj heq)
    rw [List.cons_append, List.cons_append, readUnits_escape hc, ih hp]
    rfl
  | case5 c tail hquote hhex hslash ih =>
    obtain ⟨u, hguard, hs⟩ := Option.bind_eq_some_iff.mp h
    obtain ⟨p, hp, heq⟩ := Option.bind_eq_some_iff.mp hs
    obtain ⟨rfl, rfl⟩ := Prod.mk.inj (Option.some.inj heq)
    obtain ⟨hc, hlow⟩ := (Option.guard_eq_some' u).mp hguard
    rw [List.cons_append, readUnits_raw hquote hc hlow, ih hp]
    rfl

theorem readName_append {name : CodeUnits} (h : readName cs = some (name, rest)) :
    readName (cs ++ more) = some (name, rest ++ more) := by
  unfold readName at h ⊢
  split at h
  · rename_i tail hquote
    obtain ⟨⟨name', tail'⟩, hp, h⟩ := Option.bind_eq_some_iff.mp h
    dsimp only at h
    split at h
    · rename_i after hcolon
      obtain ⟨rfl, rfl⟩ := Prod.mk.inj (Option.some.inj h)
      rw [skip_append_cons hquote]
      simp only [readUnits_append hp, Option.bind_eq_bind, Option.bind_some, skip_append_cons hcolon,
        Option.pure_def]
    · cases h
  · cases h

theorem readLiteral_append {text : String} {v w : Value} (h : readLiteral text v cs = some (w, rest)) :
    readLiteral text v (cs ++ more) = some (w, rest ++ more) := by
  unfold readLiteral at h ⊢
  split at h
  · rename_i hpre
    obtain ⟨rfl, rfl⟩ := Prod.mk.inj (Option.some.inj h)
    rw [List.isPrefixOf_iff_prefix] at hpre
    rw [if_pos (List.isPrefixOf_iff_prefix.mpr (hpre.trans (List.prefix_append cs more))),
      List.drop_append_of_le_length hpre.length_le]
  · cases h

/-! ### Numbers

The digits of a number end where another unit follows. -/

theorem takeWhile_append_of_ne_nil {p : UInt16 → Bool} (h : cs.dropWhile p ≠ []) :
    (cs ++ more).takeWhile p = cs.takeWhile p ∧
      (cs ++ more).dropWhile p = cs.dropWhile p ++ more := by
  induction cs with
  | nil => exact absurd rfl h
  | cons c cs ih =>
    rw [List.cons_append, List.takeWhile_cons, List.takeWhile_cons, List.dropWhile_cons,
      List.dropWhile_cons]
    rw [List.dropWhile_cons] at h
    split
    · rename_i hc
      rw [if_pos hc] at h
      obtain ⟨htake, hdrop⟩ := ih h
      rw [htake, hdrop]
      exact ⟨rfl, rfl⟩
    · exact ⟨rfl, rfl⟩

theorem readInt_append {ds : CodeUnits} (h : readInt cs = some (ds, rest)) (hrest : rest ≠ []) :
    readInt (cs ++ more) = some (ds, rest ++ more) := by
  cases cs with
  | nil => cases h
  | cons c cs =>
    rw [readInt] at h
    rw [List.cons_append, readInt]
    split_ifs at h ⊢
    · obtain ⟨rfl, rfl⟩ := Prod.mk.inj (Option.some.inj h)
      rfl
    · obtain ⟨rfl, rfl⟩ := Prod.mk.inj (Option.some.inj h)
      obtain ⟨htake, hdrop⟩ := @takeWhile_append_of_ne_nil _ more _ hrest
      rw [htake, hdrop]

theorem readDigits_append {ds : CodeUnits} (h : readDigits cs = some (ds, rest)) (hrest : rest ≠ []) :
    readDigits (cs ++ more) = some (ds, rest ++ more) := by
  unfold readDigits at h ⊢
  split_ifs at h with hempty
  obtain ⟨rfl, rfl⟩ := Prod.mk.inj (Option.some.inj h)
  obtain ⟨htake, hdrop⟩ := @takeWhile_append_of_ne_nil _ more _ hrest
  rw [htake, hdrop, if_neg hempty]

theorem readFraction_append {ds : CodeUnits} (h : readFraction cs = some (ds, rest))
    (hrest : rest ≠ []) : readFraction (cs ++ more) = some (ds, rest ++ more) := by
  unfold readFraction at h
  split at h
  · exact readDigits_append h hrest
  · rename_i hdot
    obtain ⟨rfl, rfl⟩ := Prod.mk.inj (Option.some.inj h)
    obtain ⟨c, cs, rfl⟩ := List.exists_cons_of_ne_nil hrest
    rw [List.cons_append, readFraction]
    intro tail htail
    exact hdot cs (by rw [(List.cons.inj htail).1])

theorem readExponent_append {e : Int} (h : readExponent cs = some (e, rest)) (hrest : rest ≠ []) :
    readExponent (cs ++ more) = some (e, rest ++ more) := by
  cases cs with
  | nil =>
    obtain ⟨rfl, rfl⟩ := Prod.mk.inj (Option.some.inj h)
    exact absurd rfl hrest
  | cons c cs =>
    rw [List.cons_append]
    unfold readExponent at h ⊢
    dsimp only at h ⊢
    split at h
    · rename_i hc
      rw [if_pos hc]
      split at h
      · obtain ⟨p, hp, heq⟩ := Option.map_eq_some_iff.mp h
        obtain ⟨rfl, rfl⟩ := Prod.mk.inj heq
        simp only [List.cons_append, readDigits_append hp hrest, Option.map_some]
      · obtain ⟨p, hp, heq⟩ := Option.map_eq_some_iff.mp h
        obtain ⟨rfl, rfl⟩ := Prod.mk.inj heq
        simp only [List.cons_append, readDigits_append hp hrest, Option.map_some]
      · rename_i hminus hplus
        obtain ⟨p, hp, heq⟩ := Option.map_eq_some_iff.mp h
        obtain ⟨rfl, rfl⟩ := Prod.mk.inj heq
        cases cs with
        | nil => cases hp
        | cons d ds =>
          split
          · rename_i tail heq
            exact (hminus ds (by rw [(List.cons.inj heq).1])).elim
          · rename_i tail heq
            exact (hplus ds (by rw [(List.cons.inj heq).1])).elim
          · rw [readDigits_append hp hrest, Option.map_some]
    · rename_i hc
      obtain ⟨rfl, rfl⟩ := Prod.mk.inj (Option.some.inj h)
      rw [if_neg hc, List.cons_append]

theorem readMagnitude_append {q : ℚ} (h : readMagnitude cs = some (q, rest)) (hrest : rest ≠ []) :
    readMagnitude (cs ++ more) = some (q, rest ++ more) := by
  unfold readMagnitude at h ⊢
  obtain ⟨⟨whole, fractionText⟩, hwhole, h⟩ := Option.bind_eq_some_iff.mp h
  obtain ⟨⟨fraction, exponentText⟩, hfraction, h⟩ := Option.bind_eq_some_iff.mp h
  obtain ⟨⟨power, tail⟩, hpower, h⟩ := Option.bind_eq_some_iff.mp h
  obtain ⟨rfl, rfl⟩ := Prod.mk.inj (Option.some.inj h)
  have hexponent : exponentText ≠ [] := by
    rintro rfl
    exact hrest (Prod.mk.inj (Option.some.inj hpower)).2.symm
  have hfractionText : fractionText ≠ [] := by
    rintro rfl
    exact hexponent (Prod.mk.inj (Option.some.inj hfraction)).2.symm
  simp only [readInt_append hwhole hfractionText, readFraction_append hfraction hexponent,
    readExponent_append hpower hrest, Option.bind_eq_bind, Option.bind_some, Option.pure_def]

theorem readNumber_append {q : Option ℚ} (h : readNumber cs = some (q, rest)) (hrest : rest ≠ []) :
    readNumber (cs ++ more) = some (q, rest ++ more) := by
  unfold readNumber at h
  split at h
  · obtain ⟨p, hp, heq⟩ := Option.map_eq_some_iff.mp h
    obtain ⟨rfl, rfl⟩ := Prod.mk.inj heq
    rw [List.cons_append, readNumber, readMagnitude_append hp hrest, Option.map_some]
  · rename_i hminus
    obtain ⟨p, hp, heq⟩ := Option.map_eq_some_iff.mp h
    obtain ⟨rfl, rfl⟩ := Prod.mk.inj heq
    cases cs with
    | nil => cases hp
    | cons c cs =>
      rw [readNumber]
      · rw [readMagnitude_append hp hrest, Option.map_some]
      · rintro tail htail
        exact hminus cs (by rw [(List.cons.inj htail).1])

/-! ### Values -/

def IsNumber : Value → Prop
  | .num _ => True
  | _ => False

theorem readElements_arr {fuel : Nat} {before : List Value} {v : Value}
    (h : readElements fuel before cs = some (v, rest)) : ¬ IsNumber v := by
  induction fuel generalizing before cs with
  | zero =>
    rw [readElements] at h
    cases h
  | succ fuel ih =>
    rw [readElements] at h
    split at h
    · obtain ⟨rfl, rfl⟩ := Prod.mk.inj (Option.some.inj h)
      exact id
    · obtain ⟨p, -, h⟩ := Option.bind_eq_some_iff.mp h
      exact ih h
    · cases h

theorem readMembers_obj {fuel : Nat} {before : List (CodeUnits × Value)} {v : Value}
    (h : readMembers fuel before cs = some (v, rest)) : ¬ IsNumber v := by
  induction fuel generalizing before cs with
  | zero =>
    rw [readMembers] at h
    cases h
  | succ fuel ih =>
    rw [readMembers] at h
    split at h
    · obtain ⟨rfl, rfl⟩ := Prod.mk.inj (Option.some.inj h)
      exact id
    · obtain ⟨p, -, h⟩ := Option.bind_eq_some_iff.mp h
      obtain ⟨q, -, h⟩ := Option.bind_eq_some_iff.mp h
      exact ih h
    · cases h

/-- What follows a value in a text, or is put after it there, does not make it another number. -/
def Settled (v : Value) (rest more : CodeUnits) : Prop := rest ≠ [] ∨ more = [] ∨ ¬ IsNumber v

theorem ne_nil_of_readElements {fuel : Nat} {before : List Value} {r : Value × CodeUnits}
    (h : readElements fuel before cs = some r) : cs ≠ [] := by
  rintro rfl
  cases fuel with
  | zero =>
    rw [readElements] at h
    cases h
  | succ fuel =>
    rw [readElements] at h
    cases h

theorem ne_nil_of_readMembers {fuel : Nat} {before : List (CodeUnits × Value)} {r : Value × CodeUnits}
    (h : readMembers fuel before cs = some r) : cs ≠ [] := by
  rintro rfl
  cases fuel with
  | zero =>
    rw [readMembers] at h
    cases h
  | succ fuel =>
    rw [readMembers] at h
    cases h

theorem skip_ne_nil_of_readValue {fuel : Nat} {r : Value × CodeUnits}
    (h : readValue fuel cs = some r) : skip cs ≠ [] := by
  intro hskip
  cases fuel with
  | zero =>
    rw [readValue] at h
    cases h
  | succ fuel =>
    rw [readValue, hskip] at h
    cases h

theorem skip_ne_nil_of_readName {r : CodeUnits × CodeUnits} (h : readName cs = some r) :
    skip cs ≠ [] := by
  intro hskip
  rw [readName, hskip] at h
  cases h

mutual

theorem readValue_append : ∀ {fuel fuel' : Nat} {cs rest : CodeUnits} {v : Value},
    readValue fuel cs = some (v, rest) → fuel ≤ fuel' → Settled v rest more →
    readValue fuel' (cs ++ more) = some (v, rest ++ more)
  | 0, _, _, _, _, h, _, _ => by
    rw [readValue] at h
    cases h
  | fuel+1, 0, _, _, _, _, hfuel, _ => by omega
  | fuel+1, fuel'+1, cs, rest, v, h, hfuel, hsettled => by
    rw [readValue] at h
    rw [readValue]
    split at h
    · cases h
    · rename_i c tail hskip
      rw [skip_append_cons hskip]
      dsimp only
      split_ifs at h ⊢
      · obtain ⟨p, hp, heq⟩ := Option.map_eq_some_iff.mp h
        obtain ⟨rfl, rfl⟩ := Prod.mk.inj heq
        rw [readUnits_append hp, Option.map_some]
      · split at h
        · rename_i after hclose
          obtain ⟨rfl, rfl⟩ := Prod.mk.inj (Option.some.inj h)
          rw [skip_append_cons hclose]
          rfl
        · rename_i hclose
          obtain ⟨⟨w, after⟩, hw, h⟩ := Option.bind_eq_some_iff.mp h
          have hvalue := readValue_append hw (show fuel ≤ fuel' by omega)
            (Or.inl (ne_nil_of_readElements h))
          have helements := readElements_append h (show fuel ≤ fuel' by omega)
          obtain ⟨d, ds, hd⟩ := List.exists_cons_of_ne_nil (skip_ne_nil_of_readValue hw)
          rw [skip_append_cons hd]
          split
          · rename_i after' heq
            exact (hclose ds (by rw [hd, (List.cons.inj heq).1])).elim
          · simp only [hvalue, helements, Option.bind_eq_bind, Option.bind_some]
      · split at h
        · rename_i after hclose
          obtain ⟨rfl, rfl⟩ := Prod.mk.inj (Option.some.inj h)
          rw [skip_append_cons hclose]
          rfl
        · rename_i hclose
          obtain ⟨⟨name, colon⟩, hname, h⟩ := Option.bind_eq_some_iff.mp h
          obtain ⟨⟨w, after⟩, hw, h⟩ := Option.bind_eq_some_iff.mp h
          have hvalue := readValue_append hw (show fuel ≤ fuel' by omega)
            (Or.inl (ne_nil_of_readMembers h))
          have hmembers := readMembers_append h (show fuel ≤ fuel' by omega)
          obtain ⟨d, ds, hd⟩ := List.exists_cons_of_ne_nil (skip_ne_nil_of_readName hname)
          rw [skip_append_cons hd]
          split
          · rename_i after' heq
            exact (hclose ds (by rw [hd, (List.cons.inj heq).1])).elim
          · simp only [readName_append hname, hvalue, hmembers, Option.bind_eq_bind,
              Option.bind_some]
      · exact @readLiteral_append (c :: tail) rest more _ _ _ h
      · exact @readLiteral_append (c :: tail) rest more _ _ _ h
      · exact @readLiteral_append (c :: tail) rest more _ _ _ h
      · obtain ⟨p, hp, heq⟩ := Option.map_eq_some_iff.mp h
        obtain ⟨rfl, rfl⟩ := Prod.mk.inj heq
        rcases hsettled with hrest | rfl | hnumber
        · have hread := @readNumber_append _ _ more _ hp hrest
          rw [List.cons_append] at hread
          rw [hread, Option.map_some]
        · rw [List.append_nil, List.append_nil, hp, Option.map_some]
        · exact (hnumber trivial).elim

theorem readElements_append : ∀ {fuel fuel' : Nat} {before : List Value} {cs rest : CodeUnits}
    {v : Value}, readElements fuel before cs = some (v, rest) → fuel ≤ fuel' →
    readElements fuel' before (cs ++ more) = some (v, rest ++ more)
  | 0, _, _, _, _, _, h, _ => by
    rw [readElements] at h
    cases h
  | fuel+1, 0, _, _, _, _, _, hfuel => by omega
  | fuel+1, fuel'+1, before, cs, rest, v, h, hfuel => by
    rw [readElements] at h
    rw [readElements]
    split at h
    · rename_i tail hclose
      obtain ⟨rfl, rfl⟩ := Prod.mk.inj (Option.some.inj h)
      rw [skip_append_cons hclose]
      rfl
    · rename_i tail hcomma
      obtain ⟨⟨w, after⟩, hw, h⟩ := Option.bind_eq_some_iff.mp h
      have hvalue := readValue_append hw (show fuel ≤ fuel' by omega)
        (Or.inl (ne_nil_of_readElements h))
      have helements := readElements_append h (show fuel ≤ fuel' by omega)
      rw [skip_append_cons hcomma]
      simp only [hvalue, helements, Option.bind_eq_bind, Option.bind_some]
    · cases h

theorem readMembers_append : ∀ {fuel fuel' : Nat} {before : List (CodeUnits × Value)}
    {cs rest : CodeUnits} {v : Value}, readMembers fuel before cs = some (v, rest) → fuel ≤ fuel' →
    readMembers fuel' before (cs ++ more) = some (v, rest ++ more)
  | 0, _, _, _, _, _, h, _ => by
    rw [readMembers] at h
    cases h
  | fuel+1, 0, _, _, _, _, _, hfuel => by omega
  | fuel+1, fuel'+1, before, cs, rest, v, h, hfuel => by
    rw [readMembers] at h
    rw [readMembers]
    split at h
    · rename_i tail hclose
      obtain ⟨rfl, rfl⟩ := Prod.mk.inj (Option.some.inj h)
      rw [skip_append_cons hclose]
      rfl
    · rename_i tail hcomma
      obtain ⟨⟨name, colon⟩, hname, h⟩ := Option.bind_eq_some_iff.mp h
      obtain ⟨⟨w, after⟩, hw, h⟩ := Option.bind_eq_some_iff.mp h
      have hvalue := readValue_append hw (show fuel ≤ fuel' by omega)
        (Or.inl (ne_nil_of_readMembers h))
      have hmembers := readMembers_append h (show fuel ≤ fuel' by omega)
      rw [skip_append_cons hcomma]
      simp only [readName_append hname, hvalue, hmembers, Option.bind_eq_bind, Option.bind_some]
    · cases h

end

/-! ### Proper parts of an object -/

section Parts
variable {shortest : ℚ → CodeUnits}

/-- Members after another one. -/
def memberTexts (shortest : ℚ → CodeUnits) (members : List (CodeUnits × Value)) : CodeUnits :=
  members.flatMap fun m => 0x2C :: (writeString m.1 ++ 0x3A :: write shortest m.2)

theorem writeMembers_eq (members : List (CodeUnits × Value)) :
    writeMembers shortest members = memberTexts shortest members ++ [0x7D] := by
  induction members with
  | nil =>
    rw [writeMembers]
    rfl
  | cons m members ih =>
    rw [writeMembers, ih, memberTexts, memberTexts, List.flatMap_cons, List.cons_append,
      List.cons_append, List.append_assoc, List.append_assoc, List.cons_append]

theorem write_obj_cons (name : CodeUnits) (v : Value) (members : List (CodeUnits × Value)) :
    write shortest (.obj ((name, v) :: members)) =
      0x7B :: (writeString name ++ 0x3A :: (write shortest v ++ memberTexts shortest members ++
        [0x7D])) := by
  rw [write, writeMembers_eq, List.append_assoc]

theorem not_isNumber_of_object {fuel : Nat} {v : Value}
    (h : readValue fuel (0x7B :: cs) = some (v, rest)) : ¬ IsNumber v := by
  cases fuel with
  | zero =>
    rw [readValue] at h
    cases h
  | succ fuel =>
    rw [readValue, skip_cons (by decide)] at h
    simp only [show ¬ (0x7B : UInt16) = 0x22 by decide, show ¬ (0x7B : UInt16) = 0x5B by decide,
      if_false, if_true] at h
    split at h
    · obtain ⟨rfl, rfl⟩ := Prod.mk.inj (Option.some.inj h)
      exact id
    · obtain ⟨p, -, h⟩ := Option.bind_eq_some_iff.mp h
      obtain ⟨q, -, h⟩ := Option.bind_eq_some_iff.mp h
      exact readMembers_obj h

theorem write_obj_head (members : List (CodeUnits × Value)) :
    ∃ cs, write shortest (.obj members) = 0x7B :: cs := by
  match members with
  | [] => exact ⟨_, by rw [write]; rfl⟩
  | (name, v) :: members => exact ⟨_, by rw [write]⟩

/-- A part of the text of an object that parses is all of it. -/
theorem eq_of_prefix_of_parse {members : List (CodeUnits × Value)} (hplain : Plain (.obj members))
    {part : CodeUnits} (hpart : part <+: write shortest (.obj members)) {w : Value}
    (hparse : parse part = some w) : part = write shortest (.obj members) := by
  obtain ⟨more, hmore⟩ := hpart
  obtain ⟨⟨v, rest⟩, hread, -⟩ := Option.bind_eq_some_iff.mp hparse
  have hobject : ¬ IsNumber v := by
    obtain ⟨text, htext⟩ := @write_obj_head shortest members
    cases part with
    | nil => cases hread
    | cons c part =>
      rw [htext, List.cons_append] at hmore
      rw [(List.cons.inj hmore).1] at hread
      exact not_isNumber_of_object hread
  have hends : Ends [] := fun c hc => by cases hc
  have hlong : readValue (max (part.length + 1) (write shortest (.obj members)).length)
      (part ++ more) = some (v, rest ++ more) :=
    readValue_append hread (le_max_left _ _) (Or.inr (Or.inr hobject))
  have hwhole := @readValue_write shortest (.obj members)
    (max (part.length + 1) (write shortest (.obj members)).length) [] hplain (le_max_right _ _) hends
  rw [hmore] at hlong
  rw [List.append_nil, hlong, Option.some_inj] at hwhole
  have hnil : more = [] := (List.append_eq_nil_iff.mp (Prod.mk.inj hwhole).2).2
  rw [← hmore, hnil, List.append_nil]

/-! ### Texts that no object starts with -/

/-- No value is read from the start of this text, whatever the nesting allowed. -/
def Dead (cs : CodeUnits) : Prop := ∀ fuel, readValue fuel cs = none

def DeadElements (cs : CodeUnits) : Prop := ∀ fuel before, readElements fuel before cs = none

def DeadMembers (cs : CodeUnits) : Prop := ∀ fuel before, readMembers fuel before cs = none

theorem parse_of_dead (h : Dead cs) : parse cs = none := by
  rw [parse, h]
  rfl

/-- A written value is read as itself or runs out of nesting. -/
theorem readValue_write_or {v : Value} (hplain : Plain v) (hv : Ends rest ∨ ¬ IsNumber v)
    (fuel : Nat) : readValue fuel (write shortest v ++ rest) = none ∨
      readValue fuel (write shortest v ++ rest) = some (v, rest) := by
  cases hread : readValue fuel (write shortest v ++ rest) with
  | none => exact Or.inl rfl
  | some r =>
    right
    have hlong : readValue (max fuel (write shortest v).length) (write shortest v ++ rest ++ []) =
        some (r.1, r.2 ++ []) :=
      readValue_append hread (le_max_left _ _) (Or.inr (Or.inl rfl))
    have hwhole : readValue (max fuel (write shortest v).length) (write shortest v ++ rest) =
        some (v, rest) := by
      rcases hv with hends | hnumber
      · exact readValue_write v _ rest hplain (le_max_right _ _) hends
      · have hends : Ends [] := fun c hc => by cases hc
        have halone := @readValue_write shortest v
          (max fuel (write shortest v).length) [] hplain (le_max_right _ _) hends
        rw [List.append_nil] at halone
        exact readValue_append halone le_rfl (Or.inr (Or.inr hnumber))
    rw [List.append_nil, List.append_nil, hwhole] at hlong
    exact hlong.symm

theorem DeadMembers.member {v : Value} (h : DeadMembers rest) (name : CodeUnits) (hplain : Plain v)
    (hv : Ends rest ∨ ¬ IsNumber v) :
    DeadMembers (0x2C :: (writeString name ++ 0x3A :: (write shortest v ++ rest))) := by
  intro fuel before
  cases fuel with
  | zero => rw [readMembers]
  | succ fuel =>
    rw [readMembers, skip_cons (by decide)]
    simp only [readName_write, Option.bind_eq_bind, Option.bind_some]
    rcases @readValue_write_or rest shortest v hplain hv fuel with hnone | hsome
    · rw [hnone, Option.bind_none]
    · rw [hsome, Option.bind_some]
      exact h fuel _

theorem ends_comma (cs : CodeUnits) : Ends (0x2C :: cs) :=
  fun _ hc => Or.inl (Option.some.inj hc).symm

theorem ends_memberTexts (members : List (CodeUnits × Value)) (hends : Ends rest) :
    Ends (memberTexts shortest members ++ rest) := by
  cases members with
  | nil => exact hends
  | cons m members =>
    intro c hc
    exact Or.inl (Option.some.inj hc).symm

theorem plainMembers_append (members more : List (CodeUnits × Value)) :
    PlainMembers (members ++ more) ↔ PlainMembers members ∧ PlainMembers more := by
  induction members with
  | nil => exact ⟨fun h => ⟨trivial, h⟩, And.right⟩
  | cons m members ih =>
    obtain ⟨name, v⟩ := m
    rw [List.cons_append, PlainMembers, PlainMembers, ih, and_assoc]

theorem DeadMembers.members {members : List (CodeUnits × Value)} (h : DeadMembers rest)
    (hplain : PlainMembers members) (hends : Ends rest) :
    DeadMembers (memberTexts shortest members ++ rest) := by
  induction members with
  | nil => exact h
  | cons m members ih =>
    obtain ⟨name, v⟩ := m
    rw [PlainMembers] at hplain
    rw [memberTexts, List.flatMap_cons, List.append_assoc, List.cons_append, List.append_assoc,
      List.cons_append]
    exact (ih hplain.2).member name hplain.1 (Or.inl (ends_memberTexts members hends))

theorem Dead.member (h : Dead cs) (name : CodeUnits) :
    DeadMembers (0x2C :: (writeString name ++ 0x3A :: cs)) := by
  intro fuel before
  cases fuel with
  | zero => rw [readMembers]
  | succ fuel =>
    rw [readMembers, skip_cons (by decide)]
    simp only [readName_write, Option.bind_eq_bind, Option.bind_some, h fuel, Option.bind_none]

/-- An object is read from its first member on. -/
theorem readValue_object (fuel : Nat) (name cs : CodeUnits) :
    readValue (fuel + 1) (0x7B :: (writeString name ++ 0x3A :: cs)) =
      (readValue fuel cs).bind fun p => readMembers fuel [(name, p.1)] p.2 := by
  rw [readValue, skip_cons (by decide)]
  simp only [show ¬ (0x7B : UInt16) = 0x22 by decide, show ¬ (0x7B : UInt16) = 0x5B by decide,
    if_false, if_true]
  split
  · rename_i heq
    rw [writeString, List.cons_append, skip_cons (by decide)] at heq
    exact absurd (List.cons.inj heq).1 (by decide)
  · rw [readName_write]
    rfl

theorem DeadMembers.object {v : Value} (h : DeadMembers rest) (name : CodeUnits) (hplain : Plain v)
    (hv : Ends rest ∨ ¬ IsNumber v) :
    Dead (0x7B :: (writeString name ++ 0x3A :: (write shortest v ++ rest))) := by
  intro fuel
  cases fuel with
  | zero => rw [readValue]
  | succ fuel =>
    rw [readValue_object]
    rcases @readValue_write_or rest shortest v hplain hv fuel with hnone | hsome
    · rw [hnone, Option.bind_none]
    · rw [hsome, Option.bind_some]
      exact h fuel _

theorem Dead.object (h : Dead cs) (name : CodeUnits) :
    Dead (0x7B :: (writeString name ++ 0x3A :: cs)) := by
  intro fuel
  cases fuel with
  | zero => rw [readValue]
  | succ fuel => rw [readValue_object, h fuel, Option.bind_none]

theorem DeadElements.element {v : Value} (h : DeadElements rest) (hplain : Plain v)
    (hv : Ends rest ∨ ¬ IsNumber v) : DeadElements (0x2C :: (write shortest v ++ rest)) := by
  intro fuel before
  cases fuel with
  | zero => rw [readElements]
  | succ fuel =>
    rw [readElements, skip_cons (by decide)]
    simp only [Option.bind_eq_bind]
    rcases @readValue_write_or rest shortest v hplain hv fuel with hnone | hsome
    · rw [hnone, Option.bind_none]
    · rw [hsome, Option.bind_some]
      exact h fuel _

theorem DeadElements.array {v : Value} (h : DeadElements rest) (hplain : Plain v)
    (hv : Ends rest ∨ ¬ IsNumber v) : Dead (0x5B :: (write shortest v ++ rest)) := by
  intro fuel
  cases fuel with
  | zero => rw [readValue]
  | succ fuel =>
    obtain ⟨c, cs, hcs, hblank, hclose⟩ := @head_write shortest _ hplain
    rw [readValue, skip_cons (by decide)]
    simp only [show ¬ (0x5B : UInt16) = 0x22 by decide, if_false, if_true]
    rw [skip_write hplain, hcs, List.cons_append]
    split
    · rename_i heq
      exact absurd (List.cons.inj heq).1 hclose
    · rw [← List.cons_append, ← hcs, Option.bind_eq_bind]
      rcases @readValue_write_or rest shortest v hplain hv fuel with hnone | hsome
      · rw [hnone, Option.bind_none]
      · rw [hsome, Option.bind_some]
        exact h fuel _

/-- After an element only a comma or the closing bracket may stand. -/
theorem deadElements_cons {c : UInt16} (hblank : isBlank c = false) (hcomma : c ≠ 0x2C)
    (hclose : c ≠ 0x5D) (cs : CodeUnits) : DeadElements (c :: cs) := by
  intro fuel before
  cases fuel with
  | zero => rw [readElements]
  | succ fuel =>
    rw [readElements, skip_cons hblank]
    split
    · rename_i heq
      exact absurd (List.cons.inj heq).1 hclose
    · rename_i heq
      exact absurd (List.cons.inj heq).1 hcomma
    · rfl

theorem deadElements_nil : DeadElements [] := by
  intro fuel before
  cases fuel with
  | zero => rw [readElements]
  | succ fuel =>
    rw [readElements]
    rfl

/-- A member stands in no array, nor does a part of one. -/
theorem deadElements_member {name part : CodeUnits}
    (hpart : part <+: writeString name ++ 0x3A :: cs) : DeadElements (0x2C :: part) := by
  have hafter : ∀ fuel v after, readValue fuel part = some (v, after) → after <+: 0x3A :: cs := by
    intro fuel v after hread
    obtain ⟨more, hmore⟩ := hpart
    cases part with
    | nil =>
      exact absurd rfl (skip_ne_nil_of_readValue hread)
    | cons c part =>
      rw [writeString, List.cons_append, List.cons_append, List.append_assoc,
        List.singleton_append] at hmore
      obtain ⟨rfl, htail⟩ := List.cons.inj hmore
      cases fuel with
      | zero =>
        rw [readValue] at hread
        cases hread
      | succ fuel =>
        rw [readValue, skip_cons (by decide)] at hread
        simp only [if_true] at hread
        obtain ⟨p, hp, heq⟩ := Option.map_eq_some_iff.mp hread
        have hwhole := @readUnits_append _ _ more _ hp
        rw [htail, readUnits_writeUnits, Option.some_inj] at hwhole
        rw [(Prod.mk.inj hwhole).2, ← (Prod.mk.inj heq).2]
        exact List.prefix_append _ _
  intro fuel before
  cases fuel with
  | zero => rw [readElements]
  | succ fuel =>
    rw [readElements, skip_cons (by decide)]
    cases hread : readValue fuel part with
    | none => simp only [hread, Option.bind_eq_bind, Option.bind_none]
    | some p =>
      simp only [hread, Option.bind_eq_bind, Option.bind_some]
      have hdead : DeadElements p.2 := by
        rcases List.prefix_cons_iff.mp (hafter fuel p.1 p.2 hread) with hnil | ⟨tail, htail, -⟩
        · rw [hnil]
          exact deadElements_nil
        · rw [htail]
          exact deadElements_cons (by decide) (by decide) (by decide) tail
      exact hdead fuel _

end Parts

end JsonText
