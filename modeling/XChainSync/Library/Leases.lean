import Mathlib.Logic.Function.Basic
import Mathlib.Order.Basic

/-!
# Leases

Things are taken from a pool one after another and numbered in that order. A holder owes each thing
it has taken until it gives it back, and nobody else owes it. So each is given back at most once,
and all have been when nobody owes anything.
-/

namespace Leases
set_option autoImplicit false

universe u
variable {H : Type u}

structure Account (owes : H → Nat → Prop) (taken : Nat) (returned : Nat → Nat) : Prop where
  owed : ∀ h c, owes h c → c < taken ∧ returned c = 0
  alone : ∀ h h' c, owes h c → owes h' c → h = h'
  settled : ∀ c, c < taken → (∀ h, ¬ owes h c) → returned c = 1
  untaken : ∀ c, taken ≤ c → returned c = 0

namespace Account
variable {owes owes' : H → Nat → Prop} {taken : Nat} {returned : Nat → Nat}

theorem initial : Account (fun (_ : H) _ => False) 0 (fun _ => 0) :=
  ⟨nofun, nofun, nofun, fun _ _ => rfl⟩

theorem congr (h : Account owes taken returned) (hsame : ∀ x c, owes' x c ↔ owes x c) :
    Account owes' taken returned := by
  have heq : owes' = owes := by
    funext x c
    exact propext (hsame x c)
  rwa [heq]

/-- The next thing is taken by a holder. -/
theorem take (h : Account owes taken returned) (holder : H)
    (howes : ∀ x c, owes' x c ↔ owes x c ∨ x = holder ∧ c = taken) :
    Account owes' (taken + 1) returned where
  owed := by
    intro x c hx
    rcases (howes x c).mp hx with hx | ⟨-, rfl⟩
    · exact ⟨Nat.lt_succ_of_lt (h.owed x c hx).1, (h.owed x c hx).2⟩
    · exact ⟨Nat.lt_succ_self _, h.untaken _ (Nat.le_refl _)⟩
  alone := by
    intro x y c hx hy
    rcases (howes x c).mp hx with hx | ⟨rfl, rfl⟩
    · rcases (howes y c).mp hy with hy | ⟨-, rfl⟩
      · exact h.alone x y c hx hy
      · exact absurd (h.owed x _ hx).1 (Nat.lt_irrefl _)
    · rcases (howes y _).mp hy with hy | ⟨rfl, -⟩
      · exact absurd (h.owed y _ hy).1 (Nat.lt_irrefl _)
      · rfl
  settled := by
    intro c hc hfree
    have hne : c ≠ taken := by
      rintro rfl
      exact hfree holder ((howes holder _).mpr (.inr ⟨rfl, rfl⟩))
    exact h.settled c (Nat.lt_of_le_of_ne (Nat.le_of_lt_succ hc) hne)
      fun x hx => hfree x ((howes x c).mpr (.inl hx))
  untaken := fun c hc => h.untaken c (Nat.le_of_succ_le hc)

/-- A holder gives back what it owes. -/
theorem giveBack (h : Account owes taken returned) {holder : H} {thing : Nat} (hthing : owes holder thing)
    (howes : ∀ x c, owes' x c ↔ owes x c ∧ c ≠ thing) :
    Account owes' taken (Function.update returned thing (returned thing + 1)) where
  owed := by
    intro x c hx
    obtain ⟨hx, hne⟩ := (howes x c).mp hx
    rw [Function.update_of_ne hne]
    exact h.owed x c hx
  alone := fun x y c hx hy => h.alone x y c ((howes x c).mp hx).1 ((howes y c).mp hy).1
  settled := by
    intro c hc hfree
    by_cases heq : c = thing
    · subst heq
      rw [Function.update_self, (h.owed holder c hthing).2]
    · rw [Function.update_of_ne heq]
      exact h.settled c hc fun x hx => hfree x ((howes x c).mpr ⟨hx, heq⟩)
  untaken := by
    intro c hc
    have hne : c ≠ thing := by
      rintro rfl
      exact absurd (h.owed holder c hthing).1 (Nat.not_lt.mpr hc)
    rw [Function.update_of_ne hne]
    exact h.untaken c hc

theorem returned_le_one (h : Account owes taken returned) (c : Nat) : returned c ≤ 1 := by
  by_cases hc : c < taken
  · by_cases howed : ∃ x, owes x c
    · obtain ⟨x, hx⟩ := howed
      rw [(h.owed x c hx).2]
      exact Nat.zero_le 1
    · exact Nat.le_of_eq (h.settled c hc fun x hx => howed ⟨x, hx⟩)
  · rw [h.untaken c (Nat.not_lt.mp hc)]
    exact Nat.zero_le 1

end Account

end Leases
