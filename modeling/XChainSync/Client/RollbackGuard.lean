import XChainSync.Client.Events
import Mathlib.Order.Lattice

/-!
# The cumulative rollback guard

`RollbackGuard` (src/client/rollback_guard.js). `peak` and `low` are set together and reset
together, so a guard is a streak or nothing.
-/

namespace XChainSync.Client
set_option autoImplicit false

structure Streak where
  peak : Int
  low : Int
  deriving DecidableEq, Repr

/-- What `loadRollbackGuardState` accepts of a saved row. -/
def Streak.Valid (s : Streak) : Prop := 0 ≤ s.peak ∧ 0 ≤ s.low ∧ s.low ≤ s.peak

instance (s : Streak) : Decidable s.Valid := inferInstanceAs (Decidable (_ ∧ _ ∧ _))

abbrev RollbackGuard := Option Streak

namespace RollbackGuard

/-- A streak ends at its peak, or a full limit above its lowest target. -/
def expire (maxDepth : Int) (g : RollbackGuard) (tip : Int) : RollbackGuard :=
  match g with
  | none => none
  | some s => if s.peak ≤ tip ∨ maxDepth ≤ tip - s.low then none else some s

/-- The guard `depthFor` leaves and the depth it returns. -/
def depthFor (maxDepth : Int) (g : RollbackGuard) (tip target : Int) :
    RollbackGuard × Int :=
  let g := g.expire maxDepth tip
  (g, (g.map Streak.peak).getD tip - target + 1)

def record (maxDepth : Int) (g : RollbackGuard) (tip target : Int) : RollbackGuard :=
  match g.expire maxDepth tip with
  | none => some ⟨tip, target⟩
  | some s => some ⟨s.peak, min s.low target⟩

/-- `high` is not above both the tip and the streak's peak. -/
def Covers (g : RollbackGuard) (tip high : Int) : Prop :=
  high ≤ tip ∨ ∃ s, g = some s ∧ high ≤ s.peak

/-- No target of the streak was deeper than the limit. -/
def Shallow (maxDepth : Int) (g : RollbackGuard) : Prop :=
  ∀ s, g = some s → s.peak - maxDepth + 1 ≤ s.low

variable {maxDepth tip target high : Int} {g : RollbackGuard}

theorem Shallow.expire (h : g.Shallow maxDepth) (tip : Int) :
    (g.expire maxDepth tip).Shallow maxDepth := by
  intro s hs
  obtain _ | s' := g
  · simp [RollbackGuard.expire] at hs
  · simp only [RollbackGuard.expire] at hs
    split at hs
    · simp at hs
    · exact h s hs

theorem expire_expire (maxDepth : Int) (g : RollbackGuard) (tip : Int) :
    (g.expire maxDepth tip).expire maxDepth tip = g.expire maxDepth tip := by
  obtain _ | s := g
  · rfl
  · by_cases h : s.peak ≤ tip ∨ maxDepth ≤ tip - s.low
    · simp [RollbackGuard.expire, h]
    · simp [RollbackGuard.expire, h]

theorem Covers.expire (h : g.Covers tip high) (hs : g.Shallow maxDepth) :
    (g.expire maxDepth tip).Covers tip high := by
  rcases h with h | ⟨s, rfl, h⟩
  · exact Or.inl h
  · simp only [RollbackGuard.expire]
    have hlow := hs s rfl
    split
    · exact Or.inl (by omega)
    · exact Or.inr ⟨s, rfl, h⟩

theorem Covers.mono_tip {tip' : Int} (h : g.Covers tip high) (hle : tip ≤ tip') :
    g.Covers tip' high := by
  rcases h with h | h
  · exact Or.inl (h.trans hle)
  · exact Or.inr h

/-- An accepted depth keeps the target within the limit of everything the guard covers. -/
theorem target_of_depthFor_le (hc : g.Covers tip high) (hs : g.Shallow maxDepth)
    (h : (g.depthFor maxDepth tip target).2 ≤ maxDepth) : high - maxDepth + 1 ≤ target := by
  have hc' := hc.expire hs
  simp only [depthFor] at h
  rcases hc' with hle | ⟨s, hs', hle⟩
  · cases he : g.expire maxDepth tip with
    | none =>
      rw [he] at h
      simp at h
      omega
    | some s =>
      rw [he] at h
      obtain _ | s' := g
      · simp [RollbackGuard.expire] at he
      · simp only [RollbackGuard.expire] at he
        split at he
        · simp at he
        · simp at h
          cases he
          omega
  · rw [hs'] at h
    simp at h
    omega

/-- Recording a target puts everything the guard covers at or below the new peak. -/
theorem record_covers (hc : g.Covers tip high) (hs : g.Shallow maxDepth) (target tip' : Int) :
    (g.record maxDepth tip target).Covers tip' high := by
  rcases hc.expire hs with hle | ⟨s, hs', hle⟩
  · cases he : g.expire maxDepth tip with
    | none => exact Or.inr ⟨⟨tip, target⟩, by simp [record, he], hle⟩
    | some s =>
      refine Or.inr ⟨⟨s.peak, min s.low target⟩, by simp [record, he], ?_⟩
      obtain _ | s' := g
      · simp [RollbackGuard.expire] at he
      · simp only [RollbackGuard.expire] at he
        split at he
        · simp at he
        · cases he
          simp only
          omega
  · exact Or.inr ⟨⟨s.peak, min s.low target⟩, by simp [record, hs'], hle⟩

theorem record_shallow (hs : g.Shallow maxDepth)
    (h : (g.depthFor maxDepth tip target).2 ≤ maxDepth) :
    (g.record maxDepth tip target).Shallow maxDepth := by
  have hs' := hs.expire tip
  simp only [depthFor] at h
  intro s hr
  simp only [record] at hr
  cases he : g.expire maxDepth tip with
  | none =>
    simp only [he, Option.some.injEq, Option.map_none, Option.getD_none] at hr h
    subst hr
    simp only
    omega
  | some s' =>
    have hlow := hs' s' he
    simp only [he, Option.some.injEq, Option.map_some, Option.getD_some] at hr h
    subst hr
    simp only
    omega

end RollbackGuard

end XChainSync.Client
