import Mathlib.Logic.Basic

/-!
# Runs of a transition system under a condition on its steps

`Run step ok s t` is a finite run from `s` to `t` whose every step is one of `step` and meets `ok`
in the state it is taken from. With `ok` true everywhere it is plain reachability.
-/

namespace Runs
set_option autoImplicit false

universe u v
variable {σ : Type u} {ε : Type v}

inductive Run (step : σ → ε → σ → Prop) (ok : σ → ε → Prop) (s : σ) : σ → Prop where
  | refl : Run step ok s s
  | tail {t u : σ} {e : ε} : Run step ok s t → ok t e → step t e u → Run step ok s u

/-- No condition. -/
def Any (_ : σ) (_ : ε) : Prop := True

namespace Run
variable {step : σ → ε → σ → Prop} {ok ok' : σ → ε → Prop} {s t u : σ}

theorem mono (hle : ∀ t e, ok t e → ok' t e) (h : Run step ok s t) : Run step ok' s t := by
  induction h with
  | refl => exact .refl
  | tail _ hok hstep ih => exact .tail ih (hle _ _ hok) hstep

theorem step_mono {step' : σ → ε → σ → Prop} (hle : ∀ s e t, step s e t → step' s e t)
    (h : Run step ok s t) : Run step' ok s t := by
  induction h with
  | refl => exact .refl
  | tail _ hok hstep ih => exact .tail ih hok (hle _ _ _ hstep)

theorem trans (h : Run step ok s t) (h' : Run step ok t u) : Run step ok s u := by
  induction h' with
  | refl => exact h
  | tail _ hok hstep ih => exact .tail ih hok hstep

/-- What holds initially and is kept by every step that meets the condition holds along every
run. -/
theorem invariant {I : σ → Prop} (h0 : I s) (hstep : ∀ t e u, I t → ok t e → step t e u → I u)
    (h : Run step ok s t) : I t := by
  induction h with
  | refl => exact h0
  | tail _ hok hs ih => exact hstep _ _ _ ih hok hs

end Run

/-- The run of a list of events under a step function. -/
def runAll (next : σ → ε → σ) (s : σ) (es : List ε) : σ := es.foldl next s

/-- Executing a list of events that meet the condition one after another is a run. -/
theorem run_runAll {next : σ → ε → σ} {ok : σ → ε → Prop} (es : List ε) (s : σ)
    (h : ∀ pre e post, es = pre ++ e :: post → ok (runAll next s pre) e) :
    Run (fun s e t => t = next s e) ok s (runAll next s es) := by
  induction es generalizing s with
  | nil => exact .refl
  | cons e es ih =>
    have hfirst : Run (fun s e t => t = next s e) ok s (next s e) :=
      .tail .refl (h [] e es rfl) rfl
    refine hfirst.trans (ih (next s e) ?_)
    rintro pre e' post rfl
    exact h (e :: pre) e' post rfl

/-- Executing a list of events under a partial step function whose every state and event meet a
decidable condition. -/
def execAll (next : σ → ε → Option σ) (ok : σ → ε → Prop) [∀ s e, Decidable (ok s e)] (s : σ) :
    List ε → Option σ
  | [] => some s
  | e :: es => if ok s e then (next s e).bind fun t => execAll next ok t es else none

theorem run_execAll {next : σ → ε → Option σ} {ok : σ → ε → Prop} [∀ s e, Decidable (ok s e)]
    {s t : σ} {es : List ε} (h : execAll next ok s es = some t) :
    Run (fun s e t => next s e = some t) ok s t := by
  induction es generalizing s with
  | nil =>
    obtain rfl := Option.some.inj h
    exact .refl
  | cons e es ih =>
    rw [execAll] at h
    split at h
    · rename_i hok
      obtain ⟨u, hu, ht⟩ := Option.bind_eq_some_iff.mp h
      have hfirst : Run (fun s e t => next s e = some t) ok s u := .tail .refl hok hu
      exact hfirst.trans (ih ht)
    · simp at h

/-- What every successful step keeps is kept by a list of them. -/
theorem foldlM_invariant {next : σ → ε → Option σ} {I : σ → Prop}
    (hstep : ∀ s e t, I s → next s e = some t → I t) {es : List ε} {s t : σ} (h0 : I s)
    (h : es.foldlM next s = some t) : I t := by
  induction es generalizing s with
  | nil =>
    obtain rfl := Option.some.inj h
    exact h0
  | cons e es ih =>
    simp only [List.foldlM_cons, Option.bind_eq_bind, Option.bind_eq_some_iff] at h
    obtain ⟨u, hu, ht⟩ := h
    exact ih (hstep s e u h0 hu) ht

/-- Every event of the list meets a decidable condition where a total step function takes it. -/
def okAll (next : σ → ε → σ) (ok : σ → ε → Prop) [∀ s e, Decidable (ok s e)] (s : σ) :
    List ε → Bool
  | [] => true
  | e :: es => decide (ok s e) && okAll next ok (next s e) es

theorem run_okAll {next : σ → ε → σ} {ok : σ → ε → Prop} [∀ s e, Decidable (ok s e)] {s : σ}
    {es : List ε} (h : okAll next ok s es) :
    Run (fun s e t => t = next s e) ok s (runAll next s es) := by
  induction es generalizing s with
  | nil => exact .refl
  | cons e es ih =>
    simp only [okAll, Bool.and_eq_true, decide_eq_true_eq] at h
    have hfirst : Run (fun s e t => t = next s e) ok s (next s e) := .tail .refl h.1 rfl
    exact hfirst.trans (ih h.2)

instance (s : σ) (e : ε) : Decidable (Any s e) := inferInstanceAs (Decidable True)

end Runs
