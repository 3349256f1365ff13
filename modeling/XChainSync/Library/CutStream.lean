import Mathlib

/-!
# Streams that a reader may leave

A writer puts out a text in chunks and stops where its reader goes away. `Emits` is what a
computation puts out, when it ends and when it stops, with a rule for each way to combine two.
-/

namespace CutStream
set_option autoImplicit false

variable {α ε β γ : Type}

/-- What the reader does at a chunk. -/
inductive Turn where
  | takes
  /-- It was gone before the chunk. -/
  | leaves
  /-- It goes while the writer waits for room after the chunk. -/
  | stalls
  deriving DecidableEq, Repr

inductive Stop (ε : Type) where
  | aborted
  | error (e : ε)
  deriving DecidableEq, Repr

structure Writer (α : Type) where
  text : List α
  aborted : Bool
  /-- The turns to come. After the last the reader stays. -/
  reader : List Turn

abbrev Stream (α ε β : Type) : Type := ExceptT (Stop ε) (StateM (Writer α)) β

def Writer.start (reader : List Turn) : Writer α := ⟨[], false, reader⟩

/-- The reader takes everything. -/
def Writer.Stays (w : Writer α) : Prop := w.aborted = false ∧ w.reader = []

def write (chunk : List α) : Stream α ε Unit := fun w =>
  if w.aborted then (.error .aborted, w)
  else
    match w.reader with
    | [] => (.ok (), { w with text := w.text ++ chunk })
    | .takes :: rest => (.ok (), { w with text := w.text ++ chunk, reader := rest })
    | .leaves :: rest => (.error .aborted, { w with aborted := true, reader := rest })
    | .stalls :: rest =>
      (.error .aborted, { text := w.text ++ chunk, aborted := true, reader := rest })

def fail (e : ε) : Stream α ε β := throw (.error e)

/-- A part of the work that writes nothing. -/
def await : Except ε β → Stream α ε β
  | .ok b => pure b
  | .error e => fail e

/-- `handle` goes on where `m` stops. -/
def attempt (m : Stream α ε β) (handle : Stop ε → Stream α ε β) : Stream α ε β := fun w =>
  match m w with
  | (.ok b, w') => (.ok b, w')
  | (.error e, w') => handle e w'

/-- What a computation puts out: with its value where it ends, with its reason where it stops. -/
def Emits (stays : Prop) (m : Stream α ε β) (ok : β → List α → Prop)
    (ko : Stop ε → List α → Prop) : Prop :=
  ∀ w : Writer α, (stays → w.Stays) → ∃ out, (m w).2.text = w.text ++ out ∧
    (stays → (m w).2.Stays) ∧
    match (m w).1 with
    | .ok b => ok b out
    | .error e => ko e out

namespace Emits
variable {stays : Prop} {m : Stream α ε β} {f : β → Stream α ε γ} {ok ok' : β → List α → Prop}
  {ok₂ : γ → List α → Prop} {ko ko' : Stop ε → List α → Prop}

theorem weaken (h : Emits stays m ok ko) (hok : ∀ b out, ok b out → ok' b out)
    (hko : ∀ e out, ko e out → ko' e out) : Emits stays m ok' ko' := by
  intro w hw
  obtain ⟨out, htext, hstays, hout⟩ := h w hw
  refine ⟨out, htext, hstays, ?_⟩
  cases hr : (m w).1 with
  | ok b =>
    rw [hr] at hout
    exact hok b out hout
  | error e =>
    rw [hr] at hout
    exact hko e out hout

theorem pure {b : β} (h : ok b []) : Emits stays (Pure.pure b : Stream α ε β) ok ko :=
  fun w hw => ⟨[], (List.append_nil w.text).symm, hw, h⟩

theorem stop {e : Stop ε} (h : ko e []) : Emits stays (throw e : Stream α ε β) ok ko :=
  fun w hw => ⟨[], (List.append_nil w.text).symm, hw, h⟩

theorem await {r : Except ε β} (hok : ∀ b, r = .ok b → ok b [])
    (hko : ∀ e, r = .error e → ko (.error e) []) : Emits stays (await r) ok ko := by
  cases r with
  | ok b => exact pure (hok b rfl)
  | error e => exact stop (hko e rfl)

theorem write {chunk : List α} {ok : Unit → List α → Prop} (hok : ok () chunk)
    (hko : ¬ stays → ∀ out, out <+: chunk → ko .aborted out) :
    Emits stays (write chunk : Stream α ε Unit) ok ko := by
  intro w hw
  unfold CutStream.write
  split
  · rename_i haborted
    have hleft : ¬ stays := fun h => by simp [(hw h).1] at haborted
    exact ⟨[], (List.append_nil w.text).symm, fun h => (hleft h).elim,
      hko hleft [] List.nil_prefix⟩
  · rename_i haborted
    split
    · exact ⟨chunk, rfl, hw, hok⟩
    · rename_i rest hreader
      refine ⟨chunk, rfl, fun h => ?_, hok⟩
      rw [(hw h).2] at hreader
      cases hreader
    · rename_i rest hreader
      have hleft : ¬ stays := fun h => by simp [(hw h).2] at hreader
      exact ⟨[], (List.append_nil w.text).symm, fun h => (hleft h).elim,
        hko hleft [] List.nil_prefix⟩
    · rename_i rest hreader
      have hleft : ¬ stays := fun h => by simp [(hw h).2] at hreader
      exact ⟨chunk, rfl, fun h => (hleft h).elim, hko hleft chunk (List.prefix_refl chunk)⟩

/-- One computation after another. -/
theorem bind (hm : Emits stays m ok ko)
    (hf : ∀ b out, ok b out → Emits stays (f b) (fun c more => ok₂ c (out ++ more))
      (fun e more => ko' e (out ++ more)))
    (hko : ∀ e out, ko e out → ko' e out) : Emits stays (m >>= f) ok₂ ko' := by
  intro w hw
  obtain ⟨out, htext, hstays, hout⟩ := hm w hw
  have hrun : (m >>= f) w = match m w with
      | (.ok b, w') => f b w'
      | (.error e, w') => (.error e, w') := by
    have hstep : (m >>= f) w =
        (ExceptT.bindCont f (m w).1 : StateM (Writer α) (Except (Stop ε) γ)) (m w).2 := rfl
    rw [hstep]
    rcases m w with ⟨b | e, w'⟩
    · rfl
    · rfl
  rw [hrun]
  cases hr : m w with
  | mk r w' =>
    rw [hr] at htext hstays hout
    cases r with
    | ok b =>
      obtain ⟨more, hmore, hstays', hout'⟩ := hf b out hout w' hstays
      refine ⟨out ++ more, ?_, hstays', hout'⟩
      rw [hmore, htext, List.append_assoc]
    | error e => exact ⟨out, htext, hstays, hko e out hout⟩

theorem attempt {handle : Stop ε → Stream α ε β} (hm : Emits stays m ok ko)
    (hhandle : ∀ e out, ko e out → Emits stays (handle e) (fun b more => ok b (out ++ more))
      (fun e more => ko' e (out ++ more))) : Emits stays (attempt m handle) ok ko' := by
  intro w hw
  obtain ⟨out, htext, hstays, hout⟩ := hm w hw
  unfold CutStream.attempt
  cases hr : m w with
  | mk r w' =>
    rw [hr] at htext hstays hout
    cases r with
    | ok b => exact ⟨out, htext, hstays, hout⟩
    | error e =>
      obtain ⟨more, hmore, hstays', hout'⟩ := hhandle e out hout w' hstays
      refine ⟨out ++ more, ?_, hstays', hout'⟩
      rw [hmore, htext, List.append_assoc]

end Emits

/-! ### One text -/

/-- Stopped by the reader, with a part of the text put out. -/
def Cut (stays : Prop) (whole : List α) (e : Stop ε) (out : List α) : Prop :=
  e = .aborted ∧ ¬ stays ∧ out <+: whole

/-- All of a text is put out, unless the reader leaves. -/
def Puts (stays : Prop) (m : Stream α ε Unit) (whole : List α) : Prop :=
  Emits stays m (fun _ out => out = whole) (Cut stays whole)

theorem Cut.append {stays : Prop} {a b out : List α} {e : Stop ε} (h : Cut stays b e out) :
    Cut stays (a ++ b) e (a ++ out) :=
  ⟨h.1, h.2.1, (List.prefix_append_right_inj a).mpr h.2.2⟩

namespace Puts
variable {stays : Prop} {m : Stream α ε Unit} {n : Unit → Stream α ε Unit} {whole more : List α}

theorem pure : Puts stays (Pure.pure () : Stream α ε Unit) ([] : List α) := Emits.pure rfl

theorem write (chunk : List α) : Puts stays (CutStream.write chunk : Stream α ε Unit) chunk :=
  Emits.write rfl fun hleft _ hout => ⟨rfl, hleft, hout⟩

theorem bind (hm : Puts stays m whole) (hn : Puts stays (n ()) more) :
    Puts stays (m >>= n) (whole ++ more) := by
  apply Emits.bind hm
  · rintro ⟨⟩ out rfl
    exact Emits.weaken hn (fun _ _ h => by rw [h]) fun _ _ h => h.append
  · intro e out h
    exact ⟨h.1, h.2.1, h.2.2.trans (List.prefix_append whole more)⟩

/-- Before a computation that is known otherwise. -/
theorem emits {f : Unit → Stream α ε γ} {ok : γ → List α → Prop} {ko : Stop ε → List α → Prop}
    (hm : Puts stays m whole)
    (hf : Emits stays (f ()) (fun c more => ok c (whole ++ more)) fun e more => ko e (whole ++ more))
    (hko : ∀ e out, Cut stays whole e out → ko e out) : Emits stays (m >>= f) ok ko := by
  apply Emits.bind hm
  · rintro ⟨⟩ out rfl
    exact hf
  · exact hko

end Puts

theorem await_ok_bind {b : β} {f : β → Stream α ε γ} : await (.ok b) >>= f = f b := rfl

end CutStream
