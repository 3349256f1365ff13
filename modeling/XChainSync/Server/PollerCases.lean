import XChainSync.Server.Poller

/-! What one await of the poll can do: the inversion of `System.await` that the invariants of the
poller are read off. A poll that moves on leaves everything but the event cursor alone. -/

namespace XChainSync.Server
open Client (DbType)
set_option autoImplicit false

variable {β : Type}

/-- Neither a pinned view nor a pending read of the cursor's hash hangs on this await. -/
def Pc.calm : Pc β → Prop
  | .initHash _ => False
  | .cursorHash => False
  | .snapshot _ => False
  | .stream _ _ _ => False
  | _ => True

/-- What the poll knows of the cursor's row when it goes on to its snapshot: there is no hash to
compare, or the source has just answered it, or has just shown no row. -/
def GuardPassed (cfg : PollerConfig) (s : System β) (answer : Answer) : Prop :=
  s.poller.lastPolledBlockHash = none ∨
    ∃ current, s.pc = .guard current ∧
      (s.readHash cfg (s.poller.lastPolledBlock.getD 0) answer = none ∨
        s.readHash cfg (s.poller.lastPolledBlock.getD 0) answer = s.poller.lastPolledBlockHash)

/-- The poller with another event cursor. -/
def Poller.atEvent (p : Poller β) (e : Option Int) : Poller β := { p with lastEventId := e }

inductive Awaited (cfg : PollerConfig) (s : System β) (answer : Answer) : System β → Prop where
  | moves (e : Option Int) {pc : Pc β} (hpc : pc.calm) :
      Awaited cfg s answer (s.goto (s.poller.atEvent e) pc)
  | inits (current : Int) (hcursor : s.poller.lastPolledBlock = none) :
      Awaited cfg s answer
        (s.goto { s.poller with lastPolledBlock := some current } (.initHash current))
  | reads (hash : Option String)
      (hpc : (∃ current, s.pc = .initHash current) ∨ s.pc = .cursorHash) :
      Awaited cfg s answer (s.goto (s.poller.setHash hash) .idle)
  | goes (e : Option Int) {current cursor : Int} (hcursor : cursor < current)
      (hlast : cursor = s.poller.lastPolledBlock.getD 0) (hguard : GuardPassed cfg s answer) :
      Awaited cfg s answer (s.goto (s.poller.atEvent e) (.snapshot current))
  | forward {fork : Int} (hpc : s.pc = .forwardPrune fork) :
      Awaited cfg s answer (s.goto (s.poller.rewindForward fork) .idle)
  | rewinds (e : Option Int) {fork : Int} {retroactive : Option Retroactive}
      (hpc : s.pc = .dropPrune fork retroactive ∨
        retroactive = none ∧ ∃ newest, s.pc = .markerPrune fork newest) :
      Awaited cfg s answer (s.afterRewind ((s.poller.rewind fork retroactive).atEvent e))
  | pins {current streamTo : Int} (hpc : s.pc = .snapshot current)
      (hto : streamTo = s.source.getLastBlock.getD current)
      (hgoes : s.poller.lastPolledBlock.getD 0 < streamTo) :
      Awaited cfg s answer (s.goto s.poller (.stream s.source streamTo 0))
  | streams {view : Source β} {streamTo : Int} {blocksProcessed : Nat} {pc : Pc β}
      (hpc : s.pc = .stream view streamTo blocksProcessed)
      (hnext : pc = .idle ∨ pc = .stream view streamTo (blocksProcessed + 1) ∧
        s.poller.lastPolledBlock.getD 0 + 1 < streamTo) :
      Awaited cfg s answer
        (s.goto (System.streamBlock cfg s.poller view (s.poller.lastPolledBlock.getD 0 + 1)) pc)

namespace System
variable {cfg : PollerConfig} {s : System β} {answer : Answer}

theorem atEvent_self (p : Poller β) : p.atEvent p.lastEventId = p := rfl

theorem stays {pc : Pc β} (hpc : pc.calm) : Awaited cfg s answer (s.goto s.poller pc) :=
  .moves s.poller.lastEventId hpc

theorem afterGuard_cases (e : Option Int) {current cursor : Int}
    (hlast : cursor = s.poller.lastPolledBlock.getD 0) (hguard : GuardPassed cfg s answer) :
    Awaited cfg s answer (s.afterGuard (s.poller.atEvent e) cursor current) := by
  unfold afterGuard
  split
  · exact .moves e trivial
  · split
    · rename_i hlt
      exact .goes e hlt hlast hguard
    · exact .moves e trivial

theorem afterMarkers_cases (e : Option Int) {current cursor : Int}
    (hlast : cursor = s.poller.lastPolledBlock.getD 0) :
    Awaited cfg s answer (s.afterMarkers (s.poller.atEvent e) cursor current) := by
  unfold afterMarkers
  split
  · exact .moves e trivial
  · rename_i hnone
    exact afterGuard_cases e hlast (.inl (by simpa [Poller.atEvent] using hnone))

theorem await_markers {current : Int} (ha : answer ≠ .throws) (hpc : s.pc = .markers current) :
    Awaited cfg s answer (s.await cfg answer) := by
  simp only [await, ha, hpc, if_false]
  split
  · exact stays trivial
  · split
    · exact afterMarkers_cases none rfl
    · split
      · exact stays trivial
      · split
        · exact afterMarkers_cases s.poller.lastEventId rfl
        · split
          · exact stays trivial
          · exact stays trivial

theorem await_markerRows {current newest : Int} (ha : answer ≠ .throws)
    (hpc : s.pc = .markerRows current newest) : Awaited cfg s answer (s.await cfg answer) := by
  simp only [await, ha, hpc, if_false]
  split
  · exact stays trivial
  · split
    · exact stays trivial
    · exact afterMarkers_cases (some newest) rfl
    · split
      · exact afterMarkers_cases (some newest) rfl
      · exact stays trivial

theorem await_idle (ha : answer ≠ .throws) (hpc : s.pc = .idle) :
    Awaited cfg s answer (s.await cfg answer) := by
  have hself : Awaited cfg s answer s := by
    have h : s = s.goto s.poller .idle := by rw [← hpc]; rfl
    rw [h]
    exact stays trivial
  simp only [await, ha, hpc, if_false]
  split
  · exact hself
  · split
    · exact hself
    · rename_i current _ hcursor
      exact .inits current hcursor
    · rename_i current cursor _ hcursor
      split
      · exact afterMarkers_cases s.poller.lastEventId (by simp [hcursor])
      · exact stays trivial

theorem await_guard {current : Int} (ha : answer ≠ .throws) (hpc : s.pc = .guard current) :
    Awaited cfg s answer (s.await cfg answer) := by
  simp only [await, ha, hpc, if_false]
  split
  · rename_i hpass
    refine afterGuard_cases s.poller.lastEventId rfl (.inr ⟨current, hpc, ?_⟩)
    simpa using hpass
  · exact stays trivial

theorem await_snapshot {current : Int} (ha : answer ≠ .throws) (hpc : s.pc = .snapshot current) :
    Awaited cfg s answer (s.await cfg answer) := by
  simp only [await, ha, hpc, if_false]
  split
  · exact stays trivial
  · split
    · rename_i hgoes
      refine .pins hpc rfl ?_
      simp only [batchGoes, Bool.and_eq_true, decide_eq_true_eq] at hgoes
      exact hgoes.1
    · exact stays trivial

theorem await_stream {view : Source β} {streamTo : Int} {blocksProcessed : Nat}
    (ha : answer ≠ .throws) (hpc : s.pc = .stream view streamTo blocksProcessed) :
    Awaited cfg s answer (s.await cfg answer) := by
  simp only [await, ha, hpc, if_false]
  split
  · exact stays trivial
  · split
    · rename_i hgoes
      refine .streams hpc (.inr ⟨rfl, ?_⟩)
      simp only [batchGoes, Bool.and_eq_true, decide_eq_true_eq] at hgoes
      exact hgoes.1
    · exact .streams hpc (.inl rfl)

theorem await_cases (cfg : PollerConfig) (s : System β) (answer : Answer) :
    Awaited cfg s answer (s.await cfg answer) := by
  by_cases ha : answer = .throws
  · simp only [await, ha, if_true]
    exact stays trivial
  cases hpc : s.pc with
  | idle => exact await_idle ha hpc
  | initHash current =>
    simp only [await, ha, hpc, if_false]
    exact .reads _ (.inl ⟨current, hpc⟩)
  | markers current => exact await_markers ha hpc
  | markerRows current newest => exact await_markerRows ha hpc
  | markerPrune fork newest =>
    simp only [await, ha, hpc, if_false]
    exact .rewinds (some newest) (.inr ⟨rfl, newest, hpc⟩)
  | cursorHash =>
    simp only [await, ha, hpc, if_false]
    exact .reads _ (.inr hpc)
  | guard current => exact await_guard ha hpc
  | forwardWalk fork =>
    simp only [await, ha, hpc, if_false]
    split
    · exact stays trivial
    · split <;> exact stays trivial
  | forwardPrune fork =>
    simp only [await, ha, hpc, if_false]
    exact .forward hpc
  | dropWalk fork =>
    simp only [await, ha, hpc, if_false]
    split
    · exact stays trivial
    · split <;> exact stays trivial
  | dropMarker fork =>
    simp only [await, ha, hpc, if_false]
    split
    · exact stays trivial
    · split <;> exact stays trivial
  | dropPrune fork retroactive =>
    simp only [await, ha, hpc, if_false]
    exact .rewinds s.poller.lastEventId (.inl hpc)
  | snapshot current => exact await_snapshot ha hpc
  | stream view streamTo blocksProcessed => exact await_stream ha hpc

end System

end XChainSync.Server
