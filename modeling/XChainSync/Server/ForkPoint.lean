import Mathlib.Logic.Function.Iterate
import XChainSync.Server.StreamContinuity

/-!
# Where a reorg broadcast forks

The two detectors of `poll` over a source that stands still. `resolveForkPoint` walks the recorded
identities down from a candidate height; a replay marker of the source replaces its answer on the
height-drop path.
-/

namespace XChainSync.Server
open Client (DbType)
set_option autoImplicit false

variable {β : Type}

namespace Poller

def resolveForkPoint (p : Poller β) (sourceHash : Int → Option String) (forkBlock : Int) : Int :=
  if p.walks forkBlock && p.changedBelow forkBlock (sourceHash (forkBlock - 1)) then
    p.resolveForkPoint sourceHash (forkBlock - 1)
  else forkBlock
termination_by forkBlock.toNat
decreasing_by simp_all [walks]; omega

/-- Returns the poller after the broadcast, or none where the source's row at the cursor is missing
or unchanged. -/
def handleNetForwardReorg (cfg : PollerConfig) (p : Poller β) (src : Source β) :
    Option (Poller β) :=
  let cursor := p.lastPolledBlock.getD 0
  let srcHash := src.sourceBlockHash cfg.dbType cursor
  if srcHash.isNone || srcHash = p.lastPolledBlockHash then none
  else some (p.rewindForward (p.resolveForkPoint (src.sourceBlockHash cfg.dbType) cursor))

/-- The recorded hash of the new cursor, or the live one where the window has none. -/
def rewound (cfg : PollerConfig) (p : Poller β) (src : Source β) : Poller β :=
  p.setHash <| p.recordedHash?.getD (src.sourceBlockHash cfg.dbType (p.lastPolledBlock.getD 0))

/-- Fails when the replay marker is malformed. -/
def handleHeightDropReorg (cfg : PollerConfig) (p : Poller β) (src : Source β)
    (currentBlock : Int) : Except String (Poller β) := do
  let walkBackForkBlock :=
    p.resolveForkPoint (src.sourceBlockHash cfg.dbType) (currentBlock + 1)
  let marker ← src.getSourceReplayMarker
  let retroactive := retroactiveFromRules (rulesFromMarker marker)
  let forkBlock := retroactiveForkPoint retroactive walkBackForkBlock
  return (p.rewind forkBlock retroactive).rewound cfg src

end Poller

/-! ### The awaits of the loop compute the two handlers -/

namespace System

/-- The loop alone, the source standing still, for a number of awaits. -/
def awaits (cfg : PollerConfig) (s : System β) (n : Nat) : System β :=
  (fun s => s.await cfg .value)^[n] s

variable {cfg : PollerConfig} {s : System β}

theorem awaits_succ (n : Nat) : s.awaits cfg (n + 1) = (s.await cfg .value).awaits cfg n := rfl

theorem resolveForkPoint_step {p : Poller β} {hash : Int → Option String} {fork : Int}
    (hw : p.walks fork) (hc : p.changedBelow fork (hash (fork - 1))) :
    p.resolveForkPoint hash fork = p.resolveForkPoint hash (fork - 1) := by
  rw [Poller.resolveForkPoint]
  simp [hw, hc]

theorem resolveForkPoint_stop {p : Poller β} {hash : Int → Option String} {fork : Int}
    (h : ¬ (p.walks fork ∧ p.changedBelow fork (hash (fork - 1)))) :
    p.resolveForkPoint hash fork = fork := by
  rw [Poller.resolveForkPoint, if_neg (by simpa using h)]

/-- A walk of the loop ends at the fork point the function gives, whichever handler it is of. -/
theorem awaits_walk {p : Poller β} {src : Source β} (walk done : Int → Pc β)
    (hstep : ∀ fork, (⟨src, p, walk fork⟩ : System β).await cfg .value =
      if p.walks fork && p.changedBelow fork (src.sourceBlockHash cfg.dbType (fork - 1)) then
        ⟨src, p, walk (fork - 1)⟩ else ⟨src, p, done fork⟩) (fork : Int) :
    ∃ n, (⟨src, p, walk fork⟩ : System β).awaits cfg n =
      ⟨src, p, done (p.resolveForkPoint (src.sourceBlockHash cfg.dbType) fork)⟩ := by
  fun_induction p.resolveForkPoint (src.sourceBlockHash cfg.dbType) fork with
  | case1 fork hgoes ih =>
    obtain ⟨n, hn⟩ := ih
    refine ⟨n + 1, ?_⟩
    rw [awaits_succ, hstep, if_pos hgoes]
    exact hn
  | case2 fork hstop =>
    refine ⟨1, ?_⟩
    rw [awaits_succ, hstep, if_neg hstop]
    rfl

theorem forwardWalk_await (p : Poller β) (src : Source β) (fork : Int) :
    (⟨src, p, .forwardWalk fork⟩ : System β).await cfg .value =
      if p.walks fork && p.changedBelow fork (src.sourceBlockHash cfg.dbType (fork - 1)) then
        ⟨src, p, .forwardWalk (fork - 1)⟩ else ⟨src, p, .forwardPrune fork⟩ := by
  by_cases hw : p.walks fork
  · simp [await, goto, readHash, hw]
  · simp [await, goto, hw]

theorem dropWalk_await (p : Poller β) (src : Source β) (fork : Int) :
    (⟨src, p, .dropWalk fork⟩ : System β).await cfg .value =
      if p.walks fork && p.changedBelow fork (src.sourceBlockHash cfg.dbType (fork - 1)) then
        ⟨src, p, .dropWalk (fork - 1)⟩ else ⟨src, p, .dropMarker fork⟩ := by
  by_cases hw : p.walks fork
  · simp [await, goto, readHash, hw]
  · simp [await, goto, hw]

theorem awaits_add (m n : Nat) : s.awaits cfg (m + n) = (s.awaits cfg m).awaits cfg n := by
  unfold awaits
  rw [Nat.add_comm, Function.iterate_add_apply]

/-- The guard of a poll over a source that stands still is `handleNetForwardReorg`. -/
theorem guard_computes {p p' : Poller β} {src : Source β} {current : Int}
    (h : p.handleNetForwardReorg cfg src = some p') :
    ∃ n, (⟨src, p, .guard current⟩ : System β).awaits cfg n = ⟨src, p', .idle⟩ := by
  unfold Poller.handleNetForwardReorg at h
  dsimp only at h
  split at h
  · simp at h
  · rename_i hguard
    obtain rfl := Option.some.inj h
    obtain ⟨n, hn⟩ := awaits_walk .forwardWalk .forwardPrune (forwardWalk_await p src)
      (p.lastPolledBlock.getD 0)
    refine ⟨n + 1 + 1, ?_⟩
    have hfirst : (⟨src, p, .guard current⟩ : System β).await cfg .value =
        ⟨src, p, .forwardWalk (p.lastPolledBlock.getD 0)⟩ := by
      simp only [await, readHash, if_true, if_neg hguard, goto]
      simp
    rw [awaits_succ, hfirst, awaits_add, hn]
    rfl

/-- The height-drop branch of a poll over a source that stands still is `handleHeightDropReorg`. -/
theorem drop_computes {p p' : Poller β} {src : Source β} {current : Int}
    (h : p.handleHeightDropReorg cfg src current = .ok p') :
    ∃ n, (⟨src, p, .dropWalk (current + 1)⟩ : System β).awaits cfg n = ⟨src, p', .idle⟩ := by
  unfold Poller.handleHeightDropReorg at h
  cases hmarker : src.getSourceReplayMarker with
  | error e => simp [hmarker, bind, Except.bind] at h
  | ok marker =>
    simp only [hmarker, bind, Except.bind, pure, Except.pure, Except.ok.injEq] at h
    obtain ⟨n, hn⟩ := awaits_walk .dropWalk .dropMarker (dropWalk_await p src) (current + 1)
    generalize p.resolveForkPoint (src.sourceBlockHash cfg.dbType) (current + 1) = fork at h hn
    generalize hr : retroactiveFromRules (rulesFromMarker marker) = retro at h
    have hfirst : (⟨src, p, .dropMarker fork⟩ : System β).await cfg .value =
        ⟨src, p, .dropPrune (retroactiveForkPoint retro fork) retro⟩ := by
      simp [await, goto, hmarker, hr]
    generalize retroactiveForkPoint retro fork = target at h hfirst
    have hprune : (⟨src, p, .dropPrune target retro⟩ : System β).await cfg .value =
        (⟨src, p, .dropPrune target retro⟩ : System β).afterRewind (p.rewind target retro) := by
      simp [await]
    cases hrec : (p.rewind target retro).recordedHash? with
    | some hash =>
      refine ⟨n + (1 + 1), ?_⟩
      rw [awaits_add, hn, awaits_add]
      show ((⟨src, p, .dropMarker fork⟩ : System β).await cfg .value).await cfg .value = _
      rw [hfirst, hprune, afterRewind, hrec, ← h]
      simp [Poller.rewound, hrec, goto]
    | none =>
      refine ⟨n + (1 + 1 + 1), ?_⟩
      rw [awaits_add, hn, awaits_add, awaits_add]
      show (((⟨src, p, .dropMarker fork⟩ : System β).await cfg .value).await cfg .value).await cfg
        .value = _
      rw [hfirst, hprune, afterRewind, hrec, ← h]
      simp [await, Poller.rewound, hrec, goto, readHash]

end System

/-! ### The fork against the recorded window -/

/-- The identity recorded for a height differs from the source's, or the source has no such row. -/
def Differs (cfg : PollerConfig) (p : Poller β) (src : Source β) (height : Int) : Prop :=
  ∃ hash, p.recentBroadcastHashes height = some hash ∧
    (src.getBlockHashRow height = none ∨ hash ≠ src.sourceBlockHash cfg.dbType height)

/-- Recorded heights without a gap from `lo` up to the cursor, over a source whose identities are
chained with them, and the lowest of them that differs. Entries above the cursor may be stale. -/
structure Window (cfg : PollerConfig) (p : Poller β) (src : Source β) (cursor lo d : Int) : Prop where
  last : p.lastPolledBlock = some cursor
  contiguous : ∀ h ≤ cursor, (p.recentBroadcastHashes h).isSome ↔ lo ≤ h
  hashed : src.Hashed cfg.dbType
  first : src.first ≤ lo
  chained : ∀ h h', lo ≤ h' → h' ≤ h → h ≤ cursor → (src.getBlockHashRow h).isSome →
    p.recentBroadcastHashes h = some (src.sourceBlockHash cfg.dbType h) →
    p.recentBroadcastHashes h' = some (src.sourceBlockHash cfg.dbType h')
  inside : lo ≤ d ∧ d ≤ cursor
  differs : Differs cfg p src d
  lowest : ∀ h < d, ¬ Differs cfg p src h

/-- The reorg just broadcast is at or below the lowest difference and the source's next height, and
the cursor went down. -/
def DeepEnough (p p' : Poller β) (cursor tip d : Int) : Prop :=
  ∃ f retroactive, p'.log = .reorg f retroactive :: p.log ∧ p'.lastPolledBlock = some (f - 1) ∧
    f ≤ d ∧ f ≤ tip + 1 ∧ f - 1 < cursor

/-- The target of the source's replay marker while it is pending or replaying. -/
def replayTarget (src : Source β) : Option Int :=
  match src.getSourceReplayMarker with
  | .error _ => none
  | .ok marker => (retroactiveFromRules (rulesFromMarker marker)).map (·.target)

/-- What a height drop to `tip` needs: a replay target at or below the first difference and the
next height; without one, a first difference above genesis or nowhere below the next height. -/
def DropCondition (src : Source β) (tip d : Int) : Prop :=
  match replayTarget src with
  | some target => target ≤ d ∧ target ≤ tip + 1
  | none => 1 ≤ d ∨ tip + 1 ≤ d

namespace Window
variable {cfg : PollerConfig} {p : Poller β} {src : Source β} {cursor lo d tip : Int}

theorem row_isSome (hw : Window cfg p src cursor lo d) (htip : src.getLastBlock = some tip) {h : Int}
    (hlo : lo ≤ h) (hh : h ≤ tip) : (src.getBlockHashRow h).isSome := by
  obtain ⟨_, rfl⟩ := Source.getLastBlock_eq_some htip
  have hfirst := hw.first
  rw [Source.getBlockHashRow_isSome]
  omega

theorem hash_isSome (hw : Window cfg p src cursor lo d) (htip : src.getLastBlock = some tip)
    {h : Int} (hlo : lo ≤ h) (hh : h ≤ tip) : (src.sourceBlockHash cfg.dbType h).isSome := by
  by_contra hnone
  have hrow := hw.row_isSome htip hlo hh
  rw [hw.hashed.getBlockHashRow_none (by simpa using hnone)] at hrow
  simp at hrow

/-- At and above the first difference every recorded height the source holds has changed. -/
theorem changed (hw : Window cfg p src cursor lo d) (htip : src.getLastBlock = some tip) {h : Int}
    (hd : d ≤ h) (hcursor : h ≤ cursor) (hh : h ≤ tip) :
    p.recentBroadcastHashes h ≠ some (src.sourceBlockHash cfg.dbType h) := by
  intro heq
  have hlo := hw.inside.1
  have hrow := hw.row_isSome htip (by omega : lo ≤ h) hh
  have hsame := hw.chained h d hlo hd hcursor hrow heq
  obtain ⟨hash, hrec, hdiff⟩ := hw.differs
  rw [hsame] at hrec
  have hrowd := hw.row_isSome htip hlo (by omega : d ≤ tip)
  rcases hdiff with hnone | hne
  · simp [hnone] at hrowd
  · exact hne (Option.some.inj hrec).symm

/-- Below the first difference the walk stops. -/
theorem stops (hw : Window cfg p src cursor lo d) :
    ¬ (p.walks d ∧ p.changedBelow d (src.sourceBlockHash cfg.dbType (d - 1))) := by
  rintro ⟨hwalks, hchanged⟩
  simp only [Poller.walks, Bool.and_eq_true, decide_eq_true_eq] at hwalks
  simp only [Poller.changedBelow, Bool.and_eq_true, decide_eq_true_eq] at hchanged
  obtain ⟨hash, hrec⟩ := Option.isSome_iff_exists.mp hwalks.2
  refine hw.lowest (d - 1) (by omega) ⟨hash, hrec, .inr ?_⟩
  rintro rfl
  exact hchanged.2 hrec

/-- The walk from a height at or above the first difference, up to which the source holds rows. -/
theorem resolveForkPoint_eq (hw : Window cfg p src cursor lo d)
    (htip : src.getLastBlock = some tip) {top : Int} (hd : d ≤ top) (hcursor : top ≤ cursor + 1)
    (htop : top ≤ tip + 1) :
    p.resolveForkPoint (src.sourceBlockHash cfg.dbType) top = max d (min top 1) := by
  -- induction on the height above the first difference
  obtain ⟨k, hk⟩ : ∃ k : Nat, top = d + k := ⟨(top - d).toNat, by omega⟩
  induction k generalizing top with
  | zero =>
    obtain rfl : top = d := by omega
    rw [System.resolveForkPoint_stop hw.stops]
    omega
  | succ k ih =>
    have hlo := hw.inside.1
    by_cases hone : 1 ≤ top - 1
    · have hwalks : p.walks top := by
        simp only [Poller.walks, Bool.and_eq_true, decide_eq_true_eq]
        exact ⟨hone, (hw.contiguous (top - 1) (by omega)).mpr (by omega)⟩
      have hchanged : p.changedBelow top (src.sourceBlockHash cfg.dbType (top - 1)) := by
        simp only [Poller.changedBelow, Bool.and_eq_true, decide_eq_true_eq]
        exact ⟨hw.hash_isSome htip (by omega) (by omega),
          hw.changed htip (by omega) (by omega) (by omega)⟩
      rw [System.resolveForkPoint_step hwalks hchanged,
        ih (by omega) (by omega) (by omega) (by omega)]
      omega
    · have hstop : ¬ p.walks top := by
        simp only [Poller.walks, Bool.and_eq_true, decide_eq_true_eq, not_and]
        omega
      rw [System.resolveForkPoint_stop fun h => hstop h.1]
      omega

/-- A tip below the cursor: the next height is at or above the first difference, or below the
window. -/
theorem drop_cases (hw : Window cfg p src cursor lo d) (htip : src.getLastBlock = some tip)
    (hdrop : tip < cursor) : d ≤ tip + 1 ∨ tip + 1 < lo := by
  by_contra hcontra
  have hrec := (hw.contiguous (tip + 1) (by omega)).mpr (by omega)
  obtain ⟨hash, hrec⟩ := Option.isSome_iff_exists.mp hrec
  refine hw.lowest (tip + 1) (by omega) ⟨hash, hrec, .inl ?_⟩
  have hnone : ¬ (src.getBlockHashRow (tip + 1)).isSome := by
    obtain ⟨_, rfl⟩ := Source.getLastBlock_eq_some htip
    rw [Source.getBlockHashRow_isSome]
    omega
  simpa using hnone

theorem resolveForkPoint_drop (hw : Window cfg p src cursor lo d)
    (htip : src.getLastBlock = some tip) (hdrop : tip < cursor) :
    p.resolveForkPoint (src.sourceBlockHash cfg.dbType) (tip + 1) =
      if d ≤ tip + 1 then max d (min (tip + 1) 1) else tip + 1 := by
  split
  · rename_i hd
    exact hw.resolveForkPoint_eq htip hd (by omega) (by omega)
  · rename_i hd
    have hlo := (hw.drop_cases htip hdrop).resolve_left hd
    refine System.resolveForkPoint_stop fun h => ?_
    have hwalks := h.1
    simp only [Poller.walks, Bool.and_eq_true] at hwalks
    have := (hw.contiguous (tip + 1 - 1) (by omega)).mp hwalks.2
    omega

end Window

/-- The reorg a handler broadcasts is deep enough exactly when: for a net-forward reorg, the first
difference is above genesis or at the cursor; for a height drop, the replay marker allows it. -/
theorem reorg_broadcast_deep_enough_iff (cfg : PollerConfig) {p : Poller β} {src : Source β}
    {cursor lo d tip : Int} (hw : Window cfg p src cursor lo d)
    (htip : src.getLastBlock = some tip) :
    (∀ p', p.handleNetForwardReorg cfg src = some p' →
      (DeepEnough p p' cursor tip d ↔ 1 ≤ d ∨ cursor ≤ d)) ∧
    (tip < cursor → ∀ p', p.handleHeightDropReorg cfg src tip = .ok p' →
      (DeepEnough p p' cursor tip d ↔ DropCondition src tip d)) := by
  have hinside := hw.inside
  constructor
  · intro p' hp'
    simp only [Poller.handleNetForwardReorg, hw.last, Option.getD_some] at hp'
    split at hp'
    · simp at hp'
    · rename_i hguard
      obtain rfl := Option.some.inj hp'
      have hrow : cursor ≤ tip := by
        obtain ⟨hash, hhash⟩ : ∃ hash, src.sourceBlockHash cfg.dbType cursor = some hash := by
          cases h : src.sourceBlockHash cfg.dbType cursor with
          | none => simp [h] at hguard
          | some hash => exact ⟨hash, rfl⟩
        obtain ⟨row, hrow, _⟩ := Option.bind_eq_some_iff.mp hhash
        have hsome := (Source.getBlockHashRow_isSome src cursor).mp (by simp [hrow])
        obtain ⟨_, rfl⟩ := Source.getLastBlock_eq_some htip
        omega
      rw [hw.resolveForkPoint_eq htip hinside.2 (by omega) (by omega)]
      constructor
      · rintro ⟨f, retroactive, hlog, -, hf⟩
        obtain ⟨rfl, -⟩ := Broadcast.reorg.inj (List.cons.inj hlog).1
        omega
      · intro hcond
        exact ⟨_, none, rfl, rfl, by omega, by omega, by omega⟩
  · intro hdrop p' hp'
    unfold Poller.handleHeightDropReorg at hp'
    unfold DropCondition replayTarget
    rw [hw.resolveForkPoint_drop htip hdrop] at hp'
    cases hmarker : src.getSourceReplayMarker with
    | error e => simp [hmarker, bind, Except.bind] at hp'
    | ok marker =>
      simp only [hmarker, bind, Except.bind, pure, Except.pure, Except.ok.injEq] at hp'
      subst hp'
      have hiff : ∀ target retroactive, DeepEnough p
          (((p.rewind target retroactive).rewound cfg src)) cursor tip d ↔
            target ≤ d ∧ target ≤ tip + 1 := by
        intro target retroactive
        constructor
        · rintro ⟨f, retroactive', hlog, -, hf⟩
          obtain ⟨rfl, -⟩ := Broadcast.reorg.inj (List.cons.inj hlog).1
          omega
        · intro hcond
          exact ⟨target, retroactive, rfl, rfl, by omega, by omega, by omega⟩
      dsimp only
      rw [hiff]
      cases hretro : retroactiveFromRules (rulesFromMarker marker) with
      | some r => simp [retroactiveForkPoint]
      | none =>
        simp only [retroactiveForkPoint, Option.map_none]
        split <;> omega

/-! ### A replay marker above the fork -/

namespace System

def indexerPoller : PollerConfig := ⟨.indexer, 30⟩

def indexerFresh : System Unit :=
  ⟨⟨5, [plainBlock "a5"], []⟩, ⟨none, none, fun _ => none, none, true, []⟩, .idle⟩

/-- One poll that streams the one block the source is ahead by. -/
def onePoll : List (Action Unit) := List.replicate 5 (.await .value)

/-- Blocks 6 and 7 go out, then the source falls back to 5. -/
def fallen : List (Action Unit) :=
  [.await .value, .await .value, .commit (plainBlock "a6")] ++ onePoll ++
    [.commit (plainBlock "a7")] ++ onePoll ++ [.reorg 6]

def digest : String := "0123456789abcdef0123456789abcdef0123456789abcdef0123456789abcdef"

/-- A replay from block 7 on, still running. -/
def replayMarker : EventRow :=
  ⟨1, .retroReplay (.object (.int 7) (.int 9) (.text digest) (.text digest) (.text "replaying"))⟩

def fallenSystem : System Unit := Runs.runAll (next indexerPoller) indexerFresh fallen

def markedSystem : System Unit := fallenSystem.next indexerPoller (.event replayMarker)

theorem recorded_of_fallen (h : Int) : fallenSystem.poller.recentBroadcastHashes h =
    if h = 7 then some (some "a7|a7|a7") else if h = 6 then some (some "a6|a6|a6") else none := by
  show Function.update (Function.update _ 6 _) 7 _ h = _
  simp only [Function.update_apply]
  rfl

theorem fallen_window : Window indexerPoller fallenSystem.poller fallenSystem.source 7 6 6 where
  last := rfl
  contiguous := by
    intro h hle
    rw [recorded_of_fallen]
    split
    · simp; omega
    · split
      · simp; omega
      · simp; omega
  hashed := by decide
  first := by decide
  chained := by
    intro h h' hlo hle _ hrow
    have hsource : fallenSystem.source = ⟨5, [plainBlock "a5"], []⟩ := rfl
    rw [hsource, Source.getBlockHashRow_isSome] at hrow
    simp at hrow
    omega
  inside := by decide
  differs := ⟨_, rfl, .inl (by decide)⟩
  lowest := by
    rintro h hlt ⟨hash, hrec, -⟩
    rw [recorded_of_fallen, if_neg (by omega), if_neg (by omega)] at hrec
    simp at hrec

end System

open System in
/-- Without a marker the drop from 7 to 5 goes out at 6. -/
theorem unmarked_drop_is_deep_enough :
    ∃ p', fallenSystem.poller.handleHeightDropReorg indexerPoller fallenSystem.source 5 = .ok p' ∧
      DeepEnough fallenSystem.poller p' 7 5 6 := by
  refine ⟨_, rfl, ?_⟩
  have hiff := (reorg_broadcast_deep_enough_iff indexerPoller fallen_window rfl).2 (by decide) _ rfl
  exact hiff.mpr (.inl (by decide))

open System in
/-- With a replay marker at 7 the drop from 7 to 5 goes out at 7: block 6 of the dropped branch
stays, and the cursor is above the source's tip. -/
theorem marker_above_the_fork_counterexample :
    ¬ ∀ (cfg : PollerConfig) (s t : System Unit), s.Starts cfg →
      Runs.Run (fun s a t => t = s.next cfg a) Runs.Any s t →
      ∀ cursor lo d tip, Window cfg t.poller t.source cursor lo d →
        t.source.getLastBlock = some tip → tip < cursor →
        ∀ p', t.poller.handleHeightDropReorg cfg t.source tip = .ok p' →
          DeepEnough t.poller p' cursor tip d := by
  intro h
  have hrun : Runs.Run (fun s a t => t = s.next indexerPoller a) Runs.Any indexerFresh
      markedSystem :=
    .tail (Runs.run_okAll (by decide)) trivial rfl
  have hwindow : Window indexerPoller markedSystem.poller markedSystem.source 7 6 6 :=
    ⟨fallen_window.last, fallen_window.contiguous, fallen_window.hashed, fallen_window.first,
      fallen_window.chained, fallen_window.inside, fallen_window.differs, fallen_window.lowest⟩
  obtain ⟨f, retroactive, hlog, -, hf, -⟩ := h indexerPoller indexerFresh markedSystem
    ⟨rfl, rfl, by decide⟩ hrun 7 6 6 5 hwindow rfl (by decide) _ rfl
  obtain ⟨rfl, -⟩ := Broadcast.reorg.inj (List.cons.inj hlog).1
  exact absurd hf (by decide)

end XChainSync.Server
