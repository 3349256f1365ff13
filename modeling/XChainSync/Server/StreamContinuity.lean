import XChainSync.Server.PollerCases

/-!
# Every streamed block builds on the last one broadcast

The hash guard of a poll reads the live source, and the batch is then read from a snapshot opened
later. A block that goes out after another one with no reorg event between them extends it as long
as the source leaves the row at the cursor alone between these two reads.
-/

namespace XChainSync.Server
open Client (DbType)
open Runs (Run)
set_option autoImplicit false

variable {β : Type}

/-- Whenever n + 1 went out after n with no reorg event between them, the view n + 1 was read from
holds the identity that was broadcast for n. The log is newest first. -/
def BuildsOnLast (cfg : PollerConfig) (log : List (Broadcast β)) : Prop :=
  ∀ (later mid earlier : List (Broadcast β)) (n : Int) (hash hash' : Option String)
    (view view' : Source β),
    log = later ++ .block (n + 1) hash' view' :: (mid ++ .block n hash view :: earlier) →
    (∀ b ∈ mid, b.isBlock) → view'.sourceBlockHash cfg.dbType n = hash

/-- The blocks that went out since the last reorg event. -/
def sinceReorg (log : List (Broadcast β)) : List (Broadcast β) := log.takeWhile Broadcast.isBlock

@[simp] theorem sinceReorg_reorg (f : Int) (r : Option Retroactive) (log : List (Broadcast β)) :
    sinceReorg (.reorg f r :: log) = [] := rfl

@[simp] theorem sinceReorg_block (n : Int) (hash : Option String) (view : Source β)
    (log : List (Broadcast β)) :
    sinceReorg (.block n hash view :: log) = .block n hash view :: sinceReorg log := rfl

theorem mem_sinceReorg_append {mid earlier : List (Broadcast β)} {b : Broadcast β}
    (hmid : ∀ b ∈ mid, b.isBlock) (hb : b.isBlock) : b ∈ sinceReorg (mid ++ b :: earlier) := by
  induction mid with
  | nil => simp [sinceReorg, hb]
  | cons x mid ih =>
    have hx : x.isBlock = true := hmid x (by simp)
    have hrest := ih fun y hy => hmid y (by simp [hy])
    simp only [sinceReorg, List.cons_append, List.takeWhile_cons, hx, if_true, List.mem_cons]
    exact .inr hrest

/-- A further broadcast keeps the property when the view it was read from holds the identities
that went out for the height below it. -/
theorem buildsOnLast_cons {cfg : PollerConfig} {log : List (Broadcast β)} {b : Broadcast β}
    (h : BuildsOnLast cfg log)
    (hb : ∀ n hash' view' hash view, b = .block (n + 1) hash' view' →
      .block n hash view ∈ sinceReorg log → view'.sourceBlockHash cfg.dbType n = hash) :
    BuildsOnLast cfg (b :: log) := by
  intro later mid earlier n hash hash' view view' hlog hmid
  cases later with
  | nil =>
    simp only [List.nil_append, List.cons.injEq] at hlog
    refine hb n hash' view' hash view hlog.1 ?_
    rw [hlog.2]
    exact mem_sinceReorg_append hmid rfl
  | cons x later =>
    simp only [List.cons_append, List.cons.injEq] at hlog
    exact h later mid earlier n hash hash' view view' hlog.2 hmid

namespace System

/-- What the poll holds of the last block it broadcast, by the await it stands at. -/
def holdsLast (cfg : PollerConfig) (s : System β) (n : Int) (hash : Option String) : Prop :=
  match s.pc with
  | .initHash _ => False
  | .cursorHash => False
  | .snapshot _ =>
    s.source.sourceBlockHash cfg.dbType n = none ∨ s.source.sourceBlockHash cfg.dbType n = hash
  | .stream view _ _ => view.sourceBlockHash cfg.dbType n = hash ∨ view.blocks = []
  | _ => True

theorem holdsLast_of_calm {cfg : PollerConfig} {s : System β} (h : s.pc.calm) (n : Int)
    (hash : Option String) : s.holdsLast cfg n hash := by
  unfold holdsLast
  cases hpc : s.pc <;> simp_all [Pc.calm]

/-- The invariant of the streaming: blocks since the last reorg end at or below the cursor, and
the one at the cursor is the one the guard compares. -/
structure Tracks (cfg : PollerConfig) (s : System β) : Prop where
  hashed : s.source.Hashed cfg.dbType
  pinned : ∀ view streamTo blocksProcessed, s.pc = .stream view streamTo blocksProcessed →
    view.Hashed cfg.dbType ∧ view.first = s.source.first
  builds : BuildsOnLast cfg s.poller.log
  last : ∀ n hash view, .block n hash view ∈ sinceReorg s.poller.log →
    hash.isSome ∧ s.source.first ≤ n ∧ ∃ cursor, s.poller.lastPolledBlock = some cursor ∧
      n ≤ cursor ∧ (n = cursor → s.poller.lastPolledBlockHash = hash ∧ s.holdsLast cfg n hash)

/-- The source leaves the row at the cursor alone while a poll stands between its hash guard and
its snapshot, commits only rows with their hashes, and answers the guard. -/
def Settled (cfg : PollerConfig) (s : System β) : Action β → Prop
  | .commit block => (identity cfg.dbType block).isSome ∧
      match s.pc, s.poller.lastPolledBlock with
      | .snapshot _, some cursor =>
        (s.source.commit block).sourceBlockHash cfg.dbType cursor =
          s.source.sourceBlockHash cfg.dbType cursor
      | _, _ => True
  | .reorg height =>
      match s.pc, s.poller.lastPolledBlock with
      | .snapshot _, some cursor =>
        (s.source.reorg height).sourceBlockHash cfg.dbType cursor =
          s.source.sourceBlockHash cfg.dbType cursor
      | _, _ => True
  | .event _ => True
  | .await answer =>
      match s.pc with
      | .guard _ => answer ≠ .softFail
      | _ => True

instance (cfg : PollerConfig) (s : System β) (a : Action β) : Decidable (s.Settled cfg a) := by
  cases a <;> unfold Settled <;> dsimp only
  · refine @instDecidableAnd _ _ inferInstance ?_
    split <;> infer_instance
  · split <;> infer_instance
  · infer_instance
  · split <;> infer_instance

namespace Tracks
variable {cfg : PollerConfig} {s : System β}

/-- A move of the poll that only changes the event cursor. -/
theorem moves (h : s.Tracks cfg) (e : Option Int) {pc : Pc β} (hpc : pc.calm) :
    (s.goto (s.poller.atEvent e) pc).Tracks cfg where
  hashed := h.hashed
  pinned := by
    rintro view streamTo blocksProcessed rfl
    exact hpc.elim
  builds := h.builds
  last := by
    intro n hash view hmem
    obtain ⟨hsome, hfirst, cursor, hcursor, hle, hlast⟩ := h.last n hash view hmem
    refine ⟨hsome, hfirst, cursor, hcursor, hle, fun heq => ⟨(hlast heq).1, ?_⟩⟩
    exact holdsLast_of_calm hpc n hash

/-- A reorg broadcast: nothing is held since. -/
theorem rewound (h : s.Tracks cfg) {p : Poller β} {pc : Pc β} {fork : Int}
    {retroactive : Option Retroactive} (hlog : p.log = .reorg fork retroactive :: s.poller.log)
    (hpc : ∀ view streamTo done, pc ≠ .stream view streamTo done) : (s.goto p pc).Tracks cfg where
  hashed := h.hashed
  pinned := fun view streamTo done heq => absurd heq (hpc view streamTo done)
  builds := by
    show BuildsOnLast cfg p.log
    rw [hlog]
    refine buildsOnLast_cons h.builds ?_
    intro n hash' view' hash view heq
    simp at heq
  last := by
    intro n hash view hmem
    simp [goto, hlog] at hmem

theorem reads (h : s.Tracks cfg) (hash : Option String)
    (hpc : (∃ current, s.pc = .initHash current) ∨ s.pc = .cursorHash) :
    (s.goto (s.poller.setHash hash) .idle).Tracks cfg where
  hashed := h.hashed
  pinned := by simp [goto]
  builds := h.builds
  last := by
    intro n hash' view hmem
    obtain ⟨hsome, hfirst, cursor, hcursor, hle, hlast⟩ := h.last n hash' view hmem
    refine ⟨hsome, hfirst, cursor, hcursor, hle, fun heq => ?_⟩
    have hheld := (hlast heq).2
    rcases hpc with ⟨current, hpc⟩ | hpc
    · simp [holdsLast, hpc] at hheld
    · simp [holdsLast, hpc] at hheld

theorem inits (h : s.Tracks cfg) (current : Int) (hcursor : s.poller.lastPolledBlock = none) :
    (s.goto { s.poller with lastPolledBlock := some current } (.initHash current)).Tracks cfg where
  hashed := h.hashed
  pinned := by simp [goto]
  builds := h.builds
  last := by
    intro n hash view hmem
    obtain ⟨_, _, cursor, hsome, _⟩ := h.last n hash view hmem
    simp [hcursor] at hsome

theorem goes (h : s.Tracks cfg) {answer : Answer} (hok : s.Settled cfg (.await answer))
    (ha : answer ≠ .throws) (e : Option Int) (current : Int)
    (hguard : GuardPassed cfg s answer) :
    (s.goto (s.poller.atEvent e) (.snapshot current)).Tracks cfg where
  hashed := h.hashed
  pinned := by simp [goto]
  builds := h.builds
  last := by
    intro n hash view hmem
    obtain ⟨hsome, hfirst, cursor, hcursor, hle, hlast⟩ := h.last n hash view hmem
    refine ⟨hsome, hfirst, cursor, hcursor, hle, fun heq => ⟨(hlast heq).1, ?_⟩⟩
    have hhash := (hlast heq).1
    rcases hguard with hnone | ⟨current', hpc, hread⟩
    · rw [hnone] at hhash
      rw [← hhash] at hsome
      simp at hsome
    · have hval : answer = .value := by
        have hsoft : answer ≠ .softFail := by simpa [Settled, hpc] using hok
        cases answer <;> simp_all
      simp only [hcursor, Option.getD_some, readHash, hval, if_true, ← heq, hhash] at hread
      exact hread

theorem pins (h : s.Tracks cfg) {current streamTo : Int} (hpc : s.pc = .snapshot current)
    (hto : streamTo = s.source.getLastBlock.getD current)
    (hgoes : s.poller.lastPolledBlock.getD 0 < streamTo) :
    (s.goto s.poller (.stream s.source streamTo 0)).Tracks cfg where
  hashed := h.hashed
  pinned := by
    rintro view streamTo' done heq
    obtain ⟨rfl, -, -⟩ := Pc.stream.inj heq
    exact ⟨h.hashed, rfl⟩
  builds := h.builds
  last := by
    intro n hash view hmem
    obtain ⟨hsome, hfirst, cursor, hcursor, hle, hlast⟩ := h.last n hash view hmem
    refine ⟨hsome, hfirst, cursor, hcursor, hle, fun heq => ⟨(hlast heq).1, ?_⟩⟩
    have hheld := (hlast heq).2
    simp only [holdsLast, hpc] at hheld
    show s.source.sourceBlockHash cfg.dbType n = hash ∨ s.source.blocks = []
    rcases hheld with hnone | hheld
    · -- no row at the cursor: a batch on this view has nothing to publish
      rcases h.hashed.below_of_none hfirst hnone with hempty | ⟨tip, htip, hlt⟩
      · exact .inr hempty
      · rw [hto, htip, hcursor] at hgoes
        simp only [Option.getD_some] at hgoes
        omega
    · exact .inl hheld

theorem publishes (h : s.Tracks cfg) {view : Source β} {streamTo : Int} {done : Nat} {pc : Pc β}
    {row : Block β} (hpc : s.pc = .stream view streamTo done)
    (hnext : pc = .idle ∨ ∃ done', pc = .stream view streamTo done') {nextBlock : Int}
    (hn : nextBlock = s.poller.lastPolledBlock.getD 0 + 1)
    (hrow : view.getBlockHashRow nextBlock = some row) :
    (s.goto { s.poller.publishBlockPayload cfg (identity cfg.dbType row) nextBlock view with
      lastPolledBlock := some nextBlock } pc).Tracks cfg := by
  obtain ⟨hview, hviewFirst⟩ := h.pinned view streamTo done hpc
  have hmemRow := Source.mem_of_getBlockHashRow hrow
  have hhash : view.sourceBlockHash cfg.dbType nextBlock = identity cfg.dbType row := by
    simp [Source.sourceBlockHash, hrow]
  refine ⟨h.hashed, ?_, ?_, ?_⟩
  · intro view' streamTo' done' heq
    rcases hnext with rfl | ⟨done'', rfl⟩
    · simp [goto] at heq
    · obtain ⟨rfl, -, -⟩ := Pc.stream.inj heq
      exact ⟨hview, hviewFirst⟩
  · refine buildsOnLast_cons h.builds ?_
    intro n hash' view' hash viewn heq hmem
    obtain ⟨hheight, -, rfl⟩ := Broadcast.block.inj heq
    obtain ⟨-, -, cursor, hcursor, -, hlast⟩ := h.last n hash viewn hmem
    have hcur : n = cursor := by
      rw [hcursor, Option.getD_some] at hn
      omega
    have hheld := (hlast hcur).2
    simp only [holdsLast, hpc] at hheld
    rcases hheld with hheld | hempty
    · exact hheld
    · simp [hempty] at hmemRow
  · intro n hash viewn hmem
    simp only [goto, Poller.publishBlockPayload, sinceReorg_block, List.mem_cons] at hmem
    rcases hmem with heq | hmem
    · obtain ⟨rfl, rfl, rfl⟩ := Broadcast.block.inj heq
      have hsome := (Source.getBlockHashRow_isSome viewn n).mp (by simp [hrow])
      refine ⟨hview row hmemRow, by simp only [goto]; omega, n, rfl, Int.le_refl n, fun _ => ⟨rfl, ?_⟩⟩
      rcases hnext with rfl | ⟨done', rfl⟩
      · trivial
      · exact .inl hhash
    · obtain ⟨hsome, hfirst, cursor, hcursor, hle, -⟩ := h.last n hash viewn hmem
      rw [hcursor, Option.getD_some] at hn
      refine ⟨hsome, hfirst, nextBlock, rfl, by omega, fun heq => ?_⟩
      omega

theorem skips (h : s.Tracks cfg) {view : Source β} {streamTo : Int} {done : Nat} {pc : Pc β}
    (hpc : s.pc = .stream view streamTo done)
    (hnext : pc = .idle ∨ ∃ done', pc = .stream view streamTo done') {nextBlock : Int}
    (hn : nextBlock = s.poller.lastPolledBlock.getD 0 + 1) :
    (s.goto { s.poller.setHash none with lastPolledBlock := some nextBlock } pc).Tracks cfg where
  hashed := h.hashed
  pinned := by
    intro view' streamTo' done' heq
    rcases hnext with rfl | ⟨done'', rfl⟩
    · simp [goto] at heq
    · obtain ⟨rfl, -, -⟩ := Pc.stream.inj heq
      exact h.pinned view streamTo done hpc
  builds := h.builds
  last := by
    intro n hash viewn hmem
    obtain ⟨hsome, hfirst, cursor, hcursor, hle, -⟩ := h.last n hash viewn hmem
    rw [hcursor, Option.getD_some] at hn
    refine ⟨hsome, hfirst, nextBlock, rfl, by omega, fun heq => ?_⟩
    omega

theorem await (h : s.Tracks cfg) {answer : Answer} (hok : s.Settled cfg (.await answer)) :
    (s.await cfg answer).Tracks cfg := by
  by_cases ha : answer = .throws
  · simp only [System.await, ha, if_true]
    exact h.moves s.poller.lastEventId trivial
  have hcases := System.await_cases cfg s answer
  generalize s.await cfg answer = t at hcases ⊢
  cases hcases with
  | moves e hpc => exact h.moves e hpc
  | inits current hcursor => exact h.inits current hcursor
  | reads hash hpc => exact h.reads hash hpc
  | goes e hcursor hlast hguard => exact h.goes hok ha e _ hguard
  | forward hpc => exact h.rewound rfl (by simp)
  | rewinds e hpc =>
    unfold afterRewind
    split <;> exact h.rewound rfl (by simp)
  | pins hpc hto hgoes => exact h.pins hpc hto hgoes
  | streams hpc hnext =>
    have hnext' := hnext.imp_right fun h => (⟨_, h.1⟩ : ∃ done', _ = Pc.stream _ _ done')
    unfold streamBlock
    split
    · rename_i row hrow
      exact h.publishes hpc hnext' rfl hrow
    · exact h.skips hpc hnext' rfl

/-- A move of the source that leaves the cursor's row alone before a snapshot. -/
theorem source (h : s.Tracks cfg) {src : Source β} (hhashed : src.Hashed cfg.dbType)
    (hfirst : src.first = s.source.first)
    (hrow : ∀ current cursor, s.pc = .snapshot current → s.poller.lastPolledBlock = some cursor →
      src.sourceBlockHash cfg.dbType cursor = s.source.sourceBlockHash cfg.dbType cursor) :
    ({ s with source := src } : System β).Tracks cfg where
  hashed := hhashed
  pinned := by
    intro view streamTo done hpc
    have hview := h.pinned view streamTo done hpc
    exact ⟨hview.1, hview.2.trans hfirst.symm⟩
  builds := h.builds
  last := by
    intro n hash view hmem
    obtain ⟨hsome, hle, cursor, hcursor, hn, hlast⟩ := h.last n hash view hmem
    refine ⟨hsome, by simp only [hfirst]; exact hle, cursor, hcursor, hn, fun heq => ?_⟩
    refine ⟨(hlast heq).1, ?_⟩
    have hheld := (hlast heq).2
    unfold holdsLast at hheld ⊢
    cases hpc : s.pc with
    | snapshot current =>
      rw [hpc] at hheld
      simp only [heq, hrow current cursor hpc hcursor] at hheld ⊢
      exact hheld
    | _ =>
      rw [hpc] at hheld
      exact hheld

theorem next (h : s.Tracks cfg) {a : Action β} (hok : s.Settled cfg a) :
    (s.next cfg a).Tracks cfg := by
  cases a with
  | commit block =>
    refine h.source ?_ rfl ?_
    · intro b hb
      rcases List.mem_append.mp hb with hb | hb
      · exact h.hashed b hb
      · rw [List.mem_singleton.mp hb]
        exact hok.1
    · intro current cursor hpc hcursor
      have hrow := hok.2
      simp only [hpc, hcursor] at hrow
      exact hrow
  | reorg height =>
    refine h.source ?_ rfl ?_
    · exact fun b hb => h.hashed b (List.mem_of_mem_take hb)
    · intro current cursor hpc hcursor
      simp only [Settled, hpc, hcursor] at hok
      exact hok
  | event row => exact h.source h.hashed rfl fun _ _ _ _ => rfl
  | await answer => exact h.await hok

end Tracks

/-- The systems a process starts in: nothing broadcast yet, whatever the cursor and the window were
seeded with. -/
structure Starts (cfg : PollerConfig) (s : System β) : Prop where
  log : s.poller.log = []
  pc : s.pc = .idle
  hashed : s.source.Hashed cfg.dbType

theorem Starts.tracks {cfg : PollerConfig} {s : System β} (h : s.Starts cfg) : s.Tracks cfg where
  hashed := h.hashed
  pinned := by simp [h.pc]
  builds := by
    intro later mid earlier n hash hash' view view' hlog
    simp [h.log] at hlog
  last := by
    intro n hash view hmem
    simp [h.log, sinceReorg] at hmem

/-- In every run in which the source leaves the cursor's row alone between the guard and the
snapshot, every streamed block builds on the last one broadcast. -/
theorem streamed_block_builds_on_last_broadcast (cfg : PollerConfig) {s t : System β}
    (hs : s.Starts cfg)
    (hrun : Run (fun s a t => t = s.next cfg a) (fun s a => s.Settled cfg a) s t) :
    BuildsOnLast cfg t.poller.log := by
  have htracks : t.Tracks cfg := by
    refine hrun.invariant hs.tracks ?_
    rintro u a v hu hok rfl
    exact hu.next hok
  exact htracks.builds

/-- A source reorg no deeper than the recorded window. -/
def Shallow (cfg : PollerConfig) (s : System β) : Action β → Prop
  | .reorg height => s.source.getLastBlock.all fun tip => tip - height < cfg.recentHashCap
  | _ => True

instance (cfg : PollerConfig) (s : System β) (a : Action β) : Decidable (s.Shallow cfg a) := by
  cases a <;> unfold Shallow <;> infer_instance

/-- A block all of whose hashes read alike. -/
def plainBlock (hash : String) : Block Unit := ⟨some hash, some hash, some hash, some hash, ()⟩

/-- A decoder's poller before its first poll, over a source at block 5. -/
def fresh : System Unit :=
  ⟨⟨5, [plainBlock "a5"], []⟩, ⟨none, none, fun _ => none, none, false, []⟩, .idle⟩

def decoderPoller : PollerConfig := ⟨.decoder, 30⟩

/-- The cursor starts at 5 and block 6 goes out. -/
def upToSix : List (Action Unit) :=
  [.await .value, .await .value, .commit (plainBlock "a6"), .await .value, .await .value,
    .await .value, .await .value]

/-- Block 7 is committed and the guard passes. -/
def guarded : List (Action Unit) :=
  upToSix ++ [.commit (plainBlock "a7"), .await .value, .await .value]

theorem streams_six_and_seven :
    fresh.Starts decoderPoller ∧
      BuildsOnLast decoderPoller
        (Runs.runAll (System.next decoderPoller) fresh
          (guarded ++ [.await .value, .await .value])).poller.log := by
  have hs : fresh.Starts decoderPoller := ⟨rfl, rfl, by decide⟩
  exact ⟨hs, streamed_block_builds_on_last_broadcast decoderPoller hs
    (Runs.run_okAll (by decide))⟩

/-- The source replaces block 6 after the guard has read it and before the snapshot: block 7 of
the new branch goes out on top of block 6 of the old one. -/
theorem reorg_before_the_snapshot_is_streamed_over :
    ¬ ∀ (cfg : PollerConfig) (s t : System Unit), s.Starts cfg →
      Run (fun s a t => t = s.next cfg a) (fun s a => s.Shallow cfg a) s t →
      BuildsOnLast cfg t.poller.log := by
  intro h
  have hbuilds := h decoderPoller fresh
    (Runs.runAll (System.next decoderPoller) fresh (guarded ++ [.reorg 6,
      .commit (plainBlock "b6"), .commit (plainBlock "b7"), .await .value, .await .value]))
    ⟨rfl, rfl, by decide⟩ (Runs.run_okAll (by decide))
  have hhash := hbuilds [] [] [] 6 (some "a6") (some "b7") _ _ rfl (by simp)
  exact absurd hhash (by decide)

end System

end XChainSync.Server
