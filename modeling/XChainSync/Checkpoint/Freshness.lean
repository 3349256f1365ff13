import XChainSync.Checkpoint.Anchor
import XChainSync.Checkpoint.Canonical
import XChainSync.Library.Runs

/-!
# Strict freshness over runs of anchor cycles

Every way out of a cycle reaches the bound check but an exception. The two marks only ever grow.
-/

namespace XChainSync.Checkpoint
open Client (JsVal)
set_option autoImplicit false

/-! ### Bodies a cycle can read -/

/-- Every conversion of a range row succeeds. -/
structure ReadableRow (c : Fetched) : Prop where
  chain : c.throws .chain = false
  network : c.throws .network = false
  block_index : c.throws .block_index = false
  checkpoint_seq : c.throws .checkpoint_seq = false
  snapshot_block : c.throws .snapshot_block = false
  supersedes_from : c.throws .supersedes_from = false

section Readable
variable {N : Type} [LinearOrder N] {vf : Verifier N} {r : Replica}

theorem convert_ok {c : Fetched} {field : Field} (h : c.throws field = false) :
    c.convert field = .ok () := by
  simp [Fetched.convert, h]

omit [LinearOrder N] in
theorem bindingMismatches_ok {c : Fetched} (hchain : c.throws .chain = false)
    (hnetwork : c.throws .network = false) :
    bindingMismatches vf r c = .ok (checkpointBindingMismatches vf r c.body) := by
  unfold bindingMismatches
  rw [convert_ok hchain, convert_ok hnetwork]
  split <;> split <;> rfl

omit [LinearOrder N] in
theorem gateActive_ok {c : Fetched}
    (h : ∀ n, c.body.network = .str n → c.throws .snapshot_block = false) :
    gateActive vf c = .ok (vf.commitmentActive c.body) := by
  unfold gateActive
  split
  · rename_i n hn
    rw [convert_ok (h n hn)]
    rfl
  · rfl

theorem attestServed_ok {next trusted : Fetched} (h : ReadableRow next) :
    ∃ verdict, attestServed vf r next trusted = .ok verdict := by
  unfold attestServed
  rw [bindingMismatches_ok h.chain h.network, gateActive_ok fun _ _ => h.snapshot_block]
  simp only [bind, Except.bind, pure, Except.pure]
  split
  · exact ⟨_, rfl⟩
  split
  · exact ⟨_, rfl⟩
  split
  · exact ⟨_, rfl⟩
  split
  · exact ⟨_, rfl⟩
  split
  · exact ⟨_, rfl⟩
  split
  · exact ⟨_, rfl⟩
  split
  · exact ⟨_, rfl⟩
  split
  · exact ⟨_, rfl⟩
  split
  · exact ⟨_, rfl⟩
  split <;> exact ⟨_, rfl⟩

theorem walkServed_ok {cp : Fetched} {steps : List Fetched} (h : ∀ c ∈ steps, ReadableRow c)
    (trusted : Fetched) (advanced : Bool) :
    ∃ walked, walkServed vf r cp steps trusted advanced = .ok walked := by
  induction steps generalizing trusted advanced with
  | nil => exact ⟨_, rfl⟩
  | cons next steps ih =>
    have hrest := ih fun c hc => h c (List.mem_cons_of_mem _ hc)
    obtain ⟨verdict, hverdict⟩ := @attestServed_ok N _ vf r next trusted (h next List.mem_cons_self)
    unfold walkServed
    split
    · exact hrest trusted advanced
    · rw [hverdict]
      cases verdict with
      | some stop => exact ⟨_, rfl⟩
      | none =>
        simp only [bind, Except.bind]
        split
        · exact ⟨_, rfl⟩
        · exact hrest next true

theorem forM_ok {α : Type} {f : α → Except String Unit} {xs : List α} (h : ∀ x ∈ xs, f x = .ok ()) :
    xs.forM f = .ok () := by
  induction xs with
  | nil => rfl
  | cons x xs ih =>
    change (f x >>= fun _ => xs.forM f) = .ok ()
    rw [h x List.mem_cons_self]
    exact ih fun x hx => h x (List.mem_cons_of_mem _ hx)

theorem supersedeReads_ok {chain : List Fetched} (h : ∀ c ∈ chain, ReadableRow c) {step : Fetched}
    (hstep : ReadableRow step) : supersedeReads vf chain step = .ok () := by
  unfold supersedeReads
  rw [convert_ok hstep.checkpoint_seq, convert_ok hstep.block_index]
  apply forM_ok
  intro c hc
  rw [convert_ok (h c hc).checkpoint_seq, convert_ok (h c hc).supersedes_from]
  simp only [bind, Except.bind, pure, Except.pure]
  split
  · split <;> rfl
  · rfl

theorem mapM_id_of_forall {rows : List (Option Fetched)}
    (h : ∀ row ∈ rows, ∃ c, row = some c ∧ ReadableRow c) :
    ∃ chain, rows.mapM id = some chain ∧ ∀ c ∈ chain, ReadableRow c := by
  induction rows with
  | nil => exact ⟨[], rfl, by simp⟩
  | cons row rows ih =>
    obtain ⟨c, rfl, hc⟩ := h row List.mem_cons_self
    obtain ⟨chain, hchain, hall⟩ := ih fun row hrow => h row (List.mem_cons_of_mem _ hrow)
    refine ⟨c :: chain, by simp [List.mapM_cons, hchain], ?_⟩
    intro x hx
    rcases List.mem_cons.mp hx with rfl | hx
    · exact hc
    · exact hall x hx

theorem servedSteps_ok {rows : List (Option Fetched)}
    (h : ∀ row ∈ rows, ∃ c, row = some c ∧ ReadableRow c) :
    ∃ steps, servedSteps vf rows = .ok steps ∧ ∀ c ∈ steps, ReadableRow c := by
  obtain ⟨chain, hchain, hall⟩ := mapM_id_of_forall h
  unfold servedSteps
  rw [hchain]
  dsimp only
  rw [forM_ok fun c hc => supersedeReads_ok hall (hall c hc)]
  exact ⟨_, rfl, fun c hc => hall c (List.mem_filter.mp hc).1⟩

/-- Every row of every page the source may answer can be read. -/
def ReadablePages (source : AnchorSource) : Prop :=
  ∀ request first last rows, source request first last = .checkpoints rows →
    ∀ row ∈ rows, ∃ c, row = some c ∧ ReadableRow c

theorem followServedLoop_ok {source : AnchorSource} (h : ReadablePages source) (cp : Fetched)
    (fuel request : Nat) (trusted : Fetched) (fromBlock : JsVal) :
    ∃ verdict, followServedLoop vf r source cp fuel request trusted fromBlock = .ok verdict := by
  induction fuel generalizing request trusted fromBlock with
  | zero =>
    unfold followServedLoop
    split <;> exact ⟨_, rfl⟩
  | succ fuel ih =>
    unfold followServedLoop
    split
    · exact ⟨_, rfl⟩
    · cases hanswer : source request fromBlock cp.body.block_index with
      | failed message => exact ⟨_, rfl⟩
      | notArray => exact ⟨_, rfl⟩
      | checkpoints rows =>
        dsimp only
        split
        · exact ⟨_, rfl⟩
        · obtain ⟨steps, hsteps, hall⟩ := @servedSteps_ok N _ vf rows (h _ _ _ _ hanswer)
          obtain ⟨walked, hwalked⟩ := @walkServed_ok N _ vf r cp steps hall trusted false
          simp only [hsteps, hwalked, bind, Except.bind, pure, Except.pure]
          split
          · exact ⟨_, rfl⟩
          · exact ⟨_, rfl⟩
          · exact ih _ _ _

theorem followServed_ok {source : AnchorSource} (h : ReadablePages source) (cp : Fetched)
    (seed : Body) : ∃ verdict, followServed vf r source cp seed = .ok verdict := by
  unfold followServed
  split
  · exact ⟨_, rfl⟩
  split
  · exact ⟨_, rfl⟩
  split
  · exact ⟨_, rfl⟩
  · exact ⟨_, rfl⟩
  · exact followServedLoop_ok h cp _ _ _ _

/-! ### A followed checkpoint is at the served height -/

theorem attestServed_ne_ok {next trusted : Fetched} {verdict : Verdict}
    (h : attestServed vf r next trusted = .ok (some verdict)) (attested : Body) :
    verdict ≠ .ok attested := by
  rintro rfl
  unfold attestServed at h
  simp only [bind, Except.bind, pure, Except.pure] at h
  repeat' split at h
  all_goals simp at h

theorem walkServed_ne_ok {cp : Fetched} {steps : List Fetched} {trusted : Fetched} {advanced : Bool}
    {stop : Verdict} (h : walkServed vf r cp steps trusted advanced = .ok (.error stop))
    (attested : Body) : stop ≠ .ok attested := by
  induction steps generalizing trusted advanced with
  | nil => simp [walkServed] at h
  | cons next steps ih =>
    unfold walkServed at h
    split at h
    · exact ih h
    · cases hverdict : attestServed vf r next trusted with
      | error e => simp [hverdict, bind, Except.bind] at h
      | ok verdict =>
        rw [hverdict] at h
        cases verdict with
        | some v =>
          simp only [bind, Except.bind, pure, Except.pure, Except.ok.injEq, Except.error.injEq] at h
          subst h
          exact attestServed_ne_ok hverdict attested
        | none =>
          simp only [bind, Except.bind, pure, Except.pure] at h
          split at h
          · simp at h
          · exact ih h

omit [LinearOrder N] in
theorem compareAttested_height {cp trusted : Fetched} {attested : Body}
    (h : compareAttested vf cp trusted = .ok attested) :
    attested.block_index = cp.body.block_index := by
  unfold compareAttested at h
  split at h
  · simp at h
  · rename_i hheight
    split at h
    · simp at h
    · simp only [Verdict.ok.injEq] at h
      rw [← h]
      exact not_not.mp hheight

theorem followServedLoop_height {source : AnchorSource} {cp : Fetched} {attested : Body} (fuel : Nat)
    {request : Nat} {trusted : Fetched} {fromBlock : JsVal}
    (h : followServedLoop vf r source cp fuel request trusted fromBlock = .ok (.ok attested)) :
    attested.block_index = cp.body.block_index := by
  induction fuel generalizing request trusted fromBlock with
  | zero =>
    unfold followServedLoop at h
    split at h
    · simp at h
    · exact compareAttested_height (Except.ok.inj h)
  | succ fuel ih =>
    unfold followServedLoop at h
    split at h
    · exact compareAttested_height (Except.ok.inj h)
    · split at h
      · simp at h
      · simp at h
      · split at h
        · simp at h
        · rename_i rows _ _
          cases hsteps : servedSteps vf rows with
          | error e => simp [hsteps, bind, Except.bind] at h
          | ok steps =>
            cases hwalked : walkServed vf r cp steps trusted false with
            | error e => simp [hsteps, hwalked, bind, Except.bind] at h
            | ok walked =>
              simp only [hsteps, hwalked, bind, Except.bind, pure, Except.pure] at h
              split at h
              · rename_i stop
                exact absurd (Except.ok.inj h) (walkServed_ne_ok hwalked attested)
              · simp at h
              · exact ih h

theorem followServed_height {source : AnchorSource} {cp : Fetched} {seed attested : Body}
    (h : followServed vf r source cp seed = .ok (.ok attested)) :
    attested.block_index = cp.body.block_index := by
  unfold followServed at h
  split at h
  · simp at h
  split at h
  · simp at h
  split at h
  · simp at h
  · simp at h
  · exact followServedLoop_height _ h

end Readable

/-! ### Every way out of a cycle -/

section Cycle
variable {N : Type} [LinearOrder N] [Sub N] {vf : Verifier N} {cfg : AnchorConfig N}

/-- Every conversion of the latest checkpoint that a cycle comes to succeeds. -/
structure ReadableLatest (vf : Verifier N) (r : Replica) (cp : Fetched) : Prop where
  chain : cp.throws .chain = false
  network : cp.throws .network = false
  clock : checkpointBindingMismatches vf r cp.body = [] → ∀ n, cp.body.network = .str n →
    cp.throws .snapshot_block = false
  rootless : checkpointBindingMismatches vf r cp.body = [] → vf.commitmentMissing cp.body = true →
    cp.throws .block_index = false ∧ cp.throws .checkpoint_seq = false ∧
      cp.throws .snapshot_block = false
  malformed : checkpointBindingMismatches vf r cp.body = [] → vf.commitmentMissing cp.body = false →
    vf.commitmentActive cp.body = true → isNumber cp.body.block_index = true →
    cp.throws .checkpoint_seq = false

omit [LinearOrder N] [Sub N] in
theorem checkpointSkipsAnchoring_ok {s : Anchored} {cp : Fetched}
    (h : ReadableLatest vf s.replica cp)
    (hbinding : checkpointBindingMismatches vf s.replica cp.body = []) :
    ∃ skips, checkpointSkipsAnchoring vf s cp = .ok skips := by
  have hgate : gateActive vf cp = .ok (vf.commitmentActive cp.body) := gateActive_ok (h.clock hbinding)
  unfold checkpointSkipsAnchoring gateMissing
  simp only [hgate, bind, Except.bind, pure, Except.pure]
  split
  · rename_i hmissing
    obtain ⟨hblock, hseq, hsnapshot⟩ := h.rootless hbinding hmissing
    rw [convert_ok hblock, convert_ok hseq, convert_ok hsnapshot]
    exact ⟨_, rfl⟩
  · rename_i hmissing
    split
    · exact ⟨_, rfl⟩
    split
    · exact ⟨_, rfl⟩
    rename_i hactive
    split
    · exact ⟨_, rfl⟩
    rename_i hnumber
    rw [convert_ok (h.malformed hbinding (by simpa using hmissing) (by simpa using hactive)
      (by simpa using hnumber))]
    split
    · exact ⟨_, rfl⟩
    · split <;> exact ⟨_, rfl⟩

theorem anchorLatestCheckpoint_ok {s : Anchored} {source : AnchorSource} {latest : Option Fetched}
    (hlatest : ∀ cp, latest = some cp → ReadableLatest vf s.replica cp)
    (hpages : ReadablePages source) :
    ∃ ends, anchorLatestCheckpoint vf cfg s source latest = .ok ends := by
  cases latest with
  | none => exact ⟨_, rfl⟩
  | some cp =>
    have h := hlatest cp rfl
    simp only [anchorLatestCheckpoint, bindingMismatches_ok h.chain h.network, bind, Except.bind, pure,
      Except.pure]
    split
    · exact ⟨_, rfl⟩
    rename_i hbinding
    obtain ⟨skips, hskips⟩ := checkpointSkipsAnchoring_ok h (by simpa using hbinding)
    rw [hskips]
    dsimp only
    split
    · exact ⟨_, rfl⟩
    split
    · exact ⟨_, rfl⟩
    split
    · exact ⟨_, rfl⟩
    split
    · exact ⟨_, rfl⟩
    split
    · unfold anchorByRotation
      split
      · exact ⟨_, rfl⟩
      · rename_i seed _
        obtain ⟨verdict, hverdict⟩ := @followServed_ok N _ vf s.replica source hpages cp seed
        rw [hverdict]
        cases verdict <;> exact ⟨_, rfl⟩
    · split <;> exact ⟨_, rfl⟩

/-- The ways out of a cycle behind the freshness check. -/
theorem anchorLatestCheckpoint_cases {s : Anchored} {source : AnchorSource} {latest : Option Fetched}
    {ends : CycleEnd} (h : anchorLatestCheckpoint vf cfg s source latest = .ok ends) :
    (∃ reason, ends = .halted reason) ∨ ends = .unanchored ∨ ∃ cp, latest = some cp ∧
      (cfg.CHECKPOINT_FRESHNESS_STRICT && s.memory.block.isSome &&
        trails vf cfg s.replica cp.body.block_index) = false ∧
      ((vf.js.lt s.replica.lastAppliedBlock cp.body.block_index = true ∧
          ends = judgeCheckpointPastTip vf cfg cp) ∨
        anchorByRotation vf cfg s source cp = .ok ends ∨ ends = .verified cp.body) := by
  cases latest with
  | none => exact .inr (.inl (Except.ok.inj h).symm)
  | some cp =>
    simp only [anchorLatestCheckpoint, bind, Except.bind, pure, Except.pure] at h
    split at h
    · simp at h
    split at h
    · exact .inl ⟨_, (Except.ok.inj h).symm⟩
    split at h
    · simp at h
    split at h
    · exact .inr (.inl (Except.ok.inj h).symm)
    split at h
    · exact .inl ⟨_, (Except.ok.inj h).symm⟩
    rename_i hfresh
    have hfresh := Bool.eq_false_of_not_eq_true hfresh
    split at h
    · rename_i hpast
      exact .inr (.inr ⟨cp, rfl, hfresh, .inl ⟨hpast, (Except.ok.inj h).symm⟩⟩)
    split at h
    · exact .inr (.inl (Except.ok.inj h).symm)
    split at h
    · exact .inr (.inr ⟨cp, rfl, hfresh, .inr (.inl h)⟩)
    split at h
    · exact .inr (.inl (Except.ok.inj h).symm)
    · exact .inl ⟨_, (Except.ok.inj h).symm⟩
    · exact .inr (.inr ⟨cp, rfl, hfresh, .inr (.inr (Except.ok.inj h).symm)⟩)

omit [LinearOrder N] [Sub N] in
theorem judgeCheckpointPastTip_cases (cp : Fetched) :
    judgeCheckpointPastTip vf cfg cp = .unanchored ∨
      (judgeCheckpointPastTip vf cfg cp = .ahead ∧
        ∃ q, verifyServed vf cp cfg.validators = some q ∧ q.valid = true) := by
  unfold judgeCheckpointPastTip
  split
  · exact .inl rfl
  · rename_i q hq
    split
    · rename_i hvalid
      exact .inr ⟨rfl, q, hq, hvalid⟩
    · exact .inl rfl

omit [Sub N] in
theorem anchorByRotation_cases {s : Anchored} {source : AnchorSource} {cp : Fetched}
    {ends : CycleEnd} (h : anchorByRotation vf cfg s source cp = .ok ends) :
    (∃ reason, ends = .halted reason) ∨ ends = .unanchored ∨
      ∃ attested, ends = .verified attested ∧ attested.block_index = cp.body.block_index := by
  unfold anchorByRotation at h
  split at h
  · exact .inl ⟨_, (Except.ok.inj h).symm⟩
  · rename_i seed _
    cases hfollow : followServed vf s.replica source cp seed with
    | error e => simp [hfollow, bind, Except.bind] at h
    | ok verdict =>
      rw [hfollow] at h
      cases verdict with
      | ok attested =>
        exact .inr (.inr ⟨attested, (Except.ok.inj h).symm, followServed_height hfollow⟩)
      | wait reason => exact .inr (.inl (Except.ok.inj h).symm)
      | divergence mismatches haltReason => exact .inl ⟨_, (Except.ok.inj h).symm⟩

/-- How a cycle that no exception leaves ends, in strict mode. -/
inductive EndsWell (vf : Verifier N) (cfg : AnchorConfig N) (s : Anchored) (latest : Option Fetched) :
    CycleEnd → Prop where
  | halted (reason : String) : EndsWell vf cfg s latest (.halted reason)
  | unanchored : EndsWell vf cfg s latest .unanchored
  | verified (attested : Body) (within : trails vf cfg s.replica attested.block_index = false) :
      EndsWell vf cfg s latest (.verified attested)
  | ahead (cp : Fetched) (q : Verifier.Verification) (served : latest = some cp)
      (quorum : verifyServed vf cp cfg.validators = some q ∧ q.valid = true)
      (past : vf.js.lt s.replica.lastAppliedBlock cp.body.block_index = true) :
      EndsWell vf cfg s latest .ahead

theorem endsWell_of_ok {s : Anchored} {source : AnchorSource} {latest : Option Fetched}
    {ends : CycleEnd} (hstrict : cfg.CHECKPOINT_FRESHNESS_STRICT = true)
    (hmark : s.memory.block.isSome = true)
    (h : anchorLatestCheckpoint vf cfg s source latest = .ok ends) :
    EndsWell vf cfg s latest ends := by
  rcases anchorLatestCheckpoint_cases h with ⟨reason, rfl⟩ | rfl | ⟨cp, hcp, hfresh, hway⟩
  · exact .halted reason
  · exact .unanchored
  · rw [hstrict, hmark, Bool.true_and, Bool.true_and] at hfresh
    rcases hway with ⟨hpast, rfl⟩ | hrotation | rfl
    · rcases @judgeCheckpointPastTip_cases N vf cfg cp with hjudge | ⟨hjudge, q, hq⟩
      · rw [hjudge]
        exact .unanchored
      · rw [hjudge]
        exact .ahead cp q hcp hq hpast
    · rcases anchorByRotation_cases hrotation with ⟨reason, rfl⟩ | rfl | ⟨attested, rfl, hheight⟩
      · exact .halted reason
      · exact .unanchored
      · exact .verified attested (hheight ▸ hfresh)
    · exact .verified cp.body hfresh

end Cycle

/-! ### The marks -/

/-- A mark is set once it was, and no lower. -/
def MarkLE (a b : Option Nat) : Prop := ∀ x, a = some x → ∃ y, b = some y ∧ x ≤ y

theorem MarkLE.refl (a : Option Nat) : MarkLE a a := fun x hx => ⟨x, hx, le_rfl⟩

theorem MarkLE.trans {a b c : Option Nat} (hab : MarkLE a b) (hbc : MarkLE b c) : MarkLE a c := by
  intro x hx
  obtain ⟨y, hy, hxy⟩ := hab x hx
  obtain ⟨z, hz, hyz⟩ := hbc y hy
  exact ⟨z, hz, hxy.trans hyz⟩

/-- Memory has no lower mark than sync_state. -/
structure CoversDurable (s : Anchored) : Prop where
  seq : MarkLE s.durable.seq s.memory.seq
  block : MarkLE s.durable.block s.memory.block

/-- The durable marks of the second state are no lower, and its memory covers them. -/
structure Advances (s t : Anchored) : Prop where
  covers : CoversDurable t
  seq : MarkLE s.durable.seq t.durable.seq
  block : MarkLE s.durable.block t.durable.block

theorem Advances.trans {s t u : Anchored} (hst : Advances s t) (htu : Advances t u) : Advances s u :=
  ⟨htu.covers, hst.seq.trans htu.seq, hst.block.trans htu.block⟩

theorem Advances.of_same {s t : Anchored} (h : CoversDurable s) (hmemory : t.memory = s.memory)
    (hdurable : t.durable = s.durable) : Advances s t := by
  refine ⟨⟨?_, ?_⟩, ?_, ?_⟩
  · rw [hmemory, hdurable]
    exact h.seq
  · rw [hmemory, hdurable]
    exact h.block
  · rw [hdurable]
    exact .refl _
  · rw [hdurable]
    exact .refl _

theorem advances_recordSeq {s : Anchored} (h : CoversDurable s) (seq : JsVal) (write : WriteResult) :
    Advances s (recordVerifiedCheckpointSeq s seq write) := by
  unfold recordVerifiedCheckpointSeq
  split
  · exact .of_same h rfl rfl
  · rename_i signedSeq _
    split
    · exact .of_same h rfl rfl
    · -- the new mark is at least the one in memory, which covers the durable one
      have hmark : MarkLE s.memory.seq (some (max signedSeq (s.memory.seq.getD signedSeq))) := by
        intro x hx
        exact ⟨_, rfl, by simp [hx]⟩
      cases write with
      | written => exact ⟨⟨.refl _, h.block⟩, h.seq.trans hmark, .refl _⟩
      | swallowed => exact ⟨⟨h.seq.trans hmark, h.block⟩, .refl _, .refl _⟩
      | refused => exact ⟨⟨h.seq.trans hmark, h.block⟩, .refl _, .refl _⟩

theorem advances_recordBlock {s : Anchored} (h : CoversDurable s) (blockIndex : JsVal)
    (write : WriteResult) : Advances s (recordVerifiedCheckpointBlock s blockIndex write) := by
  unfold recordVerifiedCheckpointBlock
  split
  · exact .of_same h rfl rfl
  · rename_i height _
    split
    · exact .of_same h rfl rfl
    · rename_i hhigher
      have hmark : MarkLE s.memory.block (some height) := by
        intro x hx
        refine ⟨height, rfl, ?_⟩
        simp only [hx, Option.any_some, decide_eq_true_eq] at hhigher
        omega
      cases write with
      | written => exact ⟨⟨h.seq, .refl _⟩, .refl _, h.block.trans hmark⟩
      | swallowed => exact ⟨⟨h.seq, h.block.trans hmark⟩, .refl _, .refl _⟩
      | refused => exact .of_same h rfl rfl

/-! ### Runs -/

/-- A cycle and what its two fetches and two writes come to, a replica that applied or rolled back
blocks, a restart, and an operator. -/
inductive AnchorEvent where
  | cycle (latest : Option Fetched) (source : AnchorSource) (seqWrite blockWrite : WriteResult)
  | moved (replica : Replica)
  | restart (halted : Bool)
  | clearHalt

section Runs
variable {N : Type} [LinearOrder N] [Sub N] [NatCast N] (vf : Verifier N) (cfg : AnchorConfig N)

def Anchored.step (s : Anchored) : AnchorEvent → Anchored
  | .cycle latest source seqWrite blockWrite =>
    (verifyCheckpointQuorum vf cfg s latest source seqWrite blockWrite).1
  | .moved replica => { s with replica := replica }
  -- loadVerifiedCheckpointBlock and loadVerifiedCheckpointSeq
  | .restart halted => { s with halted := halted, memory := s.durable }
  | .clearHalt => { s with halted := false }

/-- What a cycle is served converts wherever the cycle converts it. -/
def Readable (s : Anchored) : AnchorEvent → Prop
  | .cycle latest source _ _ =>
    (∀ cp, latest = some cp → ReadableLatest vf s.replica cp) ∧ ReadablePages source
  | _ => True

variable {vf cfg}

theorem advances_step {s : Anchored} (h : CoversDurable s) (e : AnchorEvent) :
    Advances s (s.step vf cfg e) := by
  cases e with
  | cycle latest source seqWrite blockWrite =>
    simp only [Anchored.step, verifyCheckpointQuorum]
    split
    · exact .of_same h rfl rfl
    · dsimp only
      split
      · have hseq := advances_recordSeq h
        exact (hseq _ _).trans (advances_recordBlock (hseq _ _).covers _ _)
      · exact .of_same h rfl rfl
      · exact .of_same h rfl rfl
      · unfold enforceVerifiedAnchorFreshness
        split
        · exact .of_same h rfl rfl
        · split <;> exact .of_same h rfl rfl
      · exact .of_same h rfl rfl
  | moved replica => exact .of_same h rfl rfl
  | restart halted => exact ⟨⟨.refl _, .refl _⟩, .refl _, .refl _⟩
  | clearHalt => exact .of_same h rfl rfl

/-- A cycle that can read what it is served does not leave an overdue replica running. -/
theorem overdue_cycle (hpinned : cfg.validators.entries ≠ []) (hsource : cfg.hasSource = true)
    (hstrict : cfg.CHECKPOINT_FRESHNESS_STRICT = true) {s : Anchored} {last : Nat}
    (hlast : s.memory.block = some last) (hoverdue : overdue vf cfg s.replica last = true)
    {latest : Option Fetched} {source : AnchorSource} (seqWrite blockWrite : WriteResult)
    (hlatest : ∀ cp, latest = some cp → ReadableLatest vf s.replica cp)
    (hpages : ReadablePages source) :
    let cycle := verifyCheckpointQuorum vf cfg s latest source seqWrite blockWrite
    cycle.1.halted = true ∨
      (∃ attested, cycle.2 = some (.ok (.verified attested)) ∧
        trails vf cfg s.replica attested.block_index = false) ∨
      (cycle.2 = some (.ok .ahead) ∧ ∃ cp q, latest = some cp ∧
        verifyServed vf cp cfg.validators = some q ∧ q.valid = true ∧
        vf.js.lt s.replica.lastAppliedBlock cp.body.block_index = true) := by
  intro cycle
  obtain ⟨ends, hends⟩ := @anchorLatestCheckpoint_ok N _ _ vf cfg s source latest hlatest hpages
  by_cases hhalted : s.halted = true
  · left
    simp [cycle, verifyCheckpointQuorum, hhalted]
  · have hrun : cycle.2 = some (.ok ends) := by
      simp [cycle, verifyCheckpointQuorum, hhalted, hpinned, hsource, hends]
    have hwell := endsWell_of_ok hstrict (by simp [hlast]) hends
    cases hwell with
    | halted reason =>
      left
      simp [cycle, verifyCheckpointQuorum, hhalted, hpinned, hsource, hends]
    | unanchored =>
      left
      simp [cycle, verifyCheckpointQuorum, hhalted, hpinned, hsource, hends,
        enforceVerifiedAnchorFreshness, hlast, hstrict, hoverdue]
    | verified attested within => exact .inr (.inl ⟨attested, hrun, within⟩)
    | ahead cp q served quorum past => exact .inr (.inr ⟨hrun, cp, q, served, quorum.1, quorum.2, past⟩)

open Runs in
/-- Along every run whose cycles can read what they are served, an overdue cycle halts, verifies a
checkpoint within the bound or sees a quorum-valid one past the tip. The durable marks never go
down, along any run. -/
theorem strict_freshness_kept (vf : Verifier N) (cfg : AnchorConfig N)
    (hpinned : cfg.validators.entries ≠ []) (hsource : cfg.hasSource = true)
    (hstrict : cfg.CHECKPOINT_FRESHNESS_STRICT = true) (s : Anchored)
    (hstarted : s.memory = s.durable) :
    (∀ t, Run (fun s e t => t = s.step vf cfg e) (Readable vf) s t →
      ∀ last latest source seqWrite blockWrite, t.memory.block = some last →
      overdue vf cfg t.replica last = true →
      Readable vf t (.cycle latest source seqWrite blockWrite) →
      let cycle := verifyCheckpointQuorum vf cfg t latest source seqWrite blockWrite
      cycle.1.halted = true ∨
        (∃ attested, cycle.2 = some (.ok (.verified attested)) ∧
          trails vf cfg t.replica attested.block_index = false) ∨
        (cycle.2 = some (.ok .ahead) ∧ ∃ cp q, latest = some cp ∧
          verifyServed vf cp cfg.validators = some q ∧ q.valid = true ∧
          vf.js.lt t.replica.lastAppliedBlock cp.body.block_index = true)) ∧
    ∀ t u, Run (fun s e t => t = s.step vf cfg e) Any s t →
      Run (fun s e t => t = s.step vf cfg e) Any t u →
      MarkLE t.durable.seq u.durable.seq ∧ MarkLE t.durable.block u.durable.block := by
  refine ⟨?_, ?_⟩
  · intro t _ last latest source seqWrite blockWrite hlast hoverdue hread
    exact overdue_cycle hpinned hsource hstrict hlast hoverdue seqWrite blockWrite hread.1 hread.2
  · intro t u hst htu
    have hstart : CoversDurable s := by
      constructor <;> rw [hstarted] <;> exact .refl _
    have hcovers : CoversDurable t := by
      refine hst.invariant hstart ?_
      rintro t e u ht - rfl
      exact (advances_step ht e).covers
    have hadvances : Advances t u := by
      refine htu.invariant (I := fun u => Advances t u) (.of_same hcovers rfl rfl) ?_
      rintro u e v hu - rfl
      exact hu.trans (advances_step hu.covers e)
    exact ⟨hadvances.seq, hadvances.block⟩

end Runs

/-! ### A body that throws -/

/-- A pinned set, an anchor source and a bound of ten blocks in strict mode. -/
def strictConfig : AnchorConfig Int where
  validators := ⟨[⟨"key", "1", "source"⟩], false⟩
  hasSource := true
  seed := none
  CHECKPOINT_FRESHNESS_STRICT := true
  CHECKPOINT_FRESHNESS_BLOCKS := 10

/-- A regtest replica at block 500 whose last verified checkpoint is that of block 120. -/
def overdueClient : Anchored where
  replica :=
    { coinTicker := "BTC"
      network := "regtest"
      tickerOf := id
      lastAppliedBlock := .num "500"
      getStateTreeRootByBlock := fun _ => none
      getStakeWeightsByCapabilityAsOf := fun _ => ([], false)
      isZeroAmount := fun _ => false }
  halted := false
  memory := ⟨some 7, some 120⟩
  durable := ⟨some 7, some 120⟩

def silentSource : AnchorSource := fun _ _ _ => .failed "timeout"

/-- The body `{"chain": {"toString": 1}}` with the other members of a checkpoint. -/
def throwingBody : Fetched :=
  ⟨{ regtestBody with chain := .obj 0 "" }, fun field => field = .chain⟩

/-- A body whose chain cannot be converted ends the cycle of an overdue replica without a halt. -/
theorem throwing_body_skips_bound :
    overdue registryVerifier strictConfig overdueClient.replica 120 = true ∧
    (verifyCheckpointQuorum registryVerifier strictConfig overdueClient (some throwingBody)
      silentSource .written .written).1.halted = false ∧
    (verifyCheckpointQuorum registryVerifier strictConfig overdueClient (some throwingBody)
      silentSource .written .written).2 =
        some (.error "TypeError: Cannot convert object to primitive value") := by
  refine ⟨by decide +kernel, rfl, rfl⟩

/-- A source that answers nothing halts it. -/
theorem withheld_checkpoint_halts :
    (verifyCheckpointQuorum registryVerifier strictConfig overdueClient none silentSource .written
      .written).1.halted = true := by
  have hends : (verifyCheckpointQuorum registryVerifier strictConfig overdueClient none silentSource
      .written .written).2 = some (.ok .unanchored) := rfl
  have hpages : ReadablePages silentSource := by
    intro request first last rows hrows
    cases hrows
  have h := (strict_freshness_kept registryVerifier strictConfig (by simp [strictConfig]) rfl rfl
    overdueClient rfl).1 overdueClient .refl 120 none silentSource .written .written rfl
    (by decide +kernel) ⟨by simp, hpages⟩
  rcases h with h | ⟨attested, h, -⟩ | ⟨h, -⟩
  · exact h
  · rw [hends] at h
    cases h
  · rw [hends] at h
    cases h

end XChainSync.Checkpoint
