import XChainSync.Client.Events
import XChainSync.Library.Runs
import XChainSync.Train.Gate

/-!
# The train boundary on the four apply paths

Each path consults the gate once, on a height of the payload's header, and then commits whatever
`blocks` rows the payload carries. A replica is the heights of its `blocks` rows here.
-/

namespace XChainSync.Train
open Json (Engine Value)
open Client (DbType)
set_option autoImplicit false

/-- A candidate path of the release manifest. -/
inductive ManifestFile where
  | missing
  | unreadable
  | invalid
  | parsed (manifest : Value)

/-- What the gate of one client reads. -/
structure Setting where
  js : Engine
  coinTicker : String
  network : String
  dbType : DbType
  manifests : List (String × ManifestFile)

def resolveTrainActivationRequirement (js : Engine) :
    List (String × ManifestFile) → Except Thrown (Option Requirement)
  | [] => .ok none
  | (_, .missing) :: rest => resolveTrainActivationRequirement js rest
  | (file, .unreadable) :: _ => .ok (some (.malformed (.unreadable file)))
  | (file, .invalid) :: _ => .ok (some (.malformed (.notJson file)))
  | (_, .parsed manifest) :: _ => readManifestTrainActivation js manifest

/-- The `blocks` rows of a payload: those of its tables and those of its `updated_rows`. -/
structure BlockRows where
  blocks : List Nat
  updated : List Nat
  deriving DecidableEq, Repr

/-- A live event or a snapshot: the height of its header, undefined where there is none, and its
tables. -/
structure Payload where
  block_height : Option Value
  tables : Option BlockRows

/-- How far a pass gets: whether it was under way when a halt came, and whether its transaction
commits. -/
structure Outcome where
  underway : Bool
  commits : Bool

inductive Event where
  | live (event : Payload) (outcome : Outcome)
  | catchUp (snapshotData : Payload) (outcome : Outcome)
  | bootstrap (snapshotData : Payload) (outcome : Outcome)
  | bootstrapFromHeight (tip : Option ℚ) (snapshotData : Payload) (outcome : Outcome)
  | rollback (blockIndex : Nat)
  | clearHalt

structure Replica where
  blocks : List Nat
  halted : Bool
  deriving DecidableEq, Repr

namespace Setting
variable (c : Setting)

def required : Except Thrown (Option Requirement) :=
  resolveTrainActivationRequirement c.js c.manifests

def verdict (blockIndex : Option Value) : Except Thrown Verdict := do
  let required ← c.required
  evaluateTrainActivation c.js TRAIN_ACTIVATION (some c.network)
    (if c.coinTicker = "BTC" then blockIndex else some .null) required

/-- True when the client halts; a gate that throws halts. -/
def checkTrainActivation (blockIndex : Option Value) : Bool :=
  match c.verdict blockIndex with
  | .ok verdict => verdict.status = .halt
  | .error _ => true

/-- `(typeof h === 'number') ? h : fallback`. -/
def numericOr (fallback : Option ℚ) : Option Value → Value
  | some (.num h) => .num h
  | _ => .num fallback

/-- One block above the committed tip. -/
def sinceBlock (s : Replica) : Nat := s.blocks.max?.getD 0 + 1

/-- The height the gate of a pass is consulted on. -/
def gateHeight (s : Replica) : Event → Option Value
  | .live event _ => event.block_height
  | .catchUp data _ => some (numericOr (some (sinceBlock s)) data.block_height)
  | .bootstrap data _ => data.block_height
  | .bootstrapFromHeight tip data _ => some (numericOr tip data.block_height)
  | .rollback _ => none
  | .clearHalt => none

/-- The heights of the rows an incremental apply inserts. -/
def landed (rows : BlockRows) : List Nat :=
  rows.blocks ++ if c.dbType = .indexer then rows.updated else []

/-- The heights of the `blocks` rows a pass commits when nothing stops it. -/
def rows : Event → List Nat
  | .live event _ =>
    match event.block_height with
    | none => []
    | some .null => []
    | some _ => event.tables.elim [] c.landed
  | .catchUp data _ => data.tables.elim [] c.landed
  | .bootstrap data _ => data.tables.elim [] BlockRows.blocks
  | .bootstrapFromHeight _ data _ => data.tables.elim [] c.landed
  | .rollback _ => []
  | .clearHalt => []

/-- A pass: refused while halted, halted by the gate, or applied as far as it gets. -/
def pass (s : Replica) (e : Event) (outcome : Outcome) (applied : List Nat) : Replica :=
  if s.halted && !outcome.underway then s
  else if c.checkTrainActivation (gateHeight s e) then { s with halted := true }
  else if outcome.commits then { s with blocks := applied } else s

def step (s : Replica) (e : Event) : Replica :=
  match e with
  | .live _ outcome => c.pass s e outcome (s.blocks ++ c.rows e)
  | .catchUp _ outcome => c.pass s e outcome (s.blocks ++ c.rows e)
  -- a full snapshot without tables is not applied; any other replaces every row
  | .bootstrap data outcome =>
    c.pass s e outcome (if data.tables.isSome then c.rows e else s.blocks)
  | .bootstrapFromHeight _ _ outcome => c.pass s e outcome (s.blocks ++ c.rows e)
  | .rollback blockIndex => { s with blocks := s.blocks.filter (· < blockIndex) }
  | .clearHalt => { s with halted := false }

/-- The manifest cannot be read, or requires a rule set this build does not carry. -/
def Unmet : Prop :=
  match c.required with
  | .error _ => True
  | .ok none => False
  | .ok (some (.malformed _)) => True
  | .ok (some (.ruleSet version _ _)) => version ∉ TRAIN_ACTIVATION.map Prod.fst

/-- The height the manifest names for the network of the client, none where it names none. -/
def activationHeight : Option ℚ :=
  match c.required with
  | .ok (some (.ruleSet _ heights _)) =>
    match requiredHeight c.js heights (some c.network) with
    | .ok height => height
    | .error _ => none
  | _ => none

/-- No pass whose gate height is below the activation height carries a row at or above it. -/
def HeaderCovers (height : ℚ) (s : Replica) (e : Event) : Prop :=
  ∀ clock, asHeight c.js (gateHeight s e) = .ok (some clock) → clock < height →
    ∀ b ∈ c.rows e, (b : ℚ) < height

variable {c}

/-- A status that is no halt names a clock below the height of the requirement. -/
theorem statusOf_ne_halt {required : Requirement} {clock : Option ℚ} {status : Status}
    (hunmet : ∀ version heights classification, required = .ruleSet version heights classification →
      version ∉ TRAIN_ACTIVATION.map Prod.fst)
    (hstatus : statusOf c.js (some c.network) (some required) clock = .ok status)
    (hne : status ≠ .halt) :
    ∃ version heights classification height now,
      required = .ruleSet version heights classification ∧
      requiredHeight c.js heights (some c.network) = .ok (some height) ∧
      clock = some now ∧ now < height := by
  cases required with
  | malformed why =>
    obtain rfl := Except.ok.inj hstatus
    exact absurd rfl hne
  | ruleSet version heights classification =>
    have hmissing : version ∉ buildRuleSets c.js := fun h =>
      hunmet version heights classification rfl (mem_buildRuleSets.mp h)
    simp only [statusOf, hmissing, if_false] at hstatus
    cases hheight : requiredHeight c.js heights (some c.network) with
    | error e => simp [hheight] at hstatus
    | ok height =>
      cases height with
      | none =>
        simp only [hheight, Except.ok.injEq] at hstatus
        exact absurd hstatus.symm hne
      | some height =>
        cases clock with
        | none =>
          simp only [hheight, Except.ok.injEq] at hstatus
          exact absurd hstatus.symm hne
        | some now =>
          simp only [hheight, Except.ok.injEq] at hstatus
          refine ⟨version, heights, classification, height, now, rfl, hheight, rfl, ?_⟩
          by_contra hcrossed
          rw [if_pos (not_lt.mp hcrossed)] at hstatus
          exact hne hstatus.symm

/-- Where the requirement is not met, a gate that does not halt has seen a BTC height below the
activation height. -/
theorem checkTrainActivation_false (hunmet : c.Unmet) {blockIndex : Option Value}
    (h : c.checkTrainActivation blockIndex = false) :
    c.coinTicker = "BTC" ∧ ∃ height clock, c.activationHeight = some height ∧
      asHeight c.js blockIndex = .ok (some clock) ∧ clock < height := by
  unfold checkTrainActivation verdict at h
  cases hrequired : c.required with
  | error e => simp [hrequired, bind, Except.bind] at h
  | ok required =>
    unfold Unmet at hunmet
    simp only [hrequired] at hunmet
    simp only [hrequired, bind, Except.bind] at h
    cases hclock : asHeight c.js (if c.coinTicker = "BTC" then blockIndex else some .null) with
    | error e => simp [evaluateTrainActivation, hclock, coerced, bind, Except.bind] at h
    | ok clock =>
      have hstatus := @evaluate_status c.js (some c.network) _ required _ hclock
      cases hverdict : evaluateTrainActivation c.js TRAIN_ACTIVATION (some c.network)
          (if c.coinTicker = "BTC" then blockIndex else some .null) required with
      | error e => simp [hverdict] at h
      | ok verdict =>
        simp only [hverdict, decide_eq_false_iff_not] at h
        rw [hverdict] at hstatus
        cases required with
        | none => exact hunmet.elim
        | some required =>
          obtain ⟨version, heights, classification, height, now, rfl, hheight, rfl, hlt⟩ :=
            statusOf_ne_halt (fun _ _ _ he => by subst he; exact hunmet) hstatus.symm h
          have hbtc : c.coinTicker = "BTC" := by
            by_contra hbtc
            rw [if_neg hbtc] at hclock
            simp [asHeight] at hclock
          rw [if_pos hbtc] at hclock
          refine ⟨hbtc, height, now, ?_, hclock, hlt⟩
          simp only [activationHeight, hrequired, hheight]

/-- What a pass can do to the rows: nothing, or what it applies behind a gate that does not halt. -/
theorem pass_blocks (s : Replica) (e : Event) (outcome : Outcome) (applied : List Nat) :
    (c.pass s e outcome applied).blocks = s.blocks ∨
      (c.checkTrainActivation (gateHeight s e) = false ∧
        (c.pass s e outcome applied).blocks = applied) := by
  unfold pass
  split
  · exact .inl rfl
  · split
    · exact .inl rfl
    · rename_i hgate
      split
      · exact .inr ⟨by simpa using hgate, rfl⟩
      · exact .inl rfl

/-- A step drops rows, or adds rows of its payload behind a gate that does not halt. -/
theorem step_blocks (s : Replica) (e : Event) :
    (∀ b ∈ (c.step s e).blocks, b ∈ s.blocks) ∨
      (c.checkTrainActivation (gateHeight s e) = false ∧
        ∀ b ∈ (c.step s e).blocks, b ∈ s.blocks ∨ b ∈ c.rows e) := by
  have hpass : ∀ outcome applied, c.step s e = c.pass s e outcome applied →
      (∀ b ∈ applied, b ∈ s.blocks ∨ b ∈ c.rows e) →
      (∀ b ∈ (c.step s e).blocks, b ∈ s.blocks) ∨
        (c.checkTrainActivation (gateHeight s e) = false ∧
          ∀ b ∈ (c.step s e).blocks, b ∈ s.blocks ∨ b ∈ c.rows e) := by
    intro outcome applied hstep happlied
    rw [hstep]
    rcases pass_blocks s e outcome applied with h | ⟨hgate, h⟩
    · rw [h]
      exact .inl fun _ hb => hb
    · rw [h]
      exact .inr ⟨hgate, happlied⟩
  cases e with
  | live event outcome => exact hpass outcome _ rfl fun b hb => List.mem_append.mp hb
  | catchUp data outcome => exact hpass outcome _ rfl fun b hb => List.mem_append.mp hb
  | bootstrap data outcome =>
    refine hpass outcome _ rfl fun b hb => ?_
    split at hb
    · exact .inr hb
    · exact .inl hb
  | bootstrapFromHeight tip data outcome =>
    exact hpass outcome _ rfl fun b hb => List.mem_append.mp hb
  | rollback blockIndex => exact .inl fun b hb => (List.mem_filter.mp hb).1
  | clearHalt => exact .inl fun b hb => hb

/-- One step under the condition keeps every row below the activation height. -/
theorem step_below (hunmet : c.Unmet) {height : ℚ} (hheight : c.activationHeight = some height)
    {s : Replica} {e : Event} (hcovers : c.HeaderCovers height s e)
    (hs : ∀ b ∈ s.blocks, (b : ℚ) < height) : ∀ b ∈ (c.step s e).blocks, (b : ℚ) < height := by
  intro b hb
  rcases c.step_blocks s e with hkeep | ⟨hgate, hadd⟩
  · exact hs b (hkeep b hb)
  · obtain ⟨-, height', clock, hheight', hclock, hlt⟩ := checkTrainActivation_false hunmet hgate
    obtain rfl : height = height' := Option.some.inj (hheight.symm.trans hheight')
    rcases hadd b hb with hb | hb
    · exact hs b hb
    · exact hcovers clock hclock hlt b hb

/-- Without a clock or a height no step adds a row. -/
theorem step_adds_none (hunmet : c.Unmet) (hblind : c.coinTicker ≠ "BTC" ∨ c.activationHeight = none)
    (s : Replica) (e : Event) : ∀ b ∈ (c.step s e).blocks, b ∈ s.blocks := by
  rcases c.step_blocks s e with hkeep | ⟨hgate, -⟩
  · exact hkeep
  · obtain ⟨hbtc, height, -, hheight, -⟩ := checkTrainActivation_false hunmet hgate
    rcases hblind with hother | hnone
    · exact absurd hbtc hother
    · rw [hnone] at hheight
      cases hheight

end Setting

open Runs in
/-- As long as no pass carries a row across the boundary its header stays below, no run commits a
block at or above the activation height. Without a clock or a height no run commits any block. And a
verdict only ever moves to halt as the height grows. -/
theorem train_boundary_kept (c : Setting) (hunmet : c.Unmet) :
    (∀ height, c.activationHeight = some height → ∀ s t,
      Run (fun s e t => t = c.step s e) (c.HeaderCovers height) s t →
      (∀ b ∈ s.blocks, (b : ℚ) < height) → ∀ b ∈ t.blocks, (b : ℚ) < height) ∧
    ((c.coinTicker ≠ "BTC" ∨ c.activationHeight = none) → ∀ s t,
      Run (fun s e t => t = c.step s e) Any s t → ∀ b ∈ t.blocks, b ∈ s.blocks) ∧
    ∀ (network : Option String) (required : Option Requirement) (v v' : Option Value) (h h' : ℚ),
      asHeight c.js v = .ok (some h) → asHeight c.js v' = .ok (some h') → h ≤ h' →
      let status := fun v => (evaluateTrainActivation c.js TRAIN_ACTIVATION network v required).map
        Verdict.status
      status v' = status v ∨ (status v ≠ .ok .halt ∧ status v' = .ok .halt) := by
  refine ⟨?_, ?_, ?_⟩
  · intro height hheight s t hrun hs
    refine hrun.invariant (I := fun s : Replica => ∀ b ∈ s.blocks, (b : ℚ) < height) hs ?_
    rintro t e u ht hcovers rfl
    exact Setting.step_below hunmet hheight hcovers ht
  · intro hblind s t hrun
    refine hrun.invariant (I := fun t => ∀ b ∈ t.blocks, b ∈ s.blocks) (fun _ hb => hb) ?_
    rintro t e u ht - rfl b hb
    exact ht b (Setting.step_adds_none hunmet hblind t e b hb)
  · intro network required v v' h h' hv hv' hle status
    simp only [status, evaluate_status hv, evaluate_status hv']
    exact statusOf_mono network required hle

/-! ### A header below the boundary over a row on it -/

/-- A manifest that requires a rule set no build carries from height 100 on. -/
def majorTrain : Value :=
  .obj [("trainActivation", .obj [("ruleSetVersion", .str "2.0.0"),
    ("heights", .obj [("mainnet", .num (some 100))])])]

def lagging : Setting where
  js := ⟨some, fun _ => ""⟩
  coinTicker := "BTC"
  network := "mainnet"
  dbType := .indexer
  manifests := [("release-manifest.json", .parsed majorTrain)]

/-- A payload of one block under a header. -/
def oneBlock (header block : Nat) : Payload :=
  ⟨some (.num (some header)), some ⟨[block], []⟩⟩

theorem lagging_required : lagging.required =
    .ok (some (.ruleSet "2.0.0" [("mainnet", .num (some 100))] none)) := by
  rfl

theorem lagging_unmet : lagging.Unmet := by
  unfold Setting.Unmet
  rw [lagging_required]
  decide

/-- The catch-up and the live path both take the block of the boundary under a header below it. -/
theorem row_across_boundary :
    lagging.Unmet ∧ lagging.activationHeight = some 100 ∧
    100 ∈ (lagging.step ⟨[98], false⟩ (.catchUp (oneBlock 99 100) ⟨false, true⟩)).blocks ∧
    100 ∈ (lagging.step ⟨[98], false⟩ (.live (oneBlock 99 100) ⟨false, true⟩)).blocks := by
  refine ⟨lagging_unmet, ?_, ?_, ?_⟩
  · rfl
  · decide +kernel
  · decide +kernel

/-- An honest catch-up to the block below the boundary. -/
theorem lagging_stops_below :
    99 ∈ (lagging.step ⟨[98], false⟩ (.catchUp (oneBlock 99 99) ⟨false, true⟩)).blocks ∧
    ∀ b ∈ (lagging.step ⟨[98], false⟩ (.catchUp (oneBlock 99 99) ⟨false, true⟩)).blocks,
      (b : ℚ) < 100 := by
  have hcovers : lagging.HeaderCovers 100 ⟨[98], false⟩ (.catchUp (oneBlock 99 99) ⟨false, true⟩) := by
    intro clock _ _ b hb
    obtain rfl : b = 99 := List.mem_singleton.mp hb
    decide +kernel
  refine ⟨by decide +kernel, ?_⟩
  exact (train_boundary_kept lagging lagging_unmet).1 100 rfl ⟨[98], false⟩ _
    (.tail .refl hcovers rfl) (by decide +kernel)

end XChainSync.Train
