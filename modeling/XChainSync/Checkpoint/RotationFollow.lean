import XChainSync.Checkpoint.Verifier

/-!
# Following the checkpoint chain across validator rotation

`followCheckpointForward` rolls the pinned seed forward over checkpoints that an untrusted source
serves in pages. The replica's own rows stand still during the call; what the source answers to
each request is arbitrary.
-/

namespace XChainSync.Checkpoint
open Client (JsVal)
set_option autoImplicit false

structure StakeRow where
  pubkey : Option String
  weight : Option String
  source : String

structure RootRow where
  state_root : JsVal
  block_merkle_root : JsVal

/-- What the follow reads of the replica: its names, its tip, its recomputed roots and its stake
weights as of a height, with their overflow flag. -/
structure Replica where
  coinTicker : String
  network : String
  /-- `coinTicker(x)` in upper case. -/
  tickerOf : String → String
  lastAppliedBlock : JsVal
  getStateTreeRootByBlock : JsVal → Option RootRow
  getStakeWeightsByCapabilityAsOf : JsVal → List StakeRow × Bool
  /-- The canonical amount is zero. -/
  isZeroAmount : String → Bool

structure Mismatch where
  field : String
  a : String
  b : String
  deriving DecidableEq, Repr

inductive Verdict where
  | ok (attested : Body)
  | wait (reason : String)
  | divergence (mismatches : List Mismatch) (haltReason : Option String)
  deriving DecidableEq, Repr

inductive RootCheck where
  | missing
  | mismatch (mismatches : List Mismatch)
  | isMatch
  deriving DecidableEq, Repr

/-- An answer of the range source. An element may be null. -/
inductive RangeResponse where
  | failed (message : String)
  | notArray
  | checkpoints (rows : List (Option Body))

/-- `resp.data.checkpoints` of the n-th request, by its `from` and `to`. -/
abbrev RangeSource := Nat → JsVal → JsVal → RangeResponse

section Supersede
variable {N : Type} [LinearOrder N] (js : Js N)

/-- One candidate of the loop: the lowest superseding seq so far is kept or replaced. -/
def nextLowest (step : Body) (lowest : Option (Option N)) (candidate : Body) : Option (Option N) :=
  let candidateSeq := js.number candidate.checkpoint_seq
  if candidate.supersedes_from.nullish then lowest
  else if numLe candidateSeq (js.number step.checkpoint_seq) ||
      numLt (js.number step.block_index) (js.number candidate.supersedes_from) then lowest
  else match lowest with
    | none => some candidateSeq
    | some least => if numLt candidateSeq least then some candidateSeq else lowest

/-- The lowest seq of a row that supersedes `step`: none is null, and the seq itself may be NaN. -/
def supersedingSeqFor (step : Body) (chain : List Body) : Option (Option N) :=
  chain.foldl (nextLowest js step) none

def isNonBindingStep (step : Body) (chain : List Body) : Bool :=
  (supersedingSeqFor js step chain).isSome

def bindingSteps (chain : List Body) : List Body :=
  chain.filter fun step => !isNonBindingStep js step chain

end Supersede

section Follow
variable {N : Type} [LinearOrder N] (vf : Verifier N) (r : Replica)

def checkpointRootsMatchLocal (c : Body) : RootCheck :=
  match r.getStateTreeRootByBlock c.block_index with
  | none => .missing
  | some row =>
    let stateMismatch := if vf.lowerText row.state_root ≠ vf.lowerText c.state_root then
      [⟨"state_root", c.state_root.text, row.state_root.text⟩] else []
    if stateMismatch.isEmpty && !c.block_merkle_root.nullish && row.block_merkle_root.nullish then
      .missing
    else
      let mismatches := stateMismatch ++
        if !c.block_merkle_root.nullish && !row.block_merkle_root.nullish &&
          vf.lowerText row.block_merkle_root ≠ vf.lowerText c.block_merkle_root then
          [⟨"block_merkle_root", c.block_merkle_root.text, row.block_merkle_root.text⟩] else []
      if mismatches.isEmpty then .isMatch else .mismatch mismatches

/-- The oracle_publish set at a height, from the replica's own stake rows. -/
def oraclePublishSetAt (snapshotBlock : JsVal) : ValidatorSet :=
  let rows := r.getStakeWeightsByCapabilityAsOf snapshotBlock
  ⟨rows.1.filterMap fun row => row.pubkey.bind fun pubkey =>
    if r.isZeroAmount (row.weight.getD "0") then none
    else some ⟨pubkey, row.weight.getD "null", row.source⟩, rows.2⟩

def buriedSnapshotBlock (snapshotBlock : JsVal) : JsVal :=
  if vf.gates.snapshotBurial snapshotBlock r.network then vf.js.bury snapshotBlock
  else snapshotBlock

def checkpointBindingMismatches (c : Body) : List Mismatch :=
  (if !c.chain.nullish && r.tickerOf c.chain.text ≠ r.coinTicker then
    [⟨"checkpoint_chain", c.chain.text, r.coinTicker⟩] else []) ++
  (if !c.network.nullish && vf.lowerText c.network ≠ vf.js.lower r.network then
    [⟨"checkpoint_network", c.network.text, r.network⟩] else [])

/-- Returns none when `next` is attested and extends the frontier, else the verdict to stop on. -/
def attestRotationStep (next trusted : Body) : Option Verdict :=
  if !(checkpointBindingMismatches vf r next).isEmpty then
    some (.divergence (checkpointBindingMismatches vf r next) (some "checkpoint-binding-mismatch"))
  else if vf.js.lt r.lastAppliedBlock next.block_index then
    some (.wait ("range checkpoint " ++ next.block_index.text ++ " is past the replica tip"))
  else if next.state_root.nullish || !vf.commitmentActive next then
    some (.wait ("pre-commitment checkpoint " ++ next.block_index.text ++
      " in range (roots not signed)"))
  else if (vf.tryCanonicalCheckpoint next).isNone then
    some (.wait ("range checkpoint " ++ next.block_index.text ++ " has a malformed signed form"))
  else if !isNumber next.snapshot_block || vf.js.lt trusted.block_index next.snapshot_block then
    some (.wait ("signer set at snapshot " ++ next.snapshot_block.text ++ " not yet attested"))
  else
    let vset := oraclePublishSetAt r (buriedSnapshotBlock vf r next.snapshot_block)
    if vset.truncated then
      some (.wait ("oracle_publish signer set at snapshot " ++ next.snapshot_block.text ++
        " is truncated (federation exceeds the stake-weight cap); step not attested"))
    else if !(vf.verifyCheckpoint next vset).valid then
      some (.divergence [⟨"checkpoint_quorum", "quorum-signed (federation)",
        "INVALID at block " ++ next.block_index.text ++
          " under the authoritative oracle_publish set at snapshot " ++
          next.snapshot_block.text⟩] none)
    else match checkpointRootsMatchLocal vf r next with
      | .missing => some (.wait ("step height " ++ next.block_index.text ++
          " not recomputed locally yet"))
      | .mismatch mismatches => some (.divergence mismatches none)
      | .isMatch => none

/-- A page's steps in order: the verdict to stop on, or the new frontier and whether it moved. -/
def walkSteps (cp : Body) : List Body → Body → Bool → Except Verdict (Body × Bool)
  | [], trusted, advanced => .ok (trusted, advanced)
  | next :: steps, trusted, advanced =>
    if !isNumber next.block_index || vf.js.le next.block_index trusted.block_index then
      walkSteps cp steps trusted advanced
    else match attestRotationStep vf r next trusted with
      | some stop => .error stop
      | none =>
        if vf.js.le cp.block_index next.block_index then .ok (next, true)
        else walkSteps cp steps next true

/-- The served checkpoint against the step the walk attested at its height. -/
def compareServed (cp trusted : Body) : Verdict :=
  if trusted.block_index ≠ cp.block_index then
    .wait ("walk ended at block " ++ trusted.block_index.text ++ ", short of the checkpoint")
  else if vf.lowerText trusted.state_root ≠ vf.lowerText cp.state_root ||
      (vf.tryCanonicalCheckpoint trusted).isNone || (vf.tryCanonicalCheckpoint cp).isNone ||
      vf.tryCanonicalCheckpoint trusted ≠ vf.tryCanonicalCheckpoint cp then
    .wait ("served checkpoint (seq " ++ cp.checkpoint_seq.text ++
      ") differs from the attested range step at block " ++ trusted.block_index.text ++
      " (seq " ++ trusted.checkpoint_seq.text ++ ") on a signed field")
  else .ok trusted

/-- The request loop with the requests it may still make; an exception is a null element. -/
def followLoop (source : RangeSource) (cp : Body) : Nat → Nat → Body → JsVal →
    Except String Verdict
  | 0, _, trusted, _ =>
    if vf.js.lt trusted.block_index cp.block_index then .ok (.wait "runaway guard tripped")
    else .ok (compareServed vf cp trusted)
  | fuel + 1, request, trusted, fromBlock =>
    if !vf.js.lt trusted.block_index cp.block_index then .ok (compareServed vf cp trusted)
    else match source request fromBlock cp.block_index with
      | .failed message => .ok (.wait ("range fetch failed (" ++ message ++ ")"))
      | .notArray => .ok (.wait ("empty checkpoint range from " ++ fromBlock.text))
      | .checkpoints rows =>
        if rows.isEmpty then .ok (.wait ("empty checkpoint range from " ++ fromBlock.text))
        else match rows.mapM id with
          | none => .error "TypeError: Cannot read properties of null"
          | some chain =>
            match walkSteps vf r cp (bindingSteps vf.js chain) trusted false with
            | .error stop => .ok stop
            | .ok (_, false) => .ok (.wait ("range had nothing usable past block " ++
                trusted.block_index.text))
            | .ok (trusted, true) =>
              followLoop source cp fuel (request + 1) trusted (vf.js.plusOne trusted.block_index)

def followCheckpointForward (source : RangeSource) (cp : Body) (seed : Option Body) :
    Except String Verdict :=
  if r.coinTicker ≠ "BTC" then .ok (.wait "rotation following is BTC-only")
  else match seed with
    | none => .ok (.wait "pinned seed checkpoint is malformed")
    | some seed =>
      if seed.state_root.nullish || !isNumber seed.block_index then
        .ok (.wait "pinned seed checkpoint is malformed")
      else if vf.js.le cp.block_index seed.block_index then
        .ok (.wait "checkpoint is not past the pinned seed")
      else match checkpointRootsMatchLocal vf r seed with
        | .missing => .ok (.wait ("seed height " ++ seed.block_index.text ++
            " not recomputed locally yet"))
        | .mismatch mismatches => .ok (.divergence mismatches none)
        | .isMatch => followLoop vf r source cp 10000 0 seed (vf.js.plusOne seed.block_index)

end Follow

end XChainSync.Checkpoint
