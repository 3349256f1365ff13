import XChainSync.Checkpoint.RotationFollow
import XChainSync.Library.JsText

/-!
# The anchor cycle

`verifyCheckpointQuorum` on whatever the anchor source serves. A served field may be an object with
an own `toString`, or an array that holds one: converting it to text or to a number throws, and what
no `try` of the cycle catches leaves the cycle.
-/

namespace XChainSync.Checkpoint
open Client (JsVal)
set_option autoImplicit false

/-- The fields of a checkpoint that are converted. -/
inductive Field where
  | chain
  | network
  | block_index
  | block_hash
  | ledger_hash
  | actions_hash
  | contract_hash
  | checkpoint_seq
  | snapshot_block
  | state_root
  | block_merkle_root
  | state_root_version
  | block_merkle_version
  | supersedes_from
  | rules_digest
  | fold_archive
  | validator_signatures
  deriving DecidableEq, Repr

/-- A served checkpoint, with the fields whose conversion throws. A value without members has no
field at all. -/
structure Fetched where
  body : Body
  throws : Field → Bool

/-- An answer of the range source; an element may be null. -/
inductive RangeAnswer where
  | failed (message : String)
  | notArray
  | checkpoints (rows : List (Option Fetched))

abbrev AnchorSource := Nat → JsVal → JsVal → RangeAnswer

namespace Fetched

def convert (c : Fetched) (field : Field) : Except String Unit :=
  if c.throws field then .error "TypeError: Cannot convert object to primitive value" else .ok ()

/-- A checkpoint of our own. -/
def own (body : Body) : Fetched := ⟨body, fun _ => false⟩

end Fetched

section Reads
variable {N : Type} [LinearOrder N] (vf : Verifier N) (r : Replica)

def bindingMismatches (c : Fetched) : Except String (List Mismatch) := do
  if !c.body.chain.nullish then c.convert .chain
  if !c.body.network.nullish then c.convert .network
  return checkpointBindingMismatches vf r c.body

/-- `commitmentActive(cp)`: a network that is a text has the clock parsed. -/
def gateActive (c : Fetched) : Except String Bool := do
  if let .str _ := c.body.network then c.convert .snapshot_block
  return vf.commitmentActive c.body

/-- `commitmentMissing(cp)`. -/
def gateMissing (c : Fetched) : Except String Bool := do
  let _ ← gateActive vf c
  return vf.commitmentMissing c.body

/-- The fields that `canonicalCheckpoint` converts for this checkpoint. -/
def canonicalFields (cp : Body) : List Field :=
  [.chain, .network, .block_index, .block_hash, .ledger_hash, .actions_hash, .contract_hash,
    .checkpoint_seq, .snapshot_block] ++
  (if vf.commitmentActive cp && !cp.state_root.nullish && !cp.block_merkle_root.nullish &&
      !cp.state_root_version.nullish && !cp.block_merkle_version.nullish then
    [.state_root, .state_root_version, .block_merkle_root, .block_merkle_version] else []) ++
  (if vf.gates.supersede cp.snapshot_block cp.network && Verifier.hasSupersedeFields cp then
    [.supersedes_from, .rules_digest] else []) ++
  (if cp.fold_archive.isSome then [.fold_archive] else [])

/-- `tryCanonicalCheckpoint(cp)`: null where it throws. -/
def tryCanonical (c : Fetched) : Option String :=
  if (canonicalFields vf c.body).any c.throws then none else vf.tryCanonicalCheckpoint c.body

/-- `verifyServedCheckpoint(cp, validators)`: null where it throws. -/
def verifyServed (c : Fetched) (vset : ValidatorSet) : Option Verifier.Verification :=
  if (tryCanonical vf c).isSome && c.throws .validator_signatures then none
  else some (vf.verifyCheckpoint c.body vset)

/-! ### Following rotation -/

/-- The conversions of `supersedingSeqFor(step, chain)`. -/
def supersedeReads (chain : List Fetched) (step : Fetched) : Except String Unit := do
  step.convert .checkpoint_seq
  step.convert .block_index
  chain.forM fun candidate => do
    if !candidate.body.supersedes_from.nullish then
      candidate.convert .checkpoint_seq
      if !vf.js.le candidate.body.checkpoint_seq step.body.checkpoint_seq then
        candidate.convert .supersedes_from

/-- `bindingSteps(chain)`; an element that is null throws. -/
def servedSteps (rows : List (Option Fetched)) : Except String (List Fetched) :=
  match rows.mapM id with
  | none => .error "TypeError: Cannot read properties of null"
  | some chain => do
    chain.forM (supersedeReads vf chain)
    return chain.filter fun step => !isNonBindingStep vf.js step.body (chain.map Fetched.body)

/-- `attestRotationStep(next, trusted)` on a served step. -/
def attestServed (next trusted : Fetched) : Except String (Option Verdict) := do
  let binding ← bindingMismatches vf r next
  if !binding.isEmpty then
    return some (.divergence binding (some "checkpoint-binding-mismatch"))
  let height := next.body.block_index.text
  if vf.js.lt r.lastAppliedBlock next.body.block_index then
    return some (.wait ("range checkpoint " ++ height ++ " is past the replica tip"))
  let rootless := some (Verdict.wait ("pre-commitment checkpoint " ++ height ++
    " in range (roots not signed)"))
  if next.body.state_root.nullish then return rootless
  if !(← gateActive vf next) then return rootless
  if (tryCanonical vf next).isNone then
    return some (.wait ("range checkpoint " ++ height ++ " has a malformed signed form"))
  let snapshot := next.body.snapshot_block
  if !isNumber snapshot || vf.js.lt trusted.body.block_index snapshot then
    return some (.wait ("signer set at snapshot " ++ snapshot.text ++ " not yet attested"))
  let vset := oraclePublishSetAt r (buriedSnapshotBlock vf r snapshot)
  if vset.truncated then
    return some (.wait ("oracle_publish signer set at snapshot " ++ snapshot.text ++
      " is truncated (federation exceeds the stake-weight cap); step not attested"))
  match verifyServed vf next vset with
  | none => return some (.wait ("malformed checkpoint " ++ height ++ " in range"))
  | some verification =>
    if !verification.valid then
      return some (.divergence [⟨"checkpoint_quorum", "quorum-signed (federation)",
        "INVALID at block " ++ height ++ " under the authoritative oracle_publish set at snapshot " ++
          snapshot.text⟩] none)
    match checkpointRootsMatchLocal vf r next.body with
    | .missing => return some (.wait ("step height " ++ height ++ " not recomputed locally yet"))
    | .mismatch mismatches => return some (.divergence mismatches none)
    | .isMatch => return none

/-- A page's steps in order: the verdict to stop on, or the new frontier and whether it moved. -/
def walkServed (cp : Fetched) : List Fetched → Fetched → Bool →
    Except String (Except Verdict (Fetched × Bool))
  | [], trusted, advanced => .ok (.ok (trusted, advanced))
  | next :: steps, trusted, advanced =>
    if !isNumber next.body.block_index ||
        vf.js.le next.body.block_index trusted.body.block_index then
      walkServed cp steps trusted advanced
    else do
      match ← attestServed vf r next trusted with
      | some stop => return .error stop
      | none =>
        if vf.js.le cp.body.block_index next.body.block_index then return .ok (next, true)
        else walkServed cp steps next true

def compareAttested (cp trusted : Fetched) : Verdict :=
  if trusted.body.block_index ≠ cp.body.block_index then
    .wait ("walk ended at block " ++ trusted.body.block_index.text ++ ", short of the checkpoint")
  else if vf.lowerText trusted.body.state_root ≠ vf.lowerText cp.body.state_root ||
      (tryCanonical vf trusted).isNone || (tryCanonical vf cp).isNone ||
      tryCanonical vf trusted ≠ tryCanonical vf cp then
    .wait ("served checkpoint (seq " ++ cp.body.checkpoint_seq.text ++
      ") differs from the attested range step at block " ++ trusted.body.block_index.text ++
      " (seq " ++ trusted.body.checkpoint_seq.text ++ ") on a signed field")
  else .ok trusted.body

/-- The request loop, with the requests it may still make. -/
def followServedLoop (source : AnchorSource) (cp : Fetched) : Nat → Nat → Fetched → JsVal →
    Except String Verdict
  | 0, _, trusted, _ =>
    if vf.js.lt trusted.body.block_index cp.body.block_index then
      .ok (.wait "runaway guard tripped")
    else .ok (compareAttested vf cp trusted)
  | fuel + 1, request, trusted, fromBlock =>
    if !vf.js.lt trusted.body.block_index cp.body.block_index then
      .ok (compareAttested vf cp trusted)
    else match source request fromBlock cp.body.block_index with
      | .failed message => .ok (.wait ("range fetch failed (" ++ message ++ ")"))
      | .notArray => .ok (.wait ("empty checkpoint range from " ++ fromBlock.text))
      | .checkpoints rows =>
        if rows.isEmpty then .ok (.wait ("empty checkpoint range from " ++ fromBlock.text))
        else do
          let steps ← servedSteps vf rows
          match ← walkServed vf r cp steps trusted false with
          | .error stop => return stop
          | .ok (_, false) =>
            return .wait ("range had nothing usable past block " ++ trusted.body.block_index.text)
          | .ok (frontier, true) =>
            followServedLoop source cp fuel (request + 1) frontier
              (vf.js.plusOne frontier.body.block_index)

def followServed (source : AnchorSource) (cp : Fetched) (seed : Body) : Except String Verdict :=
  if seed.state_root.nullish || !isNumber seed.block_index then
    .ok (.wait "pinned seed checkpoint is malformed")
  else if vf.js.le cp.body.block_index seed.block_index then
    .ok (.wait "checkpoint is not past the pinned seed")
  else match checkpointRootsMatchLocal vf r seed with
    | .missing => .ok (.wait ("seed height " ++ seed.block_index.text ++
        " not recomputed locally yet"))
    | .mismatch mismatches => .ok (.divergence mismatches none)
    | .isMatch =>
      followServedLoop vf r source cp 10000 0 (.own seed) (vf.js.plusOne seed.block_index)

end Reads

/-! ### One cycle -/

/-- The largest safe integer. -/
def MAX_SAFE_INTEGER : Nat := 9007199254740991

/-- A text of the form `/^(0|[1-9][0-9]*)$/` whose number is a safe integer. -/
def safeNatural (t : String) : Option Nat :=
  let cs := t.toList
  let n := JsText.digits 10 cs
  if cs.isEmpty || !cs.all JsText.isDigit || (cs.head? = some '0' && cs.length ≠ 1) ||
      MAX_SAFE_INTEGER < n then none
  else some n

/-- `signedCheckpointSeq(value)` of a value that converts. -/
def signedCheckpointSeq (v : JsVal) : Option Nat := safeNatural v.text

/-- The value of a number that is a safe integer and not negative. -/
def safeHeight : JsVal → Option Nat
  | .num t => safeNatural t
  | _ => none

/-- The two marks, in memory or in sync_state. -/
structure Marks where
  seq : Option Nat
  block : Option Nat
  deriving DecidableEq, Repr

/-- What setSyncState does: it writes, it swallows a failed write, or it reports one. -/
inductive WriteResult where
  | written
  | swallowed
  | refused
  deriving DecidableEq, Repr

structure AnchorConfig (N : Type) where
  validators : ValidatorSet
  hasSource : Bool
  seed : Option Body
  CHECKPOINT_FRESHNESS_STRICT : Bool
  CHECKPOINT_FRESHNESS_BLOCKS : N

/-- A client as the anchor sees it. -/
structure Anchored where
  replica : Replica
  halted : Bool
  memory : Marks
  durable : Marks

/-- How a cycle ends. A verified one names the checkpoint it records. -/
inductive CycleEnd where
  | verified (attested : Body)
  | halted (reason : String)
  | ahead
  | unanchored
  deriving DecidableEq, Repr

section Cycle
variable {N : Type} [LinearOrder N] [Sub N] [NatCast N] (vf : Verifier N) (cfg : AnchorConfig N)

/-- `lastAppliedBlock - height > CHECKPOINT_FRESHNESS_BLOCKS`. -/
def trailsBy (tip height : Option N) : Bool :=
  match tip, height with
  | some x, some y => cfg.CHECKPOINT_FRESHNESS_BLOCKS < x - y
  | _, _ => false

/-- The tip is further from the checkpoint than the bound. -/
def trails (r : Replica) (height : JsVal) : Bool :=
  trailsBy cfg (vf.js.number r.lastAppliedBlock) (vf.js.number height)

/-- The tip is further from the last verified checkpoint than the bound. -/
def overdue (r : Replica) (last : Nat) : Bool :=
  trailsBy cfg (vf.js.number r.lastAppliedBlock) (some (last : N))

def checkpointSkipsAnchoring (s : Anchored) (cp : Fetched) : Except String Bool := do
  if ← gateMissing vf cp then
    -- the warning writes out what was served
    cp.convert .block_index
    cp.convert .checkpoint_seq
    cp.convert .snapshot_block
    return true
  if cp.body.state_root.nullish then return true
  if !(← gateActive vf cp) then return true
  if !isNumber cp.body.block_index then return true
  if (tryCanonical vf cp).isNone then
    cp.convert .checkpoint_seq
    return true
  match signedCheckpointSeq cp.body.checkpoint_seq, s.memory.seq with
  | some seq, some mark => return seq < mark
  | _, _ => return false

/-- `anchorByRotation(cp, source)`. -/
def anchorByRotation (s : Anchored) (source : AnchorSource) (cp : Fetched) :
    Except String CycleEnd :=
  match (if s.replica.coinTicker = "BTC" then cfg.seed else none) with
  | none => .ok (.halted "checkpoint-quorum-divergence")
  | some seed => do
    match ← followServed vf s.replica source cp seed with
    | .ok attested => return .verified attested
    | .divergence _ haltReason => return .halted (haltReason.getD "checkpoint-quorum-divergence")
    | .wait _ => return .unanchored

/-- `judgeCheckpointPastTip(cp, validators)`. -/
def judgeCheckpointPastTip (cp : Fetched) : CycleEnd :=
  match verifyServed vf cp cfg.validators with
  | none => .unanchored
  | some q => if q.valid then .ahead else .unanchored

def anchorLatestCheckpoint (s : Anchored) (source : AnchorSource) :
    Option Fetched → Except String CycleEnd
  | none => .ok .unanchored
  | some cp => do
    let binding ← bindingMismatches vf s.replica cp
    if !binding.isEmpty then return .halted "checkpoint-binding-mismatch"
    if ← checkpointSkipsAnchoring vf s cp then return .unanchored
    if cfg.CHECKPOINT_FRESHNESS_STRICT && s.memory.block.isSome &&
        trails vf cfg s.replica cp.body.block_index then
      return .halted "checkpoint-freshness-stale"
    if vf.js.lt s.replica.lastAppliedBlock cp.body.block_index then
      return judgeCheckpointPastTip vf cfg cp
    match verifyServed vf cp cfg.validators with
    | none => return .unanchored
    | some q =>
      if !q.valid then anchorByRotation vf cfg s source cp
      else match checkpointRootsMatchLocal vf s.replica cp.body with
        | .missing => return .unanchored
        | .mismatch _ => return .halted "checkpoint-quorum-divergence"
        | .isMatch => return .verified cp.body

/-- The two marks after `recordVerifiedCheckpointSeq(seq)`. -/
def recordVerifiedCheckpointSeq (s : Anchored) (seq : JsVal) (write : WriteResult) : Anchored :=
  match signedCheckpointSeq seq with
  | none => s
  | some signedSeq =>
    if s.memory.seq.any (signedSeq < ·) then s
    else
      let mark := some (max signedSeq (s.memory.seq.getD signedSeq))
      { s with
        memory := { s.memory with seq := mark }
        durable := if write = .written then { s.durable with seq := mark } else s.durable }

/-- The two marks after `recordVerifiedCheckpointBlock(blockIndex)`. -/
def recordVerifiedCheckpointBlock (s : Anchored) (blockIndex : JsVal) (write : WriteResult) :
    Anchored :=
  match safeHeight blockIndex with
  | none => s
  | some height =>
    if s.memory.block.any (height ≤ ·) then s
    else match write with
      | .refused => s
      | .swallowed => { s with memory := { s.memory with block := some height } }
      | .written =>
        { s with
          memory := { s.memory with block := some height }
          durable := { s.durable with block := some height } }

/-- `enforceVerifiedAnchorFreshness()`. -/
def enforceVerifiedAnchorFreshness (s : Anchored) : Anchored :=
  match s.memory.block with
  | none => s
  | some last =>
    if cfg.CHECKPOINT_FRESHNESS_STRICT && overdue vf cfg s.replica last then
      { s with halted := true }
    else s

/-- `verifyCheckpointQuorum()`: what the cycle ends with, none where it did not run, and an exception
where one leaves it. -/
def verifyCheckpointQuorum (s : Anchored) (latest : Option Fetched) (source : AnchorSource)
    (seqWrite blockWrite : WriteResult) : Anchored × Option (Except String CycleEnd) :=
  if s.halted || cfg.validators.entries.isEmpty || !cfg.hasSource then (s, none)
  else
    let ends := anchorLatestCheckpoint vf cfg s source latest
    (match ends with
      | .ok (.verified attested) =>
        recordVerifiedCheckpointBlock
          (recordVerifiedCheckpointSeq s attested.checkpoint_seq seqWrite) attested.block_index
          blockWrite
      | .ok (.halted _) => { s with halted := true }
      | .ok .ahead => s
      | .ok .unanchored => enforceVerifiedAnchorFreshness vf cfg s
      | .error _ => s, some ends)

end Cycle

end XChainSync.Checkpoint
