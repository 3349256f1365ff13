import XChainSync.Client.Events

/-!
# The cross-source block quorum

`recordPendingBlockHash`, `tallyPendingBlockHashes`, `acceptBlockQuorum`,
`rejectBlockWithoutQuorum`, `handleBlockQuorum` and the timer callback of `armBlockQuorumTimer`
(src/client/sync.js), with the strikes and evictions they cause. The reports of one height are a
partial function of the source index; the source's `Object.keys` order is the index order.
-/

namespace XChainSync.Client
set_option autoImplicit false

/-- The reports held for one height. The source keeps the four hashes next to the event they
were copied from, so the event alone is kept here. -/
abbrev Reports := SourceIndex → Option BlockEvent

/-- The vote state of a client: `_evictedSources`, `_sourceStrikes`, `pendingHashes`,
`_applyTimers` (with the event each timer closes over) and `_strictConfirmPending`. -/
structure Votes where
  evicted : List SourceIndex
  strikes : SourceIndex → List Int
  pendingHashes : Int → Reports
  applyTimers : Int → Option BlockEvent
  strictConfirmPending : List Int

def Votes.init : Votes := ⟨[], fun _ => [], fun _ _ => none, fun _ => none, []⟩

/-- Comparison key of the ledger, actions and contract hashes. -/
def baseTupleKey (h : BlockEvent) : String :=
  h.ledger_hash.text ++ "|" ++ h.actions_hash.text ++ "|" ++ h.contract_hash.text

/-- Comparison key of the whole tuple. -/
def hashTupleKey (h : BlockEvent) : String :=
  baseTupleKey h ++ "|" ++ (if h.state_hash.nullish then "null" else h.state_hash.text)

/-- A null state_hash joins the one state_hash its base tuple carries. -/
def voteKey (h : BlockEvent) (baseStates : String → List JsVal) : String :=
  match h.state_hash.nullish, baseStates (baseTupleKey h) with
  | true, [state] => baseTupleKey h ++ "|" ++ state.text
  | _, _ => hashTupleKey h

namespace Votes

def isEvicted (v : Votes) (i : SourceIndex) : Bool := v.evicted.contains i

def activeSourceIndices (cfg : Config) (v : Votes) : List SourceIndex :=
  (List.range cfg.sources).filter fun i => !v.isEvicted i

def activeSourceCount (cfg : Config) (v : Votes) : Nat := (v.activeSourceIndices cfg).length

/-- `effectiveQuorum()`, clamped to the active sources. -/
def effectiveQuorum (cfg : Config) (v : Votes) : Nat :=
  min cfg.sourceQuorum (max 1 (v.activeSourceCount cfg))

theorem isEvicted_congr {v v' : Votes} (h : v'.evicted = v.evicted) (i : SourceIndex) :
    v'.isEvicted i = v.isEvicted i := by
  simp only [isEvicted, h]

/-- Quorums depend on the evicted sources alone. -/
theorem effectiveQuorum_congr {cfg : Config} {v v' : Votes} (h : v'.evicted = v.evicted) :
    v'.effectiveQuorum cfg = v.effectiveQuorum cfg := by
  simp only [effectiveQuorum, activeSourceCount, activeSourceIndices, isEvicted_congr h]

def sourceQuorumActive (cfg : Config) (v : Votes) : Bool :=
  cfg.dbType = .indexer && cfg.VERIFY_HASHES && 1 < v.activeSourceCount cfg

def hasPending (cfg : Config) (v : Votes) (height : Int) : Bool :=
  (List.range cfg.sources).any fun i => (v.pendingHashes height i).isSome

/-! ### Tally -/

/-- `evictSource`: never below two active sources. -/
def evictSource (cfg : Config) (v : Votes) (i : SourceIndex) : Votes :=
  if v.isEvicted i then v
  else if v.activeSourceCount cfg - 1 < 2 then v
  else { v with
    evicted := v.evicted ++ [i]
    strikes := fun j => if j = i then [] else v.strikes j }

/-- `strikeSource`: idempotent against the last strike, pruned to the sliding window. -/
def strikeSource (cfg : Config) (v : Votes) (i : SourceIndex) (blockIndex : Int) : Votes :=
  if v.isEvicted i then v
  else
    let old := v.strikes i
    let pushed := if old.getLast? = some blockIndex then old else old ++ [blockIndex]
    let strikes := pushed.filter fun b => blockIndex - cfg.sourceStrikeWindow < b
    let v := { v with strikes := fun j => if j = i then strikes else v.strikes j }
    if cfg.sourceEvictThreshold ≤ strikes.length then v.evictSource cfg i else v

/-- `tallyPendingBlockHashes`: the active reporters and the non-null state hashes reported
beside each base tuple. -/
structure Tally where
  active : List SourceIndex
  baseStates : String → List JsVal

def tally (cfg : Config) (v : Votes) (pending : Reports) : Tally :=
  let active := (List.range cfg.sources).filter fun i => (pending i).isSome && !v.isEvicted i
  { active
    baseStates := fun base =>
      (active.filterMap fun i => (pending i).bind fun r =>
        if baseTupleKey r = base ∧ r.state_hash.nullish = false then some r.state_hash
        else none).dedup }

/-- The vote key of source `i`'s report in a tally. -/
def Tally.key (t : Tally) (pending : Reports) (i : SourceIndex) : Option String :=
  (pending i).map fun r => voteKey r t.baseStates

/-- The members of one vote group. -/
def Tally.group (t : Tally) (pending : Reports) (key : String) : List SourceIndex :=
  t.active.filter fun i => t.key pending i = some key

/-- The keys of the groups, one for each. -/
def Tally.keys (t : Tally) (pending : Reports) : List String :=
  (t.active.filterMap (t.key pending)).dedup

/-- Keys of null reports beside a real state_hash split. -/
def Tally.abstain (t : Tally) (pending : Reports) (key : String) : Bool :=
  t.active.any fun i => match pending i with
    | none => false
    | some r => voteKey r t.baseStates = key && r.state_hash.nullish &&
        1 < (t.baseStates (baseTupleKey r)).length

/-- The payload to apply for an accepted group: the given event, or the first member's that
carries a state_hash when it carries none. -/
def checkableGroupEvent (pending : Reports) (members : List SourceIndex) (event : BlockEvent) :
    BlockEvent :=
  if event.state_hash.nullish then
    ((members.filterMap pending).find? fun r => !r.state_hash.nullish).getD event
  else event

/-! ### Arrivals -/

def recordPendingBlockHash (v : Votes) (event : BlockEvent) (i : SourceIndex) : Votes :=
  { v with pendingHashes := fun h j =>
      if h = event.block_index ∧ j = i then some event else v.pendingHashes h j }

/-- Drop the reports of a height. -/
def dropPending (v : Votes) (height : Int) : Votes :=
  { v with pendingHashes := fun h => if h = height then fun _ => none else v.pendingHashes h }

/-- Drop a height's reports, strict marker and timer. -/
def settle (v : Votes) (height : Int) : Votes :=
  { v.dropPending height with
    applyTimers := fun h => if h = height then none else v.applyTimers h
    strictConfirmPending := v.strictConfirmPending.filter (· ≠ height) }

/-- `acceptBlockQuorum`: strike every reported dissenter, then clear the height. -/
def acceptBlockQuorum (cfg : Config) (v : Votes) (blockIndex : Int) (pending : Reports)
    (currentKey : String) (t : Tally) : Votes :=
  let reported := (List.range cfg.sources).filter fun i => (pending i).isSome
  let struck := reported.foldl (fun v i =>
    match t.key pending i with
    | none => v
    | some key =>
        if v.isEvicted i then v
        else if key ≠ currentKey && !t.abstain pending key then v.strikeSource cfg i blockIndex
        else v) v
  struck.settle blockIndex

/-- `rejectBlockWithoutQuorum`, less the halt it records under HALT_ON_DIVERGENCE. -/
def rejectBlockWithoutQuorum (cfg : Config) (v : Votes) (blockIndex : Int) : Votes :=
  let v := v.settle blockIndex
  if !cfg.HALT_ON_DIVERGENCE && cfg.HASH_CONFIRM_STRICT then
    { v with strictConfirmPending := v.strictConfirmPending ++ [blockIndex] }
  else v

def armBlockQuorumTimer (v : Votes) (event : BlockEvent) : Votes :=
  if (v.applyTimers event.block_index).isSome then v
  else { v with applyTimers := fun h =>
    if h = event.block_index then some event else v.applyTimers h }

/-- What `handleBlock` does next with an arrival. -/
inductive QuorumAction where
  /-- No quorum needed: apply the arrival itself. -/
  | direct
  /-- A delivery of an evicted source. -/
  | ignored
  /-- Quorum reached: apply this event. -/
  | accepted (event : BlockEvent)
  /-- Every active source has reported and no group reached quorum. -/
  | rejected
  /-- More reports can still make a quorum. -/
  | waiting
  deriving DecidableEq

def handleBlockQuorum (cfg : Config) (v : Votes) (event : BlockEvent) (i : SourceIndex) :
    Votes × QuorumAction :=
  if !v.sourceQuorumActive cfg then (v, .direct)
  else if v.isEvicted i then (v, .ignored)
  else
    let v := v.recordPendingBlockHash event i
    let pending := v.pendingHashes event.block_index
    let t := v.tally cfg pending
    let currentKey := voteKey event t.baseStates
    let currentGroup := t.group pending currentKey
    if !t.abstain pending currentKey && v.effectiveQuorum cfg ≤ currentGroup.length then
      (v.acceptBlockQuorum cfg event.block_index pending currentKey t,
        .accepted (checkableGroupEvent pending currentGroup event))
    else if v.activeSourceCount cfg ≤ t.active.length then
      (v.rejectBlockWithoutQuorum cfg event.block_index, .rejected)
    else (v.armBlockQuorumTimer event, .waiting)

/-- What the quorum timer of a height does when it fires. -/
inductive TimeoutAction where
  /-- Another path applied the height or cleared its reports. -/
  | nothing
  /-- HASH_CONFIRM_STRICT: the height now blocks single-source catch-up. -/
  | refused
  /-- Conflicting reports: rejected as a split. -/
  | rejected
  /-- The held report is no longer an active source's. -/
  | dropped
  /-- The uncontested report is applied, and its height dropped afterwards. -/
  | apply (event : BlockEvent)
  deriving DecidableEq

/-- The timer callback of `armBlockQuorumTimer`, up to the apply it may start. -/
def blockQuorumTimeout (cfg : Config) (v : Votes) (lastAppliedBlock : Option Int)
    (event : BlockEvent) : Votes × TimeoutAction :=
  let height := event.block_index
  let v := { v with applyTimers := fun h => if h = height then none else v.applyTimers h }
  if v.hasPending cfg height && lastAppliedBlock.getD 0 < height then
    if cfg.HASH_CONFIRM_STRICT then
      ({ v with strictConfirmPending := v.strictConfirmPending.filter (· ≠ height) ++ [height] },
        .refused)
    else
      let pending := v.pendingHashes height
      let t := v.tally cfg pending
      let heldKey := voteKey event t.baseStates
      if 1 < (t.keys pending).length then (v.rejectBlockWithoutQuorum cfg height, .rejected)
      else if heldKey ∉ t.keys pending then (v.dropPending height, .dropped)
      else (v, .apply (checkableGroupEvent pending (t.group pending heldKey) event))
  else (v, .nothing)

/-- `clearAppliedBlockWork`. -/
def clearAppliedBlockWork (v : Votes) (lastAppliedBlock : Int) : Votes :=
  { v with
    pendingHashes := fun h => if h ≤ lastAppliedBlock then fun _ => none else v.pendingHashes h
    applyTimers := fun h => if h ≤ lastAppliedBlock then none else v.applyTimers h }

/-- The block-vote half of `stopDivergenceApply`. -/
def stopBlockVotes (v : Votes) : Votes :=
  { v with
    pendingHashes := fun _ _ => none
    applyTimers := fun _ => none
    strictConfirmPending := [] }

/-! ### Nothing held -/

/-- No report is held and no height waits for its confirmation. -/
structure Clear (v : Votes) : Prop where
  pendingHashes : ∀ h i, v.pendingHashes h i = none
  strictConfirmPending : v.strictConfirmPending = []

variable {cfg : Config} {v : Votes}

theorem Clear.dropPending (hv : v.Clear) (height : Int) : (v.dropPending height).Clear where
  pendingHashes := by
    intro h i
    simp only [Votes.dropPending]
    split
    · rfl
    · exact hv.pendingHashes h i
  strictConfirmPending := hv.strictConfirmPending

theorem Clear.clearAppliedBlockWork (hv : v.Clear) (lastAppliedBlock : Int) :
    (v.clearAppliedBlockWork lastAppliedBlock).Clear where
  pendingHashes := by
    intro h i
    simp only [Votes.clearAppliedBlockWork]
    split
    · rfl
    · exact hv.pendingHashes h i
  strictConfirmPending := hv.strictConfirmPending

theorem clear_init : init.Clear := ⟨fun _ _ => rfl, rfl⟩

theorem clear_stopBlockVotes (v : Votes) : v.stopBlockVotes.Clear := ⟨fun _ _ => rfl, rfl⟩

/-- A timer finds nothing to confirm. -/
theorem Clear.blockQuorumTimeout (hv : v.Clear) (lastAppliedBlock : Option Int)
    (event : BlockEvent) : (v.blockQuorumTimeout cfg lastAppliedBlock event).1.Clear := by
  have hnone : hasPending cfg { v with applyTimers := fun h =>
      if h = event.block_index then none else v.applyTimers h } event.block_index = false := by
    simp [hasPending, hv.pendingHashes]
  simp only [Votes.blockQuorumTimeout, hnone, Bool.false_and, Bool.false_eq_true, if_false]
  exact ⟨hv.pendingHashes, hv.strictConfirmPending⟩

/-- An arrival that needs no quorum, or of an evicted source, is not recorded. -/
theorem handleBlockQuorum_unrecorded {event : BlockEvent} {i : SourceIndex}
    (h : (v.sourceQuorumActive cfg && !v.isEvicted i) = false) :
    (v.handleBlockQuorum cfg event i).1 = v := by
  unfold handleBlockQuorum
  split
  · rfl
  · rename_i hactive
    split
    · rfl
    · rename_i hevicted
      simp_all

end Votes

end XChainSync.Client
