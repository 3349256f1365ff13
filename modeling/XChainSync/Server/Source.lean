import Mathlib
import XChainSync.Client.Events

/-!
# The source database a poller reads

The source holds its block rows from a first height on without gaps, and an events table in id
order, in which its indexer leaves REORG markers and replay markers. What a block carries besides
its hashes is a parameter.
-/

namespace XChainSync.Server
open Client (DbType)
set_option autoImplicit false

variable {β : Type}

structure Block (β : Type) where
  ledger_hash : Option String
  actions_hash : Option String
  contract_hash : Option String
  /-- The decoder's own block hash. -/
  block_hash : Option String
  body : β
  deriving DecidableEq, Repr

/-- `TransparencyLog.blockIdentity`: the three chained hashes, or null without a ledger_hash. -/
def blockIdentity (row : Block β) : Option String :=
  row.ledger_hash.map fun ledger =>
    ledger ++ "|" ++ row.actions_hash.getD "" ++ "|" ++ row.contract_hash.getD ""

/-- The content identity of a row, by database type. -/
def identity (dbType : DbType) (row : Block β) : Option String :=
  if dbType = .decoder then row.block_hash else blockIdentity row

/-! ### Replay markers -/

/-- A field of a parsed replay marker: an integral number, a string, or anything else. -/
inductive Field where
  | int (n : Int)
  | text (s : String)
  | other
  deriving DecidableEq, Repr

/-- `JSON.parse` of a marker's data: `invalid` stands for text that is not JSON and for JSON that
is no object. -/
inductive ReplayData where
  | invalid
  | object (target replay_to rules_from rules_to state : Field)
  deriving DecidableEq, Repr

inductive ReplayState where
  | pending
  | replaying
  | replayed
  deriving DecidableEq, Repr

structure ReplayMarker where
  target : Int
  replay_to : Int
  rules_from : String
  rules_to : String
  state : ReplayState
  deriving DecidableEq, Repr

/-- `Number.isSafeInteger`. -/
def isSafeInteger (n : Int) : Bool := -(2 ^ 53 - 1) ≤ n && n ≤ 2 ^ 53 - 1

def hexDigits : List Char := "0123456789abcdef".toList

/-- `/^[0-9a-f]{64}$/`, case folded first where the source's pattern has the `i` flag. -/
def isDigest (s : List Char) : Bool := s.length = 64 && s.all (hexDigits.contains ·)

def replayState : String → Option ReplayState
  | "pending" => some .pending
  | "replaying" => some .replaying
  | "replayed" => some .replayed
  | _ => none

def canonicalReplayMarker : ReplayData → Except String ReplayMarker
  | .invalid => .error "replay marker must be an object"
  | .object target replay_to rules_from rules_to state =>
    match target with
    | .int target =>
      if !isSafeInteger target || target < 0 then
        .error "target must be a non-negative safe integer"
      else match replay_to with
        | .int replay_to =>
          if replay_to < target then .error "replay_to must be an integer at or above target"
          else match rules_from with
            | .text rules_from =>
              if !isDigest rules_from.toList then
                .error "rules_from must be a 64-character lowercase hex digest"
              else match rules_to with
                | .text rules_to =>
                  if !isDigest rules_to.toList then
                    .error "rules_to must be a 64-character lowercase hex digest"
                  else match state with
                    | .text state =>
                      match replayState state with
                      | some state => .ok ⟨target, replay_to, rules_from, rules_to, state⟩
                      | none => .error "state is not a replay state"
                    | _ => .error "state is not a replay state"
                | _ => .error "rules_to must be a 64-character lowercase hex digest"
            | _ => .error "rules_from must be a 64-character lowercase hex digest"
        | _ => .error "replay_to must be an integer at or above target"
    | _ => .error "target must be a non-negative safe integer"

structure Rules where
  digest : String
  state : ReplayState
  target : Int
  replay_to : Int

/-- The `retroactive` field of a reorg event. -/
structure Retroactive where
  target : Int
  rules_to : String
  deriving DecidableEq, Repr

def rulesFromMarker (marker : Option ReplayMarker) : Option Rules :=
  marker.map fun m => ⟨m.rules_to, m.state, m.target, m.replay_to⟩

def retroactiveFromRules (rules : Option Rules) : Option Retroactive :=
  rules.bind fun r =>
    if !isDigest (r.digest.toList.map Char.toLower) then none
    else if (r.state ≠ .pending && r.state ≠ .replaying) || !isSafeInteger r.target ||
      r.target < 0 then none
    else some ⟨r.target, String.ofList (r.digest.toList.map Char.toLower)⟩

def retroactiveForkPoint (retro : Option Retroactive) (walkBackForkPoint : Int) : Int :=
  match retro with
  | none => walkBackForkPoint
  | some r => r.target

/-! ### Events and blocks -/

inductive EventData where
  /-- A row with code REORG; its height is none when it is no safe integer from 1 on. -/
  | reorg (block_index : Option Int)
  /-- A row with code CONSENSUS_RETRO_REPLAY. -/
  | retroReplay (data : ReplayData)
  | other
  deriving DecidableEq, Repr

structure EventRow where
  id : Int
  data : EventData
  deriving DecidableEq, Repr

structure Source (β : Type) where
  first : Int
  blocks : List (Block β)
  events : List EventRow
  deriving DecidableEq, Repr

namespace Source

def getLastBlock (s : Source β) : Option Int :=
  if s.blocks = [] then none else some (s.first + s.blocks.length - 1)

def getBlockHashRow (s : Source β) (height : Int) : Option (Block β) :=
  if s.first ≤ height then s.blocks[(height - s.first).toNat]? else none

def sourceBlockHash (dbType : DbType) (s : Source β) (height : Int) : Option String :=
  (s.getBlockHashRow height).bind (identity dbType)

/-- `getMaxRowId('events')`; the rows are in id order. -/
def maxEventId (s : Source β) : Option Int := s.events.getLast?.map (·.id)

/-- `getContentIdWindowRows('events', after, newest)`. -/
def eventWindow (s : Source β) (after newest : Int) : List EventRow :=
  s.events.filter fun row => after < row.id && row.id ≤ newest

/-- `getSourceReplayMarker`: the newest replay marker, which throws when it is malformed. -/
def getSourceReplayMarker (s : Source β) : Except String (Option ReplayMarker) :=
  let markers := s.events.filterMap fun row =>
    match row.data with
    | .retroReplay data => some data
    | _ => none
  match markers.getLast? with
  | none => .ok none
  | some data => (canonicalReplayMarker data).map some

/-- The source commits the next block. -/
def commit (s : Source β) (block : Block β) : Source β := { s with blocks := s.blocks ++ [block] }

/-- The source drops its blocks from `height` on. -/
def reorg (s : Source β) (height : Int) : Source β :=
  { s with blocks := s.blocks.take (height - s.first).toNat }

def insertEvent (s : Source β) (row : EventRow) : Source β := { s with events := s.events ++ [row] }

@[simp] theorem commit_first (s : Source β) (block : Block β) : (s.commit block).first = s.first :=
  rfl

@[simp] theorem reorg_first (s : Source β) (height : Int) : (s.reorg height).first = s.first := rfl

@[simp] theorem insertEvent_first (s : Source β) (row : EventRow) :
    (s.insertEvent row).first = s.first := rfl

theorem getBlockHashRow_isSome (s : Source β) (height : Int) :
    (s.getBlockHashRow height).isSome ↔
      s.first ≤ height ∧ height < s.first + s.blocks.length := by
  unfold getBlockHashRow
  split
  · rename_i h
    rw [Option.isSome_iff_ne_none, ne_eq, List.getElem?_eq_none_iff]
    omega
  · simp
    omega

theorem getLastBlock_eq_some {s : Source β} {tip : Int} (h : s.getLastBlock = some tip) :
    s.blocks ≠ [] ∧ tip = s.first + s.blocks.length - 1 := by
  unfold getLastBlock at h
  split at h
  · simp at h
  · rename_i hne
    exact ⟨hne, (Option.some.inj h).symm⟩

end Source

/-- Every block row carries the hashes its identity is made of. -/
def Source.Hashed (dbType : DbType) (s : Source β) : Prop :=
  ∀ block ∈ s.blocks, (identity dbType block).isSome

instance (dbType : DbType) (s : Source β) : Decidable (s.Hashed dbType) :=
  inferInstanceAs (Decidable (∀ block ∈ s.blocks, _))

namespace Source
variable {dbType : DbType} {s : Source β}

theorem mem_of_getBlockHashRow {height : Int} {row : Block β}
    (h : s.getBlockHashRow height = some row) : row ∈ s.blocks := by
  unfold getBlockHashRow at h
  split at h
  · exact List.mem_of_getElem? h
  · simp at h

theorem Hashed.getBlockHashRow_none (hs : s.Hashed dbType) {height : Int}
    (h : s.sourceBlockHash dbType height = none) : s.getBlockHashRow height = none := by
  cases hrow : s.getBlockHashRow height with
  | none => rfl
  | some row =>
    have hsome := hs row (mem_of_getBlockHashRow hrow)
    simp [sourceBlockHash, hrow] at h
    simp [h] at hsome

/-- No row at a height the source starts below: it is empty or its tip is lower. -/
theorem Hashed.below_of_none (hs : s.Hashed dbType) {height : Int} (hfirst : s.first ≤ height)
    (h : s.sourceBlockHash dbType height = none) : s.blocks = [] ∨
      ∃ tip, s.getLastBlock = some tip ∧ tip < height := by
  by_cases hempty : s.blocks = []
  · exact .inl hempty
  · have hnone : ¬ (s.getBlockHashRow height).isSome := by
      rw [hs.getBlockHashRow_none h]
      simp
    rw [getBlockHashRow_isSome] at hnone
    exact .inr ⟨s.first + s.blocks.length - 1, by simp [getLastBlock, hempty], by omega⟩

end Source

end XChainSync.Server
