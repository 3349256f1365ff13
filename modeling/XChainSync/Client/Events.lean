import Mathlib.Data.List.Dedup

/-!
# What the client is configured with and what its sources send

An event is parsed JSON. `validateWsEvent` checks the type and `block_index` of a block or reorg
event and nothing else, so the hash fields are arbitrary values here. Heights are integers: the
cursor of a replica rolled back below genesis is -1.
-/

namespace XChainSync.Client
set_option autoImplicit false

/-- Position of a source in SYNC_SOURCES. -/
abbrev SourceIndex := Nat

inductive DbType where
  | indexer
  | decoder
  deriving DecidableEq, Repr, Inhabited

/-- A parsed JSON value as the client tells values apart: a number by its `String()` form, an
object or array by its reference, next to its `String()` form. -/
inductive JsVal where
  | undefined
  | null
  | bool (b : Bool)
  | num (text : String)
  | str (s : String)
  | obj (ref : Nat) (text : String)
  deriving DecidableEq, Repr

namespace JsVal

/-- `String(value)`. -/
def text : JsVal → String
  | undefined => "undefined"
  | null => "null"
  | bool b => if b then "true" else "false"
  | num t => t
  | str s => s
  | obj _ t => t

/-- `value == null`. -/
def nullish : JsVal → Bool
  | undefined => true
  | null => true
  | _ => false

end JsVal

/-- A block event: its height, its hash fields and its rows, which are opaque here and may be
missing. -/
structure BlockEvent where
  block_index : Int
  ledger_hash : JsVal
  actions_hash : JsVal
  contract_hash : JsVal
  state_hash : JsVal
  data : Option Nat
  deriving DecidableEq, Repr

/-- The settings the modelled code reads. -/
structure Config where
  dbType : DbType
  /-- Number of entries of SYNC_SOURCES. -/
  sources : Nat
  /-- SOURCE_QUORUM; 0 selects the majority default. -/
  rawQuorum : Nat
  VERIFY_HASHES : Bool
  VERIFY_RECOMPUTE : Bool
  VERIFY_STATE_HASH : Bool
  VERIFY_RANGE_BATCH : Nat
  HALT_ON_DIVERGENCE : Bool
  HASH_CONFIRM_STRICT : Bool
  sourceEvictThreshold : Nat
  sourceStrikeWindow : Int
  maxRollbackDepth : Int
  /-- `retroactiveCapBlocks` of this coin and RETROACTIVE_REWIND_CAP_HOURS. -/
  retroactiveCapBlocks : Int
  /-- SYNC_BOOTSTRAP_DEPTH of this chain; 0 is a full-history replica. -/
  truncatedDepth : Nat
  deriving Inhabited

namespace Config

/-- The constructor's `sourceQuorum`: the clamped setting, or `ceil((N + 1) / 2)`. -/
def sourceQuorum (cfg : Config) : Nat :=
  if 1 ≤ cfg.rawQuorum then min (max 1 cfg.rawQuorum) (max 1 cfg.sources)
  else if 1 ≤ cfg.sources then (cfg.sources + 2) / 2 else 1

/-- `tracksVerifiedTip()`. -/
def tracksVerifiedTip (cfg : Config) : Bool := cfg.dbType = .indexer && cfg.VERIFY_RECOMPUTE

/-- Lookups are paged apart from the block window. -/
def skipLookups (cfg : Config) : Bool := 1 ≤ cfg.truncatedDepth

end Config

/-- An indexer with its checks on and the majority quorum. -/
def majorityOf (sources : Nat) : Config where
  dbType := .indexer
  sources := sources
  rawQuorum := 0
  VERIFY_HASHES := true
  VERIFY_RECOMPUTE := true
  VERIFY_STATE_HASH := true
  VERIFY_RANGE_BATCH := 500
  HALT_ON_DIVERGENCE := true
  HASH_CONFIRM_STRICT := false
  sourceEvictThreshold := 5
  sourceStrikeWindow := 100
  maxRollbackDepth := 100
  retroactiveCapBlocks := 1000
  truncatedDepth := 0

end XChainSync.Client
