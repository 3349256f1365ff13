import Mathlib.Data.List.Basic
import XChainSync.Library.Runs

/-!
# Reissued lookup ids

`index_addresses` and `index_tickers` intern texts under ids of a dense counter, in block order. A
reorg of the source deletes the ids of the orphaned blocks and issues them again. A replica takes the
rows by id from three channels (lookup pages, live blocks, catch-up ranges), each read from the
source at its own time and inserted later. The model is of one such table.
-/

namespace XChainSync.Lookups
set_option autoImplicit false

/-- A block of the source with the texts it interns. -/
structure Block where
  nonce : Nat
  texts : List String
  deriving DecidableEq, Repr

/-- Hashes are chained, so a block is identified by the chain up to it. -/
abbrev Chain := List Block

structure IdRow where
  id : Nat
  blockIndex : Nat
  text : String
  deriving DecidableEq, Repr

def mint (blockIndex : Nat) : Nat → List String → List IdRow
  | _, [] => []
  | next, text :: texts => ⟨next, blockIndex, text⟩ :: mint blockIndex (next + 1) texts

def rowsFrom : Nat → Nat → Chain → List IdRow
  | _, _, [] => []
  | blockIndex, next, b :: bs =>
    mint blockIndex next b.texts ++ rowsFrom (blockIndex + 1) (next + b.texts.length) bs

/-- The table of a source with a chain, ordered by id. -/
def rowsOf (c : Chain) : List IdRow := rowsFrom 0 1 c

/-- The text that a source holds for an id. -/
def textOf (c : Chain) (id : Nat) : Option String :=
  ((rowsOf c).find? (·.id = id)).map (·.text)

/-! ### Server -/

structure Page where
  rows : List IdRow
  maxId : Nat
  hasMore : Bool
  deriving DecidableEq, Repr

def rowsPageMax : Nat := 100000

def streamTableRowsById (c : Chain) (afterId limit : Nat) (maxBlock : Option Nat) : Page :=
  let lim := max 1 (min rowsPageMax limit)
  let found := ((rowsOf c).filter (afterId < ·.id)).take lim
  let rows :=
    match maxBlock with
    | none => found
    | some m => found.takeWhile (·.blockIndex ≤ m)
  { rows := rows
    maxId := (rows.getLast?.map (·.id)).getD afterId
    -- a page that was cut is the last
    hasMore := found.length = lim ∧ rows.length = found.length }

/-- The rows in the payload of a block read from a view: those of the block, and any row of the view
whose id a column of the payload happens to hold. -/
def payloadRows (view : Chain) (blockIndex : Nat) (refIds : List Nat) : List IdRow :=
  (rowsOf view).filter fun r => r.id ∈ refIds ∨ r.blockIndex = blockIndex

/-! ### Client -/

/-- INSERT IGNORE on the id. -/
def insertIgnore (held : List IdRow) (rows : List IdRow) : List IdRow :=
  rows.foldl (fun held r => if held.any (·.id = r.id) then held else held ++ [r]) held

/-- A `syncLookupTablesPaged` in progress: the bound is read once, before the first page. -/
structure Pass where
  maxBlock : Option Nat
  afterId : Nat
  /-- The page in flight. -/
  page : Option Page
  deriving DecidableEq, Repr

/-- A live block in flight, with the chain that ends in it. -/
structure Payload where
  chain : Chain
  rows : List IdRow
  deriving DecidableEq, Repr

/-- A catch-up range in flight. -/
structure Range where
  since : Nat
  chain : Chain
  rows : List IdRow
  deriving DecidableEq, Repr

inductive Stage where
  /-- `bootstrapFromHeight` pages the lookups, then awaits its window. -/
  | paging
  | window (chain : Chain)
  | following
  deriving DecidableEq, Repr

structure System where
  source : Chain
  /-- The chain that ends in the replica's committed tip. -/
  chain : Chain
  lastAppliedBlock : Option Int
  rows : List IdRow
  stage : Stage
  passes : List Pass
  payloads : List Payload
  ranges : List Range
  deriving DecidableEq, Repr

inductive Event where
  | commit (b : Block)
  | reorg (blockIndex : Nat)
  /-- The poller reads a block from a view pinned at the source's tip. -/
  | buildBlockPayload (blockIndex : Nat) (refIds : List Nat)
  | syncLookupTablesPaged (fromZero : Bool)
  | fetchLookupPage (i : Nat) (limit : Nat)
  | applyLookupPage (i : Nat)
  | fetchBootstrapWindow
  | applyBootstrapWindow
  | retryBootstrap
  | applyBlock (i : Nat)
  | fetchRange (skipLookups : Bool)
  | applyRange (i : Nat)
  /-- A catch-up sets the in-memory tip after its second lookup pass. -/
  | advanceTip
  | handleReorg (blockIndex : Nat)
  deriving DecidableEq, Repr

namespace System

/-- The bound of a pass: none unless the in-memory tip is a block. -/
def maxBlock (t : System) : Option Nat :=
  match t.lastAppliedBlock with
  | some (.ofNat tip) => some tip
  | _ => none

def maxId (t : System) : Nat := t.rows.foldl (fun m r => max m r.id) 0

def setPass (t : System) (i : Nat) (p : Pass) : System := { t with passes := t.passes.set i p }

def endPass (t : System) (i : Nat) : System := { t with passes := t.passes.eraseIdx i }

def startPass (t : System) (fromZero : Bool) : System :=
  match t.stage with
  | .window _ => t
  | _ =>
    { t with
      passes := t.passes ++ [⟨t.maxBlock, if fromZero then 0 else t.maxId, none⟩] }

def fetchLookupPage (t : System) (i limit : Nat) : System :=
  match t.passes[i]? with
  | none => t
  | some p =>
    match p.page with
    | some _ => t
    | none =>
      t.setPass i
        { p with page := some (streamTableRowsById t.source p.afterId limit p.maxBlock) }

def applyLookupPage (t : System) (i : Nat) : System :=
  match t.passes[i]? with
  | none => t
  | some p =>
    match p.page with
    | none => t
    | some page =>
      let next : System := { t with rows := insertIgnore t.rows page.rows }
      if page.hasMore ∧ p.afterId < page.maxId then
        next.setPass i { p with afterId := page.maxId, page := none }
      else next.endPass i

/-- The window leaves the lookups out, and the pass before it has ended. -/
def fetchBootstrapWindow (t : System) : System :=
  if t.stage = .paging ∧ t.passes = [] then { t with stage := .window t.source } else t

def applyBootstrapWindow (t : System) : System :=
  match t.stage with
  | .window w =>
    { t with chain := w, lastAppliedBlock := some (w.length - 1 : Int), stage := .following }
  | _ => t

def retryBootstrap (t : System) : System :=
  match t.stage with
  | .window _ => { t with stage := .paging }
  | _ => t

/-- A live block is applied at the height after the in-memory tip. One that is already committed is
skipped. -/
def applyBlock (t : System) (i : Nat) : System :=
  match t.payloads[i]? with
  | none => t
  | some e =>
    let rest : System := { t with payloads := t.payloads.eraseIdx i }
    let height : Int := e.chain.length - 1
    if t.stage = .following ∧ t.lastAppliedBlock = some (height - 1) then
      if e.chain.length ≤ t.chain.length then { rest with lastAppliedBlock := some height }
      else
        { rest with
          chain := e.chain
          rows := insertIgnore t.rows e.rows
          lastAppliedBlock := some height }
    else rest

def fetchRange (t : System) (skipLookups : Bool) : System :=
  { t with
    ranges := t.ranges ++
      [⟨t.chain.length, t.source, if skipLookups then [] else rowsOf t.source⟩] }

/-- A range collides with blocks that were committed since it was asked for. -/
def applyRange (t : System) (i : Nat) : System :=
  match t.ranges[i]? with
  | none => t
  | some g =>
    let rest : System := { t with ranges := t.ranges.eraseIdx i }
    if t.stage = .following ∧ t.chain.length ≤ g.since ∧ g.since < g.chain.length then
      { rest with chain := g.chain, rows := insertIgnore t.rows g.rows }
    else rest

/-- The reorg is at or below the in-memory tip. -/
def rollsBack (t : System) (blockIndex : Nat) : Bool :=
  t.lastAppliedBlock.any ((blockIndex : Int) ≤ ·)

def handleReorg (t : System) (blockIndex : Nat) : System :=
  if t.rollsBack blockIndex then
    { t with
      chain := t.chain.take blockIndex
      rows := t.rows.filter (·.blockIndex < blockIndex)
      lastAppliedBlock := some (blockIndex - 1 : Int) }
  else t

def step (t : System) : Event → System
  | .commit b => { t with source := t.source ++ [b] }
  | .reorg blockIndex => { t with source := t.source.take blockIndex }
  | .buildBlockPayload blockIndex refIds =>
    if blockIndex < t.source.length then
      { t with
        payloads := t.payloads ++
          [⟨t.source.take (blockIndex + 1), payloadRows t.source blockIndex refIds⟩] }
    else t
  | .syncLookupTablesPaged fromZero => t.startPass fromZero
  | .fetchLookupPage i limit => t.fetchLookupPage i limit
  | .applyLookupPage i => t.applyLookupPage i
  | .fetchBootstrapWindow => t.fetchBootstrapWindow
  | .applyBootstrapWindow => t.applyBootstrapWindow
  | .retryBootstrap => t.retryBootstrap
  | .applyBlock i => t.applyBlock i
  | .fetchRange skipLookups => t.fetchRange skipLookups
  | .applyRange i => t.applyRange i
  | .advanceTip =>
    if t.stage = .following then { t with lastAppliedBlock := some (t.chain.length - 1 : Int) } else t
  | .handleReorg blockIndex => t.handleReorg blockIndex

end System

end XChainSync.Lookups
