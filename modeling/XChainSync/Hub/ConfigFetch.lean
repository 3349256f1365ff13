import XChainSync.Library.JsonTree

/-!
# The config cache of the hub client

`getallconfigs` asks for what changed since the last watermark and merges it into the cached tree. It
asks for the whole tree again when another endpoint answered than the one the watermark came from, and
when the answer is below what that endpoint served before. A fetch is a sequence of at most three
calls, each of which goes from one endpoint to the next until one answers.
-/

namespace XChainSync.Hub
open Json
set_option autoImplicit false

/-- A usable answer. A bare map, from a hub that knows no envelope, has seq 0 and no watermark. -/
structure Result where
  payload : Value
  seq : Int
  watermark : Option Int

inductive Answer where
  /-- `isErrorEnvelope` -/
  | error
  | result (r : Result)

/-- What a request to one endpoint comes to; a result may be null. -/
inductive Reply where
  | failed (code : String)
  | noResult
  | result (answer : Option Answer)

structure HubClient where
  /-- The number of endpoints. -/
  urls : Nat
  lastGoodIdx : Nat
  configs : Option Value
  lastWatermark : Int
  lastSeq : Int
  watermarkEndpointIdx : Option Nat

/-- The endpoints in the order a call tries them. -/
def HubClient.tried (hub : HubClient) : List Nat :=
  (List.range hub.urls).map fun i => (hub.lastGoodIdx + i) % hub.urls

/-- The first endpoint with a result, and the result. -/
def HubClient.call (hub : HubClient) (replies : Nat → Reply) : Option (Nat × Option Answer) :=
  hub.tried.findSome? fun idx =>
    match replies idx with
    | .result answer => some (idx, answer)
    | _ => none

theorem HubClient.of_call {hub : HubClient} {replies : Nat → Reply} {idx : Nat}
    {answer : Option Answer} (h : hub.call replies = some (idx, answer)) :
    idx < hub.urls ∧ replies idx = .result answer := by
  obtain ⟨i, hi, hreply⟩ := List.exists_of_findSome?_eq_some h
  obtain ⟨k, hk, rfl⟩ := List.mem_map.mp hi
  have hpos : 0 < hub.urls := by
    have := List.mem_range.mp hk
    omega
  split at hreply
  · rename_i answer' hresult
    obtain ⟨rfl, rfl⟩ := Prod.mk.inj (Option.some.inj hreply)
    exact ⟨Nat.mod_lt _ hpos, hresult⟩
  · simp at hreply

/-! ### Merging a delta -/

def PROTOTYPE_KEYS : List String := ["__proto__", "constructor", "prototype"]

def safeKey (key : String) : Bool := !PROTOTYPE_KEYS.contains key

/-- `mergeConfigDelta`: coin, network, module, parameter. -/
def mergeConfigDelta (base delta : Value) : Value :=
  .obj (merge safeKey 3 (ownMembers (fun _ => true) base) delta)

/-! ### A fetch -/

/-- The call that a fetch waits for. -/
inductive Pc where
  | idle
  | first (sentCursor : Int) (cursorEndpoint : Option Nat)
  | endpointChanged
  | configRegressed

/-- `since_updated_at` of the call. -/
def Pc.cursor : Pc → Int
  | .first sentCursor _ => if 0 < sentCursor then sentCursor - 1 else 0
  | _ => 0

structure Fetching where
  hub : HubClient
  pc : Pc
  /-- What the last fetch returned. -/
  returned : Option Value

namespace HubClient

def hubConfigRegressed (hub : HubClient) (r : Result) : Bool :=
  match r.watermark with
  | none => false
  | some watermark => (0 < watermark && watermark < hub.lastWatermark) ||
      (0 < hub.lastSeq && r.seq < hub.lastSeq)

/-- The client after the answer and the tree it makes of it. -/
def applyConfigResult (hub : HubClient) (r : Result) : HubClient × Value :=
  match r.watermark with
  | none => ({ hub with lastSeq := r.seq, lastWatermark := 0 }, r.payload)
  | some watermark =>
    ({ hub with lastSeq := r.seq, lastWatermark := watermark },
      match hub.configs with
      | some configs =>
        if 0 < hub.lastWatermark then mergeConfigDelta configs r.payload else r.payload
      | none => r.payload)

/-- The rest of the fetch once the answer stands. -/
def finish (hub : HubClient) (r : Result) : Fetching :=
  let (hub, configs) := hub.applyConfigResult r
  ⟨{ hub with configs := some configs, watermarkEndpointIdx := some hub.lastGoodIdx }, .idle,
    some configs⟩

def refetchAfterConfigRegression (hub : HubClient) (r : Result) : Fetching :=
  if 0 < hub.lastWatermark && hub.configs.isSome && hub.hubConfigRegressed r then
    ⟨hub, .configRegressed, none⟩
  else hub.finish r

/-- Before a full tree from another endpoint, or from one that regressed. -/
def discard (hub : HubClient) : HubClient := { hub with lastWatermark := 0, configs := none }

end HubClient

namespace Fetching

def getallconfigs (s : Fetching) : Fetching :=
  ⟨s.hub, .first s.hub.lastWatermark s.hub.watermarkEndpointIdx, none⟩

/-- The endpoints answer the call a fetch waits for. -/
def receive (s : Fetching) (replies : Nat → Reply) : Fetching :=
  match s.hub.call replies with
  | none => ⟨s.hub, .idle, none⟩
  | some (idx, answer) =>
    let hub := { s.hub with lastGoodIdx := idx }
    match answer with
    | some (.result r) =>
      match s.pc with
      | .idle => ⟨hub, .idle, none⟩
      | .first sentCursor cursorEndpoint =>
        if 0 < sentCursor && cursorEndpoint ≠ some idx then ⟨hub, .endpointChanged, none⟩
        else hub.refetchAfterConfigRegression r
      | .endpointChanged => hub.discard.refetchAfterConfigRegression r
      | .configRegressed => hub.discard.finish r
    | _ => ⟨hub, .idle, none⟩

end Fetching

end XChainSync.Hub
