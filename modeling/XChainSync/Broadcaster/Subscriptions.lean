import XChainSync.Broadcaster.Backpressure
import XChainSync.Library.Runs
import XChainSync.Library.SetIndex

/-!
# Subscribers of the block broadcaster

A socket is filed under the key of its chain and under its address, and a send may take it out of
both. What has been published to its key since a socket joined is kept next to what it was sent.
-/

namespace XChainSync.Broadcaster
open Runs (Run)
open SetIndex
set_option autoImplicit false

structure Config where
  WS_MAX_PER_IP : Nat
  limits : Limits

structure Subscription where
  chain : String
  network : String
  dbType : String
  deriving DecidableEq, Repr

/-- `key(chain, network, dbType)` -/
def Subscription.key (s : Subscription) : String := s.chain ++ ":" ++ s.network ++ ":" ++ s.dbType

structure Socket where
  /-- `readyState` is OPEN. -/
  isOpen : Bool
  /-- `_syncChain`, `_syncNetwork` and `_syncDbType`, null once removed. -/
  subscription : Option Subscription
  ip : String
  /-- `_syncMode` is infra-only. -/
  infraOnly : Bool
  lastSentBlock : Option Int
  appliedBlock : Option Int
  watch : Watch
  deriving DecidableEq, Repr

/-- The socket apart from its state and its measurements. -/
structure Socket.Same (sock sock' : Socket) : Prop where
  subscription : sock'.subscription = sock.subscription
  ip : sock'.ip = sock.ip
  infraOnly : sock'.infraOnly = sock.infraOnly

/-- A serialized event, and its infra-only form where a subscriber needs it and it has one. -/
structure Publication (M : Type) where
  key : String
  fullMessage : M
  infraMessage : Option M
  /-- The height of a block event. -/
  sentBlock : Option Int

structure BlockBroadcaster (M : Type) where
  subscribers : String → Option (List Nat)
  ipConnections : String → Option (List Nat)
  sockets : Nat → Option Socket
  /-- What each socket was sent, newest first. -/
  sent : Nat → List M
  /-- What was published to each socket's key since it joined. -/
  published : Nat → List M

variable {M : Type}

def Publication.messageFor (p : Publication M) (infraOnly : Bool) : M :=
  if infraOnly then p.infraMessage.getD p.fullMessage else p.fullMessage

namespace BlockBroadcaster

def empty : BlockBroadcaster M := ⟨fun _ => none, fun _ => none, fun _ => none, fun _ => [], fun _ => []⟩

def setSocket (b : BlockBroadcaster M) (ws : Nat) (sock : Socket) : BlockBroadcaster M :=
  { b with sockets := Function.update b.sockets ws (some sock) }

def removeSubscription (b : BlockBroadcaster M) (ws : Nat) : BlockBroadcaster M :=
  match b.sockets ws with
  | none => b
  | some sock =>
    match sock.subscription with
    | none => b
    | some s =>
      if s.chain = "" || s.network = "" then b
      else
        { b.setSocket ws { sock with subscription := none } with
          subscribers := remove b.subscribers s.key ws
          ipConnections := remove b.ipConnections sock.ip ws }

def send (cfg : Config) (b : BlockBroadcaster M) (ws : Nat) (message : M) (r : Reading)
    (throws : Bool) : BlockBroadcaster M :=
  match b.sockets ws with
  | none => b
  | some sock =>
    if !sock.isOpen then b
    else
      let (drop, watch) := observe cfg.limits sock.watch r
      if drop.isSome then
        (b.setSocket ws { sock with watch := watch, isOpen := false }).removeSubscription ws
      else if throws then (b.setSocket ws { sock with watch := watch }).removeSubscription ws
      else
        { b.setSocket ws { sock with watch := watch } with
          sent := Function.update b.sent ws (message :: b.sent ws) }

/-- A socket joins, unless its address has too many; the cached status is its first message. -/
def addSubscription (cfg : Config) (b : BlockBroadcaster M) (ws : Nat) (ip : String)
    (s : Subscription) (infraOnly : Bool) (status : Option M) (r : Reading) (throws : Bool) :
    BlockBroadcaster M :=
  let ips := if (b.ipConnections ip).isSome then b.ipConnections
    else Function.update b.ipConnections ip (some [])
  if cfg.WS_MAX_PER_IP ≤ (members ips ip).length then { b with ipConnections := ips }
  else
    let b : BlockBroadcaster M :=
      { subscribers := add b.subscribers s.key ws
        ipConnections := add ips ip ws
        sockets := Function.update b.sockets ws
          (some ⟨true, some s, ip, infraOnly && s.dbType = "indexer", none, none, Watch.start⟩)
        sent := Function.update b.sent ws []
        published := Function.update b.published ws status.toList }
    match status with
    | none => b
    | some message => b.send cfg ws message r throws

/-- The message of a publication for a socket. -/
def messageFor (b : BlockBroadcaster M) (p : Publication M) (ws : Nat) : M :=
  p.messageFor ((b.sockets ws).any (·.infraOnly))

/-- One turn of the loop of `broadcast`. -/
def deliver (cfg : Config) (p : Publication M) (r : Nat → Reading) (throws : Nat → Bool)
    (b : BlockBroadcaster M) (ws : Nat) : BlockBroadcaster M :=
  let b := b.send cfg ws (b.messageFor p ws) (r ws) (throws ws)
  match p.sentBlock, b.sockets ws with
  | some block, some sock => b.setSocket ws { sock with lastSentBlock := some block }
  | _, _ => b

/-- The key a socket is subscribed under. -/
def keyOf (b : BlockBroadcaster M) (ws : Nat) : Option String :=
  ((b.sockets ws).bind (·.subscription)).map Subscription.key

/-- The address a subscribed socket counts for. -/
def ipOf (b : BlockBroadcaster M) (ws : Nat) : Option String :=
  (b.sockets ws).bind fun sock => sock.subscription.map fun _ => sock.ip

def publish (p : Publication M) (b : BlockBroadcaster M) : BlockBroadcaster M :=
  { b with published := fun ws =>
      if b.keyOf ws = some p.key then b.messageFor p ws :: b.published ws else b.published ws }

def broadcast (cfg : Config) (p : Publication M) (r : Nat → Reading) (throws : Nat → Bool)
    (b : BlockBroadcaster M) : BlockBroadcaster M :=
  (members b.subscribers p.key).foldl (deliver cfg p r throws) (b.publish p)

/-- `handleClientMessage` of a heartbeat; anything else is ignored. -/
def heartbeat (b : BlockBroadcaster M) (ws : Nat) (appliedBlock : Int) : BlockBroadcaster M :=
  match b.sockets ws with
  | some sock =>
    if 0 ≤ appliedBlock then b.setSocket ws { sock with appliedBlock := some appliedBlock } else b
  | none => b

/-- The socket leaves the state OPEN; its close event comes later. -/
def closing (b : BlockBroadcaster M) (ws : Nat) : BlockBroadcaster M :=
  match b.sockets ws with
  | some sock => b.setSocket ws { sock with isOpen := false }
  | none => b

end BlockBroadcaster

inductive Event (M : Type) where
  | connect (ws : Nat) (ip : String) (s : Subscription) (infraOnly : Bool) (status : Option M)
      (r : Reading) (throws : Bool)
  | closing (ws : Nat)
  /-- A close or an error event. -/
  | gone (ws : Nat)
  | heartbeat (ws : Nat) (appliedBlock : Int)
  | broadcast (p : Publication M) (r : Nat → Reading) (throws : Nat → Bool)

namespace BlockBroadcaster

def next (cfg : Config) (b : BlockBroadcaster M) : Event M → BlockBroadcaster M
  | .connect ws ip s infraOnly status r throws =>
    b.addSubscription cfg ws ip s infraOnly status r throws
  | .closing ws => b.closing ws
  | .gone ws => b.removeSubscription ws
  | .heartbeat ws appliedBlock => b.heartbeat ws appliedBlock
  | .broadcast p r throws => b.broadcast cfg p r throws

/-- A socket joins once, with the chain and the network of its path. -/
def Upgraded (b : BlockBroadcaster M) : Event M → Prop
  | .connect ws _ s _ _ _ _ => b.sockets ws = none ∧ s.chain ≠ "" ∧ s.network ≠ ""
  | _ => True

variable {cfg : Config} {b b' : BlockBroadcaster M} {ws ws' : Nat} {sock sock' : Socket}

/-! ### The two indexes -/

structure Kept (cfg : Config) (b : BlockBroadcaster M) : Prop where
  keyed : Files b.subscribers b.keyOf
  counted : Files b.ipConnections b.ipOf
  capped : ∀ ip, (members b.ipConnections ip).length ≤ cfg.WS_MAX_PER_IP
  named : ∀ ws sock s, b.sockets ws = some sock → sock.subscription = some s →
    s.chain ≠ "" ∧ s.network ≠ ""

theorem keyOf_setSocket (b : BlockBroadcaster M) (ws : Nat) (sock : Socket) : (b.setSocket ws sock).keyOf =
    Function.update b.keyOf ws (sock.subscription.map Subscription.key) := by
  funext ws'
  by_cases h : ws' = ws
  · subst h
    simp [keyOf, setSocket]
  · simp [keyOf, setSocket, h]

theorem ipOf_setSocket (b : BlockBroadcaster M) (ws : Nat) (sock : Socket) : (b.setSocket ws sock).ipOf =
    Function.update b.ipOf ws (sock.subscription.map fun _ => sock.ip) := by
  funext ws'
  by_cases h : ws' = ws
  · subst h
    simp [ipOf, setSocket]
  · simp [ipOf, setSocket, h]

theorem sockets_setSocket_of_ne (h : ws' ≠ ws) : (b.setSocket ws sock).sockets ws' = b.sockets ws' :=
  Function.update_of_ne h _ _

@[simp] theorem sockets_setSocket_self : (b.setSocket ws sock).sockets ws = some sock :=
  Function.update_self ws _ _

theorem Kept.setSocket (h : b.Kept cfg) (hs : b.sockets ws = some sock) (hsame : sock.Same sock') :
    (b.setSocket ws sock').Kept cfg where
  keyed := by
    have hkey : (b.setSocket ws sock').keyOf = b.keyOf := by
      rw [keyOf_setSocket, hsame.subscription]
      simp [keyOf, hs]
    rw [hkey]
    exact h.keyed
  counted := by
    have hip : (b.setSocket ws sock').ipOf = b.ipOf := by
      rw [ipOf_setSocket, hsame.subscription, hsame.ip]
      have hself : b.ipOf ws = sock.subscription.map fun _ => sock.ip := by simp [ipOf, hs]
      rw [← hself, Function.update_eq_self]
    rw [hip]
    exact h.counted
  capped := h.capped
  named ws' other s hother hsub := by
    by_cases heq : ws' = ws
    · subst heq
      rw [sockets_setSocket_self, Option.some.injEq] at hother
      subst hother
      exact h.named ws' sock s hs (hsame.subscription ▸ hsub)
    · rw [sockets_setSocket_of_ne heq] at hother
      exact h.named ws' other s hother hsub

/-- A removal takes the socket out of both indexes, or finds it removed. -/
inductive Removed (b : BlockBroadcaster M) (ws : Nat) : BlockBroadcaster M → Prop where
  | absent (h : b.keyOf ws = none) : Removed b ws b
  | removes {sock : Socket} {s : Subscription} (hs : b.sockets ws = some sock)
      (hsub : sock.subscription = some s) : Removed b ws
        { b.setSocket ws { sock with subscription := none } with
          subscribers := remove b.subscribers s.key ws
          ipConnections := remove b.ipConnections sock.ip ws }

theorem Kept.removeSubscription_cases (h : b.Kept cfg) (ws : Nat) :
    Removed b ws (b.removeSubscription ws) := by
  unfold removeSubscription
  cases hs : b.sockets ws with
  | none => exact .absent (by simp [keyOf, hs])
  | some sock =>
    dsimp only
    cases hsub : sock.subscription with
    | none => exact .absent (by simp [keyOf, hs, hsub])
    | some s =>
      have hnamed := h.named ws sock s hs hsub
      simp only [hnamed.1, hnamed.2, decide_false, Bool.or_self, Bool.false_eq_true, if_false]
      exact .removes hs hsub

theorem Kept.removeSubscription (h : b.Kept cfg) (ws : Nat) :
    (b.removeSubscription ws).Kept cfg := by
  have hcases := h.removeSubscription_cases ws
  generalize b.removeSubscription ws = b' at hcases
  cases hcases with
  | absent => exact h
  | @removes sock s hs hsub =>
    refine ⟨?_, ?_, ?_, ?_⟩
    · have hkey : b.keyOf ws = some s.key := by simp [keyOf, hs, hsub]
      have hfiles := h.keyed.remove hkey
      have heq : (b.setSocket ws { sock with subscription := none }).keyOf =
          Function.update b.keyOf ws none := keyOf_setSocket b ws _
      rwa [← heq] at hfiles
    · have hip : b.ipOf ws = some sock.ip := by simp [ipOf, hs, hsub]
      have hfiles := h.counted.remove hip
      have heq : (b.setSocket ws { sock with subscription := none }).ipOf =
          Function.update b.ipOf ws none := ipOf_setSocket b ws _
      rwa [← heq] at hfiles
    · intro ip
      exact Nat.le_trans length_remove_le (h.capped ip)
    · intro ws' other s' hother hsub'
      by_cases heq : ws' = ws
      · subst heq
        rw [sockets_setSocket_self, Option.some.injEq] at hother
        subst hother
        cases hsub'
      · rw [sockets_setSocket_of_ne heq] at hother
        exact h.named ws' other s' hother hsub'

end BlockBroadcaster

end XChainSync.Broadcaster
