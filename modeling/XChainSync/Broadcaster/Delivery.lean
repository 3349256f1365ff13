import XChainSync.Broadcaster.Subscriptions

/-!
# An open subscriber has been sent everything published since it joined

A send either reaches its socket or takes it out of the indexes, so no subscriber skips an event.
-/

namespace XChainSync.Broadcaster
open Runs (Run)
open SetIndex
set_option autoImplicit false

variable {M : Type} {cfg : Config} {b b' : BlockBroadcaster M} {ws ws' : Nat} {sock sock' : Socket}
  {message : M} {due : Nat → List M} {p : Publication M} {r : Nat → Reading} {throws : Nat → Bool}

namespace BlockBroadcaster

/-- Every open subscriber was sent what is due to it. -/
def Delivered (b : BlockBroadcaster M) (due : Nat → List M) : Prop :=
  ∀ ws sock, b.sockets ws = some sock → sock.subscription.isSome → sock.isOpen = true →
    b.sent ws = due ws

/-! ### A removal -/

theorem Removed.sockets_of_ne (h : Removed b ws b') (hne : ws' ≠ ws) :
    b'.sockets ws' = b.sockets ws' := by
  cases h with
  | absent => rfl
  | removes => exact sockets_setSocket_of_ne hne

theorem Removed.sent (h : Removed b ws b') : b'.sent = b.sent := by
  cases h <;> rfl

theorem Removed.published (h : Removed b ws b') : b'.published = b.published := by
  cases h <;> rfl

theorem Removed.subscription (h : Removed b ws b') (hs : b'.sockets ws = some sock) :
    sock.subscription = none := by
  cases h with
  | absent hkey => simpa [keyOf, hs] using hkey
  | removes =>
    have hself := sockets_setSocket_self.symm.trans hs
    obtain rfl := Option.some.inj hself
    rfl

/-! ### A send -/

inductive Sent (b : BlockBroadcaster M) (ws : Nat) (message : M) : BlockBroadcaster M → Prop where
  | stays (hclosed : ∀ sock, b.sockets ws = some sock → sock.isOpen = false) : Sent b ws message b
  | drops {sock sock' : Socket} (hs : b.sockets ws = some sock) (hsame : sock.Same sock') :
      Sent b ws message ((b.setSocket ws sock').removeSubscription ws)
  | goes {sock sock' : Socket} (hs : b.sockets ws = some sock) (hopen : sock.isOpen = true)
      (hsame : sock.Same sock') : Sent b ws message { b.setSocket ws sock' with
        sent := Function.update b.sent ws (message :: b.sent ws) }

theorem send_cases (cfg : Config) (b : BlockBroadcaster M) (ws : Nat) (message : M) (r : Reading)
    (throws : Bool) : Sent b ws message (b.send cfg ws message r throws) := by
  unfold send
  cases hs : b.sockets ws with
  | none => exact .stays fun sock h => by simp [hs] at h
  | some sock =>
    dsimp only
    split
    · rename_i hclosed
      refine .stays fun other h => ?_
      obtain rfl := Option.some.inj (hs.symm.trans h)
      simpa using hclosed
    · rename_i hopen
      split
      · exact .drops hs ⟨rfl, rfl, rfl⟩
      · split
        · exact .drops hs ⟨rfl, rfl, rfl⟩
        · exact .goes hs (by simpa using hopen) ⟨rfl, rfl, rfl⟩

/-- What a turn of the loop leaves of the invariant, and of the other sockets. -/
structure Turned (cfg : Config) (due : Nat → List M) (b : BlockBroadcaster M) (ws : Nat)
    (message : M) (b' : BlockBroadcaster M) : Prop where
  kept : b'.Kept cfg
  delivered : Delivered b' (Function.update due ws (message :: due ws))
  published : b'.published = b.published
  others : ∀ ws', ws' ≠ ws → b'.sockets ws' = b.sockets ws'

theorem Kept.send (h : b.Kept cfg) (hd : Delivered b due) (reading : Reading) (throw : Bool) :
    Turned cfg due b ws message (b.send cfg ws message reading throw) := by
  have hcases := send_cases cfg b ws message reading throw
  generalize b.send cfg ws message reading throw = b' at hcases
  cases hcases with
  | stays hclosed =>
    refine ⟨h, fun ws' other hother hsub hopen => ?_, rfl, fun _ _ => rfl⟩
    by_cases heq : ws' = ws
    · subst heq
      simp [hclosed other hother] at hopen
    · rw [Function.update_of_ne heq]
      exact hd ws' other hother hsub hopen
  | @drops sock sock' hs hsame =>
    have hkept := h.setSocket hs hsame
    have hremoved := hkept.removeSubscription_cases ws
    refine ⟨hkept.removeSubscription ws, ?_, hremoved.published, fun ws' hne => ?_⟩
    · intro ws' other hother hsub hopen
      by_cases heq : ws' = ws
      · subst heq
        simp [hremoved.subscription hother] at hsub
      · rw [hremoved.sockets_of_ne heq, sockets_setSocket_of_ne heq] at hother
        rw [hremoved.sent, Function.update_of_ne heq]
        exact hd ws' other hother hsub hopen
    · rw [hremoved.sockets_of_ne hne, sockets_setSocket_of_ne hne]
  | @goes sock sock' hs hsockOpen hsame =>
    have hkept := h.setSocket hs hsame
    refine ⟨⟨hkept.keyed, hkept.counted, hkept.capped, hkept.named⟩, ?_, rfl,
      fun ws' hne => sockets_setSocket_of_ne hne⟩
    intro ws' other hother hsub hopen
    by_cases heq : ws' = ws
    · subst heq
      obtain rfl := Option.some.inj (sockets_setSocket_self.symm.trans hother)
      show Function.update b.sent ws' (message :: b.sent ws') ws' = _
      rw [Function.update_self, Function.update_self,
        hd ws' sock hs (hsame.subscription ▸ hsub) hsockOpen]
    · show Function.update b.sent ws (message :: b.sent ws) ws' = _
      rw [Function.update_of_ne heq, Function.update_of_ne heq]
      exact hd ws' other ((sockets_setSocket_of_ne heq).symm.trans hother) hsub hopen

theorem Turned.setSocket (h : Turned cfg due b ws message b') (hs : b'.sockets ws = some sock)
    (hsame : sock.Same sock') (hopen : sock'.isOpen = sock.isOpen) :
    Turned cfg due b ws message (b'.setSocket ws sock') where
  kept := h.kept.setSocket hs hsame
  delivered ws' other hother hsub hother' := by
    by_cases heq : ws' = ws
    · subst heq
      obtain rfl := Option.some.inj (sockets_setSocket_self.symm.trans hother)
      exact h.delivered ws' sock hs (hsame.subscription ▸ hsub) (hopen ▸ hother')
    · exact h.delivered ws' other ((sockets_setSocket_of_ne heq).symm.trans hother) hsub hother'
  published := h.published
  others ws' hne := (sockets_setSocket_of_ne hne).trans (h.others ws' hne)

theorem Kept.turn (h : b.Kept cfg) (hd : Delivered b due) :
    Turned cfg due b ws (b.messageFor p ws) (deliver cfg p r throws b ws) := by
  have hsent : Turned cfg due b ws (b.messageFor p ws) _ := h.send hd (r ws) (throws ws)
  unfold BlockBroadcaster.deliver
  dsimp only
  split
  · rename_i block sock _ hs
    exact hsent.setSocket hs ⟨rfl, rfl, rfl⟩ rfl
  · exact hsent

/-- Over the sockets of a key, each once. -/
theorem Kept.deliverAll {set : List Nat} (h : b.Kept cfg) (hd : Delivered b due)
    (hnodup : set.Nodup) :
    (set.foldl (deliver cfg p r throws) b).Kept cfg ∧
      (set.foldl (deliver cfg p r throws) b).published = b.published ∧
      Delivered (set.foldl (deliver cfg p r throws) b)
        (fun ws => if ws ∈ set then b.messageFor p ws :: due ws else due ws) := by
  induction set generalizing b due with
  | nil => exact ⟨h, rfl, by simpa using hd⟩
  | cons ws set ih =>
    rw [List.nodup_cons] at hnodup
    have hturn : Turned cfg due b ws (b.messageFor p ws) (deliver cfg p r throws b ws) := h.turn hd
    obtain ⟨hkept, hpublished, hdelivered⟩ := ih hturn.kept hturn.delivered hnodup.2
    refine ⟨hkept, hpublished.trans hturn.published, ?_⟩
    have hdue : (fun ws' => if ws' ∈ set then (deliver cfg p r throws b ws).messageFor p ws' ::
        Function.update due ws (b.messageFor p ws :: due ws) ws'
        else Function.update due ws (b.messageFor p ws :: due ws) ws') =
        fun ws' => if ws' ∈ ws :: set then b.messageFor p ws' :: due ws' else due ws' := by
      funext ws'
      by_cases heq : ws' = ws
      · subst heq
        simp [hnodup.1]
      · have hmessage : (deliver cfg p r throws b ws).messageFor p ws' = b.messageFor p ws' := by
          rw [messageFor, messageFor, hturn.others ws' heq]
        simp [heq, hmessage]
    rw [hdue] at hdelivered
    exact hdelivered

/-! ### The invariant of a run -/

structure Live (cfg : Config) (b : BlockBroadcaster M) : Prop where
  kept : b.Kept cfg
  delivered : Delivered b b.published

theorem live_empty (cfg : Config) : (empty : BlockBroadcaster M).Live cfg where
  kept :=
    { keyed := files_empty
      counted := files_empty
      capped := fun ip => Nat.zero_le _
      named := fun ws sock s hs => by cases hs }
  delivered ws sock hs := by cases hs

theorem Live.broadcast (h : b.Live cfg) : (b.broadcast cfg p r throws).Live cfg := by
  have hpublish : (b.publish p).Kept cfg :=
    ⟨h.kept.keyed, h.kept.counted, h.kept.capped, h.kept.named⟩
  have hdelivered : Delivered (b.publish p) b.published := h.delivered
  obtain ⟨hkept, hpublished, hall⟩ := hpublish.deliverAll hdelivered (h.kept.keyed.nodup p.key)
  refine ⟨hkept, ?_⟩
  have hdue : (fun ws => if ws ∈ members b.subscribers p.key then
      (b.publish p).messageFor p ws :: b.published ws else b.published ws) =
      (b.publish p).published := by
    funext ws
    simp only [h.kept.keyed.mem]
    rfl
  rw [hdue, ← hpublished] at hall
  exact hall

theorem Live.setSocket (h : b.Live cfg) (hs : b.sockets ws = some sock) (hsame : sock.Same sock')
    (hopen : sock'.isOpen = true → sock.isOpen = true) : (b.setSocket ws sock').Live cfg where
  kept := h.kept.setSocket hs hsame
  delivered ws' other hother hsub hother' := by
    by_cases heq : ws' = ws
    · subst heq
      obtain rfl := Option.some.inj (sockets_setSocket_self.symm.trans hother)
      exact h.delivered ws' sock hs (hsame.subscription ▸ hsub) (hopen hother')
    · exact h.delivered ws' other ((sockets_setSocket_of_ne heq).symm.trans hother) hsub hother'

theorem Live.removeSubscription (h : b.Live cfg) (ws : Nat) :
    (b.removeSubscription ws).Live cfg := by
  have hremoved := h.kept.removeSubscription_cases ws
  refine ⟨h.kept.removeSubscription ws, fun ws' other hother hsub hopen => ?_⟩
  by_cases heq : ws' = ws
  · subst heq
    simp [hremoved.subscription hother] at hsub
  · rw [hremoved.sockets_of_ne heq] at hother
    rw [hremoved.sent, hremoved.published]
    exact h.delivered ws' other hother hsub hopen

/-- A socket that was let in, before its first message. -/
def joined (b : BlockBroadcaster M) (ws : Nat) (sock : Socket) (s : Subscription)
    (status : Option M) : BlockBroadcaster M where
  subscribers := add b.subscribers s.key ws
  ipConnections := add b.ipConnections sock.ip ws
  sockets := Function.update b.sockets ws (some sock)
  sent := Function.update b.sent ws []
  published := Function.update b.published ws status.toList

theorem sockets_joined {s : Subscription} {status : Option M} :
    (b.joined ws sock s status).sockets = (b.setSocket ws sock).sockets := rfl

theorem Kept.joined {s : Subscription} {status : Option M} (h : b.Kept cfg)
    (hnew : b.sockets ws = none) (hnamed : s.chain ≠ "" ∧ s.network ≠ "")
    (hsub : sock.subscription = some s)
    (hroom : (members b.ipConnections sock.ip).length < cfg.WS_MAX_PER_IP) :
    (b.joined ws sock s status).Kept cfg where
  keyed := by
    have hnone : b.keyOf ws = none := by simp [keyOf, hnew]
    have hfiles := h.keyed.add (k := s.key) hnone
    have heq : (b.joined ws sock s status).keyOf = Function.update b.keyOf ws (some s.key) := by
      have hset := keyOf_setSocket b ws sock
      rw [hsub] at hset
      exact hset
    rwa [← heq] at hfiles
  counted := by
    have hnone : b.ipOf ws = none := by simp [ipOf, hnew]
    have hfiles := h.counted.add (k := sock.ip) hnone
    have heq : (b.joined ws sock s status).ipOf = Function.update b.ipOf ws (some sock.ip) := by
      have hset := ipOf_setSocket b ws sock
      rw [hsub] at hset
      exact hset
    rwa [← heq] at hfiles
  capped ip := by
    show (members (add b.ipConnections sock.ip ws) ip).length ≤ _
    rw [members_add]
    split
    · split
      · exact Nat.le_of_lt hroom
      · rw [List.length_append, List.length_singleton]
        exact hroom
    · exact h.capped ip
  named ws' other s' hother hsub' := by
    by_cases heq : ws' = ws
    · subst heq
      rw [sockets_joined, sockets_setSocket_self, Option.some.injEq] at hother
      subst hother
      obtain rfl := Option.some.inj (hsub.symm.trans hsub')
      exact hnamed
    · rw [sockets_joined, sockets_setSocket_of_ne heq] at hother
      exact h.named ws' other s' hother hsub'

theorem addSubscription_cases (b : BlockBroadcaster M) (ws : Nat) (hcap : 0 < cfg.WS_MAX_PER_IP)
    (ip : String) (s : Subscription) (infraOnly : Bool) (status : Option M) (reading : Reading) (throw : Bool) :
    b.addSubscription cfg ws ip s infraOnly status reading throw = b ∨
    ((members b.ipConnections ip).length < cfg.WS_MAX_PER_IP ∧ ∃ sock : Socket, sock.ip = ip ∧
      sock.subscription = some s ∧
      b.addSubscription cfg ws ip s infraOnly status reading throw =
        match status with
        | none => b.joined ws sock s status
        | some message => (b.joined ws sock s status).send cfg ws message reading throw) := by
  have hmembers : members (if (b.ipConnections ip).isSome then b.ipConnections
      else Function.update b.ipConnections ip (some [])) ip = members b.ipConnections ip := by
    split
    · rfl
    · rename_i hnone
      simp only [Option.not_isSome_iff_eq_none] at hnone
      simp [members, hnone]
  have hadd : add (if (b.ipConnections ip).isSome then b.ipConnections
      else Function.update b.ipConnections ip (some [])) ip ws = add b.ipConnections ip ws := by
    unfold add
    rw [hmembers]
    split
    · rfl
    · rw [Function.update_idem]
  unfold addSubscription
  dsimp only
  rw [hmembers, hadd]
  split
  · rename_i hfull
    left
    have hsome : (b.ipConnections ip).isSome := by
      cases hip : b.ipConnections ip with
      | some set => rfl
      | none =>
        simp only [members, hip, Option.getD_none, List.length_nil] at hfull
        omega
    rw [if_pos hsome]
  · rename_i hroom
    exact .inr ⟨by omega, ⟨true, some s, ip, infraOnly && s.dbType = "indexer", none, none,
      Watch.start⟩, rfl, rfl, by cases status <;> rfl⟩

theorem Live.addSubscription (h : b.Live cfg) (hcap : 0 < cfg.WS_MAX_PER_IP)
    (hnew : b.sockets ws = none) {s : Subscription} (hnamed : s.chain ≠ "" ∧ s.network ≠ "")
    (ip : String) (infraOnly : Bool) (status : Option M) (reading : Reading) (throw : Bool) :
    (b.addSubscription cfg ws ip s infraOnly status reading throw).Live cfg := by
  rcases addSubscription_cases b ws hcap ip s infraOnly status reading throw with
    heq | ⟨hroom, sock, rfl, hsub, heq⟩
  · rw [heq]
    exact h
  · rw [heq]
    have hkept : (b.joined ws sock s status).Kept cfg := h.kept.joined hnew hnamed hsub hroom
    have hdelivered : Delivered (b.joined ws sock s status) (Function.update b.published ws []) := by
      intro ws' other hother hsub' hopen
      by_cases heq : ws' = ws
      · subst heq
        rw [Function.update_self]
        exact Function.update_self ..
      · rw [sockets_joined, sockets_setSocket_of_ne heq] at hother
        rw [Function.update_of_ne heq, ← h.delivered ws' other hother hsub' hopen]
        exact Function.update_of_ne heq ..
    cases status with
    | none => exact ⟨hkept, hdelivered⟩
    | some message =>
      have hturn : Turned cfg _ _ ws message _ := hkept.send hdelivered reading throw
      refine ⟨hturn.kept, ?_⟩
      have hdue := hturn.delivered
      rw [Function.update_self, Function.update_idem] at hdue
      rw [hturn.published]
      exact hdue

theorem Live.next (h : b.Live cfg) (hcap : 0 < cfg.WS_MAX_PER_IP) {e : Event M}
    (hok : b.Upgraded e) : (b.next cfg e).Live cfg := by
  cases e with
  | connect ws ip s infraOnly status reading throw =>
    exact h.addSubscription hcap hok.1 hok.2 ip infraOnly status reading throw
  | closing ws =>
    simp only [BlockBroadcaster.next, closing]
    split
    · rename_i sock hs
      exact h.setSocket hs ⟨rfl, rfl, rfl⟩ (by simp)
    · exact h
  | gone ws => exact h.removeSubscription ws
  | heartbeat ws appliedBlock =>
    simp only [BlockBroadcaster.next, heartbeat]
    split
    · rename_i sock hs
      split
      · exact h.setSocket hs ⟨rfl, rfl, rfl⟩ id
      · exact h
    · exact h
  | broadcast p r throws => exact h.broadcast

theorem live_run (hcap : 0 < cfg.WS_MAX_PER_IP)
    (hrun : Run (fun b e b' => b' = next cfg b e) Upgraded (empty : BlockBroadcaster M) b) :
    b.Live cfg := by
  refine hrun.invariant (live_empty cfg) ?_
  rintro b e b' h hok rfl
  exact h.next hcap hok

/-- In every run the sockets of an address that are subscribed, whatever for, are no more than its
cap, and each of them stands under its key and its address and nowhere else. -/
theorem subscribers_are_filed_and_capped (hcap : 0 < cfg.WS_MAX_PER_IP)
    (hrun : Run (fun b e b' => b' = next cfg b e) Upgraded (empty : BlockBroadcaster M) b) :
    Files b.subscribers b.keyOf ∧ Files b.ipConnections b.ipOf ∧
      ∀ (ip : String) (sockets : List Nat), sockets.Nodup →
        (∀ ws ∈ sockets, b.ipOf ws = some ip) → sockets.length ≤ cfg.WS_MAX_PER_IP := by
  have hlive := live_run hcap hrun
  refine ⟨hlive.kept.keyed, hlive.kept.counted, fun ip sockets hnodup hunder => ?_⟩
  calc sockets.length ≤ (members b.ipConnections ip).length :=
        hlive.kept.counted.length_le hnodup hunder
    _ ≤ cfg.WS_MAX_PER_IP := hlive.kept.capped ip

instance (b : BlockBroadcaster M) (e : Event M) : Decidable (b.Upgraded e) := by
  cases e <;> unfold Upgraded <;> infer_instance

def btcIndexer : Subscription := ⟨"BTC", "mainnet", "indexer"⟩

/-- Sockets 0, 1 and 2 join from one address that may have two, socket 3 from another; block 7 goes
out and socket 1, whose buffer is over the ceiling, is dropped; block 8 goes out. -/
def threeFromOneAddress : List (Event String) :=
  [.connect 0 "10.0.0.1" btcIndexer false (some "status") ⟨0, 1⟩ false,
    .connect 1 "10.0.0.1" btcIndexer false none ⟨0, 1⟩ false,
    .connect 2 "10.0.0.1" btcIndexer false none ⟨0, 1⟩ false,
    .connect 3 "10.0.0.2" btcIndexer true none ⟨0, 1⟩ false,
    .broadcast ⟨btcIndexer.key, "block 7", some "infra 7", some 7⟩
      (fun ws => ⟨if ws = 1 then 2000 else 0, 2⟩) fun _ => false,
    .broadcast ⟨btcIndexer.key, "block 8", some "infra 8", some 8⟩ (fun _ => ⟨0, 3⟩) fun _ => false]

def capTwo : Config := ⟨2, ⟨1000, 60000⟩⟩

def afterThree : BlockBroadcaster String := Runs.runAll (next capTwo) empty threeFromOneAddress

theorem run_threeFromOneAddress :
    Run (fun b e b' => b' = next capTwo b e) Upgraded (empty : BlockBroadcaster String) afterThree :=
  Runs.run_okAll (by decide)

theorem three_from_one_address_capped : members afterThree.subscribers btcIndexer.key = [0, 3] ∧
    ∀ (ip : String) (sockets : List Nat), sockets.Nodup →
      (∀ ws ∈ sockets, afterThree.ipOf ws = some ip) → sockets.length ≤ 2 :=
  ⟨by decide, (subscribers_are_filed_and_capped (by decide) run_threeFromOneAddress).2.2⟩

/-- In every run a socket that is subscribed and open was sent every event published to its key since
it joined, in order and once. -/
theorem open_subscriber_missed_nothing (hcap : 0 < cfg.WS_MAX_PER_IP)
    (hrun : Run (fun b e b' => b' = next cfg b e) Upgraded (empty : BlockBroadcaster M) b)
    (ws : Nat) (sock : Socket) (hs : b.sockets ws = some sock)
    (hsub : sock.subscription.isSome = true) (hopen : sock.isOpen = true) :
    b.sent ws = b.published ws :=
  (live_run hcap hrun).delivered ws sock hs hsub hopen

theorem infra_subscriber_missed_nothing : afterThree.sent 3 = ["infra 8", "infra 7"] ∧
    afterThree.sent 3 = afterThree.published 3 :=
  ⟨by decide, open_subscriber_missed_nothing (by decide) run_threeFromOneAddress 3
    ⟨true, some btcIndexer, "10.0.0.2", true, some 8, none, ⟨0, none⟩⟩ (by decide) (by decide)
    (by decide)⟩

end BlockBroadcaster

end XChainSync.Broadcaster
