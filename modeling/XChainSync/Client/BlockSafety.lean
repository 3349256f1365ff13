import Mathlib.Data.List.Perm.Subperm
import XChainSync.Library.Joined
import XChainSync.Library.Runs
import XChainSync.Client.BlockQuorum

/-!
# What an accepted block carries

Runs of the vote state under arrivals, quorum timeouts, applied heights and stops, with some of
the sources faulty. A group that reaches quorum has an honest member, so everything rests
on what two reports with one vote key have in common: the key joins the fields with `|`, which a
hash field sent by a faulty source may hold.
-/

namespace XChainSync.Client
open Runs
set_option autoImplicit false

/-- What happens to the vote state. -/
inductive VoteEvent where
  | arrive (event : BlockEvent) (i : SourceIndex)
  | timeout (height : Int) (lastAppliedBlock : Option Int)
  -- the apply that a timeout started has ended
  | timeoutDone (height : Int)
  | applied (lastAppliedBlock : Int)
  | stop

namespace Votes

def next (cfg : Config) (v : Votes) : VoteEvent → Votes
  | .arrive event i => (v.handleBlockQuorum cfg event i).1
  | .timeout height lastAppliedBlock =>
    match v.applyTimers height with
    | none => v
    | some event => (v.blockQuorumTimeout cfg lastAppliedBlock event).1
  | .timeoutDone height => v.dropPending height
  | .applied lastAppliedBlock => v.clearAppliedBlockWork lastAppliedBlock
  | .stop => v.stopBlockVotes

end Votes

/-! ### The sources -/

/-- A tuple field that its `String()` form tells apart: null, missing, or a string that is not
the text of one of these. -/
def Plain (x : JsVal) : Prop :=
  match x with
  | .undefined => True
  | .null => True
  | .str s => s ≠ "undefined" ∧ s ≠ "null"
  | _ => False

instance : DecidablePred Plain
  | .undefined => isTrue trivial
  | .null => isTrue trivial
  | .str _ => inferInstanceAs (Decidable (_ ∧ _))
  | .bool _ => isFalse id
  | .num _ => isFalse id
  | .obj _ _ => isFalse id

/-- What the honest sources report for a height. -/
structure HonestBlock where
  ledger_hash : JsVal
  actions_hash : JsVal
  contract_hash : JsVal
  state_hash : JsVal
  plain : Plain ledger_hash ∧ Plain actions_hash ∧ Plain contract_hash
  bare : '|' ∉ ledger_hash.text.toList ∧ '|' ∉ actions_hash.text.toList ∧
    '|' ∉ contract_hash.text.toList ∧ '|' ∉ state_hash.text.toList

namespace HonestBlock

def Carries (b : HonestBlock) (event : BlockEvent) : Prop :=
  event.ledger_hash = b.ledger_hash ∧ event.actions_hash = b.actions_hash ∧
    event.contract_hash = b.contract_hash

instance (b : HonestBlock) (event : BlockEvent) : Decidable (b.Carries event) :=
  inferInstanceAs (Decidable (_ ∧ _ ∧ _))

def Reports (b : HonestBlock) (event : BlockEvent) : Prop :=
  b.Carries event ∧ (event.state_hash.nullish ∨ event.state_hash = b.state_hash)

instance (b : HonestBlock) (event : BlockEvent) : Decidable (b.Reports event) :=
  inferInstanceAs (Decidable (_ ∧ _))

end HonestBlock

/-- A report whose vote key tells its tuple apart from every honest one. -/
def Unambiguous (event : BlockEvent) : Prop :=
  Plain event.ledger_hash ∧ Plain event.actions_hash ∧ Plain event.contract_hash ∧
    (event.state_hash.nullish ∨ '|' ∉ event.state_hash.text.toList)

instance : DecidablePred Unambiguous :=
  fun _ => inferInstanceAs (Decidable (_ ∧ _ ∧ _ ∧ _))

/-- The source set-up: who is faulty and what the others report at each height. -/
structure Sources where
  faulty : SourceIndex → Bool
  honest : Int → HonestBlock

namespace Sources

/-- The arrivals of a run: from configured sources, honest ones truthful, and all of them `good`. -/
def Arrivals (w : Sources) (cfg : Config) (good : BlockEvent → Prop) (_ : Votes) : VoteEvent → Prop
  | .arrive event i => i < cfg.sources ∧ good event ∧
      (w.faulty i = false → (w.honest event.block_index).Reports event)
  | _ => True

/-- Fewer than `effectiveQuorum()` of the active sources are faulty. -/
def Minority (w : Sources) (cfg : Config) (v : Votes) : Prop :=
  ((v.activeSourceIndices cfg).filter w.faulty).length < v.effectiveQuorum cfg

instance (w : Sources) (cfg : Config) (v : Votes) : Decidable (w.Minority cfg v) :=
  inferInstanceAs (Decidable (_ < _))

def Reachable (w : Sources) (cfg : Config) (good : BlockEvent → Prop) (v : Votes) : Prop :=
  Run (fun v e v' => v' = v.next cfg e) (w.Arrivals cfg good) Votes.init v

/-- In every run of `good` arrivals, an arrival that reaches quorum against a faulty minority is
handed on as an event of which `post` holds. -/
def AcceptedSatisfies (w : Sources) (cfg : Config) (good : BlockEvent → Prop)
    (post : Votes → BlockEvent → BlockEvent → Prop) : Prop :=
  ∀ v event i v' ev, w.Reachable cfg good v → w.Arrivals cfg good v (.arrive event i) →
    w.Minority cfg v → v.handleBlockQuorum cfg event i = (v', .accepted ev) →
    post (v.recordPendingBlockHash event i) event ev

end Sources

/-! ### Vote keys -/

theorem Plain.text_inj {x y : JsVal} (hx : Plain x) (hy : Plain y) (h : x.text = y.text) :
    x = y := by
  cases x <;> cases y <;> simp_all [Plain, JsVal.text]

theorem toList_tuple (r : BlockEvent) (state : String) :
    (baseTupleKey r ++ "|" ++ state).toList = Joined.join '|' [r.ledger_hash.text.toList,
      r.actions_hash.text.toList, r.contract_hash.text.toList, state.toList] := by
  simp [baseTupleKey, Joined.join, String.toList_append]

theorem toList_base (r : BlockEvent) :
    (baseTupleKey r).toList = Joined.join '|' [r.ledger_hash.text.toList,
      r.actions_hash.text.toList, r.contract_hash.text.toList] := by
  simp [baseTupleKey, Joined.join, String.toList_append]

/-- The last component of a vote key. -/
def voteState (r : BlockEvent) (baseStates : String → List JsVal) : String :=
  match r.state_hash.nullish, baseStates (baseTupleKey r) with
  | true, [state] => state.text
  | true, _ => "null"
  | false, _ => r.state_hash.text

theorem voteKey_eq (r : BlockEvent) (baseStates : String → List JsVal) :
    voteKey r baseStates = baseTupleKey r ++ "|" ++ voteState r baseStates := by
  unfold voteKey voteState hashTupleKey
  split <;> rename_i hn hst
  · simp only [hn, hst]
  · cases hs : r.state_hash.nullish
    · simp
    · split <;> simp_all

namespace HonestBlock
variable {b : HonestBlock} {r r' : BlockEvent}

/-- A plain report with the base key of an honest one carries the honest tuple. -/
theorem carries_of_base_eq (hr : b.Carries r) (hr' : Unambiguous r')
    (h : baseTupleKey r = baseTupleKey r') : b.Carries r' := by
  obtain ⟨hl, ha, hc⟩ := hr
  have hjoin : Joined.join '|' [b.ledger_hash.text.toList, b.actions_hash.text.toList,
      b.contract_hash.text.toList] = Joined.join '|' [r'.ledger_hash.text.toList,
      r'.actions_hash.text.toList, r'.contract_hash.text.toList] := by
    rw [← toList_base, ← h, toList_base, hl, ha, hc]
  have hfields := Joined.join_inj (by simp) (by simpa using ⟨b.bare.1, b.bare.2.1, b.bare.2.2.1⟩) hjoin
  simp only [List.cons.injEq, String.toList_inj, and_true] at hfields
  obtain ⟨hl', ha', hc'⟩ := hfields
  exact ⟨(b.plain.1.text_inj hr'.1 hl').symm, (b.plain.2.1.text_inj hr'.2.1 ha').symm,
    (b.plain.2.2.text_inj hr'.2.2.1 hc').symm⟩

/-- So does a plain report with its vote key, when that key's state component has no separator. -/
theorem base_eq_of_key_eq (hr : b.Carries r) {state state' : String} (hs : '|' ∉ state.toList)
    (h : baseTupleKey r ++ "|" ++ state = baseTupleKey r' ++ "|" ++ state') :
    baseTupleKey r = baseTupleKey r' ∧ state = state' := by
  obtain ⟨hl, ha, hc⟩ := hr
  have hjoin := congrArg String.toList h
  rw [toList_tuple, toList_tuple] at hjoin
  have hfields := Joined.join_inj (by simp)
    (by simpa [hl, ha, hc] using ⟨b.bare.1, b.bare.2.1, b.bare.2.2.1, hs⟩) hjoin
  simp only [List.cons.injEq, String.toList_inj, and_true] at hfields
  obtain ⟨hl', ha', hc', hs'⟩ := hfields
  exact ⟨by simp [baseTupleKey, hl', ha', hc'], hs'⟩

end HonestBlock

/-! ### Reports only come from arrivals -/

/-- No report of `v'` is missing in `v`. -/
def Votes.Within (v' v : Votes) : Prop :=
  ∀ h i r, v'.pendingHashes h i = some r → v.pendingHashes h i = some r

namespace Votes
variable {v v' : Votes}

theorem Within.trans {v'' : Votes} (h : v''.Within v') (h' : v'.Within v) : v''.Within v :=
  fun height i r hr => h' height i r (h height i r hr)

theorem within_of_eq (h : v'.pendingHashes = v.pendingHashes) : v'.Within v :=
  fun _ _ _ hr => h ▸ hr

@[simp] theorem pendingHashes_evictSource (cfg : Config) (i : SourceIndex) :
    (v.evictSource cfg i).pendingHashes = v.pendingHashes := by
  unfold evictSource
  split
  · rfl
  · split <;> rfl

@[simp] theorem pendingHashes_strikeSource (cfg : Config) (i : SourceIndex) (height : Int) :
    (v.strikeSource cfg i height).pendingHashes = v.pendingHashes := by
  unfold strikeSource
  split
  · rfl
  · dsimp only
    rw [apply_ite Votes.pendingHashes, pendingHashes_evictSource, ite_self]

theorem dropPending_within (v : Votes) (height : Int) : (v.dropPending height).Within v := by
  intro h i r hr
  simp only [dropPending] at hr
  split at hr
  · simp at hr
  · exact hr

theorem settle_within (v : Votes) (height : Int) : (v.settle height).Within v :=
  v.dropPending_within height

theorem acceptBlockQuorum_within (cfg : Config) (v : Votes) (height : Int)
    (pending : Reports) (key : String) (t : Tally) :
    (v.acceptBlockQuorum cfg height pending key t).Within v := by
  unfold acceptBlockQuorum
  refine (settle_within _ height).trans (within_of_eq ?_)
  refine List.foldlRecOn _ _ (motive := fun w : Votes => w.pendingHashes = v.pendingHashes) rfl ?_
  intro w hw i _
  split
  · exact hw
  · split
    · exact hw
    · split
      · rw [pendingHashes_strikeSource, hw]
      · exact hw

theorem rejectBlockWithoutQuorum_within (cfg : Config) (v : Votes) (height : Int) :
    (v.rejectBlockWithoutQuorum cfg height).Within v := by
  refine Within.trans ?_ (settle_within v height)
  unfold rejectBlockWithoutQuorum
  split <;> exact within_of_eq rfl

theorem armBlockQuorumTimer_within (v : Votes) (event : BlockEvent) :
    (v.armBlockQuorumTimer event).Within v := by
  unfold armBlockQuorumTimer
  split <;> exact within_of_eq rfl

theorem handleBlockQuorum_within (cfg : Config) (v : Votes) (event : BlockEvent)
    (i : SourceIndex) :
    (v.handleBlockQuorum cfg event i).1.Within v ∨
      (v.handleBlockQuorum cfg event i).1.Within (v.recordPendingBlockHash event i) := by
  unfold handleBlockQuorum
  split
  · exact Or.inl (within_of_eq rfl)
  · split
    · exact Or.inl (within_of_eq rfl)
    · refine Or.inr ?_
      dsimp only
      split
      · exact acceptBlockQuorum_within cfg _ _ _ _ _
      · split
        · exact rejectBlockWithoutQuorum_within cfg _ _
        · exact armBlockQuorumTimer_within _ _

theorem blockQuorumTimeout_within (cfg : Config) (v : Votes) (last : Option Int)
    (event : BlockEvent) : (v.blockQuorumTimeout cfg last event).1.Within v := by
  unfold blockQuorumTimeout
  dsimp only
  split
  · split
    · exact within_of_eq rfl
    · split
      · exact rejectBlockWithoutQuorum_within cfg _ _
      · split
        · exact dropPending_within _ _
        · exact within_of_eq rfl
  · exact within_of_eq rfl

/-- Only an arrival adds a report, its own. -/
theorem next_within (cfg : Config) (v : Votes) (e : VoteEvent) :
    (v.next cfg e).Within v ∨
      ∃ event i, e = .arrive event i ∧ (v.next cfg e).Within (v.recordPendingBlockHash event i) := by
  cases e with
  | arrive event i =>
    rcases v.handleBlockQuorum_within cfg event i with h | h
    · exact Or.inl h
    · exact Or.inr ⟨event, i, rfl, h⟩
  | timeout height last =>
    refine Or.inl ?_
    simp only [next]
    split
    · exact within_of_eq rfl
    · exact blockQuorumTimeout_within cfg v last _
  | timeoutDone height => exact Or.inl (dropPending_within v height)
  | applied last =>
    refine Or.inl fun h i r hr => ?_
    simp only [next, clearAppliedBlockWork] at hr
    split at hr
    · simp at hr
    · exact hr
  | stop =>
    refine Or.inl fun h i r hr => ?_
    simp [next, stopBlockVotes] at hr

end Votes

namespace Sources
variable {w : Sources} {cfg : Config} {good : BlockEvent → Prop} {v : Votes}

/-- Every report held is one the run allows its source to send. -/
def HeldReports (w : Sources) (cfg : Config) (good : BlockEvent → Prop) (v : Votes) : Prop :=
  ∀ h i r, v.pendingHashes h i = some r → r.block_index = h ∧ w.Arrivals cfg good v (.arrive r i)

theorem HeldReports.within {v' : Votes} (hv : w.HeldReports cfg good v) (h : v'.Within v) :
    w.HeldReports cfg good v' :=
  fun height i r hr => hv height i r (h height i r hr)

theorem HeldReports.record (hv : w.HeldReports cfg good v) {event : BlockEvent} {i : SourceIndex}
    (harr : w.Arrivals cfg good v (.arrive event i)) :
    w.HeldReports cfg good (v.recordPendingBlockHash event i) := by
  intro h j r hr
  simp only [Votes.recordPendingBlockHash] at hr
  split at hr
  · rename_i heq
    obtain ⟨rfl, rfl⟩ := heq
    obtain rfl := Option.some.inj hr
    exact ⟨rfl, harr⟩
  · exact hv h j r hr

theorem Reachable.heldReports (h : w.Reachable cfg good v) : w.HeldReports cfg good v := by
  refine Run.invariant ?_ ?_ h
  · intro h i r hr
    simp [Votes.init] at hr
  · rintro t e _ ht hok rfl
    rcases t.next_within cfg e with hw | ⟨event, i, rfl, hw⟩
    · exact ht.within hw
    · exact (ht.record hok).within hw

end Sources

/-! ### Accepted groups -/

namespace Votes
variable {cfg : Config} {v v' : Votes} {event ev : BlockEvent} {i j : SourceIndex}

/-- What `handleBlockQuorum` has checked when it accepts: `event` is recorded, its group does not
abstain and has reached quorum. -/
theorem handleBlockQuorum_accepted (h : v.handleBlockQuorum cfg event i = (v', .accepted ev)) :
    let u := v.recordPendingBlockHash event i
    let pending := u.pendingHashes event.block_index
    let t := u.tally cfg pending
    let key := voteKey event t.baseStates
    v.isEvicted i = false ∧ t.abstain pending key = false ∧
      v.effectiveQuorum cfg ≤ (t.group pending key).length ∧
      ev = checkableGroupEvent pending (t.group pending key) event := by
  intro u pending t key
  unfold handleBlockQuorum at h
  split at h
  · simp at h
  · split at h
    · simp at h
    · rename_i hev
      dsimp only at h
      split at h
      · rename_i hq
        simp only [Bool.and_eq_true, Bool.not_eq_true', decide_eq_true_eq] at hq
        simp only [Prod.mk.injEq, QuorumAction.accepted.injEq] at h
        exact ⟨by simpa using hev, hq.1, hq.2, h.2.symm⟩
      · split at h <;> simp at h

theorem mem_tally_active {pending : Reports} :
    j ∈ (v.tally cfg pending).active ↔
      j < cfg.sources ∧ (pending j).isSome ∧ v.isEvicted j = false := by
  simp [tally]

theorem mem_group {pending : Reports} {key : String} :
    j ∈ (v.tally cfg pending).group pending key ↔ j < cfg.sources ∧ v.isEvicted j = false ∧
      ∃ r, pending j = some r ∧ voteKey r (v.tally cfg pending).baseStates = key := by
  simp only [Tally.group, List.mem_filter, mem_tally_active, Tally.key, decide_eq_true_eq,
    Option.map_eq_some_iff]
  constructor
  · rintro ⟨⟨hj, -, he⟩, hr⟩
    exact ⟨hj, he, hr⟩
  · rintro ⟨hj, he, r, hr, hk⟩
    exact ⟨⟨hj, by simp [hr], he⟩, r, hr, hk⟩

theorem mem_baseStates {pending : Reports} {base : String} {x : JsVal} :
    x ∈ (v.tally cfg pending).baseStates base ↔ ∃ j r, j < cfg.sources ∧ v.isEvicted j = false ∧
      pending j = some r ∧ baseTupleKey r = base ∧ r.state_hash = x ∧ x.nullish = false := by
  simp only [tally, List.mem_dedup, List.mem_filterMap, List.mem_filter, List.mem_range,
    Bool.and_eq_true, Bool.not_eq_true', Option.bind_eq_some_iff, Option.ite_none_right_eq_some,
    Option.some.injEq]
  constructor
  · rintro ⟨j, ⟨hj, -, he⟩, r, hr, ⟨hb, hn⟩, rfl⟩
    exact ⟨j, r, hj, he, hr, hb, rfl, hn⟩
  · rintro ⟨j, r, hj, he, hr, hb, rfl, hn⟩
    exact ⟨j, ⟨hj, by simp [hr], he⟩, r, hr, ⟨hb, hn⟩, rfl⟩

/-- The payload applied is a member's report. -/
theorem checkableGroupEvent_mem {pending : Reports} {members : List SourceIndex}
    (hi : i ∈ members) (hp : pending i = some event) :
    ∃ j ∈ members, pending j = some (checkableGroupEvent pending members event) := by
  unfold checkableGroupEvent
  split
  · cases hf : (members.filterMap pending).find? fun r => !r.state_hash.nullish with
    | none => exact ⟨i, hi, hp⟩
    | some r => simpa using List.mem_of_find?_eq_some hf
  · exact ⟨i, hi, hp⟩

end Votes

namespace Sources
variable {w : Sources} {cfg : Config} {good : BlockEvent → Prop} {v : Votes}

/-- A group of quorum size has an honest member. -/
theorem Minority.exists_honest (hfew : w.Minority cfg v) {pending : Reports} {key : String}
    (hq : v.effectiveQuorum cfg ≤ ((v.tally cfg pending).group pending key).length) :
    ∃ j ∈ (v.tally cfg pending).group pending key, w.faulty j = false := by
  by_contra hall
  have hsub : (v.tally cfg pending).group pending key ⊆
      (v.activeSourceIndices cfg).filter w.faulty := by
    intro j hj
    obtain ⟨hlt, he, -⟩ := Votes.mem_group.mp hj
    refine List.mem_filter.mpr ⟨by simp [Votes.activeSourceIndices, hlt, he], ?_⟩
    cases hf : w.faulty j with
    | true => rfl
    | false => exact absurd ⟨j, hj, hf⟩ hall
  have hnodup : ((v.tally cfg pending).group pending key).Nodup :=
    (List.nodup_range.filter _).filter _
  have hle := (hnodup.subperm hsub).length_le
  exact absurd hfew (by unfold Minority; omega)

/-- An accepted event and an honest report of the same height, held under one vote key that does
not abstain. -/
structure SharedKey (w : Sources) (cfg : Config) (good : BlockEvent → Prop) (u : Votes)
    (event ev r : BlockEvent) : Prop where
  held : w.HeldReports cfg good u
  honest : (w.honest event.block_index).Reports r
  honest_held : ∃ j < cfg.sources, u.isEvicted j = false ∧
    u.pendingHashes event.block_index j = some r
  accepted_held : ∃ j < cfg.sources, u.isEvicted j = false ∧
    u.pendingHashes event.block_index j = some ev
  same_key : voteKey r (u.tally cfg (u.pendingHashes event.block_index)).baseStates =
    voteKey ev (u.tally cfg (u.pendingHashes event.block_index)).baseStates
  no_abstain : (u.tally cfg (u.pendingHashes event.block_index)).abstain
    (u.pendingHashes event.block_index)
    (voteKey r (u.tally cfg (u.pendingHashes event.block_index)).baseStates) = false

theorem exists_sharedKey {event ev : BlockEvent} {i : SourceIndex} {v' : Votes}
    (hv : w.Reachable cfg good v) (harr : w.Arrivals cfg good v (.arrive event i))
    (hfew : w.Minority cfg v) (h : v.handleBlockQuorum cfg event i = (v', .accepted ev)) :
    ∃ r, w.SharedKey cfg good (v.recordPendingBlockHash event i) event ev r := by
  obtain ⟨hi, hab, hq, rfl⟩ := Votes.handleBlockQuorum_accepted h
  have hheld := hv.heldReports.record harr
  have hfew' : w.Minority cfg (v.recordPendingBlockHash event i) := hfew
  obtain ⟨j, hj, hjf⟩ := hfew'.exists_honest hq
  obtain ⟨hjlt, hje, r, hjr, hjk⟩ := Votes.mem_group.mp hj
  have hself : (v.recordPendingBlockHash event i).pendingHashes event.block_index i =
      some event := by simp [Votes.recordPendingBlockHash]
  obtain ⟨k, hk, hkr⟩ := Votes.checkableGroupEvent_mem
    (Votes.mem_group.mpr ⟨harr.1, hi, event, hself, rfl⟩) hself
  obtain ⟨hklt, hke, ev, hkr', hkk⟩ := Votes.mem_group.mp hk
  obtain rfl := Option.some.inj (hkr.symm.trans hkr')
  obtain ⟨hrh, -, -, hrr⟩ := hheld _ _ _ hjr
  refine ⟨r, hheld, hrh ▸ hrr hjf, ⟨j, hjlt, hje, hjr⟩, ⟨k, hklt, hke, hkr⟩,
    hjk.trans hkk.symm, ?_⟩
  rw [hjk]
  exact hab

namespace SharedKey
variable {u : Votes} {event ev r : BlockEvent}

theorem good_ev (h : w.SharedKey cfg good u event ev r) : good ev := by
  obtain ⟨j, -, -, hj⟩ := h.accepted_held
  exact (h.held _ _ _ hj).2.2.1

/-- The state component of the honest report's key has no separator. -/
theorem voteState_bare (h : w.SharedKey cfg good u event ev r)
    (hgood : ∀ e, good e → Unambiguous e) :
    '|' ∉ (voteState r (u.tally cfg (u.pendingHashes event.block_index)).baseStates).toList := by
  unfold voteState
  split
  · rename_i x _ hx
    have hmem : x ∈ (u.tally cfg (u.pendingHashes event.block_index)).baseStates
        (baseTupleKey r) := by simp [hx]
    obtain ⟨j, s, -, -, hs, -, rfl, hn⟩ := Votes.mem_baseStates.mp hmem
    obtain ⟨-, -, hgs, -⟩ := h.held _ _ _ hs
    exact (hgood s hgs).2.2.2.resolve_left (by simp [hn])
  · decide
  · rename_i hn
    rw [h.honest.2.resolve_left (by simp [hn])]
    exact (w.honest event.block_index).bare.2.2.2

theorem fields_eq (h : w.SharedKey cfg good u event ev r) (hgood : ∀ e, good e → Unambiguous e) :
    baseTupleKey r = baseTupleKey ev ∧
      voteState r (u.tally cfg (u.pendingHashes event.block_index)).baseStates =
        voteState ev (u.tally cfg (u.pendingHashes event.block_index)).baseStates := by
  have hkey := h.same_key
  rw [voteKey_eq, voteKey_eq] at hkey
  exact HonestBlock.base_eq_of_key_eq h.honest.1 (h.voteState_bare hgood) hkey

theorem carries (h : w.SharedKey cfg good u event ev r) (hgood : ∀ e, good e → Unambiguous e) :
    (w.honest event.block_index).Carries ev :=
  HonestBlock.carries_of_base_eq h.honest.1 (hgood ev h.good_ev) (h.fields_eq hgood).1

end SharedKey

/-- The honest tuple of the height is the one applied. -/
def CarriesHonestTuple (w : Sources) (_ : Votes) (event ev : BlockEvent) : Prop :=
  (w.honest event.block_index).Carries ev

theorem accepted_tuple_is_honest (w : Sources) (cfg : Config) :
    w.AcceptedSatisfies cfg Unambiguous w.CarriesHonestTuple := by
  intro v event i v' ev hv harr hfew h
  obtain ⟨r, hr⟩ := exists_sharedKey hv harr hfew h
  exact hr.carries fun _ he => he

def honestBlock : HonestBlock where
  ledger_hash := .str "aa"
  actions_hash := .str "bb"
  contract_hash := .str "cc"
  state_hash := .str "dd"
  plain := by simp [Plain]
  bare := by simp [JsVal.text]

/-- The sources from `first` on are faulty. -/
def faultyFrom (first : SourceIndex) : Sources := ⟨fun i => first ≤ i, fun _ => honestBlock⟩

/-- A report of height 11 with the honest ledger and actions hashes. -/
def report (contract_hash state_hash : JsVal) : BlockEvent :=
  ⟨11, .str "aa", .str "bb", contract_hash, state_hash, some 0⟩

theorem reachable_arrivals (good : BlockEvent → Prop) (first : SourceIndex) (cfg : Config)
    (arrivals : List (BlockEvent × SourceIndex)) (h : ∀ a ∈ arrivals, a.2 < cfg.sources ∧
      good a.1 ∧ ((faultyFrom first).faulty a.2 = false → honestBlock.Reports a.1)) :
    (faultyFrom first).Reachable cfg good
      (runAll (Votes.next cfg) Votes.init (arrivals.map fun a => .arrive a.1 a.2)) := by
  refine run_runAll _ _ ?_
  intro pre e post heq
  obtain ⟨a, ha, rfl⟩ := List.mem_map.mp (heq ▸ List.mem_append_cons_self)
  exact h a ha

/-- Two faulty sources of four place a `|` so that the honest null report, one with a spoilt
state_hash and one with a spoilt contract_hash share a vote key. -/
theorem separator_in_hashes_counterexample :
    ¬ (faultyFrom 2).AcceptedSatisfies (majorityOf 4) (fun _ => True)
      (faultyFrom 2).CarriesHonestTuple := by
  intro h
  have hreach := reachable_arrivals (fun _ => True) 2 (majorityOf 4)
    [(report (.str "cc") .null, 0), (report (.str "cc") (.str "x|y"), 2)] (by decide)
  have hbad := h _ (report (.str "cc|x") (.str "y")) 3 _ (report (.str "cc|x") (.str "y")) hreach
    ⟨by decide, trivial, nofun⟩ (by decide) (Prod.ext rfl (by decide))
  exact absurd hbad.2.2 (by decide)

/-- Three honest sources of four, one of them silent about the state. -/
theorem accepted_tuple_is_honest_of_three :
    honestBlock.Carries (report (.str "cc") (.str "dd")) := by
  have hreach := reachable_arrivals Unambiguous 3 (majorityOf 4)
    [(report (.str "cc") .null, 0), (report (.str "c|c") (.str "dd"), 3),
      (report (.str "cc") .null, 1)] (by decide)
  exact accepted_tuple_is_honest (faultyFrom 3) (majorityOf 4) _
    (report (.str "cc") (.str "dd")) 2 _ (report (.str "cc") (.str "dd")) hreach
    ⟨by decide, by decide, by decide⟩
    (by decide) (Prod.ext rfl (by decide))

/-! ### State hashes -/

/-- An unambiguous report whose state_hash, when it has one, is a string. -/
def UnambiguousState (event : BlockEvent) : Prop :=
  Unambiguous event ∧ (event.state_hash.nullish ∨ event.state_hash = .str event.state_hash.text)

instance : DecidablePred UnambiguousState := fun _ => inferInstanceAs (Decidable (_ ∧ _))

/-- Some active honest source holds the height's true state_hash. -/
def HonestStateHeld (w : Sources) (cfg : Config) (u : Votes) (height : Int) : Prop :=
  ∃ j < cfg.sources, u.isEvicted j = false ∧ w.faulty j = false ∧
    ∃ r, u.pendingHashes height j = some r ∧ r.state_hash.nullish = false

/-- The state_hash applied is null or the true one. -/
def StateHonest (w : Sources) (_ : Votes) (event ev : BlockEvent) : Prop :=
  ev.state_hash.nullish ∨ ev.state_hash = (w.honest event.block_index).state_hash

/-- So it is unless every active honest source that has reported abstained. -/
def StateHonestOrAbstained (w : Sources) (cfg : Config) (u : Votes) (event ev : BlockEvent) :
    Prop :=
  w.StateHonest u event ev ∨ ¬ w.HonestStateHeld cfg u event.block_index

theorem SharedKey.state_eq {u : Votes} {event ev r : BlockEvent}
    (h : w.SharedKey cfg UnambiguousState u event ev r)
    (hheld : w.HonestStateHeld cfg u event.block_index) (hn : ev.state_hash.nullish = false) :
    ev.state_hash = (w.honest event.block_index).state_hash := by
  obtain ⟨hbase, hstate⟩ := h.fields_eq fun _ he => he.1
  obtain ⟨k, hk, hke, hkf, s, hks, hsn⟩ := hheld
  obtain ⟨hsh, -, hgs, hsr⟩ := h.held _ _ _ hks
  have hsr : (w.honest event.block_index).Reports s := hsh ▸ hsr hkf
  have hstrue := hsr.2.resolve_left (by simp [hsn])
  have hsbase : baseTupleKey s = baseTupleKey ev := by
    rw [← hbase]
    simp only [baseTupleKey, hsr.1.1, hsr.1.2.1, hsr.1.2.2, h.honest.1.1, h.honest.1.2.1,
      h.honest.1.2.2]
  -- both the applied and the true state_hash stand beside the honest base tuple
  have hmem : ev.state_hash ∈ (u.tally cfg (u.pendingHashes event.block_index)).baseStates
      (baseTupleKey r) := by
    obtain ⟨j, hj, hje, hjev⟩ := h.accepted_held
    exact Votes.mem_baseStates.mpr ⟨j, ev, hj, hje, hjev, hbase.symm, rfl, hn⟩
  have hmem' : s.state_hash ∈ (u.tally cfg (u.pendingHashes event.block_index)).baseStates
      (baseTupleKey r) :=
    Votes.mem_baseStates.mpr ⟨k, s, hk, hke, hks, hsbase.trans hbase.symm, rfl, hsn⟩
  by_contra hne
  cases hrn : r.state_hash.nullish with
  | true =>
    -- the honest null report would abstain beside two state hashes
    obtain ⟨j, hj, hje, hjr⟩ := h.honest_held
    have htwo : 1 < ((u.tally cfg (u.pendingHashes event.block_index)).baseStates
        (baseTupleKey r)).length := by
      by_contra hle
      obtain ⟨x, hx⟩ := List.length_eq_one_iff.mp
        (Nat.le_antisymm (Nat.le_of_not_lt hle) (List.length_pos_of_mem hmem))
      rw [hx, List.mem_singleton] at hmem hmem'
      exact hne (by rw [hmem, ← hmem', hstrue])
    have hab := h.no_abstain
    simp only [Votes.Tally.abstain, List.any_eq_false] at hab
    have hj := hab j (Votes.mem_tally_active.mpr ⟨hj, by simp [hjr], hje⟩)
    simp [hjr, hrn, htwo] at hj
  | false =>
    have htext : r.state_hash.text = ev.state_hash.text := by
      simpa [voteState, hrn, hn] using hstate
    have hx := h.good_ev.2.resolve_left (by simp [hn])
    obtain ⟨j, -, -, hjr⟩ := h.honest_held
    obtain ⟨-, -, hgr, -⟩ := h.held _ _ _ hjr
    have hy := hgr.2.resolve_left (by simp [hrn])
    have hrt := h.honest.2.resolve_left (by simp [hrn])
    exact hne (by rw [hx, ← htext, ← hy, hrt])

theorem accepted_state_is_honest_or_abstained (w : Sources) (cfg : Config) :
    w.AcceptedSatisfies cfg UnambiguousState (w.StateHonestOrAbstained cfg) := by
  intro v event i v' ev hv harr hfew h
  obtain ⟨r, hr⟩ := exists_sharedKey hv harr hfew h
  by_cases hheld : w.HonestStateHeld cfg (v.recordPendingBlockHash event i) event.block_index
  · refine Or.inl ?_
    cases hn : ev.state_hash.nullish with
    | true => exact Or.inl hn
    | false => exact Or.inr (hr.state_eq hheld hn)
  · exact Or.inr hheld

/-- One of two sources is faulty; the honest one has not committed the state yet, and its null
report joins the fabricated state_hash. -/
theorem fabricated_state_counterexample :
    ¬ (faultyFrom 1).AcceptedSatisfies (majorityOf 2) UnambiguousState
      (faultyFrom 1).StateHonest := by
  intro h
  have hreach := reachable_arrivals UnambiguousState 1 (majorityOf 2) [(report (.str "cc") .null, 0)] (by decide)
  have hbad := h _ (report (.str "cc") (.str "ee")) 1 _ (report (.str "cc") (.str "ee")) hreach
    ⟨by decide, by decide, by decide⟩
    (by decide) (Prod.ext rfl (by decide))
  exact absurd hbad (by simp [StateHonest, report, JsVal.nullish, faultyFrom, honestBlock])

/-- With one honest state_hash held, the fabricated one does not pass for the null report. -/
theorem accepted_state_of_three :
    (faultyFrom 3).StateHonestOrAbstained (majorityOf 4)
      ((runAll (Votes.next (majorityOf 4)) Votes.init
        [.arrive (report (.str "cc") (.str "dd")) 0, .arrive (report (.str "cc") (.str "ee")) 3,
          .arrive (report (.str "cc") (.str "dd")) 1]).recordPendingBlockHash
        (report (.str "cc") (.str "dd")) 2)
      (report (.str "cc") (.str "dd")) (report (.str "cc") (.str "dd")) := by
  have hreach := reachable_arrivals UnambiguousState 3 (majorityOf 4)
    [(report (.str "cc") (.str "dd"), 0), (report (.str "cc") (.str "ee"), 3),
      (report (.str "cc") (.str "dd"), 1)] (by decide)
  exact accepted_state_is_honest_or_abstained (faultyFrom 3) (majorityOf 4) _
    (report (.str "cc") (.str "dd")) 2 _ (report (.str "cc") (.str "dd")) hreach
    ⟨by decide, by decide, by decide⟩
    (by decide) (Prod.ext rfl (by decide))

end Sources

end XChainSync.Client
