import XChainSync.Client.BlockSafety

/-!
# Strikes and evictions

The vote state next to a record of who dissented from an accepted group and where. A strike is
idempotent against the last one only, so heights that are accepted again after a rollback count
again; while a source is never struck below a strike it still has, its strikes are distinct heights.
-/

namespace XChainSync.Client
open Runs
set_option autoImplicit false

namespace Votes

/-- The active sources whose reports `acceptBlockQuorum` finds in another group than the arrival's. -/
def dissenters (cfg : Config) (v : Votes) (event : BlockEvent) (i : SourceIndex) :
    List SourceIndex :=
  let u := v.recordPendingBlockHash event i
  let pending := u.pendingHashes event.block_index
  let t := u.tally cfg pending
  t.active.filter fun j => match t.key pending j with
    | none => false
    | some key => key ≠ voteKey event t.baseStates && !t.abstain pending key

def dissents (cfg : Config) (v : Votes) : VoteEvent → List (SourceIndex × Int)
  | .arrive event i =>
    match (v.handleBlockQuorum cfg event i).2 with
    | .accepted _ => (v.dissenters cfg event i).map fun j => (j, event.block_index)
    | _ => []
  | _ => []

end Votes

/-- The vote state with every dissent so far. -/
structure VoteHistory where
  votes : Votes
  dissents : List (SourceIndex × Int)

namespace VoteHistory

def init : VoteHistory := ⟨Votes.init, []⟩

def next (cfg : Config) (h : VoteHistory) (e : VoteEvent) : VoteHistory :=
  ⟨h.votes.next cfg e, h.dissents ++ h.votes.dissents cfg e⟩

def Steps (cfg : Config) (h : VoteHistory) (e : VoteEvent) (h' : VoteHistory) : Prop :=
  h' = h.next cfg e

end VoteHistory

/-- `j` dissented at enough distinct heights of the window that ends at `height`. -/
structure Offence (cfg : Config) (dissents : List (SourceIndex × Int)) (j : SourceIndex)
    (height : Int) (heights : List Int) : Prop where
  distinct : heights.Nodup
  enough : cfg.sourceEvictThreshold ≤ heights.length
  dissented : ∀ b ∈ heights, (j, b) ∈ dissents
  window : ∀ b ∈ heights, height - cfg.sourceStrikeWindow < b ∧ b ≤ height

/-! ### Strikes -/

/-- What the strikes and evictions of a vote state rest on. -/
structure Fair (cfg : Config) (dissents : List (SourceIndex × Int)) (v : Votes) : Prop where
  sorted : ∀ j, (v.strikes j).Pairwise (· < ·)
  recorded : ∀ j, ∀ b ∈ v.strikes j, (j, b) ∈ dissents
  evicted : ∀ j, v.isEvicted j → ∃ height heights, Offence cfg dissents j height heights

namespace Fair
variable {cfg : Config} {ds ds' : List (SourceIndex × Int)} {v v' : Votes} {j : SourceIndex}
  {height : Int}

theorem congr (h : Fair cfg ds v) (hs : v'.strikes = v.strikes) (he : v'.evicted = v.evicted) :
    Fair cfg ds v' := by
  constructor
  · intro j
    rw [hs]
    exact h.sorted j
  · intro j
    rw [hs]
    exact h.recorded j
  · intro j hj
    rw [Votes.isEvicted_congr he] at hj
    exact h.evicted j hj

theorem mono (h : Fair cfg ds v) (hsub : ∀ d ∈ ds, d ∈ ds') : Fair cfg ds' v := by
  refine ⟨h.sorted, fun j b hb => hsub _ (h.recorded j b hb), ?_⟩
  intro j hj
  obtain ⟨height, heights, ho⟩ := h.evicted j hj
  exact ⟨height, heights, ho.distinct, ho.enough, fun b hb => hsub _ (ho.dissented b hb), ho.window⟩

theorem evictSource (h : Fair cfg ds v)
    (ho : ∃ height heights, Offence cfg ds j height heights) : Fair cfg ds (v.evictSource cfg j) := by
  unfold Votes.evictSource
  split
  · exact h
  · split
    · exact h
    · constructor
      · intro k
        dsimp only
        split
        · exact List.Pairwise.nil
        · exact h.sorted k
      · intro k b hb
        dsimp only at hb
        split at hb
        · simp at hb
        · exact h.recorded k b hb
      · intro k hk
        simp only [Votes.isEvicted, List.contains_append, Bool.or_eq_true] at hk
        rcases hk with hk | hk
        · exact h.evicted k hk
        · obtain rfl : k = j := by simpa using hk
          exact ho

/-- A strictly increasing list of heights up to `height`, with `height` at its end. -/
theorem sorted_push {old : List Int} (hs : old.Pairwise (· < ·)) (hle : ∀ b ∈ old, b ≤ height) :
    (if old.getLast? = some height then old else old ++ [height]).Pairwise (· < ·) := by
  split
  · exact hs
  · rename_i hlast
    refine List.pairwise_append.mpr ⟨hs, List.pairwise_singleton _ _, ?_⟩
    intro b hb c hc
    obtain rfl := List.mem_singleton.mp hc
    -- the last element is the largest, and it is not the new height
    obtain ⟨front, last, rfl⟩ := (List.eq_nil_or_concat' old).resolve_left (List.ne_nil_of_mem hb)
    have hne : last ≠ c := by simpa using hlast
    have hlast' := hle last (by simp)
    have hb' : b ≤ last := by
      rcases List.mem_append.mp hb with hb | hb
      · have := (List.pairwise_append.mp hs).2.2 b hb last (by simp)
        omega
      · have := List.mem_singleton.mp hb
        omega
    omega

theorem strikeSource (h : Fair cfg ds v) (hd : (j, height) ∈ ds)
    (hle : ∀ b ∈ v.strikes j, b ≤ height) : Fair cfg ds (v.strikeSource cfg j height) := by
  unfold Votes.strikeSource
  split
  · exact h
  · extract_lets old pushed strikes v'
    have hpushed : ∀ b ∈ pushed, b ∈ v.strikes j ∨ b = height := by
      intro b hb
      simp only [pushed] at hb
      split at hb
      · exact Or.inl hb
      · simpa using hb
    have hsorted : strikes.Pairwise (· < ·) := (sorted_push (h.sorted j) hle).filter _
    have hrecorded : ∀ b ∈ strikes, (j, b) ∈ ds := by
      intro b hb
      rcases hpushed b (List.mem_of_mem_filter hb) with hb | rfl
      · exact h.recorded j b hb
      · exact hd
    have hstruck : Fair cfg ds v' := by
      constructor
      · intro k
        simp only [v']
        split
        · exact hsorted
        · exact h.sorted k
      · intro k b hb
        simp only [v'] at hb
        split at hb
        · rename_i hk
          exact hk ▸ hrecorded b hb
        · exact h.recorded k b hb
      · exact h.evicted
    split
    · rename_i henough
      refine hstruck.evictSource ⟨height, strikes, ?_⟩
      refine ⟨hsorted.imp (fun hlt => Int.ne_of_lt hlt), henough, hrecorded, ?_⟩
      intro b hb
      simp only [strikes, List.mem_filter, decide_eq_true_eq] at hb
      refine ⟨hb.2, ?_⟩
      rcases hpushed b hb.1 with hb' | rfl
      · exact hle b hb'
      · exact Int.le_refl _
    · exact hstruck

end Fair

/-! ### Acceptance -/

namespace Votes
variable {cfg : Config} {ds : List (SourceIndex × Int)} {v : Votes} {event : BlockEvent}
  {i : SourceIndex}

@[simp] theorem strikes_settle (v : Votes) (height : Int) : (v.settle height).strikes = v.strikes :=
  rfl

@[simp] theorem evicted_settle (v : Votes) (height : Int) : (v.settle height).evicted = v.evicted :=
  rfl

theorem strikes_strikeSource_le {j k : SourceIndex} {height : Int}
    (hle : ∀ b ∈ v.strikes k, b ≤ height) : ∀ b ∈ (v.strikeSource cfg j height).strikes k, b ≤ height := by
  unfold strikeSource
  split
  · exact hle
  · extract_lets old pushed strikes v'
    have hstruck : ∀ b ∈ v'.strikes k, b ≤ height := by
      intro b hb
      simp only [v'] at hb
      split at hb
      · rename_i hk
        obtain rfl := hk
        have hb := List.mem_of_mem_filter hb
        simp only [pushed] at hb
        split at hb
        · exact hle b hb
        · rcases List.mem_append.mp hb with hb | hb
          · exact hle b hb
          · exact Int.le_of_eq (List.mem_singleton.mp hb)
      · exact hle b hb
    split
    · unfold evictSource
      split
      · exact hstruck
      · split
        · exact hstruck
        · intro b hb
          dsimp only at hb
          split at hb
          · simp at hb
          · exact hstruck b hb
    · exact hstruck

theorem isEvicted_of_evictSource {j k : SourceIndex}
    (h : (v.evictSource cfg j).isEvicted k = false) : v.isEvicted k = false := by
  unfold evictSource at h
  split at h
  · exact h
  · split at h
    · exact h
    · simp only [isEvicted, List.contains_append, Bool.or_eq_false_iff] at h
      exact h.1

theorem isEvicted_of_strikeSource {j k : SourceIndex} {height : Int}
    (h : (v.strikeSource cfg j height).isEvicted k = false) : v.isEvicted k = false := by
  unfold strikeSource at h
  split at h
  · exact h
  · extract_lets old pushed strikes v' at h
    have hkeep : v'.isEvicted k = false := by
      split at h
      · exact isEvicted_of_evictSource h
      · exact h
    exact hkeep

/-- Every source the fold strikes is one of `new`, and none of these has a strike above the height. -/
theorem fair_acceptBlockQuorum (hv : Fair cfg ds v) {pending : Reports} {key : String} {t : Tally}
    {height : Int} {new : List SourceIndex} (hnew : ∀ j ∈ new, (j, height) ∈ ds)
    (hle : ∀ j ∈ new, ∀ b ∈ v.strikes j, b ≤ height)
    (hd : ∀ j k, j < cfg.sources → v.isEvicted j = false → t.key pending j = some k → k ≠ key →
      t.abstain pending k = false → j ∈ new) :
    Fair cfg ds (v.acceptBlockQuorum cfg height pending key t) := by
  unfold acceptBlockQuorum
  extract_lets reported struck
  have hstruck : Fair cfg ds struck ∧ (∀ j ∈ new, ∀ b ∈ struck.strikes j, b ≤ height) ∧
      ∀ j, struck.isEvicted j = false → v.isEvicted j = false := by
    refine List.foldlRecOn _ _ (motive := fun w : Votes => Fair cfg ds w ∧
      (∀ j ∈ new, ∀ b ∈ w.strikes j, b ≤ height) ∧
        ∀ j, w.isEvicted j = false → v.isEvicted j = false) ⟨hv, hle, fun _ he => he⟩ ?_
    rintro w ⟨hw, hwle, hwe⟩ j hj
    have hjlt : j < cfg.sources := by
      simp only [reported, List.mem_filter, List.mem_range] at hj
      exact hj.1
    split
    · exact ⟨hw, hwle, hwe⟩
    · rename_i k hk
      split
      · exact ⟨hw, hwle, hwe⟩
      · rename_i hje
        split
        · rename_i hdis
          simp only [Bool.and_eq_true, decide_eq_true_eq, Bool.not_eq_true'] at hdis
          have hmem := hd j k hjlt (hwe j (by simpa using hje)) hk hdis.1 hdis.2
          refine ⟨hw.strikeSource (hnew j hmem) (hwle j hmem), ?_, ?_⟩
          · intro i hi
            exact strikes_strikeSource_le (hwle i hi)
          · intro i hi
            exact hwe i (isEvicted_of_strikeSource hi)
        · exact ⟨hw, hwle, hwe⟩
  exact hstruck.1.congr rfl rfl

/-- An arrival keeps the strikes and evictions unless it is accepted. -/
theorem handleBlockQuorum_strikes (cfg : Config) (v : Votes) (event : BlockEvent) (i : SourceIndex) :
    (∃ ev, (v.handleBlockQuorum cfg event i).2 = .accepted ev ∧
      (v.handleBlockQuorum cfg event i).1 =
        (v.recordPendingBlockHash event i).acceptBlockQuorum cfg event.block_index
          ((v.recordPendingBlockHash event i).pendingHashes event.block_index)
          (voteKey event ((v.recordPendingBlockHash event i).tally cfg
            ((v.recordPendingBlockHash event i).pendingHashes event.block_index)).baseStates)
          ((v.recordPendingBlockHash event i).tally cfg
            ((v.recordPendingBlockHash event i).pendingHashes event.block_index))) ∨
    (v.handleBlockQuorum cfg event i).1.strikes = v.strikes ∧
      (v.handleBlockQuorum cfg event i).1.evicted = v.evicted := by
  unfold handleBlockQuorum
  split
  · exact Or.inr ⟨rfl, rfl⟩
  · split
    · exact Or.inr ⟨rfl, rfl⟩
    · dsimp only
      split
      · exact Or.inl ⟨_, rfl, rfl⟩
      · refine Or.inr ?_
        split
        · unfold rejectBlockWithoutQuorum
          split <;> exact ⟨rfl, rfl⟩
        · unfold armBlockQuorumTimer
          split <;> exact ⟨rfl, rfl⟩

theorem blockQuorumTimeout_strikes (cfg : Config) (v : Votes) (last : Option Int)
    (event : BlockEvent) : (v.blockQuorumTimeout cfg last event).1.strikes = v.strikes ∧
      (v.blockQuorumTimeout cfg last event).1.evicted = v.evicted := by
  unfold blockQuorumTimeout
  dsimp only
  split
  · split
    · exact ⟨rfl, rfl⟩
    · split
      · unfold rejectBlockWithoutQuorum
        split <;> exact ⟨rfl, rfl⟩
      · split <;> exact ⟨rfl, rfl⟩
  · exact ⟨rfl, rfl⟩

/-- Only an accepted arrival strikes or evicts. -/
theorem next_strikes (cfg : Config) (v : Votes) (e : VoteEvent) :
    (∃ event i, e = .arrive event i) ∨
      (v.next cfg e).strikes = v.strikes ∧ (v.next cfg e).evicted = v.evicted := by
  cases e with
  | arrive event i => exact Or.inl ⟨event, i, rfl⟩
  | timeout height last =>
    refine Or.inr ?_
    simp only [next]
    split
    · exact ⟨rfl, rfl⟩
    · exact blockQuorumTimeout_strikes cfg v last _
  | timeoutDone height => exact Or.inr ⟨rfl, rfl⟩
  | applied last => exact Or.inr ⟨rfl, rfl⟩
  | stop => exact Or.inr ⟨rfl, rfl⟩

end Votes

namespace VoteHistory
variable {cfg : Config} {h : VoteHistory}

/-- No source is struck below a strike it still has. -/
def Ascending (cfg : Config) (h : VoteHistory) (e : VoteEvent) : Prop :=
  ∀ d ∈ h.votes.dissents cfg e, ∀ b ∈ h.votes.strikes d.1, b ≤ d.2

instance (cfg : Config) (h : VoteHistory) (e : VoteEvent) : Decidable (Ascending cfg h e) :=
  inferInstanceAs (Decidable (∀ d ∈ _, ∀ b ∈ _, _))

theorem fair_next (hf : Fair cfg h.dissents h.votes) {e : VoteEvent} (hok : Ascending cfg h e) :
    Fair cfg (h.next cfg e).dissents (h.next cfg e).votes := by
  have hmono : Fair cfg (h.next cfg e).dissents h.votes :=
    hf.mono fun d hd => List.mem_append_left _ hd
  rcases h.votes.next_strikes cfg e with ⟨event, i, rfl⟩ | ⟨hs, he⟩
  · rcases h.votes.handleBlockQuorum_strikes cfg event i with ⟨ev, hacc, heq⟩ | ⟨hs, he⟩
    · have hdis : h.votes.dissents cfg (.arrive event i) =
          (h.votes.dissenters cfg event i).map fun j => (j, event.block_index) := by
        simp only [Votes.dissents, hacc]
      change Fair cfg _ (h.votes.handleBlockQuorum cfg event i).1
      rw [heq]
      have hrec : Fair cfg (h.next cfg (.arrive event i)).dissents
          (h.votes.recordPendingBlockHash event i) := hmono.congr rfl rfl
      refine Votes.fair_acceptBlockQuorum hrec (fun j (hj : j ∈ h.votes.dissenters cfg event i) => ?_) ?_ ?_
      · refine List.mem_append_right _ ?_
        rw [hdis]
        exact List.mem_map_of_mem hj
      · intro j hj
        refine hok (j, event.block_index) ?_
        rw [hdis]
        exact List.mem_map_of_mem hj
      · intro j k hjlt hje hk hne hab
        obtain ⟨r, hr, -⟩ := Option.map_eq_some_iff.mp hk
        refine List.mem_filter.mpr ⟨Votes.mem_tally_active.mpr ⟨hjlt, by simp [hr], hje⟩, ?_⟩
        simp only [hk, hab, Bool.not_false, Bool.and_true, decide_eq_true_eq]
        exact hne
    · exact hmono.congr hs he
  · exact hmono.congr hs he

/-- Every eviction rests on enough distinct heights of one window. -/
def EvictsFairly (cfg : Config) (h : VoteHistory) : Prop :=
  ∀ j, h.votes.isEvicted j → ∃ height heights, Offence cfg h.dissents j height heights

theorem run_fair (hr : Run (Steps cfg) (Ascending cfg) init h) : Fair cfg h.dissents h.votes := by
  refine hr.invariant (I := fun h => Fair cfg h.dissents h.votes) ⟨?_, ?_, ?_⟩ ?_
  · intro j
    exact List.Pairwise.nil
  · intro j b hb
    simp [init, Votes.init] at hb
  · intro j hj
    simp [init, Votes.init, Votes.isEvicted] at hj
  · rintro t e _ ht hok rfl
    exact fair_next ht hok

end VoteHistory

/-! ### Active sources -/

namespace Votes
variable {cfg : Config} {v : Votes}

/-- An eviction takes one active source at most. -/
theorem activeSourceCount_append (cfg : Config) (v : Votes) (j : SourceIndex)
    (strikes : SourceIndex → List Int) :
    v.activeSourceCount cfg - 1 ≤
      { v with evicted := v.evicted ++ [j], strikes := strikes }.activeSourceCount cfg := by
  have hnodup : (v.activeSourceIndices cfg).Nodup := List.nodup_range.filter _
  have herase : { v with evicted := v.evicted ++ [j], strikes := strikes }.activeSourceIndices cfg =
      (v.activeSourceIndices cfg).erase j := by
    rw [hnodup.erase_eq_filter]
    simp only [activeSourceIndices, isEvicted, List.filter_filter]
    refine List.filter_congr fun k _ => ?_
    by_cases hk : k = j <;> simp [hk]
  simp only [activeSourceCount, herase]
  rw [List.length_erase]
  split <;> omega

theorem evictSource_active (hv : min 2 cfg.sources ≤ v.activeSourceCount cfg) (j : SourceIndex) :
    min 2 cfg.sources ≤ (v.evictSource cfg j).activeSourceCount cfg := by
  unfold evictSource
  split
  · exact hv
  · split
    · exact hv
    · have hle := activeSourceCount_append cfg v j fun k => if k = j then [] else v.strikes k
      omega

theorem activeSourceCount_congr {v' : Votes} (he : v'.evicted = v.evicted) :
    v'.activeSourceCount cfg = v.activeSourceCount cfg := by
  simp only [activeSourceCount, activeSourceIndices, isEvicted_congr he]

theorem strikeSource_active (hv : min 2 cfg.sources ≤ v.activeSourceCount cfg) (j : SourceIndex)
    (height : Int) : min 2 cfg.sources ≤ (v.strikeSource cfg j height).activeSourceCount cfg := by
  unfold strikeSource
  split
  · exact hv
  · extract_lets old pushed strikes v'
    have hv' : min 2 cfg.sources ≤ v'.activeSourceCount cfg := hv
    split
    · exact evictSource_active hv' j
    · exact hv'

theorem acceptBlockQuorum_active (hv : min 2 cfg.sources ≤ v.activeSourceCount cfg) (height : Int)
    (pending : Reports) (key : String) (t : Tally) :
    min 2 cfg.sources ≤ (v.acceptBlockQuorum cfg height pending key t).activeSourceCount cfg := by
  unfold acceptBlockQuorum
  rw [activeSourceCount_congr (evicted_settle _ height)]
  refine List.foldlRecOn _ _
    (motive := fun w : Votes => min 2 cfg.sources ≤ w.activeSourceCount cfg) hv ?_
  intro w hw j _
  split
  · exact hw
  · split
    · exact hw
    · split
      · exact strikeSource_active hw j height
      · exact hw

theorem next_active (hv : min 2 cfg.sources ≤ v.activeSourceCount cfg) (e : VoteEvent) :
    min 2 cfg.sources ≤ (v.next cfg e).activeSourceCount cfg := by
  rcases v.next_strikes cfg e with ⟨event, i, rfl⟩ | ⟨-, he⟩
  · rcases v.handleBlockQuorum_strikes cfg event i with ⟨ev, -, heq⟩ | ⟨-, he⟩
    · simp only [next, heq]
      exact acceptBlockQuorum_active (v := v.recordPendingBlockHash event i) hv _ _ _ _
    · rw [next, activeSourceCount_congr he]
      exact hv
  · rw [activeSourceCount_congr he]
    exact hv

end Votes

theorem VoteHistory.run_active {cfg : Config} {h : VoteHistory}
    (hr : Run (VoteHistory.Steps cfg) Any VoteHistory.init h) :
    min 2 cfg.sources ≤ h.votes.activeSourceCount cfg := by
  refine hr.invariant (I := fun h => min 2 cfg.sources ≤ h.votes.activeSourceCount cfg) ?_ ?_
  · simp [VoteHistory.init, Votes.init, Votes.activeSourceCount, Votes.activeSourceIndices,
      Votes.isEvicted]
  · rintro t e _ ht - rfl
    exact Votes.next_active ht e

/-! ### Honest sources -/

namespace Sources
variable {w : Sources} {cfg : Config} {h : VoteHistory}

/-- Arrivals as the honest sources send them, against a faulty minority. -/
def Outnumbered (w : Sources) (cfg : Config) (h : VoteHistory) (e : VoteEvent) : Prop :=
  w.Arrivals cfg (fun _ => True) h.votes e ∧ w.Minority cfg h.votes

theorem run_reachable (hr : Run (VoteHistory.Steps cfg) (w.Outnumbered cfg) VoteHistory.init h) :
    w.Reachable cfg (fun _ => True) h.votes := by
  induction hr with
  | refl => exact .refl
  | tail _ hok hs ih =>
    obtain rfl := hs
    exact .tail ih hok.1 rfl

/-- A null report beside one state_hash votes for it. -/
theorem voteState_of_mem {e : BlockEvent} {baseStates : String → List JsVal} {x : JsVal}
    (hn : e.state_hash.nullish = true) (hx : x ∈ baseStates (baseTupleKey e))
    (hone : (baseStates (baseTupleKey e)).length ≤ 1) : voteState e baseStates = x.text := by
  obtain ⟨y, hy⟩ := List.length_eq_one_iff.mp (Nat.le_antisymm hone (List.length_pos_of_mem hx))
  rw [hy, List.mem_singleton] at hx
  simp only [voteState, hn, hy, hx]

theorem voteState_of_state {e : BlockEvent} (baseStates : String → List JsVal)
    (hn : e.state_hash.nullish = false) : voteState e baseStates = e.state_hash.text := by
  simp [voteState, hn]

theorem voteState_congr {e e' : BlockEvent} (baseStates : String → List JsVal)
    (hn : e.state_hash.nullish = true) (hn' : e'.state_hash.nullish = true)
    (hbase : baseTupleKey e = baseTupleKey e') : voteState e baseStates = voteState e' baseStates := by
  simp only [voteState, hn, hn', hbase]
  split
  · rfl
  · rfl
  · contradiction

/-- Beside one honest report whose key does not abstain, another honest one has the same key or
abstains. -/
theorem honest_key {b : HonestBlock} {u : Votes} {pending : Reports} {r s : BlockEvent}
    {i j : SourceIndex} (hr : b.Reports r) (hs : b.Reports s)
    (hi : i ∈ (u.tally cfg pending).active) (hir : pending i = some r)
    (hj : j ∈ (u.tally cfg pending).active) (hjs : pending j = some s)
    (hab : (u.tally cfg pending).abstain pending (voteKey r (u.tally cfg pending).baseStates) = false) :
    voteKey s (u.tally cfg pending).baseStates = voteKey r (u.tally cfg pending).baseStates ∨
      (u.tally cfg pending).abstain pending (voteKey s (u.tally cfg pending).baseStates) = true := by
  have hbase : baseTupleKey s = baseTupleKey r := by
    simp only [baseTupleKey, hr.1.1, hr.1.2.1, hr.1.2.2, hs.1.1, hs.1.2.1, hs.1.2.2]
  -- a report with a state_hash puts the true one beside the base tuple
  have htrue : ∀ k e, k ∈ (u.tally cfg pending).active → pending k = some e → b.Reports e →
      baseTupleKey e = baseTupleKey r → e.state_hash.nullish = false →
        b.state_hash ∈ (u.tally cfg pending).baseStates (baseTupleKey r) := by
    intro k e hk hke he hbe hn
    obtain ⟨hlt, -, hev⟩ := Votes.mem_tally_active.mp hk
    have hstate := he.2.resolve_left (by simp [hn])
    exact Votes.mem_baseStates.mpr ⟨k, e, hlt, hev, hke, hbe, hstate, hstate ▸ hn⟩
  -- a null report that does not abstain stands beside one state_hash at most
  have hfew : ∀ k e, k ∈ (u.tally cfg pending).active → pending k = some e →
      baseTupleKey e = baseTupleKey r → e.state_hash.nullish = true →
        (u.tally cfg pending).abstain pending (voteKey e (u.tally cfg pending).baseStates) = false →
          ((u.tally cfg pending).baseStates (baseTupleKey r)).length ≤ 1 := by
    intro k e hk hke hbe hn hnot
    simp only [Votes.Tally.abstain, List.any_eq_false] at hnot
    have hk := hnot k hk
    simp only [hke, hn, hbe, decide_true, Bool.and_self, Bool.true_and, decide_eq_true_eq] at hk
    omega
  rw [voteKey_eq, voteKey_eq, hbase]
  by_cases hsab : (u.tally cfg pending).abstain pending
      (voteKey s (u.tally cfg pending).baseStates) = true
  · rw [voteKey_eq, hbase] at hsab
    exact Or.inr hsab
  · have hsab : (u.tally cfg pending).abstain pending
        (voteKey s (u.tally cfg pending).baseStates) = false := by simpa using hsab
    refine Or.inl (congrArg _ ?_)
    cases hrn : r.state_hash.nullish with
    | true =>
      have hone := hfew i r hi hir rfl hrn hab
      cases hsn : s.state_hash.nullish with
      | true => exact voteState_congr _ hsn hrn hbase
      | false =>
        have hstate := hs.2.resolve_left (by simp [hsn])
        rw [voteState_of_mem hrn (htrue j s hj hjs hs hbase hsn) hone, voteState_of_state _ hsn, hstate]
    | false =>
      have hstate := hr.2.resolve_left (by simp [hrn])
      cases hsn : s.state_hash.nullish with
      | true =>
        have hone := hfew j s hj hjs hbase hsn hsab
        have hmem := htrue i r hi hir hr rfl hrn
        rw [voteState_of_mem hsn (hbase ▸ hmem) (hbase ▸ hone), voteState_of_state _ hrn, hstate]
      | false =>
        have hstate' := hs.2.resolve_left (by simp [hsn])
        rw [voteState_of_state _ hrn, voteState_of_state _ hsn, hstate, hstate']

/-- A faulty minority cannot have an honest report counted as dissent. -/
theorem dissenters_faulty {v v' : Votes} {event ev : BlockEvent} {i : SourceIndex}
    (hv : w.Reachable cfg (fun _ => True) v) (harr : w.Arrivals cfg (fun _ => True) v (.arrive event i))
    (hfew : w.Minority cfg v) (hacc : v.handleBlockQuorum cfg event i = (v', .accepted ev)) :
    ∀ j ∈ v.dissenters cfg event i, w.faulty j = true := by
  obtain ⟨-, hab, hq, -⟩ := Votes.handleBlockQuorum_accepted hacc
  have hheld := hv.heldReports.record harr
  have hfew' : w.Minority cfg (v.recordPendingBlockHash event i) := hfew
  obtain ⟨k, hk, hkf⟩ := hfew'.exists_honest hq
  obtain ⟨hklt, hke, r, hkr, hkk⟩ := Votes.mem_group.mp hk
  intro j hj
  obtain ⟨hjact, hjdis⟩ := List.mem_filter.mp hj
  by_contra hjf
  obtain ⟨hjlt, hjsome, hje⟩ := Votes.mem_tally_active.mp hjact
  obtain ⟨s, hjs⟩ := Option.isSome_iff_exists.mp hjsome
  obtain ⟨hrh, -, -, hrr⟩ := hheld _ _ _ hkr
  obtain ⟨hsh, -, -, hss⟩ := hheld _ _ _ hjs
  have hhonest := honest_key (hrh ▸ hrr hkf) (hsh ▸ hss (by simpa using hjf))
    (Votes.mem_tally_active.mpr ⟨hklt, by simp [hkr], hke⟩) hkr hjact hjs (by rw [hkk]; exact hab)
  have hkey : ((v.recordPendingBlockHash event i).tally cfg
      ((v.recordPendingBlockHash event i).pendingHashes event.block_index)).key
        ((v.recordPendingBlockHash event i).pendingHashes event.block_index) j =
          some (voteKey s ((v.recordPendingBlockHash event i).tally cfg
            ((v.recordPendingBlockHash event i).pendingHashes event.block_index)).baseStates) := by
    rw [Votes.Tally.key, hjs, Option.map_some]
  simp only [hkey, Bool.and_eq_true, decide_eq_true_eq, Bool.not_eq_true'] at hjdis
  rcases hhonest with heq | habs
  · exact hjdis.1 (heq.trans hkk)
  · rw [hjdis.2] at habs
    simp at habs

theorem run_honest (hr : Run (VoteHistory.Steps cfg) (w.Outnumbered cfg) VoteHistory.init h) :
    ∀ d ∈ h.dissents, w.faulty d.1 = true := by
  induction hr with
  | refl => simp [VoteHistory.init]
  | @tail t u e ht hok hs ih =>
    obtain rfl := hs
    intro d hd
    rcases List.mem_append.mp hd with hd | hd
    · exact ih d hd
    · cases e with
      | arrive event i =>
        simp only [Votes.dissents] at hd
        split at hd
        · rename_i ev hacc
          obtain ⟨j, hj, rfl⟩ := List.mem_map.mp hd
          exact dissenters_faulty (run_reachable ht) hok.1 hok.2 (Prod.ext rfl hacc) j hj
        · simp at hd
      | _ => simp [Votes.dissents] at hd

/-- While no source is struck below a strike it still has, every eviction rests on enough distinct
heights; two sources stay active in every run; and against a faulty minority no honest source is
ever struck. -/
theorem strikes_count_distinct_blocks (w : Sources) (cfg : Config) :
    (∀ h, Run (VoteHistory.Steps cfg) (VoteHistory.Ascending cfg) VoteHistory.init h →
      h.EvictsFairly cfg) ∧
    (∀ h, Run (VoteHistory.Steps cfg) Any VoteHistory.init h →
      min 2 cfg.sources ≤ h.votes.activeSourceCount cfg) ∧
    (∀ h, Run (VoteHistory.Steps cfg) (w.Outnumbered cfg) VoteHistory.init h →
      ∀ d ∈ h.dissents, w.faulty d.1 = true) :=
  ⟨fun _ hr => (VoteHistory.run_fair hr).evicted, fun _ hr => VoteHistory.run_active hr,
    fun _ hr => run_honest hr⟩

/-- Three sources, evicted after three strikes. -/
def threeStrikes : Config := { majorityOf 3 with sourceEvictThreshold := 3, sourceStrikeWindow := 200 }

/-- Source 2 dissents at `height`, the other two agree. -/
def dissentAt (height : Int) : List VoteEvent :=
  [.arrive { report (.str "xx") .null with block_index := height } 2,
    .arrive { report (.str "cc") .null with block_index := height } 0,
    .arrive { report (.str "cc") .null with block_index := height } 1, .applied height]

/-- A reorg at block 10 has block 10 accepted again: source 2 is evicted for two blocks. -/
theorem rewound_block_is_struck_twice :
    ¬ ∀ (cfg : Config) (h : VoteHistory), Run (VoteHistory.Steps cfg) Any VoteHistory.init h →
      h.EvictsFairly cfg := by
  intro hall
  have hrun : Run (VoteHistory.Steps threeStrikes) Any VoteHistory.init
      (runAll (VoteHistory.next threeStrikes) VoteHistory.init
        (dissentAt 10 ++ dissentAt 11 ++ dissentAt 10)) :=
    run_runAll _ _ fun _ _ _ _ => trivial
  obtain ⟨height, heights, ho⟩ := hall threeStrikes _ hrun 2 (by decide)
  have hdis : (runAll (VoteHistory.next threeStrikes) VoteHistory.init
      (dissentAt 10 ++ dissentAt 11 ++ dissentAt 10)).dissents = [(2, 10), (2, 11), (2, 10)] := by
    decide
  have hsub : heights ⊆ [10, 11] := by
    intro b hb
    have hmem := ho.dissented b hb
    rw [hdis] at hmem
    simp only [List.mem_cons, Prod.mk.injEq, true_and, List.not_mem_nil, or_false] at hmem ⊢
    omega
  have hle := (ho.distinct.subperm hsub).length_le
  have henough : 3 ≤ heights.length := ho.enough
  simp only [List.length_cons, List.length_nil] at hle
  omega

/-- Three dissents at ascending heights evict source 2. -/
theorem three_dissents_evict : ∃ h : VoteHistory,
    h.votes.isEvicted 2 ∧ h.EvictsFairly threeStrikes ∧ 2 ≤ h.votes.activeSourceCount threeStrikes := by
  have hexec : ((execAll (fun h e => some (h.next threeStrikes e)) (VoteHistory.Ascending threeStrikes)
      VoteHistory.init (dissentAt 10 ++ dissentAt 11 ++ dissentAt 12)).map fun h =>
        h.votes.isEvicted 2) = some true := by
    decide
  obtain ⟨h, hh, hevicted⟩ := Option.map_eq_some_iff.mp hexec
  have hrun : Run (VoteHistory.Steps threeStrikes) (VoteHistory.Ascending threeStrikes)
      VoteHistory.init h := (run_execAll hh).step_mono fun _ _ _ hs => (Option.some.inj hs).symm
  have hall := strikes_count_distinct_blocks (faultyFrom 2) threeStrikes
  exact ⟨h, hevicted, hall.1 h hrun, hall.2.1 h (hrun.mono fun _ _ _ => trivial)⟩

end Sources

end XChainSync.Client
