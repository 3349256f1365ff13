import XChainSync.Mutations.Broadcasts

/-!
# Stake rows converge over every run of broadcasts

A block goes out on top of the last one, read from a view that may reach further. A view is left
behind when a block of another chain goes out at a height it has.
-/

namespace XChainSync.Mutations
open Rollback Server UndoJournal KeyedRows
open Runs (Run)
set_option autoImplicit false

variable {A : Type} {p : Params A} {first : Int} {kind : RailKind}

inductive Broadcast (A : Type) where
  | block (view : List (StakeBlock A))
  | reorg (b : Int)
  deriving DecidableEq

/-- The chain that went out, the height and the view of every payload, and the follower. -/
structure Link (A : Type) where
  sent : List (StakeBlock A)
  payloads : List (Int × List (StakeBlock A))
  follower : Follower A

namespace Link

/-- A follower that holds the tables of a chain, before any broadcast. -/
def start (p : Params A) (first : Int) (chain : List (StakeBlock A)) : Link A :=
  ⟨chain, [], Follower.ofChain p first chain⟩

def nextSent (l : Link A) (view : List (StakeBlock A)) : List (StakeBlock A) :=
  view.take (l.sent.length + 1)

def next (p : Params A) (first : Int) (l : Link A) : Broadcast A → Option (Link A)
  | .block view =>
    (l.follower.applyBlock
      (buildBlockPayload p (tables p first view) (nextHeight first l.sent))).map fun follower =>
        ⟨l.nextSent view, (nextHeight first l.sent, view) :: l.payloads, follower⟩
  | .reorg b => some ⟨l.sent.take (b - first).toNat, l.payloads, l.follower.handleReorg p b⟩

/-- The payload of block `n` read from `view`. -/
def payload (p : Params A) (first : Int) (q : Int × List (StakeBlock A)) : Payload A :=
  buildBlockPayload p (tables p first q.2) q.1

/-- The next block leaves no view behind that mutates from its height on a stake which one of its
payloads carried and the block's own does not. -/
def LeavesQuiet (p : Params A) (first : Int) (l : Link A) (view : List (StakeBlock A)) : Prop :=
  ∀ q ∈ l.payloads, l.sent <+: q.2 → ¬ l.nextSent view <+: q.2 →
    ∀ kind ∈ [RailKind.capability, RailKind.contract], ∀ a ∈ (payload p first q).carried kind,
      (payload p first (nextHeight first l.sent, view)).carries kind a = false →
        quietFrom p ((tables p first q.2).rails kind) (nextHeight first l.sent) a = true

def Orderly (p : Params A) (first : Int) (l : Link A) : Broadcast A → Prop
  | .block view => Written p first view ∧ l.sent <+: view ∧ l.sent.length < view.length ∧
      l.LeavesQuiet p first view
  | .reorg _ => True

/-- No payload was read from a view that still goes on from what went out. -/
def CaughtUp (l : Link A) : Prop := ∀ q ∈ l.payloads, l.sent <+: q.2 → q.2 = l.sent

/-- The views that the row may be ahead on. -/
def ahead (p : Params A) (first : Int) (l : Link A) (kind : RailKind) (a : Int)
    (shown : List (StakeBlock A)) : Prop :=
  l.sent <+: shown ∧ Written p first shown ∧
    ∃ n, (n, shown) ∈ l.payloads ∧ (payload p first (n, shown)).carries kind a = true

structure Kept (p : Params A) (first : Int) (l : Link A) : Prop where
  written : Written p first l.sent
  views : ∀ q ∈ l.payloads, Written p first q.2
  holds : Holds p first l.sent (l.ahead p first) l.follower
  covers : Covers p first l.sent l.follower

variable {l l' : Link A} {chain view : List (StakeBlock A)} {b : Int}

theorem ahead_written (kind : RailKind) (a : Int) (shown : List (StakeBlock A))
    (h : l.ahead p first kind a shown) : l.sent <+: shown ∧ Written p first shown :=
  ⟨h.1, h.2.1⟩

theorem kept_start (hchain : Written p first chain) : (start p first chain).Kept p first where
  written := hchain
  views := by simp [start]
  covers kind s₀ hs₀ := ⟨s₀, hs₀, rfl⟩
  holds :=
    { blocks := by
        intro h
        simp only [start, Follower.ofChain, List.mem_map, List.mem_range, nextHeight]
        constructor
        · rintro ⟨i, hi, rfl⟩
          omega
        · rintro ⟨hfirst, hlt⟩
          exact ⟨(h - first).toNat, by omega, by omega⟩
      actions := fun x => Iff.rfl
      slash_debits := fun kind d => Iff.rfl
      unstakes := fun kind u hu => ⟨u, hu, same_refl _, rfl⟩
      stakes := by
        intro kind s hs
        have hself : ∀ s₀ ∈ ((tables p first chain).rails kind).stakes,
            s₀.action_index = s.action_index → s₀ = s :=
          fun s₀ hs₀ hkey => stake_unique hchain.wf hs₀ hs hkey
        refine ⟨?_, ?_, ?_⟩
        · intro s₀ hs₀ hkey
          rw [hself s₀ hs₀ hkey]
          exact same_refl _
        · exact fun s₀ hs₀ hkey => ⟨chain, Or.inl rfl, s, hs, rfl, rfl⟩
        · exact fun s₀ hs₀ hkey => ⟨chain, Or.inl rfl, s, hs, rfl, rfl⟩ }

theorem Kept.reorg (h : l.Kept p first) :
    (⟨l.sent.take (b - first).toNat, l.payloads, l.follower.handleReorg p b⟩ : Link A).Kept p first
    where
  written := h.written.shorter (take_le _ _)
  views := h.views
  covers := h.covers.handleReorg h.holds h.written
  holds := by
    refine (h.holds.handleReorg h.written ahead_written).mono fun kind a shown hshown => Or.inr ?_
    exact ⟨(take_le _ _).trans hshown.1, hshown.2⟩

theorem Kept.block (h : l.Kept p first) (hok : l.Orderly p first (.block view))
    (hnext : l.next p first (.block view) = some l') : l'.Kept p first := by
  obtain ⟨hview, hsent, hlonger, hquiet⟩ := hok
  obtain ⟨follower, happly, rfl⟩ := Option.map_eq_some_iff.mp hnext
  have hle : l.nextSent view <+: view := take_le _ _
  have hlength : (l.nextSent view).length = l.sent.length + 1 := by
    rw [nextSent, List.length_take]
    omega
  have hchain : l.sent <+: l.nextSent view :=
    List.prefix_of_prefix_length_le hsent hle (by omega)
  -- what is ahead on a view that the block leaves behind has not moved, or the payload carries it
  have hsettled : Holds p first l.sent (fun kind a shown => l.ahead p first kind a shown ∧
      ((payload p first (nextHeight first l.sent, view)).carries kind a = true ∨
        l.nextSent view <+: shown)) l.follower := by
    refine h.holds.quiet ahead_written fun kind a shown hshown => ?_
    by_cases hstays : l.nextSent view <+: shown
    · exact Or.inl ⟨hshown, Or.inr hstays⟩
    cases hcarried : (payload p first (nextHeight first l.sent, view)).carries kind a with
    | true => exact Or.inl ⟨hshown, Or.inl rfl⟩
    | false =>
      obtain ⟨n, hn, hcarries⟩ := hshown.2.2
      refine Or.inr (hquiet (n, shown) hn hshown.1 hstays kind ?_ a ?_ hcarried)
      · cases kind <;> simp
      · exact Payload.mem_carried.mpr hcarries
  refine ⟨hview.shorter hle, ?_, ?_, h.covers.applied h.holds hview hchain hle hlength happly⟩
  · intro q hq
    rcases List.mem_cons.mp hq with rfl | hq
    · exact hview
    · exact h.views q hq
  · refine hsettled.applied hview hchain hle hlength ?_ ?_ happly
    · intro kind a shown huncarried hshown hne
      obtain ⟨⟨-, hwritten, n, hn, hcarries⟩, hor⟩ := hshown
      have hstays := hor.resolve_left fun hcarried =>
        Bool.false_ne_true (huncarried.symm.trans hcarried)
      exact ⟨hstays, hwritten, n, List.mem_cons_of_mem _ hn, hcarries⟩
    · intro kind a hcarried
      exact ⟨hle, hview, nextHeight first l.sent, List.mem_cons_self, hcarried⟩

theorem Kept.next (h : l.Kept p first) {e : Broadcast A} (hok : l.Orderly p first e)
    (hnext : l.next p first e = some l') : l'.Kept p first := by
  cases e with
  | block view => exact h.block hok hnext
  | reorg b =>
    obtain rfl := Option.some.inj hnext
    exact h.reorg

/-- Nothing is ahead once the follower has caught up. -/
theorem Kept.agree (h : l.Kept p first) (hcaught : l.CaughtUp) {s₀ s : Stake A}
    (hs₀ : s₀ ∈ ((tables p first l.sent).rails kind).stakes)
    (hs : s ∈ (l.follower.rails kind).stakes) (hkey : s₀.action_index = s.action_index) :
    s.amount = s₀.amount ∧ s.deactivation_block = s₀.deactivation_block := by
  have hchain : ∀ shown, shown = l.sent ∨ l.ahead p first kind s.action_index shown →
      shown = l.sent := by
    rintro shown (rfl | ⟨hle, -, n, hn, -⟩)
    · rfl
    · exact hcaught (n, shown) hn hle
  have hheld := h.holds.stakes kind s hs
  constructor
  · obtain ⟨shown, hshown, c, hc, hckey, hvalue⟩ := hheld.amount s₀ hs₀ hkey
    obtain rfl := hchain shown hshown
    obtain rfl := stake_unique h.written.wf hc hs₀ (hckey.trans hkey.symm)
    exact hvalue.symm
  · obtain ⟨shown, hshown, c, hc, hckey, hvalue⟩ := hheld.deactivation_block s₀ hs₀ hkey
    obtain rfl := hchain shown hshown
    obtain rfl := stake_unique h.written.wf hc hs₀ (hckey.trans hkey.symm)
    exact hvalue.symm

instance [DecidableEq A] (p : Params A) (first : Int) (l : Link A) (e : Broadcast A) :
    Decidable (l.Orderly p first e) := by
  cases e with
  | block view =>
    unfold Orderly LeavesQuiet
    infer_instance
  | reorg b => exact isTrue trivial

instance [DecidableEq A] (l : Link A) : Decidable l.CaughtUp :=
  inferInstanceAs (Decidable (∀ q ∈ l.payloads, _))

/-- A stake of 100 and slashes of it, all in the first unit of their blocks. -/
def intParams : Params Int := ⟨fun n => n, 6, 0⟩

def stakeBlock : StakeBlock Int :=
  ⟨some "l1", none, none, none, [.action 1, .rail .capability (.stake ⟨⟨1, 7, none, 0, 9, 100⟩, none⟩)]⟩

def slashBlock (hash : String) (action_index amount : Int) : StakeBlock Int :=
  ⟨some hash, none, none, none, [.action action_index,
    .rail .capability (.slash .stakes 1 amount ⟨action_index, 0, 0⟩)]⟩

/-- Both slashes are in the view the first of them is read from; the second is then replaced. -/
def slashedThenReplaced : List (Broadcast Int) :=
  [.block [stakeBlock, slashBlock "l2" 2 80, slashBlock "l3" 3 50], .reorg 3,
    .block [stakeBlock, slashBlock "l2" 2 80, slashBlock "m3" 3 70]]

/-- A block that replaces the second slash and leaves the stake alone: the source has 80 again and
the follower keeps 50. -/
example : (Runs.execAll (Link.next intParams 1) (fun _ _ => True) (start intParams 1 [stakeBlock])
    [.block [stakeBlock, slashBlock "l2" 2 80, slashBlock "l3" 3 50], .reorg 3,
      .block [stakeBlock, slashBlock "l2" 2 80, ⟨some "m3", none, none, none, []⟩]]).map
    (fun l => ((l.follower.rails .capability).stakes.map fun s => s.amount,
      ((tables intParams 1 l.sent).rails .capability).stakes.map fun s => s.amount)) =
    some ([50], [80]) := by
  decide +kernel

end Link

end XChainSync.Mutations
