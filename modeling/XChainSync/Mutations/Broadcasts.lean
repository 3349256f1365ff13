import XChainSync.Library.Runs
import XChainSync.Mutations.Applying

/-!
# Stake rows converge over every run of broadcasts

A payload may be read from a view whose tip is above its block, so the rows it carries may be ahead
of the chain the follower has. They stay right as long as no view is left behind that mutated above
the fork a row it had carried.
-/

namespace XChainSync.Mutations
open Rollback Server UndoJournal KeyedRows
open Runs (Run)
set_option autoImplicit false

variable {A : Type} {p : Params A} {first b : Int} {chain next view : List (StakeBlock A)}
  {kind : RailKind} {f f' : Follower A}
  {reach reach' : RailKind → Int → List (StakeBlock A) → Prop}

/-! ### The stakes of the chain are there -/

def Covers (p : Params A) (first : Int) (chain : List (StakeBlock A)) (f : Follower A) : Prop :=
  ∀ kind, ∀ s₀ ∈ ((tables p first chain).rails kind).stakes,
    ∃ s ∈ (f.rails kind).stakes, s.action_index = s₀.action_index

theorem action_index_ite {c : Prop} [Decidable c] {s s' : Stake A} {a : Int}
    (hs : s.action_index = a) (hs' : s'.action_index = a) :
    (if c then s else s').action_index = a := by
  split
  · exact hs
  · exact hs'

theorem stake_in_rollback {rail : Rail A} {firstActionIndex : Option Int} {s : Stake A}
    (hs : s ∈ rail.stakes) (hlive : survives firstActionIndex s.action_index = true) :
    ∃ s' ∈ (rail.rollback p firstActionIndex b kind).stakes, s'.action_index = s.action_index := by
  obtain ⟨g, hsame, -, heq⟩ := restore_cases p b kind rail
  have hkey (d : Option Int) : (⟨g .stakes s.toBond, d⟩ : Stake A).action_index = s.action_index :=
    (hsame .stakes s.toBond).action_index
  simp only [Rail.rollback, Rail.deleteOrphaned, Rail.reopenUnstakes, heq, Rail.resetDeactivations,
    Rail.mapBonds, List.map_map, List.mem_filter, List.mem_map]
  refine ⟨_, ⟨⟨s, hs, rfl⟩, ?_⟩, action_index_ite (hkey _) (hkey _)⟩
  exact (congrArg (survives firstActionIndex) (action_index_ite (hkey _) (hkey _))).trans hlive

theorem Covers.rolledBack {short : List (StakeBlock A)} (hcovers : Covers p first chain f)
    (h : Holds p first chain reach f) (hchain : Written p first chain) (hshort : short <+: chain) :
    Covers p first short (f.rollbackIndexer p (nextHeight first short)) := by
  intro kind s₀ hs₀
  have hcut := hchain.cut hshort
  obtain ⟨s, hs, rfl⟩ := hcut.stake_of_mem hs₀
  obtain ⟨r, hr, hkey⟩ := hcovers kind s hs
  obtain ⟨k, hk⟩ := (hcut.wf.rails kind).shape.stake_known _ hs₀
  obtain ⟨hknown, hlt⟩ := (hcut.mem_actions _).mp hk
  have hlive := (hcut.splitsAt _ _ hknown).mpr hlt
  rw [← getFirstActionIndex_congr (b := nextHeight first short) h.actions] at hlive
  have hlive' : survives (getFirstActionIndex (nextHeight first short) f.actions) r.action_index =
      true := by
    rw [hkey]
    exact hlive
  have hrolled : ∃ r' ∈ ((f.rollbackIndexer p (nextHeight first short)).rails kind).stakes,
      r'.action_index = r.action_index := stake_in_rollback hr hlive'
  obtain ⟨r', hr', hkey'⟩ := hrolled
  exact ⟨r', hr', hkey'.trans hkey⟩

theorem Covers.handleReorg (hcovers : Covers p first chain f) (h : Holds p first chain reach f)
    (hchain : Written p first chain) :
    Covers p first (chain.take (b - first).toNat) (f.handleReorg p b) := by
  rcases h.handleReorg_cases b with ⟨heq, hall⟩ | ⟨heq, -, hzero⟩ | heq
  · rw [heq, hall]
    exact hcovers
  · rw [hzero, List.take_zero]
    intro kind s₀ hs₀
    simp [tables_nil, Tables.empty] at hs₀
  · rw [heq]
    exact hcovers.rolledBack h hchain (take_le (b - first).toNat chain)

theorem Covers.applied (hcovers : Covers p first chain f) (h : Holds p first chain reach f)
    (hview : Written p first view) (hchain : chain <+: next) (hnext : next <+: view)
    (hlength : next.length = chain.length + 1)
    (happly : f.applyBlock (buildBlockPayload p (tables p first view) (nextHeight first chain)) =
      some f') : Covers p first next f' := by
  intro kind s' hs'
  have hnew : (buildBlockPayload p (tables p first view) (nextHeight first chain)).block_index ∉
      f.blocks := by
    rw [h.blocks]
    exact fun hmem => absurd hmem.2 (Int.lt_irrefl _)
  obtain ⟨-, -, hrails⟩ := applyBlock_cases happly hnew
  have hthere : ∃ s ∈ (f.rails kind).stakes ++
      ((buildBlockPayload p (tables p first view) (nextHeight first chain)).data kind).stakes ++
      (buildBlockPayload p (tables p first view) (nextHeight first chain)).updated_stakes kind,
      s.action_index = s'.action_index := by
    cases hcarried : (buildBlockPayload p (tables p first view) (nextHeight first chain)).carries
        kind s'.action_index with
    | true =>
      obtain ⟨s, hs, hkey⟩ := List.any_eq_true.mp hcarried
      rw [List.append_assoc]
      exact ⟨s, List.mem_append_right _ hs, by simpa using hkey⟩
    | false =>
      obtain ⟨s, hs, hkey, -⟩ := uncarried_stays hview hchain hnext hlength hs' hcarried
      obtain ⟨r, hr, hrkey⟩ := hcovers kind s hs
      exact ⟨r, List.mem_append_left _ (List.mem_append_left _ hr), hrkey.trans hkey⟩
  obtain ⟨s, hs, hkey⟩ := hthere
  have happlied : ∃ r ∈ (f'.rails kind).stakes, r.action_index = s.action_index := by
    rw [(hrails kind).stakes_eq]
    rcases List.mem_append.mp hs with hold | hupdated
    · obtain ⟨r, hr, hrkey, -⟩ : ∃ r ∈ upsertRows (fun s : Stake A => s.action_index) _ _,
          r.action_index = s.action_index ∧ _ := foldl_mapSet_covers hold
      exact ⟨r, hr, hrkey⟩
    · exact foldl_mapSet_sets hupdated
  obtain ⟨r, hr, hrkey⟩ := happlied
  exact ⟨r, hr, hrkey.trans hkey⟩

/-! ### Rows that no view left behind has shown ahead -/

/-- Block `n` and those after it do not mutate the stake. -/
def quietFrom (p : Params A) (rail : Rail A) (n a : Int) : Bool :=
  (rail.slash_debits.all fun d =>
    d.target_table ≠ .stakes || d.stake_action_index ≠ a || d.block_index < n) &&
  rail.stakes.all fun s => s.action_index ≠ a || !atOrAbove (n + p.activationDelay) s.deactivation_block

theorem not_mutates_of_quietFrom {rail : Rail A} {n a k : Int}
    (hquiet : quietFrom p rail n a = true) (hk : n ≤ k) : mutates p rail k a = false := by
  simp only [quietFrom, Bool.and_eq_true, List.all_eq_true, Bool.or_eq_true, decide_eq_true_eq,
    Bool.not_eq_true'] at hquiet
  simp only [mutates, Bool.or_eq_false_iff, List.any_eq_false, Bool.and_eq_true, not_and,
    decide_eq_true_eq]
  constructor
  · intro d hd hrow hblock
    rcases hquiet.1 d hd with (htarget | hkey) | hbelow
    · exact htarget hrow.1
    · exact hkey hrow.2
    · omega
  · intro s hs hkey hstamp
    rcases hquiet.2 s hs with hne | hbelow
    · exact hne hkey
    · rw [hstamp, atOrAbove_some, decide_eq_false_iff_not] at hbelow
      omega

theorem Shown.quiet {V : Type} {column : Stake A → V} {s s₀ : Stake A}
    (hs₀ : s₀ ∈ ((tables p first chain).rails kind).stakes) (hkey : s₀.action_index = s.action_index)
    (hcolumn : ∀ shown, reach kind s.action_index shown → reach' kind s.action_index shown ∨
      ∀ c ∈ ((tables p first shown).rails kind).stakes, c.action_index = s.action_index →
        column s₀ = column c)
    (h : Shown p first (fun shown => shown = chain ∨ reach kind s.action_index shown) kind column s) :
    Shown p first (fun shown => shown = chain ∨ reach' kind s.action_index shown) kind column s := by
  obtain ⟨shown, hor, c, hc, hckey, hccolumn⟩ := h
  rcases hor with rfl | hreach
  · exact ⟨shown, Or.inl rfl, c, hc, hckey, hccolumn⟩
  · rcases hcolumn shown hreach with hreach' | hsame
    · exact ⟨shown, Or.inr hreach', c, hc, hckey, hccolumn⟩
    · exact ⟨chain, Or.inl rfl, s₀, hs₀, hkey, (hsame c hc hckey).trans hccolumn⟩

/-- A chain that goes on without mutating a row shows it as the chain does. -/
theorem Holds.quiet (h : Holds p first chain reach f)
    (hreach : ∀ kind a shown, reach kind a shown → chain <+: shown ∧ Written p first shown)
    (hquiet : ∀ kind a shown, reach kind a shown → reach' kind a shown ∨
      quietFrom p ((tables p first shown).rails kind) (nextHeight first chain) a = true) :
    Holds p first chain reach' f where
  blocks := h.blocks
  actions := h.actions
  slash_debits := h.slash_debits
  unstakes := h.unstakes
  stakes kind s hs := by
    have hvalue : ∀ s₀ ∈ ((tables p first chain).rails kind).stakes,
        s₀.action_index = s.action_index → ∀ shown, reach kind s.action_index shown →
        reach' kind s.action_index shown ∨
          ∀ c ∈ ((tables p first shown).rails kind).stakes, c.action_index = s.action_index →
            s₀.amount = c.amount ∧ s₀.deactivation_block = c.deactivation_block := by
      intro s₀ hs₀ hkey shown hshown
      obtain ⟨hle, hwritten⟩ := hreach kind s.action_index shown hshown
      refine (hquiet kind s.action_index shown hshown).imp_right fun hquiet c hc hckey => ?_
      refine (hwritten.cut hle).value_of_unmutated hc hs₀ (hkey.trans hckey.symm) fun k hk => ?_
      rw [hckey]
      exact not_mutates_of_quietFrom hquiet hk
    refine ⟨(h.stakes kind s hs).same, ?_, ?_⟩
    · intro s₀ hs₀ hkey
      refine ((h.stakes kind s hs).amount s₀ hs₀ hkey).quiet hs₀ hkey fun shown hshown => ?_
      exact (hvalue s₀ hs₀ hkey shown hshown).imp_right fun hv c hc hckey => (hv c hc hckey).1
    · intro s₀ hs₀ hkey
      refine ((h.stakes kind s hs).deactivation_block s₀ hs₀ hkey).quiet hs₀ hkey
        fun shown hshown => ?_
      exact (hvalue s₀ hs₀ hkey shown hshown).imp_right fun hv c hc hckey => (hv c hc hckey).2

end XChainSync.Mutations
