import XChainSync.Library.Runs
import XChainSync.Tokens.Refold

/-!
# Token rows of a source and its replica

The source writes the row of a tick at each valid issue and streams it. Its own reorg replays the
issues that are left of every tick that the orphaned range touched; the replica refolds. A replica
may hold the issues from some action on only.
-/

namespace XChainSync.Tokens
open Runs
set_option autoImplicit false

/-- What one side holds of the issues, of the other ticker-bearing rows and of the tokens. -/
structure Side where
  issues : List Issue
  named : List TickRow
  tokens : TokenTable

structure System where
  refs : References
  source : Side
  replica : Side
  /-- The replica holds the rows from this action on. -/
  base : Nat
  /-- The token tables that the source has had. -/
  past : List TokenTable

/-- The fold and the list of tables that a reorg reads. -/
structure Params where
  fixed : Fixed
  dataTables : List String

/-- `DELETE FROM … WHERE action_index >= ?` on the data tables. -/
def Side.delete (side : Side) (firstActionIndex : Nat) : Side where
  issues := side.issues.filter (·.action_index < firstActionIndex)
  named := side.named.filter (·.action_index < firstActionIndex)
  tokens := fun k => (side.tokens k).filter (·.action_index < firstActionIndex)

/-- The reorg of the replica: the ticks are read before the rows go, and with them the references
that only they named. -/
def Side.rollback (p : Params) (refs refs' : References) (side : Side) (firstActionIndex : Nat) :
    Side :=
  let tickIds := collectRefoldTickIds refs side.issues side.named firstActionIndex p.dataTables
  let left := side.delete firstActionIndex
  { left with tokens := (refoldTokenRows p.fixed refs' left.issues left.tokens tickIds).tokens }

/-- The columns that a full replay of a tick gives; a tick with no issue left keeps none. -/
def replayed (fixed : Fixed) (refs : References) (issues : List Issue) (k : Nat) (row : TokenRow) :
    TokenRow :=
  match foldedOf fixed k (validRows refs issues k) with
  | some f => { row with columns := f.columns }
  | none => row

/-- The reorg of the source replays every tick of the orphaned range. -/
def Side.reorg (p : Params) (refs refs' : References) (side : Side) (firstActionIndex : Nat) : Side :=
  let tickIds := collectRefoldTickIds refs side.issues side.named firstActionIndex p.dataTables
  let left := side.delete firstActionIndex
  { left with tokens := fun k => (left.tokens k).map fun row =>
      if k ∈ tickIds then replayed p.fixed refs' left.issues k row else row }

/-- The row that the source writes at an issue: the first valid one brings it into being. -/
def issued (refs : References) (tokens : TokenTable) (i : Issue) (columns : Columns) : TokenTable :=
  if (foldRowOf refs i).isSome then
    Function.update tokens i.tick_id
      (some ⟨((tokens i.tick_id).map TokenRow.action_index).getD i.action_index, columns⟩)
  else tokens

inductive TokenEvent where
  /-- Rows of the joined tables come and go. -/
  | refer (refs : References)
  /-- An issue, and the columns that the source writes if it is valid. -/
  | issue (i : Issue) (columns : Columns)
  /-- A row of another ticker-bearing table, and the columns that the source has of its tick. -/
  | touch (row : TickRow) (columns : Columns)
  | reorg (firstActionIndex : Nat) (refs : References)
  /-- A replica starts with the rows from an action on. -/
  | bootstrap (base : Nat)

/-- The replica takes over the row of a tick. -/
def Side.stream (side : Side) (tokens : TokenTable) (k : Nat) : TokenTable :=
  Function.update side.tokens k (tokens k)

namespace System

def fresh (refs : References) : System where
  refs := refs
  source := ⟨[], [], fun _ => none⟩
  replica := ⟨[], [], fun _ => none⟩
  base := 0
  past := [fun _ => none]

/-- The source has a new token table. -/
def record (s : System) (source : Side) : System :=
  { s with source, past := source.tokens :: s.past }

def step (p : Params) (s : System) : TokenEvent → System
  | .refer refs => { s with refs }
  | .issue i columns =>
    let tokens := issued s.refs s.source.tokens i columns
    let s := s.record { s.source with issues := s.source.issues ++ [i], tokens }
    { s with replica := { s.replica with
        issues := s.replica.issues ++ [i]
        tokens := if (foldRowOf s.refs i).isSome then s.replica.stream tokens i.tick_id
          else s.replica.tokens } }
  | .touch row columns =>
    let tokens := update s.source.tokens row.tick_id columns
    let s := s.record { s.source with named := s.source.named ++ [row], tokens }
    { s with replica := { s.replica with
        named := s.replica.named ++ [row]
        tokens := s.replica.stream tokens row.tick_id } }
  | .reorg firstActionIndex refs =>
    let replica := s.replica.rollback p s.refs refs firstActionIndex
    let s' := s.record (s.source.reorg p s.refs refs firstActionIndex)
    { s' with refs, replica, base := min s.base firstActionIndex }
  | .bootstrap base =>
    { s with
      base
      replica :=
        { issues := s.source.issues.filter (base ≤ ·.action_index)
          named := s.source.named.filter (base ≤ ·.action_index)
          tokens := fun k => (s.source.tokens k).filter (base ≤ ·.action_index) } }

/-- No join of an issue that is left reads otherwise. -/
def Keeps (refs refs' : References) (issues : List Issue) : Prop :=
  ∀ i ∈ issues, foldRowOf refs' i = foldRowOf refs i

/-- New rows have new actions, and the index rows that an issue names outlast it. -/
def Admissible (s : System) : TokenEvent → Prop
  | .refer refs => Keeps s.refs refs s.source.issues
  | .issue i _ => s.base ≤ i.action_index ∧ ∀ j ∈ s.source.issues, j.action_index < i.action_index
  | .touch row _ => s.base ≤ row.action_index
  | .reorg firstActionIndex refs =>
    Keeps s.refs refs (s.source.issues.filter (·.action_index < firstActionIndex))
  | .bootstrap _ => True

end System

/-! ### Rows that go and rows that stay -/

variable {p : Params} {refs refs' : References} {issues : List Issue} {named : List TickRow}
  {tokens : TokenTable} {side : Side} {k base firstActionIndex : Nat} {s t : System}

theorem validRows_congr (h : System.Keeps refs refs' issues) (k : Nat) :
    validRows refs' issues k = validRows refs issues k := by
  unfold validRows
  rw [List.filterMap_congr h]

theorem validRows_concat (i : Issue) (k : Nat) : validRows refs (issues ++ [i]) k =
    validRows refs issues k ++
      if i.tick_id = k then (foldRowOf refs i).toList else [] := by
  unfold validRows
  rw [List.filterMap_append, List.filter_append]
  congr 1
  cases hrow : foldRowOf refs i with
  | none => simp [hrow]
  | some row =>
    have hissue := foldRowOf_issue hrow
    by_cases hk : i.tick_id = k <;> simp [hrow, hissue, hk]

/-- The valid issues of a tick among those that a predicate on the action leaves. -/
theorem validRows_filter (q : Nat → Bool) (k : Nat) :
    validRows refs (issues.filter fun i => q i.action_index) k =
      (validRows refs issues k).filter fun row => q row.issue.action_index := by
  unfold validRows
  induction issues with
  | nil => rfl
  | cons i issues ih =>
    cases hrow : foldRowOf refs i with
    | none =>
      rw [List.filterMap_cons, hrow, ← ih, List.filter_cons]
      split
      · rw [List.filterMap_cons, hrow]
      · rfl
    | some row =>
      have hissue := foldRowOf_issue hrow
      rw [List.filterMap_cons, hrow, List.filter_cons, List.filter_cons]
      by_cases hq : q i.action_index = true <;> by_cases hk : row.issue.tick_id = k
      · rw [if_pos hq, List.filterMap_cons, hrow, List.filter_cons, if_pos (decide_eq_true hk),
          if_pos (decide_eq_true hk), List.filter_cons, hissue, if_pos hq, ih]
      · rw [if_pos hq, List.filterMap_cons, hrow, List.filter_cons, if_neg (by simpa using hk),
          if_neg (by simpa using hk), ih]
      · rw [if_neg hq, if_pos (decide_eq_true hk), List.filter_cons, hissue, if_neg hq, ih]
      · rw [if_neg hq, if_neg (by simpa using hk), ih]

theorem pairwise_actions (h : Ordered issues) (k : Nat) :
    (validRows refs issues k).Pairwise fun r s => r.issue.action_index < s.issue.action_index := by
  refine List.Pairwise.filter _ ?_
  rw [List.pairwise_filterMap]
  refine h.imp fun {i j} hij r hr s hs => ?_
  rw [foldRowOf_issue hr, foldRowOf_issue hs]
  exact hij

/-- In order, what is left below an action starts with the first row of all. -/
theorem head?_filter_lt {rows : List FoldRow}
    (h : rows.Pairwise fun r s => r.issue.action_index < s.issue.action_index) (n : Nat) :
    (rows.filter fun row => row.issue.action_index < n).head? =
      rows.head?.filter fun row => row.issue.action_index < n := by
  cases rows with
  | nil => rfl
  | cons row rows =>
    rw [List.pairwise_cons] at h
    rw [List.filter_cons, List.head?_cons, Option.filter_some]
    by_cases hlt : row.issue.action_index < n
    · rw [if_pos (decide_eq_true hlt), if_pos (decide_eq_true hlt), List.head?_cons]
    · rw [if_neg (by simpa using hlt), if_neg (by simpa using hlt)]
      have hnone : (rows.filter fun row => row.issue.action_index < n) = [] := by
        rw [List.filter_eq_nil_iff]
        intro r hr hn
        have := h.1 r hr
        exact hlt (this.trans (of_decide_eq_true hn))
      rw [hnone, List.head?_nil]

theorem ordered_filter (h : Ordered issues) (q : Issue → Bool) : Ordered (issues.filter q) :=
  List.Pairwise.filter _ h

/-- The orphaned range of a replica that holds it whole names the ticks that the source's names. -/
theorem collect_from_base (hle : base ≤ firstActionIndex) (tables : List String) :
    collectRefoldTickIds refs (issues.filter (base ≤ ·.action_index))
        (named.filter (base ≤ ·.action_index)) firstActionIndex tables =
      collectRefoldTickIds refs issues named firstActionIndex tables := by
  have hrows : ∀ table : String,
      ((tickRows (issues.filter (base ≤ ·.action_index)) (named.filter (base ≤ ·.action_index))
          table).filter fun m => firstActionIndex ≤ m.action_index ∧ m.tick_id ∈ refs.index_tickers) =
        (tickRows issues named table).filter fun m =>
          firstActionIndex ≤ m.action_index ∧ m.tick_id ∈ refs.index_tickers := by
    intro table
    unfold tickRows
    split
    · rw [List.filter_map, List.filter_map, List.filter_filter]
      refine congrArg _ (List.filter_congr fun i _ => ?_)
      by_cases hi : firstActionIndex ≤ i.action_index
      · simp [hi, hle.trans hi]
      · simp [hi]
    · rw [List.filter_filter, List.filter_filter, List.filter_filter]
      refine List.filter_congr fun m _ => ?_
      by_cases hm : firstActionIndex ≤ m.action_index
      · simp [hm, hle.trans hm]
      · simp [hm]
  unfold collectRefoldTickIds
  have hqueries : refoldTickQuery refs (issues.filter (base ≤ ·.action_index))
      (named.filter (base ≤ ·.action_index)) firstActionIndex =
        refoldTickQuery refs issues named firstActionIndex := by
    funext table
    simp only [refoldTickQuery, hrows]
  rw [hqueries]

/-! ### The invariant -/

/-- Each token stands at the first valid issue of its tick, and the replica has the row of each tick
whose issues it holds. -/
structure System.Tracks (s : System) : Prop where
  ordered : Ordered s.source.issues
  anchored : ∀ k, (s.source.tokens k).map TokenRow.action_index =
    (validRows s.refs s.source.issues k).head?.map (·.issue.action_index)
  issues : s.replica.issues = s.source.issues.filter (s.base ≤ ·.action_index)
  named : s.replica.named = s.source.named.filter (s.base ≤ ·.action_index)
  held : ∀ k r, s.source.tokens k = some r → s.base ≤ r.action_index → s.replica.tokens k = some r
  anchor : ∀ k r, s.replica.tokens k = some r →
    (s.source.tokens k).map TokenRow.action_index = some r.action_index
  known : ∀ k r, s.replica.tokens k = some r → ∃ tokens ∈ s.past, tokens k = some r
  current : s.source.tokens ∈ s.past

theorem tracks_fresh (refs : References) : (System.fresh refs).Tracks where
  ordered := List.Pairwise.nil
  anchored := fun _ => rfl
  issues := List.filter_nil.symm
  named := List.filter_nil.symm
  held := fun _ _ h => by cases h
  anchor := fun _ _ h => by cases h
  known := fun _ _ h => by cases h
  current := List.mem_singleton_self _

namespace System.Tracks

theorem refer (h : s.Tracks) (hkeeps : Keeps s.refs refs s.source.issues) :
    (s.step p (.refer refs)).Tracks where
  ordered := h.ordered
  anchored := by
    intro k
    show _ = (validRows refs s.source.issues k).head?.map _
    rw [validRows_congr hkeeps]
    exact h.anchored k
  issues := h.issues
  named := h.named
  held := h.held
  anchor := h.anchor
  known := h.known
  current := h.current

theorem issue {i : Issue} {columns : Columns} (h : s.Tracks) (hbase : s.base ≤ i.action_index)
    (hfresh : ∀ j ∈ s.source.issues, j.action_index < i.action_index) :
    (s.step p (.issue i columns)).Tracks where
  ordered := List.pairwise_append.mpr ⟨h.ordered, List.pairwise_singleton _ _, fun j hj i' hi' => by
    rw [List.mem_singleton.mp hi']
    exact hfresh j hj⟩
  anchored := by
    intro k
    have hk := h.anchored k
    show (issued s.refs s.source.tokens i columns k).map _ =
      (validRows s.refs (s.source.issues ++ [i]) k).head?.map _
    rw [validRows_concat]
    unfold issued
    cases hrow : foldRowOf s.refs i with
    | none => simpa [hrow] using hk
    | some row =>
      by_cases htick : i.tick_id = k
      · subst htick
        rw [if_pos Option.isSome_some, if_pos rfl, Function.update_self, Option.map_some, hk]
        cases validRows s.refs s.source.issues i.tick_id with
        | nil => simp [foldRowOf_issue hrow]
        | cons first rows => simp
      · rw [if_pos Option.isSome_some, if_neg htick, Function.update_of_ne (Ne.symm htick),
          List.append_nil]
        exact hk
  issues := by
    show s.replica.issues ++ [i] = (s.source.issues ++ [i]).filter (s.base ≤ ·.action_index)
    rw [List.filter_append, h.issues, List.filter_singleton, decide_eq_true hbase, cond_true]
  named := h.named
  held := by
    intro k r hr hle
    show (if (foldRowOf s.refs i).isSome then s.replica.stream _ i.tick_id else s.replica.tokens) k = _
    have hsource : issued s.refs s.source.tokens i columns k = some r := hr
    split
    · rename_i hvalid
      by_cases htick : k = i.tick_id
      · subst htick
        rw [Side.stream, Function.update_self, hsource]
      · rw [Side.stream, Function.update_of_ne htick]
        rw [issued, if_pos hvalid, Function.update_of_ne htick] at hsource
        exact h.held k r hsource hle
    · rename_i hvalid
      rw [issued, if_neg hvalid] at hsource
      exact h.held k r hsource hle
  anchor := by
    intro k r hr
    have hreplica : (if (foldRowOf s.refs i).isSome then
        s.replica.stream (issued s.refs s.source.tokens i columns) i.tick_id
        else s.replica.tokens) k = some r := hr
    show (issued s.refs s.source.tokens i columns k).map _ = _
    split at hreplica
    · rename_i hvalid
      by_cases htick : k = i.tick_id
      · subst htick
        rw [Side.stream, Function.update_self] at hreplica
        rw [hreplica, Option.map_some]
      · rw [Side.stream, Function.update_of_ne htick] at hreplica
        rw [issued, if_pos hvalid, Function.update_of_ne htick]
        exact h.anchor k r hreplica
    · rename_i hvalid
      rw [issued, if_neg hvalid]
      exact h.anchor k r hreplica
  known := by
    intro k r hr
    have hreplica : (if (foldRowOf s.refs i).isSome then
        s.replica.stream (issued s.refs s.source.tokens i columns) i.tick_id
        else s.replica.tokens) k = some r := hr
    split at hreplica
    · by_cases htick : k = i.tick_id
      · subst htick
        rw [Side.stream, Function.update_self] at hreplica
        exact ⟨_, List.mem_cons_self .., hreplica⟩
      · rw [Side.stream, Function.update_of_ne htick] at hreplica
        obtain ⟨tokens, hmem, htokens⟩ := h.known k r hreplica
        exact ⟨tokens, List.mem_cons_of_mem _ hmem, htokens⟩
    · obtain ⟨tokens, hmem, htokens⟩ := h.known k r hreplica
      exact ⟨tokens, List.mem_cons_of_mem _ hmem, htokens⟩
  current := List.mem_cons_self ..

theorem touch {row : TickRow} {columns : Columns} (h : s.Tracks) (hbase : s.base ≤ row.action_index) :
    (s.step p (.touch row columns)).Tracks where
  ordered := h.ordered
  anchored := by
    intro k
    show (update s.source.tokens row.tick_id columns k).map _ =
      (validRows s.refs s.source.issues k).head?.map _
    rw [← h.anchored k]
    by_cases htick : k = row.tick_id
    · subst htick
      rw [update, Function.update_self]
      cases s.source.tokens row.tick_id <;> rfl
    · rw [update, Function.update_of_ne htick]
  issues := h.issues
  named := by
    show s.replica.named ++ [row] = (s.source.named ++ [row]).filter (s.base ≤ ·.action_index)
    rw [List.filter_append, h.named, List.filter_singleton, decide_eq_true hbase, cond_true]
  held := by
    intro k r hr hle
    show s.replica.stream (update s.source.tokens row.tick_id columns) row.tick_id k = _
    have hsource : update s.source.tokens row.tick_id columns k = some r := hr
    by_cases htick : k = row.tick_id
    · subst htick
      rw [Side.stream, Function.update_self, hsource]
    · rw [Side.stream, Function.update_of_ne htick]
      rw [update, Function.update_of_ne htick] at hsource
      exact h.held k r hsource hle
  anchor := by
    intro k r hr
    have hreplica : s.replica.stream (update s.source.tokens row.tick_id columns) row.tick_id k =
      some r := hr
    show (update s.source.tokens row.tick_id columns k).map _ = _
    by_cases htick : k = row.tick_id
    · subst htick
      rw [Side.stream, Function.update_self] at hreplica
      rw [hreplica, Option.map_some]
    · rw [Side.stream, Function.update_of_ne htick] at hreplica
      rw [update, Function.update_of_ne htick]
      exact h.anchor k r hreplica
  known := by
    intro k r hr
    have hreplica : s.replica.stream (update s.source.tokens row.tick_id columns) row.tick_id k =
      some r := hr
    by_cases htick : k = row.tick_id
    · subst htick
      rw [Side.stream, Function.update_self] at hreplica
      exact ⟨_, List.mem_cons_self .., hreplica⟩
    · rw [Side.stream, Function.update_of_ne htick] at hreplica
      obtain ⟨tokens, hmem, htokens⟩ := h.known k r hreplica
      exact ⟨tokens, List.mem_cons_of_mem _ hmem, htokens⟩
  current := List.mem_cons_self ..

theorem bootstrap (h : s.Tracks) : (s.step p (.bootstrap base)).Tracks where
  ordered := h.ordered
  anchored := h.anchored
  issues := rfl
  named := rfl
  held := by
    intro k r hr hle
    show (s.source.tokens k).filter _ = some r
    have hsource : s.source.tokens k = some r := hr
    have hbase : base ≤ r.action_index := hle
    rw [hsource, Option.filter_some, if_pos (decide_eq_true hbase)]
  anchor := by
    intro k r hr
    obtain ⟨hsource, -⟩ := Option.filter_eq_some_iff.mp hr
    show (s.source.tokens k).map _ = _
    rw [hsource, Option.map_some]
  known := by
    intro k r hr
    exact ⟨_, h.current, (Option.filter_eq_some_iff.mp hr).1⟩
  current := h.current

theorem replayed_action (fixed : Fixed) (refs : References) (issues : List Issue) (k : Nat)
    (row : TokenRow) : (replayed fixed refs issues k row).action_index = row.action_index := by
  unfold replayed
  split <;> rfl

theorem refoldedRow_action (row : TokenRow) (f : Option Folded) :
    (refoldedRow row f).action_index = row.action_index := by
  unfold refoldedRow
  split
  · rfl
  · split <;> rfl

theorem anchor_reorg (p : Params) (refs refs' : References) (side : Side) (firstActionIndex k : Nat) :
    ((side.reorg p refs refs' firstActionIndex).tokens k).map TokenRow.action_index =
      ((side.tokens k).map TokenRow.action_index).filter (· < firstActionIndex) := by
  show (((side.tokens k).filter (·.action_index < firstActionIndex)).map _).map _ = _
  rw [Option.map_map]
  cases side.tokens k with
  | none => rfl
  | some row =>
    rw [Option.map_some, Option.filter_some, Option.filter_some]
    by_cases hlt : row.action_index < firstActionIndex
    · rw [if_pos (decide_eq_true hlt), if_pos (decide_eq_true hlt), Option.map_some,
        Function.comp_apply]
      congr 1
      split
      · exact replayed_action _ _ _ _ _
      · rfl
    · rw [if_neg (by simpa using hlt), if_neg (by simpa using hlt), Option.map_none]

/-- The issues of the replica are all those of a tick whose row it has. -/
theorem validRows_from_anchor (h : Ordered issues) {a : Nat} (hle : base ≤ a)
    (hanchor : (validRows refs issues k).head?.map (·.issue.action_index) = some a) :
    validRows refs (issues.filter (base ≤ ·.action_index)) k = validRows refs issues k := by
  rw [validRows_filter (fun n => base ≤ n), List.filter_eq_self]
  intro row hrow
  obtain ⟨first, hfirst, rfl⟩ := Option.map_eq_some_iff.mp hanchor
  have hpairwise : (validRows refs issues k).Pairwise fun r s =>
      r.issue.action_index < s.issue.action_index := pairwise_actions h k
  rw [List.eq_cons_of_mem_head? hfirst] at hpairwise hrow
  rw [List.pairwise_cons] at hpairwise
  rcases List.mem_cons.mp hrow with rfl | hrow
  · exact decide_eq_true hle
  · exact decide_eq_true (hle.trans (hpairwise.1 row hrow).le)

/-- Where the issues left begin with the first issuance, a refold is a replay. -/
theorem refoldedRow_replayed {row : TokenRow}
    (hanchor : (validRows refs issues k).head?.map (·.issue.action_index) = some row.action_index) :
    refoldedRow row (foldedOf p.fixed k (validRows refs issues k)) =
      replayed p.fixed refs issues k row := by
  unfold replayed
  cases hrows : validRows refs issues k with
  | nil => rfl
  | cons first rows =>
    rw [hrows, List.head?_cons, Option.map_some, Option.some.injEq] at hanchor
    rw [foldedOf, refoldedRow, if_pos hanchor.symm]

/-- The anchors after the rows from an action on are gone. -/
theorem anchored_left (h : s.Tracks)
    (hkeeps : Keeps s.refs refs (s.source.issues.filter (·.action_index < firstActionIndex))) (k : Nat) :
    (validRows refs (s.source.issues.filter (·.action_index < firstActionIndex)) k).head?.map
        (·.issue.action_index) =
      ((s.source.tokens k).map TokenRow.action_index).filter (· < firstActionIndex) := by
  rw [validRows_congr hkeeps, validRows_filter (fun n => n < firstActionIndex),
    head?_filter_lt (pairwise_actions h.ordered k), h.anchored]
  cases (validRows s.refs s.source.issues k).head? with
  | none => rfl
  | some row =>
    rw [Option.map_some, Option.filter_some, Option.filter_some]
    split <;> rfl

theorem replica_left (h : s.Tracks) : s.replica.issues.filter (·.action_index < firstActionIndex) =
    (s.source.issues.filter (·.action_index < firstActionIndex)).filter (s.base ≤ ·.action_index) := by
  rw [h.issues, List.filter_filter, List.filter_filter]
  exact List.filter_congr fun _ _ => Bool.and_comm _ _

/-- The row of a tick on the replica after its rollback. -/
theorem rollback_tokens (h : s.Tracks) (k : Nat) :
    (s.replica.rollback p s.refs refs firstActionIndex).tokens k =
      ((s.replica.tokens k).filter (·.action_index < firstActionIndex)).map (refoldedRow ·
        (if k ∈ collectRefoldTickIds s.refs s.replica.issues s.replica.named firstActionIndex p.dataTables
          then foldedOf p.fixed k
            (validRows refs (s.replica.issues.filter (·.action_index < firstActionIndex)) k)
          else none)) := by
  have hordered : Ordered (s.replica.issues.filter (·.action_index < firstActionIndex)) := by
    rw [h.issues]
    exact ordered_filter (ordered_filter h.ordered _) _
  exact refoldTokenRows_tokens hordered k

/-- A tick whose issues the replica holds ends up with the row that the source replays. -/
theorem held_reorg (h : s.Tracks)
    (hkeeps : Keeps s.refs refs (s.source.issues.filter (·.action_index < firstActionIndex)))
    {r : TokenRow} (hr : (s.source.reorg p s.refs refs firstActionIndex).tokens k = some r)
    (hle : min s.base firstActionIndex ≤ r.action_index) :
    (s.replica.rollback p s.refs refs firstActionIndex).tokens k = some r := by
  obtain ⟨row, hleft, hrow⟩ := Option.map_eq_some_iff.mp hr
  obtain ⟨hsource, hlt⟩ := Option.filter_eq_some_iff.mp hleft
  have hlt : row.action_index < firstActionIndex := of_decide_eq_true hlt
  have haction : r.action_index = row.action_index := by
    rw [← hrow]
    split
    · exact replayed_action _ _ _ _ _
    · rfl
  have hbase : s.base ≤ row.action_index := by omega
  have hanchor := h.anchored_left hkeeps k
  rw [hsource, Option.map_some, Option.filter_some, if_pos (decide_eq_true hlt)] at hanchor
  rw [rollback_tokens h, h.held k row hsource hbase, Option.filter_some, if_pos (decide_eq_true hlt),
    Option.map_some, replica_left h,
    validRows_from_anchor (ordered_filter h.ordered _) hbase hanchor, h.issues, h.named,
    collect_from_base (by omega)]
  rw [← hrow]
  split
  · exact congrArg some (refoldedRow_replayed hanchor)
  · rfl

/-- A rollback writes a row only where the replica has the first issuance. -/
theorem rollback_row (h : s.Tracks) {r : TokenRow}
    (hr : (s.replica.rollback p s.refs refs firstActionIndex).tokens k = some r) :
    ∃ row, s.replica.tokens k = some row ∧ row.action_index < firstActionIndex ∧
      r.action_index = row.action_index ∧ (r = row ∨ s.base ≤ row.action_index) := by
  rw [rollback_tokens h] at hr
  obtain ⟨row, hleft, hrow⟩ := Option.map_eq_some_iff.mp hr
  obtain ⟨hreplica, hlt⟩ := Option.filter_eq_some_iff.mp hleft
  refine ⟨row, hreplica, of_decide_eq_true hlt, ?_, ?_⟩
  · rw [← hrow]
    exact refoldedRow_action _ _
  · rw [← hrow]
    unfold refoldedRow
    split
    · exact .inl rfl
    · rename_i f hf
      split
      · rename_i hfirst
        -- the first issue left is one that the replica holds
        split at hf
        · cases hrows : validRows refs
            (s.replica.issues.filter (·.action_index < firstActionIndex)) k with
          | nil =>
            rw [hrows] at hf
            cases hf
          | cons first rows =>
            rw [hrows, foldedOf, Option.some.injEq] at hf
            have hmem : first ∈ validRows refs
                (s.replica.issues.filter (·.action_index < firstActionIndex)) k := by
              rw [hrows]
              exact List.mem_cons_self ..
            obtain ⟨i, hi, hrowOf⟩ := List.mem_filterMap.mp (List.mem_filter.mp hmem).1
            rw [replica_left h] at hi
            have hheld : s.base ≤ i.action_index := of_decide_eq_true (List.mem_filter.mp hi).2
            right
            rw [hfirst, ← hf, foldRowOf_issue hrowOf]
            exact hheld
        · cases hf
      · exact .inl rfl

theorem reorg (h : s.Tracks)
    (hkeeps : Keeps s.refs refs (s.source.issues.filter (·.action_index < firstActionIndex))) :
    (s.step p (.reorg firstActionIndex refs)).Tracks where
  ordered := ordered_filter h.ordered _
  anchored := by
    intro k
    exact (anchor_reorg ..).trans (h.anchored_left hkeeps k).symm
  issues := by
    show s.replica.issues.filter _ = (s.source.issues.filter _).filter
      (min s.base firstActionIndex ≤ ·.action_index)
    rw [replica_left h, List.filter_filter, List.filter_filter]
    refine List.filter_congr fun i _ => ?_
    by_cases hi : i.action_index < firstActionIndex <;> simp [hi]
  named := by
    show s.replica.named.filter (·.action_index < firstActionIndex) =
      (s.source.named.filter (·.action_index < firstActionIndex)).filter
        (min s.base firstActionIndex ≤ ·.action_index)
    rw [h.named, List.filter_filter, List.filter_filter]
    refine List.filter_congr fun m _ => ?_
    by_cases hm : m.action_index < firstActionIndex <;> simp [hm]
  held := fun k r hr hle => h.held_reorg hkeeps hr hle
  anchor := by
    intro k r hr
    obtain ⟨row, hreplica, hlt, haction, -⟩ := h.rollback_row hr
    refine (anchor_reorg ..).trans ?_
    rw [h.anchor k row hreplica, haction, Option.filter_some, if_pos (decide_eq_true hlt)]
  known := by
    intro k r hr
    obtain ⟨row, hreplica, hlt, haction, hrow⟩ := h.rollback_row hr
    rcases hrow with rfl | hbase
    · obtain ⟨tokens, hmem, htokens⟩ := h.known k r hreplica
      exact ⟨tokens, List.mem_cons_of_mem _ hmem, htokens⟩
    · -- such a row is the one that the source has replayed
      have hanchor := anchor_reorg p s.refs refs s.source firstActionIndex k
      rw [h.anchor k row hreplica, Option.filter_some, if_pos (decide_eq_true hlt)] at hanchor
      obtain ⟨r', hr', haction'⟩ := Option.map_eq_some_iff.mp hanchor
      have hsame := h.held_reorg hkeeps hr' (by omega)
      refine ⟨_, List.mem_cons_self .., ?_⟩
      exact hr'.trans (hsame.symm.trans hr)
  current := List.mem_cons_self ..

end System.Tracks

theorem System.Tracks.step (h : s.Tracks) {e : TokenEvent} (hok : s.Admissible e) :
    (s.step p e).Tracks := by
  cases e with
  | refer refs => exact h.refer hok
  | issue i columns => exact h.issue hok.1 hok.2
  | touch row columns => exact h.touch hok
  | reorg firstActionIndex refs => exact h.reorg hok
  | bootstrap base => exact h.bootstrap

/-- The references of a tick that is issued at 100 and edited at 300. -/
def editedRefs : References where
  actions := [⟨100, 1, 1⟩, ⟨300, 2, 1⟩]
  transactions := [⟨1, 1⟩, ⟨2, 1⟩]
  index_tickers := [10]
  index_addresses := [1]
  index_statuses := [(1, "valid")]

def firstIssue : FoldRow := blankIssue 100 8 (.text "1") (.num 42)
def editIssue : FoldRow := blankIssue 300 2 (.text "0") (.num 0)

/-- The edit goes out and is orphaned. -/
def editedThenOrphaned : List TokenEvent :=
  [.refer editedRefs,
    .issue firstIssue.issue (tokenColumns (fun text _ => text) (folded [firstIssue])),
    .issue editIssue.issue (tokenColumns (fun text _ => text) (folded [firstIssue, editIssue])),
    .reorg 300 editedRefs]

def plainText : Params := ⟨fun text _ => text, ["issues", "tokens"]⟩

def noReferences : References := ⟨[], [], [], [], []⟩

end XChainSync.Tokens
