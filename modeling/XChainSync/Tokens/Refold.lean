import XChainSync.Library.ChunkedReads
import XChainSync.Tokens.IssueFold

/-!
# The refold after a rollback

`collectRefoldTickIds` reads the ticks of the rows about to go, `foldTicks` folds the issues that are
left and `refoldTokenRows` writes each row whose first issuance it has.
-/

namespace XChainSync.Tokens
open KeyedRows ChunkedReads
set_option autoImplicit false

structure Action where
  action_index : Nat
  tx_index : Nat
  source_id : Nat
  deriving DecidableEq, Repr

structure Transaction where
  tx_index : Nat
  source_id : Nat
  deriving DecidableEq, Repr

/-- The tables that the queries join. -/
structure References where
  actions : List Action
  transactions : List Transaction
  index_tickers : List Nat
  index_addresses : List Nat
  index_statuses : List (Nat × String)
  deriving DecidableEq, Repr

/-- A row of a ticker-bearing table other than `issues`, with the address column it is joined on. -/
structure TickRow where
  table : String
  tick_id : Nat
  action_index : Nat
  address_id : Nat
  deriving DecidableEq, Repr

structure TokenRow where
  action_index : Nat
  columns : Columns
  deriving DecidableEq, Repr

/-- The `tokens` rows by tick. -/
abbrev TokenTable := Nat → Option TokenRow

def findAction (refs : References) (action_index : Nat) : Option Action :=
  refs.actions.find? fun a => a.action_index = action_index

def findTransaction (refs : References) (tx_index : Nat) : Option Transaction :=
  refs.transactions.find? fun t => t.tx_index = tx_index

/-- The joins of `foldRowsSql` for one issue. -/
def foldRowOf (refs : References) (i : Issue) : Option FoldRow :=
  (findAction refs i.action_index).bind fun a =>
    if (findTransaction refs a.tx_index).isSome ∧ i.tick_id ∈ refs.index_tickers ∧
        a.source_id ∈ refs.index_addresses ∧ refs.index_statuses.lookup i.status_id = some "valid" then
      some
        { issue := i
          source_addr_id := a.source_id
          transfer_addr_id := i.transfer_id.filter (· ∈ refs.index_addresses)
          callback_tick_ref := i.callback_tick_id.filter (· ∈ refs.index_tickers) }
    else none

/-- `ORDER BY i.tick_id ASC, i.action_index ASC`. -/
def before (r s : FoldRow) : Prop :=
  r.issue.tick_id < s.issue.tick_id ∨
    (r.issue.tick_id = s.issue.tick_id ∧ r.issue.action_index ≤ s.issue.action_index)

instance : DecidableRel before := fun r s => by
  unfold before
  infer_instance

def foldRowsSql (refs : References) (issues : List Issue) (tickIds : List Nat) : List FoldRow :=
  ((issues.filterMap (foldRowOf refs)).filter (·.issue.tick_id ∈ tickIds)).insertionSort before

/-- `byTick` and `first` of `foldIssueRows`. -/
structure Entry where
  tick : Nat
  first : Nat
  data : Info

def addRow (acc : List Entry) (row : FoldRow) : List Entry :=
  mapSet Entry.tick acc
    (match acc.find? fun e => decide (e.tick = row.issue.tick_id) with
    | some e => { e with data := foldRow e.data (rowValues row) }
    | none => ⟨row.issue.tick_id, row.issue.action_index, foldRow (fun _ => .null) (rowValues row)⟩)

/-- The columns of a tick and its first surviving valid issue. -/
structure Folded where
  tick : Nat
  columns : Columns
  first_action_index : Nat
  deriving DecidableEq, Repr

def foldIssueRows (fixed : Fixed) (rows : List FoldRow) : List Folded :=
  (rows.foldl addRow []).map fun e => ⟨e.tick, tokenColumns fixed e.data, e.first⟩

def CHUNK : Nat := 500

def foldTicks (fixed : Fixed) (refs : References) (issues : List Issue) (tickIds : List Nat) :
    List Folded :=
  readChunks CHUNK Folded.tick (fun part => foldIssueRows fixed (foldRowsSql refs issues part)) tickIds

/-- The rows that `tokens` has of the ticks. -/
def anchorsOf (tokens : TokenTable) (part : List Nat) : List (Nat × Nat) :=
  part.dedup.filterMap fun tick => (tokens tick).map fun row => (tick, row.action_index)

def tokenAnchors (tokens : TokenTable) (tickIds : List Nat) : List (Nat × Nat) :=
  readChunks CHUNK Prod.fst (anchorsOf tokens) tickIds

structure Refolding where
  tokens : TokenTable
  refolded : Nat
  skipped : List Nat

/-- `UPDATE tokens SET … WHERE tick_id=?`. -/
def update (tokens : TokenTable) (tick : Nat) (columns : Columns) : TokenTable :=
  Function.update tokens tick ((tokens tick).map fun row => { row with columns })

def refoldOne (anchors : List (Nat × Nat)) (r : Refolding) (f : Folded) : Refolding :=
  match anchors.find? fun a => decide (a.1 = f.tick) with
  | none => r
  | some a =>
    if a.2 ≠ f.first_action_index then { r with skipped := r.skipped ++ [f.tick] }
    else { r with tokens := update r.tokens f.tick f.columns, refolded := r.refolded + 1 }

def refoldTokenRows (fixed : Fixed) (refs : References) (issues : List Issue) (tokens : TokenTable)
    (tickIds : List Nat) : Refolding :=
  let folded := foldTicks fixed refs issues tickIds
  let anchors := tokenAnchors tokens (folded.map Folded.tick)
  folded.foldl (refoldOne anchors) ⟨tokens, 0, []⟩

/-! ### The ticks of the orphaned range -/

def LEDGER_TICK_TABLES : List String := ["credits", "debits", "escrows"]

def CONTRACT_TICK_TABLES : List String :=
  ["contract_stakes", "contract_unstakes", "contract_delegations"]

def TRANSACTION_TICK_TABLES : List String :=
  ["airdrops", "destroys", "mints", "sends", "fees", "issues", "swaps"]

/-- The rows of a table under one shape; an issue is joined through its transaction alone. -/
def tickRows (issues : List Issue) (named : List TickRow) (table : String) : List TickRow :=
  if table = "issues" then issues.map fun i => ⟨table, i.tick_id, i.action_index, 0⟩
  else named.filter (·.table = table)

def refoldTickQuery (refs : References) (issues : List Issue) (named : List TickRow)
    (firstActionIndex : Nat) (table : String) : List Nat :=
  let rows := (tickRows issues named table).filter fun m =>
    firstActionIndex ≤ m.action_index ∧ m.tick_id ∈ refs.index_tickers
  if table ∈ LEDGER_TICK_TABLES ∨ table ∈ CONTRACT_TICK_TABLES then
    (rows.filter fun m => m.address_id ∈ refs.index_addresses).map (·.tick_id)
  else if table ∈ TRANSACTION_TICK_TABLES then
    (rows.filter fun m => ((findAction refs m.action_index).bind fun a =>
      findTransaction refs a.tx_index).any fun t => t.source_id ∈ refs.index_addresses).map (·.tick_id)
  else []

def collectRefoldTickIds (refs : References) (issues : List Issue) (named : List TickRow)
    (firstActionIndex : Nat) (tables : List String) : List Nat :=
  ((tables.flatMap (refoldTickQuery refs issues named firstActionIndex)).dedup).insertionSort (· ≤ ·)

/-! ### What a refold writes -/

variable {fixed : Fixed} {refs : References} {issues : List Issue} {tokens : TokenTable}
  {tickIds : List Nat} {k : Nat} {rows : List FoldRow} {acc : List Entry}

/-- The rows of one tick, as its entry remembers them. -/
def entryOf (k : Nat) : List FoldRow → Option Entry
  | [] => none
  | row :: rows => some ⟨k, row.issue.action_index, folded (row :: rows)⟩

theorem entryOf_concat (row : FoldRow) : entryOf k (rows ++ [row]) =
    some (match entryOf k rows with
      | some e => { e with data := foldRow e.data (rowValues row) }
      | none => ⟨k, row.issue.action_index, foldRow (fun _ => .null) (rowValues row)⟩) := by
  cases rows with
  | nil => rfl
  | cons first rows => simp [entryOf, folded, List.foldl_append]

theorem find?_addRow (row : FoldRow) : (addRow acc row).find? (fun e => decide (e.tick = k)) =
    if row.issue.tick_id = k then
      some (match acc.find? fun e => decide (e.tick = k) with
        | some e => { e with data := foldRow e.data (rowValues row) }
        | none => ⟨k, row.issue.action_index, foldRow (fun _ => .null) (rowValues row)⟩)
    else acc.find? fun e => decide (e.tick = k) := by
  unfold addRow
  rw [find?_mapSet]
  by_cases hk : row.issue.tick_id = k
  · subst hk
    rw [if_pos rfl]
    cases hfind : acc.find? fun e => decide (e.tick = row.issue.tick_id) with
    | none => rw [if_pos rfl]
    | some e =>
      have htick : e.tick = row.issue.tick_id := by
        simpa using List.find?_some hfind
      rw [if_pos htick]
  · rw [if_neg hk]
    cases hfind : acc.find? fun e => decide (e.tick = row.issue.tick_id) with
    | none => rw [if_neg hk]
    | some e =>
      have htick : e.tick = row.issue.tick_id := by
        simpa using List.find?_some hfind
      rw [if_neg fun h => hk (htick.symm.trans h)]

theorem find?_foldl_addRow (rows : List FoldRow) (k : Nat) :
    (rows.foldl addRow []).find? (fun e => decide (e.tick = k)) =
      entryOf k (rows.filter fun row => row.issue.tick_id = k) := by
  induction rows using List.reverseRecOn with
  | nil => rfl
  | append_singleton rows row ih =>
    rw [List.foldl_append, List.foldl_cons, List.foldl_nil, find?_addRow, ih, List.filter_append]
    by_cases hk : row.issue.tick_id = k
    · rw [if_pos hk, List.filter_singleton, decide_eq_true hk, cond_true, entryOf_concat]
    · rw [if_neg hk, List.filter_singleton, decide_eq_false hk, cond_false,
        List.append_nil]

theorem nodup_foldl_addRow (rows : List FoldRow) : ((rows.foldl addRow []).map Entry.tick).Nodup := by
  induction rows using List.reverseRecOn with
  | nil => exact List.nodup_nil
  | append_singleton rows row ih =>
    rw [List.foldl_append, List.foldl_cons, List.foldl_nil]
    exact nodup_mapSet ih

/-- The valid issues of a tick, in the order of the table. -/
def validRows (refs : References) (issues : List Issue) (k : Nat) : List FoldRow :=
  (issues.filterMap (foldRowOf refs)).filter fun row => row.issue.tick_id = k

/-- The columns of a tick by its valid issues. -/
def foldedOf (fixed : Fixed) (k : Nat) : List FoldRow → Option Folded
  | [] => none
  | row :: rows => some ⟨k, tokenColumns fixed (folded (row :: rows)), row.issue.action_index⟩

/-- The issues stand in the order of their actions. -/
def Ordered (issues : List Issue) : Prop :=
  issues.Pairwise fun i j => i.action_index < j.action_index

theorem foldRowOf_issue {i : Issue} {row : FoldRow} (h : foldRowOf refs i = some row) :
    row.issue = i := by
  unfold foldRowOf at h
  obtain ⟨a, -, h⟩ := Option.bind_eq_some_iff.mp h
  split at h
  · cases h
    rfl
  · cases h

theorem pairwise_validRows (h : Ordered issues) (k : Nat) :
    (validRows refs issues k).Pairwise before := by
  have hrows : (issues.filterMap (foldRowOf refs)).Pairwise fun r s =>
      r.issue.action_index < s.issue.action_index := by
    rw [List.pairwise_filterMap]
    refine h.imp fun {i j} hij r hr s hs => ?_
    rw [foldRowOf_issue hr, foldRowOf_issue hs]
    exact hij
  refine (List.pairwise_filter.mpr (hrows.imp fun {r s} hlt hr hs => ?_))
  exact .inr ⟨(of_decide_eq_true hr).trans (of_decide_eq_true hs).symm, hlt.le⟩

theorem filter_foldRowsSql (h : Ordered issues) (part : List Nat) (k : Nat) :
    (foldRowsSql refs issues part).filter (fun row => row.issue.tick_id = k) =
      if k ∈ part then validRows refs issues k else [] := by
  have hfilter : ((issues.filterMap (foldRowOf refs)).filter (·.issue.tick_id ∈ part)).filter
      (fun row => row.issue.tick_id = k) = if k ∈ part then validRows refs issues k else [] := by
    rw [List.filter_filter]
    split
    · rename_i hk
      refine List.filter_congr fun row _ => ?_
      by_cases hrow : row.issue.tick_id = k <;> simp [hrow, hk]
    · rename_i hk
      rw [List.filter_eq_nil_iff]
      intro row _
      by_cases hrow : row.issue.tick_id = k <;> simp [hrow, hk]
  rw [foldRowsSql, filter_insertionSort, hfilter]
  rw [hfilter]
  split
  · exact pairwise_validRows h k
  · exact List.Pairwise.nil

theorem answers_foldIssueRows (h : Ordered issues) : Answers Folded.tick
    (fun part => foldIssueRows fixed (foldRowsSql refs issues part))
    fun k => foldedOf fixed k (validRows refs issues k) where
  keys := by
    intro part
    have hnodup := nodup_foldl_addRow (foldRowsSql refs issues part)
    simpa [foldIssueRows, Function.comp_def] using hnodup
  found := by
    intro part k
    rw [foldIssueRows, List.find?_map]
    show (((foldRowsSql refs issues part).foldl addRow []).find?
      (fun e => decide (e.tick = k))).map _ = _
    rw [find?_foldl_addRow, filter_foldRowsSql h]
    split
    · cases validRows refs issues k <;> rfl
    · rfl

theorem find?_foldTicks (h : Ordered issues) (tickIds : List Nat) (k : Nat) :
    (foldTicks fixed refs issues tickIds).find? (fun f => decide (f.tick = k)) =
      if k ∈ tickIds then foldedOf fixed k (validRows refs issues k) else none :=
  find?_readChunks (by decide) (answers_foldIssueRows h) tickIds k

theorem find?_anchors (tokens : TokenTable) (part : List Nat) (k : Nat) :
    (part.filterMap fun tick => (tokens tick).map fun row => (tick, row.action_index)).find?
        (fun a => decide (a.1 = k)) =
      if k ∈ part then (tokens k).map fun row => (k, row.action_index) else none := by
  induction part with
  | nil => rfl
  | cons tick part ih =>
    rw [List.filterMap_cons]
    by_cases hk : tick = k
    · subst hk
      rw [if_pos (List.mem_cons_self ..)]
      cases hrow : tokens tick with
      | none =>
        rw [hrow, Option.map_none] at ih
        simpa using ih
      | some row => simp
    · have hmem : k ∈ tick :: part ↔ k ∈ part := by simp [Ne.symm hk]
      simp only [hmem]
      rw [← ih]
      cases tokens tick with
      | none => rfl
      | some row => simp [hk]

theorem answers_anchorsOf (tokens : TokenTable) : Answers Prod.fst (anchorsOf tokens)
    fun k => (tokens k).map fun row => (k, row.action_index) where
  keys := by
    intro part
    rw [anchorsOf, List.map_filterMap]
    refine List.Nodup.filterMap ?_ (List.nodup_dedup part)
    intro tick tick' b hb hb'
    cases htick : tokens tick <;> cases htick' : tokens tick' <;> simp_all
  found := by
    intro part k
    rw [anchorsOf, find?_anchors]
    simp only [List.mem_dedup]

theorem find?_tokenAnchors (tokens : TokenTable) (tickIds : List Nat) (k : Nat) :
    (tokenAnchors tokens tickIds).find? (fun a => decide (a.1 = k)) =
      if k ∈ tickIds then (tokens k).map fun row => (k, row.action_index) else none :=
  find?_readChunks (by decide) (answers_anchorsOf tokens) tickIds k

/-- The row of a tick after a refold: rewritten where the first issue left is its first issuance. -/
def refoldedRow (row : TokenRow) : Option Folded → TokenRow
  | none => row
  | some f => if row.action_index = f.first_action_index then { row with columns := f.columns } else row

theorem refoldOne_tokens {anchors : List (Nat × Nat)} {r : Refolding} {f : Folded}
    (hanchor : (anchors.find? fun a => decide (a.1 = f.tick)).map Prod.snd =
      (r.tokens f.tick).map TokenRow.action_index) :
    (refoldOne anchors r f).tokens =
      Function.update r.tokens f.tick ((r.tokens f.tick).map (refoldedRow · (some f))) := by
  unfold refoldOne
  cases hfind : anchors.find? fun a => decide (a.1 = f.tick) with
  | none =>
    rw [hfind, Option.map_none] at hanchor
    have hrow : r.tokens f.tick = none := Option.map_eq_none_iff.mp hanchor.symm
    rw [hrow, Option.map_none, ← hrow, Function.update_eq_self]
  | some a =>
    rw [hfind, Option.map_some] at hanchor
    obtain ⟨row, hrow, haction⟩ := Option.map_eq_some_iff.mp hanchor.symm
    rw [hrow, Option.map_some, refoldedRow, haction]
    by_cases hsame : a.2 = f.first_action_index
    · rw [if_pos hsame]
      simp only [hsame, haction, ne_eq, not_true_eq_false, if_false, update, hrow, Option.map_some]
    · rw [if_neg hsame, ← hrow, Function.update_eq_self]
      simp only [ne_eq, hsame, not_false_eq_true, if_true]

theorem foldl_refoldOne_tokens {anchors : List (Nat × Nat)} {entries : List Folded}
    (hnodup : (entries.map Folded.tick).Nodup) {r : Refolding}
    (hanchors : ∀ f ∈ entries, (anchors.find? fun a => decide (a.1 = f.tick)).map Prod.snd =
      (r.tokens f.tick).map TokenRow.action_index) (k : Nat) :
    (entries.foldl (refoldOne anchors) r).tokens k =
      (r.tokens k).map (refoldedRow · (entries.find? fun f => decide (f.tick = k))) := by
  induction entries generalizing r with
  | nil =>
    show r.tokens k = (r.tokens k).map fun row => row
    exact Option.map_id'.symm
  | cons f entries ih =>
    rw [List.map_cons, List.nodup_cons] at hnodup
    have hstep := refoldOne_tokens (hanchors f (List.mem_cons_self ..))
    have hothers : ∀ g ∈ entries, g.tick ≠ f.tick := fun g hg heq =>
      hnodup.1 (List.mem_map.mpr ⟨g, hg, heq⟩)
    have hrest : ∀ g ∈ entries, (anchors.find? fun a => decide (a.1 = g.tick)).map Prod.snd =
        ((refoldOne anchors r f).tokens g.tick).map TokenRow.action_index := by
      intro g hg
      rw [hstep, Function.update_of_ne (hothers g hg)]
      exact hanchors g (List.mem_cons_of_mem _ hg)
    rw [List.foldl_cons, ih hnodup.2 hrest, hstep, List.find?_cons]
    by_cases hk : f.tick = k
    · subst hk
      have hnone : entries.find? (fun g => decide (g.tick = f.tick)) = none := by
        rw [List.find?_eq_none]
        intro g hg heq
        exact hothers g hg (of_decide_eq_true heq)
      rw [Function.update_self, hnone, decide_eq_true rfl, Option.map_map]
      rfl
    · rw [Function.update_of_ne (Ne.symm hk), decide_eq_false hk]

/-- A refold rewrites the row of each tick it was given whose first issuance is still there, and no
other. -/
theorem refoldTokenRows_tokens (h : Ordered issues) (k : Nat) :
    (refoldTokenRows fixed refs issues tokens tickIds).tokens k = (tokens k).map (refoldedRow ·
      (if k ∈ tickIds then foldedOf fixed k (validRows refs issues k) else none)) := by
  have hnodup : ((foldTicks fixed refs issues tickIds).map Folded.tick).Nodup :=
    nodup_readChunks _ _
  unfold refoldTokenRows
  simp only
  rw [foldl_refoldOne_tokens hnodup, find?_foldTicks h]
  intro f hf
  have hmem : f.tick ∈ (foldTicks fixed refs issues tickIds).map Folded.tick :=
    List.mem_map_of_mem hf
  rw [find?_tokenAnchors, if_pos hmem, Option.map_map]
  rfl

end XChainSync.Tokens
