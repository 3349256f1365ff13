import Mathlib
import XChainSync.Wire.InsertRows

/-!
# From-zero repair of a lookup table

The pages of `syncLookupTablesPaged` (src/client/sync.js) through `insertSnapshotTables` of
src/client/applier.js with `strictIgnoreCheck`. A row is an id with its natural key. INSERT IGNORE
skips what collides, the primary key first, and SHOW WARNINGS has the first 64 warnings of a
statement.
-/

namespace XChainSync.LookupRepair
set_option autoImplicit false
open Wire (starts batchSize flatMap_starts)

variable {Key : Type} [DecidableEq Key]

structure Row (Key : Type) where
  id : Int
  key : Key
  deriving DecidableEq, Repr

/-- Both keys are unique. -/
structure Table (Key : Type) where
  rows : List (Row Key)
  ids : (rows.map Row.id).Nodup
  keys : (rows.map Row.key).Nodup
  deriving DecidableEq

namespace Table

instance : Membership (Row Key) (Table Key) := ⟨fun t row => row ∈ t.rows⟩

def keep (t : Table Key) (p : Row Key → Bool) : Table Key where
  rows := t.rows.filter p
  ids := t.ids.sublist (List.filter_sublist.map Row.id)
  keys := t.keys.sublist (List.filter_sublist.map Row.key)

def add (t : Table Key) (row : Row Key) (hid : ∀ r ∈ t.rows, r.id ≠ row.id)
    (hkey : ∀ r ∈ t.rows, r.key ≠ row.key) : Table Key where
  rows := t.rows ++ [row]
  ids := by
    rw [List.map_append, List.nodup_append_comm]
    simpa [List.nodup_cons, t.ids] using hid
  keys := by
    rw [List.map_append, List.nodup_append_comm]
    simpa [List.nodup_cons, t.keys] using hkey

end Table

/-! ### Statements -/

inductive Warning where
  /-- Duplicate entry for key PRIMARY. -/
  | primary
  /-- Duplicate entry for the natural key. -/
  | natural
  deriving DecidableEq, Repr

/-- One row of an INSERT IGNORE. -/
def ignoreRow (t : Table Key) (row : Row Key) : Table Key × List Warning :=
  if hid : ∀ r ∈ t.rows, r.id ≠ row.id then
    if hkey : ∀ r ∈ t.rows, r.key ≠ row.key then (t.add row hid hkey, [])
    else (t, [.natural])
  else (t, [.primary])

def insertIgnore (t : Table Key) : List (Row Key) → Table Key × List Warning
  | [] => (t, [])
  | row :: rest =>
    match ignoreRow t row with
    | (t, warning) =>
      match insertIgnore t rest with
      | (t, warnings) => (t, warning ++ warnings)

def maxErrorCount : Nat := 64

def showWarnings (warnings : List Warning) : List Warning := warnings.take maxErrorCount

/-! ### The applier -/

def suspectIgnoreWarnings (warnings : List Warning) : List Warning := warnings.filter (· ≠ .primary)

/-- The id is inside the window of the page's ids, and the page does not carry it. -/
def proved (pageRows : List (Row Key)) (id : Int) : Bool :=
  match (pageRows.map Row.id).min?, (pageRows.map Row.id).max? with
  | some low, some high => id ∉ pageRows.map Row.id ∧ ¬ id < low ∧ ¬ id > high
  | _, _ => false

/-- One row of the batch: its stale holder, if it has one, is retired. -/
def retireHolder (pageRows : List (Row Key)) (state : Table Key × List Int) (row : Row Key) :
    Table Key × List Int :=
  if state.1.rows.any (·.id = row.id) then state
  else
    match state.1.rows.filter (·.key = row.key) with
    | [holder] =>
      if holder.id = row.id ∨ !proved pageRows holder.id then state
      else (state.1.keep (·.id ≠ holder.id), state.2 ++ [holder.id])
    | _ => state

def retireStaleNaturalKeyRows (batch pageRows : List (Row Key)) (t : Table Key) : Table Key × List Int :=
  batch.foldl (retireHolder pageRows) (t, [])

/-- A batch of `insertRows` with the strict check, none where it throws. -/
def insertBatch (pageRows : List (Row Key)) (t : Table Key) (batch : List (Row Key)) :
    Option (Table Key) :=
  let sent := insertIgnore t batch
  if suspectIgnoreWarnings (showWarnings sent.2) = [] then some sent.1
  else
    let retired := retireStaleNaturalKeyRows batch pageRows sent.1
    if retired.2 = [] then none
    else
      let again := insertIgnore retired.1 batch
      if suspectIgnoreWarnings (showWarnings again.2) = [] then some again.1 else none

def batches (rows : List (Row Key)) : List (List (Row Key)) :=
  (starts rows.length batchSize).map fun start => (rows.drop start).take batchSize

def insertRows (pageRows : List (Row Key)) (t : Table Key) : Option (Table Key) :=
  (batches pageRows).foldlM (insertBatch pageRows) t

def retireIds (t : Table Key) (row : Row Key) : List Int :=
  let keyHolders := t.rows.filter (·.key = row.key)
  if keyHolders.map Row.id = [row.id] then []
  else (t.rows.filter (·.id = row.id)).map Row.id ++ keyHolders.map Row.id

def reconcileLookupRows (rows : List (Row Key)) (t : Table Key) : Table Key :=
  t.keep (·.id ∉ rows.flatMap (retireIds t))

/-- `repairNaturalKeyColumns` has one table. -/
inductive Lookup where
  | index_statuses
  | other
  deriving DecidableEq, Repr

def applyPage (lookup : Lookup) (pageRows : List (Row Key)) (t : Table Key) : Option (Table Key) :=
  match lookup with
  | .index_statuses => insertRows pageRows (reconcileLookupRows pageRows t)
  | .other => insertRows pageRows t

/-- A page that throws is rolled back and ends the repair. -/
inductive Outcome (Key : Type) where
  | finished (t : Table Key)
  | threw (t : Table Key)
  deriving DecidableEq

def Outcome.table : Outcome Key → Table Key
  | finished t => t
  | threw t => t

def repair (lookup : Lookup) : List (List (Row Key)) → Table Key → Outcome Key
  | [], t => .finished t
  | page :: pages, t =>
    match applyPage lookup page t with
    | some t => repair lookup pages t
    | none => .threw t

/-! ### One statement -/

def Held (t : Table Key) (id : Int) : Prop := ∃ r ∈ t, r.id = id

/-- Another natural key is under the row's id. -/
def Blocked (t : Table Key) (row : Row Key) : Prop := ∃ r ∈ t, r.id = row.id ∧ r.key ≠ row.key

section Statement
variable {t : Table Key} {row r : Row Key} {batch : List (Row Key)}

omit [DecidableEq Key] in
theorem mem_add (hid : ∀ r ∈ t.rows, r.id ≠ row.id) (hkey : ∀ r ∈ t.rows, r.key ≠ row.key) :
    r ∈ t.add row hid hkey ↔ r ∈ t ∨ r = row := by
  change r ∈ t.rows ++ [row] ↔ r ∈ t.rows ∨ r = row
  rw [List.mem_append, List.mem_singleton]

omit [DecidableEq Key] in
theorem mem_keep {p : Row Key → Bool} : r ∈ t.keep p ↔ r ∈ t ∧ p r := List.mem_filter

theorem ignoreRow_cases (t : Table Key) (row : Row Key) :
    (¬ Held t row.id ∧ (∀ r, r ∈ (ignoreRow t row).1 ↔ r ∈ t ∨ r = row) ∧ (ignoreRow t row).2 = []) ∨
    (¬ Held t row.id ∧ (∃ r ∈ t, r.key = row.key) ∧ ignoreRow t row = (t, [.natural])) ∨
    (Held t row.id ∧ ignoreRow t row = (t, [.primary])) := by
  unfold ignoreRow
  split_ifs with hid hkey
  · exact Or.inl ⟨fun ⟨r, hr, h⟩ => hid r hr h, fun r => mem_add hid hkey, rfl⟩
  · push Not at hkey
    exact Or.inr (Or.inl ⟨fun ⟨r, hr, h⟩ => hid r hr h, hkey, rfl⟩)
  · push Not at hid
    exact Or.inr (Or.inr ⟨hid, rfl⟩)

theorem insertIgnore_cons (t : Table Key) (row : Row Key) (rest : List (Row Key)) :
    insertIgnore t (row :: rest) = ((insertIgnore (ignoreRow t row).1 rest).1,
      (ignoreRow t row).2 ++ (insertIgnore (ignoreRow t row).1 rest).2) := rfl

theorem mem_ignoreRow_of_mem (h : r ∈ t) : r ∈ (ignoreRow t row).1 := by
  obtain ⟨-, hmem, -⟩ | ⟨-, -, heq⟩ | ⟨-, heq⟩ := ignoreRow_cases t row
  · exact (hmem r).mpr (Or.inl h)
  · rwa [heq]
  · rwa [heq]

theorem mem_of_mem_ignoreRow (h : r ∈ (ignoreRow t row).1) : r ∈ t ∨ r = row := by
  obtain ⟨-, hmem, -⟩ | ⟨-, -, heq⟩ | ⟨-, heq⟩ := ignoreRow_cases t row
  · exact (hmem r).mp h
  · rw [heq] at h
    exact Or.inl h
  · rw [heq] at h
    exact Or.inl h

theorem mem_insertIgnore_of_mem (h : r ∈ t) : r ∈ (insertIgnore t batch).1 := by
  induction batch generalizing t with
  | nil => exact h
  | cons row rest ih => exact ih (mem_ignoreRow_of_mem h)

theorem mem_of_mem_insertIgnore (h : r ∈ (insertIgnore t batch).1) : r ∈ t ∨ r ∈ batch := by
  induction batch generalizing t with
  | nil => exact Or.inl h
  | cons row rest ih =>
    rw [insertIgnore_cons] at h
    rcases ih h with h | h
    · rcases mem_of_mem_ignoreRow h with h | rfl
      · exact Or.inl h
      · exact Or.inr List.mem_cons_self
    · exact Or.inr (List.mem_cons_of_mem row h)

/-- A natural key collided exactly where an id of the batch is still free. -/
theorem natural_mem_insertIgnore_iff (hids : (batch.map Row.id).Nodup) :
    Warning.natural ∈ (insertIgnore t batch).2 ↔
      ∃ row ∈ batch, ¬ Held (insertIgnore t batch).1 row.id := by
  induction batch generalizing t with
  | nil => simp [insertIgnore]
  | cons row rest ih =>
    rw [List.map_cons, List.nodup_cons] at hids
    -- no later row has the id of this one
    have hlater : Held (insertIgnore (ignoreRow t row).1 rest).1 row.id ↔ Held (ignoreRow t row).1 row.id := by
      constructor
      · rintro ⟨r, hr, hid⟩
        rcases mem_of_mem_insertIgnore hr with hr | hr
        · exact ⟨r, hr, hid⟩
        · exact absurd (hid ▸ List.mem_map_of_mem hr) hids.1
      · rintro ⟨r, hr, hid⟩
        exact ⟨r, mem_insertIgnore_of_mem hr, hid⟩
    rw [insertIgnore_cons, List.mem_append, ih hids.2, List.exists_mem_cons_iff, hlater]
    refine or_congr ?_ Iff.rfl
    obtain ⟨-, hmem, hnone⟩ | ⟨hfree, -, heq⟩ | ⟨hheld, heq⟩ := ignoreRow_cases t row
    · rw [hnone]
      have hheld : Held (ignoreRow t row).1 row.id := ⟨row, (hmem row).mpr (Or.inr rfl), rfl⟩
      simp [hheld]
    · simp [heq, hfree]
    · simp [heq, hheld]

end Statement

/-! ### The source and its pages -/

/-- The pages of a source: the rows by id, with natural keys of their own. -/
structure Source (Key : Type) where
  pages : List (List (Row Key))
  ordered : pages.flatten.Pairwise (·.id < ·.id)
  keys : (pages.flatten.map Row.key).Nodup

instance : Membership (Row Key) (Source Key) := ⟨fun source row => row ∈ source.pages.flatten⟩

section Source
variable {source : Source Key} {page : List (Row Key)} {row r : Row Key}

omit [DecidableEq Key] in
theorem Source.eq_of_id (hrow : row ∈ source) (hr : r ∈ source) (h : row.id = r.id) : row = r := by
  have hnodup : (source.pages.flatten.map Row.id).Nodup :=
    (List.pairwise_map.mpr source.ordered).imp fun hlt => hlt.ne
  exact List.inj_on_of_nodup_map hnodup hrow hr h

omit [DecidableEq Key] in
theorem Source.eq_of_key (hrow : row ∈ source) (hr : r ∈ source) (h : row.key = r.key) : row = r :=
  List.inj_on_of_nodup_map source.keys hrow hr h

/-- The rows are those of one page, and the others of the source are before or after them. -/
structure Source.Page (source : Source Key) (page : List (Row Key)) : Prop where
  mem : ∀ row ∈ page, row ∈ source
  ids : (page.map Row.id).Nodup
  keys : (page.map Row.key).Nodup
  apart : ∀ row ∈ source, row ∉ page → (∀ r ∈ page, row.id < r.id) ∨ (∀ r ∈ page, r.id < row.id)

omit [DecidableEq Key] in
theorem Source.page_of_split {before after : List (List (Row Key))}
    (h : source.pages = before ++ page :: after) : source.Page page := by
  have hordered := source.ordered
  have hkeys := source.keys
  rw [h, List.flatten_append, List.flatten_cons] at hordered
  rw [h, List.flatten_append, List.flatten_cons, List.map_append, List.map_append] at hkeys
  have hmem : ∀ row, row ∈ source ↔ row ∈ before.flatten ∨ row ∈ page ∨ row ∈ after.flatten := by
    intro row
    change row ∈ source.pages.flatten ↔ _
    rw [h, List.flatten_append, List.flatten_cons, List.mem_append, List.mem_append]
  obtain ⟨-, hrest, hbefore⟩ := List.pairwise_append.mp hordered
  obtain ⟨hpage, -, hafter⟩ := List.pairwise_append.mp hrest
  refine ⟨fun row hrow => (hmem row).mpr (Or.inr (Or.inl hrow)), ?_, ?_, fun row hrow hnot => ?_⟩
  · exact (List.pairwise_map.mpr hpage).imp fun hlt => hlt.ne
  · exact (hkeys.of_append_right).of_append_left
  · rcases (hmem row).mp hrow with hrow | hrow | hrow
    · exact Or.inl fun r hr => hbefore row hrow r (List.mem_append_left _ hr)
    · exact absurd hrow hnot
    · exact Or.inr fun r hr => hafter r hr row hrow

omit [DecidableEq Key] in
/-- An id in the window of a page that the page does not carry is not one of the source. -/
theorem Source.Page.not_id_of_proved (hpage : source.Page page) {id : Int} (h : proved page id) :
    ∀ row ∈ source, row.id ≠ id := by
  rintro row hrow rfl
  unfold proved at h
  split at h
  · rename_i low high hlow hhigh
    simp only [decide_eq_true_eq] at h
    obtain ⟨hcarried, hge, hle⟩ := h
    obtain ⟨first, hfirst, rfl⟩ := List.mem_map.mp (List.min?_mem hlow)
    obtain ⟨last, hlast, rfl⟩ := List.mem_map.mp (List.max?_mem hhigh)
    have hnot : row ∉ page := fun hmem => hcarried (List.mem_map_of_mem hmem)
    rcases hpage.apart row hrow hnot with hlt | hlt
    · exact hge (hlt first hfirst)
    · exact hle (hlt last hlast)
  · cases h

end Source

/-! ### What a part of the repair does -/

/-- No row of the source and no held id of the source is lost, and only sent rows are new. -/
structure Keeps (source : Source Key) (sent : List (Row Key)) (t t' : Table Key) : Prop where
  kept : ∀ row ∈ source, row ∈ t → row ∈ t'
  held : ∀ row ∈ source, Held t row.id → Held t' row.id
  origin : ∀ r ∈ t', r ∈ t ∨ r ∈ sent

section Keeps
variable {source : Source Key} {sent sent' batch page : List (Row Key)} {t t' t'' : Table Key}

omit [DecidableEq Key] in
theorem Keeps.refl : Keeps source sent t t := ⟨fun _ _ h => h, fun _ _ h => h, fun _ h => Or.inl h⟩

omit [DecidableEq Key] in
theorem Keeps.trans (h : Keeps source sent t t') (h' : Keeps source sent' t' t'')
    {all : List (Row Key)} (hsent : ∀ r ∈ sent, r ∈ all) (hsent' : ∀ r ∈ sent', r ∈ all) :
    Keeps source all t t'' where
  kept row hrow ht := h'.kept row hrow (h.kept row hrow ht)
  held row hrow ht := h'.held row hrow (h.held row hrow ht)
  origin r hr := by
    rcases h'.origin r hr with hr | hr
    · exact (h.origin r hr).imp_right (hsent r)
    · exact Or.inr (hsent' r hr)

theorem keeps_insertIgnore : Keeps source batch t (insertIgnore t batch).1 where
  kept _ _ h := mem_insertIgnore_of_mem h
  held _ _ := fun ⟨r, hr, hid⟩ => ⟨r, mem_insertIgnore_of_mem hr, hid⟩
  origin _ h := mem_of_mem_insertIgnore h

theorem keeps_retireHolder (hpage : source.Page page) (row : Row Key) (state : Table Key × List Int) :
    Keeps source [] state.1 (retireHolder page state row).1 := by
  unfold retireHolder
  split_ifs with hheld
  · exact Keeps.refl
  · split
    · rename_i holder _
      split_ifs with hstays
      · exact Keeps.refl
      · push Not at hstays
        have hnot := hpage.not_id_of_proved (by simpa using hstays.2)
        refine ⟨fun r hr hmem => mem_keep.mpr ⟨hmem, ?_⟩, ?_, fun r hr => Or.inl (mem_keep.mp hr).1⟩
        · exact decide_eq_true (hnot r hr)
        · rintro r hr ⟨s, hs, hid⟩
          exact ⟨s, mem_keep.mpr ⟨hs, decide_eq_true (hid ▸ hnot r hr)⟩, hid⟩
    · exact Keeps.refl

theorem keeps_retire (hpage : source.Page page) (state : Table Key × List Int) :
    Keeps source [] state.1 (batch.foldl (retireHolder page) state).1 := by
  induction batch generalizing state with
  | nil => exact Keeps.refl
  | cons row rest ih =>
    have hfirst := keeps_retireHolder hpage row state
    have hrest := ih (retireHolder page state row)
    exact hfirst.trans hrest (fun _ h => h) (fun _ h => h)

end Keeps

/-! ### What is seen -/

/-- A natural key that collides is among the warnings that are shown. -/
def Seen (warnings : List Warning) : Prop :=
  Warning.natural ∈ warnings → Warning.natural ∈ showWarnings warnings

instance (warnings : List Warning) : Decidable (Seen warnings) := inferInstanceAs (Decidable (_ → _))

/-- Every statement of the batch shows a collision of natural keys that it has. -/
def SeenBatch (page : List (Row Key)) (t : Table Key) (batch : List (Row Key)) : Prop :=
  Seen (insertIgnore t batch).2 ∧
  (Warning.natural ∈ showWarnings (insertIgnore t batch).2 →
    Seen (insertIgnore (retireStaleNaturalKeyRows batch page (insertIgnore t batch).1).1 batch).2)

theorem suspect_eq_nil_iff {warnings : List Warning} :
    suspectIgnoreWarnings warnings = [] ↔ Warning.natural ∉ warnings := by
  rw [suspectIgnoreWarnings, List.filter_eq_nil_iff]
  constructor
  · intro h hmem
    exact h _ hmem (by decide)
  · intro h w hw
    cases w
    · decide
    · exact absurd hw h

section Batch
variable {source : Source Key} {page batch : List (Row Key)} {t t' : Table Key}

/-- Where nothing suspect is shown, every id of the batch is held exactly if nothing is hidden. -/
theorem held_iff_seen {warnings : List Warning} {all : Prop}
    (hfree : Warning.natural ∈ warnings ↔ ¬ all) (hclean : Warning.natural ∉ showWarnings warnings) :
    all ↔ Seen warnings := by
  unfold Seen
  constructor
  · intro hall hnatural
    exact absurd hall (hfree.mp hnatural)
  · intro hseen
    by_contra hall
    exact hclean (hseen (hfree.mpr hall))

theorem insertBatch_spec (hpage : source.Page page)
    (hids : (batch.map Row.id).Nodup) (h : insertBatch page t batch = some t') :
    Keeps source batch t t' ∧ ((∀ row ∈ batch, Held t' row.id) ↔ SeenBatch page t batch) := by
  have hfree : ∀ u : Table Key, Warning.natural ∈ (insertIgnore u batch).2 ↔
      ¬ ∀ row ∈ batch, Held (insertIgnore u batch).1 row.id := by
    intro u
    rw [natural_mem_insertIgnore_iff hids]
    push Not
    rfl
  simp only [insertBatch, suspect_eq_nil_iff] at h
  split_ifs at h with hclean hretired hagain
  · obtain rfl := Option.some.inj h
    refine ⟨?_, ?_⟩
    · have hinserted : Keeps source batch t (insertIgnore t batch).1 := keeps_insertIgnore
      have hretire : Keeps source [] (insertIgnore t batch).1
          (retireStaleNaturalKeyRows batch page (insertIgnore t batch).1).1 :=
        keeps_retire hpage (_, [])
      exact (hinserted.trans hretire (fun _ h => h) (by simp)).trans keeps_insertIgnore
        (fun _ h => h) (fun _ h => h)
    · rw [held_iff_seen (hfree _) hagain, SeenBatch]
      exact ⟨fun hseen => ⟨fun _ => hclean, fun _ => hseen⟩, fun hseen => hseen.2 hclean⟩
  · obtain rfl := Option.some.inj h
    refine ⟨keeps_insertIgnore, ?_⟩
    rw [held_iff_seen (hfree t) hclean, SeenBatch]
    exact ⟨fun hseen => ⟨hseen, fun hshown => absurd hshown hclean⟩, And.left⟩

end Batch

/-! ### Every other table -/

def SeenBatches (page : List (Row Key)) : List (List (Row Key)) → Table Key → Prop
  | [], _ => True
  | batch :: rest, t =>
    SeenBatch page t batch ∧ ∀ t', insertBatch page t batch = some t' → SeenBatches page rest t'

/-- Every statement of the repair shows a collision of natural keys that it has. -/
def SeenPages : List (List (Row Key)) → Table Key → Prop
  | [], _ => True
  | page :: rest, t =>
    SeenBatches page (batches page) t ∧ ∀ t', applyPage .other page t = some t' → SeenPages rest t'

section Other
variable {source : Source Key} {page : List (Row Key)} {first rest : List (Row Key)}
  {t t' t'' final : Table Key}

omit [DecidableEq Key] in
/-- Later rows of the source neither free nor take an id of earlier ones. -/
theorem held_append_iff (h' : Keeps source rest t' t'')
    (hmem : ∀ row ∈ first, row ∈ source) (hids : ((first ++ rest).map Row.id).Nodup) :
    (∀ row ∈ first ++ rest, Held t'' row.id) ↔
      (∀ row ∈ first, Held t' row.id) ∧ ∀ row ∈ rest, Held t'' row.id := by
  rw [List.forall_mem_append]
  refine and_congr_left fun _ => forall₂_congr fun row hrow => ?_
  constructor
  · rintro ⟨r, hr, hid⟩
    rcases h'.origin r hr with hr | hr
    · exact ⟨r, hr, hid⟩
    · rw [List.map_append, List.nodup_append] at hids
      exact absurd hid.symm (hids.2.2 _ (List.mem_map_of_mem hrow) _ (List.mem_map_of_mem hr))
  · exact h'.held row (hmem row hrow)

theorem insertBatches_spec (hpage : source.Page page) {bs : List (List (Row Key))}
    (hids : (bs.flatten.map Row.id).Nodup) (hmem : ∀ row ∈ bs.flatten, row ∈ source)
    (h : bs.foldlM (insertBatch page) t = some final) :
    Keeps source bs.flatten t final ∧
      ((∀ row ∈ bs.flatten, Held final row.id) ↔ SeenBatches page bs t) := by
  induction bs generalizing t with
  | nil =>
    obtain rfl := Option.some.inj h
    exact ⟨Keeps.refl, by simp [SeenBatches]⟩
  | cons batch bs ih =>
    simp only [List.foldlM_cons, Option.bind_eq_bind, Option.bind_eq_some_iff] at h
    obtain ⟨t', hbatch, hrest⟩ := h
    rw [List.flatten_cons] at hids hmem ⊢
    have hids' := hids
    rw [List.map_append] at hids'
    obtain ⟨hkeeps, hseen⟩ := insertBatch_spec hpage hids'.of_append_left hbatch
    obtain ⟨hkeeps', hseen'⟩ := ih hids'.of_append_right
      (fun row hrow => hmem row (List.mem_append_right _ hrow)) hrest
    refine ⟨hkeeps.trans hkeeps' (fun _ => List.mem_append_left _) (fun _ => List.mem_append_right _), ?_⟩
    rw [held_append_iff hkeeps' (fun row hrow => hmem row (List.mem_append_left _ hrow)) hids,
      hseen, hseen', SeenBatches]
    simp [hbatch]

omit [DecidableEq Key] in
theorem flatten_batches (rows : List (Row Key)) : (batches rows).flatten = rows := by
  rw [batches, ← List.flatMap_def, flatMap_starts rows (by decide)]

theorem applyPage_spec (hpage : source.Page page) (h : applyPage .other page t = some t') :
    Keeps source page t t' ∧
      ((∀ row ∈ page, Held t' row.id) ↔ SeenBatches page (batches page) t) := by
  have hids : ((batches page).flatten.map Row.id).Nodup := by rw [flatten_batches]; exact hpage.ids
  have hmem : ∀ row ∈ (batches page).flatten, row ∈ source := by rw [flatten_batches]; exact hpage.mem
  have hspec := insertBatches_spec hpage hids hmem h
  rwa [flatten_batches] at hspec

/-- The pages that are left. -/
theorem repair_other_spec {before after : List (List (Row Key))} (hpages : source.pages = before ++ after)
    {outcome : Outcome Key} (h : repair .other after t = outcome) :
    (∀ row ∈ source, row ∈ t → row ∈ outcome.table) ∧
    ∀ final, outcome = .finished final → Keeps source after.flatten t final ∧
      ((∀ row ∈ after.flatten, Held final row.id) ↔ SeenPages after t) := by
  induction after generalizing t before with
  | nil =>
    obtain rfl := h
    refine ⟨fun _ _ h => h, fun final hfinal => ?_⟩
    obtain rfl := Outcome.finished.inj hfinal
    exact ⟨Keeps.refl, by simp [SeenPages]⟩
  | cons page after ih =>
    have hpage : source.Page page := source.page_of_split hpages
    rw [repair] at h
    cases hpageApplied : applyPage .other page t with
    | none =>
      rw [hpageApplied] at h
      obtain rfl := h
      exact ⟨fun _ _ h => h, fun final hfinal => by cases hfinal⟩
    | some t' =>
      rw [hpageApplied] at h
      obtain ⟨hkeeps, hseen⟩ := applyPage_spec hpage hpageApplied
      have hpages' : source.pages = (before ++ [page]) ++ after := by rw [hpages]; simp
      obtain ⟨hkept, hfinished⟩ := ih hpages' h
      refine ⟨fun row hrow ht => hkept row hrow (hkeeps.kept row hrow ht), fun final hfinal => ?_⟩
      obtain ⟨hkeeps', hseen'⟩ := hfinished final hfinal
      have hids : ((page ++ after.flatten).map Row.id).Nodup := by
        have hordered := source.ordered
        rw [hpages, List.flatten_append, List.flatten_cons] at hordered
        exact (List.pairwise_map.mpr (List.pairwise_append.mp hordered).2.1).imp fun hlt => hlt.ne
      rw [List.flatten_cons]
      refine ⟨hkeeps.trans hkeeps' (fun _ => List.mem_append_left _) (fun _ => List.mem_append_right _), ?_⟩
      rw [held_append_iff hkeeps' hpage.mem hids, hseen, hseen', SeenPages]
      simp [hpageApplied]

end Other

/-! ### `index_statuses` -/

/-- The row is there, or nothing is in its way. -/
def Ready (t : Table Key) (row : Row Key) : Prop :=
  row ∈ t ∨ ∀ r ∈ t, r.id ≠ row.id ∧ r.key ≠ row.key

section Statuses
variable {source : Source Key} {page batch others : List (Row Key)} {t t' : Table Key} {row r : Row Key}

omit [DecidableEq Key] in
theorem Table.eq_of_id (hr : r ∈ t) (hrow : row ∈ t) (h : r.id = row.id) : r = row :=
  List.inj_on_of_nodup_map t.ids hr hrow h

omit [DecidableEq Key] in
theorem Table.eq_of_key (hr : r ∈ t) (hrow : row ∈ t) (h : r.key = row.key) : r = row :=
  List.inj_on_of_nodup_map t.keys hr hrow h

/-- A stored row is the one holder of its key. -/
theorem keyHolders_of_mem (h : row ∈ t) : t.rows.filter (·.key = row.key) = [row] := by
  have hnodup : (t.rows.filter (·.key = row.key)).Nodup := (t.ids.of_map).filter _
  have hmem : row ∈ t.rows.filter (·.key = row.key) := List.mem_filter.mpr ⟨h, by simp⟩
  refine List.perm_singleton.mp ((List.perm_ext_iff_of_nodup hnodup (List.nodup_singleton row)).mpr ?_)
  intro r
  rw [List.mem_singleton]
  constructor
  · intro hr
    obtain ⟨hr, hkey⟩ := List.mem_filter.mp hr
    exact Table.eq_of_key hr h (by simpa using hkey)
  · rintro rfl
    exact hmem

theorem retireIds_of_mem (h : row ∈ t) : retireIds t row = [] := by
  simp [retireIds, keyHolders_of_mem h]

/-- Only rows that are not of the source are retired. -/
theorem kept_reconcile (hpage : ∀ row ∈ page, row ∈ source) (hr : r ∈ source) (h : r ∈ t) :
    r ∈ reconcileLookupRows page t := by
  refine mem_keep.mpr ⟨h, decide_eq_true fun hretired => ?_⟩
  obtain ⟨row, hrow, hretired⟩ := List.mem_flatMap.mp hretired
  have hne : r ≠ row := by
    rintro rfl
    simp [retireIds_of_mem h] at hretired
  simp only [retireIds] at hretired
  split_ifs at hretired
  · cases hretired
  · rcases List.mem_append.mp hretired with hholder | hholder
    · obtain ⟨s, hs, hid⟩ := List.mem_map.mp hholder
      obtain ⟨-, hsid⟩ := List.mem_filter.mp hs
      exact hne (source.eq_of_id hr (hpage row hrow) (by rw [← hid]; simpa using hsid))
    · obtain ⟨s, hs, hid⟩ := List.mem_map.mp hholder
      obtain ⟨hs, hkey⟩ := List.mem_filter.mp hs
      obtain rfl := Table.eq_of_id hs h hid
      exact hne (source.eq_of_key hr (hpage row hrow) (by simpa using hkey))

theorem ready_reconcile (hpage : ∀ row ∈ page, row ∈ source) (hrow : row ∈ page) :
    Ready (reconcileLookupRows page t) row := by
  by_cases hheld : (t.rows.filter (·.key = row.key)).map Row.id = [row.id]
  · obtain ⟨s, hs, hid⟩ := List.mem_map.mp (hheld ▸ List.mem_singleton_self row.id)
    obtain ⟨hmem, hkey⟩ := List.mem_filter.mp hs
    have hsame : s = row := by
      obtain ⟨id, key⟩ := s
      obtain ⟨id', key'⟩ := row
      simp_all
    exact Or.inl (kept_reconcile hpage (hpage row hrow) (hsame ▸ hmem))
  · refine Or.inr fun r hr => ?_
    obtain ⟨hr, hstays⟩ := mem_keep.mp hr
    have hstays : r.id ∉ page.flatMap (retireIds t) := of_decide_eq_true hstays
    constructor
    · intro hid
      apply hstays
      refine List.mem_flatMap.mpr ⟨row, hrow, ?_⟩
      simp only [retireIds, if_neg hheld]
      exact List.mem_append_left _ (List.mem_map_of_mem (List.mem_filter.mpr ⟨hr, by simpa using hid⟩))
    · intro hkey
      apply hstays
      refine List.mem_flatMap.mpr ⟨row, hrow, ?_⟩
      simp only [retireIds, if_neg hheld]
      exact List.mem_append_right _ (List.mem_map_of_mem (List.mem_filter.mpr ⟨hr, by simpa using hkey⟩))

/-- A statement of ready rows has them all in, without a natural key that collides, and leaves the
other rows of the page ready. -/
theorem insertIgnore_ready (hids : ((batch ++ others).map Row.id).Nodup)
    (hkeys : ((batch ++ others).map Row.key).Nodup) (h : ∀ row ∈ batch ++ others, Ready t row) :
    Warning.natural ∉ (insertIgnore t batch).2 ∧ (∀ row ∈ batch, row ∈ (insertIgnore t batch).1) ∧
      ∀ row ∈ others, Ready (insertIgnore t batch).1 row := by
  induction batch generalizing t with
  | nil => exact ⟨by simp [insertIgnore], by simp, h⟩
  | cons row rest ih =>
    rw [List.cons_append, List.map_cons, List.nodup_cons] at hids hkeys
    have hrest : ∀ r ∈ rest ++ others, Ready (ignoreRow t row).1 r := by
      intro r hr
      rcases h r (List.mem_cons_of_mem row hr) with hmem | hfree
      · exact Or.inl (mem_ignoreRow_of_mem hmem)
      · refine Or.inr fun s hs => ?_
        rcases mem_of_mem_ignoreRow hs with hs | rfl
        · exact hfree s hs
        · exact ⟨fun hid => hids.1 (hid ▸ List.mem_map_of_mem hr),
            fun hkey => hkeys.1 (hkey ▸ List.mem_map_of_mem hr)⟩
    obtain ⟨hclean, hmem, hothers⟩ := ih hids.2 hkeys.2 hrest
    have hrow : Warning.natural ∉ (ignoreRow t row).2 ∧ row ∈ (ignoreRow t row).1 := by
      obtain ⟨-, hadded, hnone⟩ | ⟨hfree, ⟨s, hs, hkey⟩, -⟩ | ⟨⟨s, hs, hid⟩, heq⟩ := ignoreRow_cases t row
      · exact ⟨by simp [hnone], (hadded row).mpr (Or.inr rfl)⟩
      · rcases h row List.mem_cons_self with hmem | hclear
        · exact absurd ⟨row, hmem, rfl⟩ hfree
        · exact absurd hkey (hclear s hs).2
      · rcases h row List.mem_cons_self with hmem | hclear
        · exact ⟨by simp [heq], by rwa [heq]⟩
        · exact absurd hid (hclear s hs).1
    refine ⟨?_, fun r hr => ?_, hothers⟩
    · rw [insertIgnore_cons, List.mem_append]
      exact fun hnatural => hnatural.elim hrow.1 hclean
    · rw [insertIgnore_cons]
      rcases List.mem_cons.mp hr with rfl | hr
      · exact mem_insertIgnore_of_mem hrow.2
      · exact hmem r hr

theorem insertBatches_ready {bs : List (List (Row Key))} (hids : (bs.flatten.map Row.id).Nodup)
    (hkeys : (bs.flatten.map Row.key).Nodup) (h : ∀ row ∈ bs.flatten, Ready t row) :
    ∃ final, bs.foldlM (insertBatch page) t = some final ∧ (∀ row ∈ bs.flatten, row ∈ final) ∧
      ∀ r ∈ t, r ∈ final := by
  induction bs generalizing t with
  | nil => exact ⟨t, rfl, by simp, fun _ h => h⟩
  | cons batch bs ih =>
    rw [List.flatten_cons] at hids hkeys h
    obtain ⟨hclean, hmem, hothers⟩ := insertIgnore_ready hids hkeys h
    have hbatch : insertBatch page t batch = some (insertIgnore t batch).1 := by
      have hshown : Warning.natural ∉ showWarnings (insertIgnore t batch).2 :=
        fun hnatural => hclean (List.mem_of_mem_take hnatural)
      simp [insertBatch, suspect_eq_nil_iff, hshown]
    rw [List.map_append] at hids hkeys
    obtain ⟨final, hfinal, hall, hkept⟩ := ih hids.of_append_right hkeys.of_append_right hothers
    refine ⟨final, ?_, fun row hrow => ?_, fun r hr => hkept r (mem_insertIgnore_of_mem hr)⟩
    · rw [List.foldlM_cons, hbatch]
      exact hfinal
    · rcases List.mem_append.mp hrow with hrow | hrow
      · exact hkept row (hmem row hrow)
      · exact hall row hrow

theorem applyPage_statuses (hpage : source.Page page) :
    ∃ t', applyPage .index_statuses page t = some t' ∧ (∀ row ∈ page, row ∈ t') ∧
      ∀ row ∈ source, row ∈ t → row ∈ t' := by
  have hready : ∀ row ∈ (batches page).flatten, Ready (reconcileLookupRows page t) row := by
    rw [flatten_batches]
    exact fun row hrow => ready_reconcile hpage.mem hrow
  have hids : ((batches page).flatten.map Row.id).Nodup := by rw [flatten_batches]; exact hpage.ids
  have hkeys : ((batches page).flatten.map Row.key).Nodup := by rw [flatten_batches]; exact hpage.keys
  obtain ⟨t', happlied, hall, hkept⟩ := insertBatches_ready hids hkeys hready
  rw [flatten_batches] at hall
  exact ⟨t', happlied, hall, fun row hrow ht => hkept row (kept_reconcile hpage.mem hrow ht)⟩

theorem repair_statuses_spec {before after : List (List (Row Key))}
    (hpages : source.pages = before ++ after) :
    ∃ final, repair .index_statuses after t = .finished final ∧ (∀ row ∈ after.flatten, row ∈ final) ∧
      ∀ row ∈ source, row ∈ t → row ∈ final := by
  induction after generalizing t before with
  | nil => exact ⟨t, rfl, by simp, fun _ _ h => h⟩
  | cons page after ih =>
    have hpage : source.Page page := source.page_of_split hpages
    obtain ⟨t', happlied, hall, hkept⟩ := applyPage_statuses (t := t) hpage
    have hpages' : source.pages = (before ++ [page]) ++ after := by rw [hpages]; simp
    obtain ⟨final, hfinal, hrest, hkept'⟩ := ih (t := t') hpages'
    refine ⟨final, ?_, fun row hrow => ?_, fun row hrow ht => hkept' row hrow (hkept row hrow ht)⟩
    · rw [repair, happlied]
      exact hfinal
    · rcases List.mem_append.mp hrow with hrow | hrow
      · exact hkept' row (hpage.mem row hrow) (hall row hrow)
      · exact hrest row hrow

end Statuses

/-! ### The repair -/

/-- The repair threw, or every row of the source is stored under its id, but for one whose id another
row held before, in a table other than `index_statuses`. -/
def Converges (lookup : Lookup) (source : Source Key) (t : Table Key) : Prop :=
  match repair lookup source.pages t with
  | .threw _ => True
  | .finished final => ∀ row ∈ source, row ∈ final ∨ (lookup ≠ .index_statuses ∧ Blocked t row)

/-- No local row that is also one of the source is lost. -/
def KeepsEqualRows (lookup : Lookup) (source : Source Key) (t : Table Key) : Prop :=
  ∀ row ∈ source, row ∈ t → row ∈ (repair lookup source.pages t).table

omit [DecidableEq Key] in
/-- At the end, the rows of the source are stored or were blocked before exactly if their ids are
held. -/
theorem held_iff_stored {source : Source Key} {t final : Table Key}
    (h : Keeps source source.pages.flatten t final) {row : Row Key} (hrow : row ∈ source) :
    Held final row.id ↔ row ∈ final ∨ Blocked t row := by
  constructor
  · rintro ⟨r, hr, hid⟩
    by_cases hsame : r = row
    · exact Or.inl (hsame ▸ hr)
    · rcases h.origin r hr with hlocal | hsent
      · refine Or.inr ⟨r, hlocal, hid, fun hkey => hsame ?_⟩
        obtain ⟨id, key⟩ := r
        obtain ⟨id', key'⟩ := row
        simp_all
      · exact absurd (source.eq_of_id hsent hrow hid) hsame
  · rintro (hmem | ⟨r, hr, hid, -⟩)
    · exact ⟨row, hmem, rfl⟩
    · exact h.held row hrow ⟨r, hr, hid⟩

theorem keepsEqualRows (lookup : Lookup) (source : Source Key) (t : Table Key) :
    KeepsEqualRows lookup source t := by
  have hpages : source.pages = [] ++ source.pages := rfl
  cases lookup with
  | index_statuses =>
    obtain ⟨final, hfinal, -, hkept⟩ := repair_statuses_spec (t := t) hpages
    intro row hrow ht
    rw [hfinal]
    exact hkept row hrow ht
  | other => exact (repair_other_spec hpages rfl).1

theorem converges_statuses (source : Source Key) (t : Table Key) : Converges .index_statuses source t := by
  have hpages : source.pages = [] ++ source.pages := rfl
  obtain ⟨final, hfinal, hall, -⟩ := repair_statuses_spec (t := t) hpages
  rw [Converges, hfinal]
  exact fun row hrow => Or.inl (hall row hrow)

theorem converges_other_iff {source : Source Key} {t final : Table Key}
    (h : repair .other source.pages t = .finished final) :
    Converges .other source t ↔ SeenPages source.pages t := by
  have hpages : source.pages = [] ++ source.pages := rfl
  obtain ⟨hkeeps, hseen⟩ := (repair_other_spec hpages h).2 final rfl
  rw [Converges, h, ← hseen]
  refine forall₂_congr fun row hrow => ?_
  rw [held_iff_stored hkeeps hrow]
  simp

def numbered (n : Nat) : List (Row Int) := (List.range n).map fun i => ⟨i + 1, i + 1⟩

/-- The first 64 rows are those of the source, the natural key of the next one is under an old id. -/
def crowded : Table Int where
  rows := numbered 64 ++ [⟨200, 65⟩]
  ids := by decide +kernel
  keys := by decide +kernel

def onePage : Source Int where
  pages := [numbered 65]
  ordered := by decide +kernel
  keys := by decide +kernel

end XChainSync.LookupRepair
