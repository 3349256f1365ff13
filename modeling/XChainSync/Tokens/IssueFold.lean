import XChainSync.Library.Decimals
import XChainSync.Tokens.Values

/-!
# The metadata of a token as a fold of its issues

Each column that a refold writes keeps one summary of the valid issues of the tick: a lock that an
issue sets, the most decimals, the list that the last issue to name one left, the last value given.
-/

namespace XChainSync.Tokens
set_option autoImplicit false

/-- A row of `issues`. -/
structure Issue where
  tick_id : Nat
  action_index : Nat
  max_supply : Cell
  max_mint : Cell
  decimals : Cell
  description : Cell
  lock_max_supply : Cell
  lock_mint : Cell
  lock_mint_supply : Cell
  lock_max_mint : Cell
  lock_description : Cell
  lock_sleep : Cell
  lock_callback : Cell
  callback_block : Cell
  callback_amount : Cell
  mint_address_max : Cell
  mint_start_block : Cell
  mint_stop_block : Cell
  allow_list : Cell
  block_list : Cell
  bridge_chains : Cell
  min_depth : Cell
  lock_bridge : Cell
  status_id : Nat
  transfer_id : Option Nat
  callback_tick_id : Option Nat
  deriving DecidableEq, Repr

/-- A row that `foldRowsSql` selects. -/
structure FoldRow where
  issue : Issue
  source_addr_id : Nat
  transfer_addr_id : Option Nat
  callback_tick_ref : Option Nat
  deriving DecidableEq, Repr

inductive Key where
  | ACTION_INDEX | TICK_ID | OWNER_ID | MAX_SUPPLY | MAX_MINT | DECIMALS | DESCRIPTION
  | LOCK_MAX_SUPPLY | LOCK_MINT_SUPPLY | LOCK_MINT | LOCK_MAX_MINT | LOCK_DESCRIPTION | LOCK_SLEEP
  | LOCK_CALLBACK | CALLBACK_TICK_ID | CALLBACK_BLOCK | CALLBACK_AMOUNT | ALLOW_LIST | BLOCK_LIST
  | BRIDGE_CHAINS | MIN_DEPTH | LOCK_BRIDGE | MINT_ADDRESS_MAX | MINT_START_BLOCK | MINT_STOP_BLOCK
  deriving DecidableEq, Repr

namespace Key

/-- The keys whose name starts with `LOCK_`. -/
def isLock : Key → Bool
  | LOCK_MAX_SUPPLY | LOCK_MINT_SUPPLY | LOCK_MINT | LOCK_MAX_MINT | LOCK_DESCRIPTION | LOCK_SLEEP
  | LOCK_CALLBACK | LOCK_BRIDGE => true
  | _ => false

def isList : Key → Bool
  | ALLOW_LIST | BLOCK_LIST => true
  | _ => false

end Key

open Key

def NUMBER_FIELDS : List Key :=
  [ALLOW_LIST, BLOCK_LIST, CALLBACK_AMOUNT, CALLBACK_BLOCK, DECIMALS, MAX_SUPPLY, MAX_MINT,
    MINT_ADDRESS_MAX, MINT_START_BLOCK, MINT_STOP_BLOCK]

def LIST_FIELDS : List Key := [ALLOW_LIST, BLOCK_LIST]

def INTEGER_FIELDS : List Key :=
  [ALLOW_LIST, BLOCK_LIST, CALLBACK_BLOCK, MINT_START_BLOCK, MINT_STOP_BLOCK]

/-- Without `LOCK_BRIDGE`. -/
def LOCK_FIELDS : List Key :=
  [LOCK_MAX_SUPPLY, LOCK_MINT, LOCK_MINT_SUPPLY, LOCK_MAX_MINT, LOCK_DESCRIPTION, LOCK_SLEEP,
    LOCK_CALLBACK]

def MIN_TOKEN_DECIMALS : Int := 0
def MAX_TOKEN_DECIMALS : Int := 18

def idCell : Option Nat → Cell
  | some id => .num id
  | none => .null

def rowValues (row : FoldRow) : Key → Cell
  | ACTION_INDEX => .num row.issue.action_index
  | TICK_ID => .num row.issue.tick_id
  | OWNER_ID => .num (row.transfer_addr_id.getD row.source_addr_id)
  | MAX_SUPPLY => row.issue.max_supply
  | MAX_MINT => row.issue.max_mint
  | DECIMALS => if row.issue.decimals.isNull then .num 0 else row.issue.decimals.parseInt
  | DESCRIPTION => row.issue.description
  | LOCK_MAX_SUPPLY => row.issue.lock_max_supply
  | LOCK_MINT_SUPPLY => row.issue.lock_mint_supply
  | LOCK_MINT => row.issue.lock_mint
  | LOCK_MAX_MINT => row.issue.lock_max_mint
  | LOCK_DESCRIPTION => row.issue.lock_description
  | LOCK_SLEEP => row.issue.lock_sleep
  | LOCK_CALLBACK => row.issue.lock_callback
  | CALLBACK_TICK_ID => idCell row.callback_tick_ref
  | CALLBACK_BLOCK => row.issue.callback_block
  | CALLBACK_AMOUNT => row.issue.callback_amount
  | ALLOW_LIST => row.issue.allow_list
  | BLOCK_LIST => row.issue.block_list
  | BRIDGE_CHAINS => row.issue.bridge_chains
  | MIN_DEPTH => row.issue.min_depth
  | LOCK_BRIDGE => row.issue.lock_bridge
  | MINT_ADDRESS_MAX => row.issue.mint_address_max
  | MINT_START_BLOCK => row.issue.mint_start_block
  | MINT_STOP_BLOCK => row.issue.mint_stop_block

/-- `data`, whose missing keys are null. -/
abbrev Info := Key → Cell

/-- `data[key] > value` of two numbers. -/
def above : Cell → Cell → Bool
  | .num m, .num n => n < m
  | _, _ => false

/-- One turn of the loop of `foldRow`: what stands under the key afterwards. -/
def foldKey (key : Key) (held value : Cell) : Cell :=
  if key.isLock && held.isOne then held
  else if key = DECIMALS && above held value then held
  else if key.isList && value.toString = "0" then .null
  else if value.isNull then held
  else value

def foldRow (data : Info) (arr : Info) : Info := fun key => foldKey key (data key) (arr key)

def folded (rows : List FoldRow) : Info :=
  rows.foldl (fun data row => foldRow data (rowValues row)) fun _ => .null

/-! ### The columns -/

def readLock : Cell → Cell
  | .text s => if (Cell.text s).isNumeric then (Cell.text s).parseInt else .text s
  | v => v

/-- `LOCK_FIELDS` of `normalize`. -/
def normalizeLock (v : Cell) : Cell :=
  let v := readLock v
  if v = .num 0 ∨ v = .num 1 then v else .null

def normalize (input : Info) : Info := fun f =>
  let v := input f
  let v := if LIST_FIELDS.contains f && !v.isNull && !v.isNumeric then .null else v
  let v := if NUMBER_FIELDS.contains f && (v.isNull || !v.isNumeric) then .null else v
  let v := if INTEGER_FIELDS.contains f && !v.isNull && exceedsU64 v then .null else v
  let v := if LOCK_FIELDS.contains f then normalizeLock v else v
  if f = DECIMALS then
    match v with
    | .num n => if n < MIN_TOKEN_DECIMALS ∨ MAX_TOKEN_DECIMALS < n then .null else v
    | v => v
  else v

/-- The columns that a refold writes. -/
structure Columns where
  max_supply : Cell
  max_mint : Cell
  decimals : Cell
  description : Cell
  lock_max_supply : Cell
  lock_mint : Cell
  lock_mint_supply : Cell
  lock_max_mint : Cell
  lock_description : Cell
  lock_sleep : Cell
  lock_callback : Cell
  callback_block : Cell
  callback_tick_id : Cell
  callback_amount : Cell
  allow_list : Cell
  block_list : Cell
  mint_address_max : Cell
  mint_start_block : Cell
  mint_stop_block : Cell
  bridge_chains : Cell
  min_depth : Cell
  lock_bridge : Cell
  owner_id : Cell
  last_action_index : Cell
  deriving DecidableEq, Repr

/-- `num`. -/
def numberOrZero (v : Cell) : Cell := if !v.isNull && v.isNumeric then v else .num 0

def intOrNull (v : Cell) : Cell := if !v.isNull && v.isNumeric then v.parseInt else .null

def bit (v : Cell) : Cell := if v.isOne then .num 1 else .num 0

/-- `mathjs.format(mathjs.bignumber(text), { notation: 'fixed', precision })`. -/
abbrev Fixed := String → Nat → String

def bcformat (fixed : Fixed) (num : Cell) (decimals : Nat) : Cell :=
  .text (fixed (if num.isNumeric then String.ofList (JsText.trimChars num.toString.toList) else "0")
    decimals)

def tokenColumns (fixed : Fixed) (info : Info) : Columns :=
  let d := normalize info
  let decimals := match d DECIMALS with
    | .num n => n.toNat
    | _ => 0
  { max_supply := bcformat fixed (numberOrZero (d MAX_SUPPLY)) decimals
    max_mint := bcformat fixed (numberOrZero (d MAX_MINT)) decimals
    decimals := .num decimals
    description := d DESCRIPTION
    lock_max_supply := bit (d LOCK_MAX_SUPPLY)
    lock_mint := bit (d LOCK_MINT)
    lock_mint_supply := bit (d LOCK_MINT_SUPPLY)
    lock_max_mint := bit (d LOCK_MAX_MINT)
    lock_description := bit (d LOCK_DESCRIPTION)
    lock_sleep := bit (d LOCK_SLEEP)
    lock_callback := bit (d LOCK_CALLBACK)
    callback_block := if (d CALLBACK_BLOCK).isPositive then d CALLBACK_BLOCK else .num 0
    callback_tick_id := if (d CALLBACK_TICK_ID).isNull then .null else d CALLBACK_TICK_ID
    callback_amount := numberOrZero (d CALLBACK_AMOUNT)
    allow_list := intOrNull (d ALLOW_LIST)
    block_list := intOrNull (d BLOCK_LIST)
    mint_address_max := bcformat fixed (numberOrZero (d MINT_ADDRESS_MAX)) decimals
    mint_start_block := numberOrZero (d MINT_START_BLOCK)
    mint_stop_block := numberOrZero (d MINT_STOP_BLOCK)
    bridge_chains := if !(d BRIDGE_CHAINS).isNull && (d BRIDGE_CHAINS).toString != "-" then
      .text (d BRIDGE_CHAINS).toString else .null
    min_depth := intOrNull (d MIN_DEPTH)
    lock_bridge := bit (d LOCK_BRIDGE)
    owner_id := if (d OWNER_ID).isNull then .null else d OWNER_ID
    last_action_index := d ACTION_INDEX }

/-! ### One key -/

variable {key : Key} {held value : Cell} {values : List Cell} {row last : FoldRow}
  {rows : List FoldRow} {fixed : Fixed}

/-- What the fold makes of the values of one key. -/
def foldValues (key : Key) (values : List Cell) : Cell := values.foldl (foldKey key) .null

theorem folded_eq (rows : List FoldRow) (key : Key) :
    folded rows key = foldValues key (rows.map fun row => rowValues row key) := by
  have hgeneral : ∀ data : Info, rows.foldl (fun d row => foldRow d (rowValues row)) data key =
      (rows.map fun row => rowValues row key).foldl (foldKey key) (data key) := by
    induction rows with
    | nil => exact fun _ => rfl
    | cons row rows ih => exact fun data => ih (foldRow data (rowValues row))
  exact hgeneral _

theorem foldValues_concat : foldValues key (values ++ [value]) =
    foldKey key (foldValues key values) value := by
  simp [foldValues, List.foldl_append]

/-- What is held is null or one of the values. -/
theorem foldValues_mem (key : Key) (values : List Cell) :
    foldValues key values = .null ∨ foldValues key values ∈ values := by
  induction values using List.reverseRecOn with
  | nil => exact .inl rfl
  | append_singleton values value ih =>
    rw [foldValues_concat]
    have hheld : foldValues key values = .null ∨ foldValues key values ∈ values ++ [value] :=
      ih.imp_right (List.mem_append_left _)
    unfold foldKey
    split
    · exact hheld
    split
    · exact hheld
    split
    · exact .inl rfl
    split
    · exact hheld
    · exact .inr (List.mem_append_right _ (List.mem_singleton_self _))

theorem foldKey_lock (hkey : key.isLock = true) :
    (foldKey key held value).isOne = (held.isOne || value.isOne) := by
  have hdecimals : key ≠ DECIMALS := by
    rintro rfl
    cases hkey
  have hlist : key.isList = false := by
    cases key <;> first | rfl | cases hkey
  unfold foldKey
  by_cases hheld : held.isOne = true
  · simp [hkey, hheld]
  · by_cases hnull : value.isNull = true
    · have hone : value.isOne = false := by
        by_contra hone
        rw [isNull_of_isOne (by simpa using hone)] at hnull
        cases hnull
      simp [hheld, hdecimals, hlist, hnull, hone]
    · simp [hheld, hdecimals, hlist, hnull]

/-- A lock that some issue sets stays set. -/
theorem foldValues_lock (hkey : key.isLock = true) :
    (foldValues key values).isOne = values.any Cell.isOne := by
  induction values using List.reverseRecOn with
  | nil => rfl
  | append_singleton values value ih =>
    rw [foldValues_concat, foldKey_lock hkey, ih, List.any_append, List.any_cons, List.any_nil,
      Bool.or_false]

theorem foldKey_plain (hlock : key.isLock = false) (hdecimals : key ≠ DECIMALS) :
    foldKey key held value =
      if key.isList = true ∧ value.toString = "0" then .null
      else if value.isNull then held else value := by
  simp [foldKey, hlock, hdecimals]

/-- The last of the values that are given. -/
def lastGiven (values : List Cell) : Option Cell := values.reverse.find? fun v => !v.isNull

theorem lastGiven_concat : lastGiven (values ++ [value]) =
    if value.isNull then lastGiven values else some value := by
  unfold lastGiven
  rw [List.reverse_append, List.reverse_singleton, List.singleton_append, List.find?_cons]
  cases value.isNull <;> rfl

/-- The list of a token is the one that the last issue to name one left, and `0` leaves none. -/
def attached (list : Bool) : Option Cell → Cell
  | none => .null
  | some v => if list = true ∧ v.toString = "0" then .null else v

theorem foldValues_plain (hlock : key.isLock = false) (hdecimals : key ≠ DECIMALS) :
    foldValues key values = attached key.isList (lastGiven values) := by
  induction values using List.reverseRecOn with
  | nil => rfl
  | append_singleton values value ih =>
    rw [foldValues_concat, foldKey_plain hlock hdecimals, lastGiven_concat]
    by_cases hnull : value.isNull = true
    · -- a null is not the text 0
      have hzero : value.toString ≠ "0" := by
        simp only [Cell.isNull, decide_eq_true_eq] at hnull
        rcases hnull with rfl | rfl <;> decide
      rw [if_neg fun h => hzero h.2, if_pos hnull, if_pos hnull, ih]
    · rw [if_neg hnull, if_neg hnull]
      rfl

/-- With every `DECIMALS` a number, the fold holds the greatest. -/
theorem foldValues_decimals {ns : List Int} (hne : ns ≠ []) :
    ∃ n ∈ ns, foldValues DECIMALS (ns.map .num) = .num n ∧ ∀ m ∈ ns, m ≤ n := by
  induction ns using List.reverseRecOn with
  | nil => exact absurd rfl hne
  | append_singleton ns m ih =>
    rw [List.map_append, List.map_singleton, foldValues_concat]
    by_cases hns : ns = []
    · subst hns
      exact ⟨m, by simp, rfl, by simp⟩
    · obtain ⟨n, hn, hheld, hmax⟩ := ih hns
      rw [hheld]
      by_cases hlt : m < n
      · refine ⟨n, List.mem_append_left _ hn, ?_, fun k hk => ?_⟩
        · simp [foldKey, above, hlt, Key.isLock]
        · rcases List.mem_append.mp hk with hk | hk
          · exact hmax k hk
          · rw [List.mem_singleton.mp hk]
            exact hlt.le
      · refine ⟨m, List.mem_append_right _ (List.mem_singleton_self m), ?_, fun k hk => ?_⟩
        · simp [foldKey, above, hlt, Key.isLock, Key.isList, Cell.isNull]
        · rcases List.mem_append.mp hk with hk | hk
          · exact (hmax k hk).trans (not_lt.mp hlt)
          · exact (List.mem_singleton.mp hk).le

/-! ### The columns of a history -/

theorem isOne_num (n : Int) : (Cell.num n).isOne = decide (n = 1) := by
  simp only [Cell.isOne, Cell.toNumber]
  norm_cast
  simp

theorem normalizeLock_num (n : Int) : (normalizeLock (.num n)).isOne = decide (n = 1) := by
  unfold normalizeLock
  by_cases h : n = 1
  · subst h
    rfl
  · by_cases hzero : n = 0
    · subst hzero
      rfl
    · simp [readLock, h, hzero, Cell.isOne]

theorem isOne_normalizeLock {v : Cell} (h : v.Short) : (normalizeLock v).isOne = v.isOne := by
  cases v with
  | null => rfl
  | nan => rfl
  | num n => rw [normalizeLock_num, isOne_num]
  | text s =>
    -- a text of at most one character is blank, a digit or no number
    have hnone : (Cell.text s).isNumeric = false → (normalizeLock (.text s)).isOne = false := by
      intro hnumeric
      simp [normalizeLock, readLock, hnumeric, Cell.isOne]
    obtain hs | ⟨c, hs⟩ : s = "" ∨ ∃ c, s = String.ofList [c] := by
      simp only [Cell.Short, ← String.length_toList] at h
      rcases hlist : s.toList with _ | ⟨c, _ | ⟨d, tail⟩⟩
      · exact .inl (String.toList_eq_nil_iff.mp hlist)
      · exact .inr ⟨c, by rw [← hlist, String.ofList_toList]⟩
      · rw [hlist] at h
        simp at h
    · subst hs
      have hone : (Cell.text "").isOne = false := by
        by_contra hone
        exact absurd (isNull_of_isOne (by simpa using hone)) (by decide)
      rw [hone, hnone (by simp [Cell.isNumeric, JsText.trimChars])]
    subst hs
    by_cases hdigit : c.isDigit = true
    · obtain ⟨n, hn, rfl⟩ : ∃ n < 10, c = n.digitChar :=
        ⟨Decimals.digitVal c, Decimals.digitVal_lt hdigit, (Decimals.digitChar_digitVal hdigit).symm⟩
      have hspace : JsText.trimChars [n.digitChar] ≠ [] := by
        interval_cases n <;> decide
      have hnumeric : (Cell.text (String.ofList [n.digitChar])).isNumeric = true := by
        simp only [Cell.isNumeric, String.toList_ofList, toNumber_digit hn]
        simpa using hspace
      have hparsed : normalizeLock (.text (String.ofList [n.digitChar])) =
          normalizeLock (.num n) := by
        rw [normalizeLock, readLock, if_pos hnumeric, parseInt_digit hn]
        rfl
      rw [hparsed, normalizeLock_num]
      simp only [Cell.isOne, toNumber_digit hn]
      norm_cast
      simp
    · have hjs : JsText.isDigit c = false := by
        rw [Decimals.isDigit_iff] at hdigit
        simp only [JsText.isDigit, JsText.digit]
        have hnot : (decide (48 ≤ c.toNat) && decide (c.toNat ≤ 57)) = false := by
          simpa using fun hlow => not_le.mp fun hhigh => hdigit ⟨hlow, hhigh⟩
        rw [hnot, if_neg Bool.false_ne_true]
        split
        · simp only [Option.filter_some, decide_eq_true_eq]
          rw [if_neg (by simp_all; omega)]
          rfl
        split
        · simp only [Option.filter_some, decide_eq_true_eq]
          rw [if_neg (by simp_all; omega)]
          rfl
        · rfl
      have hliteral := literal_singleton_of_not_digit hjs
      by_cases hspace : JsText.isSpace c = true
      · rw [if_pos hspace] at hliteral
        have hround : Double.round 0 = some 0 := by simp [Double.round, Double.roundEven]
        have hone : (Cell.text (String.ofList [c])).isOne = false := by
          simp [Cell.isOne, Cell.toNumber, hliteral, hround]
        rw [hone, hnone (by simp [Cell.isNumeric, JsText.trimChars, hspace])]
      · rw [if_neg hspace] at hliteral
        have hone : (Cell.text (String.ofList [c])).isOne = false := by
          simp [Cell.isOne, Cell.toNumber, hliteral]
        rw [hone, hnone (by simp [Cell.isNumeric, Cell.toNumber, hliteral])]

def lockColumns : List ((Columns → Cell) × Key) :=
  [(Columns.lock_max_supply, LOCK_MAX_SUPPLY), (Columns.lock_mint, LOCK_MINT),
    (Columns.lock_mint_supply, LOCK_MINT_SUPPLY), (Columns.lock_max_mint, LOCK_MAX_MINT),
    (Columns.lock_description, LOCK_DESCRIPTION), (Columns.lock_sleep, LOCK_SLEEP),
    (Columns.lock_callback, LOCK_CALLBACK), (Columns.lock_bridge, LOCK_BRIDGE)]

def listColumns : List ((Columns → Cell) × Key) :=
  [(Columns.allow_list, ALLOW_LIST), (Columns.block_list, BLOCK_LIST)]

/-- What the issues of a tick, the last of them given, say of its row. -/
structure Summary (rows : List FoldRow) (last : FoldRow) (c : Columns) : Prop where
  locks : ∀ l ∈ lockColumns,
    l.1 c = if rows.any fun row => (rowValues row l.2).isOne then .num 1 else .num 0
  decimals : ∃ n : Int, c.decimals = .num n ∧
    IsGreatest {m : Int | ∃ row ∈ rows, rowValues row DECIMALS = .num m} n
  unlisted : ∀ l ∈ listColumns, lastGiven (rows.map fun row => rowValues row l.2) = none →
    l.1 c = .null
  listed : ∀ l ∈ listColumns, ∀ n : Int,
    lastGiven (rows.map fun row => rowValues row l.2) = some (.num n) →
      l.1 c = if 0 < n ∧ n ≤ U64_MAX then .num n else .null
  description : c.description =
    (lastGiven (rows.map fun row => rowValues row DESCRIPTION)).getD .null
  callback_tick_id : c.callback_tick_id =
    (lastGiven (rows.map fun row => rowValues row CALLBACK_TICK_ID)).getD .null
  owner_id : c.owner_id = .num (last.transfer_addr_id.getD last.source_addr_id)
  last_action_index : c.last_action_index = .num last.issue.action_index

/-- What a valid issue gives: locks in columns of one character, decimals in their range. -/
structure FoldRow.Sound (row : FoldRow) : Prop where
  locks : ∀ key ∈ LOCK_FIELDS, (rowValues row key).Short
  decimals : ∃ n : Int, rowValues row DECIMALS = .num n ∧ MIN_TOKEN_DECIMALS ≤ n ∧
    n ≤ MAX_TOKEN_DECIMALS

theorem short_foldValues (h : ∀ v ∈ values, v.Short) : (foldValues key values).Short := by
  rcases foldValues_mem key values with hnull | hmem
  · rw [hnull]
    exact trivial
  · exact h _ hmem

theorem bit_lock (hlock : key ∈ LOCK_FIELDS) (hrows : ∀ row ∈ rows, row.Sound) :
    bit (normalize (folded rows) key) =
      if rows.any fun row => (rowValues row key).isOne then .num 1 else .num 0 := by
  have hnormalize : normalize (folded rows) key = normalizeLock (folded rows key) := by
    fin_cases hlock <;> rfl
  have hkey : key.isLock = true := by
    fin_cases hlock <;> rfl
  have hshort : (folded rows key).Short := by
    rw [folded_eq]
    refine short_foldValues fun v hv => ?_
    obtain ⟨row, hrow, rfl⟩ := List.mem_map.mp hv
    exact (hrows row hrow).locks key hlock
  rw [bit, hnormalize, isOne_normalizeLock hshort, folded_eq, foldValues_lock hkey, List.any_map]
  rfl

theorem bit_lock_bridge : bit (normalize (folded rows) LOCK_BRIDGE) =
    if rows.any fun row => (rowValues row LOCK_BRIDGE).isOne then .num 1 else .num 0 := by
  have hnormalize : normalize (folded rows) LOCK_BRIDGE = folded rows LOCK_BRIDGE := rfl
  rw [bit, hnormalize, folded_eq, foldValues_lock rfl, List.any_map]
  rfl

theorem lastGiven_last (h : value.isNull = false) : lastGiven (values ++ [value]) = some value := by
  rw [lastGiven_concat, h]
  rfl

/-- A key that every issue gives holds what the last one gave. -/
theorem folded_concat (hlock : key.isLock = false) (hdecimals : key ≠ DECIMALS)
    (hlist : key.isList = false) (hgiven : (rowValues last key).isNull = false) :
    folded (rows ++ [last]) key = rowValues last key := by
  rw [folded_eq, foldValues_plain hlock hdecimals, List.map_append, List.map_singleton,
    lastGiven_last hgiven, hlist]
  rfl

theorem attached_false (given : Option Cell) : attached false given = given.getD .null := by
  cases given <;> rfl

theorem normalize_list (hlist : key = ALLOW_LIST ∨ key = BLOCK_LIST) {info : Info} {n : Int}
    (h : info key = .num n) :
    normalize info key = if 0 ≤ n ∧ n ≤ U64_MAX then .num n else .null := by
  have hexceeds : normalize info key = if exceedsU64 (.num n) then .null else .num n := by
    rcases hlist with rfl | rfl <;> simp [normalize, h, LIST_FIELDS, NUMBER_FIELDS, INTEGER_FIELDS,
      LOCK_FIELDS, Cell.isNull, Cell.isNumeric]
  rw [hexceeds]
  simp only [exceedsU64, decide_eq_true_eq]
  by_cases hrange : 0 ≤ n ∧ n ≤ U64_MAX
  · rw [if_pos hrange, if_neg (by omega)]
  · rw [if_neg hrange, if_pos (by omega)]

theorem normalize_list_null (hlist : key = ALLOW_LIST ∨ key = BLOCK_LIST) {info : Info}
    (h : info key = .null) : normalize info key = .null := by
  rcases hlist with rfl | rfl <;> simp [normalize, h, LIST_FIELDS, NUMBER_FIELDS, INTEGER_FIELDS,
    LOCK_FIELDS, Cell.isNull, Cell.isNumeric]

theorem listCell_of_none (hlist : key = ALLOW_LIST ∨ key = BLOCK_LIST)
    (h : lastGiven (rows.map fun row => rowValues row key) = none) :
    intOrNull (normalize (folded rows) key) = .null := by
  have hnull : folded rows key = .null := by
    rw [folded_eq, foldValues_plain (by rcases hlist with rfl | rfl <;> rfl)
      (by rcases hlist with rfl | rfl <;> decide), h]
    rfl
  rw [normalize_list_null hlist hnull]
  rfl

/-- A list stays attached until an issue detaches it with `0` or names another. -/
theorem listCell_of_num (hlist : key = ALLOW_LIST ∨ key = BLOCK_LIST) {n : Int}
    (h : lastGiven (rows.map fun row => rowValues row key) = some (.num n)) :
    intOrNull (normalize (folded rows) key) = if 0 < n ∧ n ≤ U64_MAX then .num n else .null := by
  have hkey : key.isList = true := by
    rcases hlist with rfl | rfl <;> rfl
  have hfolded : folded rows key = if n = 0 then .null else .num n := by
    rw [folded_eq, foldValues_plain (by rcases hlist with rfl | rfl <;> rfl)
      (by rcases hlist with rfl | rfl <;> decide), h, hkey]
    by_cases hzero : n = 0
    · subst hzero
      rfl
    · have htext : (Cell.num n).toString ≠ "0" := by
        intro htext
        exact hzero (Int.repr_injective (htext.trans rfl))
      rw [if_neg hzero, attached, if_neg fun h => htext h.2]
  by_cases hzero : n = 0
  · rw [if_pos hzero] at hfolded
    rw [normalize_list_null hlist hfolded, if_neg (by omega)]
    rfl
  · rw [if_neg hzero] at hfolded
    rw [normalize_list hlist hfolded]
    by_cases hrange : 0 < n ∧ n ≤ U64_MAX
    · rw [if_pos hrange, if_pos (by omega)]
      rfl
    · rw [if_neg hrange, if_neg (by omega)]
      rfl

theorem decimalsCell (hne : rows ≠ []) (hrows : ∀ row ∈ rows, row.Sound) :
    ∃ n : Int, (tokenColumns fixed (folded rows)).decimals = .num n ∧
      IsGreatest {m : Int | ∃ row ∈ rows, rowValues row DECIMALS = .num m} n := by
  obtain ⟨ns, hns, hranges⟩ : ∃ ns : List Int,
      (rows.map fun row => rowValues row DECIMALS) = ns.map .num ∧
        ∀ n ∈ ns, MIN_TOKEN_DECIMALS ≤ n ∧ n ≤ MAX_TOKEN_DECIMALS := by
    clear hne
    induction rows with
    | nil => exact ⟨[], rfl, by simp⟩
    | cons row rows ih =>
      obtain ⟨n, hn, hrange⟩ := (hrows row (List.mem_cons_self ..)).decimals
      obtain ⟨ns, hns, hranges⟩ := ih fun r hr => hrows r (List.mem_cons_of_mem _ hr)
      refine ⟨n :: ns, by rw [List.map_cons, hn, hns, List.map_cons], fun m hm => ?_⟩
      rcases List.mem_cons.mp hm with rfl | hm
      · exact hrange
      · exact hranges m hm
  have hgiven : ∀ m : Int, m ∈ ns ↔ ∃ row ∈ rows, rowValues row DECIMALS = .num m := by
    intro m
    have hmem : Cell.num m ∈ ns.map Cell.num ↔ m ∈ ns := by simp
    rw [← hmem, ← hns, List.mem_map]
  have hnonempty : ns ≠ [] := by
    rintro rfl
    exact hne (List.map_eq_nil_iff.mp hns)
  obtain ⟨n, hn, hheld, hmax⟩ := foldValues_decimals hnonempty
  have hfolded : folded rows DECIMALS = .num n := by rw [folded_eq, hns, hheld]
  obtain ⟨hlow, hhigh⟩ := hranges n hn
  have hnormalize : normalize (folded rows) DECIMALS = .num n := by
    have hout : ¬ (n < MIN_TOKEN_DECIMALS ∨ MAX_TOKEN_DECIMALS < n) := by omega
    simp [normalize, hfolded, LIST_FIELDS, NUMBER_FIELDS, INTEGER_FIELDS, LOCK_FIELDS, Cell.isNull,
      Cell.isNumeric, hout]
  refine ⟨n, ?_, (hgiven n).mp hn, fun m hm => hmax m ((hgiven m).mpr hm)⟩
  simp only [tokenColumns, hnormalize]
  rw [Int.toNat_of_nonneg hlow]

/-- The row that a refold writes is the summary of the valid issues of the tick. -/
theorem tokenColumns_summary (fixed : Fixed) (hrows : ∀ row ∈ rows ++ [last], row.Sound) :
    Summary (rows ++ [last]) last (tokenColumns fixed (folded (rows ++ [last]))) where
  locks := by
    intro l hl
    simp only [lockColumns, List.mem_cons, List.not_mem_nil, or_false] at hl
    rcases hl with rfl | rfl | rfl | rfl | rfl | rfl | rfl | rfl
    iterate 7 exact bit_lock (by decide) hrows
    exact bit_lock_bridge
  decimals := decimalsCell (by simp) hrows
  unlisted := by
    intro l hl hnone
    simp only [listColumns, List.mem_cons, List.not_mem_nil, or_false] at hl
    rcases hl with rfl | rfl
    · exact listCell_of_none (.inl rfl) hnone
    · exact listCell_of_none (.inr rfl) hnone
  listed := by
    intro l hl n hn
    simp only [listColumns, List.mem_cons, List.not_mem_nil, or_false] at hl
    rcases hl with rfl | rfl
    · exact listCell_of_num (.inl rfl) hn
    · exact listCell_of_num (.inr rfl) hn
  description := by
    show folded (rows ++ [last]) DESCRIPTION = _
    rw [folded_eq, foldValues_plain rfl (by decide)]
    exact attached_false _
  callback_tick_id := by
    have hfolded : normalize (folded (rows ++ [last])) CALLBACK_TICK_ID =
        (lastGiven ((rows ++ [last]).map fun row => rowValues row CALLBACK_TICK_ID)).getD .null := by
      show folded (rows ++ [last]) CALLBACK_TICK_ID = _
      rw [folded_eq, foldValues_plain rfl (by decide)]
      exact attached_false _
    show (if (normalize (folded (rows ++ [last])) CALLBACK_TICK_ID).isNull then _ else _) = _
    rw [hfolded]
    split
    · rename_i hnull
      generalize hgiven : lastGiven _ = given at hnull ⊢
      cases given with
      | none => rfl
      | some v =>
        have hfound := List.find?_some hgiven
        rw [Option.getD_some] at hnull
        simp [hnull] at hfound
    · rfl
  owner_id := by
    have hfolded : normalize (folded (rows ++ [last])) OWNER_ID =
        .num (last.transfer_addr_id.getD last.source_addr_id) :=
      folded_concat rfl (by decide) rfl rfl
    show (if (normalize (folded (rows ++ [last])) OWNER_ID).isNull then _ else _) = _
    rw [hfolded]
    rfl
  last_action_index := folded_concat rfl (by decide) rfl rfl

/-- An issue that gives nothing but these columns. -/
def blankIssue (action_index decimals : Nat) (lock_mint allow_list : Cell) : FoldRow where
  issue :=
    { tick_id := 10, action_index, max_supply := .text "", max_mint := .text ""
      decimals := .text (String.ofList [decimals.digitChar])
      description := .text "", lock_max_supply := .text "", lock_mint, lock_mint_supply := .text ""
      lock_max_mint := .text "", lock_description := .text "", lock_sleep := .text ""
      lock_callback := .text "", callback_block := .text "", callback_amount := .text ""
      mint_address_max := .text "", mint_start_block := .text "", mint_stop_block := .text ""
      allow_list, block_list := .null, bridge_chains := .text "", min_depth := .text ""
      lock_bridge := .text "", status_id := 1, transfer_id := none, callback_tick_id := none }
  source_addr_id := 1
  transfer_addr_id := none
  callback_tick_ref := none

theorem sound_blankIssue {action_index decimals : Nat} {lock_mint allow_list : Cell}
    (hdecimals : decimals < 10) (hlock : lock_mint.Short) :
    (blankIssue action_index decimals lock_mint allow_list).Sound where
  locks := by
    intro key hkey
    simp only [LOCK_FIELDS, List.mem_cons, List.not_mem_nil, or_false] at hkey
    rcases hkey with rfl | rfl | rfl | rfl | rfl | rfl | rfl
    rotate_left
    · exact hlock
    all_goals exact Nat.zero_le 1
  decimals := by
    refine ⟨decimals, ?_, Int.natCast_nonneg _, ?_⟩
    · have hgiven : (Cell.text (String.ofList [decimals.digitChar])).isNull = false := by
        simp [Cell.isNull]
      show (if (Cell.text (String.ofList [decimals.digitChar])).isNull then _ else _) = _
      rw [hgiven, if_neg Bool.false_ne_true]
      exact parseInt_digit hdecimals
    · show (decimals : Int) ≤ 18
      omega

/-- The second issue unlocks nothing, gives fewer decimals and detaches the list. -/
def lockedThenDetached : List FoldRow × FoldRow :=
  ([blankIssue 100 8 (.text "1") (.num 42)], blankIssue 300 2 (.text "0") (.num 0))

theorem locked_then_detached_summary : Summary (lockedThenDetached.1 ++ [lockedThenDetached.2])
    lockedThenDetached.2
    (tokenColumns (fun text _ => text) (folded (lockedThenDetached.1 ++ [lockedThenDetached.2]))) :=
  tokenColumns_summary _ fun row hrow => by
    simp only [lockedThenDetached, List.singleton_append, List.mem_cons, List.not_mem_nil,
      or_false] at hrow
    rcases hrow with rfl | rfl
    · exact sound_blankIssue (by decide) (by decide)
    · exact sound_blankIssue (by decide) (by decide)

end XChainSync.Tokens
