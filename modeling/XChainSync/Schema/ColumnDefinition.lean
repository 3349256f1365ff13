import Mathlib
import XChainSync.Library.JsText

/-!
# The definition of one column, and what the server reads in it

`extractColumnDefinition` of src/util/validation.js finds the line of a column in a CREATE TABLE text
and scans it for a semicolon and for a comma outside parentheses. The scan knows single quotes and
backticks with their doubled escapes. The server also knows double quotes, backslash escapes and
comments: `codeChars` is what it reads as code.
-/

namespace XChainSync.Schema
set_option autoImplicit false

/-! ### The scan -/

/-- `inStr` and `inTick`, which are never set together. -/
inductive Quote where
  | none
  | str
  | tick
  deriving DecidableEq, Repr

/-- What a quoted region is closed by. -/
def Quote.mark : Quote → Char
  | .none => ' '
  | .str => '\x27'
  | .tick => '\x60'

/-- The loop over a definition from a depth on, false where it meets a bare comma. -/
def scan (q : Quote) (depth : Nat) : List Char → Bool
  | [] => true
  | c :: rest =>
    if q ≠ .none then
      if c = q.mark then
        match rest with
        | d :: rest' => if d = q.mark then scan q depth rest' else scan .none depth (d :: rest')
        | [] => true
      else scan q depth rest
    else if c = '\x27' then scan .str depth rest
    else if c = '\x60' then scan .tick depth rest
    else if c = '(' then scan .none (depth + 1) rest
    else if c = ')' then scan .none (depth - 1) rest
    else if c = ',' ∧ depth = 0 then false
    else scan .none depth rest

/-- `trimmed.replace(/,\s*$/, '')` of a trimmed line. -/
def stripComma (trimmed : List Char) : List Char :=
  if trimmed.getLast? = some ',' then trimmed.dropLast else trimmed

/-- The trimmed line where it is that of the column. -/
def isColumnLine (columnName : List Char) : List Char → Bool
  | '\x60' :: rest =>
    let name := rest.takeWhile (· ≠ '\x60')
    '\x60' ∈ rest ∧ name ≠ [] ∧ name = columnName
  | _ => false

/-- The definition that the column's line carries, before it is checked. -/
def columnLine (ddl columnName : String) : Option (List Char) :=
  (((ddl.toList.splitOn '\n').map JsText.trimChars).find? (isColumnLine columnName.toList)).map
    stripComma

def extractColumnDefinition (ddl columnName : String) : Option (List Char) :=
  (columnLine ddl columnName).filter fun line => ';' ∉ line ∧ scan .none 0 line

/-! ### The server -/

inductive Region where
  | code
  | single
  | double
  | tick
  | comment
  deriving DecidableEq, Repr

/-- A space or a control character, or the end of the text. -/
def endsDashes : List Char → Bool
  | [] => true
  | c :: _ => c.toNat ≤ 32 ∨ c.toNat = 127

/-- The characters read as code. `executes` says of what follows the opening of a comment whether
the server runs its contents; `inside` that such a comment is open. -/
def codeChars (executes : List Char → Bool) (inside : Bool) (region : Region) :
    List Char → List Char
  | [] => []
  | c :: rest =>
    match region with
    | .code =>
      if c = '\x27' then codeChars executes inside .single rest
      else if c = '\x22' then codeChars executes inside .double rest
      else if c = '\x60' then codeChars executes inside .tick rest
      else if c = '#' then []
      else
        match rest with
        | [] => [c]
        | d :: rest' =>
          if c = '-' ∧ d = '-' ∧ endsDashes rest' then []
          else if c = '/' ∧ d = '*' then
            if executes rest' then codeChars executes true .code rest'
            else codeChars executes inside .comment rest'
          else if inside ∧ c = '*' ∧ d = '/' then codeChars executes false .code rest'
          else c :: codeChars executes inside .code (d :: rest')
    | .single =>
      match rest with
      | [] => []
      | d :: rest' =>
        if c = '\x5c' then codeChars executes inside .single rest'
        else if c = '\x27' then
          if d = '\x27' then codeChars executes inside .single rest'
          else codeChars executes inside .code (d :: rest')
        else codeChars executes inside .single (d :: rest')
    | .double =>
      match rest with
      | [] => []
      | d :: rest' =>
        if c = '\x5c' then codeChars executes inside .double rest'
        else if c = '\x22' then
          if d = '\x22' then codeChars executes inside .double rest'
          else codeChars executes inside .code (d :: rest')
        else codeChars executes inside .double (d :: rest')
    | .tick =>
      match rest with
      | [] => []
      | d :: rest' =>
        if c = '\x60' then
          if d = '\x60' then codeChars executes inside .tick rest'
          else codeChars executes inside .code (d :: rest')
        else codeChars executes inside .tick (d :: rest')
    | .comment =>
      match rest with
      | [] => []
      | d :: rest' =>
        if c = '*' ∧ d = '/' then codeChars executes inside .code rest'
        else codeChars executes inside .comment (d :: rest')

/-- A comma where no parenthesis is open. -/
def topComma (depth : Nat) : List Char → Bool
  | [] => false
  | c :: rest =>
    if c = '(' then topComma (depth + 1) rest
    else if c = ')' then topComma (depth - 1) rest
    else if c = ',' ∧ depth = 0 then true
    else topComma depth rest

/-- A comma where as many parentheses were closed as opened. -/
def levelComma (depth : Int) : List Char → Bool
  | [] => false
  | c :: rest =>
    if c = '(' then levelComma (depth + 1) rest
    else if c = ')' then levelComma (depth - 1) rest
    else if c = ',' ∧ depth = 0 then true
    else levelComma depth rest

/-! ### Where the two stay in step -/

/-- What the scan reads outside its quotes. -/
def unquoted (q : Quote) : List Char → List Char
  | [] => []
  | c :: rest =>
    if q ≠ .none then
      if c = q.mark then
        match rest with
        | d :: rest' => if d = q.mark then unquoted q rest' else unquoted .none (d :: rest')
        | [] => []
      else unquoted q rest
    else if c = '\x27' then unquoted .str rest
    else if c = '\x60' then unquoted .tick rest
    else c :: unquoted .none rest

/-- Outside its quotes the scan meets no double quote and no opening of a block comment before a
comment that takes the rest of the line, and in single quotes no backslash before a quote. -/
def legible (q : Quote) : List Char → Bool
  | [] => true
  | c :: rest =>
    match q with
    | .none =>
      if c = '\x27' then legible .str rest
      else if c = '\x22' then false
      else if c = '\x60' then legible .tick rest
      else if c = '#' then true
      else
        match rest with
        | [] => true
        | d :: rest' =>
          if c = '-' ∧ d = '-' ∧ endsDashes rest' then true
          else if c = '/' ∧ d = '*' then false
          else legible .none (d :: rest')
    | .str =>
      match rest with
      | [] => true
      | d :: rest' =>
        if c = '\x5c' then d ≠ '\x27' ∧ legible .str rest'
        else if c = '\x27' then
          if d = '\x27' then legible .str rest' else legible .none (d :: rest')
        else legible .str (d :: rest')
    | .tick =>
      match rest with
      | [] => true
      | d :: rest' =>
        if c = '\x60' then
          if d = '\x60' then legible .tick rest' else legible .none (d :: rest')
        else legible .tick (d :: rest')

/-- Every parenthesis that is closed was open. -/
def neverBelow (depth : Nat) : List Char → Bool
  | [] => true
  | c :: rest =>
    if c = '(' then neverBelow (depth + 1) rest
    else if c = ')' then depth ≠ 0 ∧ neverBelow (depth - 1) rest
    else neverBelow depth rest

section Unquoted
variable {q : Quote} {c : Char} {rest : List Char}

theorem unquoted_quoted (hq : q ≠ .none) (hc : c ≠ q.mark) :
    unquoted q (c :: rest) = unquoted q rest := by
  rw [unquoted.eq_def]
  simp only [if_pos hq, if_neg hc]

theorem unquoted_doubled (hq : q ≠ .none) :
    unquoted q (q.mark :: q.mark :: rest) = unquoted q rest := by
  rw [unquoted.eq_def]
  simp only [if_pos hq, if_true]

theorem unquoted_close (hq : q ≠ .none) (hc : c ≠ q.mark) :
    unquoted q (q.mark :: c :: rest) = unquoted .none (c :: rest) := by
  rw [unquoted.eq_def]
  simp only [if_pos hq, if_true, if_neg hc]

theorem unquoted_str : unquoted .none ('\x27' :: rest) = unquoted .str rest := by
  rw [unquoted.eq_def]
  rfl

theorem unquoted_tick : unquoted .none ('\x60' :: rest) = unquoted .tick rest := by
  rw [unquoted.eq_def]
  rfl

theorem unquoted_code (hstr : c ≠ '\x27') (htick : c ≠ '\x60') :
    unquoted .none (c :: rest) = c :: unquoted .none rest := by
  rw [unquoted.eq_def]
  simp only [ne_eq, not_true_eq_false, if_false, if_neg hstr, if_neg htick]

end Unquoted

/-- The scan accepts what holds no bare comma outside its quotes. -/
theorem scan_eq_topComma (q : Quote) (depth : Nat) (s : List Char) :
    scan q depth s = !topComma depth (unquoted q s) := by
  fun_induction scan q depth s with
  | case1 => simp [unquoted, topComma]
  | case2 q depth hq rest ih => rw [unquoted_doubled hq, ih]
  | case3 q depth hq d rest hd ih => rw [unquoted_close hq hd, ih]
  | case4 q depth hq => simp [unquoted, topComma, hq]
  | case5 q depth c rest hq hc ih => rw [unquoted_quoted hq hc, ih]
  | case6 q depth rest hq ih => 
    obtain rfl := not_not.mp hq
    rw [unquoted_str, ih]
  | case7 q depth rest hq _ ih =>
    obtain rfl := not_not.mp hq
    rw [unquoted_tick, ih]
  | case8 q depth rest hq _ _ ih =>
    obtain rfl := not_not.mp hq
    rw [unquoted_code (by decide) (by decide), topComma, if_pos rfl, ih]
  | case9 q depth rest hq _ _ _ ih =>
    obtain rfl := not_not.mp hq
    rw [unquoted_code (by decide) (by decide), topComma, if_neg (by decide), if_pos rfl, ih]
  | case10 q depth c rest hq hstr htick hopen hclose hcomma =>
    obtain rfl := not_not.mp hq
    rw [unquoted_code hstr htick, topComma, if_neg hopen, if_neg hclose, if_pos hcomma]
    rfl
  | case11 q depth c rest hq hstr htick hopen hclose hcomma ih =>
    obtain rfl := not_not.mp hq
    rw [unquoted_code hstr htick, topComma, if_neg hopen, if_neg hclose, if_neg hcomma, ih]

def Quote.region : Quote → Region
  | .none => .code
  | .str => .single
  | .tick => .tick

/-- On a legible text the server reads as code what the scan reads outside its quotes, up to a
comment that takes the rest of the line. -/
theorem codeChars_unquoted (executes : List Char → Bool) {q : Quote} {s : List Char}
    (h : legible q s = true) : codeChars executes false q.region s <+: unquoted q s := by
  fun_induction legible q s with
  | case1 q => simp [codeChars]
  | case2 rest ih =>
    have hcode : codeChars executes false .code ('\x27' :: rest) =
        codeChars executes false .single rest := by
      rw [codeChars.eq_def]
      rfl
    rw [unquoted_str]
    exact hcode ▸ ih h
  | case3 => cases h
  | case4 rest _ _ ih =>
    have hcode : codeChars executes false .code ('\x60' :: rest) =
        codeChars executes false .tick rest := by
      rw [codeChars.eq_def]
      rfl
    rw [unquoted_tick]
    exact hcode ▸ ih h
  | case5 rest =>
    have hcode : codeChars executes false .code ('#' :: rest) = [] := by
      rw [codeChars.eq_def]
      rfl
    exact hcode ▸ ⟨_, rfl⟩
  | case6 c hstr hdouble htick hhash =>
    rw [unquoted_code hstr htick]
    simp [codeChars, Quote.region, hstr, hdouble, htick, hhash]
  | case7 c hstr hdouble htick hhash d rest hdashes =>
    have hcode : codeChars executes false .code (c :: d :: rest) = [] := by
      simp only [codeChars, if_neg hstr, if_neg hdouble, if_neg htick, if_neg hhash, if_pos hdashes]
    exact hcode ▸ ⟨_, rfl⟩
  | case8 => cases h
  | case9 c hstr hdouble htick hhash d rest hdashes hblock ih =>
    have hcode : codeChars executes false .code (c :: d :: rest) =
        c :: codeChars executes false .code (d :: rest) := by
      rw [codeChars]
      simp only [if_neg hstr, if_neg hdouble, if_neg htick, if_neg hhash, if_neg hdashes,
        if_neg hblock, Bool.false_eq_true, false_and, if_false]
    rw [unquoted_code hstr htick]
    exact hcode ▸ List.cons_prefix_cons.mpr ⟨rfl, ih h⟩
  | case10 c => simp [codeChars, Quote.region]
  | case11 d rest ih =>
    obtain ⟨hd, hrest⟩ := of_decide_eq_true h
    have hcode : codeChars executes false .single ('\x5c' :: d :: rest) =
        codeChars executes false .single rest := by
      rw [codeChars]
      rfl
    rw [unquoted_quoted (by decide) (by decide), unquoted_quoted (by decide) hd]
    exact hcode ▸ ih hrest
  | case12 rest _ ih =>
    have hcode : codeChars executes false .single ('\x27' :: '\x27' :: rest) =
        codeChars executes false .single rest := by
      rw [codeChars]
      rfl
    exact hcode ▸ unquoted_doubled (q := .str) (by decide) ▸ ih h
  | case13 d rest hd _ ih =>
    have hcode : codeChars executes false .single ('\x27' :: d :: rest) =
        codeChars executes false .code (d :: rest) := by
      rw [codeChars]
      simp [hd]
    exact hcode ▸ unquoted_close (q := .str) (by decide) hd ▸ ih h
  | case14 c d rest hslash hquote ih =>
    have hcode : codeChars executes false .single (c :: d :: rest) =
        codeChars executes false .single (d :: rest) := by
      rw [codeChars]
      simp [hslash, hquote]
    rw [unquoted_quoted (by decide) hquote]
    exact hcode ▸ ih h
  | case15 c => simp [codeChars, Quote.region]
  | case16 rest ih =>
    have hcode : codeChars executes false .tick ('\x60' :: '\x60' :: rest) =
        codeChars executes false .tick rest := by
      rw [codeChars]
      rfl
    exact hcode ▸ unquoted_doubled (q := .tick) (by decide) ▸ ih h
  | case17 d rest hd ih =>
    have hcode : codeChars executes false .tick ('\x60' :: d :: rest) =
        codeChars executes false .code (d :: rest) := by
      rw [codeChars]
      simp [hd]
    exact hcode ▸ unquoted_close (q := .tick) (by decide) hd ▸ ih h
  | case18 c d rest htick ih =>
    have hcode : codeChars executes false .tick (c :: d :: rest) =
        codeChars executes false .tick (d :: rest) := by
      rw [codeChars]
      simp [htick]
    rw [unquoted_quoted (by decide) htick]
    exact hcode ▸ ih h

theorem topComma_anti {depth : Nat} {s t : List Char} (hst : s <+: t)
    (h : topComma depth t = false) : topComma depth s = false := by
  induction s generalizing depth t with
  | nil => rfl
  | cons c s ih =>
    obtain ⟨rest, rfl⟩ := hst
    rw [List.cons_append] at h
    unfold topComma at h ⊢
    split_ifs at h ⊢
    · exact ih (List.prefix_append s rest) h
    · exact ih (List.prefix_append s rest) h
    · exact ih (List.prefix_append s rest) h

/-- Where no closing parenthesis is left over, the two depths are one. -/
theorem levelComma_eq_topComma {depth : Nat} {s : List Char} (h : neverBelow depth s = true) :
    levelComma depth s = topComma depth s := by
  induction s generalizing depth with
  | nil => rfl
  | cons c s ih =>
    unfold neverBelow at h
    unfold levelComma topComma
    split_ifs at h ⊢ with hopen hclose hlevel htop htop
    · exact_mod_cast ih h
    · obtain ⟨hdepth, hrest⟩ := of_decide_eq_true h
      rw [← ih hrest]
      congr 1
      omega
    · rfl
    · exact absurd ⟨hlevel.1, by exact_mod_cast hlevel.2⟩ htop
    · exact absurd ⟨htop.1, by exact_mod_cast htop.2⟩ hlevel
    · exact ih h

theorem neverBelow_anti {depth : Nat} {s t : List Char} (hst : s <+: t)
    (h : neverBelow depth t = true) : neverBelow depth s = true := by
  induction s generalizing depth t with
  | nil => rfl
  | cons c s ih =>
    obtain ⟨rest, rfl⟩ := hst
    rw [List.cons_append] at h
    unfold neverBelow at h ⊢
    split_ifs at h ⊢
    · exact ih (List.prefix_append s rest) h
    · obtain ⟨hdepth, hrest⟩ := of_decide_eq_true h
      exact decide_eq_true ⟨hdepth, ih (List.prefix_append s rest) hrest⟩
    · exact ih (List.prefix_append s rest) h

/-- What is returned is the column's line, without a semicolon, and the scan accepts it. -/
theorem extractColumnDefinition_eq_some {ddl columnName : String} {definition : List Char}
    (h : extractColumnDefinition ddl columnName = some definition) :
    columnLine ddl columnName = some definition ∧ ';' ∉ definition ∧
      scan .none 0 definition = true := by
  rw [extractColumnDefinition, Option.filter_eq_some_iff] at h
  obtain ⟨hline, hchecks⟩ := h
  exact ⟨hline, of_decide_eq_true hchecks⟩

theorem mem_of_mem_codeChars (executes : List Char → Bool) {inside : Bool} {region : Region}
    {s : List Char} {c : Char} (h : c ∈ codeChars executes inside region s) : c ∈ s := by
  fun_induction codeChars executes inside region s
  all_goals simp_all
  all_goals grind

/-- Where the column's line is legible, the server reads in the returned definition no semicolon and
no comma with every parenthesis closed; and none at depth zero where no parenthesis is closed that
was not open. -/
theorem definition_is_one_action (executes : List Char → Bool) {ddl columnName : String}
    {definition : List Char} (h : extractColumnDefinition ddl columnName = some definition)
    (hlegible : ∀ line, columnLine ddl columnName = some line → legible .none line = true) :
    ';' ∉ codeChars executes false .code definition ∧
      topComma 0 (codeChars executes false .code definition) = false ∧
      (neverBelow 0 (unquoted .none definition) = true →
        levelComma 0 (codeChars executes false .code definition) = false) := by
  obtain ⟨hline, hsemicolon, hscan⟩ := extractColumnDefinition_eq_some h
  have hstep := codeChars_unquoted executes (hlegible definition hline)
  have htop : topComma 0 (codeChars executes false .code definition) = false := by
    rw [scan_eq_topComma, Bool.not_eq_true'] at hscan
    exact topComma_anti hstep hscan
  refine ⟨fun hmem => hsemicolon (mem_of_mem_codeChars executes hmem), htop, fun hbelow => ?_⟩
  have hlevel := levelComma_eq_topComma (neverBelow_anti hstep hbelow)
  exact hlevel.trans htop

/-- A table whose column `evil` is defined by the given text. -/
def tableWith (definition : String) : String :=
  "CREATE TABLE `t` (\n  `evil` " ++ definition ++ ",\n  PRIMARY KEY (`id`)\n) ENGINE=InnoDB"

def amountDefinition : String := "decimal(30,8) NOT NULL DEFAULT '0' COMMENT 'it''s , (one'"

theorem amount_definition_is_one_action :
    (extractColumnDefinition (tableWith amountDefinition) "evil").isSome ∧
      ∀ definition, extractColumnDefinition (tableWith amountDefinition) "evil" = some definition →
        topComma 0 (codeChars (fun _ => false) false .code definition) = false := by
  refine ⟨by decide +kernel, fun definition h => ?_⟩
  have hlegible : ∀ line, columnLine (tableWith amountDefinition) "evil" = some line →
      legible .none line = true := by
    have hall : (columnLine (tableWith amountDefinition) "evil").all (legible .none) = true := by
      decide +kernel
    exact (Option.all_eq_true _ _).mp hall
  exact (definition_is_one_action (fun _ => false) h hlegible).2.1

/-- The server reads a comma at depth zero in the returned definition. -/
def smuggles (definition : String) : Bool :=
  (extractColumnDefinition (tableWith definition) "evil").any fun line =>
    levelComma 0 (codeChars (fun _ => false) false .code line)

/-- A parenthesis in double quotes or in a comment, a quote after a backslash, and a closing
parenthesis too many each let a second action through. In the first three no parenthesis is open at
the comma either. -/
theorem second_action_passes :
    smuggles "int COMMENT \"(\" , DROP COLUMN `victim`" = true ∧
      smuggles "int /* ( */ , DROP COLUMN `victim`" = true ∧
      smuggles "int COMMENT '\\'' , DROP COLUMN `victim`" = true ∧
      smuggles "int ) ( , DROP COLUMN `victim`" = true ∧
      (extractColumnDefinition (tableWith "int COMMENT \"(\" , DROP COLUMN `victim`") "evil").any
        (fun line => topComma 0 (codeChars (fun _ => false) false .code line)) = true := by
  decide +kernel

end XChainSync.Schema
