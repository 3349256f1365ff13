import Mathlib
import XChainSync.Commitment.Amounts
import XChainSync.Commitment.ContractState

/-!
# The balances sub-tree

The spendable leaves of src/state_commitment/index.js over the ledger tables, and the locked leaves
of src/escrow_leaf_subtree.js over their journal. A row carries, with an id of `index_addresses` or
`index_tickers`, the text the id has there.
-/

namespace XChainSync.Commitment
open HashTree Merkle
open Client (JsVal)
set_option autoImplicit false

/-! ### Tables -/

structure IndexRef where
  id : Nat
  text : String
  deriving DecidableEq, Repr

/-- A row of `credits`, `debits` or `escrows`, its amount as a decimal of scale 18. -/
structure LedgerRow where
  address : Option IndexRef
  tick : Option IndexRef
  amount : Int
  block_index : Int
  deriving DecidableEq, Repr

structure EscrowLeafRow where
  id : Nat
  address : IndexRef
  tick : IndexRef
  locked_amount : Option String
  block_index : Int
  deriving DecidableEq, Repr

structure Ledger where
  credits : List LedgerRow
  debits : List LedgerRow
  escrow_leaf_journal : List EscrowLeafRow
  deriving DecidableEq, Repr

inductive LeafDomain where
  | balance
  | escrow
  deriving DecidableEq, Repr

def LeafDomain.tag : LeafDomain → String
  | balance => "XCHAIN_BAL"
  | escrow => "XCHAIN_ESC"

/-- A key of the balances tree. -/
structure BalanceKey where
  domain : LeafDomain
  address : String
  tick : String
  deriving DecidableEq, Repr

/-- `balanceKey` and `escrowKey`. -/
def balanceKey (cfg : CommitmentConfig) (k : BalanceKey) : Except String Buf :=
  joinFields [.str k.domain.tag, .str cfg.chain, .str cfg.network, .str k.address, .str k.tick]

/-! ### Net balances -/

/-- The id pair of a row whose ids both have a text. -/
def LedgerRow.refs (r : LedgerRow) : Option (IndexRef × IndexRef) :=
  r.address.bind fun a => r.tick.map fun t => (a, t)

def LedgerRow.isOf (address tick : String) (r : LedgerRow) : Bool :=
  r.refs.any fun p => p.1.text = address ∧ p.2.text = tick

def LedgerRow.inGroup (g : IndexRef × IndexRef) (r : LedgerRow) : Bool :=
  r.refs.any fun p => p.1.id = g.1.id ∧ p.2.id = g.2.id

def EscrowLeafRow.isOf (address tick : String) (r : EscrowLeafRow) : Bool :=
  r.address.text = address ∧ r.tick.text = tick

def EscrowLeafRow.inGroup (address tick : IndexRef) (r : EscrowLeafRow) : Bool :=
  r.address.id = address.id ∧ r.tick.id = tick.id

def sumOf (rows : List LedgerRow) (p : LedgerRow → Bool) : Int :=
  ((rows.filter p).map LedgerRow.amount).sum

namespace Ledger
variable (l : Ledger)

def netBalance (address tick : String) : Int :=
  sumOf l.credits (LedgerRow.isOf address tick) - sumOf l.debits (LedgerRow.isOf address tick)

/-- `getNetBalance`. -/
def getNetBalance (address tick : String) : String := minimalDecimal (l.netBalance address tick)

/-- `GROUP BY address_id, tick_id` over the joined rows of both tables. -/
def groups : List (IndexRef × IndexRef) := ((l.credits ++ l.debits).filterMap LedgerRow.refs).dedup

def groupNet (g : IndexRef × IndexRef) : Int :=
  sumOf l.credits (LedgerRow.inGroup g) - sumOf l.debits (LedgerRow.inGroup g)

/-- `HAVING SUM(s.amt) <> 0`. -/
def netGroups : List (IndexRef × IndexRef) := l.groups.filter fun g => l.groupNet g ≠ 0

/-! ### Locked amounts -/

def latestLockedRow (address tick : String) : Option EscrowLeafRow :=
  newest EscrowLeafRow.id l.escrow_leaf_journal (EscrowLeafRow.isOf address tick)

def latestLockedAmount (address tick : String) : Option String :=
  (l.latestLockedRow address tick).bind EscrowLeafRow.locked_amount

def touchedEscrowKeys (blockIndex : Int) : List (String × String) :=
  ((l.escrow_leaf_journal.filter fun r => r.block_index = blockIndex).map fun r =>
    (r.address.text, r.tick.text)).dedup

/-- The rows whose id is the greatest of their id pair. -/
def lastEscrowRows : List EscrowLeafRow :=
  l.escrow_leaf_journal.filter fun r =>
    (newest EscrowLeafRow.id l.escrow_leaf_journal (EscrowLeafRow.inGroup r.address r.tick)).map
      EscrowLeafRow.id = some r.id

end Ledger

def escrowLeaf (lockedAmount : Option String) : Except String (Option Buf) :=
  match lockedAmount with
  | none => .ok none
  | some amount => if amount = "" then .ok none else leafOrNull amount

/-- The distinct pairs of the rows a payload adds to the three tables. -/
def collectSmtTouchedKeys (credits debits escrows : List LedgerRow) : List (String × String) :=
  ((((credits ++ debits ++ escrows).filterMap LedgerRow.refs).dedup).map fun p =>
    (p.1.text, p.2.text)).filter fun k => k.2 ≠ ""

/-! ### Builds -/

section Build
variable {Digest : Type} [DecidableEq Digest] (h : SmtHashes Digest) (cfg : CommitmentConfig)

/-- The leaf writes of some keys. -/
def leafWrites {α : Type} (key : α → BalanceKey) (leaf : α → Except String (Option Buf))
    (xs : List α) : Except String (List (BalanceKey × Option Buf)) :=
  xs.mapM fun x => (leaf x).map fun v => (key x, v)

def spendableWrites (l : Ledger) (touchedKeys : List (String × String)) :
    Except String (List (BalanceKey × Option Buf)) :=
  leafWrites (fun k => ⟨.balance, k.1, k.2⟩) (fun k => leafOrNull (l.getNetBalance k.1 k.2))
    (touchedKeys.filter fun k => k.2 ≠ "")

def netWrites (l : Ledger) : Except String (List (BalanceKey × Option Buf)) :=
  leafWrites (fun g => ⟨.balance, g.1.text, g.2.text⟩) (fun g => leafOrNull (castChar (l.groupNet g)))
    l.netGroups

def liveEscrowLeaves (l : Ledger) : Except String (List (BalanceKey × Option Buf)) :=
  leafWrites (fun r => ⟨.escrow, r.address.text, r.tick.text⟩) (fun r => escrowLeaf r.locked_amount)
    l.lastEscrowRows

def escrowWrites (l : Ledger) (blockIndex : Int) :
    Except String (List (BalanceKey × Option Buf)) :=
  leafWrites (fun k => ⟨.escrow, k.1, k.2⟩)
    (fun k => escrowLeaf (l.latestLockedAmount k.1 k.2)) (l.touchedEscrowKeys blockIndex)

def lockedWrites (l : Ledger) (escrowLeaves : Bool) :
    Except String (List (BalanceKey × Option Buf)) :=
  if escrowLeaves then liveEscrowLeaves l else .ok []

/-- No leaf is written where there is none. -/
def fullWrites (l : Ledger) (escrowLeaves : Bool) : Except String (List (BalanceKey × Option Buf)) := do
  let bals ← netWrites l
  let locked ← lockedWrites l escrowLeaves
  return (bals ++ locked).filter fun w => w.2.isSome

/-- `escrowLeaves` tells that the locked leaves are in the tree: they are armed, or forced. -/
def buildFullBalancesRoot (nodes : NodeStore Digest) (l : Ledger) (escrowLeaves : Bool) :
    Except String (Build Digest) := do
  let writes ← fullWrites l escrowLeaves
  let ws ← keyWrites (balanceKey cfg) writes
  return writeLeaves h ⟨h.emptyRoot, nodes, []⟩ ws

def applyEscrowLeaves (b : Build Digest) (l : Ledger) (blockIndex : Int) :
    Except String (Build Digest) := do
  let writes ← escrowWrites l blockIndex
  let ws ← keyWrites (balanceKey cfg) writes
  return writeLeaves h b ws

/-- With the spendable updates where the root is threaded at a shadow height. -/
def computeFollowerBalancesRoot (nodes : NodeStore Digest) (l : Ledger) (priorRoot : Option Digest)
    (blockIndex : Int) (touchedKeys : List (String × String)) (isActivationBlock : Bool) :
    Except String (Build Digest × Option (List (Buf × Option Buf))) :=
  let escShadow := cfg.isEscrowLockedLeafShadowActive blockIndex
  let armingBlock := cfg.isEscrowLockedLeafActive blockIndex &&
    !cfg.isEscrowLockedLeafActive (blockIndex - 1)
  let prior := if isActivationBlock || armingBlock then none else priorRoot
  match prior with
  | none => do
    let b ← buildFullBalancesRoot h cfg nodes l (cfg.isEscrowLockedLeafActive blockIndex)
    return (b, none)
  | some root => do
    let writes ← spendableWrites l touchedKeys
    let ws ← keyWrites (balanceKey cfg) writes
    let b := writeLeaves h ⟨root, nodes, []⟩ ws
    let b ← (if cfg.isEscrowLockedLeafActive blockIndex then applyEscrowLeaves h cfg b l blockIndex
      else .ok b)
    return (b, if escShadow then some ws else none)

def resolveShadowBalancesRoot (nodes : NodeStore Digest) (l : Ledger) (priorRoot : Option Digest)
    (blockIndex : Int) (balanceUpdates : Option (List (Buf × Option Buf))) :
    Except String (Build Digest) :=
  match priorRoot, balanceUpdates with
  | some root, some updates =>
    applyEscrowLeaves h cfg (writeLeaves h ⟨root, nodes, []⟩ updates) l blockIndex
  | _, _ => buildFullBalancesRoot h cfg nodes l true

end Build

/-! ### What a root commits -/

namespace Ledger
variable (l : Ledger)

def upTo (height : Int) : Ledger where
  credits := l.credits.filter fun r => r.block_index ≤ height
  debits := l.debits.filter fun r => r.block_index ≤ height
  escrow_leaf_journal := l.escrow_leaf_journal.filter fun r => r.block_index ≤ height

/-- The leaf input of every key, or what keeps it from having one. -/
def leafAt (escrowLeaves : Bool) (k : BalanceKey) : Except String (Option Buf) :=
  match k.domain with
  | .balance => leafOrNull (castChar (l.netBalance k.address k.tick))
  | .escrow =>
    if escrowLeaves then escrowLeaf (l.latestLockedAmount k.address k.tick) else .ok none

def view (escrowLeaves : Bool) (k : BalanceKey) : Option Buf :=
  (l.leafAt escrowLeaves k).toOption.join

def addressRefs : List IndexRef :=
  ((l.credits ++ l.debits).filterMap LedgerRow.refs).map Prod.fst ++
    l.escrow_leaf_journal.map EscrowLeafRow.address

def tickRefs : List IndexRef :=
  ((l.credits ++ l.debits).filterMap LedgerRow.refs).map Prod.snd ++
    l.escrow_leaf_journal.map EscrowLeafRow.tick

/-- Each id has a text of its own. -/
structure Unique : Prop where
  addresses : ∀ a ∈ l.addressRefs, ∀ a' ∈ l.addressRefs, a.id = a'.id ↔ a.text = a'.text
  ticks : ∀ t ∈ l.tickRefs, ∀ t' ∈ l.tickRefs, t.id = t'.id ↔ t.text = t'.text
  ids : (l.escrow_leaf_journal.map EscrowLeafRow.id).Nodup

end Ledger

theorem balanceKey_inj {cfg : CommitmentConfig} (k k' : BalanceKey) (bytes : Buf)
    (hk : balanceKey cfg k = .ok bytes) (hk' : balanceKey cfg k' = .ok bytes) : k = k' := by
  obtain ⟨hbytes, hfree⟩ := joinFields_eq_ok hk
  obtain ⟨hbytes', hfree'⟩ := joinFields_eq_ok hk'
  have htexts := encode_inj (by simp) (by simp) hfree hfree' (hbytes.symm.trans hbytes')
  simp only [List.map_cons, List.map_nil, List.cons.injEq, JsVal.text, and_true, true_and] at htexts
  obtain ⟨htag, haddress, htick⟩ := htexts
  have hdomain : ∀ d d' : LeafDomain, d.tag = d'.tag → d = d' := by
    intro d d' hd
    cases d <;> cases d' <;> first | rfl | exact absurd hd (by decide)
  cases k
  cases k'
  simp only at htag haddress htick
  rw [hdomain _ _ htag, haddress, htick]

section Rows
variable {l : Ledger}

theorem refs_mem {r : LedgerRow} (hr : r ∈ l.credits ++ l.debits) {p : IndexRef × IndexRef}
    (hp : r.refs = some p) : p.1 ∈ l.addressRefs ∧ p.2 ∈ l.tickRefs := by
  have hmem : p ∈ (l.credits ++ l.debits).filterMap LedgerRow.refs :=
    List.mem_filterMap.mpr ⟨r, hr, hp⟩
  exact ⟨List.mem_append.mpr (Or.inl (List.mem_map_of_mem hmem)),
    List.mem_append.mpr (Or.inl (List.mem_map_of_mem hmem))⟩

theorem journal_mem {r : EscrowLeafRow} (hr : r ∈ l.escrow_leaf_journal) :
    r.address ∈ l.addressRefs ∧ r.tick ∈ l.tickRefs :=
  ⟨List.mem_append.mpr (Or.inr (List.mem_map_of_mem hr)),
    List.mem_append.mpr (Or.inr (List.mem_map_of_mem hr))⟩

theorem refs_of_isOf {r : LedgerRow} {address tick : String} (h : r.isOf address tick = true) :
    ∃ p, r.refs = some p ∧ p.1.text = address ∧ p.2.text = tick := by
  rw [LedgerRow.isOf] at h
  cases hp : r.refs with
  | none =>
    rw [hp] at h
    cases h
  | some p =>
    rw [hp, Option.any_some] at h
    exact ⟨p, rfl, of_decide_eq_true h⟩

theorem sumOf_congr {rows : List LedgerRow} {p q : LedgerRow → Bool}
    (h : ∀ r ∈ rows, p r = q r) : sumOf rows p = sumOf rows q := by
  rw [sumOf, List.filter_congr h, sumOf]

theorem sumOf_filter {rows : List LedgerRow} {p q : LedgerRow → Bool}
    (h : ∀ r ∈ rows, p r = true → q r = true) : sumOf (rows.filter q) p = sumOf rows p := by
  rw [sumOf, List.filter_filter, sumOf]
  congr 2
  apply List.filter_congr
  intro r hr
  rw [Bool.and_eq_left_iff_imp]
  exact h r hr

theorem exists_of_sumOf_ne {rows : List LedgerRow} {p : LedgerRow → Bool} (h : sumOf rows p ≠ 0) :
    ∃ r ∈ rows, p r = true := by
  by_contra hnone
  apply h
  have hnil : rows.filter p = [] := by
    rw [List.filter_eq_nil_iff]
    exact fun r hr hp => hnone ⟨r, hr, hp⟩
  rw [sumOf, hnil]
  rfl

theorem groupNet_eq_netBalance (hu : l.Unique) {g : IndexRef × IndexRef} (hg : g ∈ l.groups) :
    l.groupNet g = l.netBalance g.1.text g.2.text := by
  obtain ⟨r, hr, hrefs⟩ := List.mem_filterMap.mp (List.mem_dedup.mp hg)
  obtain ⟨haddress, htick⟩ := refs_mem hr hrefs
  have hsame : ∀ q ∈ l.credits ++ l.debits, LedgerRow.inGroup g q = q.isOf g.1.text g.2.text := by
    intro q hq
    rw [LedgerRow.inGroup, LedgerRow.isOf]
    cases hqrefs : q.refs with
    | none => rfl
    | some p =>
      obtain ⟨haddress', htick'⟩ := refs_mem hq hqrefs
      rw [Option.any_some, Option.any_some, decide_eq_decide,
        hu.addresses _ haddress' _ haddress, hu.ticks _ htick' _ htick]
  rw [Ledger.groupNet, Ledger.netBalance,
    sumOf_congr fun q hq => hsame q (List.mem_append.mpr (Or.inl hq)),
    sumOf_congr fun q hq => hsame q (List.mem_append.mpr (Or.inr hq))]

/-- A pair of texts whose net is not zero is that of a group. -/
theorem exists_netGroup (hu : l.Unique) {address tick : String} (h : l.netBalance address tick ≠ 0) :
    ∃ g ∈ l.netGroups, g.1.text = address ∧ g.2.text = tick := by
  have hrow : ∃ r ∈ l.credits ++ l.debits, r.isOf address tick = true := by
    by_cases hcredits : sumOf l.credits (LedgerRow.isOf address tick) = 0
    · have hdebits : sumOf l.debits (LedgerRow.isOf address tick) ≠ 0 := by
        intro hzero
        apply h
        rw [Ledger.netBalance, hcredits, hzero]
        rfl
      obtain ⟨r, hr, hof⟩ := exists_of_sumOf_ne hdebits
      exact ⟨r, List.mem_append.mpr (Or.inr hr), hof⟩
    · obtain ⟨r, hr, hof⟩ := exists_of_sumOf_ne hcredits
      exact ⟨r, List.mem_append.mpr (Or.inl hr), hof⟩
  obtain ⟨r, hr, hof⟩ := hrow
  obtain ⟨g, hg, haddress, htick⟩ := refs_of_isOf hof
  have hmem : g ∈ l.groups := List.mem_dedup.mpr (List.mem_filterMap.mpr ⟨r, hr, hg⟩)
  refine ⟨g, List.mem_filter.mpr ⟨hmem, decide_eq_true ?_⟩, haddress, htick⟩
  rw [groupNet_eq_netBalance hu hmem, haddress, htick]
  exact h

theorem latestLockedRow_of_group (hu : l.Unique) {r : EscrowLeafRow}
    (hr : r ∈ l.escrow_leaf_journal) :
    newest EscrowLeafRow.id l.escrow_leaf_journal (EscrowLeafRow.inGroup r.address r.tick) =
      l.latestLockedRow r.address.text r.tick.text := by
  obtain ⟨haddress, htick⟩ := journal_mem hr
  rw [Ledger.latestLockedRow, newest, newest]
  congr 1
  apply List.filter_congr
  intro q hq
  obtain ⟨haddress', htick'⟩ := journal_mem hq
  rw [EscrowLeafRow.inGroup, EscrowLeafRow.isOf, decide_eq_decide,
    hu.addresses _ haddress' _ haddress, hu.ticks _ htick' _ htick]

end Rows

/-! ### Writes -/

section Writes
variable {α : Type} {key : α → BalanceKey} {leaf : α → Except String (Option Buf)}

theorem leafWrites_ok {xs : List α} {writes : List (BalanceKey × Option Buf)}
    (h : leafWrites key leaf xs = .ok writes) :
    (∀ w ∈ writes, ∃ x ∈ xs, key x = w.1 ∧ leaf x = .ok w.2) ∧
      ∀ x ∈ xs, ∃ v, leaf x = .ok v ∧ (key x, v) ∈ writes := by
  induction xs generalizing writes with
  | nil =>
    rw [leafWrites, List.mapM_nil] at h
    obtain rfl := Except.ok.inj h
    exact ⟨fun w hw => absurd hw List.not_mem_nil, fun x hx => absurd hx List.not_mem_nil⟩
  | cons x xs ih =>
    rw [leafWrites, List.mapM_cons] at h
    cases hv : leaf x with
    | error e =>
      rw [hv] at h
      cases h
    | ok v =>
      rw [hv] at h
      cases hrest : xs.mapM fun x => (leaf x).map fun v => (key x, v) with
      | error e =>
        rw [hrest] at h
        cases h
      | ok rest =>
        rw [hrest] at h
        obtain rfl := Except.ok.inj h
        obtain ⟨hval, hmem⟩ := ih hrest
        constructor
        · intro w hw
          rcases List.mem_cons.mp hw with rfl | hw
          · exact ⟨x, List.mem_cons_self, rfl, hv⟩
          · obtain ⟨y, hy, hw⟩ := hval w hw
            exact ⟨y, List.mem_cons_of_mem x hy, hw⟩
        · intro y hy
          rcases List.mem_cons.mp hy with rfl | hy
          · exact ⟨v, hv, List.mem_cons_self⟩
          · obtain ⟨v', hv', hmem'⟩ := hmem y hy
            exact ⟨v', hv', List.mem_cons_of_mem _ hmem'⟩

theorem leafWrites_isOk {xs : List α} (h : ∀ x ∈ xs, ∃ v, leaf x = .ok v) :
    ∃ writes, leafWrites key leaf xs = .ok writes := by
  induction xs with
  | nil => exact ⟨[], rfl⟩
  | cons x xs ih =>
    obtain ⟨v, hv⟩ := h x List.mem_cons_self
    obtain ⟨writes, hwrites⟩ := ih fun y hy => h y (List.mem_cons_of_mem x hy)
    refine ⟨(key x, v) :: writes, ?_⟩
    rw [leafWrites] at hwrites ⊢
    rw [List.mapM_cons, hv, hwrites]
    rfl

end Writes

theorem leafOrNull_of_minimal {net : Int} {v : Option Buf}
    (h : leafOrNull (minimalDecimal net) = .ok v) : leafOrNull (castChar net) = .ok v := by
  have hsame := leafOrNull_minimalDecimal net
  rw [h] at hsame
  cases hcast : leafOrNull (castChar net) with
  | error e =>
    rw [hcast] at hsame
    cases hsame
  | ok v' =>
    rw [hcast] at hsame
    rw [Option.some.inj hsame]

/-- Some writes give the leaves of a ledger: those of their keys, and, where the others are, `rest`
has those. -/
structure WritesOf (l : Ledger) (escrowLeaves : Bool) (writes : List (BalanceKey × Option Buf))
    (rest : BalanceKey → Except String (Option Buf)) : Prop where
  val : ∀ w ∈ writes, l.leafAt escrowLeaves w.1 = .ok w.2
  rest : ∀ k, k ∉ writes.map Prod.fst → rest k = l.leafAt escrowLeaves k

section Full
variable {l : Ledger}

theorem netWrites_val (hu : l.Unique) {writes : List (BalanceKey × Option Buf)}
    (h : netWrites l = .ok writes) (escrowLeaves : Bool) :
    ∀ w ∈ writes, l.leafAt escrowLeaves w.1 = .ok w.2 := by
  intro w hw
  obtain ⟨g, hg, hkey, hleaf⟩ := (leafWrites_ok h).1 w hw
  rw [groupNet_eq_netBalance hu (List.mem_filter.mp hg).1] at hleaf
  rw [← hkey]
  exact hleaf

theorem netWrites_rest (hu : l.Unique) {writes : List (BalanceKey × Option Buf)}
    (h : netWrites l = .ok writes) (escrowLeaves : Bool) {address tick : String}
    (hk : ⟨.balance, address, tick⟩ ∉ writes.map Prod.fst) :
    l.leafAt escrowLeaves ⟨.balance, address, tick⟩ = .ok none := by
  by_cases hnet : l.netBalance address tick = 0
  · rw [Ledger.leafAt, hnet, leafOrNull_zero]
  · exfalso
    apply hk
    obtain ⟨g, hg, haddress, htick⟩ := exists_netGroup hu hnet
    obtain ⟨v, -, hw⟩ := (leafWrites_ok h).2 g hg
    rw [haddress, htick] at hw
    exact List.mem_map_of_mem hw

theorem liveEscrowLeaves_val (hu : l.Unique) {writes : List (BalanceKey × Option Buf)}
    (h : liveEscrowLeaves l = .ok writes) :
    ∀ w ∈ writes, l.leafAt true w.1 = .ok w.2 := by
  intro w hw
  obtain ⟨r, hr, hkey, hleaf⟩ := (leafWrites_ok h).1 w hw
  obtain ⟨hmem, hlast⟩ := List.mem_filter.mp hr
  rw [latestLockedRow_of_group hu hmem, decide_eq_true_eq] at hlast
  obtain ⟨q, hq, hid⟩ := Option.map_eq_some_iff.mp hlast
  have hsame : q = r := List.inj_on_of_nodup_map hu.ids (newest_mem hq).1 hmem hid
  rw [← hkey, Ledger.leafAt, if_pos rfl, Ledger.latestLockedAmount, hq, hsame]
  exact hleaf

theorem liveEscrowLeaves_rest (hu : l.Unique) {writes : List (BalanceKey × Option Buf)}
    (h : liveEscrowLeaves l = .ok writes) {address tick : String}
    (hk : ⟨.escrow, address, tick⟩ ∉ writes.map Prod.fst) :
    l.leafAt true ⟨.escrow, address, tick⟩ = .ok none := by
  rw [Ledger.leafAt, if_pos rfl, Ledger.latestLockedAmount]
  cases hq : l.latestLockedRow address tick with
  | none => rfl
  | some q =>
    exfalso
    apply hk
    obtain ⟨hmem, hof⟩ := newest_mem hq
    obtain ⟨haddress, htick⟩ := of_decide_eq_true hof
    have hlast : q ∈ l.lastEscrowRows := by
      refine List.mem_filter.mpr ⟨hmem, decide_eq_true ?_⟩
      rw [latestLockedRow_of_group hu hmem, haddress, htick, hq]
      rfl
    obtain ⟨v, -, hw⟩ := (leafWrites_ok h).2 q hlast
    rw [haddress, htick] at hw
    exact List.mem_map_of_mem hw

/-- Leaving out the writes of no leaf leaves out none of the others. -/
theorem WritesOf.filter {escrowLeaves : Bool} {writes : List (BalanceKey × Option Buf)}
    (h : WritesOf l escrowLeaves writes fun _ => .ok none) :
    WritesOf l escrowLeaves (writes.filter fun w => w.2.isSome) fun _ => .ok none where
  val w hw := h.val w (List.mem_filter.mp hw).1
  rest k hk := by
    by_cases hmem : k ∈ writes.map Prod.fst
    · obtain ⟨w, hw, rfl⟩ := List.mem_map.mp hmem
      rw [h.val w hw]
      cases hv : w.2 with
      | none => rfl
      | some v =>
        exfalso
        apply hk
        exact List.mem_map_of_mem (List.mem_filter.mpr ⟨hw, by rw [hv]; rfl⟩)
    · exact h.rest k hmem

theorem fullWrites_writesOf (hu : l.Unique) {escrowLeaves : Bool}
    {writes : List (BalanceKey × Option Buf)} (h : fullWrites l escrowLeaves = .ok writes) :
    WritesOf l escrowLeaves writes fun _ => .ok none := by
  rw [fullWrites] at h
  obtain ⟨bals, hbals, h⟩ := of_bind_eq_ok h
  obtain ⟨locked, hlocked, h⟩ := of_bind_eq_ok h
  obtain rfl := Except.ok.inj h
  apply WritesOf.filter
  constructor
  · intro w hw
    rcases List.mem_append.mp hw with hw | hw
    · exact netWrites_val hu hbals escrowLeaves w hw
    · cases escrowLeaves with
      | false =>
        obtain rfl := Except.ok.inj hlocked
        cases hw
      | true => exact liveEscrowLeaves_val hu hlocked w hw
  · intro k hk
    rw [List.map_append, List.mem_append, not_or] at hk
    cases k with
    | mk domain address tick =>
    cases domain with
    | balance => exact (netWrites_rest hu hbals escrowLeaves hk.1).symm
    | escrow =>
      cases escrowLeaves with
      | false => rfl
      | true => exact (liveEscrowLeaves_rest hu hlocked hk.2).symm

/-- A ledger all of whose leaves are there to be read has its writes. -/
theorem fullWrites_isOk (hu : l.Unique) {escrowLeaves : Bool}
    (hread : ∀ k, ∃ v, l.leafAt escrowLeaves k = .ok v) :
    ∃ writes, fullWrites l escrowLeaves = .ok writes := by
  obtain ⟨bals, hbals⟩ : ∃ bals, netWrites l = .ok bals := by
    apply leafWrites_isOk
    intro g hg
    rw [groupNet_eq_netBalance hu (List.mem_filter.mp hg).1]
    exact hread ⟨.balance, g.1.text, g.2.text⟩
  obtain ⟨locked, hlocked⟩ : ∃ locked, lockedWrites l escrowLeaves = .ok locked := by
    cases escrowLeaves with
    | false => exact ⟨[], rfl⟩
    | true =>
      apply leafWrites_isOk
      intro r hr
      obtain ⟨hmem, hlast⟩ := List.mem_filter.mp hr
      rw [latestLockedRow_of_group hu hmem, decide_eq_true_eq] at hlast
      obtain ⟨q, hq, hid⟩ := Option.map_eq_some_iff.mp hlast
      have hsame : q = r := List.inj_on_of_nodup_map hu.ids (newest_mem hq).1 hmem hid
      have hleaf := hread ⟨.escrow, r.address.text, r.tick.text⟩
      rw [Ledger.leafAt, if_pos rfl, Ledger.latestLockedAmount, hq, hsame] at hleaf
      exact hleaf
  refine ⟨(bals ++ locked).filter fun w => w.2.isSome, ?_⟩
  rw [fullWrites, hbals, hlocked]
  rfl

end Full

/-! ### The writes of a block -/

section Block
variable {l : Ledger} {blockIndex : Int}

/-- The rows of the block are the last ones, and those of the ledger tables are among the touched
keys, none of them of the empty tick, which no thread writes. -/
structure Touched (l : Ledger) (blockIndex : Int) (touchedKeys : List (String × String)) : Prop where
  rows : ∀ r ∈ l.credits ++ l.debits, r.block_index ≤ blockIndex
  journal : ∀ r ∈ l.escrow_leaf_journal, r.block_index ≤ blockIndex
  keys : ∀ r ∈ l.credits ++ l.debits, r.block_index = blockIndex → ∀ p, r.refs = some p →
    p.2.text ≠ "" ∧ (p.1.text, p.2.text) ∈ touchedKeys

theorem Touched.netBalance {touchedKeys : List (String × String)}
    (h : Touched l blockIndex touchedKeys) {address tick : String}
    (hk : (address, tick) ∉ touchedKeys.filter fun k => k.2 ≠ "") :
    (l.upTo (blockIndex - 1)).netBalance address tick = l.netBalance address tick := by
  have hbefore : ∀ r ∈ l.credits ++ l.debits, r.isOf address tick = true →
      decide (r.block_index ≤ blockIndex - 1) = true := by
    intro r hr hof
    obtain ⟨p, hp, rfl, rfl⟩ := refs_of_isOf hof
    have hne : r.block_index ≠ blockIndex := by
      intro heq
      apply hk
      obtain ⟨hname, hkey⟩ := h.keys r hr heq p hp
      exact List.mem_filter.mpr ⟨hkey, decide_eq_true hname⟩
    have hle := h.rows r hr
    rw [decide_eq_true_eq]
    omega
  rw [Ledger.netBalance, Ledger.netBalance, Ledger.upTo,
    sumOf_filter fun r hr => hbefore r (List.mem_append.mpr (Or.inl hr)),
    sumOf_filter fun r hr => hbefore r (List.mem_append.mpr (Or.inr hr))]

theorem Touched.latestLockedAmount {touchedKeys : List (String × String)}
    (h : Touched l blockIndex touchedKeys) {address tick : String}
    (hk : (address, tick) ∉ l.touchedEscrowKeys blockIndex) :
    (l.upTo (blockIndex - 1)).latestLockedAmount address tick =
      l.latestLockedAmount address tick := by
  rw [Ledger.latestLockedAmount, Ledger.latestLockedAmount, Ledger.latestLockedRow,
    Ledger.latestLockedRow, newest, newest, Ledger.upTo, List.filter_filter]
  congr 2
  apply List.filter_congr
  intro r hr
  rw [Bool.and_eq_left_iff_imp]
  intro hof
  have hne : r.block_index ≠ blockIndex := by
    intro heq
    apply hk
    rw [Ledger.touchedEscrowKeys, List.mem_dedup]
    refine List.mem_map.mpr ⟨r, List.mem_filter.mpr ⟨hr, decide_eq_true heq⟩, ?_⟩
    obtain ⟨haddress, htick⟩ := of_decide_eq_true hof
    rw [haddress, htick]
  have hle := h.journal r hr
  rw [decide_eq_true_eq]
  omega

theorem spendableWrites_val {touchedKeys : List (String × String)}
    {writes : List (BalanceKey × Option Buf)} (h : spendableWrites l touchedKeys = .ok writes)
    (escrowLeaves : Bool) : ∀ w ∈ writes, l.leafAt escrowLeaves w.1 = .ok w.2 := by
  intro w hw
  obtain ⟨k, -, hkey, hleaf⟩ := (leafWrites_ok h).1 w hw
  rw [← hkey]
  exact leafOrNull_of_minimal hleaf

theorem spendableWrites_rest {touchedKeys : List (String × String)}
    (ht : Touched l blockIndex touchedKeys) {writes : List (BalanceKey × Option Buf)}
    (h : spendableWrites l touchedKeys = .ok writes) (escrowLeaves : Bool) {address tick : String}
    (hk : ⟨.balance, address, tick⟩ ∉ writes.map Prod.fst) :
    (l.upTo (blockIndex - 1)).leafAt escrowLeaves ⟨.balance, address, tick⟩ =
      l.leafAt escrowLeaves ⟨.balance, address, tick⟩ := by
  rw [Ledger.leafAt, Ledger.leafAt, ht.netBalance]
  intro hmem
  apply hk
  obtain ⟨v, -, hw⟩ := (leafWrites_ok h).2 _ hmem
  exact List.mem_map_of_mem hw

/-- The spendable writes are all there is where no locked leaf is in the tree. -/
theorem spendable_writesOf {touchedKeys : List (String × String)}
    (ht : Touched l blockIndex touchedKeys) {writes : List (BalanceKey × Option Buf)}
    (h : spendableWrites l touchedKeys = .ok writes) :
    WritesOf l false writes ((l.upTo (blockIndex - 1)).leafAt false) where
  val := spendableWrites_val h false
  rest k hk := by
    cases k with
    | mk domain address tick =>
    cases domain with
    | balance => exact spendableWrites_rest ht h false hk
    | escrow => rfl

theorem escrow_writesOf {touchedKeys : List (String × String)}
    (ht : Touched l blockIndex touchedKeys) {writes locked : List (BalanceKey × Option Buf)}
    (h : spendableWrites l touchedKeys = .ok writes) (hlocked : escrowWrites l blockIndex = .ok locked) :
    WritesOf l true (writes ++ locked) ((l.upTo (blockIndex - 1)).leafAt true) where
  val w hw := by
    rcases List.mem_append.mp hw with hw | hw
    · exact spendableWrites_val h true w hw
    · obtain ⟨k, -, hkey, hleaf⟩ := (leafWrites_ok hlocked).1 w hw
      rw [← hkey]
      exact hleaf
  rest k hk := by
    rw [List.map_append, List.mem_append, not_or] at hk
    cases k with
    | mk domain address tick =>
    cases domain with
    | balance => exact spendableWrites_rest ht h true hk.1
    | escrow =>
      rw [Ledger.leafAt, Ledger.leafAt, ht.latestLockedAmount]
      intro hmem
      apply hk.2
      obtain ⟨v, -, hw⟩ := (leafWrites_ok hlocked).2 _ hmem
      exact List.mem_map_of_mem hw

end Block

/-! ### Roots -/

section Spec
variable {Digest : Type} [DecidableEq Digest] {h : SmtHashes Digest} {cfg : CommitmentConfig}
variable {A : Set (HashInput Digest)} {l : Ledger}

/-- A root that commits a ledger, all of whose leaves can be read. -/
structure BalanceCommits (h : SmtHashes Digest) (cfg : CommitmentConfig)
    (A : Set (HashInput Digest)) (nodes : NodeStore Digest) (root : Digest) (l : Ledger)
    (escrowLeaves : Bool) : Prop where
  threads : Threads h A (balanceKey cfg) nodes root (l.view escrowLeaves)
  readable : ∀ k, ∃ v, l.leafAt escrowLeaves k = .ok v

theorem BalanceCommits.mono {nodes nodes' : NodeStore Digest} (hx : Extends nodes.get nodes'.get)
    {root : Digest} {escrowLeaves : Bool} (hc : BalanceCommits h cfg A nodes root l escrowLeaves) :
    BalanceCommits h cfg A nodes' root l escrowLeaves :=
  ⟨hc.threads.mono hx, hc.readable⟩

theorem commits_of_writesOf (hA : NoCollision h A) {b : Build Digest} (hF : Filed h A b.nodes)
    {escrowLeaves : Bool} {writes : List (BalanceKey × Option Buf)}
    {rest : BalanceKey → Except String (Option Buf)} (hw : WritesOf l escrowLeaves writes rest)
    (ht : Threads h A (balanceKey cfg) b.nodes b.root fun k => (rest k).toOption.join)
    (hread : ∀ k, ∃ v, rest k = .ok v) {ws : List (Buf × Option Buf)}
    (hws : keyWrites (balanceKey cfg) writes = .ok ws)
    (hlog : ∀ i ∈ (writeLeaves h b ws).hashed, i ∈ A) :
    BalanceCommits h cfg A (writeLeaves h b ws).nodes (writeLeaves h b ws).root l escrowLeaves where
  threads := by
    refine threads_of_writes hA balanceKey_inj hF ht hws hlog (fun w hmem => ?_) fun k hk => ?_
    · rw [Ledger.view, hw.val w hmem]
      rfl
    · rw [Ledger.view, hw.rest k hk]
  readable k := by
    by_cases hmem : k ∈ writes.map Prod.fst
    · obtain ⟨w, hwmem, rfl⟩ := List.mem_map.mp hmem
      exact ⟨w.2, hw.val w hwmem⟩
    · rw [← hw.rest k hmem]
      exact hread k

theorem buildFullBalancesRoot_eq_ok {nodes : NodeStore Digest} {escrowLeaves : Bool}
    {b : Build Digest} (hb : buildFullBalancesRoot h cfg nodes l escrowLeaves = .ok b) :
    ∃ writes ws, fullWrites l escrowLeaves = .ok writes ∧
      keyWrites (balanceKey cfg) writes = .ok ws ∧ b = writeLeaves h ⟨h.emptyRoot, nodes, []⟩ ws := by
  rw [buildFullBalancesRoot] at hb
  obtain ⟨writes, hwrites, hb⟩ := of_bind_eq_ok hb
  obtain ⟨ws, hws, hb⟩ := of_bind_eq_ok hb
  exact ⟨writes, ws, hwrites, hws, (Except.ok.inj hb).symm⟩

theorem buildFullBalancesRoot_spec (hA : NoCollision h A) {nodes : NodeStore Digest}
    (hF : Filed h A nodes) (hu : l.Unique) {escrowLeaves : Bool} {b : Build Digest}
    (hb : buildFullBalancesRoot h cfg nodes l escrowLeaves = .ok b) (hlog : ∀ i ∈ b.hashed, i ∈ A) :
    Filed h A b.nodes ∧ Extends nodes.get b.nodes.get ∧
      BalanceCommits h cfg A b.nodes b.root l escrowLeaves := by
  obtain ⟨writes, ws, hwrites, hws, rfl⟩ := buildFullBalancesRoot_eq_ok hb
  obtain ⟨hF', hx⟩ := @Filed.writeLeaves _ _ h A ⟨h.emptyRoot, nodes, []⟩ hF ws hlog
  refine ⟨hF', hx, ?_⟩
  exact commits_of_writesOf hA hF (fullWrites_writesOf hu hwrites) (threads_empty hA nodes)
    (fun _ => ⟨none, rfl⟩) hws hlog

theorem keyWrites_append {writes writes' : List (BalanceKey × Option Buf)}
    {ws ws' : List (Buf × Option Buf)} (hws : keyWrites (balanceKey cfg) writes = .ok ws)
    (hws' : keyWrites (balanceKey cfg) writes' = .ok ws') :
    keyWrites (balanceKey cfg) (writes ++ writes') = .ok (ws ++ ws') := by
  rw [keyWrites] at hws hws' ⊢
  rw [List.mapM_append, hws, hws']
  rfl

/-- A block that threads a root with the locked leaves in the tree. -/
theorem applyEscrowLeaves_spec (hA : NoCollision h A) {nodes : NodeStore Digest}
    (hF : Filed h A nodes) {blockIndex : Int} {touchedKeys : List (String × String)}
    (ht : Touched l blockIndex touchedKeys) {root : Digest}
    (hprior : BalanceCommits h cfg A nodes root (l.upTo (blockIndex - 1)) true)
    {writes : List (BalanceKey × Option Buf)} (hwrites : spendableWrites l touchedKeys = .ok writes)
    {ws : List (Buf × Option Buf)} (hws : keyWrites (balanceKey cfg) writes = .ok ws)
    {b : Build Digest}
    (hb : applyEscrowLeaves h cfg (writeLeaves h ⟨root, nodes, []⟩ ws) l blockIndex = .ok b)
    (hlog : ∀ i ∈ b.hashed, i ∈ A) :
    Filed h A b.nodes ∧ Extends nodes.get b.nodes.get ∧
      BalanceCommits h cfg A b.nodes b.root l true := by
  rw [applyEscrowLeaves] at hb
  obtain ⟨locked, hlocked, hb⟩ := of_bind_eq_ok hb
  obtain ⟨ws', hws', hb⟩ := of_bind_eq_ok hb
  have hall : b = writeLeaves h ⟨root, nodes, []⟩ (ws ++ ws') := by
    rw [← Except.ok.inj hb, writeLeaves, writeLeaves, writeLeaves, List.foldl_append]
  rw [hall] at hlog ⊢
  obtain ⟨hF', hx⟩ := @Filed.writeLeaves _ _ h A ⟨root, nodes, []⟩ hF (ws ++ ws') hlog
  refine ⟨hF', hx, ?_⟩
  exact commits_of_writesOf hA hF (escrow_writesOf ht hwrites hlocked) hprior.threads
    hprior.readable (keyWrites_append hws hws') hlog

/-- The updates of a threaded root are the spendable writes of a block whose keys are touched. -/
def UpdatesOf (cfg : CommitmentConfig) (l : Ledger) (blockIndex : Int)
    (touchedKeys : List (String × String)) (ws : List (Buf × Option Buf)) : Prop :=
  Touched l blockIndex touchedKeys ∧ ∃ writes, spendableWrites l touchedKeys = .ok writes ∧
    keyWrites (balanceKey cfg) writes = .ok ws

/-- With a prior root that commits the blocks before, the root of a block commits the ledger, on
each of the four paths; only a threaded root asks for the touched keys. -/
theorem computeFollowerBalancesRoot_spec (hA : NoCollision h A) {nodes : NodeStore Digest}
    (hF : Filed h A nodes) (hu : l.Unique) {blockIndex : Int}
    {touchedKeys : List (String × String)} {priorRoot : Option Digest} {isActivationBlock : Bool}
    (ht : (isActivationBlock || (cfg.isEscrowLockedLeafActive blockIndex &&
        !cfg.isEscrowLockedLeafActive (blockIndex - 1))) = false → priorRoot ≠ none →
      Touched l blockIndex touchedKeys)
    (hprior : ∀ root, priorRoot = some root → BalanceCommits h cfg A nodes root
      (l.upTo (blockIndex - 1)) (cfg.isEscrowLockedLeafActive (blockIndex - 1)))
    {b : Build Digest} {updates : Option (List (Buf × Option Buf))}
    (hb : computeFollowerBalancesRoot h cfg nodes l priorRoot blockIndex touchedKeys
      isActivationBlock = .ok (b, updates)) (hlog : ∀ i ∈ b.hashed, i ∈ A) :
    (Filed h A b.nodes ∧ Extends nodes.get b.nodes.get ∧
      BalanceCommits h cfg A b.nodes b.root l (cfg.isEscrowLockedLeafActive blockIndex)) ∧
    ∀ ws, updates = some ws → UpdatesOf cfg l blockIndex touchedKeys ws := by
  rw [computeFollowerBalancesRoot] at hb
  dsimp only at hb
  split at hb
  · obtain ⟨b', hb', hb⟩ := of_bind_eq_ok hb
    obtain ⟨rfl, rfl⟩ := Prod.mk.inj (Except.ok.inj hb)
    exact ⟨buildFullBalancesRoot_spec hA hF hu hb' hlog, fun ws hws => by cases hws⟩
  · rename_i root hroot
    have hthreaded : (isActivationBlock || (cfg.isEscrowLockedLeafActive blockIndex &&
        !cfg.isEscrowLockedLeafActive (blockIndex - 1))) = false ∧ priorRoot = some root := by
      split at hroot
      · cases hroot
      · rename_i hpath
        exact ⟨Bool.eq_false_iff.mpr hpath, hroot⟩
    obtain ⟨hpath, hsome⟩ := hthreaded
    have hcommits := hprior root hsome
    have ht := ht hpath (by rw [hsome]; exact Option.some_ne_none root)
    obtain ⟨writes, hwrites, hb⟩ := of_bind_eq_ok hb
    obtain ⟨ws, hws, hb⟩ := of_bind_eq_ok hb
    obtain ⟨b', hb', hb⟩ := of_bind_eq_ok hb
    obtain ⟨rfl, hupdates⟩ := Prod.mk.inj (Except.ok.inj hb)
    refine ⟨?_, fun ws' hws' => ⟨ht, writes, hwrites, ?_⟩⟩
    · cases hactive : cfg.isEscrowLockedLeafActive blockIndex with
      | true =>
        have hbefore : cfg.isEscrowLockedLeafActive (blockIndex - 1) = true := by
          rw [hactive] at hpath
          simpa using (Bool.or_eq_false_iff.mp hpath).2
        rw [hbefore] at hcommits
        rw [hactive, if_pos rfl] at hb'
        exact applyEscrowLeaves_spec hA hF ht hcommits hwrites hws hb' hlog
      | false =>
        have hbefore : cfg.isEscrowLockedLeafActive (blockIndex - 1) = false := by
          rw [Bool.eq_false_iff]
          intro hactive'
          have := atOrAfter_mono (by omega : blockIndex - 1 ≤ blockIndex) hactive'
          rw [CommitmentConfig.isEscrowLockedLeafActive] at hactive
          rw [hactive] at this
          cases this
        rw [hbefore] at hcommits
        rw [hactive, if_neg Bool.false_ne_true] at hb'
        obtain rfl := Except.ok.inj hb'
        obtain ⟨hF', hx⟩ := @Filed.writeLeaves _ _ h A ⟨root, nodes, []⟩ hF ws hlog
        exact ⟨hF', hx, commits_of_writesOf hA hF (spendable_writesOf ht hwrites) hcommits.threads
          hcommits.readable hws hlog⟩
    · rw [hws'] at hupdates
      split at hupdates
      · rw [← Option.some.inj hupdates]
        exact hws
      · cases hupdates

theorem resolveShadowBalancesRoot_spec (hA : NoCollision h A) {nodes : NodeStore Digest}
    (hF : Filed h A nodes) (hu : l.Unique) {blockIndex : Int}
    {touchedKeys : List (String × String)} {priorRoot : Option Digest}
    (hprior : ∀ root, priorRoot = some root → BalanceCommits h cfg A nodes root
      (l.upTo (blockIndex - 1)) true) {updates : Option (List (Buf × Option Buf))}
    (hupdates : ∀ ws, updates = some ws → UpdatesOf cfg l blockIndex touchedKeys ws) {b : Build Digest}
    (hb : resolveShadowBalancesRoot h cfg nodes l priorRoot blockIndex updates = .ok b)
    (hlog : ∀ i ∈ b.hashed, i ∈ A) :
    Filed h A b.nodes ∧ Extends nodes.get b.nodes.get ∧
      BalanceCommits h cfg A b.nodes b.root l true := by
  cases priorRoot with
  | none => exact buildFullBalancesRoot_spec hA hF hu hb hlog
  | some root =>
    cases updates with
    | none => exact buildFullBalancesRoot_spec hA hF hu hb hlog
    | some ws =>
      obtain ⟨ht, writes, hwrites, hws⟩ := hupdates ws rfl
      exact applyEscrowLeaves_spec hA hF ht (hprior root rfl) hwrites hws hb hlog

/-- A root that commits the ledger is that of its full build, which succeeds. -/
theorem BalanceCommits.full_build (hA : NoCollision h A) {nodes : NodeStore Digest}
    (hF : Filed h A nodes) (hu : l.Unique) {root : Digest} {escrowLeaves : Bool}
    (hc : BalanceCommits h cfg A nodes root l escrowLeaves)
    (hlog : ∀ b, buildFullBalancesRoot h cfg nodes l escrowLeaves = .ok b → ∀ i ∈ b.hashed, i ∈ A) :
    ∃ b, buildFullBalancesRoot h cfg nodes l escrowLeaves = .ok b ∧ b.root = root := by
  obtain ⟨writes, hwrites⟩ := fullWrites_isOk hu hc.readable
  have hof := fullWrites_writesOf hu hwrites
  have hkeyed : ∀ w ∈ writes, ∃ bytes, balanceKey cfg w.1 = .ok bytes := by
    intro w hw
    have hsome : w.2.isSome = true := by
      rw [fullWrites] at hwrites
      obtain ⟨bals, -, hwrites⟩ := of_bind_eq_ok hwrites
      obtain ⟨locked, -, hwrites⟩ := of_bind_eq_ok hwrites
      rw [← Except.ok.inj hwrites] at hw
      exact (List.mem_filter.mp hw).2
    have hview : l.view escrowLeaves w.1 ≠ none := by
      rw [Ledger.view, hof.val w hw]
      exact Option.isSome_iff_ne_none.mp hsome
    obtain ⟨bytes, hbytes, -⟩ := hc.threads.keyed w.1 hview
    exact ⟨bytes, hbytes⟩
  obtain ⟨ws, hws⟩ := keyWrites_isOk hkeyed
  have hb : buildFullBalancesRoot h cfg nodes l escrowLeaves =
      .ok (writeLeaves h ⟨h.emptyRoot, nodes, []⟩ ws) := by
    rw [buildFullBalancesRoot, hwrites]
    dsimp only [bind, Except.bind]
    rw [hws]
    rfl
  obtain ⟨-, -, hfull⟩ := buildFullBalancesRoot_spec hA hF hu hb (hlog _ hb)
  exact ⟨_, hb, hfull.threads.root_eq hc.threads⟩

end Spec

end XChainSync.Commitment
