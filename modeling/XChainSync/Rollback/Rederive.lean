import Mathlib.Data.List.Dedup
import XChainSync.Library.Runs

/-!
# Columns that a replica derives again

The ownership gate of a token, the `bridged` bit of a token and the promotion of a COINPay match are
written in place. Each is derived again from the rows that are left after a rollback, the gate also
after a payload that brings a row it depends on.
-/

namespace XChainSync.Rollback.Rederive
open Runs
set_option autoImplicit false

/-! ### Tables -/

inductive OfferTable where
  | orders
  | swaps
  | dispensers
  deriving DecidableEq, Repr

structure Offer where
  table : OfferTable
  action_index : Nat
  give_tick_id : Nat
  give_ownership : Bool
  deriving DecidableEq, Repr

/-- A row of the status table of an offer table. -/
structure OfferStatus where
  table : OfferTable
  offer_action_index : Nat
  action_index : Nat
  status_id : Nat
  deriving DecidableEq, Repr

structure XBridge where
  action_index : Nat
  tick_id : Nat
  version : Nat
  status_id : Nat
  deriving DecidableEq, Repr

structure CoinpayStatus where
  action_index : Nat
  coinpay_action_index : Option Nat
  status_id : Nat
  deriving DecidableEq, Repr

/-- The rows that the derivations read; an id has one text and a text one id. -/
structure Tables where
  offers : List Offer
  offer_statuses : List OfferStatus
  xbridges : List XBridge
  coinpay_statuses : List CoinpayStatus
  index_statuses : List (Nat × String)
  index_tickers : List (Nat × String)
  statuses_nodup : (index_statuses.map Prod.fst).Nodup ∧ (index_statuses.map Prod.snd).Nodup
  tickers_nodup : (index_tickers.map Prod.fst).Nodup ∧ (index_tickers.map Prod.snd).Nodup

structure Token where
  tick_id : Nat
  action_index : Nat
  escrow_action_index : Option Nat
  bridged : Bool
  deriving DecidableEq, Repr

structure OrderMatch where
  action_index : Nat
  settlement_type : String
  status_id : Nat
  deriving DecidableEq, Repr

/-! ### The ownership gate -/

def openStatuses : List String := ["open", "cancelling", "expiring"]

/-- The last status of an offer is an open one. -/
def isOpen (t : Tables) (o : Offer) : Bool :=
  let own := t.offer_statuses.filter fun st =>
    st.table = o.table ∧ st.offer_action_index = o.action_index
  own.any fun st => (own.map OfferStatus.action_index).max? = some st.action_index ∧
    (t.index_statuses.lookup st.status_id).any (· ∈ openStatuses)

/-- The offers that hold the ownership of a tick. -/
def openOffers (t : Tables) : List Offer := t.offers.filter fun o => o.give_ownership && isOpen t o

/-- `escrowAffectedTickersSql`. -/
def escrowAffectedTickers (t : Tables) (tokens : List Token) : List String :=
  ((tokens.filter (·.escrow_action_index.isSome)).filterMap
      (fun r => t.index_tickers.lookup r.tick_id) ++
    (openOffers t).filterMap fun o => t.index_tickers.lookup o.give_tick_id).dedup

/-- `escrowOpenOfferSql`. -/
def escrowOpenOffer (t : Tables) (tick : String) : Option Nat :=
  (((openOffers t).filter fun o => t.index_tickers.lookup o.give_tick_id = some tick).map
    Offer.action_index).min?

def tickerId (t : Tables) (tick : String) : Option Nat :=
  (t.index_tickers.find? fun row => row.2 = tick).map Prod.fst

def setGate (t : Tables) (tick : String) (r : Token) : Token :=
  if tickerId t tick = some r.tick_id then { r with escrow_action_index := escrowOpenOffer t tick }
  else r

def rederiveEscrowGate (t : Tables) (tokens : List Token) : List Token :=
  (escrowAffectedTickers t tokens).foldl (fun rows tick => rows.map (setGate t tick)) tokens

/-! ### The bridged bit and the COINPay matches -/

def statusId (t : Tables) (status : String) : Option Nat :=
  (t.index_statuses.find? fun row => row.2 = status).map Prod.fst

def hasLock (t : Tables) (tick_id : Nat) : Bool :=
  t.xbridges.any fun x => x.tick_id = tick_id ∧ x.version = 3 ∧
    t.index_statuses.lookup x.status_id = some "valid"

def rederiveTokenBridged (t : Tables) (tokens : List Token) : List Token :=
  tokens.map fun r => if r.bridged && !hasLock t r.tick_id then { r with bridged := false } else r

/-- A payment of the obligation that went through. -/
def isFulfilled (t : Tables) (action_index : Nat) : Bool :=
  t.coinpay_statuses.any fun cs => cs.coinpay_action_index = some action_index ∧
    t.index_statuses.lookup cs.status_id = some "fulfilled"

/-- `UPDATE order_matches` of the matches that are due, where both statuses are known. -/
def restatus (t : Tables) (old new : String) (due : OrderMatch → Bool) (m : OrderMatch) :
    OrderMatch :=
  match statusId t old, statusId t new with
  | some oldId, some newId =>
    if m.settlement_type = "coinpay" ∧ m.status_id = oldId ∧ due m then { m with status_id := newId }
    else m
  | _, _ => m

def rederiveCoinpayMatchStatus (t : Tables) (order_matches : List OrderMatch) : List OrderMatch :=
  (order_matches.map (restatus t "valid" "pending_coinpay" fun m => !isFulfilled t m.action_index)).map
    (restatus t "pending_coinpay" "valid" fun m => isFulfilled t m.action_index)

/-! ### What the gate is -/

variable {t t' : Tables} {tokens : List Token} {order_matches : List OrderMatch} {tick_id : Nat}
  {tick : String} {r : Token}

/-- The first of the offers that hold the ownership of a tick. -/
def firstOpen (t : Tables) (tick_id : Nat) : Option Nat :=
  (((openOffers t).filter (·.give_tick_id = tick_id)).map Offer.action_index).min?

/-- Reading a two-column table by its first column and by its second. -/
theorem find?_snd_of_lookup {rows : List (Nat × String)} {id : Nat} {text : String}
    (htexts : (rows.map Prod.snd).Nodup) (h : rows.lookup id = some text) :
    (rows.find? fun row => row.2 = text).map Prod.fst = some id := by
  induction rows with
  | nil => cases h
  | cons row rows ih =>
    rw [List.map_cons, List.nodup_cons] at htexts
    rw [List.find?_cons]
    by_cases hid : id = row.1
    · subst hid
      rw [List.lookup_cons_self, Option.some.injEq] at h
      rw [decide_eq_true h]
      rfl
    · rw [List.lookup_cons, beq_false_of_ne hid] at h
      have hmem : text ∈ rows.map Prod.snd := by
        obtain ⟨before, after, heq, -⟩ := List.lookup_eq_some_iff.mp h
        rw [heq]
        simp
      have hne : row.2 ≠ text := fun heq => htexts.1 (heq ▸ hmem)
      rw [decide_eq_false hne]
      exact ih htexts.2 h

theorem lookup_of_find?_snd {rows : List (Nat × String)} {id : Nat} {text : String}
    (hids : (rows.map Prod.fst).Nodup)
    (h : (rows.find? fun row => row.2 = text).map Prod.fst = some id) : rows.lookup id = some text := by
  induction rows with
  | nil => cases h
  | cons row rows ih =>
    rw [List.map_cons, List.nodup_cons] at hids
    rw [List.find?_cons] at h
    by_cases htext : row.2 = text
    · rw [decide_eq_true htext] at h
      have hid : row.1 = id := Option.some.inj h
      rw [← hid, ← htext, List.lookup_cons_self]
    · rw [decide_eq_false htext] at h
      have hrest := ih hids.2 h
      have hmem : id ∈ rows.map Prod.fst := by
        obtain ⟨before, after, heq, -⟩ := List.lookup_eq_some_iff.mp hrest
        rw [heq]
        simp
      have hne : id ≠ row.1 := fun heq => hids.1 (heq ▸ hmem)
      rw [List.lookup_cons, beq_false_of_ne hne]
      exact hrest

theorem tickerId_eq_some : tickerId t tick = some tick_id ↔ t.index_tickers.lookup tick_id = some tick :=
  ⟨lookup_of_find?_snd t.tickers_nodup.1, find?_snd_of_lookup t.tickers_nodup.2⟩

/-- The offers of a tick by its text are those by its id. -/
theorem escrowOpenOffer_eq (h : t.index_tickers.lookup tick_id = some tick) :
    escrowOpenOffer t tick = firstOpen t tick_id := by
  unfold escrowOpenOffer firstOpen
  congr 2
  refine List.filter_congr fun o _ => ?_
  have hiff : t.index_tickers.lookup o.give_tick_id = some tick ↔ o.give_tick_id = tick_id := by
    constructor
    · intro ho
      have hid := tickerId_eq_some.mpr ho
      rw [tickerId_eq_some.mpr h] at hid
      exact (Option.some.inj hid).symm
    · intro heq
      rw [heq, h]
  simp only [hiff]

/-- A loop of updates of a table, row by row. -/
theorem foldl_map {A B : Type} (f : B → A → A) (items : List B) (rows : List A) :
    items.foldl (fun rows item => rows.map (f item)) rows =
      rows.map fun row => items.foldl (fun row item => f item row) row := by
  induction items generalizing rows with
  | nil => exact (List.map_id' rows).symm
  | cons item items ih =>
    rw [List.foldl_cons, ih, List.map_map]
    rfl

theorem setGate_tick_id (tick : String) (r : Token) : (setGate t tick r).tick_id = r.tick_id := by
  unfold setGate
  split <;> rfl

theorem setGate_of_ne (h : t.index_tickers.lookup r.tick_id ≠ some tick) : setGate t tick r = r := by
  unfold setGate
  rw [if_neg fun hid => h (tickerId_eq_some.mp hid)]

theorem setGate_self (h : t.index_tickers.lookup r.tick_id = some tick) :
    setGate t tick r = { r with escrow_action_index := firstOpen t r.tick_id } := by
  unfold setGate
  rw [if_pos (tickerId_eq_some.mpr h), escrowOpenOffer_eq h]

/-- The loop sets the gate of each token whose tick it passes. -/
theorem foldl_setGate (ticks : List String) (r : Token) :
    ticks.foldl (fun r tick => setGate t tick r) r =
      if (t.index_tickers.lookup r.tick_id).any (· ∈ ticks) then
        { r with escrow_action_index := firstOpen t r.tick_id }
      else r := by
  induction ticks generalizing r with
  | nil =>
    have hnone : (t.index_tickers.lookup r.tick_id).any (· ∈ ([] : List String)) = false := by
      cases t.index_tickers.lookup r.tick_id <;> rfl
    rw [hnone]
    rfl
  | cons tick ticks ih =>
    rw [List.foldl_cons, ih, setGate_tick_id]
    by_cases hself : t.index_tickers.lookup r.tick_id = some tick
    · rw [setGate_self hself, hself]
      simp
    · rw [setGate_of_ne hself]
      have hany : (t.index_tickers.lookup r.tick_id).any (· ∈ tick :: ticks) =
          (t.index_tickers.lookup r.tick_id).any (· ∈ ticks) := by
        cases hlookup : t.index_tickers.lookup r.tick_id with
        | none => rfl
        | some own =>
          have hne : own ≠ tick := fun heq => hself (hlookup.trans (congrArg some heq))
          simp [hne]
      rw [hany]

/-- A tick outside the affected set has no gate and no open offer. -/
theorem firstOpen_of_unaffected (hr : r ∈ tokens) (hlookup : t.index_tickers.lookup r.tick_id = some tick)
    (h : tick ∉ escrowAffectedTickers t tokens) :
    r.escrow_action_index = none ∧ firstOpen t r.tick_id = none := by
  rw [escrowAffectedTickers, List.mem_dedup, List.mem_append, not_or] at h
  constructor
  · by_contra hgate
    refine h.1 (List.mem_filterMap.mpr ⟨r, List.mem_filter.mpr ⟨hr, ?_⟩, hlookup⟩)
    exact Option.isSome_iff_ne_none.mpr hgate
  · have hnone : (openOffers t).filter (·.give_tick_id = r.tick_id) = [] := by
      rw [List.filter_eq_nil_iff]
      intro o ho htick
      refine h.2 (List.mem_filterMap.mpr ⟨o, ho, ?_⟩)
      rw [of_decide_eq_true htick, hlookup]
    rw [firstOpen, hnone]
    rfl

/-- Whatever gates stood before, each token of a known tick has its first open offer afterwards. -/
theorem rederiveEscrowGate_eq (t : Tables) (tokens : List Token) :
    rederiveEscrowGate t tokens = tokens.map fun r =>
      if (t.index_tickers.lookup r.tick_id).isSome then
        { r with escrow_action_index := firstOpen t r.tick_id }
      else r := by
  unfold rederiveEscrowGate
  rw [foldl_map]
  refine List.map_congr_left fun r hr => ?_
  rw [foldl_setGate]
  cases hlookup : t.index_tickers.lookup r.tick_id with
  | none => rfl
  | some tick =>
    rw [Option.any_some, Option.isSome_some, if_pos rfl]
    by_cases hmem : tick ∈ escrowAffectedTickers t tokens
    · rw [if_pos (decide_eq_true hmem)]
    · obtain ⟨hgate, hopen⟩ := firstOpen_of_unaffected hr hlookup hmem
      rw [if_neg (by simpa using hmem), hopen, ← hgate]

/-! ### What holds after the derivations -/

def GatesRight (t : Tables) (tokens : List Token) : Prop :=
  ∀ r ∈ tokens, (t.index_tickers.lookup r.tick_id).isSome → r.escrow_action_index = firstOpen t r.tick_id

def BitsBacked (t : Tables) (tokens : List Token) : Prop :=
  ∀ r ∈ tokens, r.bridged = true → hasLock t r.tick_id = true

/-- A COINPay match stands as valid or as pending by its payments. -/
def MatchesSettled (t : Tables) (order_matches : List OrderMatch) : Prop :=
  ∀ m ∈ order_matches, m.settlement_type = "coinpay" → ∀ valid pending,
    statusId t "valid" = some valid → statusId t "pending_coinpay" = some pending →
      (m.status_id = valid → isFulfilled t m.action_index = true) ∧
        (m.status_id = pending → isFulfilled t m.action_index = false)

theorem gatesRight_rederived (t : Tables) (tokens : List Token) :
    GatesRight t (rederiveEscrowGate t tokens) := by
  intro r hr hknown
  rw [rederiveEscrowGate_eq] at hr
  obtain ⟨r₀, -, rfl⟩ := List.mem_map.mp hr
  by_cases h : (t.index_tickers.lookup r₀.tick_id).isSome
  · rw [if_pos h]
  · rw [if_neg h] at hknown
    exact absurd hknown h

theorem bitsBacked_rederived (t : Tables) (tokens : List Token) :
    BitsBacked t (rederiveTokenBridged t tokens) := by
  intro r hr hbit
  obtain ⟨r₀, -, rfl⟩ := List.mem_map.mp hr
  by_cases hlock : hasLock t r₀.tick_id = true
  · split
    · exact hlock
    · exact hlock
  · by_cases hold : r₀.bridged = true <;> simp_all

variable {old new : String} {due : OrderMatch → Bool} {m : OrderMatch}

theorem restatus_fields (t : Tables) (old new : String) (due : OrderMatch → Bool) (m : OrderMatch) :
    (restatus t old new due m).action_index = m.action_index ∧
      (restatus t old new due m).settlement_type = m.settlement_type := by
  unfold restatus
  split
  · split <;> exact ⟨rfl, rfl⟩
  · exact ⟨rfl, rfl⟩

theorem restatus_status_id {oldId newId : Nat} (hold : statusId t old = some oldId)
    (hnew : statusId t new = some newId) (hcoinpay : m.settlement_type = "coinpay") :
    (restatus t old new due m).status_id =
      if m.status_id = oldId ∧ due m = true then newId else m.status_id := by
  simp only [restatus, hold, hnew, hcoinpay, true_and]
  split <;> rfl

theorem matchesSettled_rederived (t : Tables) (order_matches : List OrderMatch) :
    MatchesSettled t (rederiveCoinpayMatchStatus t order_matches) := by
  intro m hm hcoinpay valid pending hvalid hpending
  have hne : valid ≠ pending := by
    rintro rfl
    have hv := lookup_of_find?_snd t.statuses_nodup.1 hvalid
    have hp := lookup_of_find?_snd t.statuses_nodup.1 hpending
    rw [hv] at hp
    exact absurd (Option.some.inj hp) (by decide)
  unfold rederiveCoinpayMatchStatus at hm
  obtain ⟨m₁, hm₁, rfl⟩ := List.mem_map.mp hm
  obtain ⟨m₀, -, rfl⟩ := List.mem_map.mp hm₁
  have hfirst := restatus_fields t "valid" "pending_coinpay"
    (fun m => !isFulfilled t m.action_index) m₀
  have hsecond := restatus_fields t "pending_coinpay" "valid" (fun m => isFulfilled t m.action_index)
    (restatus t "valid" "pending_coinpay" (fun m => !isFulfilled t m.action_index) m₀)
  have htype := hsecond.2.symm.trans hcoinpay
  rw [hsecond.1, hfirst.1, restatus_status_id hpending hvalid htype,
    restatus_status_id hvalid hpending (hfirst.2.symm.trans htype), hfirst.1]
  cases hpaid : isFulfilled t m₀.action_index with
  | true =>
    refine ⟨fun _ => rfl, fun hp => ?_⟩
    simp only [Bool.not_true, Bool.false_eq_true, and_false, if_false, and_true] at hp
    split at hp
    · exact absurd hp hne
    · contradiction
  | false =>
    refine ⟨fun hv => ?_, fun _ => rfl⟩
    simp only [Bool.not_false, and_true, Bool.false_eq_true, and_false, if_false] at hv
    split at hv
    · exact absurd hv.symm hne
    · contradiction

/-! ### Payloads and rollbacks -/

structure Replica where
  tables : Tables
  tokens : List Token
  order_matches : List OrderMatch

/-- The rows that a payload brings: the tables with its data in them, the token rows of its data and
those that it carries over, and whether a table is among its data that the gate depends on. -/
structure Payload where
  tables : Tables
  inserted : List Token
  carried : List Token
  order_matches : List OrderMatch
  touched : Bool

/-- `applyUpdatedRows` on `tokens`. -/
def carry (rows : List Token) (r : Token) : List Token :=
  if rows.any (·.tick_id = r.tick_id) then
    rows.map fun own => if own.tick_id = r.tick_id then r else own
  else rows ++ [r]

def Replica.applyPayload (s : Replica) (p : Payload) : Replica :=
  let tokens := p.carried.foldl carry (s.tokens ++ p.inserted)
  { tables := p.tables
    tokens := if p.touched then rederiveEscrowGate p.tables tokens else tokens
    order_matches := p.order_matches }

/-- `DELETE FROM … WHERE action_index >= ?` on the tables that the derivations read. -/
def Tables.delete (t : Tables) (firstActionIndex : Nat) : Tables :=
  { t with
    offers := t.offers.filter (·.action_index < firstActionIndex)
    offer_statuses := t.offer_statuses.filter (·.action_index < firstActionIndex)
    xbridges := t.xbridges.filter (·.action_index < firstActionIndex)
    coinpay_statuses := t.coinpay_statuses.filter (·.action_index < firstActionIndex) }

/-- The derivations of a rollback; a truncated replica leaves out all but the gate. -/
def Replica.rollback (s : Replica) (firstActionIndex : Nat) (truncatedReplica : Bool) : Replica :=
  let tables := s.tables.delete firstActionIndex
  let tokens := rederiveEscrowGate tables (s.tokens.filter (·.action_index < firstActionIndex))
  let order_matches := s.order_matches.filter (·.action_index < firstActionIndex)
  { tables
    tokens := if truncatedReplica then tokens else rederiveTokenBridged tables tokens
    order_matches := if truncatedReplica then order_matches
      else rederiveCoinpayMatchStatus tables order_matches }

inductive ReplicaEvent where
  | payload (p : Payload)
  | rollback (firstActionIndex : Nat) (truncatedReplica : Bool)

def Replica.step (s : Replica) : ReplicaEvent → Replica
  | .payload p => s.applyPayload p
  | .rollback firstActionIndex truncatedReplica => s.rollback firstActionIndex truncatedReplica

/-- A payload without a table that the gate depends on leaves the offers as they are, and what token
rows it carries have the gate of the source. -/
def Replica.Regular (s : Replica) : ReplicaEvent → Prop
  | .payload p => p.touched = false →
      p.tables.offers = s.tables.offers ∧ p.tables.offer_statuses = s.tables.offer_statuses ∧
      (∀ st ∈ s.tables.offer_statuses,
        p.tables.index_statuses.lookup st.status_id = s.tables.index_statuses.lookup st.status_id) ∧
      (∀ r ∈ s.tokens, (s.tables.index_tickers.lookup r.tick_id).isSome) ∧
      p.inserted = [] ∧
      ∀ r ∈ p.carried, r.escrow_action_index = firstOpen p.tables r.tick_id
  | .rollback _ _ => True

theorem mem_carry {rows : List Token} {r own : Token} (h : own ∈ carry rows r) :
    own ∈ rows ∨ own = r := by
  unfold carry at h
  split at h
  · obtain ⟨own₀, hown, rfl⟩ := List.mem_map.mp h
    split
    · exact .inr rfl
    · exact .inl hown
  · exact (List.mem_append.mp h).imp_right List.mem_singleton.mp

theorem mem_foldl_carry {rows carried : List Token} {own : Token}
    (h : own ∈ carried.foldl carry rows) : own ∈ rows ∨ own ∈ carried := by
  induction carried generalizing rows with
  | nil => exact .inl h
  | cons r carried ih =>
    rcases ih h with h | h
    · rcases mem_carry h with h | rfl
      · exact .inl h
      · exact .inr (List.mem_cons_self ..)
    · exact .inr (List.mem_cons_of_mem _ h)

theorem firstOpen_congr (hoffers : t'.offers = t.offers) (hstatuses : t'.offer_statuses = t.offer_statuses)
    (hindex : ∀ st ∈ t.offer_statuses,
      t'.index_statuses.lookup st.status_id = t.index_statuses.lookup st.status_id) (tick_id : Nat) :
    firstOpen t' tick_id = firstOpen t tick_id := by
  have hopen : ∀ o, isOpen t' o = isOpen t o := by
    intro o
    unfold isOpen
    rw [hstatuses, Bool.eq_iff_iff, List.any_eq_true, List.any_eq_true]
    refine exists_congr fun st => and_congr_right fun hst => ?_
    rw [hindex st (List.mem_filter.mp hst).1]
  unfold firstOpen openOffers
  rw [hoffers]
  simp only [hopen]

theorem gatesRight_rollback (s : Replica) (firstActionIndex : Nat) (truncatedReplica : Bool) :
    GatesRight (s.rollback firstActionIndex truncatedReplica).tables
      (s.rollback firstActionIndex truncatedReplica).tokens := by
  have hgates := gatesRight_rederived (s.tables.delete firstActionIndex)
    (s.tokens.filter (·.action_index < firstActionIndex))
  cases truncatedReplica with
  | true => exact hgates
  | false =>
    -- clearing a bit leaves the gate
    intro r hr hknown
    obtain ⟨r₀, hr₀, rfl⟩ := List.mem_map.mp hr
    have hsame := hgates r₀ hr₀
    split at hknown
    · rename_i hclear
      rw [if_pos hclear]
      exact hsame hknown
    · rename_i hclear
      rw [if_neg hclear]
      exact hsame hknown

theorem gatesRight_payload {s : Replica} {p : Payload} (h : GatesRight s.tables s.tokens)
    (hok : s.Regular (.payload p)) :
    GatesRight (s.applyPayload p).tables (s.applyPayload p).tokens := by
  unfold Replica.applyPayload
  cases htouched : p.touched with
  | true => exact gatesRight_rederived _ _
  | false =>
    obtain ⟨hoffers, hstatuses, hindex, hknown, hinserted, hcarried⟩ := hok htouched
    intro r hr _
    rcases mem_foldl_carry hr with hr | hr
    · rw [hinserted, List.append_nil] at hr
      rw [firstOpen_congr hoffers hstatuses hindex]
      exact h r hr (hknown r hr)
    · exact hcarried r hr

/-- An order that holds the tick, and its status rows. -/
def heldTables (offer_statuses : List OfferStatus) : Tables where
  offers := [⟨.orders, 5, 10, true⟩]
  offer_statuses := offer_statuses
  xbridges := []
  coinpay_statuses := []
  index_statuses := [(1, "open"), (2, "closed"), (3, "valid"), (4, "pending_coinpay")]
  index_tickers := [(10, "TOKA")]
  statuses_nodup := by decide
  tickers_nodup := by decide

/-- The order was closed at 9, which freed the tick. -/
def closedOrder : Replica where
  tables := heldTables [⟨.orders, 5, 5, 1⟩, ⟨.orders, 5, 9, 2⟩]
  tokens := [⟨10, 1, none, true⟩]
  order_matches := [⟨6, "coinpay", 3⟩]

/-- The order is closed again after the rollback. -/
def closedAgain : Payload where
  tables := heldTables [⟨.orders, 5, 5, 1⟩, ⟨.orders, 5, 8, 2⟩]
  inserted := []
  carried := []
  order_matches := []
  touched := true

example : ((closedOrder.rollback 9 false).tokens.map Token.escrow_action_index,
    (closedOrder.rollback 9 false).tokens.map Token.bridged,
    (closedOrder.rollback 9 false).order_matches.map OrderMatch.status_id) =
      ([some 5], [false], [4]) := by
  decide

end XChainSync.Rollback.Rederive
