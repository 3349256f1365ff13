import Mathlib
import XChainSync.Library.Joined
import XChainSync.Client.Events
import XChainSync.Merkle.FixedMerkle

/-!
# The leaves of a block and its content root

`joinFields`, the leaf kinds and `blockMerkleLeaves` of src/merkle.js. A column value is any value
of the language: `joinFields` writes its `String()`, and the columns that pass `_c` write null as
the empty text.
-/

namespace XChainSync.Merkle
set_option autoImplicit false
open LayerTree
open Client (JsVal)

/-- `Buffer.from(text, 'utf8')`. -/
def utf8 (text : String) : Buf := text.toByteArray.data.toList

theorem utf8_injective : Function.Injective utf8 := by
  intro s t h
  apply String.toByteArray_inj.mp
  apply ByteArray.ext
  exact Array.ext' h

def joinFields (parts : List JsVal) : Except String Buf :=
  match parts.find? fun part => (0x00 : UInt8) ∈ utf8 part.text with
  | some part => .error ("merkle: field contains 0x00, breaks injective join: " ++ part.text)
  | none => .ok (Joined.join 0x00 (parts.map fun part => utf8 part.text))

/-- `_c`. -/
def coerce (x : JsVal) : JsVal := if x.nullish then .str "" else x

inductive LedgerKind where
  | credit
  | debit
  | escrow
  deriving DecidableEq, Repr

def LedgerKind.text : LedgerKind → String
  | credit => "credit"
  | debit => "debit"
  | escrow => "escrow"

structure LedgerRow where
  action_index : JsVal
  address : JsVal
  tick : JsVal
  amount : JsVal
  deriving DecidableEq, Repr

structure ActionRow where
  action_index : JsVal
  tx_index : JsVal
  action : JsVal
  deriving DecidableEq, Repr

structure ContractRow where
  action_index : JsVal
  source_address : JsVal
  code_hash : JsVal
  status : JsVal
  deriving DecidableEq, Repr

structure ContractStateRow where
  contract_index : JsVal
  state_key : JsVal
  state_value : JsVal
  deriving DecidableEq, Repr

structure ExecutionRow where
  action_index : JsVal
  contract_index : JsVal
  caller_address : JsVal
  gas_used : JsVal
  status : JsVal
  emitted_count : JsVal
  deriving DecidableEq, Repr

structure EmissionRow where
  execution_index : JsVal
  emitted_action : JsVal
  action_index : JsVal
  position : JsVal
  deriving DecidableEq, Repr

/-- A deposit or a withdrawal. -/
structure TransferRow where
  action_index : JsVal
  contract_index : JsVal
  source_address : JsVal
  tick : JsVal
  amount : JsVal
  status : JsVal
  deriving DecidableEq, Repr

/-- The rows of a block, as `getBlockLeafRows` answers them. -/
structure BlockRows where
  credits : List LedgerRow
  debits : List LedgerRow
  escrows : List LedgerRow
  actions : List ActionRow
  contracts : List ContractRow
  state : List ContractStateRow
  executions : List ExecutionRow
  emissions : List EmissionRow
  deposits : List TransferRow
  withdrawals : List TransferRow

/-! ### What a row writes -/

def LedgerRow.fields (r : LedgerRow) : List JsVal :=
  [r.action_index, coerce r.address, coerce r.tick, r.amount]

def ActionRow.fields (r : ActionRow) : List JsVal :=
  [r.action_index, coerce r.tx_index, coerce r.action]

def ContractRow.fields (r : ContractRow) : List JsVal :=
  [r.action_index, coerce r.source_address, coerce r.code_hash, coerce r.status]

def ContractStateRow.fields (r : ContractStateRow) : List JsVal :=
  [r.contract_index, coerce r.state_key, coerce r.state_value]

def ExecutionRow.fields (r : ExecutionRow) : List JsVal :=
  [r.action_index, r.contract_index, coerce r.caller_address, coerce r.gas_used, coerce r.status,
    coerce r.emitted_count]

def EmissionRow.fields (r : EmissionRow) : List JsVal :=
  [r.execution_index, coerce r.emitted_action, r.action_index, r.position]

def TransferRow.fields (r : TransferRow) : List JsVal :=
  [r.action_index, r.contract_index, coerce r.source_address, coerce r.tick, r.amount,
    coerce r.status]

section Leaves
variable (sha256 : Buf → Buf)

def leafHash (bytes : Buf) : Buf := sha256 (0x00 :: bytes)

def ledgerLeaf (kind : LedgerKind) (row : LedgerRow) : Except String Buf :=
  (joinFields (.str "L" :: .str kind.text :: row.fields)).map (leafHash sha256)

def actionsLeaf (row : ActionRow) : Except String Buf :=
  (joinFields (.str "A" :: row.fields)).map (leafHash sha256)

def contractLeaf (subTable : String) (fields : List JsVal) : Except String Buf :=
  (joinFields (.str "C" :: .str subTable :: fields)).map (leafHash sha256)

/-- All ledger leaves, then actions, then the six contract tables. -/
def blockMerkleLeaves (rows : BlockRows) : Except String (List Buf) := do
  let credits ← rows.credits.mapM (ledgerLeaf sha256 .credit)
  let debits ← rows.debits.mapM (ledgerLeaf sha256 .debit)
  let escrows ← rows.escrows.mapM (ledgerLeaf sha256 .escrow)
  let actions ← rows.actions.mapM (actionsLeaf sha256)
  let contracts ← rows.contracts.mapM fun r => contractLeaf sha256 "contracts" r.fields
  let state ← rows.state.mapM fun r => contractLeaf sha256 "state" r.fields
  let executions ← rows.executions.mapM fun r => contractLeaf sha256 "executions" r.fields
  let emissions ← rows.emissions.mapM fun r => contractLeaf sha256 "emissions" r.fields
  let deposits ← rows.deposits.mapM fun r => contractLeaf sha256 "deposits" r.fields
  let withdrawals ← rows.withdrawals.mapM fun r => contractLeaf sha256 "withdrawals" r.fields
  return credits ++ debits ++ escrows ++ actions ++ contracts ++ state ++ executions ++ emissions ++
    deposits ++ withdrawals

def blockMerkleRoot (orderedLeaves : List Buf) : Option Buf :=
  fixedMerkleRoot sha256 (orderedLeaves.map .buffer)

end Leaves

/-- The `String()` of every column after its coercion, kind by kind. -/
def BlockRows.texts (rows : BlockRows) : List (List (List String)) :=
  let texts : List JsVal → List String := fun fields => fields.map JsVal.text
  [rows.credits.map (texts ·.fields), rows.debits.map (texts ·.fields),
    rows.escrows.map (texts ·.fields), rows.actions.map (texts ·.fields),
    rows.contracts.map (texts ·.fields), rows.state.map (texts ·.fields),
    rows.executions.map (texts ·.fields), rows.emissions.map (texts ·.fields),
    rows.deposits.map (texts ·.fields), rows.withdrawals.map (texts ·.fields)]

/-- What the leaf of each kind starts with. -/
def leafTags : List (List String) :=
  [["L", "credit"], ["L", "debit"], ["L", "escrow"], ["A"], ["C", "contracts"], ["C", "state"],
    ["C", "executions"], ["C", "emissions"], ["C", "deposits"], ["C", "withdrawals"]]

/-- The field texts of all leaves in their order. -/
def BlockRows.leafTexts (rows : BlockRows) : List (List String) := Joined.tagged leafTags rows.texts

/-- The bytes a leaf hashes, for its field texts. -/
def encode (texts : List String) : Buf := Joined.join 0x00 (texts.map utf8)

def NulFree (texts : List String) : Prop := ∀ t ∈ texts, (0x00 : UInt8) ∉ utf8 t

theorem joinFields_eq_ok {parts : List JsVal} {bytes : Buf} (h : joinFields parts = .ok bytes) :
    bytes = encode (parts.map JsVal.text) ∧ NulFree (parts.map JsVal.text) := by
  unfold joinFields at h
  split at h
  · cases h
  · rename_i hnone
    refine ⟨?_, ?_⟩
    · rw [← Except.ok.inj h, encode, List.map_map]
      rfl
    · intro t ht
      obtain ⟨part, hpart, rfl⟩ := List.mem_map.mp ht
      simpa using List.find?_eq_none.mp hnone part hpart

/-- Texts free of NUL are told apart by the bytes a leaf hashes. -/
theorem encode_inj {texts texts' : List String} (hne : texts ≠ []) (hne' : texts' ≠ [])
    (hfree : NulFree texts) (hfree' : NulFree texts') (h : encode texts = encode texts') :
    texts = texts' := by
  have hjoin := Joined.join_inj_of_free (by simpa using hne) (by simpa using hne')
    (by simpa [NulFree] using hfree) (by simpa [NulFree] using hfree') h
  exact List.map_injective_iff.mpr utf8_injective hjoin

section Leaves
variable {sha256 : Buf → Buf}

/-- The leaves of one kind. -/
theorem mapM_leaf {α : Type} {parts : α → List JsVal} {rows : List α} {leaves : List Buf}
    (h : rows.mapM (fun r => (joinFields (parts r)).map (leafHash sha256)) = .ok leaves) :
    leaves = (rows.map fun r => (parts r).map JsVal.text).map (leafHash sha256 ∘ encode) ∧
      ∀ r ∈ rows, NulFree ((parts r).map JsVal.text) := by
  induction rows generalizing leaves with
  | nil =>
    rw [List.mapM_nil] at h
    obtain rfl := Except.ok.inj h
    simp
  | cons r rows ih =>
    rw [List.mapM_cons] at h
    cases hr : joinFields (parts r) with
    | error e =>
      rw [hr] at h
      cases h
    | ok bytes =>
      obtain ⟨rfl, hfree⟩ := joinFields_eq_ok hr
      cases hrest : rows.mapM fun r => (joinFields (parts r)).map (leafHash sha256) with
      | error e =>
        rw [hr, hrest] at h
        cases h
      | ok rest =>
        rw [hr, hrest] at h
        obtain rfl := Except.ok.inj h
        obtain ⟨rfl, hfrees⟩ := ih hrest
        refine ⟨rfl, ?_⟩
        simpa using ⟨hfree, hfrees⟩

theorem of_bind_eq_ok {α β : Type} {x : Except String α} {f : α → Except String β} {b : β}
    (h : (x >>= f) = .ok b) : ∃ a, x = .ok a ∧ f a = .ok b := by
  cases x with
  | error e => cases h
  | ok a => exact ⟨a, rfl, h⟩

/-- The leaf vector of a bundle hashes its field texts one by one. -/
theorem blockMerkleLeaves_eq_ok {rows : BlockRows} {leaves : List Buf}
    (h : blockMerkleLeaves sha256 rows = .ok leaves) :
    leaves = rows.leafTexts.map (leafHash sha256 ∘ encode) ∧
      ∀ texts ∈ rows.leafTexts, NulFree texts := by
  unfold blockMerkleLeaves at h
  obtain ⟨credits, hcredits, h⟩ := of_bind_eq_ok h
  obtain ⟨debits, hdebits, h⟩ := of_bind_eq_ok h
  obtain ⟨escrows, hescrows, h⟩ := of_bind_eq_ok h
  obtain ⟨actions, hactions, h⟩ := of_bind_eq_ok h
  obtain ⟨contracts, hcontracts, h⟩ := of_bind_eq_ok h
  obtain ⟨state, hstate, h⟩ := of_bind_eq_ok h
  obtain ⟨executions, hexecutions, h⟩ := of_bind_eq_ok h
  obtain ⟨emissions, hemissions, h⟩ := of_bind_eq_ok h
  obtain ⟨deposits, hdeposits, h⟩ := of_bind_eq_ok h
  obtain ⟨withdrawals, hwithdrawals, h⟩ := of_bind_eq_ok h
  obtain ⟨rfl, fcredits⟩ := mapM_leaf hcredits
  obtain ⟨rfl, fdebits⟩ := mapM_leaf hdebits
  obtain ⟨rfl, fescrows⟩ := mapM_leaf hescrows
  obtain ⟨rfl, factions⟩ := mapM_leaf hactions
  obtain ⟨rfl, fcontracts⟩ := mapM_leaf hcontracts
  obtain ⟨rfl, fstate⟩ := mapM_leaf hstate
  obtain ⟨rfl, fexecutions⟩ := mapM_leaf hexecutions
  obtain ⟨rfl, femissions⟩ := mapM_leaf hemissions
  obtain ⟨rfl, fdeposits⟩ := mapM_leaf hdeposits
  obtain ⟨rfl, fwithdrawals⟩ := mapM_leaf hwithdrawals
  obtain rfl := Except.ok.inj h
  constructor
  · simp [BlockRows.leafTexts, Joined.tagged, BlockRows.texts, leafTags, Function.comp_def, JsVal.text,
      LedgerKind.text, List.append_assoc]
  · intro texts htexts
    simp only [BlockRows.leafTexts, Joined.tagged, BlockRows.texts, leafTags, List.zip_cons_cons, List.zip_nil_right,
      List.flatMap_cons, List.flatMap_nil, List.append_nil, List.mem_append, List.map_map,
      List.mem_map] at htexts
    rcases htexts with ⟨r, hr, rfl⟩ | ⟨r, hr, rfl⟩ | ⟨r, hr, rfl⟩ | ⟨r, hr, rfl⟩ | ⟨r, hr, rfl⟩ |
      ⟨r, hr, rfl⟩ | ⟨r, hr, rfl⟩ | ⟨r, hr, rfl⟩ | ⟨r, hr, rfl⟩ | ⟨r, hr, rfl⟩
    · exact fcredits r hr
    · exact fdebits r hr
    · exact fescrows r hr
    · exact factions r hr
    · exact fcontracts r hr
    · exact fstate r hr
    · exact fexecutions r hr
    · exact femissions r hr
    · exact fdeposits r hr
    · exact fwithdrawals r hr

theorem leafTags_apart : leafTags.Pairwise Joined.Apart := by
  simp [leafTags, Joined.Apart]

theorem texts_of_leafTexts {rows rows' : BlockRows} (h : rows.leafTexts = rows'.leafTexts) :
    rows.texts = rows'.texts :=
  Joined.tagged_inj leafTags_apart rfl rfl h

theorem leafTexts_ne_nil {rows : BlockRows} {texts : List String} (h : texts ∈ rows.leafTexts) :
    texts ≠ [] := by
  obtain ⟨tag, htag, x, rfl⟩ := Joined.mem_tagged h
  have hne : ∀ t ∈ leafTags, t ≠ [] := by decide
  exact fun hnil => hne tag htag (List.append_eq_nil_iff.mp hnil).1

/-! ### What the root binds -/

/-- What `EMPTY[0]` hashes. -/
def emptyInput : Buf := 0x02 :: "XCHAIN_EMPTY_LEAF".toList.map fun c => UInt8.ofNat c.toNat

variable (sha256) in
/-- What SHA-256 is applied to for the root of a bundle with these leaves. -/
def blockInputs (rows : BlockRows) (leaves : List Buf) : List Buf :=
  emptyInput :: (rows.leafTexts.map fun texts => 0x00 :: encode texts) ++
    (nextPow2 leaves.length).elim [] fun width =>
      layerInputs sha256 width (padded sha256 (leaves.map .buffer) width)

/-- A root that is returned is the one node above the padded leaves. -/
theorem blockMerkleRoot_eq_some {leaves : List Buf} {root : Buf}
    (h : blockMerkleRoot sha256 leaves = some root) :
    ∃ d, nextPow2 leaves.length = some (2^d) ∧ leaves.length ≤ 2^d ∧
      reduce (nodeHash sha256) d (padded sha256 (leaves.map .buffer) (2^d)) = [root] := by
  unfold blockMerkleRoot at h
  by_cases hne : leaves = []
  · subst hne
    refine ⟨0, by decide, by simp, ?_⟩
    simpa [fixedMerkleRoot, reduce, padded] using h
  · have hne' : leaves.map BufLike.buffer ≠ [] := by simpa using hne
    by_cases hle : leaves.length ≤ 2^30
    · obtain ⟨d, -, hw, hwidth⟩ := nextPow2_spec hle
      obtain ⟨root', hroot, htop⟩ := @fixedMerkleRoot_eq sha256 (leaves.map .buffer) d
        (by simpa using hw) (by simpa using hwidth) hne'
      obtain rfl := Option.some.inj (hroot.symm.trans h)
      exact ⟨d, hw, hwidth, htop⟩
    · rw [fixedMerkleRoot, if_neg hne', List.length_map, nextPow2_eq_none (by omega)] at h
      simp at h

/-- The pairs of a tree over 32-byte values are pairs of 32-byte values. -/
theorem hashed_bytes (hsha : ∀ b, (sha256 b).length = 32) (d : Nat) {layer : List Buf}
    (hlayer : ∀ b ∈ layer, b.length = 32) :
    ∀ p ∈ hashed (nodeHash sha256) d layer, p.1.length = 32 ∧ p.2.length = 32 := by
  induction d generalizing layer with
  | zero => simp [hashed]
  | succ d ih =>
    intro p hp
    rcases List.mem_append.mp hp with hp | hp
    · obtain ⟨hl, hr⟩ := mem_pairs hp
      exact ⟨hlayer _ hl, hlayer _ hr⟩
    · exact ih (length_next_bytes hsha layer) p hp

/-- A pair of 32-byte values that is hashed for one of two roots. -/
def HashedIn (S : Set Buf) (p : Buf × Buf) : Prop :=
  nodeInput p ∈ S ∧ p.1.length = 32 ∧ p.2.length = 32

theorem nodeHash_injOn {S : Set Buf} (hinj : Set.InjOn sha256 S) (p q : Buf × Buf)
    (hp : HashedIn S p) (hq : HashedIn S q)
    (h : nodeHash sha256 p.1 p.2 = nodeHash sha256 q.1 q.2) : p = q := by
  have happend := (List.cons.inj (hinj hp.1 hq.1 h)).2
  obtain ⟨hl, hr⟩ := List.append_inj happend (hp.2.1.trans hq.2.1.symm)
  exact Prod.ext hl hr

/-- A bundle with its leaves, whose hashing stays in a set of inputs. -/
structure Committed (sha256 : Buf → Buf) (S : Set Buf) (rows : BlockRows) (leaves : List Buf) :
    Prop where
  accepted : blockMerkleLeaves sha256 rows = .ok leaves
  inputs : ∀ b ∈ blockInputs sha256 rows leaves, b ∈ S

namespace Committed
variable {S : Set Buf} {rows rows' : BlockRows} {leaves leaves' : List Buf}

theorem leafInput_mem (h : Committed sha256 S rows leaves) {texts : List String}
    (htexts : texts ∈ rows.leafTexts) : 0x00 :: encode texts ∈ S :=
  h.inputs _ (List.mem_append.mpr
    (Or.inl (List.mem_cons_of_mem _ (List.mem_map_of_mem htexts))))

theorem leaf (h : Committed sha256 S rows leaves) {x : Buf} (hx : x ∈ leaves) :
    ∃ texts ∈ rows.leafTexts, x = leafHash sha256 (encode texts) ∧ 0x00 :: encode texts ∈ S := by
  rw [(blockMerkleLeaves_eq_ok h.accepted).1] at hx
  obtain ⟨texts, htexts, rfl⟩ := List.mem_map.mp hx
  exact ⟨texts, htexts, rfl, h.leafInput_mem htexts⟩

theorem empty_mem (h : Committed sha256 S rows leaves) : emptyInput ∈ S :=
  h.inputs _ (List.mem_append.mpr (Or.inl List.mem_cons_self))

/-- No value at the foot of the tree is the hash of a pair. -/
theorem foot (h : Committed sha256 S rows leaves) (hinj : Set.InjOn sha256 S) {width : Nat} :
    ∀ x ∈ padded sha256 (leaves.map .buffer) width, ∀ p, HashedIn S p →
      x ≠ nodeHash sha256 p.1 p.2 := by
  intro x hx p hp heq
  rcases List.mem_append.mp hx with hx | hx
  · rw [List.map_map] at hx
    obtain ⟨y, hy, rfl⟩ := List.mem_map.mp hx
    obtain ⟨texts, -, hleaf, hmem⟩ := h.leaf hy
    have hinput := hinj hmem hp.1 (hleaf.symm.trans heq)
    exact absurd (List.cons.inj hinput).1 (by decide)
  · rw [List.eq_of_mem_replicate hx] at heq
    have hinput := hinj h.empty_mem hp.1 heq
    exact absurd (List.cons.inj hinput).1 (by decide)

theorem hashedIn (h : Committed sha256 S rows leaves) (hsha : ∀ b, (sha256 b).length = 32) {d : Nat}
    (hw : nextPow2 leaves.length = some (2^d)) (hle : leaves.length ≤ 2^d) :
    ∀ p ∈ hashed (nodeHash sha256) d (padded sha256 (leaves.map .buffer) (2^d)), HashedIn S p := by
  intro p hp
  have hbytes : ∀ b ∈ padded sha256 (leaves.map .buffer) (2^d), b.length = 32 := by
    intro b hb
    rcases List.mem_append.mp hb with hb | hb
    · rw [List.map_map] at hb
      obtain ⟨y, hy, rfl⟩ := List.mem_map.mp hb
      obtain ⟨texts, -, rfl, -⟩ := h.leaf hy
      exact hsha _
    · rw [List.eq_of_mem_replicate hb]
      exact hsha _
  refine ⟨h.inputs _ ?_, hashed_bytes hsha d hbytes p hp⟩
  rw [blockInputs, hw, Option.elim_some, layerInputs_eq_hashed (2^d) d Nat.lt_two_pow_self.le
    (length_padded _ (by simpa using hle))]
  exact List.mem_append.mpr (Or.inr (List.mem_map_of_mem hp))

theorem takeWhile_padded (h : Committed sha256 S rows leaves) (hinj : Set.InjOn sha256 S)
    (width : Nat) :
    (padded sha256 (leaves.map .buffer) width).takeWhile (· ≠ emptyLeaf sha256) = leaves := by
  have hleaves : (leaves.map BufLike.buffer).map toBuf = leaves := by
    rw [List.map_map]
    exact List.map_id _
  rw [padded, hleaves, List.takeWhile_append_of_pos]
  · simp
  · intro x hx
    obtain ⟨texts, -, hleaf, hmem⟩ := h.leaf hx
    simp only [decide_eq_true_eq]
    intro heq
    have hinput := hinj hmem h.empty_mem (hleaf.symm.trans heq)
    exact absurd (List.cons.inj hinput).1 (by decide)

/-- Bundles with one root have one leaf vector. -/
theorem leaves_eq (h : Committed sha256 S rows leaves) (h' : Committed sha256 S rows' leaves')
    (hinj : Set.InjOn sha256 S) (hsha : ∀ b, (sha256 b).length = 32) {root : Buf}
    (hroot : blockMerkleRoot sha256 leaves = some root)
    (hroot' : blockMerkleRoot sha256 leaves' = some root) : leaves = leaves' := by
  obtain ⟨d, hw, hle, htop⟩ := blockMerkleRoot_eq_some hroot
  obtain ⟨d', hw', hle', htop'⟩ := blockMerkleRoot_eq_some hroot'
  have hlen := @length_padded sha256 (leaves.map .buffer) (2^d) (by simpa using hle)
  have hlen' := @length_padded sha256 (leaves'.map .buffer) (2^d') (by simpa using hle')
  have hpadded : padded sha256 (leaves.map .buffer) (2^d) =
      padded sha256 (leaves'.map .buffer) (2^d') := by
    rcases Nat.le_total d d' with hdd | hdd
    · exact reduce_inj_of_feet (nodeHash_injOn hinj) hdd hlen hlen' (h.foot hinj)
        (h.hashedIn hsha hw hle) (h'.hashedIn hsha hw' hle') (htop.trans htop'.symm)
    · exact (reduce_inj_of_feet (nodeHash_injOn hinj) hdd hlen' hlen (h'.foot hinj)
        (h'.hashedIn hsha hw' hle') (h.hashedIn hsha hw hle) (htop'.trans htop.symm)).symm
  rw [← h.takeWhile_padded hinj (2^d), ← h'.takeWhile_padded hinj (2^d'), hpadded]

/-- One leaf vector has one list of field texts. -/
theorem leafTexts_eq (h : Committed sha256 S rows leaves) (h' : Committed sha256 S rows' leaves)
    (hinj : Set.InjOn sha256 S) : rows.leafTexts = rows'.leafTexts := by
  obtain ⟨hleaves, hfree⟩ := blockMerkleLeaves_eq_ok h.accepted
  obtain ⟨hleaves', hfree'⟩ := blockMerkleLeaves_eq_ok h'.accepted
  have hlen : rows.leafTexts.length = rows'.leafTexts.length := by
    have := congrArg List.length (hleaves.symm.trans hleaves')
    simpa using this
  apply List.ext_getElem hlen
  intro i hi hi'
  have hmem := List.getElem_mem hi
  have hmem' := List.getElem_mem hi'
  have hget : (rows.leafTexts.map (leafHash sha256 ∘ encode))[i]? =
      (rows'.leafTexts.map (leafHash sha256 ∘ encode))[i]? := by
    rw [← hleaves, ← hleaves']
  rw [List.getElem?_map, List.getElem?_map, List.getElem?_eq_getElem hi,
    List.getElem?_eq_getElem hi'] at hget
  have hbytes := hinj (h.leafInput_mem hmem) (h'.leafInput_mem hmem') (Option.some.inj hget)
  exact encode_inj (leafTexts_ne_nil hmem) (leafTexts_ne_nil hmem') (hfree _ hmem) (hfree' _ hmem')
    (List.cons.inj hbytes).2

end Committed

/-- Accepted bundles with one root have one leaf vector and, kind by kind, rows that write the same
text in every column. -/
theorem block_root_binds_rows {rows rows' : BlockRows} {leaves leaves' : List Buf} {root : Buf}
    (hsha : ∀ b, (sha256 b).length = 32)
    (hinj : Set.InjOn sha256 {b | b ∈ blockInputs sha256 rows leaves ∨
      b ∈ blockInputs sha256 rows' leaves'})
    (haccepted : blockMerkleLeaves sha256 rows = .ok leaves)
    (haccepted' : blockMerkleLeaves sha256 rows' = .ok leaves')
    (hroot : blockMerkleRoot sha256 leaves = some root)
    (hroot' : blockMerkleRoot sha256 leaves' = some root) :
    leaves = leaves' ∧ rows.texts = rows'.texts := by
  let S : Set Buf := {b | b ∈ blockInputs sha256 rows leaves ∨ b ∈ blockInputs sha256 rows' leaves'}
  have h : Committed sha256 S rows leaves := ⟨haccepted, fun b hb => Or.inl hb⟩
  have h' : Committed sha256 S rows' leaves' := ⟨haccepted', fun b hb => Or.inr hb⟩
  have hleaves := h.leaves_eq h' hinj hsha hroot hroot'
  subst hleaves
  exact ⟨rfl, texts_of_leafTexts (h.leafTexts_eq h' hinj)⟩

end Leaves

/-! ### Two bundles -/

def emptyRows : BlockRows :=
  { credits := [], debits := [], escrows := [], actions := [], contracts := [], state := [],
    executions := [], emissions := [], deposits := [], withdrawals := [] }

/-- One credit of the given amount and one action. -/
def creditOf (address amount : JsVal) : BlockRows :=
  { emptyRows with
    credits := [⟨.num "7", address, .str "XCP", amount⟩]
    actions := [⟨.num "7", .num "3", .str "SEND"⟩] }

/-- The rows up to the coercion of null in the coerced columns, kind by kind. -/
def BlockRows.columns (rows : BlockRows) : List (List (List JsVal)) :=
  [rows.credits.map (·.fields), rows.debits.map (·.fields), rows.escrows.map (·.fields),
    rows.actions.map (·.fields), rows.contracts.map (·.fields), rows.state.map (·.fields),
    rows.executions.map (·.fields), rows.emissions.map (·.fields), rows.deposits.map (·.fields),
    rows.withdrawals.map (·.fields)]

/-- The leaves of `creditOf`, for the texts of its credit. -/
def creditLeaves (sha256 : Buf → Buf) (texts : List String) : List Buf :=
  [leafHash sha256 (encode texts), leafHash sha256 (encode ["A", "7", "3", "SEND"])]

theorem blockMerkleLeaves_creditOf (sha256 : Buf → Buf) {address amount : JsVal}
    {texts : List String}
    (h : joinFields (.str "L" :: .str "credit" ::
      (LedgerRow.mk (.num "7") address (.str "XCP") amount).fields) = .ok (encode texts)) :
    blockMerkleLeaves sha256 (creditOf address amount) = .ok (creditLeaves sha256 texts) := by
  have haction : joinFields (.str "A" :: (ActionRow.mk (.num "7") (.num "3") (.str "SEND")).fields) =
      .ok (encode ["A", "7", "3", "SEND"]) := by decide +kernel
  simp only [blockMerkleLeaves, creditOf, emptyRows, List.mapM_cons, List.mapM_nil, ledgerLeaf,
    actionsLeaf, LedgerKind.text, h, haction]
  rfl

theorem blockMerkleRoot_creditLeaves (sha256 : Buf → Buf) (texts : List String) :
    blockMerkleRoot sha256 (creditLeaves sha256 texts) = some (nodeHash sha256
      (leafHash sha256 (encode texts)) (leafHash sha256 (encode ["A", "7", "3", "SEND"]))) := rfl

/-- An amount is not coerced, so null writes the text 'null'. -/
theorem null_amount_shares_root :
    (creditOf .null .null).columns ≠ (creditOf .null (.str "null")).columns ∧
      ∀ sha256 : Buf → Buf, ∃ leaves root,
        blockMerkleLeaves sha256 (creditOf .null .null) = .ok leaves ∧
        blockMerkleLeaves sha256 (creditOf .null (.str "null")) = .ok leaves ∧
        blockMerkleRoot sha256 leaves = some root := by
  refine ⟨by decide, fun sha256 => ?_⟩
  refine ⟨creditLeaves sha256 ["L", "credit", "7", "", "XCP", "null"], _, ?_, ?_,
    blockMerkleRoot_creditLeaves sha256 _⟩
  · exact blockMerkleLeaves_creditOf sha256 (by decide +kernel)
  · exact blockMerkleLeaves_creditOf sha256 (by decide +kernel)

/-- SHA-256 on what the bundle below hashes: the empty leaf, the two leaves and the root. -/
def sampleSha256 (bytes : Buf) : Buf :=
  let credit := numBytes 32 0xa986ce409e4d00b9fb47d089be328ff94c86952444964be40c08fd8d4ba0126f
  let action := numBytes 32 0x78b2aaf21995e9c015bcc6cf743428ff38e1677e3627f1a57763651a7e5ba48
  let table : List (Buf × Buf) :=
    [(emptyInput,
        numBytes 32 0xdd51919d68a9b4fb96baa7b26dcc3c8f4c7d969de0355c3a8b1195d3dcef0e7d),
      (0x00 :: encode ["L", "credit", "7", "", "XCP", "10"], credit),
      (0x00 :: encode ["A", "7", "3", "SEND"], action),
      (0x01 :: (credit ++ action),
        numBytes 32 0xdf673e8a8a0bab5d39423c50a7445f9f2377e26883cf4604e2e5cf737f9b21aa)]
  (table.lookup bytes).getD (numBytes 32 0)

theorem length_sampleSha256 (bytes : Buf) : (sampleSha256 bytes).length = 32 := by
  unfold sampleSha256
  simp only [List.lookup_cons, List.lookup_nil]
  split
  · exact length_numBytes 32 _
  split
  · exact length_numBytes 32 _
  split
  · exact length_numBytes 32 _
  split
  · exact length_numBytes 32 _
  · exact length_numBytes 32 _

/-- A credit to no address and one to the empty address have one root. -/
theorem null_address_bundles_bound :
    blockMerkleLeaves sampleSha256 (creditOf .null (.str "10")) =
        blockMerkleLeaves sampleSha256 (creditOf (.str "") (.num "10")) ∧
      (creditOf .null (.str "10")).texts = (creditOf (.str "") (.num "10")).texts := by
  let leaves := creditLeaves sampleSha256 ["L", "credit", "7", "", "XCP", "10"]
  have haccepted : blockMerkleLeaves sampleSha256 (creditOf .null (.str "10")) = .ok leaves :=
    blockMerkleLeaves_creditOf sampleSha256 (by decide +kernel)
  have haccepted' : blockMerkleLeaves sampleSha256 (creditOf (.str "") (.num "10")) = .ok leaves :=
    blockMerkleLeaves_creditOf sampleSha256 (by decide +kernel)
  have hdistinct : ∀ a ∈ blockInputs sampleSha256 (creditOf .null (.str "10")) leaves ++
        blockInputs sampleSha256 (creditOf (.str "") (.num "10")) leaves,
      ∀ b ∈ blockInputs sampleSha256 (creditOf .null (.str "10")) leaves ++
        blockInputs sampleSha256 (creditOf (.str "") (.num "10")) leaves,
      sampleSha256 a = sampleSha256 b → a = b := by decide +kernel
  refine ⟨haccepted.trans haccepted'.symm, ?_⟩
  refine (block_root_binds_rows length_sampleSha256 ?_ haccepted haccepted'
    (blockMerkleRoot_creditLeaves sampleSha256 _) (blockMerkleRoot_creditLeaves sampleSha256 _)).2
  intro a ha b hb
  exact hdistinct a (List.mem_append.mpr ha) b (List.mem_append.mpr hb)

end XChainSync.Merkle
