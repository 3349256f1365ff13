import Mathlib.Data.List.Forall2
import XChainSync.Checkpoint.Canonical

/-!
# Serving a checkpoint

A row of state_checkpoints goes through the column list of the reads, the serializer of the routes
and JSON before a client sees it. `supersedes_from` and `rules_digest` are on neither list, so a
row signed over them is served without bytes its canonical holds.
-/

namespace XChainSync.Checkpoint
open Client (JsVal)
set_option autoImplicit false

inductive Column where
  | chain
  | network
  | block_index
  | block_hash
  | ledger_hash
  | actions_hash
  | contract_hash
  | checkpoint_seq
  | snapshot_block
  | state_root
  | state_root_version
  | block_merkle_root
  | block_merkle_version
  | supersedes_from
  | rules_digest
  | validator_signatures
  deriving DecidableEq, Repr

/-- A stored row of state_checkpoints. -/
structure CheckpointRow where
  chain : String
  network : String
  block_index : Int
  block_hash : Option String
  ledger_hash : Option String
  actions_hash : Option String
  contract_hash : Option String
  checkpoint_seq : Int
  snapshot_block : Int
  state_root : Option String
  state_root_version : Option Int
  block_merkle_root : Option String
  block_merkle_version : Option Int
  supersedes_from : Option Int
  rules_digest : Option String
  validator_signatures : String
  deriving DecidableEq, Repr

/-- The texts of numbers that JSON writes as null. -/
def nonFinite (t : String) : Bool := t = "NaN" || t = "Infinity" || t = "-Infinity"

/-- The database driver, which reads an integer column as a number, and the conversions of the
language on both ends. -/
structure Driver where
  /-- `String()` of the number an integer is read as. -/
  intText : Int → String
  intText_finite : ∀ n, nonFinite (intText n) = false
  /-- `String(Number(v))` of a value that is no number. -/
  convert : JsVal → String
  /-- The signature array of a column, parsed where it is a text. -/
  parseSignatures : JsVal → List Signature

/-- An object with the columns as fields; a missing one reads undefined. -/
abbrev Record := Column → JsVal

namespace Driver
variable (dr : Driver)

def readInt (n : Int) : JsVal := .num (dr.intText n)

/-- `Number(v)`. -/
def number : JsVal → JsVal
  | .num t => .num t
  | v => .num (dr.convert v)

/-- `v == null ? null : Number(v)`. -/
def numberOrNull (v : JsVal) : JsVal := if v.nullish then .null else dr.number v

end Driver

def readText (s : Option String) : JsVal := s.elim .null .str

/-- The whole row as the driver reads it. -/
def CheckpointRow.record (dr : Driver) (row : CheckpointRow) : Record
  | .chain => .str row.chain
  | .network => .str row.network
  | .block_index => dr.readInt row.block_index
  | .block_hash => readText row.block_hash
  | .ledger_hash => readText row.ledger_hash
  | .actions_hash => readText row.actions_hash
  | .contract_hash => readText row.contract_hash
  | .checkpoint_seq => dr.readInt row.checkpoint_seq
  | .snapshot_block => dr.readInt row.snapshot_block
  | .state_root => readText row.state_root
  | .state_root_version => row.state_root_version.elim .null dr.readInt
  | .block_merkle_root => readText row.block_merkle_root
  | .block_merkle_version => row.block_merkle_version.elim .null dr.readInt
  | .supersedes_from => row.supersedes_from.elim .null dr.readInt
  | .rules_digest => readText row.rules_digest
  | .validator_signatures => .str row.validator_signatures

/-- A record as the verifier reads it; no column is called fold_archive. -/
def Record.body (dr : Driver) (r : Record) : Body where
  chain := r .chain
  network := r .network
  block_index := r .block_index
  block_hash := r .block_hash
  ledger_hash := r .ledger_hash
  actions_hash := r .actions_hash
  contract_hash := r .contract_hash
  checkpoint_seq := r .checkpoint_seq
  snapshot_block := r .snapshot_block
  state_root := r .state_root
  block_merkle_root := r .block_merkle_root
  state_root_version := r .state_root_version
  block_merkle_version := r .block_merkle_version
  supersedes_from := r .supersedes_from
  rules_digest := r .rules_digest
  fold_archive := none
  validator_signatures := dr.parseSignatures (r .validator_signatures)

def CHECKPOINT_COLS : List Column :=
  [.chain, .network, .block_index, .block_hash, .ledger_hash, .actions_hash, .contract_hash,
    .checkpoint_seq, .snapshot_block, .state_root, .state_root_version, .block_merkle_root,
    .block_merkle_version, .validator_signatures]

/-- `SELECT cols` of a row. -/
def Record.select (cols : List Column) (r : Record) : Record :=
  fun c => if c ∈ cols then r c else .undefined

def serializeCheckpoint (dr : Driver) (r : Record) : Record
  | .chain => r .chain
  | .network => r .network
  | .block_index => dr.number (r .block_index)
  | .block_hash => r .block_hash
  | .ledger_hash => r .ledger_hash
  | .actions_hash => r .actions_hash
  | .contract_hash => r .contract_hash
  | .checkpoint_seq => dr.number (r .checkpoint_seq)
  | .snapshot_block => dr.number (r .snapshot_block)
  | .state_root => r .state_root
  | .state_root_version => dr.numberOrNull (r .state_root_version)
  | .block_merkle_root => r .block_merkle_root
  | .block_merkle_version => dr.numberOrNull (r .block_merkle_version)
  | .validator_signatures => r .validator_signatures
  | .supersedes_from => .undefined
  | .rules_digest => .undefined

/-- `JSON.parse(JSON.stringify(v))` of a field. -/
def jsonValue : JsVal → JsVal
  | .num t => if nonFinite t then .null else .num t
  | v => v

/-- The body a client parses from the answer a row is served with. -/
def CheckpointRow.served (dr : Driver) (row : CheckpointRow) : Body :=
  Record.body dr fun c => jsonValue (serializeCheckpoint dr ((row.record dr).select CHECKPOINT_COLS) c)

/-- The checkpoint as the federation signed it: the whole row. -/
def CheckpointRow.signed (dr : Driver) (row : CheckpointRow) : Body := (row.record dr).body dr

/-! ### The routes -/

def inScope (chain network : String) (row : CheckpointRow) : Bool :=
  row.chain = chain && row.network = network

/-- `ORDER BY block_index DESC, checkpoint_seq DESC`. -/
def newestFirst (a b : CheckpointRow) : Bool :=
  b.block_index < a.block_index ||
    (a.block_index = b.block_index && b.checkpoint_seq ≤ a.checkpoint_seq)

def getLatestCheckpoint (table : List CheckpointRow) (chain network : String) :
    List CheckpointRow :=
  ((table.filter (inScope chain network)).mergeSort newestFirst).take 1

/-- The newest checkpoint of its chain, network and height. -/
def isMaxSeq (table : List CheckpointRow) (row : CheckpointRow) : Bool :=
  table.all fun other => !inScope row.chain row.network other || other.block_index ≠ row.block_index ||
    other.checkpoint_seq ≤ row.checkpoint_seq

def findCheckpointsInRange (table : List CheckpointRow) (chain network : String) (first last : Int)
    (limit : Nat) : List CheckpointRow :=
  ((table.filter fun row => inScope chain network row && first ≤ row.block_index &&
    row.block_index ≤ last && isMaxSeq table row).mergeSort
      fun a b => a.block_index ≤ b.block_index).take limit

def getCheckpointAtHeight (table : List CheckpointRow) (chain network : String) (height : Int) :
    List CheckpointRow :=
  ((table.filter fun row => inScope chain network row && row.block_index = height).mergeSort
    fun a b => b.checkpoint_seq ≤ a.checkpoint_seq).take 1

def CHECKPOINT_RANGE_LIMIT : Nat := 2000

inductive Route where
  | latest
  | range (first last : Int)
  | height (h : Int)
  deriving DecidableEq, Repr

namespace Route
variable (dr : Driver) (table : List CheckpointRow) (chain network : String)

/-- The rows a route reads. -/
def rows : Route → List CheckpointRow
  | latest => getLatestCheckpoint table chain network
  | range first last => findCheckpointsInRange table chain network first last CHECKPOINT_RANGE_LIMIT
  | height h => getCheckpointAtHeight table chain network h

/-- The bodies a client receives. -/
def answer (route : Route) : List Body := (route.rows table chain network).map (·.served dr)

end Route

/-! ### What is served against what was signed -/

/-- A body without its supersession. -/
def Body.withoutSupersede (cp : Body) : Body :=
  { cp with supersedes_from := .undefined, rules_digest := .undefined }

@[simp] theorem hasSupersedeFields_withoutSupersede (cp : Body) :
    Verifier.hasSupersedeFields cp.withoutSupersede = false := rfl

@[simp] theorem jsonValue_str (s : String) : jsonValue (.str s) = .str s := rfl

@[simp] theorem jsonValue_undefined : jsonValue .undefined = .undefined := rfl

@[simp] theorem jsonValue_readInt (dr : Driver) (n : Int) :
    jsonValue (dr.readInt n) = dr.readInt n := by
  simp [Driver.readInt, jsonValue, dr.intText_finite n]

@[simp] theorem jsonValue_readText (s : Option String) : jsonValue (readText s) = readText s := by
  cases s <;> rfl

@[simp] theorem number_readInt (dr : Driver) (n : Int) : dr.number (dr.readInt n) = dr.readInt n :=
  rfl

@[simp] theorem jsonValue_version (dr : Driver) (v : Option Int) :
    jsonValue (dr.numberOrNull (v.elim .null dr.readInt)) = v.elim .null dr.readInt := by
  cases v with
  | none => rfl
  | some n => exact jsonValue_readInt dr n

/-- Every column but the two is served as it is read. -/
theorem served_eq (dr : Driver) (row : CheckpointRow) :
    row.served dr = (row.signed dr).withoutSupersede := by
  simp [CheckpointRow.served, CheckpointRow.signed, Record.body, Body.withoutSupersede,
    serializeCheckpoint, Record.select, CHECKPOINT_COLS, CheckpointRow.record]

section Canonical
variable {N : Type} {vf : Verifier N}

/-- A signed supersession makes the canonical longer. -/
theorem length_supersession (vf : Verifier N) (cp : Body) (u : SignedSupersession) :
    ("|".intercalate (vf.signedWith cp none).fields).length <
      ("|".intercalate (vf.signedWith cp (some u)).fields).length := by
  have hfields : ∀ s : Signed, "|".intercalate s.fields = _ := fun s =>
    (Verifier.intercalate_header s (by simp)).trans
      (by rw [Verifier.intercalate_sections s (by simp)])
  rw [hfields, hfields]
  unfold Verifier.signedWith
  have hsuffix : 0 < "|SUPERSEDE|".length := by decide
  cases vf.gates.equivHeader cp.snapshot_block cp.network
  all_goals
    simp only [Verifier.buildEquivCanonical, String.length_append, String.length_empty,
      Option.elim_some, Option.elim_none, if_true, if_false, Bool.false_eq_true]
    omega

/-- The supersession is among the bytes exactly when its flag day has come and a field is set. -/
theorem canonical_withoutSupersede_iff (cp : Body) :
    vf.canonicalCheckpoint cp.withoutSupersede = vf.canonicalCheckpoint cp ↔
      ¬(vf.gates.supersede cp.snapshot_block cp.network = true ∧
        Verifier.hasSupersedeFields cp = true) := by
  have hwithout : vf.canonicalCheckpoint cp.withoutSupersede =
      .ok ("|".intercalate (vf.signedWith cp none).fields) := by
    rw [Verifier.canonicalCheckpoint_eq]
    simp [Verifier.signed, Verifier.signedSupersession, Except.map]
    rfl
  rw [hwithout, Verifier.canonicalCheckpoint_eq, Verifier.signed, Verifier.signedSupersession,
    ← Bool.and_eq_true]
  cases hgate : vf.gates.supersede cp.snapshot_block cp.network && Verifier.hasSupersedeFields cp with
  | false => simp [Except.map]
  | true =>
    cases vf.supersession cp with
    | error e => simp [Except.map]
    | ok u =>
      have hlength := length_supersession vf cp u
      simp only [if_true, Except.map, Except.ok.injEq, not_true, iff_false]
      intro heq
      rw [heq] at hlength
      exact absurd hlength (lt_irrefl _)

/-- A body that verifies does so without a supersession its canonical has no bytes of. -/
theorem verifyCheckpoint_withoutSupersede {cp : Body} {vset : ValidatorSet}
    (hsame : vf.canonicalCheckpoint cp.withoutSupersede = vf.canonicalCheckpoint cp)
    (h : (vf.verifyCheckpoint cp vset).valid = true) :
    (vf.verifyCheckpoint cp.withoutSupersede vset).valid = true := by
  obtain ⟨-, hmissing, hdisallowed⟩ := Verifier.verifyCheckpoint_valid h
  have htry : vf.tryCanonicalCheckpoint cp.withoutSupersede = vf.tryCanonicalCheckpoint cp := by
    rw [Verifier.tryCanonicalCheckpoint, hsame, Verifier.tryCanonicalCheckpoint]
  have hmissing' : vf.commitmentMissing cp.withoutSupersede = false := hmissing
  have hdisallowed' : vf.supersessionDisallowed cp.withoutSupersede = false := rfl
  unfold Verifier.verifyCheckpoint at h ⊢
  rw [htry, hmissing', hdisallowed']
  rw [hmissing, hdisallowed] at h
  exact h

end Canonical

/-- What the routes promise of a row: its signed bytes, and with them every quorum on it. -/
def KeepsSigned {N : Type} (vf : Verifier N) (signed served : Body) : Prop :=
  vf.canonicalCheckpoint served = vf.canonicalCheckpoint signed ∧
    ∀ vset, (vf.verifyCheckpoint signed vset).valid = true →
      (vf.verifyCheckpoint served vset).valid = true

/-- The canonical of a row holds a supersession. -/
def SignsSupersession {N : Type} (vf : Verifier N) (cp : Body) : Prop :=
  vf.gates.supersede cp.snapshot_block cp.network = true ∧ Verifier.hasSupersedeFields cp = true

instance {N : Type} (vf : Verifier N) (cp : Body) : Decidable (SignsSupersession vf cp) := by
  unfold SignsSupersession
  infer_instance

/-- Row by row, every route keeps the signed bytes of exactly the rows that sign no supersession. -/
theorem route_keeps_signed_iff {N : Type} (vf : Verifier N) (dr : Driver)
    (table : List CheckpointRow) (chain network : String) (route : Route) :
    List.Forall₂ (fun row body => KeepsSigned vf (row.signed dr) body ↔
        ¬SignsSupersession vf (row.signed dr))
      (route.rows table chain network) (route.answer dr table chain network) := by
  unfold Route.answer
  rw [List.forall₂_map_right_iff, List.forall₂_same]
  intro row _
  rw [served_eq]
  constructor
  · intro hkeeps
    exact (canonical_withoutSupersede_iff _).mp hkeeps.1
  · intro hnone
    have hsame := (canonical_withoutSupersede_iff _).mpr hnone
    exact ⟨hsame, fun _ hvalid => verifyCheckpoint_withoutSupersede hsame hvalid⟩

/-! ### A superseding row on each route -/

theorem digit_of_mem_toString {n : Int} {c : Char} (hc : c ∈ (toString n).toList) :
    c.isDigit = true ∨ c = '-' := by
  rw [Int.toString_eq_repr] at hc
  cases n with
  | ofNat m =>
    simp only [Int.repr, Nat.repr, String.toList_ofList] at hc
    exact .inl (Nat.isDigit_of_mem_toDigits (by decide) (by decide) hc)
  | negSucc m =>
    simp only [Int.repr, Nat.repr, String.toList_append, List.mem_append, String.toList_ofList] at hc
    rcases hc with hc | hc
    · exact .inr (by simpa using hc)
    · exact .inl (Nat.isDigit_of_mem_toDigits (by decide) (by decide) hc)

theorem nonFinite_toString (n : Int) : nonFinite (toString n) = false := by
  have hletter : ∀ t, nonFinite t = true → ∃ c ∈ t.toList, ¬(c.isDigit = true ∨ c = '-') := by
    intro t ht
    simp only [nonFinite, Bool.or_eq_true, decide_eq_true_eq] at ht
    rcases ht with (rfl | rfl) | rfl
    · exact ⟨'N', by decide⟩
    · exact ⟨'I', by decide⟩
    · exact ⟨'I', by decide⟩
  rw [Bool.eq_false_iff]
  intro hnon
  obtain ⟨c, hc, hnot⟩ := hletter _ hnon
  exact hnot (digit_of_mem_toString hc)

def wireDriver : Driver where
  intText := toString
  intText_finite := nonFinite_toString
  convert _ := "NaN"
  parseSignatures _ := [⟨"key", "key"⟩]

/-- A regtest row that supersedes from block 100. -/
def supersedingRow : CheckpointRow where
  chain := "BTC"
  network := "regtest"
  block_index := 120
  block_hash := some "hash"
  ledger_hash := some "ledger"
  actions_hash := some "actions"
  contract_hash := some "contract"
  checkpoint_seq := 7
  snapshot_block := 110
  state_root := some "root"
  state_root_version := some 1
  block_merkle_root := some "merkle"
  block_merkle_version := some 1
  supersedes_from := some 100
  rules_digest := some (String.ofList (List.replicate 64 'a'))
  validator_signatures := "[]"

/-- A route that serves the row serves it without the supersession it was signed with. -/
theorem served_without_supersession {route : Route}
    (hserved : route.answer wireDriver [supersedingRow] "BTC" "regtest" =
      [supersedingRow.served wireDriver]) :
    ∃ body, route.answer wireDriver [supersedingRow] "BTC" "regtest" = [body] ∧
      (registryVerifier.tryCanonicalCheckpoint (supersedingRow.signed wireDriver)).isSome = true ∧
      ¬KeepsSigned registryVerifier (supersedingRow.signed wireDriver) body := by
  have hsigns : SignsSupersession registryVerifier (supersedingRow.signed wireDriver) := by
    decide +kernel
  refine ⟨supersedingRow.served wireDriver, hserved, by decide +kernel, ?_⟩
  rw [served_eq]
  intro hkeeps
  exact (canonical_withoutSupersede_iff _).mp hkeeps.1 hsigns

/-- Every route serves it. -/
theorem superseding_row_loses_its_bytes :
    (∃ body, Route.latest.answer wireDriver [supersedingRow] "BTC" "regtest" = [body] ∧
      (registryVerifier.tryCanonicalCheckpoint (supersedingRow.signed wireDriver)).isSome = true ∧
      ¬KeepsSigned registryVerifier (supersedingRow.signed wireDriver) body) ∧
    (∃ body, (Route.range 100 130).answer wireDriver [supersedingRow] "BTC" "regtest" = [body] ∧
      (registryVerifier.tryCanonicalCheckpoint (supersedingRow.signed wireDriver)).isSome = true ∧
      ¬KeepsSigned registryVerifier (supersedingRow.signed wireDriver) body) ∧
    (∃ body, (Route.height 120).answer wireDriver [supersedingRow] "BTC" "regtest" = [body] ∧
      (registryVerifier.tryCanonicalCheckpoint (supersedingRow.signed wireDriver)).isSome = true ∧
      ¬KeepsSigned registryVerifier (supersedingRow.signed wireDriver) body) := by
  refine ⟨served_without_supersession ?_, served_without_supersession ?_,
    served_without_supersession ?_⟩
  · decide +kernel
  · decide +kernel
  · decide +kernel

end XChainSync.Checkpoint
