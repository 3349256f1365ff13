import Mathlib
import XChainSync.Client.Events

/-!
# Checkpoints and their verification

A served checkpoint is JSON: every field is an arbitrary value. The conversions of the language
(`Number()`, `x + 1`, lower case), the flag-day registry, Ed25519 and the stake threshold are
parameters; the canonical string and the checks around them are the code's own.
-/

namespace XChainSync.Checkpoint
open Client (JsVal)
set_option autoImplicit false

/-- `Number()` and its relatives on served values, with values of a linear order: none is NaN,
which JSON cannot carry as a number. -/
structure Js (N : Type) where
  number : JsVal → Option N
  /-- `x + 1` on a number. -/
  plusOne : JsVal → JsVal
  /-- `Number(x)` as text where it is a non-negative safe integer. -/
  natural : JsVal → Option String
  /-- `Math.max(0, Math.floor(Number(x)) - CANONICAL_REORG_BUFFER)`. -/
  bury : JsVal → JsVal
  lower : String → String
  number_num : ∀ t, (number (.num t)).isSome

/-- The flag days, by a snapshot_block and a network. -/
structure Gates where
  commitment : JsVal → JsVal → Bool
  supersede : JsVal → JsVal → Bool
  equivHeader : JsVal → JsVal → Bool
  stakeWeighted : JsVal → JsVal → Bool
  snapshotBurial : JsVal → String → Bool

structure FoldArchive where
  match_batch_seq : JsVal
  match_count : JsVal
  batch_crc32 : JsVal
  total_chunks : JsVal
  deriving DecidableEq, Repr

structure Signature where
  pubkey : String
  sig : String
  deriving DecidableEq, Repr

/-- A checkpoint body. `validator_signatures` is the array after its parse, empty where it is
malformed; `fold_archive` is none where it is null or missing. -/
structure Body where
  chain : JsVal
  network : JsVal
  block_index : JsVal
  block_hash : JsVal
  ledger_hash : JsVal
  actions_hash : JsVal
  contract_hash : JsVal
  checkpoint_seq : JsVal
  snapshot_block : JsVal
  state_root : JsVal
  block_merkle_root : JsVal
  state_root_version : JsVal
  block_merkle_version : JsVal
  supersedes_from : JsVal
  rules_digest : JsVal
  fold_archive : Option FoldArchive
  validator_signatures : List Signature
  deriving DecidableEq, Repr

structure Validator where
  pubkey : String
  weight : String
  source : String
  deriving DecidableEq, Repr

structure ValidatorSet where
  entries : List Validator
  truncated : Bool
  deriving DecidableEq, Repr

/-- What the verifier is given by code and data outside it. -/
structure Verifier (N : Type) where
  js : Js N
  gates : Gates
  /-- Ed25519 over a payload, by signature and public key. -/
  verifySignature : String → String → String → Bool
  meetsStakeThreshold : ValidatorSet → List String → Bool
  /-- `Number(w)` is finite and not negative, for a weight. -/
  isWeight : String → Bool
  isDigest : String → Bool

section Values
variable {N : Type} [LinearOrder N]

/-- `x < y`, false where one is NaN. -/
def numLt : Option N → Option N → Bool
  | some x, some y => x < y
  | _, _ => false

def numLe : Option N → Option N → Bool
  | some x, some y => x ≤ y
  | _, _ => false

/-- `a < b` where one side is a number. -/
def Js.lt (js : Js N) (a b : JsVal) : Bool := numLt (js.number a) (js.number b)

/-- `a <= b` where one side is a number. -/
def Js.le (js : Js N) (a b : JsVal) : Bool := numLe (js.number a) (js.number b)

end Values

/-- `typeof x === 'number'`. -/
def isNumber : JsVal → Bool
  | .num _ => true
  | _ => false

/-- `!x`. -/
def falsy : JsVal → Bool
  | .undefined => true
  | .null => true
  | .bool b => !b
  | .num t => t = "0" || t = "NaN"
  | .str s => s = ""
  | .obj _ _ => false

/-- The text `Array.join` gives an element. -/
def joinText (v : JsVal) : String := if v.nullish then "" else v.text

theorem nullish_of_not_falsy {v : JsVal} (h : falsy v = false) : v.nullish = false := by
  cases v <;> simp_all [falsy, JsVal.nullish]

namespace Verifier
variable {N : Type} (vf : Verifier N)

def lowerText (v : JsVal) : String := vf.js.lower v.text

def hasSupersedeFields (cp : Body) : Bool :=
  !cp.supersedes_from.nullish || !cp.rules_digest.nullish

def supersedeSuffix (cp : Body) : Except String String :=
  let hasFrom := !cp.supersedes_from.nullish
  let hasDigest := !cp.rules_digest.nullish
  if !hasFrom && !hasDigest then .ok ""
  else if !hasFrom || !hasDigest then
    .error "checkpoint supersession requires supersedes_from and rules_digest"
  else match vf.js.natural cp.supersedes_from, cp.rules_digest with
    | none, _ => .error "supersedes_from must be a non-negative safe integer"
    | some fromText, .str digest =>
      if vf.isDigest digest then .ok ("|SUPERSEDE|" ++ fromText ++ "|" ++ vf.js.lower digest)
      else .error "rules_digest must be 64 hexadecimal characters"
    | some _, _ => .error "rules_digest must be 64 hexadecimal characters"

def commitmentActive (cp : Body) : Bool := vf.gates.commitment cp.snapshot_block cp.network

def commitmentMissing (cp : Body) : Bool :=
  vf.commitmentActive cp && (falsy cp.state_root || falsy cp.block_merkle_root ||
    cp.state_root_version.nullish || cp.block_merkle_version.nullish)

def supersessionDisallowed (cp : Body) : Bool :=
  hasSupersedeFields cp && !vf.gates.supersede cp.snapshot_block cp.network

def buildEquivCanonical (engineTag roundId view content : String) : String :=
  "EQUIV|" ++ (engineTag ++ "|" ++ roundId ++ "|" ++ view) ++ "||" ++ content

def canonicalCheckpoint (cp : Body) : Except String String := do
  let raw := "|".intercalate ["XCHECKPOINT", joinText cp.chain, joinText cp.network,
    cp.block_index.text, joinText cp.block_hash, joinText cp.ledger_hash,
    joinText cp.actions_hash, joinText cp.contract_hash, cp.checkpoint_seq.text,
    cp.snapshot_block.text]
  let raw :=
    if vf.commitmentActive cp && !cp.state_root.nullish && !cp.block_merkle_root.nullish &&
      !cp.state_root_version.nullish && !cp.block_merkle_version.nullish then
      raw ++ "|" ++ "|".intercalate [vf.lowerText cp.state_root, cp.state_root_version.text,
        vf.lowerText cp.block_merkle_root, cp.block_merkle_version.text]
    else raw
  let raw ←
    if vf.gates.supersede cp.snapshot_block cp.network && hasSupersedeFields cp then
      (vf.supersedeSuffix cp).map (raw ++ ·)
    else .ok raw
  let raw := match cp.fold_archive with
    | none => raw
    | some fold => raw ++ "|" ++ "|".intercalate [fold.match_batch_seq.text, fold.match_count.text,
        vf.lowerText fold.batch_crc32, fold.total_chunks.text]
  if vf.gates.equivHeader cp.snapshot_block cp.network then
    return buildEquivCanonical "XCHECKPOINT"
      (cp.chain.text ++ "|" ++ cp.network.text ++ "|" ++ cp.block_index.text ++ "|" ++
        cp.checkpoint_seq.text ++ (match cp.fold_archive with
          | none => ""
          | some fold => "|" ++ fold.match_batch_seq.text)) "0" raw
  else return raw

def tryCanonicalCheckpoint (cp : Body) : Option String := (vf.canonicalCheckpoint cp).toOption

def isWeightedEntry (v : Validator) : Bool :=
  v.source.trimAscii.toString ≠ "" && v.weight.trimAscii.toString ≠ "" && vf.isWeight v.weight

structure Verification where
  valid : Bool
  validSigs : Nat
  quorum : Nat
  weighted : Bool
  canonical : Option String
  deriving DecidableEq, Repr

/-- The 2f + 1 of n validators, and a majority. -/
def countQuorum (n : Nat) : Nat := if n ≤ 1 then 1 else max (2 * ((n - 1) / 3) + 1) ((n + 2) / 2)

/-- The signers whose signatures verify, each once; a key counts as seen only then. -/
def validSigners (canonical : String) (qualified : List String) (sigs : List Signature) :
    List String :=
  sigs.foldl (fun seen s =>
    let pk := vf.js.lower s.pubkey
    if pk = "" || seen.contains pk || !qualified.contains pk then seen
    else if vf.verifySignature canonical s.sig pk then seen ++ [pk] else seen) []

def verifyCheckpoint (cp : Body) (vset : ValidatorSet) : Verification :=
  let qualified := (vset.entries.map fun v => vf.js.lower v.pubkey).dedup
  let quorum := countQuorum qualified.length
  let weighted := vf.gates.stakeWeighted cp.snapshot_block cp.network
  match vf.tryCanonicalCheckpoint cp with
  | none => ⟨false, 0, quorum, weighted, none⟩
  | some canonical =>
    if vf.commitmentMissing cp || vf.supersessionDisallowed cp then
      ⟨false, 0, quorum, weighted, some canonical⟩
    else
      let signers := vf.validSigners canonical qualified cp.validator_signatures
      let valid :=
        if weighted then
          !vset.entries.isEmpty && vset.entries.all vf.isWeightedEntry &&
            vf.meetsStakeThreshold vset signers
        else !qualified.isEmpty && quorum ≤ signers.length
      ⟨valid, signers.length, quorum, weighted, some canonical⟩

/-- A checkpoint that verifies has a canonical form and the fields the commitment asks for. -/
theorem verifyCheckpoint_valid {vf : Verifier N} {cp : Body} {vset : ValidatorSet}
    (h : (vf.verifyCheckpoint cp vset).valid = true) :
    (vf.tryCanonicalCheckpoint cp).isSome ∧ vf.commitmentMissing cp = false ∧
      vf.supersessionDisallowed cp = false := by
  unfold verifyCheckpoint at h
  dsimp only at h
  cases hc : vf.tryCanonicalCheckpoint cp with
  | none =>
    rw [hc] at h
    simp at h
  | some canonical =>
    rw [hc] at h
    dsimp only at h
    split at h
    · simp at h
    · rename_i hmissing
      simp only [Bool.or_eq_true, not_or, Bool.not_eq_true] at hmissing
      exact ⟨rfl, hmissing.1, hmissing.2⟩

/-- The roots of a checkpoint whose commitment is active and complete are all there. -/
theorem roots_of_commitment {vf : Verifier N} {cp : Body} (hactive : vf.commitmentActive cp = true)
    (h : vf.commitmentMissing cp = false) :
    cp.state_root.nullish = false ∧ cp.block_merkle_root.nullish = false ∧
      cp.state_root_version.nullish = false ∧ cp.block_merkle_version.nullish = false := by
  simp only [commitmentMissing, hactive, Bool.true_and, Bool.or_eq_false_iff] at h
  exact ⟨nullish_of_not_falsy h.1.1.1, nullish_of_not_falsy h.1.1.2, h.1.2, h.2⟩

end Verifier

end XChainSync.Checkpoint
