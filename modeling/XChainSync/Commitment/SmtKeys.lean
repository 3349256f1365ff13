import Mathlib
import XChainSync.Library.Decimals
import XChainSync.Commitment.Balances

/-!
# The keys of the sub-trees

`smtKey` of src/merkle/primitives.js and the four kinds of key that are derived with it. The index
of a contract comes from a driver as a number, a text or a bigint, and is written out as its
decimals in each case.
-/

namespace XChainSync.Commitment.SmtKeys
open Merkle
open Client (JsVal)
set_option autoImplicit false

universe u

/-- A contract index as a driver gives it, a number only where it is a safe integer. -/
inductive ContractIndex where
  | number (n : Nat) (safe : n < 2 ^ 53)
  | string (n : Nat)
  | bigint (n : Nat)

def ContractIndex.value : ContractIndex → Nat
  | number n _ | string n | bigint n => n

/-- `String(contractIndex)`. -/
def ContractIndex.text (i : ContractIndex) : String := toString i.value

section Keys
variable {Digest : Type u} (sha256 : Buf → Digest)

def smtKey (domainTag : String) (fields : List JsVal) : Except String Digest :=
  (joinFields (.str domainTag :: fields)).map sha256

def balanceKey (chain network address tick : JsVal) : Except String Digest :=
  smtKey sha256 "XCHAIN_BAL" [chain, network, address, tick]

def escrowKey (chain network address tick : JsVal) : Except String Digest :=
  smtKey sha256 "XCHAIN_ESC" [chain, network, address, tick]

def stakeKey (pubkey capability : JsVal) : Except String Digest :=
  smtKey sha256 "XCHAIN_STK" [pubkey, capability]

def contractStateKey (chain network : JsVal) (contractIndex : ContractIndex) (stateKey : JsVal) :
    Except String Digest :=
  smtKey sha256 "XCHAIN_CST" [chain, network, .str contractIndex.text, stateKey]

end Keys

def STAKE_TOTAL_PUBKEY : String := "__total__"

/-- A call of one of the four derivations. -/
inductive KeyCall where
  | balance (chain network address tick : JsVal)
  | escrow (chain network address tick : JsVal)
  | stake (pubkey capability : JsVal)
  | contractState (chain network : JsVal) (contractIndex : ContractIndex) (stateKey : JsVal)

namespace KeyCall

def key {Digest : Type u} (sha256 : Buf → Digest) : KeyCall → Except String Digest
  | balance chain network address tick => balanceKey sha256 chain network address tick
  | escrow chain network address tick => escrowKey sha256 chain network address tick
  | stake pubkey capability => stakeKey sha256 pubkey capability
  | contractState chain network contractIndex stateKey =>
    contractStateKey sha256 chain network contractIndex stateKey

def tag : KeyCall → String
  | balance .. => "XCHAIN_BAL"
  | escrow .. => "XCHAIN_ESC"
  | stake .. => "XCHAIN_STK"
  | contractState .. => "XCHAIN_CST"

/-- The field texts that are joined after the tag. -/
def fields : KeyCall → List String
  | balance chain network address tick | escrow chain network address tick =>
    [chain.text, network.text, address.text, tick.text]
  | stake pubkey capability => [pubkey.text, capability.text]
  | contractState chain network contractIndex stateKey =>
    [chain.text, network.text, contractIndex.text, stateKey.text]

/-- One derivation with one tuple of arguments: fields are told apart as texts, and a contract index
as a value. -/
def Same : KeyCall → KeyCall → Prop
  | balance c n a t, balance c' n' a' t' | escrow c n a t, escrow c' n' a' t' =>
    c.text = c'.text ∧ n.text = n'.text ∧ a.text = a'.text ∧ t.text = t'.text
  | stake p c, stake p' c' => p.text = p'.text ∧ c.text = c'.text
  | contractState c n i k, contractState c' n' i' k' =>
    c.text = c'.text ∧ n.text = n'.text ∧ i.value = i'.value ∧ k.text = k'.text
  | _, _ => False

theorem nulFree_tag (a : KeyCall) : (0x00 : UInt8) ∉ utf8 a.tag := by
  have htags : ∀ t ∈ ["XCHAIN_BAL", "XCHAIN_ESC", "XCHAIN_STK", "XCHAIN_CST"],
      (0x00 : UInt8) ∉ utf8 t := by decide
  apply htags
  cases a <;> simp [tag]

/-- The decimals of an index have no NUL. -/
theorem index_nulFree (i : ContractIndex) : (0x00 : UInt8) ∉ utf8 i.text := by
  have hdigit : ∀ c : Char, c.isDigit = true → (0x00 : UInt8) ∉ String.utf8EncodeChar c := by
    intro c hc
    obtain ⟨hlo, hhi⟩ := Decimals.isDigit_iff.mp hc
    have hofNat : c = Char.ofNat c.toNat := (Char.ofNat_toNat c).symm
    generalize c.toNat = n at *
    subst hofNat
    interval_cases n <;> decide
  have hbytes : utf8 i.text = (Nat.toDigits 10 i.value).flatMap String.utf8EncodeChar := by
    rw [ContractIndex.text, Nat.toString_eq_repr, Nat.repr_eq_ofList_toDigits, utf8,
      String.toByteArray_ofList, List.utf8Encode]
    simp
  rw [hbytes, List.mem_flatMap]
  rintro ⟨c, hc, hzero⟩
  exact hdigit c (Decimals.digits_toDigits _ c hc) hzero

theorem index_text_inj {i i' : ContractIndex} (h : i.text = i'.text) : i.value = i'.value := by
  rw [ContractIndex.text, ContractIndex.text, Nat.toString_eq_repr, Nat.toString_eq_repr] at h
  exact Nat.repr_inj.mp h

/-- One derivation with one list of field texts. -/
theorem same_iff (a a' : KeyCall) : a.Same a' ↔ a.tag = a'.tag ∧ a.fields = a'.fields := by
  have hindex : ∀ i i' : ContractIndex, i.text = i'.text ↔ i.value = i'.value := fun i i' =>
    ⟨index_text_inj, fun h => by rw [ContractIndex.text, ContractIndex.text, h]⟩
  cases a <;> cases a' <;> simp [Same, tag, fields, hindex]

theorem key_eq {Digest : Type u} (sha256 : Buf → Digest) (a : KeyCall) :
    ∃ parts : List JsVal, parts.map JsVal.text = a.tag :: a.fields ∧
      a.key sha256 = (joinFields parts).map sha256 := by
  cases a with
  | balance c n a t => exact ⟨[.str "XCHAIN_BAL", c, n, a, t], rfl, rfl⟩
  | escrow c n a t => exact ⟨[.str "XCHAIN_ESC", c, n, a, t], rfl, rfl⟩
  | stake p c => exact ⟨[.str "XCHAIN_STK", p, c], rfl, rfl⟩
  | contractState c n i k => exact ⟨[.str "XCHAIN_CST", c, n, .str i.text, k], rfl, rfl⟩

/-- A key is the hash of the joined texts, where none of the fields has a NUL, and an error else. -/
theorem key_of_nulFree {Digest : Type u} (sha256 : Buf → Digest) (a : KeyCall)
    (hfree : NulFree a.fields) : a.key sha256 = .ok (sha256 (encode (a.tag :: a.fields))) := by
  obtain ⟨parts, htexts, hkey⟩ := a.key_eq sha256
  have hnone : (parts.find? fun part => (0x00 : UInt8) ∈ utf8 part.text) = none := by
    rw [List.find?_eq_none]
    intro part hpart
    have hmem : part.text ∈ a.tag :: a.fields := by
      rw [← htexts]
      exact List.mem_map_of_mem hpart
    rw [decide_eq_true_eq]
    rcases List.mem_cons.mp hmem with heq | hmem
    · rw [heq]
      exact a.nulFree_tag
    · exact hfree _ hmem
  rw [hkey, joinFields, hnone, ← htexts, encode, List.map_map]
  rfl

theorem key_of_nul {Digest : Type u} (sha256 : Buf → Digest) (a : KeyCall) {t : String}
    (ht : t ∈ a.fields) (hnul : (0x00 : UInt8) ∈ utf8 t) : ∃ e, a.key sha256 = .error e := by
  obtain ⟨parts, htexts, hkey⟩ := a.key_eq sha256
  cases hjoin : joinFields parts with
  | error e =>
    rw [hkey, hjoin]
    exact ⟨e, rfl⟩
  | ok bytes =>
    exfalso
    have hfree := (joinFields_eq_ok hjoin).2
    rw [htexts] at hfree
    exact hfree t (List.mem_cons_of_mem _ ht) hnul

theorem nulFree_of_key {Digest : Type u} {sha256 : Buf → Digest} {a : KeyCall} {d : Digest}
    (hd : a.key sha256 = .ok d) : NulFree a.fields := by
  intro t ht hnul
  obtain ⟨e, he⟩ := a.key_of_nul sha256 ht hnul
  rw [hd] at he
  cases he

theorem same_of_key {Digest : Type u} {sha256 : Buf → Digest} (hinj : Function.Injective sha256)
    {a a' : KeyCall} {d : Digest} (hd : a.key sha256 = .ok d) (hd' : a'.key sha256 = .ok d) :
    a.Same a' := by
  have hfree := nulFree_of_key hd
  have hfree' := nulFree_of_key hd'
  have hcons : ∀ {b : KeyCall}, NulFree b.fields → NulFree (b.tag :: b.fields) := by
    intro b hb t ht
    rcases List.mem_cons.mp ht with rfl | ht
    · exact b.nulFree_tag
    · exact hb t ht
  rw [key_of_nulFree sha256 a hfree] at hd
  rw [key_of_nulFree sha256 a' hfree'] at hd'
  have hbytes := hinj (Except.ok.inj (hd.trans hd'.symm))
  have htexts := encode_inj (List.cons_ne_nil _ _) (List.cons_ne_nil _ _) (hcons hfree)
    (hcons hfree') hbytes
  exact (same_iff a a').mpr (List.cons.inj htexts)

end KeyCall

/-- The keys of the threaded trees are hashed from these bytes. -/
theorem key_of_balanceKey {Digest : Type} (sha256 : Buf → Digest) (cfg : CommitmentConfig)
    (k : BalanceKey) :
    (Commitment.balanceKey cfg k).map sha256 =
      (match k.domain with
        | .balance => KeyCall.balance (.str cfg.chain) (.str cfg.network) (.str k.address) (.str k.tick)
        | .escrow => KeyCall.escrow (.str cfg.chain) (.str cfg.network) (.str k.address)
          (.str k.tick)).key sha256 := by
  obtain ⟨domain, address, tick⟩ := k
  cases domain with
  | balance => rfl
  | escrow => rfl

theorem key_of_contractStateKey {Digest : Type} (sha256 : Buf → Digest) (cfg : CommitmentConfig)
    (k : ContractStateKey) :
    (Commitment.contractStateKey cfg k).map sha256 =
      (KeyCall.contractState (.str cfg.chain) (.str cfg.network) (.bigint k.contract_index)
        (.str k.state_key)).key sha256 := rfl

/-- `[0-9a-f]{64}`, in either case. -/
def IsPubkey (s : String) : Prop :=
  s.toList.length = 64 ∧ ∀ c ∈ s.toList, c.isDigit = true ∨ ('a' ≤ c ∧ c ≤ 'f') ∨ ('A' ≤ c ∧ c ≤ 'F')

end XChainSync.Commitment.SmtKeys
