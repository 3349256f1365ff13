import XChainSync.Library.Joined
import XChainSync.Checkpoint.FlagDays

/-!
# What the canonical string says of a checkpoint

The canonical of a checkpoint is a list of fields joined by `|`. No field is escaped, so two
bodies may have one canonical where a field holds the separator. Where none does, the canonical
gives every field back as it is written, and which optional sections are there.
-/

namespace XChainSync.Checkpoint
open Client (JsVal)
set_option autoImplicit false

/-- `join '|'` of texts, on their characters. -/
theorem toList_intercalate_bar (fields : List String) :
    ("|".intercalate fields).toList = Joined.join '|' (fields.map String.toList) := by
  induction fields with
  | nil => simp [Joined.join]
  | cons x fields ih =>
    cases fields with
    | nil => simp [Joined.join]
    | cons y fields =>
      rw [String.intercalate_cons_cons, String.toList_append, String.toList_append, ih]
      simp [Joined.join]

/-- The header repeats the chain and the network by their `String()` form. -/
structure SignedHeader where
  chain : String
  network : String
  deriving DecidableEq, Repr

structure SignedRoots where
  state_root : String
  state_root_version : String
  block_merkle_root : String
  block_merkle_version : String
  deriving DecidableEq, Repr

structure SignedSupersession where
  supersedes_from : String
  rules_digest : String
  deriving DecidableEq, Repr

structure SignedFold where
  match_batch_seq : String
  match_count : String
  batch_crc32 : String
  total_chunks : String
  deriving DecidableEq, Repr

/-- The fields of a checkpoint as its canonical writes them, the optional sections where they are
written. -/
structure Signed where
  header : Option SignedHeader
  chain : String
  network : String
  block_index : String
  block_hash : String
  ledger_hash : String
  actions_hash : String
  contract_hash : String
  checkpoint_seq : String
  snapshot_block : String
  roots : Option SignedRoots
  supersession : Option SignedSupersession
  fold : Option SignedFold
  deriving DecidableEq, Repr

namespace Signed

def headerFields (s : Signed) : List String :=
  s.header.elim [] fun h =>
    ["EQUIV", "XCHECKPOINT", h.chain, h.network, s.block_index, s.checkpoint_seq] ++
      s.fold.elim [] (fun f => [f.match_batch_seq]) ++ ["0", ""]

def sections (s : Signed) : List String :=
  s.roots.elim [] (fun r =>
    [r.state_root, r.state_root_version, r.block_merkle_root, r.block_merkle_version]) ++
  s.supersession.elim [] (fun u => ["SUPERSEDE", u.supersedes_from, u.rules_digest]) ++
  s.fold.elim [] fun f => [f.match_batch_seq, f.match_count, f.batch_crc32, f.total_chunks]

/-- All that stands between the separators of the canonical. -/
def fields (s : Signed) : List String :=
  s.headerFields ++ (["XCHECKPOINT", s.chain, s.network, s.block_index, s.block_hash, s.ledger_hash,
    s.actions_hash, s.contract_hash, s.checkpoint_seq, s.snapshot_block] ++ s.sections)

/-- No field holds the separator. -/
def SeparatorFree (s : Signed) : Prop := ∀ t ∈ s.fields, '|' ∉ t.toList

instance (s : Signed) : Decidable s.SeparatorFree := by
  unfold SeparatorFree
  infer_instance

end Signed

namespace Signed
variable {s t : Signed}

theorem length_sections (s : Signed) : s.sections.length =
    4 * s.roots.isSome.toNat + 3 * s.supersession.isSome.toNat + 4 * s.fold.isSome.toNat := by
  unfold sections
  cases s.roots <;> cases s.supersession <;> cases s.fold <;> rfl

theorem length_headerFields (s : Signed) :
    s.headerFields.length = s.header.isSome.toNat * (8 + s.fold.isSome.toNat) := by
  unfold headerFields
  cases s.header <;> cases s.fold <;> rfl

/-- The first field tells the header. -/
theorem header_of_fields_eq (h : s.fields = t.fields) : s.header.isSome = t.header.isSome := by
  have hhead := congrArg List.head? h
  unfold fields headerFields at hhead
  revert hhead
  cases s.header <;> cases t.header <;> simp

/-- The number of fields tells the sections: under a header they add 4, 3 and 5, and without one
there are no roots to take for a fold. -/
theorem sections_of_fields_eq (hs : s.roots.isSome = true → s.header.isSome = true)
    (ht : t.roots.isSome = true → t.header.isSome = true) (h : s.fields = t.fields) :
    s.roots.isSome = t.roots.isSome ∧ s.supersession.isSome = t.supersession.isSome ∧
      s.fold.isSome = t.fold.isSome := by
  have hheader := header_of_fields_eq h
  have hlength := congrArg List.length h
  simp only [fields, List.length_append, length_headerFields, length_sections, hheader,
    List.length_cons, List.length_nil] at hlength hs
  revert hs ht hlength
  generalize t.header.isSome = e
  generalize s.roots.isSome = r
  generalize t.roots.isSome = r'
  generalize s.supersession.isSome = u
  generalize t.supersession.isSome = u'
  generalize s.fold.isSome = f
  generalize t.fold.isSome = f'
  revert e r r' u u' f f'
  decide

theorem elim_inj {α : Type} {f : α → List String} (hf : Function.Injective f) {o o' : Option α}
    (hsome : o.isSome = o'.isSome) (h : o.elim [] f = o'.elim [] f) : o = o' := by
  cases o with
  | none => exact (Option.isNone_iff_eq_none.mp (by simpa using hsome.symm)).symm
  | some x =>
    obtain ⟨y, rfl⟩ := Option.isSome_iff_exists.mp hsome.symm
    exact congrArg some (hf h)

theorem length_elim {α : Type} {f : α → List String} (hf : ∀ x y, (f x).length = (f y).length)
    {o o' : Option α} (hsome : o.isSome = o'.isSome) :
    (o.elim [] f).length = (o'.elim [] f).length := by
  cases o with
  | none =>
    obtain rfl : o' = none := Option.isNone_iff_eq_none.mp (by simpa using hsome.symm)
    rfl
  | some x =>
    obtain ⟨y, rfl⟩ := Option.isSome_iff_exists.mp hsome.symm
    exact hf x y

/-- Sections that are there alike are equal where what they write is. -/
theorem sections_inj (hroots : s.roots.isSome = t.roots.isSome)
    (hsup : s.supersession.isSome = t.supersession.isSome)
    (hfold : s.fold.isSome = t.fold.isSome) (h : s.sections = t.sections) :
    s.roots = t.roots ∧ s.supersession = t.supersession ∧ s.fold = t.fold := by
  unfold sections at h
  obtain ⟨hrs, hf⟩ := List.append_inj' h (by rw [length_elim (fun _ _ => by rfl) hfold])
  obtain ⟨hr, hs⟩ := List.append_inj' hrs (by rw [length_elim (fun _ _ => by rfl) hsup])
  refine ⟨elim_inj ?_ hroots hr, elim_inj ?_ hsup hs, elim_inj ?_ hfold hf⟩
  all_goals
    rintro ⟨⟩ ⟨⟩ heq
    simp_all

/-- The fields give everything back. -/
theorem fields_inj (hs : s.roots.isSome = true → s.header.isSome = true)
    (ht : t.roots.isSome = true → t.header.isSome = true) (h : s.fields = t.fields) : s = t := by
  have hheader := header_of_fields_eq h
  obtain ⟨hroots, hsup, hfold⟩ := sections_of_fields_eq hs ht h
  obtain ⟨hhead, hcontent⟩ := List.append_inj h
    (by rw [length_headerFields, length_headerFields, hheader, hfold])
  obtain ⟨hbase, hsections⟩ := List.append_inj hcontent rfl
  obtain ⟨hr, hu, hf⟩ := sections_inj hroots hsup hfold hsections
  have hh : s.header = t.header := by
    unfold headerFields at hhead
    revert hhead hheader
    cases s.header <;> cases t.header
    · simp
    · simp
    · simp
    · rename_i a b
      rcases a with ⟨chain, network⟩
      rcases b with ⟨chain', network'⟩
      intro _ hhead
      simp only [Option.elim_some, List.cons_append, List.cons.injEq] at hhead
      rw [hhead.2.2.1, hhead.2.2.2.1]
  obtain ⟨⟩ := s
  obtain ⟨⟩ := t
  simp_all

end Signed

namespace Verifier
variable {N : Type} (vf : Verifier N)

/-- The commitment is active and its four fields are there. -/
def signsRoots (cp : Body) : Bool :=
  vf.commitmentActive cp && !cp.state_root.nullish && !cp.block_merkle_root.nullish &&
    !cp.state_root_version.nullish && !cp.block_merkle_version.nullish

def signedRoots (cp : Body) : Option SignedRoots :=
  if vf.signsRoots cp then
    some ⟨vf.lowerText cp.state_root, cp.state_root_version.text,
      vf.lowerText cp.block_merkle_root, cp.block_merkle_version.text⟩
  else none

/-- The number a supersession names and its digest, where they are what the suffix asks for. -/
def supersession (cp : Body) : Except String SignedSupersession :=
  match vf.supersedeSuffix cp, vf.js.natural cp.supersedes_from with
  | .error e, _ => .error e
  | .ok _, fromText => .ok ⟨fromText.getD "", vf.lowerText cp.rules_digest⟩

def signedSupersession (cp : Body) : Except String (Option SignedSupersession) :=
  if vf.gates.supersede cp.snapshot_block cp.network && hasSupersedeFields cp then
    (vf.supersession cp).map some
  else .ok none

def signedFold (cp : Body) : Option SignedFold :=
  cp.fold_archive.map fun fold =>
    ⟨fold.match_batch_seq.text, fold.match_count.text, vf.lowerText fold.batch_crc32,
      fold.total_chunks.text⟩

/-- What the canonical writes of a body, with a supersession given. -/
def signedWith (cp : Body) (supersession : Option SignedSupersession) : Signed where
  header := if vf.gates.equivHeader cp.snapshot_block cp.network then
    some ⟨cp.chain.text, cp.network.text⟩ else none
  chain := joinText cp.chain
  network := joinText cp.network
  block_index := cp.block_index.text
  block_hash := joinText cp.block_hash
  ledger_hash := joinText cp.ledger_hash
  actions_hash := joinText cp.actions_hash
  contract_hash := joinText cp.contract_hash
  checkpoint_seq := cp.checkpoint_seq.text
  snapshot_block := cp.snapshot_block.text
  roots := vf.signedRoots cp
  supersession := supersession
  fold := vf.signedFold cp

def signed (cp : Body) : Except String Signed :=
  (vf.signedSupersession cp).map (vf.signedWith cp)

variable {vf}

theorem supersedeSuffix_eq {cp : Body} (hfields : hasSupersedeFields cp = true) :
    vf.supersedeSuffix cp = (vf.supersession cp).map fun u =>
      "|SUPERSEDE|" ++ u.supersedes_from ++ "|" ++ u.rules_digest := by
  unfold supersession
  cases hsuffix : vf.supersedeSuffix cp with
  | error e => rfl
  | ok suffix =>
    unfold supersedeSuffix at hsuffix
    dsimp only at hsuffix
    split at hsuffix
    · rename_i hnone
      simp only [Bool.and_eq_true, Bool.not_eq_true', Bool.not_eq_false'] at hnone
      simp [hasSupersedeFields, hnone] at hfields
    · split at hsuffix
      · cases hsuffix
      · split at hsuffix
        · cases hsuffix
        · rename_i fromText digest hfrom hdigest
          split at hsuffix
          · cases hsuffix
            simp [Except.map, hfrom, hdigest, lowerText, JsVal.text]
          · cases hsuffix
        · cases hsuffix

/-- The sections, each after its separator. -/
theorem intercalate_sections (s : Signed) {raw : List String} (hraw : raw ≠ []) :
    "|".intercalate (raw ++ s.sections) = "|".intercalate raw ++
      s.roots.elim "" (fun r => "|" ++ "|".intercalate
        [r.state_root, r.state_root_version, r.block_merkle_root, r.block_merkle_version]) ++
      s.supersession.elim "" (fun u => "|SUPERSEDE|" ++ u.supersedes_from ++ "|" ++ u.rules_digest) ++
      s.fold.elim "" fun f => "|" ++ "|".intercalate
        [f.match_batch_seq, f.match_count, f.batch_crc32, f.total_chunks] := by
  by_cases hsections : s.sections = []
  · rw [hsections, List.append_nil]
    revert hsections
    unfold Signed.sections
    cases s.roots <;> cases s.supersession <;> cases s.fold <;> simp
  · rw [String.intercalate_append_of_ne_nil hraw hsections]
    unfold Signed.sections at hsections ⊢
    apply String.toList_inj.mp
    cases hroots : s.roots <;> cases hsup : s.supersession <;> cases hfold : s.fold <;> simp_all

/-- The header comes before the content, which its empty last field sets apart. -/
theorem intercalate_header (s : Signed) {content : List String} (hcontent : content ≠ []) :
    "|".intercalate (s.headerFields ++ content) = s.header.elim ("|".intercalate content) fun h =>
      buildEquivCanonical "XCHECKPOINT"
        (h.chain ++ "|" ++ h.network ++ "|" ++ s.block_index ++ "|" ++ s.checkpoint_seq ++
          s.fold.elim "" (fun f => "|" ++ f.match_batch_seq)) "0" ("|".intercalate content) := by
  obtain ⟨first, rest, rfl⟩ := List.exists_cons_of_ne_nil hcontent
  unfold Signed.headerFields buildEquivCanonical
  apply String.toList_inj.mp
  cases s.header <;> cases s.fold <;> simp

/-- The canonical joins the fields, header first. -/
theorem canonicalCheckpoint_eq (cp : Body) :
    vf.canonicalCheckpoint cp = (vf.signed cp).map fun s => "|".intercalate s.fields := by
  -- the header and each section are there or not on both sides alike
  have hfields : ∀ s : Signed, "|".intercalate s.fields = _ := fun s =>
    (intercalate_header s (by simp)).trans (by rw [intercalate_sections s (by simp)])
  simp only [hfields]
  unfold canonicalCheckpoint signed signedSupersession
  cases hgate : vf.gates.supersede cp.snapshot_block cp.network && hasSupersedeFields cp with
  | false =>
    cases hroots : vf.signsRoots cp <;> cases hfold : cp.fold_archive <;>
      cases hheader : vf.gates.equivHeader cp.snapshot_block cp.network <;>
      rw [signsRoots] at hroots <;>
      simp [Except.map, bind, Except.bind, pure, Except.pure, signedWith, signedRoots, signsRoots,
        signedFold, hroots, hfold, hheader, String.append_assoc]
  | true =>
    rw [supersedeSuffix_eq (by simp_all)]
    cases vf.supersession cp with
    | error e => rfl
    | ok u =>
      cases hroots : vf.signsRoots cp <;> cases hfold : cp.fold_archive <;>
        cases hheader : vf.gates.equivHeader cp.snapshot_block cp.network <;>
        rw [signsRoots] at hroots <;>
        simp [Except.map, bind, Except.bind, pure, Except.pure, signedWith, signedRoots, signsRoots,
          signedFold, hroots, hfold, hheader, String.append_assoc]

/-- On the flag days of the registry the roots are written under a header only. -/
theorem header_of_roots {burial : JsVal → String → Bool} (hgates : vf.gates = .registry burial)
    {cp : Body} {u : Option SignedSupersession}
    (h : (vf.signedWith cp u).roots.isSome = true) : (vf.signedWith cp u).header.isSome = true := by
  have hsigns : vf.signsRoots cp = true := by
    unfold signedWith signedRoots at h
    by_contra hnot
    simp [hnot] at h
  have hactive : isCheckpointCommitmentActive cp.snapshot_block cp.network = true := by
    unfold signsRoots commitmentActive at hsigns
    rw [hgates] at hsigns
    simp only [Bool.and_eq_true] at hsigns
    exact hsigns.1.1.1.1
  have hheader : vf.gates.equivHeader cp.snapshot_block cp.network = true := by
    rw [hgates]
    exact isEquivHeaderActive_of_commitment hactive
  simp [signedWith, hheader]

/-- The fields of a canonical without separators in them are those of every such canonical of the
same text. -/
theorem fields_eq_of_intercalate {s t : Signed} (hs : s.SeparatorFree) (ht : t.SeparatorFree)
    (h : "|".intercalate s.fields = "|".intercalate t.fields) : s.fields = t.fields := by
  have hjoin := congrArg String.toList h
  rw [toList_intercalate_bar, toList_intercalate_bar] at hjoin
  have hmap := Joined.join_inj_of_free (by simp [Signed.fields]) (by simp [Signed.fields])
    (by simpa [Signed.SeparatorFree] using hs) (by simpa [Signed.SeparatorFree] using ht) hjoin
  exact List.map_injective_iff.mpr (fun _ _ => String.toList_inj.mp) hmap

theorem tryCanonicalCheckpoint_eq_some {cp : Body} {text : String}
    (h : vf.tryCanonicalCheckpoint cp = some text) :
    ∃ s, vf.signed cp = .ok s ∧ "|".intercalate s.fields = text := by
  rw [tryCanonicalCheckpoint, canonicalCheckpoint_eq] at h
  cases hs : vf.signed cp with
  | error e => simp [hs, Except.map, Except.toOption] at h
  | ok s => exact ⟨s, rfl, by simpa [hs, Except.map, Except.toOption] using h⟩

theorem signed_eq_ok {cp : Body} {s : Signed} (h : vf.signed cp = .ok s) :
    vf.signedSupersession cp = .ok s.supersession ∧ s = vf.signedWith cp s.supersession := by
  unfold signed at h
  cases hsup : vf.signedSupersession cp with
  | error e => simp [hsup, Except.map] at h
  | ok u =>
    simp only [hsup, Except.map, Except.ok.injEq] at h
    subst h
    exact ⟨rfl, rfl⟩

theorem signedSupersession_isSome {cp : Body} {u : Option SignedSupersession}
    (h : vf.signedSupersession cp = .ok u) :
    u.isSome = (vf.gates.supersede cp.snapshot_block cp.network && hasSupersedeFields cp) := by
  unfold signedSupersession at h
  split at h
  · rename_i hgate
    rw [hgate]
    cases hsup : vf.supersession cp with
    | error e => simp [hsup, Except.map] at h
    | ok v =>
      simp only [hsup, Except.map, Except.ok.injEq] at h
      rw [← h]
      rfl
  · rename_i hgate
    simp only [Except.ok.injEq] at h
    rw [← h, Bool.not_eq_true] at *
    exact hgate.symm

/-- Where it is allowed, a supersession is signed as soon as one of its fields is there. -/
theorem supersession_isSome {cp : Body} {s : Signed} (h : vf.signed cp = .ok s)
    (hallowed : vf.supersessionDisallowed cp = false) :
    s.supersession.isSome = hasSupersedeFields cp := by
  rw [signedSupersession_isSome (signed_eq_ok h).1]
  unfold supersessionDisallowed at hallowed
  revert hallowed
  cases hasSupersedeFields cp <;> simp

/-- Where no field of it is missing, the commitment is signed as soon as it is active. -/
theorem roots_isSome {cp : Body} {s : Signed} (h : vf.signed cp = .ok s)
    (hmissing : vf.commitmentMissing cp = false) : s.roots.isSome = vf.commitmentActive cp := by
  rw [(signed_eq_ok h).2]
  unfold signedWith signedRoots
  cases hactive : vf.commitmentActive cp with
  | false => simp [signsRoots, hactive]
  | true =>
    obtain ⟨h₁, h₂, h₃, h₄⟩ := roots_of_commitment hactive hmissing
    simp [signsRoots, hactive, h₁, h₂, h₃, h₄]

/-- Of two bodies with one canonical and no separator in a field, every field is written alike and
the same sections are there. -/
theorem canonical_binds_fields {burial : JsVal → String → Bool}
    (hgates : vf.gates = .registry burial) {a b : Body} {text : String}
    (ha : vf.tryCanonicalCheckpoint a = some text) (hb : vf.tryCanonicalCheckpoint b = some text)
    (hallowed : ∀ cp ∈ [a, b],
      vf.commitmentMissing cp = false ∧ vf.supersessionDisallowed cp = false)
    (hfree : ∀ cp ∈ [a, b], ∀ s, vf.signed cp = .ok s → s.SeparatorFree) :
    (∃ s, vf.signed a = .ok s ∧ vf.signed b = .ok s) ∧
      vf.commitmentActive a = vf.commitmentActive b ∧
      hasSupersedeFields a = hasSupersedeFields b ∧
      a.fold_archive.isSome = b.fold_archive.isSome := by
  obtain ⟨s, hs, hstext⟩ := tryCanonicalCheckpoint_eq_some ha
  obtain ⟨t, ht, httext⟩ := tryCanonicalCheckpoint_eq_some hb
  have hfields := fields_eq_of_intercalate (hfree a (by simp) s hs) (hfree b (by simp) t ht)
    (hstext.trans httext.symm)
  have hst : s = t := by
    apply Signed.fields_inj _ _ hfields
    · rw [(signed_eq_ok hs).2]
      exact header_of_roots hgates
    · rw [(signed_eq_ok ht).2]
      exact header_of_roots hgates
  subst t
  obtain ⟨hmissing, hdisallowed⟩ := hallowed a (by simp)
  obtain ⟨hmissing', hdisallowed'⟩ := hallowed b (by simp)
  refine ⟨⟨s, hs, ht⟩, ?_, ?_, ?_⟩
  · rw [← roots_isSome hs hmissing, roots_isSome ht hmissing']
  · rw [← supersession_isSome hs hdisallowed, supersession_isSome ht hdisallowed']
  · have hfold := congrArg Signed.fold (signed_eq_ok hs).2
    rw [(signed_eq_ok ht).2] at hfold
    simpa [signedWith, signedFold] using (congrArg Option.isSome hfold).symm

end Verifier

/-! ### Two bodies of one canonical -/

/-- Integers in decimal, everything else NaN. -/
def wireJs : Js Int where
  number
    | .num t => some ((JsText.parseInt t).getD 0)
    | .str t => JsText.parseInt t
    | _ => none
  plusOne v := .num (toString ((JsText.parseInt v.text).getD 0 + 1))
  natural
    | .num t | .str t => (JsText.parseInt t).bind fun n => if 0 ≤ n then some (toString n) else none
    | _ => none
  bury v := .num (toString (max 0 ((JsText.parseInt v.text).getD 0 - 6)))
  lower s := String.ofList (s.toList.map Char.toLower)
  number_num _ := rfl

/-- The flag days of the registry; a signature is good when it repeats its key. -/
def registryVerifier : Verifier Int where
  js := wireJs
  gates := .registry fun _ _ => true
  verifySignature _ sig pk := sig == pk
  meetsStakeThreshold _ _ := false
  isWeight w := (JsText.decimal w).isSome
  isDigest s := s.length = 64 && s.toList.all fun c => (JsText.digit 16 c).isSome

/-- A regtest checkpoint with its roots. -/
def regtestBody : Body where
  chain := .str "BTC"
  network := .str "regtest"
  block_index := .num "120"
  block_hash := .str "hash"
  ledger_hash := .str "ledger"
  actions_hash := .str "actions"
  contract_hash := .str "contract"
  checkpoint_seq := .num "7"
  snapshot_block := .num "110"
  state_root := .str "root"
  block_merkle_root := .str "merkle"
  state_root_version := .num "1"
  block_merkle_version := .num "1"
  supersedes_from := .null
  rules_digest := .null
  fold_archive := none
  validator_signatures := []

def digestText : String := String.ofList (List.replicate 64 'a')

/-- The `String()` forms of what a body signs, lower-cased where the canonical does. -/
def stringForms {N : Type} (vf : Verifier N) (cp : Body) : List String :=
  [cp.chain.text, cp.network.text, cp.block_index.text, cp.block_hash.text, cp.ledger_hash.text,
    cp.actions_hash.text, cp.contract_hash.text, cp.checkpoint_seq.text, cp.snapshot_block.text] ++
  (if vf.commitmentActive cp then [vf.lowerText cp.state_root, cp.state_root_version.text,
    vf.lowerText cp.block_merkle_root, cp.block_merkle_version.text] else []) ++
  (if Verifier.hasSupersedeFields cp then
    [cp.supersedes_from.text, vf.lowerText cp.rules_digest] else []) ++
  cp.fold_archive.elim [] fun fold => [fold.match_batch_seq.text, fold.match_count.text,
    vf.lowerText fold.batch_crc32, fold.total_chunks.text]

/-- Two bodies that a verifier takes, with one canonical and different fields. -/
def Clash (a b : Body) : Prop :=
  (∀ cp ∈ [a, b], (registryVerifier.tryCanonicalCheckpoint cp).isSome = true ∧
    registryVerifier.commitmentMissing cp = false ∧
    registryVerifier.supersessionDisallowed cp = false) ∧
  registryVerifier.tryCanonicalCheckpoint a = registryVerifier.tryCanonicalCheckpoint b ∧
  stringForms registryVerifier a ≠ stringForms registryVerifier b

instance (a b : Body) : Decidable (Clash a b) := by
  unfold Clash
  infer_instance

/-- A body that supersedes from a height. -/
def supersedingFrom (height : JsVal) : Body :=
  { regtestBody with
    supersedes_from := height
    rules_digest := .str (String.ofList (List.replicate 64 'a')) }

/-- A separator moves text from one hash to the next, a missing hash is written as an empty one,
and a height has several texts. -/
theorem one_canonical_for_different_fields :
    Clash { regtestBody with actions_hash := .str "actions|x" }
        { regtestBody with actions_hash := .str "actions", contract_hash := .str "x|contract" } ∧
      Clash { regtestBody with block_hash := .null } { regtestBody with block_hash := .str "" } ∧
      Clash (supersedingFrom (.num "5")) (supersedingFrom (.str "05")) := by
  refine ⟨?_, ?_, ?_⟩
  all_goals decide +kernel

/-- A body and its copy with upper-case roots bind the same fields. -/
theorem upper_case_roots_bound :
    let upper := { regtestBody with state_root := .str "ROOT" }
    (∃ s, registryVerifier.signed regtestBody = .ok s ∧ registryVerifier.signed upper = .ok s) ∧
      registryVerifier.commitmentActive regtestBody = registryVerifier.commitmentActive upper ∧
      Verifier.hasSupersedeFields regtestBody = Verifier.hasSupersedeFields upper ∧
      regtestBody.fold_archive.isSome = upper.fold_archive.isSome := by
  have hfree : ∀ cp ∈ [regtestBody, { regtestBody with state_root := .str "ROOT" }],
      ∀ s, registryVerifier.signed cp = .ok s → s.SeparatorFree := by
    intro cp hcp s hs
    have hsigned : ∀ cp ∈ [regtestBody, { regtestBody with state_root := .str "ROOT" }],
        registryVerifier.signed cp = .ok (registryVerifier.signedWith cp none) ∧
          (registryVerifier.signedWith cp none).SeparatorFree := by decide +kernel
    obtain ⟨hok, hfree⟩ := hsigned cp hcp
    obtain rfl := Except.ok.inj (hok.symm.trans hs)
    exact hfree
  exact Verifier.canonical_binds_fields rfl (Option.some_get (by decide +kernel)).symm
    (by decide +kernel) (by decide +kernel) hfree

end XChainSync.Checkpoint
