import Mathlib.Data.List.Chain
import XChainSync.Checkpoint.RotationFollow

/-! A followed checkpoint is the end of a chain from the pinned seed. Each step of it verifies
under the set the replica computes at a height the step before it has attested. -/

namespace XChainSync.Checkpoint
open Client (JsVal)
set_option autoImplicit false

variable {N : Type} [LinearOrder N] (vf : Verifier N) (r : Replica)

/-- The roots a checkpoint carries are those of the replica's row at its height. -/
def RootsEqual (c : Body) : Prop :=
  ∃ row, r.getStateTreeRootByBlock c.block_index = some row ∧
    vf.lowerText row.state_root = vf.lowerText c.state_root ∧
    (c.block_merkle_root.nullish = false → row.block_merkle_root.nullish = false ∧
      vf.lowerText row.block_merkle_root = vf.lowerText c.block_merkle_root)

/-- What a rotation step is attested by. -/
structure Attested (prev next : Body) : Prop where
  number : isNumber next.block_index = true
  higher : vf.js.lt prev.block_index next.block_index = true
  active : vf.commitmentActive next = true
  rooted : next.state_root.nullish = false ∧ next.block_merkle_root.nullish = false ∧
    next.state_root_version.nullish = false ∧ next.block_merkle_version.nullish = false
  snapshot : isNumber next.snapshot_block = true ∧
    vf.js.le next.snapshot_block prev.block_index = true
  complete : (oraclePublishSetAt r (buriedSnapshotBlock vf r next.snapshot_block)).truncated = false
  quorum : (vf.verifyCheckpoint next
    (oraclePublishSetAt r (buriedSnapshotBlock vf r next.snapshot_block))).valid = true
  roots : RootsEqual vf r next

/-- The source has served this checkpoint in some answer. -/
def Served (source : RangeSource) (c : Body) : Prop :=
  ∃ request fromBlock toBlock rows, source request fromBlock toBlock = .checkpoints rows ∧
    some c ∈ rows

variable {vf r}

theorem numLt_of_not_numLe {x y : Option N} (hx : x.isSome) (hy : y.isSome)
    (h : numLe y x = false) : numLt x y = true := by
  obtain ⟨a, rfl⟩ := Option.isSome_iff_exists.mp hx
  obtain ⟨b, rfl⟩ := Option.isSome_iff_exists.mp hy
  simp only [numLe, decide_eq_false_iff_not, not_le] at h
  simpa [numLt] using h

theorem numLe_of_not_numLt {x y : Option N} (hx : x.isSome) (hy : y.isSome)
    (h : numLt y x = false) : numLe x y = true := by
  obtain ⟨a, rfl⟩ := Option.isSome_iff_exists.mp hx
  obtain ⟨b, rfl⟩ := Option.isSome_iff_exists.mp hy
  simp only [numLt, decide_eq_false_iff_not, not_lt] at h
  simpa [numLe] using h

omit [LinearOrder N] in
theorem number_isSome (js : Js N) {v : JsVal} (h : isNumber v = true) : (js.number v).isSome := by
  cases v with
  | num t => exact js.number_num t
  | _ => simp [isNumber] at h

omit [LinearOrder N] in
theorem rootsEqual_of_isMatch {c : Body} (h : checkpointRootsMatchLocal vf r c = .isMatch) :
    RootsEqual vf r c := by
  unfold checkpointRootsMatchLocal at h
  split at h
  · simp at h
  · rename_i row hrow
    dsimp only at h
    have hstate : vf.lowerText row.state_root = vf.lowerText c.state_root := by
      by_contra hne
      rw [if_pos hne] at h
      simp at h
    refine ⟨row, hrow, hstate, fun hroot => ?_⟩
    simp only [hstate, ne_eq, not_true_eq_false, if_false, hroot] at h
    cases hlocal : row.block_merkle_root.nullish with
    | true => simp [hlocal] at h
    | false =>
      refine ⟨rfl, ?_⟩
      by_contra hne
      simp [hlocal, hne] at h

/-- A step that does not stop the walk is attested by the frontier it extends. -/
theorem attested_of_attestRotationStep {next trusted : Body} (hnext : isNumber next.block_index = true)
    (htrusted : isNumber trusted.block_index = true)
    (hhigher : vf.js.le next.block_index trusted.block_index = false)
    (h : attestRotationStep vf r next trusted = none) : Attested vf r trusted next := by
  unfold attestRotationStep at h
  split at h
  · simp at h
  split at h
  · simp at h
  split at h
  · simp at h
  rename_i hcommitted
  split at h
  · simp at h
  split at h
  · simp at h
  rename_i hsnapshot
  dsimp only at h
  split at h
  · simp at h
  rename_i hcomplete
  split at h
  · simp at h
  rename_i hvalid
  simp only [Bool.or_eq_true, Bool.not_eq_true', not_or, Bool.not_eq_true, Bool.not_eq_false]
    at hcommitted hsnapshot hvalid
  have hroots : checkpointRootsMatchLocal vf r next = .isMatch := by
    split at h
    · simp at h
    · simp at h
    · assumption
  have hvalid' := Verifier.verifyCheckpoint_valid hvalid
  exact
    { number := hnext
      higher := numLt_of_not_numLe (number_isSome vf.js htrusted) (number_isSome vf.js hnext) hhigher
      active := hcommitted.2
      rooted := Verifier.roots_of_commitment hcommitted.2 hvalid'.2.1
      snapshot := ⟨hsnapshot.1, numLe_of_not_numLt (number_isSome vf.js hsnapshot.1)
        (number_isSome vf.js htrusted) hsnapshot.2⟩
      complete := by simpa using hcomplete
      quorum := hvalid
      roots := rootsEqual_of_isMatch hroots }

/-- A step never stops the walk with an ok verdict. -/
theorem attestRotationStep_ne_ok (next trusted attested : Body) :
    attestRotationStep vf r next trusted ≠ some (.ok attested) := by
  unfold attestRotationStep
  dsimp only
  repeat' split
  all_goals simp

theorem walkSteps_ne_ok {cp : Body} {steps : List Body} {trusted : Body} {advanced : Bool}
    (attested : Body) : walkSteps vf r cp steps trusted advanced ≠ .error (.ok attested) := by
  induction steps generalizing trusted advanced with
  | nil => simp [walkSteps]
  | cons next steps ih =>
    rw [walkSteps]
    split
    · exact ih
    · split
      · rename_i stop hstop
        intro h
        obtain rfl := Except.error.inj h
        exact attestRotationStep_ne_ok next trusted attested hstop
      · split
        · simp
        · exact ih

variable (vf r) in
/-- The frontier `trusted` is the end of an attested chain of served checkpoints from the seed. -/
def Follows (source : RangeSource) (seed trusted : Body) : Prop :=
  isNumber trusted.block_index = true ∧ ∃ steps, (seed :: steps).IsChain (Attested vf r) ∧
    (∀ c ∈ steps, Served source c) ∧ (seed :: steps).getLast? = some trusted

theorem Follows.step {source : RangeSource} {seed trusted next : Body}
    (h : Follows vf r source seed trusted) (hnext : Attested vf r trusted next)
    (hserved : Served source next) : Follows vf r source seed next := by
  obtain ⟨_, steps, hchain, hall, hlast⟩ := h
  refine ⟨hnext.number, steps ++ [next], ?_, ?_, ?_⟩
  · rw [← List.cons_append]
    refine List.isChain_append.mpr ⟨hchain, List.isChain_singleton next, ?_⟩
    intro x hx y hy
    rw [hlast, Option.mem_some_iff] at hx
    simp only [List.head?_cons, Option.mem_some_iff] at hy
    subst hx hy
    exact hnext
  · intro c hc
    rcases List.mem_append.mp hc with hc | hc
    · exact hall c hc
    · rw [List.mem_singleton.mp hc]
      exact hserved
  · rw [← List.cons_append, List.getLast?_concat]

/-- Walking the steps of a page keeps the frontier at the end of an attested chain. -/
theorem Follows.walkSteps {source : RangeSource} {seed cp : Body} {steps : List Body}
    (hserved : ∀ c ∈ steps, Served source c) {trusted trusted' : Body} {advanced advanced' : Bool}
    (h : Follows vf r source seed trusted)
    (hw : walkSteps vf r cp steps trusted advanced = .ok (trusted', advanced')) :
    Follows vf r source seed trusted' := by
  induction steps generalizing trusted advanced with
  | nil =>
    obtain ⟨rfl, -⟩ := Prod.mk.inj (Except.ok.inj hw)
    exact h
  | cons next steps ih =>
    have hrest : ∀ c ∈ steps, Served source c := fun c hc => hserved c (List.mem_cons_of_mem _ hc)
    rw [Checkpoint.walkSteps] at hw
    split at hw
    · exact ih hrest h hw
    · rename_i hpast
      simp only [Bool.or_eq_true, Bool.not_eq_true', not_or, Bool.not_eq_false, Bool.not_eq_true]
        at hpast
      split at hw
      · simp at hw
      · rename_i hattest
        have hattested := attested_of_attestRotationStep hpast.1 h.1 hpast.2 hattest
        have hnext := h.step hattested (hserved next List.mem_cons_self)
        split at hw
        · obtain ⟨rfl, -⟩ := Prod.mk.inj (Except.ok.inj hw)
          exact hnext
        · exact ih hrest hnext hw

theorem mem_of_mapM_id {rows : List (Option Body)} {chain : List Body} (h : rows.mapM id = some chain)
    {c : Body} (hc : c ∈ chain) : some c ∈ rows := by
  induction rows generalizing chain with
  | nil =>
    simp at h
    simp [h] at hc
  | cons row rows ih =>
    simp only [List.mapM_cons, id_eq, Option.bind_eq_bind, Option.bind_eq_some_iff,
      Option.pure_def, Option.some.injEq] at h
    obtain ⟨c', rfl, rest, hrest, rfl⟩ := h
    rcases List.mem_cons.mp hc with rfl | hc
    · exact List.mem_cons_self
    · exact List.mem_cons_of_mem _ (ih hrest hc)

variable (vf) in
/-- The served checkpoint equals the attested step on every signed field and on its state root. -/
structure SameSigned (cp attested : Body) : Prop where
  height : attested.block_index = cp.block_index
  canonical : vf.tryCanonicalCheckpoint attested = vf.tryCanonicalCheckpoint cp
  wellFormed : (vf.tryCanonicalCheckpoint cp).isSome
  state_root : vf.lowerText attested.state_root = vf.lowerText cp.state_root

omit [LinearOrder N] in
theorem sameSigned_of_compareServed {cp trusted attested : Body}
    (h : compareServed vf cp trusted = .ok attested) :
    trusted = attested ∧ SameSigned vf cp attested := by
  unfold compareServed at h
  split at h
  · simp at h
  rename_i hheight
  split at h
  · simp at h
  rename_i hsame
  simp only [Bool.or_eq_true, decide_eq_true_eq, not_or, ne_eq, not_not, Bool.not_eq_true,
    Option.isNone_eq_false_iff] at hsame hheight
  obtain rfl := Verdict.ok.inj h
  exact ⟨rfl, hheight, hsame.2, hsame.1.2, hsame.1.1.1⟩

theorem Follows.followLoop {source : RangeSource} {seed cp attested : Body} (fuel : Nat)
    {request : Nat} {trusted : Body} {fromBlock : JsVal} (h : Follows vf r source seed trusted)
    (hloop : followLoop vf r source cp fuel request trusted fromBlock = .ok (.ok attested)) :
    Follows vf r source seed attested ∧ SameSigned vf cp attested := by
  have hfinish : ∀ {trusted : Body}, Follows vf r source seed trusted →
      compareServed vf cp trusted = .ok attested →
      Follows vf r source seed attested ∧ SameSigned vf cp attested := by
    intro trusted h hcompare
    obtain ⟨rfl, hsame⟩ := sameSigned_of_compareServed hcompare
    exact ⟨h, hsame⟩
  induction fuel generalizing request trusted fromBlock with
  | zero =>
    rw [Checkpoint.followLoop] at hloop
    split at hloop
    · simp at hloop
    · exact hfinish h (Except.ok.inj hloop)
  | succ fuel ih =>
    rw [Checkpoint.followLoop] at hloop
    split at hloop
    · exact hfinish h (Except.ok.inj hloop)
    split at hloop
    · simp at hloop
    · simp at hloop
    rename_i rows hrows
    split at hloop
    · simp at hloop
    split at hloop
    · simp at hloop
    rename_i chain hchain
    have hserved : ∀ c ∈ bindingSteps vf.js chain, Served source c := by
      intro c hc
      have hmem := mem_of_mapM_id hchain (List.mem_of_mem_filter hc)
      exact ⟨request, fromBlock, cp.block_index, rows, hrows, hmem⟩
    split at hloop
    · rename_i stop hstop
      obtain rfl := Except.ok.inj hloop
      exact absurd hstop (walkSteps_ne_ok attested)
    · simp at hloop
    · rename_i trusted' hwalk
      exact ih (h.walkSteps hserved hwalk) hloop

/-- Against any source, an ok verdict means: the seed's roots are the replica's own, and a chain of
served checkpoints leads from it to the height of `cp`, each attested by the one before it, the
last with the signed fields and the state root of `cp`. -/
theorem rotation_follow_sound (vf : Verifier N) (r : Replica) (source : RangeSource)
    {cp attested : Body} {seed : Option Body}
    (h : followCheckpointForward vf r source cp seed = .ok (.ok attested)) :
    ∃ s, seed = some s ∧ RootsEqual vf r s ∧ ∃ steps,
      (s :: steps).IsChain (Attested vf r) ∧ (∀ c ∈ steps, Served source c) ∧
        steps.getLast? = some attested ∧ SameSigned vf cp attested := by
  unfold followCheckpointForward at h
  split at h
  · simp at h
  split at h
  · simp at h
  rename_i s
  split at h
  · simp at h
  rename_i hformed
  split at h
  · simp at h
  rename_i hpast
  split at h
  · simp at h
  · simp at h
  rename_i hroots
  simp only [Bool.or_eq_true, not_or, Bool.not_eq_true', Bool.not_eq_false] at hformed
  have hstart : Follows vf r source s s :=
    ⟨hformed.2, [], List.isChain_singleton s, by simp, rfl⟩
  obtain ⟨⟨-, steps, hchain, hserved, hlast⟩, hsame⟩ := hstart.followLoop 10000 h
  refine ⟨s, rfl, rootsEqual_of_isMatch hroots, steps, hchain, hserved, ?_, hsame⟩
  cases steps with
  | nil =>
    -- the seed itself is not past the seed
    obtain rfl := Option.some.inj hlast
    obtain ⟨x, hx⟩ := Option.isSome_iff_exists.mp (number_isSome vf.js hformed.2)
    refine absurd ?_ hpast
    rw [← hsame.height]
    simp [Js.le, hx, numLe]
  | cons c steps => simpa using hlast

/-! ### A follow over one rotation -/

/-- Heights as decimal digits. -/
def digitValue (s : String) : Nat := s.toList.foldl (fun n c => n * 10 + (c.toNat - 48)) 0

/-- Numbers that are decimal digits, everything else NaN. -/
def decimalJs : Js Nat where
  number
    | .num t => some (digitValue t)
    | _ => none
  plusOne v := .num (toString (digitValue v.text + 1))
  natural
    | .num t => some t
    | _ => none
  bury v := .num (toString (digitValue v.text - 6))
  lower s := s
  number_num _ := rfl

/-- Every flag day passed except the header and the weights; a signature is good when it repeats
its key. -/
def plainVerifier : Verifier Nat where
  js := decimalJs
  gates := ⟨fun _ _ => true, fun _ _ => true, fun _ _ => false, fun _ _ => false, fun _ _ => true⟩
  verifySignature _ sig pk := sig == pk
  meetsStakeThreshold _ _ := false
  isWeight _ := true
  isDigest _ := true

def rootText (height : String) : String := "root" ++ height

/-- A checkpoint at a height with the roots the replica holds there. -/
def bodyAt (height snapshot seq : String) (sigs : List Signature) : Body where
  chain := .str "BTC"
  network := .str "mainnet"
  block_index := .num height
  block_hash := .str "hash"
  ledger_hash := .str "ledger"
  actions_hash := .str "actions"
  contract_hash := .str "contract"
  checkpoint_seq := .num seq
  snapshot_block := .num snapshot
  state_root := .str (rootText height)
  block_merkle_root := .str "merkle"
  state_root_version := .num "1"
  block_merkle_version := .num "1"
  supersedes_from := .null
  rules_digest := .null
  fold_archive := none
  validator_signatures := sigs

/-- A replica at block 30 whose signer set is `old` as of heights below 10 and `new` from there. -/
def rotatingReplica : Replica where
  coinTicker := "BTC"
  network := "mainnet"
  tickerOf s := s
  lastAppliedBlock := .num "30"
  getStateTreeRootByBlock
    | .num height => some ⟨.str (rootText height), .str "merkle"⟩
    | _ => none
  getStakeWeightsByCapabilityAsOf v :=
    ([⟨some (if digitValue v.text < 10 then "old" else "new"), some "5", "source"⟩], false)
  isZeroAmount s := s == "0"

def rotatingSteps : List Body :=
  [bodyAt "20" "10" "2" [⟨"old", "old"⟩], bodyAt "30" "20" "3" [⟨"new", "new"⟩]]

/-- The follow from block 10 to block 30 over a page of two rows. -/
theorem follow_over_a_rotation :
    followCheckpointForward plainVerifier rotatingReplica
        (fun _ _ _ => .checkpoints (rotatingSteps.map some)) (bodyAt "30" "20" "3" [])
        (some (bodyAt "10" "0" "1" [])) = .ok (.ok (bodyAt "30" "20" "3" [⟨"new", "new"⟩])) ∧
      ∃ s, some (bodyAt "10" "0" "1" []) = some s ∧ RootsEqual plainVerifier rotatingReplica s ∧
        ∃ steps, (s :: steps).IsChain (Attested plainVerifier rotatingReplica) ∧
          (∀ c ∈ steps, Served (fun _ _ _ => .checkpoints (rotatingSteps.map some)) c) ∧
          steps.getLast? = some (bodyAt "30" "20" "3" [⟨"new", "new"⟩]) ∧
          SameSigned plainVerifier (bodyAt "30" "20" "3" [])
            (bodyAt "30" "20" "3" [⟨"new", "new"⟩]) := by
  have hfollow : followCheckpointForward plainVerifier rotatingReplica
      (fun _ _ _ => .checkpoints (rotatingSteps.map some)) (bodyAt "30" "20" "3" [])
      (some (bodyAt "10" "0" "1" [])) = .ok (.ok (bodyAt "30" "20" "3" [⟨"new", "new"⟩])) := by
    decide
  exact ⟨hfollow, rotation_follow_sound plainVerifier rotatingReplica _ hfollow⟩

end XChainSync.Checkpoint
