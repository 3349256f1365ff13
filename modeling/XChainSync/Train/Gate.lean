import Mathlib.Data.List.Sort
import Mathlib.Order.WithBot
import XChainSync.Library.Json

/-!
# The train gate

`evaluateTrainActivation` and what it reads: the rule sets this build carries and the requirement of
the release manifest. Heights, versions and networks arrive untyped and are normalised here.
-/

namespace XChainSync.Train
open Json (Engine Value TypeError)
set_option autoImplicit false

/-- What the gate throws. -/
inductive Thrown where
  | typeError
  | unparseable (version : String)
  deriving DecidableEq, Repr

def coerced {α : Type} : Except TypeError α → Except Thrown α
  | .ok a => .ok a
  | .error _ => .error .typeError

/-! ### The rule sets of this build -/

/-- A rule set to the heights of its networks. -/
abbrev Activation := List (String × List (String × ℚ))

/-- The sentinel of a row that never arms. -/
def UNARMED : ℚ := 9999999999

def TRAIN_ACTIVATION : Activation :=
  [("1.0.0", [("mainnet", 0), ("testnet", 0), ("regtest", 0)]),
    ("0.19.0", [("mainnet", UNARMED), ("testnet", 152787), ("regtest", 0)]),
    ("0.20.0", [("mainnet", UNARMED), ("testnet", 154074), ("regtest", 0)]),
    ("0.21.0", [("mainnet", UNARMED), ("testnet", 154566), ("regtest", 0)])]

section Versions
variable (js : Engine)

/-- One part of a version as a double, `⊤` where it is too large for one. -/
def versionPart (cs : List Char) : Option (WithTop ℚ) :=
  if cs.isEmpty || !cs.all JsText.isDigit then none
  else some (js.toDouble (JsText.digits 10 cs))

/-- `parseRuleSetVersion` of a text: three parts of digits and nothing else. -/
def parseRuleSetVersion (v : String) : Option (List (WithTop ℚ)) :=
  let parts := (JsText.trimChars v.toList).splitOn '.'
  if parts.length = 3 then parts.mapM (versionPart js) else none

def comparePart (a b : WithTop ℚ) : Ordering := if a = b then .eq else if a < b then .lt else .gt

def compareParts : List (WithTop ℚ) → List (WithTop ℚ) → Ordering
  | a :: as, b :: bs => (comparePart a b).then (compareParts as bs)
  | _, _ => .eq

def compareRuleSetVersions (a b : String) : Except Thrown Ordering :=
  match parseRuleSetVersion js a, parseRuleSetVersion js b with
  | none, _ => .error (.unparseable a)
  | some _, none => .error (.unparseable b)
  | some pa, some pb => .ok (compareParts pa pb)

/-- The keys in ascending order. A sort compares every key of two or more. -/
def implementedRuleSets (activation : Activation) : Except Thrown (List String) :=
  let keys := activation.map Prod.fst
  match keys.find? fun key => (parseRuleSetVersion js key).isNone with
  | some key => if 2 ≤ keys.length then .error (.unparseable key) else .ok keys
  | none => .ok (keys.insertionSort fun a b =>
      compareParts ((parseRuleSetVersion js a).getD []) ((parseRuleSetVersion js b).getD []) ≠ .gt)

def activationHeightFor (version : String) (network : Option String) (activation : Activation) :
    Option ℚ :=
  (activation.lookup version).bind fun row => row.lookup (network.getD "null")

/-- `asHeight(v)`: no number is read into a value that writes none. -/
def asHeight : Option Value → Except TypeError (Option ℚ)
  | none => .ok none
  | some .null => .ok none
  | some (.bool _) => .ok none
  | some (.str "") => .ok none
  | some v => v.number js

/-- One turn of the loop of `resolveRuleSet`. -/
def betterRuleSet (h : ℚ) (network : Option String) (activation : Activation)
    (best : Option (String × ℚ)) (version : String) : Except Thrown (Option (String × ℚ)) :=
  match activationHeightFor version network activation with
  | none => .ok best
  | some height =>
    if h < height then .ok best
    else match best with
      | none => .ok (some (version, height))
      | some (held, heldAt) =>
        if heldAt < height then .ok (some (version, height))
        else if height = heldAt then do
          let order ← compareRuleSetVersions js version held
          return if order = .gt then some (version, height) else some (held, heldAt)
        else .ok (some (held, heldAt))

def resolveRuleSet (clock : Option ℚ) (network : Option String) (activation : Activation) :
    Except Thrown (Option String) :=
  match clock with
  | none => .ok none
  | some h => do
    let versions ← implementedRuleSets js activation
    let best ← versions.foldlM (betterRuleSet js h network activation) none
    return best.map Prod.fst

end Versions

/-! ### The requirement of a manifest -/

/-- Why a manifest cannot be read. -/
inductive Malformed where
  | notAnObject
  | version (v : Option Value)
  | heights
  | unreadable (file : String)
  | notJson (file : String)

/-- A requirement as the verdict wants it. -/
inductive Requirement where
  | malformed (why : Malformed)
  | ruleSet (version : String) (heights : List (String × Value)) (classification : Option Value)

section Verdicts
variable (js : Engine)

/-- `String(v === null || v === undefined ? '' : v)`. -/
def versionText : Option Value → Except TypeError String
  | none => .ok ""
  | some .null => .ok ""
  | some v => v.text js

def readManifestTrainActivation (manifest : Value) : Except Thrown (Option Requirement) :=
  match manifest.member "trainActivation" with
  | none => .ok none
  | some .null => .ok none
  | some (.obj block) => do
    let version ← coerced (versionText js (block.lookup "ruleSetVersion"))
    match parseRuleSetVersion js version, block.lookup "heights" with
    | none, _ => return some (.malformed (.version (block.lookup "ruleSetVersion")))
    | some _, some (.obj heights) =>
      return some (.ruleSet (JsText.trim version) heights
        ((block.lookup "classification").filter Value.truthy))
    | some _, _ => return some (.malformed .heights)
  | some _ => .ok (some (.malformed .notAnObject))

inductive Status where
  | clear
  | pending
  | halt
  deriving DecidableEq, Repr

/-- What the text of a verdict says, with the values in it. -/
inductive Reason where
  | unreadable (why : Malformed)
  | noHeight (wanted : String) (network : Option String)
  | noClock (wanted : String) (height : ℚ) (network : Option String)
  | crossed (clock : ℚ) (wanted : String) (height : ℚ) (network : Option String)
  | ahead (wanted : String) (height : ℚ) (network : Option String) (blocks : ℚ)

structure Verdict where
  status : Status := .clear
  activeRuleSet : Option String
  requiredRuleSet : Option String := none
  requiredAtHeight : Option ℚ := none
  network : Option String
  height : Option ℚ
  classification : Option Value := none
  reason : Option Reason := none

/-- The height a requirement names for the network. -/
def requiredHeight (heights : List (String × Value)) (network : Option String) :
    Except TypeError (Option ℚ) :=
  asHeight js (heights.lookup (network.getD "null"))

def unsupportedTrainVerdict (base : Verdict) (wanted : String) (heights : List (String × Value))
    (network : Option String) (clock : Option ℚ) : Except Thrown Verdict := do
  match ← coerced (requiredHeight js heights network) with
  | none =>
    return { base with
      status := .halt, requiredRuleSet := some wanted, reason := some (.noHeight wanted network) }
  | some height =>
    let named := { base with requiredRuleSet := some wanted, requiredAtHeight := some height }
    match clock with
    | none =>
      return { named with status := .halt, reason := some (.noClock wanted height network) }
    | some c =>
      if height ≤ c then
        return { named with status := .halt, reason := some (.crossed c wanted height network) }
      else
        return { named with
          status := .pending, reason := some (.ahead wanted height network (height - c)) }

/-- The pre-apply verdict. -/
def evaluateTrainActivation (activation : Activation) (network : Option String)
    (height : Option Value) (required : Option Requirement) : Except Thrown Verdict := do
  let clock ← coerced (asHeight js height)
  let active ← resolveRuleSet js clock network activation
  let base : Verdict := { activeRuleSet := active, network := network, height := clock }
  match required with
  | none => return base
  | some (.malformed why) =>
    return { base with status := .halt, reason := some (.unreadable why) }
  | some (.ruleSet wanted heights classification) =>
    let base := { base with classification := classification }
    let implemented ← implementedRuleSets js activation
    if wanted ∈ implemented then return base
    else unsupportedTrainVerdict js base wanted heights network clock

end Verdicts

/-! ### The status of a verdict -/

section Spec
variable {js : Engine}

theorem mapM_isSome {α β : Type} {f : α → Option β} {xs : List α}
    (h : ∀ x ∈ xs, (f x).isSome) : (xs.mapM f).isSome := by
  induction xs with
  | nil => rfl
  | cons x xs ih =>
    obtain ⟨y, hy⟩ := Option.isSome_iff_exists.mp (h x List.mem_cons_self)
    obtain ⟨ys, hys⟩ := Option.isSome_iff_exists.mp (ih fun x hx => h x (List.mem_cons_of_mem _ hx))
    simp [List.mapM_cons, hy, hys]

/-- Every version this build carries can be read. -/
theorem parseRuleSetVersion_build (js : Engine) :
    ∀ version ∈ TRAIN_ACTIVATION.map Prod.fst, (parseRuleSetVersion js version).isSome := by
  have hparts : ∀ version ∈ TRAIN_ACTIVATION.map Prod.fst,
      ((JsText.trimChars version.toList).splitOn '.').length = 3 ∧
      ∀ cs ∈ (JsText.trimChars version.toList).splitOn '.',
        cs.isEmpty = false ∧ cs.all JsText.isDigit = true := by decide
  intro version hversion
  obtain ⟨hlength, hdigits⟩ := hparts version hversion
  unfold parseRuleSetVersion
  rw [if_pos hlength]
  apply mapM_isSome
  intro cs hcs
  obtain ⟨hempty, hall⟩ := hdigits cs hcs
  rw [versionPart, hempty, hall]
  rfl

/-- The versions this build carries, in ascending order. -/
def buildRuleSets (js : Engine) : List String :=
  (TRAIN_ACTIVATION.map Prod.fst).insertionSort fun a b =>
    compareParts ((parseRuleSetVersion js a).getD []) ((parseRuleSetVersion js b).getD []) ≠ .gt

theorem implementedRuleSets_build (js : Engine) :
    implementedRuleSets js TRAIN_ACTIVATION = .ok (buildRuleSets js) := by
  have hall : (TRAIN_ACTIVATION.map Prod.fst).find?
      (fun key => (parseRuleSetVersion js key).isNone) = none := by
    rw [List.find?_eq_none]
    intro key hkey hnone
    have hsome := parseRuleSetVersion_build js key hkey
    simp_all
  unfold implementedRuleSets
  simp only [hall]
  rfl

theorem mem_buildRuleSets {version : String} :
    version ∈ buildRuleSets js ↔ version ∈ TRAIN_ACTIVATION.map Prod.fst :=
  (List.perm_insertionSort _ _).mem_iff

/-- The loop of `resolveRuleSet` compares versions that can be read only. -/
theorem foldlM_betterRuleSet (h : ℚ) (network : Option String) (activation : Activation)
    {versions : List String} (hversions : ∀ v ∈ versions, (parseRuleSetVersion js v).isSome)
    {best : Option (String × ℚ)} (hbest : ∀ b, best = some b → (parseRuleSetVersion js b.1).isSome) :
    ∃ r, versions.foldlM (betterRuleSet js h network activation) best = .ok r := by
  induction versions generalizing best with
  | nil => exact ⟨best, rfl⟩
  | cons v versions ih =>
    obtain ⟨pv, hpv⟩ := Option.isSome_iff_exists.mp (hversions v List.mem_cons_self)
    have hturn : ∃ next, betterRuleSet js h network activation best v = .ok next ∧
        ∀ b, next = some b → (parseRuleSetVersion js b.1).isSome := by
      unfold betterRuleSet
      cases activationHeightFor v network activation with
      | none => exact ⟨best, rfl, hbest⟩
      | some height =>
        dsimp only
        split
        · exact ⟨best, rfl, hbest⟩
        · cases best with
          | none => exact ⟨_, rfl, by rintro b ⟨⟩; simp [hpv]⟩
          | some held =>
            obtain ⟨ph, hph⟩ := Option.isSome_iff_exists.mp (hbest held rfl)
            dsimp only
            split
            · exact ⟨_, rfl, by rintro b ⟨⟩; simp [hpv]⟩
            · split
              · simp only [compareRuleSetVersions, hpv, hph, bind, Except.bind, pure, Except.pure]
                refine ⟨_, rfl, fun b hb => ?_⟩
                split at hb
                · obtain rfl := Option.some.inj hb
                  simp [hpv]
                · obtain rfl := Option.some.inj hb
                  simp [hph]
              · exact ⟨_, rfl, by rintro b ⟨⟩; simp [hph]⟩
    obtain ⟨next, hnext, hparsed⟩ := hturn
    obtain ⟨r, hr⟩ := ih (fun v hv => hversions v (List.mem_cons_of_mem _ hv)) hparsed
    refine ⟨r, ?_⟩
    rw [List.foldlM_cons, hnext]
    exact hr

theorem resolveRuleSet_build (js : Engine) (clock : Option ℚ) (network : Option String) :
    ∃ active, resolveRuleSet js clock network TRAIN_ACTIVATION = .ok active := by
  cases clock with
  | none => exact ⟨none, rfl⟩
  | some h =>
    have hversions : ∀ v ∈ buildRuleSets js, (parseRuleSetVersion js v).isSome :=
      fun v hv => parseRuleSetVersion_build js v (mem_buildRuleSets.mp hv)
    obtain ⟨r, hr⟩ := @foldlM_betterRuleSet js h network TRAIN_ACTIVATION _ hversions none (by simp)
    refine ⟨r.map Prod.fst, ?_⟩
    simp only [resolveRuleSet, implementedRuleSets_build, bind, Except.bind, pure, Except.pure, hr]

/-- What the status of a requirement is at a clock. -/
def statusOf (js : Engine) (network : Option String) (required : Option Requirement)
    (clock : Option ℚ) : Except Thrown Status :=
  match required with
  | none => .ok .clear
  | some (.malformed _) => .ok .halt
  | some (.ruleSet wanted heights _) =>
    if wanted ∈ buildRuleSets js then .ok .clear
    else match requiredHeight js heights network, clock with
      | .error _, _ => .error .typeError
      | .ok none, _ => .ok .halt
      | .ok (some _), none => .ok .halt
      | .ok (some height), some c => .ok (if height ≤ c then .halt else .pending)

/-- The verdict of this build has the status of the requirement at the clock of the height. -/
theorem evaluate_status {network : Option String} {height : Option Value}
    {required : Option Requirement} {clock : Option ℚ} (hclock : asHeight js height = .ok clock) :
    (evaluateTrainActivation js TRAIN_ACTIVATION network height required).map Verdict.status =
      statusOf js network required clock := by
  obtain ⟨active, hactive⟩ := resolveRuleSet_build js clock network
  unfold evaluateTrainActivation
  simp only [hclock, coerced, hactive, bind, Except.bind, pure, Except.pure]
  cases required with
  | none => rfl
  | some required =>
    cases required with
    | malformed why => rfl
    | ruleSet wanted heights classification =>
      simp only [implementedRuleSets_build, statusOf]
      split
      · rfl
      · unfold unsupportedTrainVerdict
        cases hheight : requiredHeight js heights network with
        | error e => rfl
        | ok height =>
          cases height with
          | none => rfl
          | some height =>
            cases clock with
            | none => rfl
            | some c =>
              simp only [coerced, bind, Except.bind, pure, Except.pure]
              split <;> rfl

/-- As the clock grows, a status stays or becomes halt. -/
theorem statusOf_mono (network : Option String) (required : Option Requirement) {c c' : ℚ}
    (hc : c ≤ c') :
    statusOf js network required (some c') = statusOf js network required (some c) ∨
      (statusOf js network required (some c) ≠ .ok .halt ∧
        statusOf js network required (some c') = .ok .halt) := by
  cases required with
  | none => exact .inl rfl
  | some required =>
    cases required with
    | malformed why => exact .inl rfl
    | ruleSet wanted heights classification =>
      simp only [statusOf]
      by_cases hwanted : wanted ∈ buildRuleSets js
      · simp only [hwanted, if_true]
        exact .inl trivial
      · simp only [hwanted, if_false]
        cases requiredHeight js heights network with
        | error e => exact .inl rfl
        | ok height =>
          cases height with
          | none => exact .inl rfl
          | some height =>
            dsimp only
            by_cases hlow : height ≤ c
            · rw [if_pos hlow, if_pos (hlow.trans hc)]
              exact .inl rfl
            · rw [if_neg hlow]
              split
              · exact .inr ⟨by simp, rfl⟩
              · exact .inl rfl

end Spec

end XChainSync.Train
