import Mathlib
import XChainSync.Library.JsText
import XChainSync.Library.WeightedQuorum
import XChainSync.Client.Events

/-!
# The stake-weighted quorum

A snapshot lists keys with the source they stake for and its weight. Weights are summed source by
source, the first entry of a source giving its weight, and signers are counted by the source of
their key, the last entry of a key giving its source. Decimal arithmetic is exact.
-/

namespace XChainSync.Quorum
open Client (JsVal)
set_option autoImplicit false

/-- An entry of a snapshot; a bare key has no source. -/
structure StakeEntry where
  pubkey : JsVal
  source : JsVal
  weight : JsVal
  deriving DecidableEq, Repr

/-- A snapshot, none for an entry that is null. -/
structure StakeSnapshot where
  entries : List (Option StakeEntry)
  truncated : Bool
  deriving DecidableEq, Repr

/-- `weightBySource` in the order of insertion; of `pubkeyToSource` the newest entry of a key
counts. -/
structure StakeIndex where
  weightBySource : List (String × String)
  pubkeyToSource : List (String × String)
  deriving DecidableEq, Repr

/-- Coerce to an exact number, nonnumeric to 0. -/
def bcnum (s : String) : ℚ := (JsText.decimal (JsText.trim s)).getD 0

section Tally
variable (lower : String → String)

def indexStakeEntry (index : StakeIndex) : Option StakeEntry → Option StakeIndex
  | none => none
  | some v =>
    if v.source.nullish || JsText.trim v.source.text = "" then none
    else
      let src := v.source.text
      let pk := lower v.pubkey.text
      let index := { index with pubkeyToSource := (pk, src) :: index.pubkeyToSource }
      if (index.weightBySource.lookup src).isSome then some index
      else if v.weight.nullish then none
      else
        let ws := JsText.trim v.weight.text
        if (JsText.decimal ws).isNone then none
        else some { index with weightBySource := index.weightBySource ++ [(src, ws)] }

def indexStakeSources (entries : List (Option StakeEntry)) : Option StakeIndex :=
  entries.foldlM (indexStakeEntry lower) ⟨[], []⟩

def addStakeWeight (S : ℚ) (w : String) : Option ℚ := if bcnum w < 0 then none else some (S + bcnum w)

def sumStakeWeights (weightBySource : List (String × String)) : Option ℚ :=
  ((weightBySource.map Prod.snd).foldlM addStakeWeight 0).filter (0 < ·)

/-- The keys seen, the sources counted and the tally so far. -/
structure SignerTally where
  seenPubkeys : List String
  countedSources : List String
  tally : ℚ

def countSigner (index : StakeIndex) (st : SignerTally) (pk : JsVal) : SignerTally :=
  let lpk := lower pk.text
  if st.seenPubkeys.contains lpk then st
  else
    let st := { st with seenPubkeys := lpk :: st.seenPubkeys }
    match index.pubkeyToSource.lookup lpk with
    | none => st
    | some src =>
      if st.countedSources.contains src then st
      else { st with
        countedSources := src :: st.countedSources
        tally := st.tally + bcnum ((index.weightBySource.lookup src).getD "0") }

def sumSignerStake (index : StakeIndex) (signerPubkeys : List JsVal) : ℚ :=
  (signerPubkeys.foldl (countSigner lower index) ⟨[], [], 0⟩).tally

def meetsStakeThreshold (validators : StakeSnapshot) (signerPubkeys : List JsVal) : Bool :=
  if validators.truncated then false
  else match indexStakeSources lower validators.entries with
    | none => false
    | some index => match sumStakeWeights index.weightBySource with
      | none => false
      | some S => sumSignerStake lower index signerPubkeys * 3 > S * 2

end Tally

namespace StakeEntry
variable (lower : String → String) (e : StakeEntry)

/-- The key, which counts without its case. -/
def key : String := lower e.pubkey.text

/-- The source, where it is not blank. -/
def sourceOf : Option String :=
  if e.source.nullish || JsText.trim e.source.text = "" then none else some e.source.text

/-- The weight, where it is a decimal. -/
def weightOf : Option ℚ :=
  if e.weight.nullish then none else JsText.decimal (JsText.trim e.weight.text)

end StakeEntry

namespace StakeSnapshot
variable (lower : String → String) (V : StakeSnapshot)

def listed : List StakeEntry := V.entries.reduceOption

/-- All entries of a source carry one weight, and every key belongs to one source. -/
structure Coherent : Prop where
  one_weight : ∀ a ∈ V.listed, ∀ b ∈ V.listed, ∀ s, a.sourceOf = some s → b.sourceOf = some s →
    a.weightOf = b.weightOf
  one_source : ∀ a ∈ V.listed, ∀ b ∈ V.listed, ∀ s t, a.sourceOf = some s → b.sourceOf = some t →
    a.key lower = b.key lower → s = t

/-- Every entry has a source that is not blank and a decimal weight that is not negative. -/
def WellFormed : Prop :=
  ∀ v ∈ V.entries, ∃ e, v = some e ∧ e.sourceOf.isSome = true ∧ ∃ w, e.weightOf = some w ∧ 0 ≤ w

/-- The distinct sources. -/
def sources : Finset String := (V.listed.filterMap StakeEntry.sourceOf).toFinset

/-- The weight of a source. -/
def weight (s : String) : ℚ :=
  ((V.listed.find? fun e => e.sourceOf = some s).bind StakeEntry.weightOf).getD 0

/-- The source-deduplicated total. -/
def totalStake : ℚ := WeightedQuorum.total V.weight V.sources

/-- The distinct sources with a key among the signers. -/
def signing (X : List JsVal) : Finset String :=
  ((V.listed.filter fun e => e.key lower ∈ X.map fun pk => lower pk.text).filterMap
    StakeEntry.sourceOf).toFinset

end StakeSnapshot

/-! ### The index -/

/-- What the index holds after the entries read so far. -/
structure Indexed (lower : String → String) (es : List StakeEntry) (index : StakeIndex) : Prop where
  nodup : (index.weightBySource.map Prod.fst).Nodup
  weighs : ∀ p ∈ index.weightBySource, ∃ e ∈ es, e.sourceOf = some p.1 ∧
    e.weightOf = some (bcnum p.2)
  covered : ∀ e ∈ es, ∃ s, e.sourceOf = some s ∧ s ∈ index.weightBySource.map Prod.fst
  keyed : ∀ p ∈ index.pubkeyToSource, ∃ e ∈ es, e.key lower = p.1 ∧ e.sourceOf = some p.2
  listed : ∀ e ∈ es, e.key lower ∈ index.pubkeyToSource.map Prod.fst

section Index
variable {lower : String → String}

theorem indexed_empty : Indexed lower [] ⟨[], []⟩ := ⟨by simp, by simp, by simp, by simp, by simp⟩

theorem weightOf_of_decimal {e : StakeEntry} (hnull : e.weight.nullish = false)
    (hdecimal : ¬(JsText.decimal (JsText.trim e.weight.text)).isNone = true) :
    e.weightOf = some (bcnum (JsText.trim e.weight.text)) := by
  have hsome : (JsText.decimal (JsText.trim e.weight.text)).isSome = true := by
    rw [← Option.not_isNone, Bool.not_eq_true', Bool.eq_false_iff]
    exact hdecimal
  obtain ⟨w, hw⟩ := Option.isSome_iff_exists.mp hsome
  simp [StakeEntry.weightOf, hnull, bcnum, hw]

/-- What one entry adds. -/
theorem Indexed.step {es : List StakeEntry} {index index' : StakeIndex} {v : Option StakeEntry}
    (hi : Indexed lower es index) (h : indexStakeEntry lower index v = some index') :
    ∃ e, v = some e ∧ Indexed lower (es ++ [e]) index' := by
  cases v with
  | none => simp [indexStakeEntry] at h
  | some e =>
    refine ⟨e, rfl, ?_⟩
    simp only [indexStakeEntry] at h
    split at h
    · cases h
    rename_i hblank
    have hsource : e.sourceOf = some e.source.text := by
      unfold StakeEntry.sourceOf
      rw [if_neg hblank]
    -- the key is new in front in either case
    have hkeyed : ∀ p ∈ (lower e.pubkey.text, e.source.text) :: index.pubkeyToSource,
        ∃ e' ∈ es ++ [e], e'.key lower = p.1 ∧ e'.sourceOf = some p.2 := by
      intro p hp
      rcases List.mem_cons.mp hp with rfl | hp
      · exact ⟨e, by simp, rfl, hsource⟩
      · obtain ⟨e', he', hkey⟩ := hi.keyed p hp
        exact ⟨e', List.mem_append_left _ he', hkey⟩
    have hlisted : ∀ e' ∈ es ++ [e],
        e'.key lower ∈ ((lower e.pubkey.text, e.source.text) :: index.pubkeyToSource).map Prod.fst := by
      intro e' he'
      rcases List.mem_append.mp he' with he' | he'
      · exact List.mem_cons_of_mem _ (hi.listed e' he')
      · obtain rfl := List.mem_singleton.mp he'
        exact List.mem_cons_self
    split at h
    · rename_i hknown
      cases h
      refine ⟨hi.nodup, ?_, ?_, hkeyed, hlisted⟩
      · intro p hp
        obtain ⟨e', he', hweight⟩ := hi.weighs p hp
        exact ⟨e', List.mem_append_left _ he', hweight⟩
      · intro e' he'
        rcases List.mem_append.mp he' with he' | he'
        · exact hi.covered e' he'
        · obtain rfl := List.mem_singleton.mp he'
          refine ⟨_, hsource, ?_⟩
          obtain ⟨p, hp, heq⟩ := List.lookup_isSome_iff.mp hknown
          exact List.mem_map.mpr ⟨p, hp, (beq_iff_eq.mp heq).symm⟩
    · rename_i hknown
      split at h
      · cases h
      rename_i hnull
      split at h
      · cases h
      rename_i hdecimal
      cases h
      have hweight := weightOf_of_decimal (Bool.not_eq_true _ ▸ hnull) hdecimal
      refine ⟨?_, ?_, ?_, hkeyed, hlisted⟩
      · simp only [List.map_append, List.map_cons, List.map_nil]
        apply List.Nodup.append hi.nodup (List.nodup_singleton _)
        rw [List.disjoint_singleton]
        intro hmem
        obtain ⟨p, hp, heq⟩ := List.mem_map.mp hmem
        exact hknown (List.lookup_isSome_iff.mpr ⟨p, hp, by simp [heq]⟩)
      · intro p hp
        rcases List.mem_append.mp hp with hp | hp
        · obtain ⟨e', he', hweight'⟩ := hi.weighs p hp
          exact ⟨e', List.mem_append_left _ he', hweight'⟩
        · obtain rfl := List.mem_singleton.mp hp
          exact ⟨e, by simp, hsource, hweight⟩
      · intro e' he'
        rcases List.mem_append.mp he' with he' | he'
        · obtain ⟨s, hs, hmem⟩ := hi.covered e' he'
          exact ⟨s, hs, by simp only [List.map_append, List.mem_append]; exact .inl hmem⟩
        · obtain rfl := List.mem_singleton.mp he'
          exact ⟨_, hsource, by simp⟩

/-- The entries of a snapshot that is indexed are all there, and the index is theirs. -/
theorem indexed_of_indexStakeSources {entries : List (Option StakeEntry)} {index : StakeIndex}
    (h : indexStakeSources lower entries = some index) :
    ∃ es, entries = es.map some ∧ Indexed lower es index := by
  induction entries using List.reverseRecOn generalizing index with
  | nil =>
    simp only [indexStakeSources, List.foldlM_nil] at h
    cases h
    exact ⟨[], rfl, indexed_empty⟩
  | append_singleton entries v ih =>
    simp only [indexStakeSources, List.foldlM_append, List.foldlM_cons, List.foldlM_nil] at h
    obtain ⟨index', hprefix, hlast⟩ := Option.bind_eq_some_iff.mp h
    obtain ⟨es, rfl, hi⟩ := ih hprefix
    obtain ⟨e, rfl, hi'⟩ := hi.step (by simpa using hlast)
    exact ⟨es ++ [e], by simp, hi'⟩

/-- An entry with a source and a weight is indexed. -/
theorem indexStakeEntry_isSome (index : StakeIndex) {e : StakeEntry}
    (hsource : e.sourceOf.isSome = true) (hweight : e.weightOf.isSome = true) :
    (indexStakeEntry lower index (some e)).isSome = true := by
  have hblank : (e.source.nullish || JsText.trim e.source.text = "") = false := by
    unfold StakeEntry.sourceOf at hsource
    by_contra hnot
    simp [Bool.not_eq_false _ ▸ hnot] at hsource
  have hnull : e.weight.nullish = false := by
    unfold StakeEntry.weightOf at hweight
    by_contra hnot
    simp [Bool.not_eq_false _ ▸ hnot] at hweight
  have hdecimal : (JsText.decimal (JsText.trim e.weight.text)).isNone = false := by
    simpa [StakeEntry.weightOf, hnull] using hweight
  simp only [indexStakeEntry, hblank, hnull, hdecimal, Bool.false_eq_true, if_false]
  split <;> rfl

theorem indexStakeSources_isSome {entries : List (Option StakeEntry)}
    (h : ∀ v ∈ entries, ∃ e, v = some e ∧ e.sourceOf.isSome = true ∧ e.weightOf.isSome = true) :
    (indexStakeSources lower entries).isSome = true := by
  induction entries using List.reverseRecOn with
  | nil => rfl
  | append_singleton entries v ih =>
    obtain ⟨index, hindex⟩ := Option.isSome_iff_exists.mp
      (ih fun v hv => h v (List.mem_append_left _ hv))
    obtain ⟨e, rfl, hsource, hweight⟩ := h v (by simp)
    unfold indexStakeSources at hindex ⊢
    rw [List.foldlM_append, hindex]
    simpa using indexStakeEntry_isSome index hsource hweight

end Index

/-! ### The sums -/

theorem addStakeWeights_eq_some {ws : List String} {acc S : ℚ} :
    ws.foldlM addStakeWeight acc = some S ↔
      (∀ w ∈ ws, 0 ≤ bcnum w) ∧ S = acc + (ws.map bcnum).sum := by
  induction ws generalizing acc with
  | nil => simp [eq_comm]
  | cons w ws ih =>
    rw [List.foldlM_cons, Option.bind_eq_bind, Option.bind_eq_some_iff]
    constructor
    · rintro ⟨acc', hadd, hrest⟩
      unfold addStakeWeight at hadd
      split at hadd
      · cases hadd
      rename_i hneg
      cases hadd
      obtain ⟨hws, rfl⟩ := ih.mp hrest
      refine ⟨?_, by simp [add_assoc]⟩
      intro x hx
      rcases List.mem_cons.mp hx with rfl | hx
      · exact not_lt.mp hneg
      · exact hws x hx
    · rintro ⟨hws, rfl⟩
      refine ⟨acc + bcnum w, ?_, ih.mpr ⟨fun x hx => hws x (List.mem_cons_of_mem _ hx), ?_⟩⟩
      · unfold addStakeWeight
        rw [if_neg (not_lt.mpr (hws w List.mem_cons_self))]
      · simp [add_assoc]

theorem sumStakeWeights_eq_some {wbs : List (String × String)} {S : ℚ} :
    sumStakeWeights wbs = some S ↔ (∀ p ∈ wbs, 0 ≤ bcnum p.2) ∧
      S = (wbs.map fun p => bcnum p.2).sum ∧ 0 < S := by
  unfold sumStakeWeights
  rw [Option.filter_eq_some_iff, addStakeWeights_eq_some, List.forall_mem_map, List.map_map,
    zero_add, decide_eq_true_eq, and_assoc]
  rfl

/-- The weight the index holds for a source. -/
def StakeIndex.weightOf (index : StakeIndex) (s : String) : ℚ :=
  bcnum ((index.weightBySource.lookup s).getD "0")

/-- What the tally holds after the keys counted so far. -/
structure Tallied (index : StakeIndex) (keys : List String) (st : SignerTally) : Prop where
  seen : ∀ k, k ∈ st.seenPubkeys ↔ k ∈ keys
  nodup : st.countedSources.Nodup
  counted : ∀ s, s ∈ st.countedSources ↔ ∃ k ∈ keys, index.pubkeyToSource.lookup k = some s
  tally : st.tally = (st.countedSources.map index.weightOf).sum

section Signers
variable {lower : String → String} {index : StakeIndex}

theorem tallied_empty : Tallied index [] ⟨[], [], 0⟩ := ⟨by simp, by simp, by simp, by simp⟩

theorem Tallied.step {keys : List String} {st : SignerTally} (ht : Tallied index keys st)
    (pk : JsVal) : Tallied index (keys ++ [lower pk.text]) (countSigner lower index st pk) := by
  have hmore : ∀ s, (∃ k ∈ keys ++ [lower pk.text], index.pubkeyToSource.lookup k = some s) ↔
      (∃ k ∈ keys, index.pubkeyToSource.lookup k = some s) ∨
        index.pubkeyToSource.lookup (lower pk.text) = some s := by
    intro s
    simp only [List.mem_append, List.mem_singleton]
    constructor
    · rintro ⟨k, hk | rfl, hs⟩
      · exact .inl ⟨k, hk, hs⟩
      · exact .inr hs
    · rintro (⟨k, hk, hs⟩ | hs)
      · exact ⟨k, .inl hk, hs⟩
      · exact ⟨_, .inr rfl, hs⟩
  simp only [countSigner]
  split
  · -- a key seen before brings no source that is not counted
    rename_i hseen
    have hmem : lower pk.text ∈ keys := (ht.seen _).mp (List.contains_iff_mem.mp hseen)
    refine ⟨?_, ht.nodup, ?_, ht.tally⟩
    · intro k
      rw [ht.seen, List.mem_append, List.mem_singleton]
      exact ⟨.inl, fun h => h.elim id fun heq => heq ▸ hmem⟩
    · intro s
      rw [hmore, ht.counted]
      exact ⟨.inl, fun h => h.elim id fun hs => ⟨_, hmem, hs⟩⟩
  · have hseen : ∀ k, k ∈ lower pk.text :: st.seenPubkeys ↔ k ∈ keys ++ [lower pk.text] := by
      intro k
      rw [List.mem_cons, List.mem_append, List.mem_singleton, ht.seen, or_comm]
    split
    · rename_i hnone
      refine ⟨hseen, ht.nodup, ?_, ht.tally⟩
      intro s
      rw [hmore, ht.counted, hnone]
      simp
    · rename_i src hsrc
      split
      · rename_i hcounted
        refine ⟨hseen, ht.nodup, ?_, ht.tally⟩
        intro s
        rw [hmore, hsrc, ht.counted]
        have hmem := (ht.counted src).mp (List.contains_iff_mem.mp hcounted)
        exact ⟨.inl, fun h => h.elim id fun heq => Option.some.inj heq ▸ hmem⟩
      · rename_i hcounted
        refine ⟨hseen, ?_, ?_, ?_⟩
        · exact List.nodup_cons.mpr ⟨fun hmem => hcounted (List.contains_iff_mem.mpr hmem), ht.nodup⟩
        · intro s
          rw [hmore, hsrc, List.mem_cons, ht.counted, or_comm, Option.some_inj, eq_comm]
        · simp [ht.tally, StakeIndex.weightOf, add_comm]

theorem tallied_signers (lower : String → String) (index : StakeIndex) (X : List JsVal) :
    Tallied index (X.map fun pk => lower pk.text)
    (X.foldl (countSigner lower index) ⟨[], [], 0⟩) := by
  induction X using List.reverseRecOn with
  | nil => exact tallied_empty
  | append_singleton X pk ih =>
    rw [List.foldl_append, List.map_append]
    exact ih.step pk

end Signers

/-! ### The index of a coherent snapshot -/

theorem mem_of_lookup_eq_some {l : List (String × String)} {k v : String}
    (h : l.lookup k = some v) : (k, v) ∈ l := by
  obtain ⟨l₁, l₂, rfl, -⟩ := List.lookup_eq_some_iff.mp h
  simp

theorem lookup_isSome_of_mem {l : List (String × String)} {k : String} (h : k ∈ l.map Prod.fst) :
    ∃ v, l.lookup k = some v := by
  obtain ⟨p, hp, rfl⟩ := List.mem_map.mp h
  exact Option.isSome_iff_exists.mp (List.lookup_isSome_iff.mpr ⟨p, hp, by simp⟩)

namespace StakeSnapshot
variable {lower : String → String} {V : StakeSnapshot} {index : StakeIndex}

theorem listed_of_entries {es : List StakeEntry} (h : V.entries = es.map some) : V.listed = es := by
  simp [listed, h, List.reduceOption]

theorem mem_sources {s : String} : s ∈ V.sources ↔ ∃ e ∈ V.listed, e.sourceOf = some s := by
  simp [sources]

theorem mem_signing {s : String} {X : List JsVal} : s ∈ V.signing lower X ↔
    ∃ e ∈ V.listed, e.key lower ∈ X.map (fun pk => lower pk.text) ∧ e.sourceOf = some s := by
  simp only [signing, List.mem_toFinset, List.mem_filterMap, List.mem_filter, decide_eq_true_eq,
    and_assoc]

theorem signing_subset (X : List JsVal) : V.signing lower X ⊆ V.sources := by
  intro s hs
  obtain ⟨e, he, -, hsource⟩ := mem_signing.mp hs
  exact mem_sources.mpr ⟨e, he, hsource⟩

/-- Any entry of a source has its weight. -/
theorem weight_eq (hc : V.Coherent lower) {e : StakeEntry} {s : String} {w : ℚ}
    (he : e ∈ V.listed) (hsource : e.sourceOf = some s) (hweight : e.weightOf = some w) :
    V.weight s = w := by
  unfold weight
  cases hfind : V.listed.find? fun e => e.sourceOf = some s with
  | none => simpa [hsource] using List.find?_eq_none.mp hfind e he
  | some first =>
    have hfirst : first.sourceOf = some s := by simpa using List.find?_some hfind
    rw [Option.bind_some, hc.one_weight first (List.mem_of_find?_eq_some hfind) e he s hfirst hsource,
      hweight, Option.getD_some]

theorem bcnum_eq_weight (hc : V.Coherent lower) (hi : Indexed lower V.listed index)
    {p : String × String} (hp : p ∈ index.weightBySource) : bcnum p.2 = V.weight p.1 := by
  obtain ⟨e, he, hsource, hweight⟩ := hi.weighs p hp
  exact (weight_eq hc he hsource hweight).symm

theorem indexed_sources (hi : Indexed lower V.listed index) :
    (index.weightBySource.map Prod.fst).toFinset = V.sources := by
  ext s
  rw [List.mem_toFinset, mem_sources]
  constructor
  · intro hs
    obtain ⟨p, hp, rfl⟩ := List.mem_map.mp hs
    obtain ⟨e, he, hsource, -⟩ := hi.weighs p hp
    exact ⟨e, he, hsource⟩
  · rintro ⟨e, he, hsource⟩
    obtain ⟨s', hs', hmem⟩ := hi.covered e he
    exact Option.some.inj (hsource.symm.trans hs') ▸ hmem

theorem indexed_weightOf (hc : V.Coherent lower) (hi : Indexed lower V.listed index) {s : String}
    (hs : s ∈ V.sources) : index.weightOf s = V.weight s := by
  rw [← indexed_sources hi, List.mem_toFinset] at hs
  obtain ⟨ws, hws⟩ := lookup_isSome_of_mem hs
  have hweight := bcnum_eq_weight hc hi (mem_of_lookup_eq_some hws)
  rw [StakeIndex.weightOf, hws, Option.getD_some]
  exact hweight

/-- The sum of the index is the source-deduplicated total. -/
theorem indexed_sum (hc : V.Coherent lower) (hi : Indexed lower V.listed index) :
    (index.weightBySource.map fun p => bcnum p.2).sum = V.totalStake := by
  have hmap : (index.weightBySource.map fun p => bcnum p.2) =
      (index.weightBySource.map Prod.fst).map V.weight := by
    rw [List.map_map]
    exact List.map_congr_left fun p hp => bcnum_eq_weight hc hi hp
  rw [hmap, ← List.sum_toFinset _ hi.nodup, indexed_sources hi]
  rfl

/-- The last entry of a key names the one source the key belongs to. -/
theorem indexed_lookup (hc : V.Coherent lower) (hi : Indexed lower V.listed index) {k s : String} :
    index.pubkeyToSource.lookup k = some s ↔
      ∃ e ∈ V.listed, e.key lower = k ∧ e.sourceOf = some s := by
  constructor
  · intro hlookup
    exact hi.keyed _ (mem_of_lookup_eq_some hlookup)
  · rintro ⟨e, he, rfl, hsource⟩
    obtain ⟨t, ht⟩ := lookup_isSome_of_mem (hi.listed e he)
    obtain ⟨e', he', hkey, hsource'⟩ := hi.keyed _ (mem_of_lookup_eq_some ht)
    rw [ht, hc.one_source e' he' e he t s hsource' hsource hkey]

/-- The tally is the weight of the distinct sources that signed. -/
theorem indexed_tally (hc : V.Coherent lower) (hi : Indexed lower V.listed index) (X : List JsVal) :
    sumSignerStake lower index X = WeightedQuorum.total V.weight (V.signing lower X) := by
  have ht := tallied_signers lower index X
  unfold sumSignerStake
  generalize X.foldl (countSigner lower index) ⟨[], [], 0⟩ = st at ht ⊢
  have hcounted : st.countedSources.toFinset = V.signing lower X := by
    ext s
    rw [List.mem_toFinset, ht.counted, mem_signing]
    constructor
    · rintro ⟨k, hk, hlookup⟩
      obtain ⟨e, he, rfl, hsource⟩ := (indexed_lookup hc hi).mp hlookup
      exact ⟨e, he, hk, hsource⟩
    · rintro ⟨e, he, hk, hsource⟩
      exact ⟨_, hk, (indexed_lookup hc hi).mpr ⟨e, he, rfl, hsource⟩⟩
  have hmap : st.countedSources.map index.weightOf = st.countedSources.map V.weight := by
    apply List.map_congr_left
    intro s hs
    apply indexed_weightOf hc hi
    exact signing_subset X (hcounted ▸ List.mem_toFinset.mpr hs)
  rw [ht.tally, hmap, ← List.sum_toFinset _ ht.nodup, hcounted]
  rfl

theorem wellFormed_iff (hc : V.Coherent lower) {es : List StakeEntry}
    (hes : V.entries = es.map some) (hi : Indexed lower V.listed index) :
    V.WellFormed ↔ ∀ p ∈ index.weightBySource, 0 ≤ bcnum p.2 := by
  have hlisted := listed_of_entries hes
  constructor
  · intro hwell p hp
    obtain ⟨e, he, -, hweight⟩ := hi.weighs p hp
    obtain ⟨e', heq, -, w, hw, hpos⟩ := hwell (some e)
      (by rw [hes]; exact List.mem_map_of_mem (hlisted ▸ he))
    cases heq
    exact Option.some.inj (hw.symm.trans hweight) ▸ hpos
  · intro hpos v hv
    rw [hes] at hv
    obtain ⟨e, he, rfl⟩ := List.mem_map.mp hv
    rw [← hlisted] at he
    obtain ⟨s, hsource, hmem⟩ := hi.covered e he
    obtain ⟨p, hp, rfl⟩ := List.mem_map.mp hmem
    obtain ⟨e', he', hsource', hweight⟩ := hi.weighs p hp
    refine ⟨e, rfl, by rw [hsource]; rfl, bcnum p.2, ?_, hpos p hp⟩
    rw [hc.one_weight e he e' he' _ hsource hsource', hweight]

theorem weight_nonneg (hc : V.Coherent lower) (hwell : V.WellFormed) {s : String}
    (hs : s ∈ V.sources) : 0 ≤ V.weight s := by
  obtain ⟨e, he, hsource⟩ := mem_sources.mp hs
  have hmem : some e ∈ V.entries := by
    simpa [listed, List.reduceOption, List.mem_filterMap] using he
  obtain ⟨e', heq, -, w, hweight, hpos⟩ := hwell _ hmem
  cases heq
  rw [weight_eq hc he hsource hweight]
  exact hpos

/-- The threshold is met by the quorums of a whole and well-formed snapshot with stake. -/
theorem meetsStakeThreshold_iff (hc : V.Coherent lower) (X : List JsVal) :
    meetsStakeThreshold lower V X = true ↔ V.truncated = false ∧ V.WellFormed ∧ 0 < V.totalStake ∧
      WeightedQuorum.IsQuorum V.weight V.sources (V.signing lower X) := by
  unfold meetsStakeThreshold
  cases V.truncated with
  | true => simp
  | false =>
    simp only [Bool.false_eq_true, if_false, true_and]
    cases hindex : indexStakeSources lower V.entries with
    | none =>
      have hmalformed : ¬V.WellFormed := by
        intro hwell
        have hentries : ∀ v ∈ V.entries, ∃ e, v = some e ∧ e.sourceOf.isSome = true ∧
            e.weightOf.isSome = true := by
          intro v hv
          obtain ⟨e, rfl, hsource, w, hweight, -⟩ := hwell v hv
          exact ⟨e, rfl, hsource, by rw [hweight]; rfl⟩
        have hsome : (indexStakeSources lower V.entries).isSome = true :=
          indexStakeSources_isSome hentries
        rw [hindex] at hsome
        cases hsome
      simp [hmalformed]
    | some index =>
      obtain ⟨es, hes, hi⟩ := indexed_of_indexStakeSources hindex
      rw [← listed_of_entries hes] at hi
      dsimp only
      rw [wellFormed_iff hc hes hi]
      cases hsum : sumStakeWeights index.weightBySource with
      | none =>
        simp only [Bool.false_eq_true, false_iff, not_and]
        intro hpos hS
        have hsome : sumStakeWeights index.weightBySource = some V.totalStake :=
          sumStakeWeights_eq_some.mpr ⟨hpos, (indexed_sum hc hi).symm, hS⟩
        rw [hsum] at hsome
        cases hsome
      | some S =>
        obtain ⟨hpos, hS, hzero⟩ := sumStakeWeights_eq_some.mp hsum
        rw [indexed_sum hc hi] at hS
        subst hS
        dsimp only
        rw [indexed_tally hc hi]
        simp only [gt_iff_lt, decide_eq_true_eq, WeightedQuorum.IsQuorum]
        rw [mul_comm (2 : ℚ), mul_comm (3 : ℚ)]
        exact ⟨fun h => ⟨hpos, hzero, h⟩, fun h => h.2.2⟩

theorem meetsStakeThreshold_mono (hc : V.Coherent lower) {X Y : List JsVal}
    (hXY : ∀ k ∈ X.map fun pk => lower pk.text, k ∈ Y.map fun pk => lower pk.text)
    (h : meetsStakeThreshold lower V X = true) : meetsStakeThreshold lower V Y = true := by
  obtain ⟨htruncated, hwell, hzero, hquorum⟩ := (meetsStakeThreshold_iff hc X).mp h
  refine (meetsStakeThreshold_iff hc Y).mpr ⟨htruncated, hwell, hzero, ?_⟩
  apply hquorum.mono (fun s hs => weight_nonneg hc hwell hs) _ (signing_subset Y)
  intro s hs
  obtain ⟨e, he, hkey, hsource⟩ := mem_signing.mp hs
  exact mem_signing.mpr ⟨e, he, hXY _ hkey, hsource⟩

theorem shared_stake (hc : V.Coherent lower) {X Y : List JsVal}
    (hX : meetsStakeThreshold lower V X = true) (hY : meetsStakeThreshold lower V Y = true) :
    V.totalStake < 3 * WeightedQuorum.total V.weight (V.signing lower X ∩ V.signing lower Y) := by
  obtain ⟨-, hwell, -, hquorum⟩ := (meetsStakeThreshold_iff hc X).mp hX
  obtain ⟨-, -, -, hquorum'⟩ := (meetsStakeThreshold_iff hc Y).mp hY
  exact hquorum.inter (fun s hs => weight_nonneg hc hwell hs) (signing_subset X) (signing_subset Y)
    hquorum'

/-! ### The order, the case and the copies of entries -/

/-- What an entry says: its key, its source and its weight. -/
def said (lower : String → String) (e : StakeEntry) : String × Option String × Option ℚ :=
  (e.key lower, e.sourceOf, e.weightOf)

/-- Snapshots of the same entries, in any order and case and any number of times. -/
structure SameEntries (lower : String → String) (V V' : StakeSnapshot) : Prop where
  truncated : V.truncated = V'.truncated
  entries : ∀ x, x ∈ V.entries.map (Option.map (said lower)) ↔
    x ∈ V'.entries.map (Option.map (said lower))

namespace SameEntries
variable {V' : StakeSnapshot}

theorem symm (h : SameEntries lower V V') : SameEntries lower V' V :=
  ⟨h.truncated.symm, fun x => (h.entries x).symm⟩

theorem of_mem_entries (h : SameEntries lower V V') {v : Option StakeEntry} (hv : v ∈ V.entries) :
    ∃ v' ∈ V'.entries, v'.map (said lower) = v.map (said lower) :=
  List.mem_map.mp ((h.entries _).mp (List.mem_map_of_mem hv))

theorem mem_listed {W : StakeSnapshot} {e : StakeEntry} : e ∈ W.listed ↔ some e ∈ W.entries := by
  simp [listed, List.reduceOption, List.mem_filterMap]

theorem of_mem_listed (h : SameEntries lower V V') {e : StakeEntry} (he : e ∈ V.listed) :
    ∃ e' ∈ V'.listed, e'.key lower = e.key lower ∧ e'.sourceOf = e.sourceOf ∧
      e'.weightOf = e.weightOf := by
  obtain ⟨v', hv', hsaid⟩ := h.of_mem_entries (mem_listed.mp he)
  obtain ⟨e', rfl, heq⟩ := Option.map_eq_some_iff.mp hsaid
  simp only [said, Prod.mk.injEq] at heq
  exact ⟨e', mem_listed.mpr hv', heq⟩

theorem coherent (h : SameEntries lower V V') (hc : V.Coherent lower) : V'.Coherent lower := by
  constructor
  · intro a ha b hb s hs ht
    obtain ⟨a', ha', -, hsa, hwa⟩ := h.symm.of_mem_listed ha
    obtain ⟨b', hb', -, hsb, hwb⟩ := h.symm.of_mem_listed hb
    rw [← hwa, ← hwb]
    exact hc.one_weight a' ha' b' hb' s (hsa.trans hs) (hsb.trans ht)
  · intro a ha b hb s t hs ht hkey
    obtain ⟨a', ha', hka, hsa, -⟩ := h.symm.of_mem_listed ha
    obtain ⟨b', hb', hkb, hsb, -⟩ := h.symm.of_mem_listed hb
    exact hc.one_source a' ha' b' hb' s t (hsa.trans hs) (hsb.trans ht)
      (hka.trans (hkey.trans hkb.symm))

theorem wellFormed (h : SameEntries lower V V') (hwell : V.WellFormed) : V'.WellFormed := by
  intro v' hv'
  obtain ⟨v, hv, hsaid⟩ := h.symm.of_mem_entries hv'
  obtain ⟨e, rfl, hsource, hweight⟩ := hwell v hv
  obtain ⟨e', rfl, heq⟩ := Option.map_eq_some_iff.mp hsaid.symm
  simp only [said, Prod.mk.injEq] at heq
  exact ⟨e', rfl, heq.2.1 ▸ hsource, heq.2.2 ▸ hweight⟩

theorem sources_eq (h : SameEntries lower V V') : V.sources = V'.sources := by
  have hsub : ∀ {W W' : StakeSnapshot}, SameEntries lower W W' → W.sources ⊆ W'.sources := by
    intro W W' h s hs
    obtain ⟨e, he, hsource⟩ := mem_sources.mp hs
    obtain ⟨e', he', -, hsource', -⟩ := h.of_mem_listed he
    exact mem_sources.mpr ⟨e', he', hsource'.trans hsource⟩
  exact (hsub h).antisymm (hsub h.symm)

theorem signing_eq (h : SameEntries lower V V') {X X' : List JsVal}
    (hX : ∀ k, k ∈ X.map (fun pk => lower pk.text) ↔ k ∈ X'.map fun pk => lower pk.text) :
    V.signing lower X = V'.signing lower X' := by
  have hsub : ∀ {W W' : StakeSnapshot} {Y Y' : List JsVal}, SameEntries lower W W' →
      (∀ k ∈ Y.map (fun pk => lower pk.text), k ∈ Y'.map fun pk => lower pk.text) →
      W.signing lower Y ⊆ W'.signing lower Y' := by
    intro W W' Y Y' h hY s hs
    obtain ⟨e, he, hkey, hsource⟩ := mem_signing.mp hs
    obtain ⟨e', he', hkey', hsource', -⟩ := h.of_mem_listed he
    exact mem_signing.mpr ⟨e', he', hkey' ▸ hY _ hkey, hsource'.trans hsource⟩
  exact (hsub h fun k => (hX k).mp).antisymm (hsub h.symm fun k => (hX k).mpr)

theorem weight_eq (h : SameEntries lower V V') (hc : V.Coherent lower) (hwell : V.WellFormed)
    {s : String} (hs : s ∈ V.sources) : V'.weight s = V.weight s := by
  obtain ⟨e, he, hsource⟩ := mem_sources.mp hs
  obtain ⟨e', he', -, hsource', hweight'⟩ := h.of_mem_listed he
  obtain ⟨_, heq, -, w, hweight, -⟩ := hwell _ (mem_listed.mp he)
  cases heq
  rw [StakeSnapshot.weight_eq hc he hsource hweight,
    StakeSnapshot.weight_eq (h.coherent hc) he' (hsource'.trans hsource) (hweight'.trans hweight)]

theorem total_eq (h : SameEntries lower V V') (hc : V.Coherent lower) (hwell : V.WellFormed)
    {s : Finset String} (hs : s ⊆ V.sources) :
    WeightedQuorum.total V'.weight s = WeightedQuorum.total V.weight s :=
  Finset.sum_congr rfl fun _ hi => h.weight_eq hc hwell (hs hi)

theorem meets (h : SameEntries lower V V') (hc : V.Coherent lower) {X X' : List JsVal}
    (hX : ∀ k, k ∈ X.map (fun pk => lower pk.text) ↔ k ∈ X'.map fun pk => lower pk.text)
    (hmeets : meetsStakeThreshold lower V X = true) : meetsStakeThreshold lower V' X' = true := by
  obtain ⟨htruncated, hwell, hzero, hquorum⟩ := (meetsStakeThreshold_iff hc X).mp hmeets
  refine (meetsStakeThreshold_iff (h.coherent hc) X').mpr
    ⟨h.truncated ▸ htruncated, h.wellFormed hwell, ?_, ?_⟩
  · rw [totalStake, ← h.sources_eq, h.total_eq hc hwell subset_rfl]
    exact hzero
  · rw [WeightedQuorum.IsQuorum, ← h.sources_eq, ← h.signing_eq hX,
      h.total_eq hc hwell subset_rfl, h.total_eq hc hwell (signing_subset X)]
    exact hquorum

end SameEntries

end StakeSnapshot

/-- The threshold over a coherent snapshot: who meets it, and that more signers do too, that order,
case and copies do not matter, and that two lists which meet it share more than a third. -/
theorem stake_weighted_quorum (lower : String → String) {V : StakeSnapshot}
    (hc : V.Coherent lower) :
    (∀ X, meetsStakeThreshold lower V X = true ↔ V.truncated = false ∧ V.WellFormed ∧
      0 < V.totalStake ∧ 3 * WeightedQuorum.total V.weight (V.signing lower X) > 2 * V.totalStake) ∧
    (∀ X Y : List JsVal, (∀ k ∈ X.map fun pk => lower pk.text, k ∈ Y.map fun pk => lower pk.text) →
      meetsStakeThreshold lower V X = true → meetsStakeThreshold lower V Y = true) ∧
    (∀ V' (X X' : List JsVal), StakeSnapshot.SameEntries lower V V' →
      (∀ k, k ∈ X.map (fun pk => lower pk.text) ↔ k ∈ X'.map fun pk => lower pk.text) →
      meetsStakeThreshold lower V' X' = meetsStakeThreshold lower V X) ∧
    ∀ X Y, meetsStakeThreshold lower V X = true → meetsStakeThreshold lower V Y = true →
      WeightedQuorum.total V.weight (V.signing lower X ∩ V.signing lower Y) > V.totalStake / 3 := by
  refine ⟨V.meetsStakeThreshold_iff hc, fun X Y => V.meetsStakeThreshold_mono hc, ?_, ?_⟩
  · intro V' X X' hsame hX
    rw [Bool.eq_iff_iff]
    exact ⟨hsame.symm.meets (hsame.coherent hc) fun k => (hX k).symm, hsame.meets hc hX⟩
  · intro X Y hX hY
    have hshared := StakeSnapshot.shared_stake hc hX hY
    linarith

/-- Three sources, the first with two keys. -/
def threeSources : StakeSnapshot where
  entries := [some ⟨.str "K1", .str "s1", .str "40"⟩, some ⟨.str "k2", .str "s1", .str " 40.0 "⟩,
    some ⟨.str "k3", .str "s2", .str "30.5"⟩, some ⟨.str "k4", .str "s3", .num "20"⟩]
  truncated := false

def lowerChars (s : String) : String := String.ofList (s.toList.map Char.toLower)

/-- Two of the three sources meet the threshold, and share a third of the stake with any others. -/
theorem two_of_three_sources :
    meetsStakeThreshold lowerChars threeSources [.str "k1", .str "K3"] = true ∧
      ∀ Y, meetsStakeThreshold lowerChars threeSources Y = true →
        WeightedQuorum.total threeSources.weight
          (threeSources.signing lowerChars [.str "k1", .str "K3"] ∩
            threeSources.signing lowerChars Y) > threeSources.totalStake / 3 := by
  have hweights : ∀ a ∈ threeSources.listed, ∀ b ∈ threeSources.listed,
      a.sourceOf = b.sourceOf → a.weightOf = b.weightOf := by decide +kernel
  have hkeys : ∀ a ∈ threeSources.listed, ∀ b ∈ threeSources.listed,
      a.key lowerChars = b.key lowerChars → a.sourceOf = b.sourceOf := by decide +kernel
  have hc : threeSources.Coherent lowerChars := by
    constructor
    · intro a ha b hb s hs ht
      exact hweights a ha b hb (hs.trans ht.symm)
    · intro a ha b hb s t hs ht hkey
      exact Option.some.inj (hs.symm.trans ((hkeys a ha b hb hkey).trans ht))
  have hmeets : meetsStakeThreshold lowerChars threeSources [.str "k1", .str "K3"] = true := by
    decide +kernel
  exact ⟨hmeets, fun Y => (stake_weighted_quorum lowerChars hc).2.2.2 _ Y hmeets⟩

end XChainSync.Quorum
