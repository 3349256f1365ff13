import Mathlib
import XChainSync.Library.KeyedRows
import XChainSync.Library.Runs

/-!
# Named validators on the heartbeat endpoint

A validator that falls silent is first marked stale and, unless it is on the expected roster, later
removed. The times at which each was heard are kept next to the entries.
-/

namespace XChainSync.Broadcaster
open Runs (Run)
open KeyedRows
set_option autoImplicit false

structure Heartbeat where
  validator_id : String
  applied_height : Int
  applied_block_time : Option Int
  last_seen : Int
  /-- With the status `stale`; null while live. -/
  evicted_at : Option Int
  deriving DecidableEq, Repr

structure HeartbeatConfig where
  EXPECTED_VALIDATORS : List String
  VALIDATOR_HEARTBEAT_TTL : Int

/-- What a sweep leaves of an entry. -/
def sweep (cfg : HeartbeatConfig) (now : Int) (entry : Heartbeat) : Option Heartbeat :=
  match entry.evicted_at with
  | some evicted_at =>
    if entry.validator_id ∉ cfg.EXPECTED_VALIDATORS ∧ cfg.VALIDATOR_HEARTBEAT_TTL < now - evicted_at
    then none else some entry
  | none =>
    if cfg.VALIDATOR_HEARTBEAT_TTL < now - entry.last_seen then
      some { entry with evicted_at := some now } else some entry

structure Validators where
  /-- By the key of chain, network and database. -/
  validatorHeartbeats : String → List Heartbeat
  now : Int
  /-- When a validator was last heard. -/
  heard : String → String → Option Int
  /-- The last sweep. -/
  swept : Int

inductive HeartbeatEvent where
  | record (key validator_id : String) (applied_height : Int) (applied_block_time : Option Int)
  | evict
  | wait (ms : Nat)

namespace Validators

def recordValidatorHeartbeat (s : Validators) (key validator_id : String) (applied_height : Int)
    (applied_block_time : Option Int) : Validators :=
  { s with
    validatorHeartbeats := Function.update s.validatorHeartbeats key
      (mapSet Heartbeat.validator_id (s.validatorHeartbeats key)
        ⟨validator_id, applied_height, applied_block_time, s.now, none⟩)
    heard := Function.update s.heard key
      (Function.update (s.heard key) validator_id (some s.now)) }

def evictStaleValidators (cfg : HeartbeatConfig) (s : Validators) : Validators :=
  { s with
    validatorHeartbeats := fun key => (s.validatorHeartbeats key).filterMap (sweep cfg s.now)
    swept := s.now }

def next (cfg : HeartbeatConfig) (s : Validators) : HeartbeatEvent → Validators
  | .record key validator_id applied_height applied_block_time =>
    s.recordValidatorHeartbeat key validator_id applied_height applied_block_time
  | .evict => s.evictStaleValidators cfg
  | .wait ms => { s with now := s.now + ms }

def start (now : Int) : Validators := ⟨fun _ => [], now, fun _ _ => none, now⟩

end Validators

/-! ### What the status endpoint shows -/

inductive ValidatorStatus where
  | known
  | unknown
  | stale
  | absent
  deriving DecidableEq, Repr

structure ValidatorView where
  validator_id : String
  applied_height : Option Int
  applied_block_time : Option Int
  last_seen : Option Int
  lag_blocks : Option Int
  status : ValidatorStatus
  evicted_at : Option Int
  deriving DecidableEq, Repr

structure ValidatorHeartbeats where
  validators : List ValidatorView
  total : Nat
  expected_total : Option Nat
  unknown_count : Nat
  deriving DecidableEq, Repr

def lagBlocks (sourceHeight : Option Int) (entry : Heartbeat) : Option Int :=
  sourceHeight.map fun height => max 0 (height - entry.applied_height)

def viewOf (sourceHeight : Option Int) (entry : Heartbeat) : ValidatorView where
  validator_id := entry.validator_id
  applied_height := some entry.applied_height
  applied_block_time := entry.applied_block_time
  last_seen := some entry.last_seen
  lag_blocks := lagBlocks sourceHeight entry
  status := if entry.evicted_at.isSome then .stale
    else if (lagBlocks sourceHeight entry).isNone then .unknown else .known
  evicted_at := entry.evicted_at

def absentView (id : String) : ValidatorView := ⟨id, none, none, none, none, .absent, none⟩

/-- Roster members that are not in the view yet. -/
def fillRoster (expected : List String) (views : List ValidatorView) : List ValidatorView :=
  expected.foldl (fun acc id =>
    if acc.any (·.validator_id = id) then acc else acc ++ [absentView id]) views

def Validators.getValidatorHeartbeats (cfg : HeartbeatConfig) (s : Validators)
    (sourceHeight : Option Int) (key : String) : ValidatorHeartbeats where
  validators := fillRoster cfg.EXPECTED_VALIDATORS
    ((s.validatorHeartbeats key).map (viewOf sourceHeight))
  total := ((s.validatorHeartbeats key).filter (·.evicted_at.isNone)).length
  expected_total := if cfg.EXPECTED_VALIDATORS = [] then none
    else some cfg.EXPECTED_VALIDATORS.length
  unknown_count := ((s.validatorHeartbeats key).filter
    fun entry => (lagBlocks sourceHeight entry).isNone).length

variable {cfg : HeartbeatConfig} {s s' : Validators} {entry entry' : Heartbeat} {key id : String}

/-! ### A sweep -/

/-- An entry stays, turns stale, or is removed after a second TTL of silence. -/
inductive Swept (cfg : HeartbeatConfig) (now : Int) (entry : Heartbeat) : Option Heartbeat → Prop where
  | live (hlive : entry.evicted_at = none)
      (hheard : now - entry.last_seen ≤ cfg.VALIDATOR_HEARTBEAT_TTL) : Swept cfg now entry (some entry)
  | lapses (hlive : entry.evicted_at = none)
      (hsilent : cfg.VALIDATOR_HEARTBEAT_TTL < now - entry.last_seen) :
      Swept cfg now entry (some { entry with evicted_at := some now })
  | stays {evicted_at : Int} (hstale : entry.evicted_at = some evicted_at)
      (hkept : entry.validator_id ∈ cfg.EXPECTED_VALIDATORS ∨
        now - evicted_at ≤ cfg.VALIDATOR_HEARTBEAT_TTL) : Swept cfg now entry (some entry)
  | removed {evicted_at : Int} (hstale : entry.evicted_at = some evicted_at)
      (hstranger : entry.validator_id ∉ cfg.EXPECTED_VALIDATORS)
      (hsilent : cfg.VALIDATOR_HEARTBEAT_TTL < now - evicted_at) : Swept cfg now entry none

theorem sweep_cases (cfg : HeartbeatConfig) (now : Int) (entry : Heartbeat) :
    Swept cfg now entry (sweep cfg now entry) := by
  unfold sweep
  cases hevicted : entry.evicted_at with
  | some evicted_at =>
    dsimp only
    split
    · rename_i h
      exact .removed hevicted h.1 h.2
    · rename_i h
      refine .stays hevicted ?_
      by_cases hmem : entry.validator_id ∈ cfg.EXPECTED_VALIDATORS
      · exact .inl hmem
      · exact .inr (Int.not_lt.mp fun hlt => h ⟨hmem, hlt⟩)
  | none =>
    dsimp only
    split
    · exact .lapses hevicted ‹_›
    · exact .live hevicted (Int.not_lt.mp ‹_›)

theorem validator_id_of_sweep {now : Int} (h : sweep cfg now entry = some entry') :
    entry'.validator_id = entry.validator_id := by
  have hcases := sweep_cases cfg now entry
  rw [h] at hcases
  cases hcases <;> rfl

theorem nodup_filterMap_sweep {now : Int} {entries : List Heartbeat}
    (h : (entries.map Heartbeat.validator_id).Nodup) :
    ((entries.filterMap (sweep cfg now)).map Heartbeat.validator_id).Nodup := by
  induction entries with
  | nil => exact List.nodup_nil
  | cons entry entries ih =>
    rw [List.map_cons, List.nodup_cons] at h
    rw [List.filterMap_cons]
    cases hsweep : sweep cfg now entry with
    | none => exact ih h.2
    | some entry' =>
      rw [List.map_cons, List.nodup_cons, validator_id_of_sweep hsweep]
      refine ⟨fun hmem => h.1 ?_, ih h.2⟩
      obtain ⟨e', he', hid⟩ := List.mem_map.mp hmem
      obtain ⟨e, he, hsweep'⟩ := List.mem_filterMap.mp he'
      exact List.mem_map.mpr ⟨e, he, (validator_id_of_sweep hsweep').symm.trans hid⟩

/-! ### The invariant -/

/-- An entry next to what was heard of its validator. -/
structure Timed (cfg : HeartbeatConfig) (s : Validators) (key : String) (entry : Heartbeat) : Prop where
  heard : s.heard key entry.validator_id = some entry.last_seen
  past : entry.last_seen ≤ s.now
  live : entry.evicted_at = none → s.swept - entry.last_seen ≤ cfg.VALIDATOR_HEARTBEAT_TTL
  stale : ∀ evicted_at, entry.evicted_at = some evicted_at → evicted_at ≤ s.swept ∧
    cfg.VALIDATOR_HEARTBEAT_TTL < evicted_at - entry.last_seen ∧
    (entry.validator_id ∈ cfg.EXPECTED_VALIDATORS ∨
      s.swept - evicted_at ≤ cfg.VALIDATOR_HEARTBEAT_TTL)

structure Validators.Kept (cfg : HeartbeatConfig) (s : Validators) : Prop where
  swept : s.swept ≤ s.now
  nodup : ∀ key, ((s.validatorHeartbeats key).map Heartbeat.validator_id).Nodup
  timed : ∀ key, ∀ entry ∈ s.validatorHeartbeats key, Timed cfg s key entry
  present : ∀ key id t, s.heard key id = some t →
    (∃ entry ∈ s.validatorHeartbeats key, entry.validator_id = id) ∨
      (id ∉ cfg.EXPECTED_VALIDATORS ∧ 2 * cfg.VALIDATOR_HEARTBEAT_TTL < s.now - t)

namespace Validators

theorem kept_start (now : Int) : (start now).Kept cfg where
  swept := Int.le_refl now
  nodup key := List.nodup_nil
  timed key entry h := by cases h
  present key id t h := by cases h

theorem Kept.evict (h : s.Kept cfg) (httl : 0 ≤ cfg.VALIDATOR_HEARTBEAT_TTL) :
    (s.evictStaleValidators cfg).Kept cfg where
  swept := Int.le_refl _
  nodup key := nodup_filterMap_sweep (h.nodup key)
  timed key entry' hentry' := by
    obtain ⟨entry, hentry, hsweep⟩ := List.mem_filterMap.mp hentry'
    have ht := h.timed key entry hentry
    have hcases := sweep_cases cfg s.now entry
    rw [hsweep] at hcases
    cases hcases with
    | live hlive hheard =>
      refine ⟨ht.heard, ht.past, fun _ => hheard, fun t hstale => ?_⟩
      rw [hlive] at hstale
      cases hstale
    | lapses hlive hsilent =>
      refine ⟨ht.heard, ht.past, fun hnone => (by cases hnone), fun t hstale => ?_⟩
      obtain rfl : s.now = t := Option.some.inj hstale
      refine ⟨Int.le_refl _, hsilent, .inr ?_⟩
      show s.now - s.now ≤ _
      omega
    | stays hstale hkept =>
      refine ⟨ht.heard, ht.past, fun hnone => ?_, fun t hstale' => ?_⟩
      · rw [hstale] at hnone
        cases hnone
      · obtain ⟨hle, hlong, -⟩ := ht.stale t hstale'
        obtain rfl := Option.some.inj (hstale.symm.trans hstale')
        exact ⟨Int.le_trans hle h.swept, hlong, hkept⟩
  present key id t hheard := by
    rcases h.present key id t hheard with ⟨entry, hentry, rfl⟩ | hgone
    · have ht := h.timed key entry hentry
      obtain rfl : entry.last_seen = t := Option.some.inj (ht.heard.symm.trans hheard)
      have hcases := sweep_cases cfg s.now entry
      cases hsweep : sweep cfg s.now entry with
      | some entry' =>
        exact .inl ⟨entry', List.mem_filterMap.mpr ⟨entry, hentry, hsweep⟩,
          validator_id_of_sweep hsweep⟩
      | none =>
        rw [hsweep] at hcases
        cases hcases with
        | removed hstale hstranger hsilent =>
          obtain ⟨-, hlong, -⟩ := ht.stale _ hstale
          refine .inr ⟨hstranger, ?_⟩
          show _ < s.now - _
          omega
    · exact .inr hgone

theorem Kept.record (h : s.Kept cfg) (httl : 0 ≤ cfg.VALIDATOR_HEARTBEAT_TTL) (key id : String)
    (applied_height : Int) (applied_block_time : Option Int) :
    (s.recordValidatorHeartbeat key id applied_height applied_block_time).Kept cfg := by
  have hheard : ∀ key' id', ¬ (key' = key ∧ id' = id) →
      (s.recordValidatorHeartbeat key id applied_height applied_block_time).heard key' id' =
        s.heard key' id' := by
    intro key' id' hne
    by_cases hkey : key' = key
    · subst hkey
      have hid : id' ≠ id := fun h => hne ⟨rfl, h⟩
      simp [recordValidatorHeartbeat, hid]
    · simp [recordValidatorHeartbeat, hkey]
  have hself : (s.recordValidatorHeartbeat key id applied_height applied_block_time).heard key id =
      some s.now := by simp [recordValidatorHeartbeat]
  have hold : ∀ key' entry, ¬ (key' = key ∧ entry.validator_id = id) → Timed cfg s key' entry →
      Timed cfg (s.recordValidatorHeartbeat key id applied_height applied_block_time) key' entry :=
    fun key' entry hne ht => ⟨(hheard key' _ hne).trans ht.heard, ht.past, ht.live, ht.stale⟩
  refine ⟨h.swept, fun key' => ?_, fun key' entry hentry => ?_, fun key' id' t ht => ?_⟩
  · by_cases hkey : key' = key
    · subst hkey
      simpa [recordValidatorHeartbeat] using nodup_mapSet (h.nodup key')
    · simpa [recordValidatorHeartbeat, hkey] using h.nodup key'
  · by_cases hkey : key' = key
    · subst hkey
      simp only [recordValidatorHeartbeat, Function.update_self] at hentry
      rcases mem_mapSet_cases hentry with rfl | ⟨hentry, hne⟩
      · refine ⟨hself, Int.le_refl _, fun _ => ?_, fun t hstale => by cases hstale⟩
        have := h.swept
        show s.swept - s.now ≤ _
        omega
      · exact hold key' entry (fun heq => hne heq.2) (h.timed key' entry hentry)
    · simp only [recordValidatorHeartbeat, Function.update_of_ne hkey] at hentry
      exact hold key' entry (fun heq => hkey heq.1) (h.timed key' entry hentry)
  · by_cases heq : key' = key ∧ id' = id
    · obtain ⟨rfl, rfl⟩ := heq
      refine .inl ⟨⟨id', applied_height, applied_block_time, s.now, none⟩, ?_, rfl⟩
      simpa [recordValidatorHeartbeat] using self_mem_mapSet Heartbeat.validator_id
        (s.validatorHeartbeats key') ⟨id', applied_height, applied_block_time, s.now, none⟩
    · rw [hheard key' id' heq] at ht
      rcases h.present key' id' t ht with ⟨entry, hentry, hid⟩ | hgone
      · left
        by_cases hkey : key' = key
        · subst hkey
          refine ⟨entry, ?_, hid⟩
          simp only [recordValidatorHeartbeat, Function.update_self]
          exact mem_mapSet_of_ne hentry fun h => heq ⟨rfl, hid.symm.trans h⟩
        · refine ⟨entry, ?_, hid⟩
          simpa [recordValidatorHeartbeat, hkey] using hentry
      · exact .inr hgone

theorem Kept.wait (h : s.Kept cfg) (ms : Nat) : ({ s with now := s.now + ms } : Validators).Kept cfg
    where
  swept := Int.le_trans h.swept (by show s.now ≤ s.now + ms; omega)
  nodup := h.nodup
  timed key entry hentry :=
    have ht := h.timed key entry hentry
    ⟨ht.heard, Int.le_trans ht.past (by show s.now ≤ s.now + ms; omega), ht.live, ht.stale⟩
  present key id t ht := (h.present key id t ht).imp_right fun ⟨hid, hlong⟩ =>
    ⟨hid, by show _ < s.now + ms - t; omega⟩

theorem Kept.next (h : s.Kept cfg) (httl : 0 ≤ cfg.VALIDATOR_HEARTBEAT_TTL) (e : HeartbeatEvent) :
    (s.next cfg e).Kept cfg := by
  cases e with
  | record key id applied_height applied_block_time =>
    exact h.record httl key id applied_height applied_block_time
  | evict => exact h.evict httl
  | wait ms => exact h.wait ms

end Validators

/-! ### The view -/

theorem fillRoster_cons (id : String) (expected : List String) (views : List ValidatorView) :
    fillRoster (id :: expected) views = fillRoster expected
      (if views.any (·.validator_id = id) then views else views ++ [absentView id]) := rfl

theorem mem_fillRoster {expected : List String} {views : List ValidatorView} {v : ValidatorView} :
    v ∈ fillRoster expected views ↔ v ∈ views ∨
      (∃ id ∈ expected, (∀ w ∈ views, w.validator_id ≠ id) ∧ v = absentView id) := by
  induction expected generalizing views with
  | nil => simp [fillRoster]
  | cons id expected ih =>
    rw [fillRoster_cons, ih]
    split
    · rename_i hany
      obtain ⟨w, hw, hid⟩ := List.any_eq_true.mp hany
      simp only [decide_eq_true_eq] at hid
      refine or_congr_right ⟨fun ⟨id', hid', h⟩ => ⟨id', by simp [hid'], h⟩, ?_⟩
      rintro ⟨id', hid', hnone, rfl⟩
      rcases List.mem_cons.mp hid' with rfl | hid'
      · exact absurd hid (hnone w hw)
      · exact ⟨id', hid', hnone, rfl⟩
    · rename_i hnone
      simp only [List.any_eq_true, decide_eq_true_eq, not_exists, not_and] at hnone
      constructor
      · rintro (hmem | ⟨id', hid', hnone', rfl⟩)
        · rcases List.mem_append.mp hmem with hmem | hmem
          · exact .inl hmem
          · exact .inr ⟨id, by simp, hnone, List.mem_singleton.mp hmem⟩
        · exact .inr ⟨id', by simp [hid'], fun w hw => hnone' w (List.mem_append_left _ hw), rfl⟩
      · rintro (hmem | ⟨id', hid', hnone', rfl⟩)
        · exact .inl (List.mem_append_left _ hmem)
        · by_cases heq : id' = id
          · subst heq
            exact .inl (List.mem_append_right _ (List.mem_singleton_self _))
          · rcases List.mem_cons.mp hid' with rfl | hid'
            · exact absurd rfl heq
            · refine .inr ⟨id', hid', fun w hw => ?_, rfl⟩
              rcases List.mem_append.mp hw with hw | hw
              · exact hnone' w hw
              · rw [List.mem_singleton.mp hw]
                exact Ne.symm heq

theorem nodup_fillRoster {expected : List String} {views : List ValidatorView}
    (h : (views.map ValidatorView.validator_id).Nodup) :
    ((fillRoster expected views).map ValidatorView.validator_id).Nodup := by
  induction expected generalizing views with
  | nil => exact h
  | cons id expected ih =>
    rw [fillRoster_cons]
    apply ih
    split
    · exact h
    · rename_i hnone
      simp only [List.any_eq_true, decide_eq_true_eq, not_exists, not_and] at hnone
      rw [List.map_append, List.nodup_append]
      refine ⟨h, List.nodup_singleton _, fun a ha b hb => ?_⟩
      obtain ⟨w, hw, rfl⟩ := List.mem_map.mp ha
      rw [List.mem_singleton.mp hb]
      exact hnone w hw

/-- What the status endpoint shows of a leaf, next to what was heard of its validators. -/
structure ShownHeard (cfg : HeartbeatConfig) (s : Validators) (key : String)
    (shown : List ValidatorView) : Prop where
  once : (shown.map ValidatorView.validator_id).Nodup
  roster : ∀ id ∈ cfg.EXPECTED_VALIDATORS, ∃ v ∈ shown, v.validator_id = id ∧
    (v.status = .absent ↔ s.heard key id = none)
  heard : ∀ v ∈ shown, v.status ≠ .absent → s.heard key v.validator_id = v.last_seen
  stale : ∀ v ∈ shown, v.status = .stale → ∃ seen evicted, v.last_seen = some seen ∧
    v.evicted_at = some evicted ∧ cfg.VALIDATOR_HEARTBEAT_TTL < evicted - seen
  live : ∀ v ∈ shown, v.status = .known ∨ v.status = .unknown → ∃ seen, v.last_seen = some seen ∧
    s.swept - seen ≤ cfg.VALIDATOR_HEARTBEAT_TTL
  recent : ∀ id t, s.heard key id = some t → s.now - t ≤ 2 * cfg.VALIDATOR_HEARTBEAT_TTL →
    ∃ v ∈ shown, v.validator_id = id ∧ v.last_seen = some t

theorem viewOf_status {sourceHeight : Option Int} :
    (viewOf sourceHeight entry).status ≠ .absent ∧
      ((viewOf sourceHeight entry).status = .stale ↔ entry.evicted_at.isSome) := by
  unfold viewOf
  dsimp only
  cases hevicted : entry.evicted_at with
  | some t => simp
  | none => cases lagBlocks sourceHeight entry <;> simp

namespace Validators

theorem Kept.shown (h : s.Kept cfg) (sourceHeight : Option Int) (key : String) :
    ShownHeard cfg s key (s.getValidatorHeartbeats cfg sourceHeight key).validators := by
  have hviews : ∀ v, v ∈ (s.getValidatorHeartbeats cfg sourceHeight key).validators ↔
      (∃ entry ∈ s.validatorHeartbeats key, viewOf sourceHeight entry = v) ∨
      ∃ id ∈ cfg.EXPECTED_VALIDATORS,
        (∀ w ∈ (s.validatorHeartbeats key).map (viewOf sourceHeight), w.validator_id ≠ id) ∧
        v = absentView id := by
    intro v
    rw [getValidatorHeartbeats, mem_fillRoster, List.mem_map]
  have hpresent : ∀ id t, s.heard key id = some t →
      (id ∈ cfg.EXPECTED_VALIDATORS ∨ s.now - t ≤ 2 * cfg.VALIDATOR_HEARTBEAT_TTL) →
      ∃ entry ∈ s.validatorHeartbeats key, entry.validator_id = id ∧ entry.last_seen = t := by
    intro id t ht hor
    rcases h.present key id t ht with ⟨entry, hentry, rfl⟩ | ⟨hout, hlong⟩
    · exact ⟨entry, hentry, rfl, Option.some.inj ((h.timed key entry hentry).heard.symm.trans ht)⟩
    · rcases hor with hin | hrecent
      · exact absurd hin hout
      · omega
  refine ⟨nodup_fillRoster ?_, fun id hid => ?_, fun v hv hstatus => ?_, fun v hv hstatus => ?_,
    fun v hv hstatus => ?_, fun id t ht hrecent => ?_⟩
  · rw [List.map_map]
    exact h.nodup key
  · cases hheard : s.heard key id with
    | none =>
      refine ⟨absentView id, (hviews _).mpr (.inr ⟨id, hid, fun w hw heq => ?_, rfl⟩), rfl,
        by simp [absentView]⟩
      obtain ⟨entry, hentry, rfl⟩ := List.mem_map.mp hw
      have hsome := (h.timed key entry hentry).heard
      have hid : entry.validator_id = id := heq
      rw [hid, hheard] at hsome
      cases hsome
    | some t =>
      obtain ⟨entry, hentry, rfl, -⟩ := hpresent id t hheard (.inl hid)
      exact ⟨viewOf sourceHeight entry, (hviews _).mpr (.inl ⟨entry, hentry, rfl⟩), rfl,
        by simp [viewOf_status.1]⟩
  · rcases (hviews v).mp hv with ⟨entry, hentry, rfl⟩ | ⟨id, -, -, rfl⟩
    · exact (h.timed key entry hentry).heard
    · exact absurd rfl hstatus
  · rcases (hviews v).mp hv with ⟨entry, hentry, rfl⟩ | ⟨id, -, -, rfl⟩
    · obtain ⟨t, hevicted⟩ := Option.isSome_iff_exists.mp (viewOf_status.2.mp hstatus)
      exact ⟨entry.last_seen, t, rfl, hevicted, ((h.timed key entry hentry).stale t hevicted).2.1⟩
    · cases hstatus
  · rcases (hviews v).mp hv with ⟨entry, hentry, rfl⟩ | ⟨id, -, -, rfl⟩
    · refine ⟨entry.last_seen, rfl, (h.timed key entry hentry).live ?_⟩
      cases hevicted : entry.evicted_at with
      | none => rfl
      | some t =>
        have hstale : (viewOf sourceHeight entry).status = .stale :=
          viewOf_status.2.mpr (by rw [hevicted]; rfl)
        rw [hstale] at hstatus
        simp at hstatus
    · simp [absentView] at hstatus
  · obtain ⟨entry, hentry, rfl, rfl⟩ := hpresent id t ht (.inr hrecent)
    exact ⟨viewOf sourceHeight entry, (hviews _).mpr (.inl ⟨entry, hentry, rfl⟩), rfl, rfl⟩

def rosterOfTwo : HeartbeatConfig := ⟨["v1", "v2"], 60⟩

/-- Both a roster member and a stranger fall silent for good. -/
def silence : List HeartbeatEvent :=
  [.record "k" "v1" 7 none, .record "k" "stranger" 9 none, .wait 61, .evict, .wait 61, .evict]

def afterSilence : Validators := Runs.runAll (next rosterOfTwo) (start 0) silence

end Validators

end XChainSync.Broadcaster
