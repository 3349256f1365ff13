import Mathlib.Data.List.Induction

/-!
# Backpressure of a subscriber

Every send reads the socket's send buffer. A peer is dropped when the buffer is above the ceiling, or
when it has not gone down for longer than the stall limit.
-/

namespace XChainSync.Broadcaster
set_option autoImplicit false

structure Limits where
  /-- `WS_BACKPRESSURE_MAX_BYTES` -/
  maxBytes : Nat
  /-- `WS_BACKPRESSURE_STALL_MS` -/
  stallMs : Int
  deriving DecidableEq, Repr

/-- `ws.bufferedAmount` and the clock at a send. -/
structure Reading where
  buffered : Nat
  now : Int
  deriving DecidableEq, Repr

/-- `_syncLastBuffered || 0` and `_syncBackpressureSince`. -/
structure Watch where
  lastBuffered : Nat
  backpressureSince : Option Int
  deriving DecidableEq, Repr

def Watch.start : Watch := ⟨0, none⟩

/-- Why a peer is dropped. -/
inductive Drop where
  | ceiling (buffered : Nat)
  | stalled (stallMs : Int)
  deriving DecidableEq, Repr

def Drop.text : Drop → String
  | .ceiling buffered => "buffer ceiling exceeded (" ++ toString buffered ++ " bytes)"
  | .stalled stallMs => "send buffer not draining for " ++ toString stallMs ++ "ms"

def observe (limits : Limits) (w : Watch) (r : Reading) : Option Drop × Watch :=
  if limits.maxBytes < r.buffered then (some (.ceiling r.buffered), { w with lastBuffered := r.buffered })
  else if 0 < r.buffered ∧ w.lastBuffered ≤ r.buffered then
    match w.backpressureSince with
    | none => (none, ⟨r.buffered, some r.now⟩)
    | some since =>
      (if limits.stallMs < r.now - since then some (.stalled limits.stallMs) else none,
        ⟨r.buffered, some since⟩)
  else (none, ⟨r.buffered, none⟩)

/-- What is left of the watch after the sends, in order; none once the peer is dropped. -/
def watchAll (limits : Limits) (w : Watch) : List Reading → Option Watch
  | [] => some w
  | r :: rs =>
    match observe limits w r with
    | (some _, _) => none
    | (none, w) => watchAll limits w rs

theorem watchAll_append (limits : Limits) (w : Watch) (rs rs' : List Reading) :
    watchAll limits w (rs ++ rs') = (watchAll limits w rs).bind (watchAll limits · rs') := by
  induction rs generalizing w with
  | nil => rfl
  | cons r rs ih =>
    rw [List.cons_append, watchAll, watchAll]
    rcases observe limits w r with ⟨_ | _, w'⟩
    · exact ih w'
    · rfl

/-! ### When a buffer has not gone down -/

/-- The buffer as of the `i`-th last reading; readings newest first. -/
def bufferedAt (rs : List Reading) (i : Nat) : Nat := (rs[i]?.map Reading.buffered).getD 0

/-- The buffer holds something and no less than at the reading before. -/
def Steady (rs : List Reading) (i : Nat) : Prop :=
  0 < bufferedAt rs i ∧ bufferedAt rs (i + 1) ≤ bufferedAt rs i

instance (rs : List Reading) (i : Nat) : Decidable (Steady rs i) := by
  unfold Steady
  infer_instance

/-- From some reading older than the stall limit on, the buffer never went down. -/
def Stalled (limits : Limits) : List Reading → Prop
  | [] => False
  | r :: older => ∃ n first, (r :: older)[n]? = some first ∧ (∀ i ≤ n, Steady (r :: older) i) ∧
      limits.stallMs < r.now - first.now

/-- The longest run of steady readings up to the last one. -/
def steadyRun : List Reading → List Reading
  | [] => []
  | r :: older => if Steady (r :: older) 0 then r :: steadyRun older else []

variable {limits : Limits} {r first : Reading} {rs older : List Reading} {w : Watch}

theorem steady_succ (i : Nat) : Steady (r :: older) (i + 1) ↔ Steady older i := by
  simp [Steady, bufferedAt]

theorem steady_zero : Steady (r :: older) 0 ↔ 0 < r.buffered ∧ bufferedAt older 0 ≤ r.buffered := by
  simp [Steady, bufferedAt]

/-- A reading is in the run just when every reading since is steady. -/
theorem steadyRun_get (n : Nat) : (steadyRun rs)[n]? = some first ↔
    rs[n]? = some first ∧ ∀ i ≤ n, Steady rs i := by
  induction rs generalizing n with
  | nil => simp [steadyRun]
  | cons r older ih =>
    unfold steadyRun
    split
    · rename_i hsteady
      cases n with
      | zero => simpa using fun _ => hsteady
      | succ n =>
        rw [List.getElem?_cons_succ, List.getElem?_cons_succ, ih]
        refine and_congr_right fun _ => ⟨fun h i hi => ?_, fun h i hi => ?_⟩
        · cases i with
          | zero => exact hsteady
          | succ i => exact (steady_succ i).mpr (h i (by omega))
        · exact (steady_succ i).mp (h (i + 1) (by omega))
    · rename_i hsteady
      simp only [List.getElem?_nil, reduceCtorEq, false_iff, not_and]
      exact fun _ h => hsteady (h 0 (Nat.zero_le n))

/-- The watch remembers the last buffer and the beginning of the run. -/
def Watches (rs : List Reading) (w : Watch) : Prop :=
  w.lastBuffered = bufferedAt rs 0 ∧
    w.backpressureSince = (steadyRun rs).getLast?.map Reading.now

theorem Watches.observe (h : Watches rs w) : Watches (r :: rs) (observe limits w r).2 ∨
    limits.maxBytes < r.buffered := by
  obtain ⟨hlast, hsince⟩ := h
  unfold Broadcaster.observe
  split
  · exact .inr ‹_›
  · left
    rw [hlast]
    have hiff : Steady (r :: rs) 0 ↔ 0 < r.buffered ∧ bufferedAt rs 0 ≤ r.buffered := steady_zero
    split
    · rename_i hsteady
      have hrun : steadyRun (r :: rs) = r :: steadyRun rs := if_pos (hiff.mpr hsteady)
      cases hrest : steadyRun rs with
      | nil =>
        rw [hrest] at hsince
        simp only [hsince, List.getLast?_nil, Option.map_none]
        exact ⟨rfl, by simp [hrun, hrest]⟩
      | cons r' rest =>
        rw [hrest] at hsince
        obtain ⟨since, hvalue⟩ : ∃ since, w.backpressureSince = some since := by
          rw [hsince]
          exact ⟨_, by rw [List.getLast?_eq_some_getLast (by simp)]; rfl⟩
        simp only [hvalue]
        refine ⟨rfl, ?_⟩
        rw [hrun, hrest, List.getLast?_cons_cons, ← hsince, hvalue]
    · rename_i hsteady
      have hrun : steadyRun (r :: rs) = [] := if_neg fun h => hsteady (hiff.mp h)
      exact ⟨rfl, by simp [hrun]⟩

theorem steadyRun_le (rs : List Reading) : steadyRun rs <+: rs := by
  induction rs with
  | nil => exact List.nil_prefix
  | cons r older ih =>
    unfold steadyRun
    split
    · exact (List.prefix_cons_inj r).mpr ih
    · exact List.nil_prefix

/-- The buffer has stalled just when the run began longer ago than the limit. -/
theorem stalled_iff (hclock : (r :: older).Pairwise fun a b => b.now ≤ a.now) :
    Stalled limits (r :: older) ↔ ∃ last, (steadyRun (r :: older)).getLast? = some last ∧
      limits.stallMs < r.now - last.now := by
  constructor
  · rintro ⟨n, first, hn, hsteady, hlong⟩
    have hmem : first ∈ steadyRun (r :: older) :=
      List.mem_of_getElem? ((steadyRun_get n).mpr ⟨hn, hsteady⟩)
    have hne : steadyRun (r :: older) ≠ [] := List.ne_nil_of_mem hmem
    refine ⟨_, List.getLast?_eq_some_getLast hne, ?_⟩
    -- the run began no later than any of its readings
    have hrun := hclock.sublist (steadyRun_le (r :: older)).sublist
    have hle : ((steadyRun (r :: older)).getLast hne).now ≤ first.now := by
      rw [← List.dropLast_concat_getLast hne, List.pairwise_append] at hrun
      rw [← List.dropLast_concat_getLast hne, List.mem_append] at hmem
      rcases hmem with hmem | hmem
      · exact hrun.2.2 first hmem _ (List.mem_singleton_self _)
      · exact Int.le_of_eq (congrArg Reading.now (List.mem_singleton.mp hmem).symm)
    omega
  · rintro ⟨last, hlast, hlong⟩
    obtain ⟨n, hn⟩ := List.mem_iff_getElem?.mp (List.mem_of_getLast? hlast)
    obtain ⟨hget, hsteady⟩ := (steadyRun_get n).mp hn
    exact ⟨n, last, hget, hsteady, hlong⟩

/-- A peer is dropped at a send just when its buffer is above the ceiling or has stalled. -/
theorem Watches.dropped_iff (h : Watches rs w) (hstall : 0 ≤ limits.stallMs)
    (hclock : (r :: rs).Pairwise fun a b => b.now ≤ a.now) :
    (Broadcaster.observe limits w r).1.isSome ↔
      limits.maxBytes < r.buffered ∨ Stalled limits (r :: rs) := by
  rw [stalled_iff hclock]
  obtain ⟨hlast, hsince⟩ := h
  have hiff : Steady (r :: rs) 0 ↔ 0 < r.buffered ∧ bufferedAt rs 0 ≤ r.buffered := steady_zero
  unfold Broadcaster.observe
  split
  · simp [*]
  · rename_i hbelow
    rw [hlast]
    split
    · rename_i hsteady
      rw [steadyRun, if_pos (hiff.mpr hsteady)]
      cases hrest : steadyRun rs with
      | nil =>
        rw [hrest] at hsince
        simp only [hsince, List.getLast?_nil, Option.map_none, Option.isSome_none,
          Bool.false_eq_true, false_iff, not_or, not_exists, not_and]
        refine ⟨hbelow, fun last hr => ?_⟩
        obtain rfl : r = last := by simpa using hr
        omega
      | cons r' rest =>
        rw [hrest, List.getLast?_eq_some_getLast (by simp)] at hsince
        simp only [hsince, Option.map_some, List.getLast?_cons_cons]
        rw [List.getLast?_eq_some_getLast (by simp)]
        simp [hbelow]
    · rename_i hsteady
      rw [steadyRun, if_neg fun h => hsteady (hiff.mp h)]
      simp [hbelow]

/-- Some send found the buffer above the ceiling or stalled. -/
def Stuck (limits : Limits) (rs : List Reading) : Prop :=
  ∃ before r after, rs = before ++ r :: after ∧
    (limits.maxBytes < r.buffered ∨ Stalled limits (r :: before.reverse))

theorem stuck_concat : Stuck limits (rs ++ [r]) ↔
    Stuck limits rs ∨ limits.maxBytes < r.buffered ∨ Stalled limits (r :: rs.reverse) := by
  constructor
  · rintro ⟨before, r', after, heq, hstuck⟩
    rcases List.eq_nil_or_concat after with rfl | ⟨after, last, rfl⟩
    · obtain ⟨rfl, hr⟩ := List.append_inj' heq rfl
      obtain rfl := List.head_eq_of_cons_eq hr
      exact .inr hstuck
    · rw [List.concat_eq_append, ← List.cons_append, ← List.append_assoc] at heq
      exact .inl ⟨before, r', after, (List.append_inj' heq rfl).1, hstuck⟩
  · rintro (⟨before, r', after, rfl, hstuck⟩ | hstuck)
    · exact ⟨before, r', after ++ [r], by simp, hstuck⟩
    · exact ⟨rs, r, [], rfl, hstuck⟩

theorem watchAll_watches (hstall : 0 ≤ limits.stallMs)
    (hclock : rs.Pairwise fun a b => a.now ≤ b.now) :
    (∃ w, watchAll limits Watch.start rs = some w ∧ Watches rs.reverse w ∧ ¬ Stuck limits rs) ∨
      (watchAll limits Watch.start rs = none ∧ Stuck limits rs) := by
  induction rs using List.reverseRecOn with
  | nil =>
    refine .inl ⟨Watch.start, rfl, ⟨rfl, rfl⟩, ?_⟩
    rintro ⟨before, r, after, heq, -⟩
    simp at heq
  | append_singleton rs r ih =>
    have hclock' : (r :: rs.reverse).Pairwise fun a b => b.now ≤ a.now := by
      rw [← List.reverse_concat, List.pairwise_reverse]
      exact hclock
    rw [watchAll_append, stuck_concat, List.reverse_append]
    rcases ih (hclock.sublist (List.sublist_append_left rs [r])) with
      ⟨w, hw, hwatches, hfree⟩ | ⟨hnone, hstuck⟩
    · have hdropped := hwatches.dropped_iff hstall hclock'
      rw [hw]
      cases hobserve : observe limits w r with
      | mk drop w' =>
        rw [hobserve] at hdropped
        cases drop with
        | some d =>
          refine .inr ⟨by simp [watchAll, hobserve], .inr (hdropped.mp rfl)⟩
        | none =>
          have hok : ¬ (limits.maxBytes < r.buffered ∨ Stalled limits (r :: rs.reverse)) :=
            fun h => by simp at hdropped; exact absurd h (by simpa using hdropped)
          refine .inl ⟨w', by simp [watchAll, hobserve], ?_, fun h => h.elim hfree hok⟩
          have hor : Watches (r :: rs.reverse) (observe limits w r).2 ∨
              limits.maxBytes < r.buffered := hwatches.observe
          rcases hor with hnext | habove
          · rw [hobserve] at hnext
            exact hnext
          · exact absurd (.inl habove) hok
    · rw [hnone]
      exact .inr ⟨rfl, .inl hstuck⟩

/-- A peer stays through a sequence of sends just when at none of them its buffer was above the
ceiling or had not gone down for longer than the stall limit. -/
theorem kept_iff_never_stuck (limits : Limits) (hstall : 0 ≤ limits.stallMs) (rs : List Reading)
    (hclock : rs.Pairwise fun a b => a.now ≤ b.now) :
    (watchAll limits Watch.start rs).isSome ↔ ¬ Stuck limits rs := by
  rcases watchAll_watches hstall hclock with ⟨w, hw, -, hfree⟩ | ⟨hnone, hstuck⟩
  · simp [hw, hfree]
  · simp [hnone, hstuck]

/-- A buffer that grows for a minute, drains a little and grows on again. -/
theorem slow_peer_is_kept :
    ¬ Stuck ⟨1000, 60000⟩ [⟨10, 0⟩, ⟨20, 60000⟩, ⟨15, 60001⟩, ⟨30, 120000⟩] :=
  (kept_iff_never_stuck ⟨1000, 60000⟩ (by decide)
    [⟨10, 0⟩, ⟨20, 60000⟩, ⟨15, 60001⟩, ⟨30, 120000⟩] (by decide)).mp (by decide)

end XChainSync.Broadcaster
