import Mathlib.Logic.Function.Basic
import XChainSync.Hub.ConfigFetch
import XChainSync.Library.Runs

/-!
# The cached tree is the hub's

Every hub holds a table of settings to which rows are only added or rewritten, stamped by its own
clock. A hub may be restored from a snapshot; what the client relies on is that it then serves a lower
seq or a lower watermark.
-/

namespace XChainSync.Hub
open Json
open Runs (Run)
set_option autoImplicit false

structure Row where
  value : Value
  updated_at : Int

structure ConfigStore where
  /-- By coin, network, module and parameter. -/
  rows : List String → Option Row
  now : Int

def ConfigStore.value (h : ConfigStore) (path : List String) : Option Value := (h.rows path).map Row.value

/-- The path of a setting that a merge does not pass over. -/
def Setting (path : List String) : Prop :=
  path.length = 4 ∧ ∀ name ∈ path, safeKey name = true

/-! ### What a hub answers -/

def Full (h : ConfigStore) (payload : Value) : Prop :=
  ∀ path, Setting path → payload.at? path = h.value path

/-- Every row stamped after the cursor, and of the others none with another value. -/
structure Changed (h : ConfigStore) (cursor : Int) (payload : Value) : Prop where
  current : ∀ path v, Setting path → payload.at? path = some v → h.value path = some v
  complete : ∀ path row, Setting path → h.rows path = some row → cursor < row.updated_at →
    payload.at? path = some row.value

/-- An answer to a request with this cursor: a full tree without a watermark or for cursor 0, else
the rows changed since. -/
def Serves (h : ConfigStore) (cursor : Int) (r : Result) : Prop :=
  r.payload.Keyed 4 ∧
    match r.watermark with
    | none => Full h r.payload
    | some watermark => watermark ≤ h.now ∧
        if cursor = 0 then Full h r.payload else Changed h cursor r.payload

/-- A cached setting stands as in the hub, unless the hub stamped it in the last second of the
watermark or later. -/
structure Tracks (h : ConfigStore) (watermark : Int) (configs : Value) : Prop where
  clock : watermark ≤ h.now
  settings : ∀ path, Setting path → configs.at? path = h.value path ∨
    ∃ row, h.rows path = some row ∧ watermark ≤ row.updated_at

variable {store : ConfigStore} {watermark cursor : Int} {configs payload : Value} {r : Result}
  {path : List String} {hub : HubClient} {e : Nat}

/-! ### The tree a fetch makes of an answer -/

theorem at?_mergeConfigDelta (hkeyed : payload.Keyed 4) (hpath : Setting path) :
    (mergeConfigDelta configs payload).at? path = (payload.at? path).or (configs.at? path) := by
  rw [mergeConfigDelta, at?_merge hkeyed hpath.1 hpath.2]
  obtain ⟨name, rest, rfl⟩ := List.exists_cons_of_length_pos (l := path) (by rw [hpath.1]; decide)
  congr 1
  cases configs with
  | obj members => simp [ownMembers]
  | _ => rfl

theorem Tracks.merge_full (h : Tracks store watermark configs) (hkeyed : payload.Keyed 4)
    (hfull : Full store payload) : Full store (mergeConfigDelta configs payload) := by
  intro path hpath
  rw [at?_mergeConfigDelta hkeyed hpath, hfull path hpath]
  cases hvalue : store.value path with
  | some v => rfl
  | none =>
    rcases h.settings path hpath with heq | ⟨row, hrow, -⟩
    · rw [heq, hvalue]
      rfl
    · simp [ConfigStore.value, hrow] at hvalue

theorem Tracks.merge_changed (h : Tracks store watermark configs) (hkeyed : payload.Keyed 4)
    (hchanged : Changed store (watermark - 1) payload) :
    Full store (mergeConfigDelta configs payload) := by
  intro path hpath
  rw [at?_mergeConfigDelta hkeyed hpath]
  cases hat : payload.at? path with
  | some v => exact (hchanged.current path v hpath hat).symm
  | none =>
    rcases h.settings path hpath with heq | ⟨row, hrow, hle⟩
    · rw [heq]
      rfl
    · -- stamped in the second of the watermark or later, so it is in the delta
      have hsent := hchanged.complete path row hpath hrow (by omega)
      simp [hsent] at hat

theorem full_of_serves
    (htracks : 0 < hub.lastWatermark → ∃ configs, hub.configs = some configs ∧
      Tracks store hub.lastWatermark configs)
    (hserves : Serves store (if 0 < hub.lastWatermark then hub.lastWatermark - 1 else 0) r) :
    Full store (hub.applyConfigResult r).2 := by
  obtain ⟨hkeyed, hanswer⟩ := hserves
  unfold HubClient.applyConfigResult
  cases hwatermark : r.watermark with
  | none =>
    rw [hwatermark] at hanswer
    exact hanswer
  | some watermark =>
    rw [hwatermark] at hanswer
    by_cases hpos : 0 < hub.lastWatermark
    · obtain ⟨configs, hconfigs, ht⟩ := htracks hpos
      simp only [if_pos hpos] at hanswer
      simp only [hconfigs, if_pos hpos]
      split at hanswer
      · exact ht.merge_full hkeyed hanswer.2
      · exact ht.merge_changed hkeyed hanswer.2
    · simp only [if_neg hpos, if_true] at hanswer
      cases hub.configs with
      | none => exact hanswer.2
      | some configs =>
        simp only [if_neg hpos]
        exact hanswer.2

theorem Full.tracks (hfull : Full store configs) (hclock : watermark ≤ store.now) :
    Tracks store watermark configs :=
  ⟨hclock, fun path hpath => Or.inl (hfull path hpath)⟩

theorem applied_clock (hserves : Serves store cursor r)
    (hpos : 0 < (hub.applyConfigResult r).1.lastWatermark) :
    (hub.applyConfigResult r).1.lastWatermark ≤ store.now := by
  unfold HubClient.applyConfigResult at hpos ⊢
  have hanswer := hserves.2
  cases hwatermark : r.watermark with
  | none => simp [hwatermark] at hpos
  | some watermark =>
    rw [hwatermark] at hanswer
    exact hanswer.1

structure System where
  hubs : Nat → ConfigStore
  /-- Restored since the client last took a tree of it. -/
  restored : Nat → Bool
  fetching : Fetching

inductive Event where
  | write (e : Nat) (path : List String) (value : Value)
  | tick (e : Nat) (seconds : Nat)
  | restore (e : Nat) (rows : List String → Option Row)
  | getallconfigs
  | reply (replies : Nat → Reply)

namespace System

/-- The settings of the hub a finished fetch was answered by are the client's. -/
def received (s : System) (fetching : Fetching) : System :=
  { s with
    fetching := fetching
    restored := if fetching.returned.isSome then
      Function.update s.restored fetching.hub.lastGoodIdx false else s.restored }

def next (s : System) : Event → System
  | .write e path value => { s with
      hubs := Function.update s.hubs e { s.hubs e with
        rows := Function.update (s.hubs e).rows path (some ⟨value, (s.hubs e).now⟩) } }
  | .tick e seconds => { s with
      hubs := Function.update s.hubs e { s.hubs e with now := (s.hubs e).now + seconds } }
  | .restore e rows => { s with
      hubs := Function.update s.hubs e { s.hubs e with rows := rows }
      restored := Function.update s.restored e true }
  | .getallconfigs => match s.fetching.pc with
    | .idle => { s with fetching := s.fetching.getallconfigs }
    | _ => s
  | .reply replies => match s.fetching.pc with
    | .idle => s
    | _ => s.received (s.fetching.receive replies)

/-- Endpoints answer from their tables, and one that was restored serves a lower seq or watermark to
the next request for a delta. -/
def Honest (s : System) : Event → Prop
  | .reply replies => ∀ e r, replies e = .result (some (.result r)) →
      Serves (s.hubs e) s.fetching.pc.cursor r ∧
      (s.restored e = true → ∀ sentCursor, s.fetching.pc = .first sentCursor (some e) →
        0 < sentCursor → s.fetching.hub.hubConfigRegressed r = true)
  | _ => True

structure Cached (s : System) : Prop where
  tracks : 0 < s.fetching.hub.lastWatermark → ∃ e configs,
    s.fetching.hub.watermarkEndpointIdx = some e ∧ s.fetching.hub.configs = some configs ∧
      (s.restored e = false → Tracks (s.hubs e) s.fetching.hub.lastWatermark configs)
  sent : ∀ sentCursor cursorEndpoint, s.fetching.pc = .first sentCursor cursorEndpoint →
    sentCursor = s.fetching.hub.lastWatermark ∧
      cursorEndpoint = s.fetching.hub.watermarkEndpointIdx

end System

/-! ### What an answer does to a fetch -/

/-- Only the endpoint a call starts from moves. -/
def HubClient.at (hub : HubClient) (idx : Nat) : HubClient := { hub with lastGoodIdx := idx }

/-- The fetch fails, asks once more, or finishes on the answer of endpoint `idx`. -/
inductive Received (s : Fetching) (replies : Nat → Reply) : Fetching → Prop where
  | fails (idx : Nat) : Received s replies ⟨s.hub.at idx, .idle, none⟩
  | refetches (idx : Nat) {pc : Pc} (hpc : pc = .endpointChanged ∨ pc = .configRegressed) :
      Received s replies ⟨s.hub.at idx, pc, none⟩
  | finishes {idx : Nat} {r : Result} {sentCursor : Int} {cursorEndpoint : Option Nat}
      (hidx : idx < s.hub.urls) (hreply : replies idx = .result (some (.result r)))
      (hpc : s.pc = .first sentCursor cursorEndpoint)
      (hsame : 0 < sentCursor → cursorEndpoint = some idx)
      (hstands : 0 < s.hub.lastWatermark → s.hub.configs.isSome →
        s.hub.hubConfigRegressed r = false) :
      Received s replies ((s.hub.at idx).finish r)
  | finishesFull {idx : Nat} {r : Result} (hidx : idx < s.hub.urls)
      (hreply : replies idx = .result (some (.result r)))
      (hpc : s.pc = .endpointChanged ∨ s.pc = .configRegressed) :
      Received s replies ((s.hub.at idx).discard.finish r)

theorem receive_cases (s : Fetching) (replies : Nat → Reply) (hwait : s.pc ≠ .idle) :
    Received s replies (s.receive replies) := by
  unfold Fetching.receive
  cases hcall : s.hub.call replies with
  | none => exact .fails s.hub.lastGoodIdx
  | some call =>
    obtain ⟨idx, answer⟩ := call
    obtain ⟨hidx, hreply⟩ := HubClient.of_call hcall
    cases answer with
    | none => exact .fails idx
    | some answer =>
      cases answer with
      | error => exact .fails idx
      | result r =>
        dsimp only
        cases hpc : s.pc with
        | idle => exact absurd hpc hwait
        | first sentCursor cursorEndpoint =>
          dsimp only
          split
          · exact .refetches idx (.inl rfl)
          · rename_i hsame
            unfold HubClient.refetchAfterConfigRegression
            split
            · exact .refetches idx (.inr rfl)
            · rename_i hstands
              simp only [Bool.and_eq_true, decide_eq_true_eq, not_and, Bool.not_eq_true] at hstands
              refine .finishes hidx hreply hpc (fun hpos => ?_) (fun hpos hsome =>
                hstands ⟨hpos, hsome⟩)
              simpa [hpos] using hsame
        | endpointChanged => exact .finishesFull hidx hreply (.inl hpc)
        | configRegressed => exact .finishesFull hidx hreply (.inr hpc)

theorem applyConfigResult_lastGoodIdx (hub : HubClient) (r : Result) :
    (hub.applyConfigResult r).1.lastGoodIdx = hub.lastGoodIdx := by
  unfold HubClient.applyConfigResult
  cases r.watermark <;> rfl

theorem finish_eq (hub : HubClient) (r : Result) : hub.finish r =
    ⟨{ (hub.applyConfigResult r).1 with
        configs := some (hub.applyConfigResult r).2
        watermarkEndpointIdx := some hub.lastGoodIdx }, .idle,
      some (hub.applyConfigResult r).2⟩ := by
  rw [← applyConfigResult_lastGoodIdx hub r]
  rfl

namespace System
variable {s t : System} {replies : Nat → Reply}

theorem Cached.fetching (h : s.Cached) {fetching : Fetching} (idx : Nat)
    (hhub : fetching.hub = s.fetching.hub.at idx) (hnone : fetching.returned = none)
    (hpc : ∀ sentCursor cursorEndpoint, fetching.pc ≠ .first sentCursor cursorEndpoint) :
    (s.received fetching).Cached where
  tracks := by
    simp only [received, hhub, hnone, HubClient.at]
    exact h.tracks
  sent sentCursor cursorEndpoint heq := absurd heq (hpc sentCursor cursorEndpoint)

/-- A tree that is the hub's is cached. -/
theorem cached_finish {hub : HubClient} {r : Result} {cursor : Int}
    (hserves : Serves (s.hubs hub.lastGoodIdx) cursor r)
    (hfull : Full (s.hubs hub.lastGoodIdx) (hub.applyConfigResult r).2) :
    (s.received (hub.finish r)).Cached where
  tracks hpos := by
    rw [finish_eq] at hpos ⊢
    exact ⟨_, _, rfl, rfl, fun _ => hfull.tracks (applied_clock hserves hpos)⟩
  sent sentCursor cursorEndpoint heq := by
    simp [received, finish_eq] at heq

/-- The whole tree is asked for, or what changed since the watermark of the endpoint that answers. -/
theorem Cached.answered (h : s.Cached) (hok : s.Honest (.reply replies))
    (hwait : s.fetching.pc ≠ .idle) {t : Fetching} (ht : s.fetching.receive replies = t) :
    t.returned = none ∨ ∃ (idx : Nat) (r : Result) (hub : HubClient) (cursor : Int), idx < s.fetching.hub.urls ∧
      replies idx = .result (some (.result r)) ∧ hub.lastGoodIdx = idx ∧ t = hub.finish r ∧
      Serves (s.hubs idx) cursor r ∧ Full (s.hubs idx) (hub.applyConfigResult r).2 := by
  have hcases := receive_cases s.fetching replies hwait
  rw [ht] at hcases
  cases hcases with
  | fails idx => exact .inl rfl
  | refetches idx hpc => exact .inl rfl
  | @finishes idx r sentCursor cursorEndpoint hidx hreply hpc hsame hstands =>
    obtain ⟨hserves, hregressed⟩ := hok idx r hreply
    obtain ⟨hsent, hendpoint⟩ := h.sent sentCursor cursorEndpoint hpc
    refine .inr ⟨idx, r, _, _, hidx, hreply, rfl, rfl, hserves, full_of_serves ?_ ?_⟩
    · intro hpos
      obtain ⟨e, configs, he, hconfigs, htracks⟩ := h.tracks hpos
      have hidx : cursorEndpoint = some idx := hsame (hsent ▸ hpos)
      obtain rfl : e = idx := by
        rw [hendpoint, he] at hidx
        exact Option.some.inj hidx
      refine ⟨configs, hconfigs, htracks ?_⟩
      cases hrestored : s.restored e with
      | false => rfl
      | true =>
        have hlow := hregressed hrestored sentCursor (hidx ▸ hpc) (hsent ▸ hpos)
        have hnot := hstands hpos (by rw [hconfigs]; rfl)
        exact absurd (hlow.symm.trans hnot) (by decide)
    · rw [hpc, Pc.cursor, hsent] at hserves
      exact hserves
  | @finishesFull idx r hidx hreply hpc =>
    have hserves := (hok idx r hreply).1
    refine .inr ⟨idx, r, _, _, hidx, hreply, rfl, rfl, hserves, full_of_serves ?_ ?_⟩
    · intro hpos
      exact absurd hpos (Int.lt_irrefl 0)
    · rcases hpc with hpc | hpc
      · rw [hpc] at hserves
        exact hserves
      · rw [hpc] at hserves
        exact hserves

theorem Cached.hubs (h : s.Cached) {e : Nat} {store : ConfigStore}
    (hstore : ∀ watermark configs, Tracks (s.hubs e) watermark configs →
      Tracks store watermark configs) :
    ({ s with hubs := Function.update s.hubs e store } : System).Cached where
  tracks hpos := by
    obtain ⟨e', configs, he, hconfigs, htracks⟩ := h.tracks hpos
    refine ⟨e', configs, he, hconfigs, fun hrestored => ?_⟩
    by_cases heq : e' = e
    · subst heq
      simp only [Function.update_self]
      exact hstore _ _ (htracks hrestored)
    · simp only [Function.update_of_ne heq]
      exact htracks hrestored
  sent := h.sent

theorem Cached.next (h : s.Cached) {event : Event} (hok : s.Honest event) :
    (s.next event).Cached := by
  cases event with
  | write e path value =>
    refine h.hubs fun watermark configs ht => ⟨ht.clock, fun path' hpath' => ?_⟩
    by_cases heq : path' = path
    · subst heq
      exact .inr ⟨⟨value, (s.hubs e).now⟩, by simp, ht.clock⟩
    · simpa [ConfigStore.value, heq] using ht.settings path' hpath'
  | tick e seconds =>
    refine h.hubs fun watermark configs ht => ⟨?_, ht.settings⟩
    have := ht.clock
    dsimp only
    omega
  | restore e rows =>
    refine ⟨fun hpos => ?_, h.sent⟩
    obtain ⟨e', configs, he, hconfigs, htracks⟩ := h.tracks hpos
    refine ⟨e', configs, he, hconfigs, ?_⟩
    by_cases heq : e' = e
    · subst heq
      simp [System.next]
    · simp only [System.next, Function.update_of_ne heq]
      exact htracks
  | getallconfigs =>
    simp only [System.next]
    split
    · refine ⟨h.tracks, fun sentCursor cursorEndpoint heq => ?_⟩
      obtain ⟨rfl, rfl⟩ := Pc.first.inj heq
      exact ⟨rfl, rfl⟩
    · exact h
  | reply replies =>
    simp only [System.next]
    split
    · exact h
    · rename_i hwait
      have hcases := receive_cases s.fetching replies hwait
      rcases h.answered hok hwait rfl with hnone | ⟨idx, r, hub, cursor, -, -, rfl, ht, hserves, hfull⟩
      · generalize s.fetching.receive replies = t at hcases hnone ⊢
        cases hcases with
        | fails idx => exact h.fetching idx rfl rfl (by simp)
        | refetches idx hpc =>
          refine h.fetching idx rfl rfl fun sentCursor cursorEndpoint => ?_
          rcases hpc with rfl | rfl <;> simp
        | finishes => simp [finish_eq] at hnone
        | finishesFull => simp [finish_eq] at hnone
      · rw [ht]
        exact cached_finish hserves hfull

/-- A client before its first fetch. -/
def Starts (s : System) : Prop :=
  s.fetching.pc = .idle ∧ s.fetching.hub.lastWatermark = 0

theorem Starts.cached (h : s.Starts) : s.Cached where
  tracks hpos := by simp [h.2] at hpos
  sent sentCursor cursorEndpoint heq := by simp [h.1] at heq

/-- In every run of writes, restores, failed calls and failovers, a tree that a fetch returns is that
of the hub that answered it. -/
theorem fetched_tree_is_the_hubs {s₀ s : System} (hs₀ : s₀.Starts)
    (hrun : Run (fun s e t => t = s.next e) Honest s₀ s) (replies : Nat → Reply)
    (hok : s.Honest (.reply replies)) (hwait : s.fetching.pc ≠ .idle) (configs : Value)
    (hreturned : (s.next (.reply replies)).fetching.returned = some configs) :
    ∃ e < s.fetching.hub.urls,
      (s.next (.reply replies)).fetching.hub.watermarkEndpointIdx = some e ∧
      (∃ r, replies e = .result (some (.result r))) ∧
      ∀ path, Setting path → configs.at? path = (s.hubs e).value path := by
  have hcached : s.Cached := by
    refine hrun.invariant hs₀.cached ?_
    rintro u event v hu hok rfl
    exact hu.next hok
  have hnext : (s.next (.reply replies)).fetching = s.fetching.receive replies := by
    simp only [System.next]
    rfl
  rw [hnext] at hreturned ⊢
  rcases hcached.answered hok hwait rfl with
    hnone | ⟨idx, r, hub, cursor, hidx, hreply, rfl, ht, -, hfull⟩
  · rw [hnone] at hreturned
    cases hreturned
  · rw [ht, finish_eq] at hreturned ⊢
    obtain rfl := Option.some.inj hreturned
    exact ⟨hub.lastGoodIdx, hidx, rfl, ⟨r, hreply⟩, hfull⟩

/-- A tree with one setting. -/
def settingTree (coin network module param : String) (v : Value) : Value :=
  .obj [(coin, .obj [(network, .obj [(module, .obj [(param, v)])])])]

theorem at?_settingTree {coin network module param : String} {v : Value} {path : List String}
    (hpath : Setting path) : (settingTree coin network module param v).at? path =
      if path = [coin, network, module, param] then some v else none := by
  obtain ⟨c, n, m, p, rfl⟩ : ∃ c n m p, path = [c, n, m, p] := by
    match path, hpath.1 with
    | [c, n, m, p], _ => exact ⟨c, n, m, p, rfl⟩
  simp only [settingTree, at?_obj_cons, lookup_cons_member, List.lookup_nil]
  by_cases hc : c = coin
  · by_cases hn : n = network
    · by_cases hm : m = module
      · by_cases hp : p = param
        · simp [hc, hn, hm, hp, Value.member, Value.at?]
        · simp [hc, hn, hm, hp, at?_obj_cons, lookup_cons_member]
      · simp [hc, hn, hm, at?_obj_cons, lookup_cons_member]
    · simp [hc, hn, at?_obj_cons, lookup_cons_member]
  · simp [hc]

theorem keyed_settingTree (coin network module param v : String) :
    (settingTree coin network module param (.str v)).Keyed 4 := by
  simp [settingTree, Value.Keyed]

def namePath : List String := ["BTC", "mainnet", "xchain-indexer", "name"]

def nameTree (v : String) : Value := settingTree "BTC" "mainnet" "xchain-indexer" "name" (.str v)

theorem at?_nameTree {v : String} {path : List String} (hpath : Setting path) :
    (nameTree v).at? path = if path = namePath then some (.str v) else none :=
  at?_settingTree hpath

/-- One hub with one setting, which it stamped at 5, its clock still standing there. -/
def oneSetting : System where
  hubs _ := ⟨fun path => if path = namePath then some ⟨.str "a", 5⟩ else none, 5⟩
  restored _ := false
  fetching := ⟨⟨1, 0, none, 0, 0, none⟩, .idle, none⟩

def answers (v : String) (seq : Int) (e : Nat) : Reply :=
  if e = 0 then .result (some (.result ⟨nameTree v, seq, some 5⟩)) else .noResult

theorem of_answers {v : String} {seq : Int} {e : Nat} {r : Result}
    (h : answers v seq e = .result (some (.result r))) : e = 0 ∧ r = ⟨nameTree v, seq, some 5⟩ := by
  unfold answers at h
  split at h
  · rename_i he
    exact ⟨he, by simpa using h.symm⟩
  · simp at h

/-- The setting is rewritten in the second of the watermark that the first fetch was given. -/
def rewritten : System :=
  (((oneSetting.next .getallconfigs).next (.reply (answers "a" 1))).next
    (.write 0 namePath (.str "b"))).next .getallconfigs

theorem honest_first : (oneSetting.next .getallconfigs).Honest (.reply (answers "a" 1)) := by
  intro e r hr
  obtain ⟨rfl, rfl⟩ := of_answers hr
  refine ⟨⟨keyed_settingTree _ _ _ _ _, Int.le_refl _, fun path hpath => ?_⟩, fun h => by cases h⟩
  dsimp only
  rw [at?_nameTree hpath]
  by_cases h : path = namePath <;> simp [ConfigStore.value, oneSetting, System.next, h]

theorem honest_second : rewritten.Honest (.reply (answers "b" 2)) := by
  intro e r hr
  obtain ⟨rfl, rfl⟩ := of_answers hr
  have hrows : ∀ path, (rewritten.hubs 0).rows path =
      if path = namePath then some ⟨.str "b", 5⟩ else none := by
    intro path
    by_cases h : path = namePath
    · subst h
      rfl
    · have hfalse : (rewritten.hubs 0).rows path = (oneSetting.hubs 0).rows path :=
        Function.update_of_ne h _ _
      rw [hfalse, if_neg h]
      exact if_neg h
  have htree : ∀ path, Setting path → (nameTree "b").at? path = (rewritten.hubs 0).value path := by
    intro path hpath
    rw [at?_nameTree hpath, ConfigStore.value, hrows]
    split <;> rfl
  refine ⟨⟨keyed_settingTree _ _ _ _ _, Int.le_refl _, ?_⟩, fun h => by cases h⟩
  show Changed _ _ _
  refine ⟨fun path v hpath hv => (htree path hpath).symm.trans hv, fun path row hpath hrow _ => ?_⟩
  rw [htree path hpath, ConfigStore.value, hrow]
  rfl

theorem rewritten_setting_is_fetched : ∃ configs,
    (rewritten.next (.reply (answers "b" 2))).fetching.returned = some configs ∧
    configs.at? namePath = some (.str "b") := by
  have hfirst : Run (fun s e t => t = s.next e) Honest oneSetting
      ((oneSetting.next .getallconfigs).next (.reply (answers "a" 1))) :=
    .tail (.tail .refl (e := .getallconfigs) trivial rfl) honest_first rfl
  have hrun : Run (fun s e t => t = s.next e) Honest oneSetting rewritten :=
    .tail (.tail hfirst (e := .write 0 namePath (.str "b")) trivial rfl)
      (e := .getallconfigs) trivial rfl
  have hwait : rewritten.fetching.pc ≠ .idle := by
    intro h
    cases h
  refine ⟨_, rfl, ?_⟩
  obtain ⟨e, he, -, -, hsettings⟩ := fetched_tree_is_the_hubs ⟨rfl, rfl⟩ hrun (answers "b" 2)
    honest_second hwait _ rfl
  obtain rfl : e = 0 := by
    have : rewritten.fetching.hub.urls = 1 := rfl
    omega
  rw [hsettings namePath ⟨rfl, by decide⟩]
  rfl

end System

end XChainSync.Hub
