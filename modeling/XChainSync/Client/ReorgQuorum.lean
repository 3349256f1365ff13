import XChainSync.Client.BlockQuorum
import XChainSync.Client.RollbackGuard

/-!
# Reorg reports, their quorum and the depth gate

`handleSourceReorg`, `recordReorgVote`, `armReorgQuorumTimer` and the checks of `handleReorg`
(src/client/sync.js) with `admitRetroactiveRewind` (src/client/retroactive_admission.js). Each
function says what is decided from the state it is given; the unwind itself is a task of the
client.
-/

namespace XChainSync.Client
set_option autoImplicit false

/-- `!!value`. -/
def JsVal.truthy : JsVal → Bool
  | .undefined => false
  | .null => false
  | .bool b => b
  | .num t => t ≠ "0" && t ≠ "NaN"
  | .str s => s ≠ ""
  | .obj _ _ => true

/-- A height as a JSON number. -/
def JsVal.ofHeight (h : Int) : JsVal := .num (toString h)

/-- The `retroactive` field of a reorg event: an object with its two fields, or any other value. -/
inductive RetroactiveField where
  | plain (v : JsVal)
  | claim (target rules_to : JsVal)
  deriving DecidableEq, Repr

namespace RetroactiveField

def truthy : RetroactiveField → Bool
  | plain v => v.truthy
  | claim _ _ => true

/-- `retroactive && retroactive.target`. -/
def target : RetroactiveField → JsVal
  | plain v => if v.truthy then .undefined else v
  | claim t _ => t

/-- `retroactive && retroactive.rules_to`. -/
def rules_to : RetroactiveField → JsVal
  | plain v => if v.truthy then .undefined else v
  | claim _ r => r

end RetroactiveField

structure ReorgEvent where
  block_index : Int
  retroactive : RetroactiveField
  deriving DecidableEq, Repr

/-- An entry of a `reports` map, as `recordReorgReport` fills it. -/
structure ReorgReport where
  source : SourceIndex
  target : JsVal
  rules_to : JsVal
  deriving DecidableEq, Repr

def ReorgEvent.report (event : ReorgEvent) (i : SourceIndex) : ReorgReport :=
  ⟨i, event.retroactive.target, event.retroactive.rules_to⟩

/-- A held height: who voted, whether its timer runs, the first event and every report. -/
structure ReorgEntry where
  votes : List SourceIndex
  timer : Bool
  event : ReorgEvent
  rewind : Bool
  reports : List ReorgReport

/-- `_pendingReorgs` and `_strictReorgPending`. -/
structure ReorgVotes where
  pendingReorgs : Int → Option ReorgEntry
  strictReorgPending : List Int

namespace ReorgVotes

def init : ReorgVotes := ⟨fun _ => none, []⟩

def put (r : ReorgVotes) (height : Int) (entry : Option ReorgEntry) : ReorgVotes :=
  { r with pendingReorgs := fun h => if h = height then entry else r.pendingReorgs h }

def recordReorgVote (r : ReorgVotes) (event : ReorgEvent) (i : SourceIndex) (rewind : Bool) :
    ReorgEntry :=
  let entry := (r.pendingReorgs event.block_index).getD ⟨[], false, event, false, []⟩
  { entry with
    votes := if i ∈ entry.votes then entry.votes else entry.votes ++ [i]
    reports := entry.reports.filter (·.source ≠ i) ++ [event.report i]
    rewind := entry.rewind || rewind }

def clearPendingReorg (r : ReorgVotes) (height : Int) : ReorgVotes :=
  { r.put height none with strictReorgPending := r.strictReorgPending.filter (· ≠ height) }

def clearAllPendingReorgs (_ : ReorgVotes) : ReorgVotes := init

/-- `prunePendingReorgs`. -/
def prune (r : ReorgVotes) (lastAppliedBlock : Option Int) : ReorgVotes :=
  match lastAppliedBlock with
  | none => r
  | some tip =>
    { pendingReorgs := fun h => if tip < h then none else r.pendingReorgs h
      strictReorgPending := r.strictReorgPending.filter fun h =>
        !(tip < h && (r.pendingReorgs h).isSome) }

end ReorgVotes

namespace ReorgEntry

def activeReorgVotes (v : Votes) (entry : ReorgEntry) : Nat :=
  (entry.votes.filter fun i => !v.isEvicted i).length

def activeRetroactiveReports (v : Votes) (entry : ReorgEntry) : List ReorgReport :=
  entry.reports.filter fun r => !v.isEvicted r.source

def entryHasRetroactiveReport (v : Votes) (entry : ReorgEntry) : Bool :=
  (entry.activeRetroactiveReports v).any fun r => r.target ≠ .undefined || r.rules_to ≠ .undefined

end ReorgEntry

/-! ### The depth gate -/

inductive Admission where
  | not_retroactive
  | over_cap
  | no_quorum
  | quorum
  deriving DecidableEq, Repr

/-- The sources whose report claims the same pair. -/
def agreeingSources (target rules_to : JsVal) (reports : List ReorgReport) : List SourceIndex :=
  ((reports.filter fun r => r.target = target && r.rules_to = rules_to).map (·.source)).dedup

def admitRetroactiveRewind (depth capBlocks : Int) (retroactive : Option (JsVal × JsVal))
    (reports : List ReorgReport) (quorum : Nat) : Admission :=
  match retroactive with
  | none => .not_retroactive
  | some (target, rules_to) =>
    if capBlocks < depth then .over_cap
    else if (agreeingSources target rules_to reports).length < quorum then .no_quorum
    else .quorum

/-- What an admission at quorum rests on. -/
theorem admitRetroactiveRewind_quorum {depth capBlocks : Int}
    {retroactive : Option (JsVal × JsVal)} {reports : List ReorgReport} {quorum : Nat}
    (h : admitRetroactiveRewind depth capBlocks retroactive reports quorum = .quorum) :
    depth ≤ capBlocks ∧ ∃ target rules_to, retroactive = some (target, rules_to) ∧
      quorum ≤ (agreeingSources target rules_to reports).length := by
  unfold admitRetroactiveRewind at h
  split at h
  · simp at h
  · rename_i target rules_to
    split at h
    · simp at h
    · split at h
      · simp at h
      · exact ⟨by omega, target, rules_to, rfl, by omega⟩

def retroactiveReorgAdmission (cfg : Config) (v : Votes) (event : ReorgEvent) (depth : Int)
    (reports : List ReorgReport) : Admission :=
  let retroactive :=
    if event.retroactive.truthy && event.retroactive.target = JsVal.ofHeight event.block_index then
      some (event.retroactive.target, event.retroactive.rules_to)
    else none
  admitRetroactiveRewind depth cfg.retroactiveCapBlocks retroactive reports (v.effectiveQuorum cfg)

inductive ReorgVerdict where
  /-- Nothing to roll back, or a deep report still short of quorum. -/
  | ignored
  /-- Too deep: the client halts. -/
  | tooDeep
  | accepted
  deriving DecidableEq, Repr

/-- The checks of `handleReorg` on a client that is not halted. `reports` is its second argument,
`none` when the caller passes none. -/
def reorgChecks (cfg : Config) (v : Votes) (g : RollbackGuard) (lastAppliedBlock : Option Int)
    (event : ReorgEvent) (reports : Option (List ReorgReport)) : RollbackGuard × ReorgVerdict :=
  match lastAppliedBlock with
  | none => (g, .ignored)
  | some tip =>
    if tip < event.block_index then (g, .ignored)
    else
      let (g, depth) := g.depthFor cfg.maxRollbackDepth tip event.block_index
      if cfg.maxRollbackDepth < depth then
        match retroactiveReorgAdmission cfg v event depth (reports.getD []) with
        | .quorum => (g, .accepted)
        | .no_quorum => if reports.isSome then (g, .ignored) else (g, .tooDeep)
        | _ => (g, .tooDeep)
      else (g, .accepted)

/-! ### Reports of sources -/

/-- True when a source's reorg needs agreement, the decoder's included. -/
def sourceReorgQuorumActive (cfg : Config) (v : Votes) : Bool :=
  if v.activeSourceCount cfg ≤ 1 then false
  else cfg.dbType = .decoder || v.sourceQuorumActive cfg

/-- An agreed unwind, as `applyAgreedReorg` passes it on. -/
structure AgreedReorg where
  event : ReorgEvent
  rewind : Bool
  reports : List ReorgReport

def ReorgEntry.agreed (v : Votes) (entry : ReorgEntry) : AgreedReorg :=
  ⟨entry.event, entry.rewind, entry.activeRetroactiveReports v⟩

def armReorgQuorumTimer (entry : ReorgEntry) : ReorgEntry := { entry with timer := true }

/-- `handleSourceReorg` for a report of source `i` on a client that is not halted. -/
def handleSourceReorg (cfg : Config) (v : Votes) (g : RollbackGuard) (lastAppliedBlock : Option Int)
    (r : ReorgVotes) (event : ReorgEvent) (i : SourceIndex) (rewind : Bool) :
    RollbackGuard × ReorgVotes × Option AgreedReorg :=
  if v.isEvicted i then (g, r, none)
  else match lastAppliedBlock with
  | none => (g, r, none)
  | some tip =>
    if tip < event.block_index then (g, r, none)
    else
      let (g, depth) := g.depthFor cfg.maxRollbackDepth tip event.block_index
      let retroactiveQuorumRequired := cfg.maxRollbackDepth < depth &&
        event.retroactive.truthy && 1 < v.activeSourceCount cfg
      if !sourceReorgQuorumActive cfg v && !retroactiveQuorumRequired then
        let entry : ReorgEntry := ⟨[], false, event, rewind, [event.report i]⟩
        (g, r, some (entry.agreed v))
      else
        let entry := r.recordReorgVote event i rewind
        if v.effectiveQuorum cfg ≤ entry.activeReorgVotes v then
          if cfg.maxRollbackDepth < depth then
            if retroactiveReorgAdmission cfg v event depth (entry.activeRetroactiveReports v) =
                .no_quorum then
              (g, r.put event.block_index (some { entry with timer := false }), none)
            else
              (g, r.clearPendingReorg event.block_index,
                some (ReorgEntry.agreed v { entry with event }))
          else (g, r.clearPendingReorg event.block_index, some (entry.agreed v))
        else if depth ≤ cfg.maxRollbackDepth || !entry.entryHasRetroactiveReport v then
          (g, r.put event.block_index (some (armReorgQuorumTimer entry)), none)
        else (g, r.put event.block_index (some entry), none)

/-- The callback of `armReorgQuorumTimer` for a height whose timer runs. -/
def reorgQuorumTimeout (cfg : Config) (v : Votes) (r : ReorgVotes) (height : Int)
    (entry : ReorgEntry) : ReorgVotes × Option AgreedReorg :=
  let entry := { entry with timer := false }
  if cfg.HASH_CONFIRM_STRICT then
    ({ r.put height (some entry) with
      strictReorgPending := r.strictReorgPending.filter (· ≠ height) ++ [height] }, none)
  else if entry.activeReorgVotes v = 0 then (r.put height none, none)
  else (r.put height none, some (entry.agreed v))

/-! ### Which reports are held -/

/-- Every report of a held height satisfies `ok`. -/
def ReorgVotes.Reported (r : ReorgVotes) (ok : ReorgReport → Prop) : Prop :=
  ∀ height entry, r.pendingReorgs height = some entry → ∀ report ∈ entry.reports, ok report

section Reported
variable {ok : ReorgReport → Prop} {r : ReorgVotes}

theorem ReorgVotes.Reported.mono {ok' : ReorgReport → Prop} (h : r.Reported ok)
    (hle : ∀ report, ok report → ok' report) : r.Reported ok' :=
  fun height entry he report hr => hle report (h height entry he report hr)

theorem ReorgVotes.reported_init : ReorgVotes.init.Reported ok := by
  intro height entry he
  simp [ReorgVotes.init] at he

theorem ReorgVotes.Reported.put (h : r.Reported ok) (height : Int) {entry : Option ReorgEntry}
    (hentry : ∀ e, entry = some e → ∀ report ∈ e.reports, ok report) :
    (r.put height entry).Reported ok := by
  intro height' e he
  simp only [ReorgVotes.put] at he
  split at he
  · exact hentry e he
  · exact h height' e he

theorem ReorgVotes.Reported.hold (h : r.Reported ok) (height : Int) {entry : ReorgEntry}
    (hentry : ∀ report ∈ entry.reports, ok report) : (r.put height (some entry)).Reported ok := by
  refine h.put height ?_
  intro e he
  obtain rfl := Option.some.inj he
  exact hentry

theorem ReorgVotes.Reported.clearPendingReorg (h : r.Reported ok) (height : Int) :
    (r.clearPendingReorg height).Reported ok := by
  have hput : (r.put height none).Reported ok := h.put height (by simp)
  exact hput

theorem ReorgVotes.Reported.prune (h : r.Reported ok) (lastAppliedBlock : Option Int) :
    (r.prune lastAppliedBlock).Reported ok := by
  unfold ReorgVotes.prune
  split
  · exact h
  · intro height entry he
    dsimp only at he
    split at he
    · simp at he
    · exact h height entry he

theorem ReorgVotes.Reported.recordReorgVote (h : r.Reported ok) {event : ReorgEvent}
    {i : SourceIndex} (hok : ok (event.report i)) (rewind : Bool) :
    ∀ report ∈ (r.recordReorgVote event i rewind).reports, ok report := by
  intro report hr
  simp only [ReorgVotes.recordReorgVote, List.mem_append, List.mem_filter,
    List.mem_singleton] at hr
  rcases hr with ⟨hr, -⟩ | rfl
  · cases he : r.pendingReorgs event.block_index with
    | none => simp [he] at hr
    | some entry =>
      rw [he] at hr
      exact h _ entry he report hr
  · exact hok

theorem ReorgEntry.agreed_reports {entry : ReorgEntry} (h : ∀ report ∈ entry.reports, ok report)
    (v : Votes) :
    ∀ report ∈ (entry.agreed v).reports, ok report ∧ v.isEvicted report.source = false := by
  intro report hr
  simp only [ReorgEntry.agreed, ReorgEntry.activeRetroactiveReports, List.mem_filter,
    Bool.not_eq_true'] at hr
  exact ⟨h report hr.1, hr.2⟩

/-- What `handleSourceReorg` holds and passes on are reports it held or was given, and it passes on
none of an evicted source. -/
theorem handleSourceReorg_reports {cfg : Config} {v : Votes} {g g' : RollbackGuard}
    {lastAppliedBlock : Option Int} {r' : ReorgVotes} {event : ReorgEvent} {i : SourceIndex}
    {rewind : Bool} {agreed : Option AgreedReorg} (hr : r.Reported ok) (hok : ok (event.report i))
    (h : handleSourceReorg cfg v g lastAppliedBlock r event i rewind = (g', r', agreed)) :
    r'.Reported ok ∧ ∀ a, agreed = some a →
      ∀ report ∈ a.reports, ok report ∧ v.isEvicted report.source = false := by
  have hentry := hr.recordReorgVote hok rewind
  have hagreed : ∀ entry : ReorgEntry, (∀ report ∈ entry.reports, ok report) →
      ∀ a, some (entry.agreed v) = some a →
        ∀ report ∈ a.reports, ok report ∧ v.isEvicted report.source = false := by
    rintro entry he a ha
    obtain rfl := Option.some.inj ha
    exact ReorgEntry.agreed_reports he v
  revert h
  fun_cases handleSourceReorg cfg v g lastAppliedBlock r event i rewind
  all_goals intro h
  all_goals obtain ⟨-, rfl, rfl⟩ := h
  · exact ⟨hr, by simp⟩
  · exact ⟨hr, by simp⟩
  · exact ⟨hr, by simp⟩
  · refine ⟨hr, hagreed _ ?_⟩
    intro report hreport
    rw [List.mem_singleton.mp hreport]
    exact hok
  · exact ⟨hr.hold _ hentry, by simp⟩
  · exact ⟨hr.clearPendingReorg _, hagreed _ hentry⟩
  · exact ⟨hr.clearPendingReorg _, hagreed _ hentry⟩
  · exact ⟨hr.hold _ hentry, by simp⟩
  · exact ⟨hr.hold _ hentry, by simp⟩

theorem reorgQuorumTimeout_reports {cfg : Config} {v : Votes} {r' : ReorgVotes} {height : Int}
    {entry : ReorgEntry} {agreed : Option AgreedReorg} (hr : r.Reported ok)
    (he : r.pendingReorgs height = some entry)
    (h : reorgQuorumTimeout cfg v r height entry = (r', agreed)) :
    r'.Reported ok ∧ ∀ a, agreed = some a →
      ∀ report ∈ a.reports, ok report ∧ v.isEvicted report.source = false := by
  have hentry := hr height entry he
  revert h
  fun_cases reorgQuorumTimeout cfg v r height entry
  all_goals intro h
  all_goals obtain ⟨rfl, rfl⟩ := h
  · have hhold : (r.put height (some { entry with timer := false })).Reported ok :=
      hr.hold height hentry
    exact ⟨hhold, by simp⟩
  · exact ⟨hr.put height (by simp), by simp⟩
  · refine ⟨hr.put height (by simp), ?_⟩
    intro a ha
    obtain rfl := Option.some.inj ha
    exact ReorgEntry.agreed_reports hentry v

end Reported

end XChainSync.Client
