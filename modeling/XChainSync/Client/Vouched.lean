import XChainSync.Client.Commits
import XChainSync.Library.Runs

/-!
# What the marker vouches for

The marker is stored, kept in memory, queued, under way to the database and read back by a walk or a
rollback; a recompute in flight will raise it. `Claims` collects all of these: the heights up to which
some party takes the applied blocks for verified. `Vouched` says that each of them is right about the
rows there are, so that whichever of them a restart finds is sound.
-/

namespace XChainSync.Client
set_option autoImplicit false

/-- Every applied block up to a height is clean; or, while that block is being recomputed, every one
below it, and the recompute reads the rows that are there. -/
inductive Claim where
  | upTo (n : Int)
  | reading (n : Int) (seen : List Nat)

namespace Claim

def height : Claim → Int
  | upTo n => n
  | reading n _ => n

def Holds (db : Replica) : Claim → Prop
  | upTo n => db.Sound n
  | reading n seen => db.Sound (n - 1) ∧ db.rowsAt n = seen

end Claim

namespace Replica

/-- Nothing that was sound is lost, and the rows are the same. -/
structure Kept (db db' : Replica) : Prop where
  sound : ∀ n, db.Sound n → db'.Sound n
  rowsAt : ∀ n, db'.rowsAt n = db.rowsAt n
  unapplied : ∀ n, db.UnappliedTo n → db'.UnappliedTo n

variable {db db' : Replica} {k : Claim}

theorem kept_of_eq (hrows : db'.rows = db.rows) (hrec : db'.recomputed = db.recomputed) :
    Kept db db' := by
  exact ⟨by simp [Sound, Clean, Replica.rowsAt, hrows, hrec], by simp [Replica.rowsAt, hrows],
    by simp [UnappliedTo, hrows]⟩

theorem kept_markRecomputed (db : Replica) (h : Int) (seen : List Nat) :
    Kept db (db.markRecomputed h seen) where
  sound := fun _ hs => hs.markRecomputed h seen
  rowsAt := fun n => rowsAt_markRecomputed db h n seen
  unapplied := by
    intro n hu b hb
    rw [rows_markRecomputed] at hb
    exact hu b hb

theorem Kept.holds (hk : Kept db db') (h : k.Holds db) : k.Holds db' := by
  cases k with
  | upTo n => exact hk.sound n h
  | reading n seen => exact ⟨hk.sound _ h.1, (hk.rowsAt n).trans h.2⟩

/-- Inserting above what is claimed, or an unapplied block where none is applied or being read. -/
theorem holds_insert {applied : Int → Bool} {hs : List Int} (h : k.Holds db)
    (happ : ∀ m ∈ hs, applied m = true → k.height < m)
    (hjoin : ∀ m ∈ hs, applied m = false → db.UnappliedTo m ∧
      ∀ n seen, k = .reading n seen → n < m) : k.Holds (db.insert applied hs) := by
  have hfit : ∀ n ≤ k.height, ∀ m ∈ hs, n < m ∨
      applied m = false ∧ ∀ b ∈ db.rows, b.applied = true → b.height ≠ m := by
    intro n hle m hm
    by_cases ha : applied m = true
    · have hlt := happ m hm ha
      exact Or.inl (by omega)
    · have hun := (hjoin m hm (by simpa using ha)).1
      refine Or.inr ⟨by simpa using ha, fun b hb hb' => ?_⟩
      have hlt := hun b hb hb'
      omega
  cases k with
  | upTo n => exact h.insert (hfit n (Int.le_refl n))
  | reading n seen =>
    have hnot : n ∉ hs := by
      intro hm
      by_cases ha : applied n = true
      · have hlt := happ n hm ha
        simp only [Claim.height] at hlt
        omega
      · have hlt := (hjoin n hm (by simpa using ha)).2 n seen rfl
        omega
    refine ⟨h.1.insert (hfit (n - 1) ?_), (rowsAt_insert hnot).trans h.2⟩
    simp only [Claim.height]
    omega

end Replica

/-! ### Who claims what -/

/-- The generation a live apply has captured. -/
def Task.generation (t : Task) : Nat :=
  match t.work with
  | .live _ (.lockWait g) => g
  | .live _ (.recompute g _) => g
  | .live _ (.stateHash g _) => g
  | .live _ (.finish g) => g
  | _ => 0

/-- A verdict on rows that have been removed since will be dropped. -/
def Task.claims (cfg : Config) (generation : Nat) (t : Task) : Option Claim :=
  match t.work with
  | .live event (.recompute g seen) =>
    if g = generation then some (.reading event.block_index seen) else none
  | .live event (.stateHash g _) =>
    if cfg.tracksVerifiedTip && g = generation then some (.upTo event.block_index) else none
  | .live event (.finish g) =>
    if cfg.tracksVerifiedTip && g = generation then some (.upTo event.block_index) else none
  | .rollback _ (.loaded stored) => stored.map .upTo
  | _ => none

def Walk.claims (generation : Nat) (w : Walk) : Option Claim :=
  match w.pc with
  | .loaded _ stored => stored.map .upTo
  | .recompute h _ _ seen => if w.generation = generation then some (.reading h seen) else none
  | .stateHash h _ _ _ => if w.generation = generation then some (.upTo h) else none
  | .persisting h _ _ => if w.generation = generation then some (.upTo h) else none
  | .windowEnd h _ => if w.generation = generation then some (.upTo h) else none
  | .nextWindow lo _ => if w.generation = generation then some (.upTo (lo - 1)) else none
  | _ => none

def MarkerOp.generation : MarkerOp → Nat
  | advance _ g => g
  | _ => 0

def MarkerOp.claims (generation : Nat) : MarkerOp → Option Int
  | advance n g => if g = generation then some n else none
  | adopt n _ => some n
  | _ => none

/-- In memory, under way to the database, or queued. -/
def VerifiedTip.Claims (m : VerifiedTip) (n : Int) : Prop :=
  m.verifiedTip = .num n ∨ m.writing = some n ∨
    ∃ w ∈ m.markerWrites, w.op.claims m.rowGeneration = some n

namespace ClientSync

inductive Claims (cfg : Config) (c : ClientSync) : Claim → Prop where
  | stored {n : Int} (h : c.db.verified_tip = some n) : Claims cfg c (.upTo n)
  | joined {n : Int} (h : c.bootstrapBase = some n) : Claims cfg c (.upTo n)
  | marker {n : Int} (h : c.marker.Claims n) : Claims cfg c (.upTo n)
  | task {id : TaskId} {t : Task} {k : Claim} (ht : c.tasks id = some t)
      (h : t.claims cfg c.marker.rowGeneration = some k) : Claims cfg c k
  | walk {w : Walk} {k : Claim} (hw : c.tailVerify = some w)
      (h : w.claims c.marker.rowGeneration = some k) : Claims cfg c k

structure Vouched (cfg : Config) (c : ClientSync) : Prop where
  claims : ∀ k, c.Claims cfg k → k.Holds c.db
  /-- Below the join block of a truncated replica nothing is applied. -/
  joined : ∀ base, c.bootstrapBase = some base → c.db.UnappliedTo base
  base : c.bootstrapBase = c.db.bootstrap_base
  writing : ∀ n, c.marker.writing = some n →
    ∃ w rest, c.marker.markerWrites = w :: rest ∧ ∀ m, w.op = .lower m → n = m
  tasks : ∀ id t, c.tasks id = some t → t.generation ≤ c.marker.rowGeneration
  walk : ∀ w, c.tailVerify = some w → w.generation ≤ c.marker.rowGeneration
  queue : ∀ w ∈ c.marker.markerWrites, w.op.generation ≤ c.marker.rowGeneration

/-! ### The condition -/

/-- The height a step sets the marker to without a recompute: where `seedVerifiedTip` and
`startVerifiedTipBelow` start it, what a full snapshot adopts, and a lowering that finds none. -/
def trusts (cfg : Config) (c : ClientSync) : Action → Option Int
  | .walk .ok =>
    match c.tailVerify with
    | some ⟨_, _, .seeding tip⟩ =>
      let start := match c.db.post_commit_verify_pending with
        | some legacy => min legacy tip
        | none => tip
      some (start - 1)
    | _ => none
  | .runner .ok =>
    match c.catchUp with
    | some ⟨_, .gotTip none⟩ => if cfg.tracksVerifiedTip then some (sinceBlock none - 1) else none
    | some ⟨_, .full .verify⟩ => if cfg.tracksVerifiedTip then c.lastAppliedBlock else none
    | _ => none
  | .markerWrite .ok =>
    match c.marker.markerWrites, c.marker.writing, c.marker.verifiedTip with
    | _, _, .num _ => none
    | ⟨.lower n, _⟩ :: _, none, _ => some n
    | _, _, _ => none
  | _ => none

/-- The join block a from-height bootstrap is about to store. -/
def joinsAt (c : ClientSync) : Action → Option Int
  | .runner .ok =>
    match c.catchUp with
    | some ⟨_, .window (.trainGate base s)⟩ => some (s.since_block.getD base)
    | _ => none
  | _ => none

/-- Rows are committed above everything that is claimed or being verified, a live block directly above
the marker in memory, and the marker is set without a recompute only where nothing at or below it was
applied. -/
structure Careful (cfg : Config) (c : ClientSync) (a : Action) : Prop where
  applies : ∀ k, c.committing a = some k → ∀ m ∈ k.applies, ∀ k', c.Claims cfg k' → k'.height < m
  window : ∀ base hs, c.committing a = some (.window base hs) → c.db.UnappliedTo base ∧
    ∀ n seen, c.Claims cfg (.reading n seen) → ∀ m ∈ hs, n < m
  live : ∀ id driver event generation, a = .task id .ok →
    c.tasks id = some ⟨driver, .live event (.lockWait generation)⟩ → cfg.tracksVerifiedTip →
      ∃ v, c.marker.verifiedTip = .num v ∧ event.block_index - 1 ≤ v
  trusts : ∀ n ∈ c.trusts cfg a,
    (∃ v, c.marker.verifiedTip = .num v ∧ n ≤ v) ∨ c.db.UnappliedTo n
  joins : ∀ n ∈ c.joinsAt a, c.db.UnappliedTo n

variable {cfg : Config} {c c' : ClientSync} {a : Action} {e : Doing}

/-! ### What keeps it -/

/-- The same marker, and no new claims about rows that are kept. -/
theorem Vouched.keeps (hi : Vouched cfg c) (hdb : Replica.Kept c.db c'.db)
    (hclaims : ∀ k, c'.Claims cfg k → c.Claims cfg k ∨ k.Holds c'.db)
    (hjoin : c'.bootstrapBase = c.bootstrapBase) (hbase : c'.db.bootstrap_base = c.db.bootstrap_base)
    (hmarker : c'.marker = c.marker)
    (htasks : ∀ id t, c'.tasks id = some t → t.generation ≤ c.marker.rowGeneration)
    (hwalk : ∀ w, c'.tailVerify = some w → w.generation ≤ c.marker.rowGeneration) :
    Vouched cfg c' where
  claims := by
    intro k hk
    rcases hclaims k hk with hk | hk
    · exact hdb.holds (hi.claims k hk)
    · exact hk
  joined := by
    intro base hb
    exact hdb.unapplied base (hi.joined base (hjoin ▸ hb))
  base := by
    rw [hjoin, hbase]
    exact hi.base
  writing := by
    rw [hmarker]
    exact hi.writing
  tasks := by
    rw [hmarker]
    exact htasks
  walk := by
    rw [hmarker]
    exact hwalk
  queue := by
    rw [hmarker]
    exact hi.queue

theorem generation_resume (t : Task) (v : TailVerdict) : (t.resume v).generation = t.generation := by
  obtain ⟨driver, work⟩ := t
  cases work with
  | live event pc => cases pc <;> rfl
  | _ => rfl

theorem claims_resume (t : Task) (v : TailVerdict) (generation : Nat) :
    (t.resume v).claims cfg generation = t.claims cfg generation := by
  obtain ⟨driver, work⟩ := t
  cases work with
  | live event pc => cases pc <;> rfl
  | _ => rfl

theorem resumes_generation {t₀ t : Task} (h : t₀.Resumes t) : t.generation = t₀.generation := by
  rcases h with rfl | ⟨v, rfl⟩
  · rfl
  · exact generation_resume t₀ v

theorem resumes_claims {t₀ t : Task} (h : t₀.Resumes t) (generation : Nat) :
    t.claims cfg generation = t₀.claims cfg generation := by
  rcases h with rfl | ⟨v, rfl⟩
  · rfl
  · exact claims_resume t₀ v generation

/-- A call that starts has captured nothing. -/
theorem starts_unclaimed {e : Prop} {t : Task} (h : t.Starts cfg e c) (generation : Nat) :
    t.generation = 0 ∧ t.claims cfg generation = none := by
  obtain ⟨driver, work⟩ := t
  cases work with
  | live event pc =>
    obtain ⟨rfl, -⟩ := h
    exact ⟨rfl, rfl⟩
  | rollback r pc =>
    rcases h with h | ⟨h, -⟩
    all_goals
      change pc = _ at h
      subst h
      exact ⟨rfl, rfl⟩
  | linkCheck event i => exact ⟨rfl, rfl⟩
  | awaitCatchUp => exact ⟨rfl, rfl⟩

theorem Vouched.calls (hi : Vouched cfg c) (hc : Calls cfg e c c') : Vouched cfg c' := by
  have hdb : Replica.Kept c.db c'.db := Replica.kept_of_eq (by rw [hc.db]) (by rw [hc.db])
  refine hi.keeps hdb ?_ hc.bootstrapBase (by rw [hc.db]) hc.marker ?_ ?_
  · intro k hk
    left
    cases hk with
    | stored h => exact .stored (hc.db ▸ h)
    | joined h => exact .joined (hc.bootstrapBase ▸ h)
    | marker h => exact .marker (hc.marker ▸ h)
    | @task id t k ht h =>
      rw [hc.marker] at h
      rcases hc.tasks id t ht with ⟨t₀, ht₀, hr⟩ | hs
      · exact .task ht₀ (resumes_claims hr _ ▸ h)
      · rw [(starts_unclaimed hs _).2] at h
        simp at h
    | @walk w k hw h =>
      rw [hc.marker] at h
      rcases hc.tailVerify with hw' | hw' | ⟨pc, hw', hpc⟩
      · exact .walk (hw' ▸ hw) h
      · rw [hw'] at hw
        simp at hw
      · rw [hw'] at hw
        obtain rfl := Option.some.inj hw
        rcases hpc with rfl | rfl <;> simp [Walk.claims] at h
  · intro id t ht
    rcases hc.tasks id t ht with ⟨t₀, ht₀, hr⟩ | hs
    · rw [resumes_generation hr]
      exact hi.tasks id t₀ ht₀
    · rw [(starts_unclaimed hs 0).1]
      exact Nat.zero_le _
  · intro w hw
    rcases hc.tailVerify with hw' | hw' | ⟨pc, hw', -⟩
    · exact hi.walk w (hw' ▸ hw)
    · rw [hw'] at hw
      simp at hw
    · rw [hw'] at hw
      obtain rfl := Option.some.inj hw
      exact Nat.le_refl _

theorem Vouched.calm (hi : Vouched cfg c) (hc : Calm c c') : Vouched cfg c' :=
  hi.calls (hc.calls (d := .nothing))

/-- What `Claims` looks at is the same. -/
theorem Vouched.congr (hi : Vouched cfg c) (hdb : c'.db = c.db)
    (hjoin : c'.bootstrapBase = c.bootstrapBase) (hmarker : c'.marker = c.marker)
    (htasks : c'.tasks = c.tasks) (hwalk : c'.tailVerify = c.tailVerify) : Vouched cfg c' := by
  refine hi.keeps (Replica.kept_of_eq (by rw [hdb]) (by rw [hdb])) ?_ hjoin (by rw [hdb]) hmarker
    (by rw [htasks]; exact hi.tasks) (by rw [hwalk]; exact hi.walk)
  intro k hk
  left
  cases hk with
  | stored h => exact .stored (hdb ▸ h)
  | joined h => exact .joined (hjoin ▸ h)
  | marker h => exact .marker (hmarker ▸ h)
  | task ht h => exact .task (htasks ▸ ht) (hmarker ▸ h)
  | walk hw h => exact .walk (hwalk ▸ hw) (hmarker ▸ h)

theorem Vouched.setRunner (hi : Vouched cfg c) (pc : RunnerPc) : Vouched cfg (c.setRunner pc) :=
  hi.congr rfl rfl rfl rfl rfl

/-- A task goes on to a point whose claim holds. -/
theorem Vouched.setTask (hi : Vouched cfg c) (id : TaskId) {t : Task}
    (hg : t.generation ≤ c.marker.rowGeneration)
    (ht : ∀ k, t.claims cfg c.marker.rowGeneration = some k → k.Holds c.db) :
    Vouched cfg (c.setTask id (some t)) := by
  refine hi.keeps (Replica.kept_of_eq rfl rfl) ?_ rfl rfl rfl ?_ hi.walk
  · intro k hk
    cases hk with
    | stored h => exact Or.inl (.stored h)
    | joined h => exact Or.inl (.joined h)
    | marker h => exact Or.inl (.marker h)
    | @task j t' k hj h =>
      simp only [ClientSync.setTask] at hj
      split at hj
      · obtain rfl := Option.some.inj hj
        exact Or.inr (ht k h)
      · exact Or.inl (.task hj h)
    | walk hw h => exact Or.inl (.walk hw h)
  · intro j t' hj
    simp only [ClientSync.setTask] at hj
    split at hj
    · obtain rfl := Option.some.inj hj
      exact hg
    · exact hi.tasks j t' hj

/-- The walk goes on to a point whose claim holds. -/
theorem Vouched.setWalk (hi : Vouched cfg c) {w : Walk} {pc : WalkPc}
    (hg : w.generation ≤ c.marker.rowGeneration)
    (hw : ∀ k, ({ w with pc := pc } : Walk).claims c.marker.rowGeneration = some k → k.Holds c.db) :
    Vouched cfg (c.setWalk w pc) := by
  refine hi.keeps (Replica.kept_of_eq rfl rfl) ?_ rfl rfl rfl hi.tasks ?_
  · intro k hk
    cases hk with
    | stored h => exact Or.inl (.stored h)
    | joined h => exact Or.inl (.joined h)
    | marker h => exact Or.inl (.marker h)
    | task ht h => exact Or.inl (.task ht h)
    | walk hw' h =>
      obtain rfl := Option.some.inj hw'
      exact Or.inr (hw k h)
  · intro w' hw'
    obtain rfl := Option.some.inj hw'
    exact hg

/-- Rows are kept and the stored marker, if it changes, is sound. -/
theorem Vouched.setDb (hi : Vouched cfg c) {db : Replica} (hdb : Replica.Kept c.db db)
    (hstored : ∀ n, db.verified_tip = some n → c.db.verified_tip = some n ∨ db.Sound n)
    (hbase : db.bootstrap_base = c.db.bootstrap_base) : Vouched cfg { c with db := db } := by
  refine hi.keeps hdb ?_ rfl hbase rfl hi.tasks hi.walk
  intro k hk
  cases hk with
  | @stored n h => exact (hstored n h).imp .stored fun hs => hs
  | joined h => exact Or.inl (.joined h)
  | marker h => exact Or.inl (.marker h)
  | task ht h => exact Or.inl (.task ht h)
  | walk hw h => exact Or.inl (.walk hw h)

/-! ### A new marker -/

/-- A claim on the rows of a later generation is one on those of this. -/
theorem task_claims_of_later {t : Task} {g g' : Nat} {k : Claim} (hg : t.generation ≤ g)
    (hle : g ≤ g') (h : t.claims cfg g' = some k) : t.claims cfg g = some k := by
  obtain ⟨driver, work⟩ := t
  cases work with
  | live event pc =>
    cases pc with
    | recompute g₀ seen =>
      simp only [Task.generation, Task.claims] at hg h ⊢
      split at h
      · rw [if_pos (by omega)]
        exact h
      · simp at h
    | stateHash g₀ reads =>
      simp only [Task.generation, Task.claims, Bool.and_eq_true, decide_eq_true_eq] at hg h ⊢
      split at h
      · rename_i hcur
        rw [if_pos ⟨hcur.1, by omega⟩]
        exact h
      · simp at h
    | finish g₀ =>
      simp only [Task.generation, Task.claims, Bool.and_eq_true, decide_eq_true_eq] at hg h ⊢
      split at h
      · rename_i hcur
        rw [if_pos ⟨hcur.1, by omega⟩]
        exact h
      · simp at h
    | _ => exact h
  | rollback r pc => cases pc <;> exact h
  | _ => exact h

theorem walk_claims_of_later {w : Walk} {g g' : Nat} {k : Claim} (hg : w.generation ≤ g)
    (hle : g ≤ g') (h : w.claims g' = some k) : w.claims g = some k := by
  have hcur : ∀ k', (if w.generation = g' then some k' else none) = some k →
      (if w.generation = g then some k' else none) = some k := by
    intro k' hk
    split at hk
    · rw [if_pos (by omega)]
      exact hk
    · simp at hk
  obtain ⟨g₀, seeded, pc⟩ := w
  cases pc <;> first | exact h | exact hcur _ h

/-- The marker changes to one whose claims hold, and the generation does not fall. -/
theorem Vouched.setMarker (hi : Vouched cfg c) {m : VerifiedTip}
    (hgen : c.marker.rowGeneration ≤ m.rowGeneration) (hm : ∀ n, m.Claims n → c.db.Sound n)
    (hwriting : ∀ n, m.writing = some n →
      ∃ w rest, m.markerWrites = w :: rest ∧ ∀ x, w.op = .lower x → n = x)
    (hqueue : ∀ w ∈ m.markerWrites, w.op.generation ≤ m.rowGeneration) :
    Vouched cfg { c with marker := m } where
  claims := by
    intro k hk
    cases hk with
    | stored h => exact hi.claims _ (.stored h)
    | joined h => exact hi.claims _ (.joined h)
    | @marker n h => exact hm n h
    | @task id t k ht h =>
      exact hi.claims k (.task ht (task_claims_of_later (hi.tasks id t ht) hgen h))
    | @walk w k hw h =>
      exact hi.claims k (.walk hw (walk_claims_of_later (hi.walk w hw) hgen h))
  joined := hi.joined
  base := hi.base
  writing := hwriting
  tasks := fun id t ht => (hi.tasks id t ht).trans hgen
  walk := fun w hw => (hi.walk w hw).trans hgen
  queue := hqueue

/-- The marker and its queue are the same, at a generation that may be later. -/
structure Rebased (m m' : VerifiedTip) : Prop where
  verifiedTip : m'.verifiedTip = m.verifiedTip
  writing : m'.writing = m.writing
  markerWrites : m'.markerWrites = m.markerWrites
  rowGeneration : m.rowGeneration ≤ m'.rowGeneration

theorem Rebased.claims {m m' : VerifiedTip} (h : Rebased m m')
    (hqueue : ∀ w ∈ m.markerWrites, w.op.generation ≤ m.rowGeneration) {n : Int}
    (hn : m'.Claims n) : m.Claims n := by
  rcases hn with hn | hn | ⟨w, hw, hn⟩
  · exact Or.inl (h.verifiedTip ▸ hn)
  · exact Or.inr (Or.inl (h.writing ▸ hn))
  · have hle := h.rowGeneration
    rw [h.markerWrites] at hw
    have hg := hqueue w hw
    refine Or.inr (Or.inr ⟨w, hw, ?_⟩)
    obtain ⟨op, owner⟩ := w
    cases op with
    | advance x g =>
      simp only [MarkerOp.claims, MarkerOp.generation] at hn hg ⊢
      split at hn
      · rw [if_pos (by omega)]
        exact hn
      · simp at hn
    | _ => exact hn

theorem Vouched.rebase (hi : Vouched cfg c) {m : VerifiedTip} (h : Rebased c.marker m) :
    Vouched cfg { c with marker := m } := by
  have hle := h.rowGeneration
  refine hi.setMarker hle (fun n hn => hi.claims _ (.marker (h.claims hi.queue hn))) ?_ ?_
  · rw [h.writing, h.markerWrites]
    exact hi.writing
  · rw [h.markerWrites]
    intro w hw
    exact (hi.queue w hw).trans hle

/-- A write joins the queue. -/
theorem Vouched.queueMarkerWrite (hi : Vouched cfg c) {op : MarkerOp} (owner : Party)
    (hg : op.generation ≤ c.marker.rowGeneration)
    (hop : ∀ n, op.claims c.marker.rowGeneration = some n → c.db.Sound n) :
    Vouched cfg { c with marker := c.marker.queueMarkerWrite op owner } := by
  refine hi.setMarker (Nat.le_refl _) ?_ ?_ ?_
  · rintro n (hn | hn | ⟨w, hw, hn⟩)
    · exact hi.claims _ (.marker (Or.inl hn))
    · exact hi.claims _ (.marker (Or.inr (Or.inl hn)))
    · rcases List.mem_append.mp hw with hw | hw
      · exact hi.claims _ (.marker (Or.inr (Or.inr ⟨w, hw, hn⟩)))
      · rw [List.mem_singleton.mp hw] at hn
        exact hop n hn
  · intro n hn
    obtain ⟨w, rest, hq, hlower⟩ := hi.writing n hn
    exact ⟨w, rest ++ [⟨op, owner⟩], by simp [VerifiedTip.queueMarkerWrite, hq], hlower⟩
  · intro w hw
    rcases List.mem_append.mp hw with hw | hw
    · exact hi.queue w hw
    · rw [List.mem_singleton.mp hw]
      exact hg

theorem Vouched.setVerifiedTip (hi : Vouched cfg c) {n : Int} (hn : c.db.Sound n) :
    Vouched cfg (c.setVerifiedTip n) := by
  refine hi.setMarker (Nat.le_refl _) ?_ hi.writing hi.queue
  rintro x (hx | hx)
  · obtain rfl : n = x := Marker.num.inj hx
    exact hn
  · exact hi.claims _ (.marker (Or.inr hx))

/-! ### New rows -/

/-- Rows are inserted above every claim; unapplied ones also where nothing at or below them is
applied and they are not being read. -/
theorem Vouched.insert (hi : Vouched cfg c) {applied : Int → Bool} {hs : List Int}
    (happ : ∀ m ∈ hs, applied m = true → ∀ k, c.Claims cfg k → k.height < m)
    (hjoin : ∀ m ∈ hs, applied m = false → c.db.UnappliedTo m ∧
      ∀ n seen, c.Claims cfg (.reading n seen) → n < m) :
    Vouched cfg { c with db := c.db.insert applied hs } where
  claims := by
    intro k hk
    have hk' : c.Claims cfg k := by
      cases hk with
      | stored h => exact .stored (Replica.verified_tip_insert ▸ h)
      | joined h => exact .joined h
      | marker h => exact .marker h
      | task ht h => exact .task ht h
      | walk hw h => exact .walk hw h
    refine Replica.holds_insert (hi.claims k hk') (fun m hm ha => happ m hm ha k hk') ?_
    intro m hm ha
    refine ⟨(hjoin m hm ha).1, ?_⟩
    rintro n seen rfl
    exact (hjoin m hm ha).2 n seen hk'
  joined := by
    intro base hb
    exact (hi.joined base hb).insert fun m hm ha => happ m hm ha _ (.joined hb)
  base := hi.base.trans (c.db.insert_keeps applied hs).2.2.2.1.symm
  writing := hi.writing
  tasks := hi.tasks
  walk := hi.walk
  queue := hi.queue

/-- No recompute on rows of an earlier generation is claimed. -/
theorem task_claims_upTo {t : Task} {g : Nat} {k : Claim} (hg : t.generation < g)
    (h : t.claims cfg g = some k) : ∃ n, k = .upTo n := by
  obtain ⟨driver, work⟩ := t
  simp only [Task.claims] at h
  split at h
  · rename_i g₀ seen
    change g₀ < g at hg
    rw [if_neg (by omega)] at h
    simp at h
  · split at h
    · exact ⟨_, (Option.some.inj h).symm⟩
    · simp at h
  · split at h
    · exact ⟨_, (Option.some.inj h).symm⟩
    · simp at h
  · obtain ⟨n, -, hn⟩ := Option.map_eq_some_iff.mp h
    exact ⟨n, hn.symm⟩
  · simp at h

theorem walk_claims_upTo {w : Walk} {g : Nat} {k : Claim} (hg : w.generation < g)
    (h : w.claims g = some k) : ∃ n, k = .upTo n := by
  have hne : w.generation ≠ g := by omega
  simp only [Walk.claims, hne, if_false] at h
  split at h
  · obtain ⟨n, -, hn⟩ := Option.map_eq_some_iff.mp h
    exact ⟨n, hn.symm⟩
  all_goals simp at h

/-- Rows are removed or replaced, in a step that raises the generation. -/
theorem Vouched.remove (hi : Vouched cfg c) {db : Replica} {m : VerifiedTip}
    (hsound : ∀ n, c.db.Sound n → db.Sound n) (hun : ∀ n, c.db.UnappliedTo n → db.UnappliedTo n)
    (hstored : db.verified_tip = c.db.verified_tip) (hbase : db.bootstrap_base = c.db.bootstrap_base)
    (hm : Rebased c.marker m) (hlt : c.marker.rowGeneration < m.rowGeneration) :
    Vouched cfg { c with db := db, marker := m } := by
  have hi' := hi.rebase hm
  refine { hi' with
    claims := ?_
    joined := fun base hb => hun base (hi.joined base hb)
    base := hi.base.trans hbase.symm }
  intro k hk
  have hk' : Claims cfg { c with marker := m } k := by
    cases hk with
    | stored h => exact .stored (hstored ▸ h)
    | joined h => exact .joined h
    | marker h => exact .marker h
    | task ht h => exact .task ht h
    | walk hw h => exact .walk hw h
  obtain ⟨n, rfl⟩ : ∃ n, k = .upTo n := by
    cases hk with
    | stored h => exact ⟨_, rfl⟩
    | joined h => exact ⟨_, rfl⟩
    | marker h => exact ⟨_, rfl⟩
    | @task id t k ht h => exact task_claims_upTo (Nat.lt_of_le_of_lt (hi.tasks id t ht) hlt) h
    | @walk w k hw h => exact walk_claims_upTo (Nat.lt_of_le_of_lt (hi.walk w hw) hlt) h
  exact hsound n (hi'.claims _ hk')

end ClientSync

end XChainSync.Client
