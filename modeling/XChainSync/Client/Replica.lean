import Mathlib.Data.List.MinMax
import Mathlib.Data.List.Basic
import XChainSync.Client.RollbackGuard

/-!
# The replica's database

Every insertion of a block's rows is one `StoredBlock`, in insertion order, with a stamp of its
own: a height inserted twice is stored twice. `recomputed` and `highest` are not in the database;
they remember which rows a clean recompute of a height has read, and the highest height ever
inserted.
-/

namespace XChainSync.Client
set_option autoImplicit false

structure StoredBlock where
  height : Int
  stamp : Nat
  /-- Inserted by a live apply, a catch-up range or a window above its join block. -/
  applied : Bool
  deriving DecidableEq, Repr

/-- The rows, and the sync_state keys the modelled code reads and writes. -/
structure Replica where
  rows : List StoredBlock
  nextStamp : Nat
  verified_tip : Option Int
  post_commit_verify_pending : Option Int
  rollback_guard : RollbackGuard
  bootstrap_base : Option Int
  recomputed : Int → Option (List Nat)
  highest : Option Int

namespace Replica

def heights (db : Replica) : List Int := db.rows.map StoredBlock.height

/-- `getLastBlock`. -/
def tip (db : Replica) : Option Int := db.heights.max?

def holds (db : Replica) (h : Int) : Bool := db.heights.contains h

/-- The insertions the rows of a height come from. -/
def rowsAt (db : Replica) (h : Int) : List Nat :=
  (db.rows.filter fun b => b.height = h).map StoredBlock.stamp

def insertOne (db : Replica) (h : Int) (applied : Bool) : Replica :=
  { db with
    rows := db.rows ++ [⟨h, db.nextStamp, applied⟩]
    nextStamp := db.nextStamp + 1
    highest := some (max h (db.highest.getD h)) }

/-- One transaction that inserts the blocks of a payload. -/
def insert (db : Replica) (applied : Int → Bool) (hs : List Int) : Replica :=
  hs.foldl (fun db h => db.insertOne h (applied h)) db

/-- `ClientRollback.rollback`: delete every block at or above the target. -/
def deleteFrom (db : Replica) (target : Int) : Replica :=
  { db with rows := db.rows.filter fun b => b.height < target }

/-- `applyFullSnapshot`: delete everything, then insert the snapshot. -/
def replaceAll (db : Replica) (hs : List Int) : Replica :=
  { db with rows := [] }.insert (fun _ => false) hs

def empty : Replica := ⟨[], 0, none, none, none, none, fun _ => none, none⟩

/-- A replica that holds these blocks, all of them recomputed, with its verified_tip at `marker`. -/
def verified (hs : List Int) (marker : Option Int) : Replica :=
  let db := empty.insert (fun _ => true) hs
  { db with verified_tip := marker, recomputed := fun h => some (db.rowsAt h) }

/-- A replica that holds these blocks from before, with its verified_tip at `marker`. -/
def history (hs : List Int) (marker : Option Int) : Replica :=
  { empty.insert (fun _ => false) hs with verified_tip := marker }

/-- A recompute of `h` that began on `seen` has passed: it speaks for the rows only if they are
still the ones it began on. -/
def markRecomputed (db : Replica) (h : Int) (seen : List Nat) : Replica :=
  if db.rowsAt h = seen then
    { db with recomputed := fun h' => if h' = h then some seen else db.recomputed h' }
  else db

/-- The rows a height now has were recomputed clean. -/
def Clean (db : Replica) (h : Int) : Prop := db.recomputed h = some (db.rowsAt h)

/-- Every applied block at or below `n` is clean. -/
def Sound (db : Replica) (n : Int) : Prop :=
  ∀ b ∈ db.rows, b.applied = true → b.height ≤ n → db.Clean b.height

variable {db : Replica} {applied : Int → Bool} {hs : List Int} {h n target : Int}

/-! ### The tip -/

theorem tip_eq_some_iff {tip : Int} :
    db.tip = some tip ↔ tip ∈ db.heights ∧ ∀ h ∈ db.heights, h ≤ tip := List.max?_eq_some_iff

theorem tip_eq_none_iff : db.tip = none ↔ db.heights = [] := List.max?_eq_none_iff

theorem tip_congr {db' : Replica} (h : db'.rows = db.rows) : db'.tip = db.tip := by
  simp [tip, heights, h]

/-! ### Insertions -/

theorem insert_cons (db : Replica) (applied : Int → Bool) (h : Int) (hs : List Int) :
    db.insert applied (h :: hs) = (db.insertOne h (applied h)).insert applied hs := rfl

theorem insert_rows (db : Replica) (applied : Int → Bool) (hs : List Int) :
    ∃ bs : List StoredBlock, (db.insert applied hs).rows = db.rows ++ bs ∧
      bs.map StoredBlock.height = hs ∧ ∀ b ∈ bs, b.applied = applied b.height := by
  induction hs generalizing db with
  | nil => exact ⟨[], by simp [insert]⟩
  | cons h hs ih =>
    obtain ⟨bs, hrows, hheights, happ⟩ := ih (db.insertOne h (applied h))
    refine ⟨⟨h, db.nextStamp, applied h⟩ :: bs, ?_, by simp [hheights], ?_⟩
    · rw [insert_cons, hrows]
      simp [insertOne]
    · intro b hb
      rcases List.mem_cons.mp hb with rfl | hb
      · rfl
      · exact happ b hb

theorem heights_insert (db : Replica) (applied : Int → Bool) (hs : List Int) :
    (db.insert applied hs).heights = db.heights ++ hs := by
  obtain ⟨bs, hrows, hheights, -⟩ := db.insert_rows applied hs
  simp [heights, hrows, hheights]

theorem insert_keeps (db : Replica) (applied : Int → Bool) (hs : List Int) :
    (db.insert applied hs).verified_tip = db.verified_tip ∧
      (db.insert applied hs).post_commit_verify_pending = db.post_commit_verify_pending ∧
      (db.insert applied hs).rollback_guard = db.rollback_guard ∧
      (db.insert applied hs).bootstrap_base = db.bootstrap_base ∧
      (db.insert applied hs).recomputed = db.recomputed := by
  induction hs generalizing db with
  | nil => simp [insert]
  | cons h hs ih =>
    rw [insert_cons]
    exact ih (db.insertOne h (applied h))

@[simp] theorem verified_tip_insert :
    (db.insert applied hs).verified_tip = db.verified_tip := (db.insert_keeps applied hs).1

@[simp] theorem rollback_guard_insert :
    (db.insert applied hs).rollback_guard = db.rollback_guard := (db.insert_keeps applied hs).2.2.1

@[simp] theorem recomputed_insert :
    (db.insert applied hs).recomputed = db.recomputed := (db.insert_keeps applied hs).2.2.2.2

theorem highest_insert_mem {high : Int} (hm : high ∈ (db.insert applied hs).highest) :
    high ∈ db.highest ∨ high ∈ hs := by
  induction hs generalizing db with
  | nil => exact Or.inl hm
  | cons h hs ih =>
    rw [insert_cons] at hm
    rcases ih hm with hm | hm
    · simp only [insertOne, Option.mem_some_iff] at hm
      cases hd : db.highest with
      | none =>
        simp only [hd, Option.getD_none, max_self] at hm
        exact Or.inr (by simp [hm])
      | some x =>
        simp only [hd, Option.getD_some] at hm
        rcases max_choice h x with hmax | hmax
        · exact Or.inr (by simp [← hm, hmax])
        · exact Or.inl (by simp [← hm, hmax])
    · exact Or.inr (List.mem_cons_of_mem h hm)

theorem rowsAt_insert (hnot : h ∉ hs) : (db.insert applied hs).rowsAt h = db.rowsAt h := by
  obtain ⟨bs, hrows, hheights, -⟩ := db.insert_rows applied hs
  have hnone : bs.filter (fun b => b.height = h) = [] := by
    rw [List.filter_eq_nil_iff]
    intro b hb heq
    refine hnot (hheights ▸ List.mem_map.mpr ⟨b, hb, ?_⟩)
    simpa using heq
  simp [rowsAt, hrows, hnone]

theorem applied_history (hs : List Int) (marker : Option Int) :
    ∀ b ∈ (history hs marker).rows, b.applied = false := by
  obtain ⟨bs, hrows, -, happlied⟩ := empty.insert_rows (fun _ => false) hs
  intro b hb
  change b ∈ (empty.insert (fun _ => false) hs).rows at hb
  rw [hrows] at hb
  exact happlied b (by simpa [empty] using hb)

/-- Inserting above `n`, or an unapplied block where no applied one is, keeps everything at or below
`n` sound. -/
theorem Sound.insert (hs' : db.Sound n) (hfit : ∀ m ∈ hs, n < m ∨
      applied m = false ∧ ∀ b ∈ db.rows, b.applied = true → b.height ≠ m) :
    (db.insert applied hs).Sound n := by
  obtain ⟨bs, hrows, hheights, happlied⟩ := db.insert_rows applied hs
  intro b hb happ hle
  have hold : b ∈ db.rows := by
    rcases List.mem_append.mp (hrows ▸ hb) with hb | hb
    · exact hb
    · rcases hfit b.height (hheights ▸ List.mem_map_of_mem hb) with hlt | ⟨hun, -⟩
      · omega
      · rw [happlied b hb, hun] at happ
        simp at happ
  have hnot : b.height ∉ hs := by
    intro hm
    rcases hfit b.height hm with hlt | ⟨-, hne⟩
    · omega
    · exact hne b hold happ rfl
  simpa [Clean, rowsAt_insert hnot] using hs' b hold happ hle

/-- No applied block is at or below `n`. -/
def UnappliedTo (db : Replica) (n : Int) : Prop := ∀ b ∈ db.rows, b.applied = true → n < b.height

theorem UnappliedTo.sound (hu : db.UnappliedTo n) : db.Sound n := by
  intro b hb happ hle
  have hlt := hu b hb happ
  omega

theorem UnappliedTo.mono {m : Int} (hu : db.UnappliedTo n) (hle : m ≤ n) : db.UnappliedTo m := by
  intro b hb happ
  have hlt := hu b hb happ
  omega

theorem UnappliedTo.insert (hu : db.UnappliedTo n) (habove : ∀ m ∈ hs, applied m = true → n < m) :
    (db.insert applied hs).UnappliedTo n := by
  obtain ⟨bs, hrows, hheights, happlied⟩ := db.insert_rows applied hs
  intro b hb happ
  rcases List.mem_append.mp (hrows ▸ hb) with hb | hb
  · exact hu b hb happ
  · exact habove b.height (hheights ▸ List.mem_map_of_mem hb) (happlied b hb ▸ happ)

/-! ### Deletions -/

theorem heights_deleteFrom (db : Replica) (target : Int) :
    (db.deleteFrom target).heights = db.heights.filter (· < target) := by
  simp [heights, deleteFrom, List.filter_map, Function.comp_def]

theorem rowsAt_deleteFrom (hlt : h < target) :
    (db.deleteFrom target).rowsAt h = db.rowsAt h := by
  simp only [rowsAt, deleteFrom, List.filter_filter]
  congr 1
  refine List.filter_congr fun b _ => ?_
  by_cases hb : b.height = h <;> simp [hb, hlt]

theorem Sound.deleteFrom (hs' : db.Sound n) (target : Int) : (db.deleteFrom target).Sound n := by
  intro b hb happ hle
  simp only [Replica.deleteFrom, List.mem_filter, decide_eq_true_eq] at hb
  have hclean := hs' b hb.1 happ hle
  rw [Clean, rowsAt_deleteFrom hb.2]
  exact hclean

theorem UnappliedTo.deleteFrom (hu : db.UnappliedTo n) (target : Int) :
    (db.deleteFrom target).UnappliedTo n := by
  intro b hb
  simp only [Replica.deleteFrom, List.mem_filter] at hb
  exact hu b hb.1

theorem unappliedTo_replaceAll (db : Replica) (hs : List Int) (n : Int) :
    (db.replaceAll hs).UnappliedTo n := by
  obtain ⟨bs, hrows, -, happ⟩ := { db with rows := [] }.insert_rows (fun _ => false) hs
  intro b hb hb'
  rw [replaceAll, hrows] at hb
  simp [happ b (by simpa using hb)] at hb'

/-! ### Recomputes -/

@[simp] theorem rows_markRecomputed (db : Replica) (h : Int) (seen : List Nat) :
    (db.markRecomputed h seen).rows = db.rows := by
  unfold markRecomputed
  split <;> rfl

theorem rowsAt_markRecomputed (db : Replica) (h m : Int) (seen : List Nat) :
    (db.markRecomputed h seen).rowsAt m = db.rowsAt m := by
  simp [rowsAt]

@[simp] theorem tip_markRecomputed (db : Replica) (h : Int) (seen : List Nat) :
    (db.markRecomputed h seen).tip = db.tip := by
  simp [tip, heights]

theorem Clean.markRecomputed {m : Int} (hc : db.Clean m) (h : Int) (seen : List Nat) :
    (db.markRecomputed h seen).Clean m := by
  unfold Clean
  rw [rowsAt_markRecomputed]
  unfold Replica.markRecomputed
  split
  · rename_i heq
    dsimp only
    split
    · rename_i hm
      rw [hm, heq]
    · exact hc
  · exact hc

theorem clean_markRecomputed {seen : List Nat} (hseen : db.rowsAt h = seen) : (db.markRecomputed h seen).Clean h := by
  unfold Clean
  rw [rowsAt_markRecomputed]
  simp [markRecomputed, hseen]

theorem Sound.markRecomputed (hs' : db.Sound n) (h : Int) (seen : List Nat) :
    (db.markRecomputed h seen).Sound n := by
  intro b hb happ hle
  rw [rows_markRecomputed] at hb
  exact (hs' b hb happ hle).markRecomputed h seen

theorem Sound.mono {m : Int} (hs' : db.Sound n) (hle : m ≤ n) : db.Sound m :=
  fun b hb happ hm => hs' b hb happ (hm.trans hle)

/-- One clean block more. -/
theorem Sound.succ (hs' : db.Sound (n - 1)) (hc : db.Clean n) : db.Sound n := by
  intro b hb happ hle
  rcases Int.lt_or_eq_of_le hle with hlt | heq
  · exact hs' b hb happ (by omega)
  · rw [heq]
    exact hc

end Replica

end XChainSync.Client
