import XChainSync.Client.Commits
import XChainSync.Library.Runs

/-!
# The committed heights

A live apply and a catch-up range are inserted at the heights their call has fixed before it waited
for the apply lock. The rows stay one interval along every run in which each of them still follows
the database tip when its turn comes.
-/

namespace XChainSync.Client
set_option autoImplicit false

open Runs

/-! ### Consecutive heights -/

def Consecutive : Int → List Int → Prop
  | _, [] => True
  | a, h :: hs => h = a ∧ Consecutive (a + 1) hs

instance decidableConsecutive : (a : Int) → (hs : List Int) → Decidable (Consecutive a hs)
  | _, [] => inferInstanceAs (Decidable True)
  | a, _ :: hs => @instDecidableAnd _ _ _ (decidableConsecutive (a + 1) hs)

/-- The heights of a payload that goes on from a tip. -/
def Follows : Option Int → List Int → Prop
  | some tip, hs => Consecutive (tip + 1) hs
  | none, [] => True
  | none, h :: hs => Consecutive (h + 1) hs

instance (tip : Option Int) (hs : List Int) : Decidable (Follows tip hs) := by
  unfold Follows
  split <;> infer_instance

theorem Consecutive.mem_iff {a : Int} {hs : List Int} (hc : Consecutive a hs) (h : Int) :
    h ∈ hs ↔ a ≤ h ∧ h < a + hs.length := by
  induction hs generalizing a with
  | nil => simp
  | cons x hs ih =>
    obtain ⟨rfl, hc⟩ := hc
    rw [List.mem_cons, ih hc, List.length_cons]
    omega

theorem Consecutive.nodup {a : Int} {hs : List Int} (hc : Consecutive a hs) : hs.Nodup := by
  induction hs generalizing a with
  | nil => exact List.nodup_nil
  | cons x hs ih =>
    obtain ⟨rfl, hc⟩ := hc
    refine List.nodup_cons.mpr ⟨?_, ih hc⟩
    rw [hc.mem_iff]
    omega

/-! ### The replica -/

namespace Replica

/-- No height is stored twice, and every height between a stored one and the tip is stored. -/
def Contiguous (db : Replica) : Prop :=
  db.heights.Nodup ∧
    ∀ lo ∈ db.heights, ∀ tip ∈ db.tip, ∀ h, lo ≤ h → h ≤ tip → h ∈ db.heights

variable {db : Replica}

theorem contiguous_congr {db' : Replica} (h : db'.rows = db.rows) (hc : db.Contiguous) :
    db'.Contiguous := by
  unfold Contiguous at *
  rw [tip_congr h]
  simpa [heights, h] using hc

theorem contiguous_of_consecutive {a : Int} {hs : List Int} (hc : Consecutive a hs)
    (hh : db.heights = hs) : db.Contiguous := by
  refine ⟨hh ▸ hc.nodup, ?_⟩
  intro lo hlo tip htip h hle hle'
  have htip' := (tip_eq_some_iff.mp htip).1
  rw [hh, hc.mem_iff] at *
  omega

/-- Inserting what follows the tip. -/
theorem Contiguous.insert {applied : Int → Bool} {hs : List Int} (hc : db.Contiguous)
    (hf : Follows db.tip hs) : (db.insert applied hs).Contiguous := by
  have hheights := heights_insert db applied hs
  cases htip : db.tip with
  | none =>
    rw [htip] at hf
    rw [tip_eq_none_iff.mp htip, List.nil_append] at hheights
    obtain _ | ⟨x, hs⟩ := hs
    · have hnil : Consecutive 0 [] := trivial
      exact contiguous_of_consecutive hnil hheights
    · have hcons : Consecutive x (x :: hs) := ⟨rfl, hf⟩
      exact contiguous_of_consecutive hcons hheights
  | some tip =>
    rw [htip] at hf
    have hmem := fun h => Consecutive.mem_iff hf h
    obtain ⟨htip', hle⟩ := tip_eq_some_iff.mp htip
    refine ⟨?_, ?_⟩
    · rw [hheights]
      refine List.nodup_append.mpr ⟨hc.1, Consecutive.nodup hf, ?_⟩
      intro x hx y hy
      have hx' := hle x hx
      have hy' := (hmem y).mp hy
      omega
    · intro lo hlo top htop h hl hu
      have htop' := (tip_eq_some_iff.mp htop).1
      rw [hheights, List.mem_append] at *
      by_cases hh : h ≤ tip
      · left
        rcases hlo with hlo | hlo
        · exact hc.2 lo hlo tip htip h hl hh
        · have := (hmem lo).mp hlo
          omega
      · right
        rcases htop' with htop' | htop'
        · have := hle top htop'
          omega
        · have := (hmem top).mp htop'
          exact (hmem h).mpr (by omega)

theorem Contiguous.deleteFrom (hc : db.Contiguous) (target : Int) :
    (db.deleteFrom target).Contiguous := by
  have hheights := heights_deleteFrom db target
  refine ⟨hheights ▸ hc.1.filter _, ?_⟩
  intro lo hlo top htop h hl hu
  have htop' := (tip_eq_some_iff.mp htop).1
  rw [hheights, List.mem_filter, decide_eq_true_eq] at *
  obtain ⟨tip, htip⟩ : ∃ tip, db.tip = some tip := by
    apply Option.ne_none_iff_exists'.mp
    rw [Ne, tip_eq_none_iff]
    exact List.ne_nil_of_mem hlo.1
  have hle := (tip_eq_some_iff.mp htip).2 top htop'.1
  exact ⟨hc.2 lo hlo.1 tip htip h hl (by omega), by omega⟩

theorem contiguous_replaceAll {hs : List Int} (hf : Follows none hs) :
    (db.replaceAll hs).Contiguous := by
  have hempty : { db with rows := [] }.Contiguous := ⟨List.nodup_nil, fun _ h => by simp [heights] at h⟩
  exact hempty.insert (by simpa [tip, heights] using hf)

end Replica

/-! ### Runs -/

namespace ClientSync

/-- A commit that still follows the database tip: a live block is the next one, a range was asked for
at the tip that is stored now and holds the blocks after it, and a bootstrap starts from nothing. -/
def InTurn (c : ClientSync) (a : Action) : Prop :=
  match c.committing a with
  | some (.block h) => Follows c.db.tip [h]
  | some (.range hs) =>
    (match c.catchUp with
      | some ⟨_, .lockWait dbTip _⟩ => dbTip = c.db.tip
      | _ => False) ∧ Follows c.db.tip hs
  | some (.window _ hs) => c.db.tip = none ∧ Follows none hs
  | some (.snapshot hs) => Follows none hs
  | _ => True

instance (c : ClientSync) (a : Action) : Decidable (c.InTurn a) := by
  unfold InTurn
  split
  · infer_instance
  · refine @instDecidableAnd _ _ ?_ inferInstance
    split <;> infer_instance
  · infer_instance
  · infer_instance
  · infer_instance

theorem contiguous_committed {c : ClientSync} {a : Action} (hc : c.db.Contiguous)
    (hturn : c.InTurn a) : (c.committed a).Contiguous := by
  unfold InTurn at hturn
  unfold committed
  split at hturn
  · rename_i hk
    rw [hk]
    exact hc.insert hturn
  · rename_i hk
    rw [hk]
    exact hc.insert hturn.2
  · rename_i hk
    rw [hk]
    exact hc.insert (hturn.1 ▸ hturn.2)
  · rename_i hk
    rw [hk]
    exact Replica.contiguous_replaceAll hturn
  · split
    · rename_i k hk
      cases k with
      | rollback target => exact hc.deleteFrom target
      | _ => simp_all
    · exact hc

theorem step_contiguous {cfg : Config} {c c' : ClientSync} {a : Action} (hc : c.db.Contiguous)
    (hturn : c.InTurn a) (h : Steps cfg c a c') : c'.db.Contiguous :=
  Replica.contiguous_congr (step_rows h).1 (contiguous_committed hc hturn)

/-- Blocks 8 to 10, verified. -/
def threeBlocks : Replica := Replica.verified [8, 9, 10] (some 10)

theorem threeBlocks_contiguous : threeBlocks.Contiguous := by
  have hc : Consecutive 8 [8, 9, 10] := by decide
  exact Replica.contiguous_of_consecutive hc rfl

/-- The reorg of block 9 that the event chain handles meanwhile. -/
def reorgAtNine : List Action :=
  [.reorg ⟨9, .plain .undefined⟩ 0, .task 0 .ok, .markerWrite .ok, .markerWrite .ok, .task 0 .ok,
    .task 0 .ok, .task 0 .ok]

/-- Blocks 11 and 12 arrive and are committed. -/
def commitEleven : List Action :=
  [.runnerGets ⟨[11, 12], some 12, some 11⟩, .runner .ok, .runner .ok]

end ClientSync

end XChainSync.Client
