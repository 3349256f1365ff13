import XChainSync.Library.JsText
import XChainSync.Library.Runs

/-!
# The log shipper

Lines are buffered up to a cap and sent in batches, one at a time; a failed batch goes back to the
front as far as there is room. Besides the counters the lines logged and the lines that the collector
took are kept, each in its order.
-/

namespace XChainSync.Observability
open Runs
set_option autoImplicit false

def toInt (v : Option String) (fallback : Nat) : Nat :=
  match v.bind JsText.parseInt with
  | some n => if 0 < n then n.toNat else fallback
  | none => fallback

theorem toInt_pos {v : Option String} {fallback : Nat} (h : 0 < fallback) : 0 < toInt v fallback := by
  unfold toInt
  split
  · split
    · rename_i n hn
      omega
    · exact h
  · exact h

/-- The values that `readLogEnv` reads for the shipping of lines. -/
structure ShipConfig where
  shipEnabled : Bool
  batchSize : Nat
  maxBuffer : Nat
  batchSize_pos : 0 < batchSize
  maxBuffer_pos : 0 < maxBuffer

def readShipEnv (shipEnabled : Bool) (LOG_SHIP_BATCH_SIZE LOG_SHIP_MAX_BUFFER : Option String) :
    ShipConfig where
  shipEnabled
  batchSize := toInt LOG_SHIP_BATCH_SIZE 100
  maxBuffer := toInt LOG_SHIP_MAX_BUFFER 5000
  batchSize_pos := toInt_pos (by decide)
  maxBuffer_pos := toInt_pos (by decide)

variable {L : Type}

/-- The send under way; its outcome is counted before the shipper is free for the next. -/
inductive Send (L : Type) where
  | idle
  | pending (batch : List L)
  | settled
  deriving DecidableEq, Repr

def Send.lines : Send L → List L
  | .pending batch => batch
  | _ => []

structure Shipper (L : Type) where
  buffer : List L
  send : Send L
  emitted : Nat
  shipped : Nat
  dropped : Nat
  failures : Nat
  /-- The lines logged. -/
  logged : List L
  /-- The lines of the batches that the collector took. -/
  taken : List L
  deriving DecidableEq, Repr

inductive ShipEvent (L : Type) where
  | log (line : L)
  /-- The timer, or `stop`. -/
  | flush
  | sent
  | failed
  /-- The `finally` of a send. -/
  | free
  deriving DecidableEq, Repr

namespace Shipper
variable (config : ShipConfig)

def start : Shipper L := ⟨[], .idle, 0, 0, 0, 0, [], []⟩

def flush (s : Shipper L) : Shipper L :=
  match s.send with
  | .idle =>
    if s.buffer = [] ∨ config.shipEnabled = false then s
    else
      { s with
        buffer := s.buffer.drop config.batchSize
        send := .pending (s.buffer.take config.batchSize) }
  | _ => s

/-- The oldest line makes room for the newest. -/
def enqueue (s : Shipper L) (line : L) : Shipper L :=
  let s := if config.maxBuffer ≤ s.buffer.length then
      { s with buffer := s.buffer.tail, dropped := s.dropped + 1 }
    else s
  let s := { s with buffer := s.buffer ++ [line] }
  if config.batchSize ≤ s.buffer.length then s.flush config else s

def log (s : Shipper L) (line : L) : Shipper L :=
  let s := { s with emitted := s.emitted + 1, logged := s.logged ++ [line] }
  if config.shipEnabled then s.enqueue config line else s

def sent (s : Shipper L) : Shipper L :=
  match s.send with
  | .pending batch =>
    { s with send := .settled, shipped := s.shipped + batch.length, taken := s.taken ++ batch }
  | _ => s

/-- As much of the end of the batch goes back as there is room for. -/
def failed (s : Shipper L) : Shipper L :=
  match s.send with
  | .pending batch =>
    let room := config.maxBuffer - s.buffer.length
    let keep := batch.drop (batch.length - room)
    { s with
      send := .settled
      failures := s.failures + 1
      dropped := s.dropped + (batch.length - keep.length)
      buffer := keep ++ s.buffer }
  | _ => s

def step (s : Shipper L) : ShipEvent L → Shipper L
  | .log line => s.log config line
  | .flush => s.flush config
  | .sent => s.sent
  | .failed => s.failed config
  | .free =>
    match s.send with
    | .settled => { s with send := .idle }
    | _ => s

end Shipper

/-! ### What is under way -/

/-- The lines that have not gone, in their order. -/
def Shipper.held (s : Shipper L) : List L := s.send.lines ++ s.buffer

/-- Lines are taken, held or counted as dropped, in the order in which they were logged. -/
structure Shipper.Accounted (config : ShipConfig) (s : Shipper L) : Prop where
  capped : s.buffer.length ≤ config.maxBuffer
  batched : s.send.lines.length ≤ config.batchSize
  shipped : s.shipped = s.taken.length
  emitted : s.emitted = s.logged.length
  count : config.shipEnabled = true →
    s.emitted = s.shipped + s.dropped + s.send.lines.length + s.buffer.length
  ordered : (s.taken ++ s.held).Sublist s.logged
  inert : config.shipEnabled = false →
    s.send = .idle ∧ s.buffer = [] ∧ s.taken = [] ∧ s.dropped = 0 ∧ s.failures = 0

namespace Shipper.Accounted
variable {config : ShipConfig} {s : Shipper L}

theorem start (config : ShipConfig) : (Shipper.start : Shipper L).Accounted config where
  capped := Nat.zero_le _
  batched := Nat.zero_le _
  shipped := rfl
  emitted := rfl
  count := fun _ => rfl
  ordered := List.Sublist.refl _
  inert := fun _ => ⟨rfl, rfl, rfl, rfl, rfl⟩

theorem flush (h : s.Accounted config) : (s.flush config).Accounted config := by
  unfold Shipper.flush
  cases hsend : s.send with
  | idle =>
    dsimp only
    split
    · exact h
    · rename_i hready
      have hlines : s.send.lines = [] := by rw [hsend]; rfl
      have hheld : s.held = s.buffer := by rw [Shipper.held, hlines, List.nil_append]
      have hsplit := List.take_append_drop config.batchSize s.buffer
      have hlength := congrArg List.length hsplit
      rw [List.length_append] at hlength
      have hcapped := h.capped
      refine ⟨?_, ?_, h.shipped, h.emitted, fun hon => ?_, ?_, fun hoff => ?_⟩
      · show (s.buffer.drop config.batchSize).length ≤ config.maxBuffer
        omega
      · exact List.length_take_le _ _
      · show s.emitted = s.shipped + s.dropped + (s.buffer.take config.batchSize).length +
          (s.buffer.drop config.batchSize).length
        have hcount := h.count hon
        rw [hlines, List.length_nil] at hcount
        omega
      · show (s.taken ++ (s.buffer.take config.batchSize ++ s.buffer.drop config.batchSize)).Sublist _
        rw [hsplit, ← hheld]
        exact h.ordered
      · exact absurd (.inr hoff) hready
  | pending batch => exact h
  | settled => exact h

theorem enqueue (line : L) (h : s.Accounted config) (hon : config.shipEnabled = true) :
    ({ s with emitted := s.emitted + 1, logged := s.logged ++ [line] }.enqueue config line).Accounted
      config := by
  have hpushed : ∀ buffer dropped, buffer.length < config.maxBuffer →
      s.dropped + s.buffer.length = dropped + buffer.length → buffer.Sublist s.buffer →
        ({ s with
          emitted := s.emitted + 1
          logged := s.logged ++ [line]
          dropped
          buffer := buffer ++ [line] } : Shipper L).Accounted config := by
    intro buffer dropped hroom hsame hsub
    refine ⟨?_, h.batched, h.shipped, ?_, fun _ => ?_, ?_, fun hoff => ?_⟩
    · show (buffer ++ [line]).length ≤ config.maxBuffer
      rw [List.length_append, List.length_singleton]
      omega
    · show s.emitted + 1 = (s.logged ++ [line]).length
      rw [List.length_append, h.emitted, List.length_singleton]
    · show s.emitted + 1 = s.shipped + dropped + s.send.lines.length + (buffer ++ [line]).length
      have hcount := h.count hon
      rw [List.length_append, List.length_singleton]
      omega
    · show (s.taken ++ (s.send.lines ++ (buffer ++ [line]))).Sublist (s.logged ++ [line])
      have hheld : (s.taken ++ (s.send.lines ++ buffer)).Sublist s.logged :=
        (hsub.append_left s.send.lines |>.append_left s.taken).trans h.ordered
      rw [← List.append_assoc s.send.lines, ← List.append_assoc s.taken]
      exact hheld.append (List.Sublist.refl _)
    · rw [hon] at hoff
      cases hoff
  have hresult : ∀ u : Shipper L, u.Accounted config →
      (if config.batchSize ≤ u.buffer.length then u.flush config else u).Accounted config := by
    intro u hu
    split
    · exact hu.flush
    · exact hu
  unfold Shipper.enqueue
  have hcapped := h.capped
  have hpos := config.maxBuffer_pos
  split
  · rename_i hfull
    have hfull' : config.maxBuffer ≤ s.buffer.length := hfull
    refine hresult _ (hpushed s.buffer.tail (s.dropped + 1) ?_ ?_ (List.tail_sublist _))
    · rw [List.length_tail]
      omega
    · rw [List.length_tail]
      omega
  · rename_i hroom
    have hroom' : ¬ config.maxBuffer ≤ s.buffer.length := hroom
    exact hresult _ (hpushed s.buffer s.dropped (by omega) rfl (List.Sublist.refl _))

theorem log (line : L) (h : s.Accounted config) : (s.log config line).Accounted config := by
  unfold Shipper.log
  split
  · rename_i hon
    exact h.enqueue line hon
  · rename_i hoff
    refine ⟨h.capped, h.batched, h.shipped, ?_, fun hon => absurd hon hoff, ?_, h.inert⟩
    · show s.emitted + 1 = (s.logged ++ [line]).length
      rw [List.length_append, h.emitted, List.length_singleton]
    · exact h.ordered.trans (List.sublist_append_left _ _)

theorem sent (h : s.Accounted config) : s.sent.Accounted config := by
  unfold Shipper.sent
  cases hsend : s.send with
  | pending batch =>
    have hlines : s.send.lines = batch := by rw [hsend]; rfl
    refine ⟨h.capped, Nat.zero_le _, ?_, h.emitted, fun hon => ?_, ?_, fun hoff => ?_⟩
    · show s.shipped + batch.length = (s.taken ++ batch).length
      rw [List.length_append, h.shipped]
    · show s.emitted = s.shipped + batch.length + s.dropped + 0 + s.buffer.length
      have hcount := h.count hon
      rw [hlines] at hcount
      omega
    · show (s.taken ++ batch ++ ([] ++ s.buffer)).Sublist s.logged
      have hordered := h.ordered
      rwa [Shipper.held, hlines, ← List.append_assoc] at hordered
    · exact absurd (hsend.symm.trans (h.inert hoff).1) (by simp)
  | idle => exact h
  | settled => exact h

theorem failed (h : s.Accounted config) : (s.failed config).Accounted config := by
  unfold Shipper.failed
  cases hsend : s.send with
  | pending batch =>
    have hlines : s.send.lines = batch := by rw [hsend]; rfl
    have hcapped := h.capped
    dsimp only
    generalize hkeep : batch.drop (batch.length - (config.maxBuffer - s.buffer.length)) = keep
    have hlength : keep.length = min batch.length (config.maxBuffer - s.buffer.length) := by
      rw [← hkeep, List.length_drop]
      omega
    have hsub : keep.Sublist batch := hkeep ▸ List.drop_sublist _ _
    refine ⟨?_, Nat.zero_le _, h.shipped, h.emitted, fun hon => ?_, ?_, fun hoff => ?_⟩
    · show (keep ++ s.buffer).length ≤ config.maxBuffer
      rw [List.length_append]
      omega
    · show s.emitted = s.shipped + (s.dropped + (batch.length - keep.length)) + 0 +
        (keep ++ s.buffer).length
      have hcount := h.count hon
      rw [hlines] at hcount
      rw [List.length_append]
      omega
    · show (s.taken ++ ([] ++ (keep ++ s.buffer))).Sublist s.logged
      refine .trans ?_ h.ordered
      rw [Shipper.held, hlines]
      exact (hsub.append (List.Sublist.refl _)).append_left s.taken
    · exact absurd (hsend.symm.trans (h.inert hoff).1) (by simp)
  | idle => exact h
  | settled => exact h

theorem step (e : ShipEvent L) (h : s.Accounted config) : (s.step config e).Accounted config := by
  cases e with
  | log line => exact h.log line
  | flush => exact h.flush
  | sent => exact h.sent
  | failed => exact h.failed
  | free =>
    unfold Shipper.step
    cases hsend : s.send with
    | settled =>
      have hlines : s.send.lines = [] := by rw [hsend]; rfl
      refine ⟨h.capped, Nat.zero_le _, h.shipped, h.emitted, fun hon => ?_, ?_, fun hoff => ?_⟩
      · have hcount := h.count hon
        rwa [hlines] at hcount
      · have hordered := h.ordered
        rwa [Shipper.held, hlines] at hordered
      · exact ⟨rfl, (h.inert hoff).2⟩
    | idle => exact h
    | pending batch => exact h

end Shipper.Accounted

/-- However logging, timers and the outcomes of the sends fall, the buffer stays within its cap, what
is neither dropped nor under way has been taken in the order in which it was logged, and with nothing
counted as dropped it is all there. With shipping off nothing is held. -/
theorem Shipper.lines_accounted {config : ShipConfig} {s : Shipper L}
    (h : Run (fun s e t => t = s.step config e) Any Shipper.start s) :
    s.buffer.length ≤ config.maxBuffer ∧ (s.taken ++ s.held).Sublist s.logged ∧
      (config.shipEnabled = true →
        s.logged.length = s.taken.length + s.held.length + s.dropped ∧
          (s.dropped = 0 → s.taken ++ s.held = s.logged)) ∧
      (config.shipEnabled = false → s.taken = [] ∧ s.held = []) := by
  have hacc : s.Accounted config := by
    refine h.invariant (I := fun s => s.Accounted config) (Shipper.Accounted.start config) ?_
    rintro t e u ht - rfl
    exact ht.step e
  have hcount : config.shipEnabled = true →
      s.logged.length = s.taken.length + s.held.length + s.dropped := by
    intro hon
    have hcount := hacc.count hon
    rw [hacc.emitted, hacc.shipped] at hcount
    rw [Shipper.held, List.length_append]
    omega
  refine ⟨hacc.capped, hacc.ordered, fun hon => ⟨hcount hon, fun hdropped => ?_⟩, fun hoff => ?_⟩
  · apply hacc.ordered.eq_of_length
    rw [List.length_append, hcount hon, hdropped, Nat.add_zero]
  · obtain ⟨hsend, hbuffer, htaken, -⟩ := hacc.inert hoff
    exact ⟨htaken, by rw [Shipper.held, hsend, hbuffer]; rfl⟩

/-- Two batches of two, the first of which fails and is sent again. -/
theorem Shipper.failed_batch_keeps_its_place :
    let config := readShipEnv true (some "2") (some "3")
    let s := runAll (Shipper.step config) (Shipper.start : Shipper Nat)
      [.log 1, .log 2, .log 3, .failed, .free, .flush, .sent, .free]
    s.buffer.length ≤ config.maxBuffer ∧ (s.taken ++ s.held).Sublist s.logged ∧
      (config.shipEnabled = true →
        s.logged.length = s.taken.length + s.held.length + s.dropped ∧
          (s.dropped = 0 → s.taken ++ s.held = s.logged)) ∧
      (config.shipEnabled = false → s.taken = [] ∧ s.held = []) :=
  Shipper.lines_accounted (run_runAll _ _ fun _ _ _ _ => trivial)

example : (runAll (Shipper.step (readShipEnv true (some "2") (some "3"))) (Shipper.start : Shipper Nat)
    [.log 1, .log 2, .log 3, .failed, .free, .flush, .sent, .free]).taken = [1, 2] := by
  decide

end XChainSync.Observability
