import Sponge.Connection.Sending
import Sponge.Sender.Retransmissions

/-! # Giving up

A connection that has sent segments again too often sends a RST and is over. It counts
what its sender counts.
-/

namespace Sponge

open Runs TCPSender

namespace TCPConnection

variable {c : TCPConnection} {ms : ℕ}

/-- The connection has sent nothing and waits for a SYN; a tick does nothing then. -/
def listens (c : TCPConnection) : Bool :=
  c.sender.bytesInFlight == 0 && !c.sender.stream.eof && c.receiver.ackno.isNone

/-- A tick sends a RST. -/
def GivesUp (c : TCPConnection) (ms : ℕ) : Prop :=
  ∃ seg ∈ (c.tick ms).segmentsOut.drop c.segmentsOut.length, seg.header.rst = true

instance (c : TCPConnection) (ms : ℕ) : Decidable (c.GivesUp ms) :=
  inferInstanceAs (Decidable (∃ _ ∈ _, _))

theorem sendRST_segmentsOut (c : TCPConnection) :
    ∃ seg, c.sendRST.segmentsOut = c.segmentsOut ++ [seg] ∧ seg.header.rst = true := by
  unfold sendRST
  simp only
  split
  · next h => simp [sendEmptySegment] at h
  · exact ⟨_, rfl, rfl⟩

theorem stamp_rst (c : TCPConnection) (seg : TCPSegment) :
    (c.stamp seg).header.rst = seg.header.rst := by
  unfold stamp
  cases c.receiver.ackno <;> rfl

theorem not_awake :
    ¬ (c.active = true ∧ c.listens = false) ↔ c.active = false ∨ c.listens = true := by
  rw [not_and_or, Bool.not_eq_true, Bool.not_eq_false]

theorem tick_asleep {ms : ℕ} (h : c.active = false ∨ c.listens = true) : c.tick ms = c := by
  unfold tick
  by_cases hactive : c.active = true
  · rw [if_neg (by simp [hactive])]
    exact if_pos (h.resolve_left (by simp [hactive]))
  · exact if_pos (by simpa using hactive)

/-- The connection in a tick, before anything is sent. -/
def ticking (c : TCPConnection) (ms : ℕ) : TCPConnection :=
  let timesOut := c.timesOut ((c.tnow + ms) % 2 ^ 64)
  { c with
    tnow := (c.tnow + ms) % 2 ^ 64
    lingerAfterStreamsFinish := c.lingerAfterStreamsFinish && !timesOut
    active := c.active && !timesOut
    sender := c.sender.tick ms }

theorem tick_awake (ms : ℕ) (hactive : c.active = true) (hlistens : c.listens = false) :
    c.tick ms = if maxRetxAttempts < (c.sender.tick ms).consecutiveRetransmissions
      then (c.ticking ms).sendRST else (c.ticking ms).fillWindowAndSend.1 := by
  have hlistens' : ¬ c.listens = true := by simp [hlistens]
  have hover : ({ c with tnow := (c.tnow + ms) % 2 ^ 64 } : TCPConnection).lingerOver =
      { c.ticking ms with sender := c.sender } := by
    have htime : ({ c with tnow := (c.tnow + ms) % 2 ^ 64 } : TCPConnection).timesOut
        ((c.tnow + ms) % 2 ^ 64) = c.timesOut ((c.tnow + ms) % 2 ^ 64) := rfl
    rw [lingerOver, htime]
    split_ifs with hout
    · simp only [ticking, hout, Bool.not_true, Bool.and_false]
    · rw [Bool.not_eq_true] at hout
      simp only [ticking, hout, Bool.not_false, Bool.and_true]
  rw [tick, if_neg (by simp [hactive])]
  apply (if_neg hlistens').trans
  simp only [hover]
  rfl

theorem givesUp_iff (h : c.sender.NoRst) (hactive : c.active = true)
    (hlistens : c.listens = false) :
    c.GivesUp ms ↔ maxRetxAttempts < (c.sender.tick ms).consecutiveRetransmissions := by
  have hout : (c.ticking ms).segmentsOut = c.segmentsOut := rfl
  rw [GivesUp, tick_awake ms hactive hlistens]
  by_cases hmany : maxRetxAttempts < (c.sender.tick ms).consecutiveRetransmissions
  · rw [if_pos hmany]
    refine iff_of_true ?_ hmany
    obtain ⟨seg, hrstout, hrst⟩ := (c.ticking ms).sendRST_segmentsOut
    exact ⟨seg, by rw [hrstout, hout, List.drop_left]; exact List.mem_singleton_self _, hrst⟩
  · rw [if_neg hmany]
    refine iff_of_false ?_ hmany
    rintro ⟨seg, hseg, hrst⟩
    rw [fillWindowAndSend_eq] at hseg
    rw [hout, List.drop_left] at hseg
    obtain ⟨g, hg, rfl⟩ := List.mem_map.mp hseg
    have hrst' := (h.step (.tick ms)).fillWindow.queue g hg
    rw [stamp_rst, hrst'] at hrst
    simp at hrst

end TCPConnection

namespace RetxTrace

variable {capacity : UInt64} {retxTimeout : UInt16} {isn : WrappingInt32} {ops : List Op}

/-- In a run in which no reset of a count meets another number than zero, the sender counts the
segments sent again since the last acknowledgment of new data, and a connection with that sender
gives up in a tick exactly when they become too many. -/
theorem counts_retransmissions
    (h : Admitted step Undisturbed (new capacity retxTimeout isn) ops) :
    let t := run step (new capacity retxTimeout isn) ops
    t.sender.consecutiveRetransmissions.toNat = t.retx ∧
      ∀ (c : TCPConnection) (ms : ℕ), c.sender = t.sender → c.active = true →
        c.listens = false → t.Undisturbed (.tick ms) →
        (c.GivesUp ms ↔ maxRetxAttempts.toNat < (t.step (.tick ms)).retx) := by
  intro t
  have ht : t.Counts := h.invariant (fun _ _ ht ho => ht.step ho) .new
  refine ⟨ht.crtx, fun c ms hsender hactive hlistens hms => ?_⟩
  have hnext := (ht.step hms).crtx
  rw [TCPConnection.givesUp_iff (hsender ▸ ht.noRst) hactive hlistens, hsender, ← hnext]
  exact UInt32.lt_iff_toNat_lt

/-- Two retransmissions, and data only after both are acknowledged and none followed. -/
theorem counts_retransmissions_two :
    let ops : List Op := [.fillWindow, .ackReceived ⟨8⟩ 9, .write [1, 2], .fillWindow, .tick 1000,
      .tick 2000, .write [3], .ackReceived ⟨8⟩ 1]
    (run step (new 8 1000 ⟨7⟩) ops).sender.consecutiveRetransmissions.toNat = 2 := by
  intro ops
  have h : Admitted step Undisturbed (new 8 1000 ⟨7⟩) ops := by decide
  exact (counts_retransmissions h).1

/-- New data resets the counter although nothing was acknowledged, and an acknowledgment leaves it
alone. -/
theorem retransmissions_miscounted :
    let sent : List Op := [.fillWindow, .ackReceived ⟨8⟩ 9, .write [1], .fillWindow, .tick 1000,
      .write [2], .fillWindow]
    let acked : List Op := [.fillWindow, .tick 1000, .ackReceived ⟨8⟩ 9]
    let t := run step (new 8 1000 ⟨7⟩) sent
    let t' := run step (new 8 1000 ⟨7⟩) acked
    t.retx = 1 ∧ t.sender.consecutiveRetransmissions = 0 ∧
      t'.retx = 0 ∧ t'.sender.consecutiveRetransmissions = 1 := by
  decide

end RetxTrace

end Sponge
