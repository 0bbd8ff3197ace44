import Sponge.Connection.GivingUp

/-! # Aborting

A connection aborts by queueing an empty segment behind what its sender has queued, and
sending what comes first with the flag RST. The queue of an active connection is empty between
operations, so its destructor sends the empty segment. A tick that gives up has just queued a
segment to be sent again: that one goes out, and the empty one stays.
-/

namespace Sponge

open Runs TCPSender

namespace TCPConnection

/-- Where a connection aborts. -/
inductive Abort
  | tick (ms : ℕ)
  | destructor
  deriving DecidableEq, Repr

/-- The destructor; it only sends. -/
def destruct (c : TCPConnection) : TCPConnection := if c.active then c.sendRST else c

def abort (c : TCPConnection) : Abort → TCPConnection
  | .tick ms => c.tick ms
  | .destructor => c.destruct

/-- Does `sendRST` run? -/
def Aborts (c : TCPConnection) : Abort → Prop
  | .tick ms => c.active = true ∧ c.listens = false ∧
    maxRetxAttempts < (c.sender.tick ms).consecutiveRetransmissions
  | .destructor => c.active = true

instance (c : TCPConnection) : ∀ a, Decidable (c.Aborts a)
  | .tick _ => inferInstanceAs (Decidable (_ ∧ _))
  | .destructor => inferInstanceAs (Decidable (_ = _))

/-- The abort of `c` that leads to `c'` sent an empty RST, and left nothing in the queue of the
sender. -/
structure SendsEmptyRst (c c' : TCPConnection) : Prop where
  segment : ∃ seg, c'.segmentsOut = c.segmentsOut ++ [seg] ∧ seg.header.rst = true ∧
    seg.payload = [] ∧ seg.header.syn = false ∧ seg.header.fin = false ∧
    seg.header.seqno = wrap c'.sender.nextSeqnoAbsolute c'.sender.isn
  queue : c'.sender.segmentsOut = []

/-- Between operations the queue of the sender is empty, and the connection has not given up. -/
structure Unqueued (c : TCPConnection) : Prop where
  queue : c.sender.segmentsOut = []
  crtx : c.sender.crtx ≤ maxRetxAttempts

variable {c : TCPConnection}

theorem zero_le_maxRetxAttempts : (0 : UInt32) ≤ maxRetxAttempts := by decide

theorem Unqueued.fillWindowAndSend (h : c.sender.crtx ≤ maxRetxAttempts) :
    Unqueued c.fillWindowAndSend.1 := by
  rw [fillWindowAndSend_eq]
  refine ⟨rfl, ?_⟩
  simp only [crtx_fillWindow]
  split_ifs
  · exact zero_le_maxRetxAttempts
  · exact h

theorem Unqueued.reply (h : c.sender.crtx ≤ maxRetxAttempts) (seg : TCPSegment) :
    Unqueued (c.reply seg) := by
  unfold TCPConnection.reply
  simp only
  split_ifs
  · exact .fillWindowAndSend (c := { c.fillWindowAndSend.1 with
      sender := c.fillWindowAndSend.1.sender.sendEmptySegment }) zero_le_maxRetxAttempts
  · exact .fillWindowAndSend h

theorem Unqueued.takeIn (h : Unqueued c) (seg : TCPSegment) :
    (c.takeIn seg).sender.crtx ≤ maxRetxAttempts := by
  simp only [TCPConnection.takeIn]
  split_ifs
  · rw [crtx_ackReceived]
    exact h.crtx
  · exact h.crtx

theorem sendRST_queue (c : TCPConnection) :
    c.sendRST.sender.segmentsOut.length = c.sender.segmentsOut.length := by
  unfold sendRST
  simp only
  split
  · rfl
  · next seg queue h =>
    have hlen := congrArg List.length h
    simpa [sendEmptySegment] using hlen.symm

theorem SendsEmptyRst.sendRST (h : c.sender.segmentsOut = []) : SendsEmptyRst c c.sendRST where
  segment := by
    refine ⟨{ header := { seqno := wrap c.sender.nextSeqno c.sender.isn, rst := true } }, ?_, rfl,
      rfl, rfl, rfl, ?_⟩
    · simp [TCPConnection.sendRST, sendEmptySegment, h]
    · simp [TCPConnection.sendRST, sendEmptySegment, h, nextSeqnoAbsolute]
  queue := by simp [TCPConnection.sendRST, sendEmptySegment, h]

/-- Every operation leaves an active connection with nothing queued. -/
theorem Unqueued.step (h : c.active = true → Unqueued c) (o : Op)
    (hactive : (c.step o).active = true) : Unqueued (c.step o) := by
  cases o with
  | connect =>
    rw [TCPConnection.step, connect, fillWindowAndSend_active] at hactive
    exact .fillWindowAndSend (h hactive).crtx
  | write data =>
    rw [TCPConnection.step, TCPConnection.write] at hactive ⊢
    split_ifs at hactive ⊢ with hc
    · exact .fillWindowAndSend (h hc).crtx
    · exact h hactive
  | endInputStream =>
    rw [TCPConnection.step, TCPConnection.endInputStream] at hactive ⊢
    split_ifs at hactive ⊢ with hc
    · exact .fillWindowAndSend (h hc).crtx
    · exact h hactive
  | read len => exact ⟨(h hactive).queue, (h hactive).crtx⟩
  | tick ms =>
    rw [TCPConnection.step] at hactive ⊢
    by_cases hawake : c.active = true ∧ c.listens = false
    · rw [tick_awake ms hawake.1 hawake.2] at hactive ⊢
      split_ifs at hactive ⊢ with hmany
      · rw [sendRST_active] at hactive
        exact absurd hactive Bool.false_ne_true
      · rw [consecutiveRetransmissions, UInt32.not_lt] at hmany
        exact .fillWindowAndSend hmany
    · have hasleep : c.tick ms = c := tick_asleep (not_awake.mp hawake)
      rw [hasleep] at hactive ⊢
      exact h hactive
  | segment seg =>
    rw [TCPConnection.step] at hactive ⊢
    rcases c.segmentReceived_cases seg with ⟨-, hs⟩ | ⟨-, -, hs⟩ |
      ⟨hignores, -, active, received, linger, active', hs, -⟩
    · rw [hs] at hactive ⊢
      exact h hactive
    · rw [hs, reset] at hactive
      exact absurd hactive Bool.false_ne_true
    · have hc : c.active = true := by
        by_contra hne
        simp [ignores, hne] at hignores
      rw [hs]
      have hc' : Unqueued { c with
          active := active, finreceived := received, lingerAfterStreamsFinish := linger } :=
        ⟨(h hc).queue, (h hc).crtx⟩
      have hreply := Unqueued.reply (hc'.takeIn seg) seg
      exact ⟨hreply.queue, hreply.crtx⟩

theorem unqueued_run (cfg : TCPConfig) (ops : List Op)
    (hactive : (run step (new cfg) ops).active = true) : Unqueued (run step (new cfg) ops) :=
  run_invariant (I := fun c => c.active = true → Unqueued c) (fun _ o h => Unqueued.step h o)
    (fun _ => ⟨rfl, zero_le_maxRetxAttempts⟩) hactive

/-- In every run, an abort sends an empty RST exactly when it comes from the destructor. -/
theorem sendsEmptyRst_iff (cfg : TCPConfig) (ops : List Op) (a : Abort)
    (h : (run step (new cfg) ops).Aborts a) :
    SendsEmptyRst (run step (new cfg) ops) ((run step (new cfg) ops).abort a) ↔
      a = .destructor := by
  cases a with
  | destructor =>
    have hactive : (run step (new cfg) ops).active = true := h
    rw [abort, destruct, if_pos hactive]
    exact iff_of_true (.sendRST (unqueued_run cfg ops hactive).queue) rfl
  | tick ms =>
    obtain ⟨hactive, hlistens, hmany⟩ := h
    have hc := unqueued_run cfg ops hactive
    rw [abort, tick_awake ms hactive hlistens, if_pos hmany]
    refine iff_of_false (fun hs => ?_) (by simp)
    -- the counter has passed its limit in this tick, so a segment was sent again
    rcases (run step (new cfg) ops).sender.crtx_tick ms with ⟨-, hsame⟩ | ⟨-, hlen, -⟩
    · rw [consecutiveRetransmissions, hsame] at hmany
      exact absurd hc.crtx (UInt32.not_le.mpr hmany)
    · have hqueue := ((run step (new cfg) ops).ticking ms).sendRST_queue
      rw [hs.queue, ticking, hlen] at hqueue
      simp at hqueue

/-- The destructor of a connection that has sent its SYN. -/
theorem sendsEmptyRst_destructor :
    let c := run step (new { isn := ⟨7⟩ }) [.connect]
    SendsEmptyRst c (c.abort .destructor) ↔ Abort.destructor = .destructor := by
  intro c
  exact sendsEmptyRst_iff { isn := ⟨7⟩ } [.connect] .destructor (by decide)

/-- After nine ticks without an answer, the SYN goes out with the flag RST, and the empty segment
stays in the queue. -/
theorem abort_resends_syn :
    let c := run step (new { isn := ⟨7⟩ }) (.connect :: List.replicate 8 (.tick 1000000))
    let c' := c.abort (.tick 1000000)
    c.Aborts (.tick 1000000) ∧
      (∃ seg ∈ c'.segmentsOut, seg.header.rst = true ∧ seg.header.syn = true) ∧
      ¬ SendsEmptyRst c c' := by
  intro c c'
  have hqueue : c'.sender.segmentsOut ≠ [] := by decide
  exact ⟨by decide, by decide, fun h => hqueue h.queue⟩

end TCPConnection

end Sponge
