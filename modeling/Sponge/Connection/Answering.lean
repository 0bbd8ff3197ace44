import Sponge.Connection.Aborting
import Sponge.Connection.Reset
import Sponge.Connection.Window

/-! # Answers

A segment that takes sequence numbers is answered, every answer acknowledges what has been
received, and a segment that takes none is answered only by segments that do. So two endpoints do
not go on acknowledging each other's acknowledgments.
-/

namespace Sponge

open Layout Runs TCPSender

namespace TCPConnection

/-- What `c` sends in answer to the segment. -/
structure Answers (c : TCPConnection) (seg : TCPSegment) : Prop where
  answered : 0 < seg.lengthInSequenceSpace → c.appended (.segment seg) ≠ []
  acknowledges : ∀ g ∈ c.appended (.segment seg),
    g.header.ack = true ∧ some g.header.ackno = (c.segmentReceived seg).receiver.ackno
  quiet : seg.lengthInSequenceSpace = 0 →
    ∀ g ∈ c.appended (.segment seg), 0 < g.lengthInSequenceSpace

variable {c : TCPConnection} {seg : TCPSegment}

theorem length_stamp (c : TCPConnection) (g : TCPSegment) :
    (c.stamp g).lengthInSequenceSpace = g.lengthInSequenceSpace := by
  unfold stamp
  cases c.receiver.ackno <;> rfl

theorem lengthInSequenceSpace_eq_zero_iff : seg.lengthInSequenceSpace = 0 ↔
    seg.payload = [] ∧ seg.header.syn = false ∧ seg.header.fin = false := by
  unfold TCPSegment.lengthInSequenceSpace
  rw [← List.length_eq_zero_iff]
  cases seg.header.syn <;> cases seg.header.fin <;> simp

theorem length_pos_of_fillWindowAndSend (hs : c.sender.Willing) (hqueue : c.sender.segmentsOut = [])
    {g : TCPSegment} (hg : g ∈ c.fillWindowAndSend.1.segmentsOut.drop c.segmentsOut.length) :
    0 < g.lengthInSequenceSpace := by
  obtain ⟨new, hf⟩ := filled_fillWindow hs.consistent hs.fresh
  obtain ⟨w, hw, _⟩ := c.sender.opened_eq
  have hout := hf.segmentsOut
  simp only [hw, hqueue, List.nil_append] at hout
  rw [fillWindowAndSend_eq, hout, List.drop_left] at hg
  obtain ⟨g', hg', rfl⟩ := List.mem_map.mp hg
  rw [length_stamp]
  exact hf.len_pos g' hg'

theorem takeIn_queue (c : TCPConnection) (seg : TCPSegment) :
    (c.takeIn seg).sender.segmentsOut = c.sender.segmentsOut := by
  unfold takeIn
  by_cases hack : seg.header.ack = true
  · simp only [if_pos hack]
    rcases c.sender.ackReceived_cases seg.header.ackno seg.header.win with ⟨hs, -⟩ | hs
    · rw [hs]
    · rw [hs.frame]
  · simp only [if_neg hack]

theorem reply_of_length_eq_zero (c : TCPConnection) (hzero : seg.lengthInSequenceSpace = 0) :
    c.reply seg = c.fillWindowAndSend.1 := by
  obtain ⟨hpay, hsyn, hfin⟩ := lengthInSequenceSpace_eq_zero_iff.mp hzero
  unfold reply
  simp [hpay, hsyn, hfin]

/-- A segment without RST that leaves the endpoint with an acknowledgment number is taken in and
answered. -/
theorem exists_reply (hactive : c.active = true) (hrst : seg.header.rst = false)
    (hackno : (c.segmentReceived seg).receiver.ackno.isSome) :
    ∃ active received linger,
      let c' := takeIn { c with
        active := active, finreceived := received, lingerAfterStreamsFinish := linger } seg
      (c.segmentReceived seg).receiver = c'.receiver ∧
        c.appended (.segment seg) = (c'.reply seg).segmentsOut.drop c'.segmentsOut.length := by
  rcases c.segmentReceived_cases seg with ⟨hignores, hs⟩ | ⟨-, haccepts, -⟩ |
    ⟨-, -, active, received, linger, active', hs, -⟩
  · have hnone := ((ignores_iff seg hactive).mp hignores).2.2.1
    rw [hs, hnone] at hackno
    cases hackno
  · simp [acceptsRst, hrst] at haccepts
  · refine ⟨active, received, linger, ?_, ?_⟩
    · rw [hs]
      exact reply_receiver _ seg
    · rw [appended, step, hs]
      rfl

theorem Ready.answers (h : c.Ready) (hqueue : c.sender.segmentsOut = []) (hactive : c.active = true)
    (hrst : seg.header.rst = false) (hackno : (c.segmentReceived seg).receiver.ackno.isSome) :
    c.Answers seg := by
  obtain ⟨active, received, linger, hreceiver, happended⟩ := exists_reply hactive hrst hackno
  set c' := takeIn { c with
    active := active, finreceived := received, lingerAfterStreamsFinish := linger } seg with hc'
  obtain ⟨segs, hout, hsome, hacks⟩ := reply_acknowledges c' seg (hreceiver ▸ hackno)
  have hsegs : c.appended (.segment seg) = segs := by
    rw [happended, hout, List.drop_left]
  refine ⟨fun hpos => ?_, fun g hg => ?_, fun hzero g hg => ?_⟩
  · rw [hsegs]
    apply hsome
    exact mt lengthInSequenceSpace_eq_zero_iff.mpr (Nat.pos_iff_ne_zero.mp hpos)
  · rw [hsegs] at hg
    rw [hreceiver]
    exact hacks g hg
  · have hwilling : c'.sender.Willing := h.willing_takeIn seg
    have hqueue' : c'.sender.segmentsOut = [] := (takeIn_queue _ seg).trans hqueue
    rw [happended, reply_of_length_eq_zero c' hzero] at hg
    exact length_pos_of_fillWindowAndSend hwilling hqueue' hg

/-- In every run, an active endpoint that has an acknowledgment number once a segment without RST
has come answers it as it should. -/
theorem answers_of_run (cfg : TCPConfig) (ops : List Op) (seg : TCPSegment)
    (hactive : (run step (new cfg) ops).active = true) (hrst : seg.header.rst = false)
    (hackno : ((run step (new cfg) ops).segmentReceived seg).receiver.ackno.isSome) :
    (run step (new cfg) ops).Answers seg :=
  (ready_run hactive).answers (unqueued_run cfg ops hactive).queue hactive hrst hackno

/-- The SYN that opens a listening endpoint. -/
theorem answers_of_run_syn :
    (run step (new { isn := ⟨7⟩ }) [.segment {}, .write [1]]).Answers
      { header := { seqno := ⟨3⟩, syn := true } } :=
  answers_of_run { isn := ⟨7⟩ } [.segment {}, .write [1]]
    { header := { seqno := ⟨3⟩, syn := true } } (by decide) rfl (by decide)

end TCPConnection

end Sponge
