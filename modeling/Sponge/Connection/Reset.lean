import Sponge.Connection.Incoming
import Sponge.Receiver.OutOfWindow

/-! # Resets

A RST that is not ignored resets an endpoint that has not seen a SYN, or when it comes in
sequence. Any other RST is taken in like a segment without the flag, and leaves the
endpoint as it is only when it carries nothing new.
-/

namespace Sponge

open Runs Layout

namespace TCPSender

variable {s : TCPSender} {ackno : WrappingInt32} {windowSize : UInt16}

/-- The acknowledgment is dropped, or repeats what is acknowledged and the window in force. -/
def Repeats (s : TCPSender) (ackno : WrappingInt32) (windowSize : UInt16) : Prop :=
  s.nextSeqno < unwrap ackno s.isn s.acked ∨ unwrap ackno s.isn s.acked < s.acked ∨
    (unwrap ackno s.isn s.acked = s.acked ∧ s.window = max 1 (windowSize.toNat : ℤ) ∧
      s.zeroWindow = (windowSize == 0) ∧ ∀ g ∈ s.inFlight, isAcked s.isn s.acked g = false)

instance (s : TCPSender) (ackno : WrappingInt32) (windowSize : UInt16) :
    Decidable (s.Repeats ackno windowSize) := inferInstanceAs (Decidable (_ ∨ _ ∨ _))

/-- The sender can fill the window. -/
structure Willing (s : TCPSender) : Prop where
  consistent : s.stream.Consistent
  fresh : s.Fresh
  error : s.stream.error = false

/-- The sender has begun, and has nothing more to send. -/
structure Rested (s : TCPSender) : Prop extends Willing s where
  begun : s.window ≠ -1
  settled : s.Settled
  queue : s.segmentsOut = []

theorem Willing.new {capacity : UInt64} {retxTimeout : UInt16} {isn : WrappingInt32} :
    Willing (new capacity retxTimeout isn) where
  consistent := .new capacity.toNat_lt
  fresh _ := ⟨rfl, rfl, rfl⟩
  error := rfl

theorem Willing.write (h : s.Willing) (data : List UInt8) :
    Willing { s with stream := (s.stream.write data).1 } where
  consistent := h.consistent.write
  fresh := h.fresh
  error := h.error

theorem Willing.endInput (h : s.Willing) : Willing { s with stream := s.stream.endInput } where
  consistent := h.consistent.endInput
  fresh := h.fresh
  error := h.error

theorem Willing.tick (h : s.Willing) (ms : ℕ) :
    (s.tick ms).Willing ∧ (s.tick ms).window = s.window := by
  obtain ⟨again, hs⟩ := s.ticked_tick ms
  rw [hs.frame]
  exact ⟨⟨h.consistent, h.fresh, h.error⟩, rfl⟩

theorem Willing.ackReceived (h : s.Willing) (ackno : WrappingInt32) (windowSize : UInt16) :
    (s.ackReceived ackno windowSize).Willing := by
  rcases s.ackReceived_cases ackno windowSize with ⟨hs, _⟩ | hs
  · rwa [hs]
  · rw [hs.frame]
    exact ⟨h.consistent, fun hw => absurd hw (by simp only; omega), h.error⟩

theorem Willing.fillWindow (h : s.Willing) :
    Rested { s.fillWindow with segmentsOut := [] } ∧
      (∃ new, s.fillWindow.segmentsOut = s.segmentsOut ++ new) ∧
      (s.window = -1 → ∃ g ∈ s.fillWindow.segmentsOut, g.header.syn = true) := by
  obtain ⟨new, hf⟩ := filled_fillWindow h.consistent h.fresh
  obtain ⟨w, hw, hne⟩ := s.opened_eq
  have hwindow := congrArg TCPSender.window hf.base
  have hqueue := hf.segmentsOut
  have herror := hf.error
  simp only [hw, base] at hwindow hqueue herror
  refine ⟨?_, ⟨new, hqueue⟩, fun hclosed => ?_⟩
  · exact
      { consistent := hf.consistent
        fresh := fun hw' => absurd (hwindow.symm.trans hw') hne
        error := herror.trans h.error
        begun := fun hw' => hne (hwindow.symm.trans hw')
        settled := hf.settled
        queue := rfl }
  · obtain ⟨g, rfl⟩ := hf.single hclosed
    have hsyn := hf.syn g (List.mem_singleton_self g)
    rw [hqueue]
    exact ⟨g, by simp, by simpa [hclosed] using hsyn⟩

theorem fillWindow_of_settled (hc : s.stream.Consistent) (hw : s.window ≠ -1) (h : s.Settled) :
    s.fillWindow = s := by
  by_cases hfin : s.finSent = true
  · exact if_pos hfin
  · rw [TCPSender.fillWindow, if_neg hfin, if_neg hw, fillLoop]
    rcases h with h | h | ⟨hbuf, heof⟩
    · exact absurd h hfin
    · exact if_neg (not_lt.mpr h)
    · have hsize : s.stream.bufferSize = 0 := by rw [hc.bufferSize_eq, hbuf, List.length_nil]
      have hopen : ¬ s.stream.eof = true := fun h' => by simp [(hc.eof_iff.mp h').2] at heof
      simp [hsize, hopen]

/-- An acknowledgment changes nothing exactly when it repeats what the sender knows. -/
theorem Rested.ackReceived_iff (h : s.Rested) :
    (s.ackReceived ackno windowSize).fillWindow = s ↔ s.Repeats ackno windowSize := by
  have hidle := fillWindow_of_settled h.consistent h.begun h.settled
  constructor
  · intro hsame
    rcases s.ackReceived_cases ackno windowSize with ⟨_, hs⟩ | hs
    · exact hs.elim Or.inl fun hs => Or.inr (Or.inl hs)
    · set s' := s.ackReceived ackno windowSize
      have hwilling : s'.Willing := h.toWilling.ackReceived ackno windowSize
      obtain ⟨new, hf⟩ := filled_fillWindow hwilling.consistent hwilling.fresh
      have hopened : s'.opened = s' := opened_of_ne (by
        rw [hs.frame]
        simp only
        omega)
      have hbase := hf.base
      have hqueue := hf.segmentsOut
      have hflight := hf.inFlight_perm
      have hqueue' : s'.segmentsOut = s.segmentsOut := by rw [hs.frame]
      rw [hsame, hopened] at hbase hqueue
      rw [hsame] at hflight
      have hnew : new = [] := by simpa [hqueue'] using hqueue
      have hacked := congrArg TCPSender.acked hbase
      have hwindow := congrArg TCPSender.window hbase
      have hzero := congrArg TCPSender.zeroWindow hbase
      rw [hs.frame] at hacked hwindow hzero
      simp only [base] at hacked hwindow hzero
      rw [hnew, List.append_nil, hs.inFlight, ← hacked] at hflight
      have hkeeps := List.length_filter_eq_length_iff.mp hflight.length_eq.symm
      exact Or.inr (Or.inr ⟨hacked.symm, hwindow, hzero, fun g hg => by simpa using hkeeps g hg⟩)
  · intro hrep
    have hsame : s.ackReceived ackno windowSize = s := by
      unfold ackReceived
      rcases hrep with hbeyond | hold | ⟨ha, hw, hz, hkeeps⟩
      · exact if_pos hbeyond
      · simp only [if_neg (not_le.mpr hold), ite_self]
      · have hfilter : (s.outstanding.filter fun c => !isAcked s.isn s.acked c.2.2) =
            s.outstanding :=
          List.filter_eq_self.mpr fun c hc => by
            simp [hkeeps c.2.2 (List.mem_map_of_mem hc)]
        simp only [ha, lt_irrefl, decide_false, Bool.false_eq_true, if_false, le_refl, if_true,
          hfilter, List.map_id', ← hw, ← hz]
        exact ite_self s
    rw [hsame, hidle]

end TCPSender

namespace StreamReassembler

variable {s : StreamReassembler}

/-- The end has closed the output, once everything before it is assembled. -/
def Closed (s : StreamReassembler) : Prop :=
  s.unasb = s.eof2 → s.eof2 = 2 ^ 64 - 1 ∧ s.output.eof2 = true

theorem closed_closeAtEnd (s : StreamReassembler) : s.closeAtEnd.Closed := by
  intro h
  rw [closeAtEnd_unasb, closeAtEnd_eof2] at h
  rw [closeAtEnd_eof2, closeAtEnd_output]
  split_ifs at h with heq
  · rw [if_pos heq, if_pos heq]
    exact ⟨rfl, rfl⟩
  · exact absurd h heq

theorem closed_pushSubstring (s : StreamReassembler) (data : List UInt8) (index : ℕ)
    (eof : Bool) : (s.pushSubstring data index eof).Closed := by
  rw [pushSubstring_eq]
  split_ifs <;> exact closed_closeAtEnd _

theorem Closed.pushSubstring_nil (h : s.Closed) (index : ℕ) :
    s.pushSubstring [] index false = { s with unread := s.output.totRead } := by
  have hout : s.pushEnd [] index ≤ max s.unasb index := by
    have hend : s.pushEnd [] index ≤ index % 2 ^ 64 := min_le_left _ _
    have hmod := Nat.mod_le index (2 ^ 64)
    omega
  have hend : s.endAfter [] index false = s.eof2 := rfl
  rw [pushSubstring_eq, if_pos hout, announce, hend]
  unfold closeAtEnd
  split_ifs with heq
  · obtain ⟨he, ho⟩ := h heq
    have houtput : s.output.endInput = s.output := by
      unfold ByteStream.endInput
      rw [← ho]
    rw [houtput, ← he]
  · rfl

end StreamReassembler

namespace TCPReceiver

variable {r : TCPReceiver} {seg : TCPSegment}

/-- The receiver but for the position noted at the last push, which the next one notes anew. -/
def lasting (r : TCPReceiver) : TCPReceiver :=
  { r with reassembler := { r.reassembler with unread := 0 } }

theorem lasting_segmentReceived_iff (hr : r.reassembler.Closed) (hcp : r.cp < 2 ^ 64)
    (hlisten : r.status ≠ .listen) (hpay : seg.payload = []) (hsyn : seg.header.syn = false)
    (hfin : seg.header.fin = false) :
    (r.segmentReceived seg).lasting = r.lasting ↔ seg.header.seqno = wrap (r.cp + 1) r.isn := by
  have hstatus : r.statusAfter seg = r.status := by simp [statusAfter, hsyn, hfin]
  rw [← indexOf_eq_cp_iff hsyn hcp, segmentReceived_eq (Or.inr hlisten), hpay, hfin,
    hr.pushSubstring_nil, hstatus, if_neg (by simp [hsyn])]
  constructor
  · intro h
    exact congrArg cp h
  · intro h
    rw [h]
    rfl

theorem closed_segmentReceived (hr : r.reassembler.Closed) (hcp : r.cp < 2 ^ 64)
    (seg : TCPSegment) :
    (r.segmentReceived seg).reassembler.Closed ∧ (r.segmentReceived seg).cp < 2 ^ 64 := by
  by_cases hlive : seg.header.syn = true ∨ r.status ≠ .listen
  · rw [segmentReceived_eq hlive]
    exact ⟨r.reassembler.closed_pushSubstring _ _ _, indexOf_lt seg hcp⟩
  · rw [not_or, Bool.not_eq_true, not_not] at hlive
    rw [segmentReceived_listen hlive.1 hlive.2]
    exact ⟨hr, indexOf_lt seg hcp⟩

end TCPReceiver

namespace TCPConnection

variable {c c' c₁ : TCPConnection} {seg : TCPSegment}

/-- Both streams are in error, and the endpoint is over. -/
def IsReset (c : TCPConnection) : Prop :=
  c.active = false ∧ c.sender.stream.error = true ∧ c.inboundStream.error = true

/-- A SYN was sent. -/
def SentSyn (c : TCPConnection) : Prop := ∃ seg ∈ c.segmentsOut, seg.header.syn = true

/-- The segment acknowledges the SYN, and nothing that was not sent. -/
def CoversSyn (c : TCPConnection) (seg : TCPSegment) : Prop :=
  seg.header.ack = true ∧ 1 ≤ unwrap seg.header.ackno c.sender.isn c.sender.acked ∧
    unwrap seg.header.ackno c.sender.isn c.sender.acked ≤ c.sender.nextSeqno

/-- From `c` to `c'`, nothing has changed but whether the endpoint is over. -/
structure Inert (c c' : TCPConnection) : Prop where
  sender : c'.sender = c.sender
  receiver : c'.receiver.lasting = c.receiver.lasting
  linger : c'.lingerAfterStreamsFinish = c.lingerAfterStreamsFinish
  segmentsOut : c'.segmentsOut = c.segmentsOut

/-- Arriving at `c`, the RST resets the endpoint when it is acceptable, and is inert otherwise. -/
structure HandlesRst (c : TCPConnection) (seg : TCPSegment) : Prop where
  listen : c.receiver.ackno = none → ¬ c.SentSyn → c.segmentReceived seg = c
  synSent : c.receiver.ackno = none → c.SentSyn →
    ((c.segmentReceived seg).IsReset ↔ c.CoversSyn seg)
  synReceived : ∀ a ∈ c.receiver.ackno, (c.segmentReceived seg).IsReset ↔ seg.header.seqno = a
  inert : ¬ (c.segmentReceived seg).IsReset → Inert c (c.segmentReceived seg)

/-- The segment carries nothing, does not move the checkpoint, and acknowledges nothing new. -/
def Empty (c : TCPConnection) (seg : TCPSegment) : Prop :=
  seg.payload = [] ∧ seg.header.syn = false ∧ seg.header.fin = false ∧
    seg.header.seqno = wrap (c.receiver.cp + 1) c.receiver.isn ∧
    (seg.header.ack = true → c.sender.Repeats seg.header.ackno seg.header.win)

/-- The RST brings no SYN to an endpoint that waits for one, acknowledges the SYN of one that has
sent it (or comes without SYN to one with nothing in flight), and is in sequence or empty once a
SYN was received. -/
def Tame (c : TCPConnection) (seg : TCPSegment) : Prop :=
  (c.receiver.ackno = none → ¬ c.SentSyn → seg.header.syn = false) ∧
  (c.receiver.ackno = none → c.SentSyn → (c.CoversSyn seg ↔
    c.sender.bytesInFlight ≠ 0 ∨ c.sender.stream.eof = true ∨ seg.header.syn = true)) ∧
  ∀ a ∈ c.receiver.ackno, seg.header.seqno = a ∨ c.Empty seg

instance (c : TCPConnection) : Decidable c.IsReset := inferInstanceAs (Decidable (_ ∧ _ ∧ _))

instance (c : TCPConnection) : Decidable c.SentSyn := inferInstanceAs (Decidable (∃ _ ∈ _, _))

instance (c : TCPConnection) (seg : TCPSegment) : Decidable (c.CoversSyn seg) :=
  inferInstanceAs (Decidable (_ ∧ _ ∧ _))

instance (c : TCPConnection) (seg : TCPSegment) : Decidable (c.Empty seg) :=
  inferInstanceAs (Decidable (_ ∧ _ ∧ _ ∧ _ ∧ (_ → _)))

instance (c : TCPConnection) (seg : TCPSegment) : Decidable (c.Tame seg) :=
  inferInstanceAs (Decidable ((_ → _ → _) ∧ (_ → _ → _) ∧ ∀ a ∈ c.receiver.ackno, _))

/-- A SYN was sent or received. -/
def Begun (c : TCPConnection) : Prop := c.receiver.status ≠ .listen ∨ c.SentSyn

/-- What holds of an endpoint as long as it is active. -/
structure Ready (c : TCPConnection) : Prop where
  cp : c.receiver.cp < 2 ^ 64
  closed : c.receiver.reassembler.Closed
  fresh : ¬ c.Begun → ∃ capacity retxTimeout isn, c.sender = .new capacity retxTimeout isn
  rested : c.Begun → c.sender.Rested

theorem Ready.willing (h : c.Ready) : c.sender.Willing := by
  by_cases hb : c.Begun
  · exact (h.rested hb).toWilling
  · obtain ⟨_, _, _, hs⟩ := h.fresh hb
    rw [hs]
    exact .new

theorem Ready.marked (h : c.Ready) : c.sender.window = -1 ∨ c.Begun := by
  by_cases hb : c.Begun
  · exact Or.inr hb
  · obtain ⟨_, _, _, hs⟩ := h.fresh hb
    exact Or.inl (by rw [hs]; rfl)

theorem stamp_syn (c : TCPConnection) (seg : TCPSegment) :
    (c.stamp seg).header.syn = seg.header.syn := by
  unfold stamp
  cases c.receiver.ackno <;> rfl

theorem ready_fillWindowAndSend (hcp : c.receiver.cp < 2 ^ 64)
    (hclosed : c.receiver.reassembler.Closed) (hs : c.sender.Willing)
    (hm : c.sender.window = -1 ∨ c.Begun) :
    c.fillWindowAndSend.1.Ready ∧ c.fillWindowAndSend.1.Begun := by
  obtain ⟨hrested, _, hsyn⟩ := hs.fillWindow
  have hbegun : c.fillWindowAndSend.1.Begun := by
    rw [fillWindowAndSend_eq]
    rcases hm with hclosed | hb | ⟨seg, hseg, hs⟩
    · obtain ⟨g, hg, hgs⟩ := hsyn hclosed
      exact Or.inr ⟨c.stamp g, List.mem_append_right _ (List.mem_map_of_mem hg),
        (stamp_syn c g).trans hgs⟩
    · exact Or.inl hb
    · exact Or.inr ⟨seg, List.mem_append_left _ hseg, hs⟩
  refine ⟨?_, hbegun⟩
  rw [fillWindowAndSend_eq] at hbegun ⊢
  exact ⟨hcp, hclosed, fun hb => absurd hbegun hb, fun _ => hrested⟩

theorem ready_reply (hcp : c.receiver.cp < 2 ^ 64) (hclosed : c.receiver.reassembler.Closed)
    (hs : c.sender.Willing) (hm : c.sender.window = -1 ∨ c.Begun) (seg : TCPSegment) :
    (c.reply seg).Ready := by
  obtain ⟨hready, hbegun⟩ := ready_fillWindowAndSend hcp hclosed hs hm
  unfold reply
  simp only
  split_ifs
  · have hwilling := hready.willing
    exact (ready_fillWindowAndSend (c := { c.fillWindowAndSend.1 with
      sender := c.fillWindowAndSend.1.sender.sendEmptySegment }) hready.cp hready.closed
        ⟨hwilling.consistent, hwilling.fresh, hwilling.error⟩ (Or.inr hbegun)).1
  · exact hready

theorem Ready.begun_segmentReceived (h : c.Ready) (hi : c.ignores seg = false) :
    (c.receiver.segmentReceived seg).status ≠ .listen ∨ c.SentSyn := by
  by_cases hlive : seg.header.syn = true ∨ c.receiver.status ≠ .listen
  · rw [TCPReceiver.segmentReceived_eq hlive]
    exact Or.inl (TCPReceiver.statusAfter_ne_listen hlive)
  · rw [not_or, Bool.not_eq_true, not_not] at hlive
    by_contra hb
    have hnot : ¬ c.Begun := fun hb' => hb (Or.inr (hb'.resolve_left (by simp [hlive.2])))
    obtain ⟨_, _, _, hs⟩ := h.fresh hnot
    have hackno : c.receiver.ackno = none := if_pos hlive.2
    have hsender : c.sender.bytesInFlight = 0 ∧ c.sender.stream.eof = false := by
      rw [hs]
      simp [TCPSender.new, TCPSender.bytesInFlight, TCPSender.inFlight, ByteStream.new,
        ByteStream.eof]
    simp [ignores, hsender, hackno, hlive.1] at hi

theorem Ready.willing_takeIn (h : c.Ready) (seg : TCPSegment) :
    (c.takeIn seg).sender.Willing := by
  have hsender : (c.takeIn seg).sender = if seg.header.ack = true then
      c.sender.ackReceived seg.header.ackno seg.header.win else c.sender := rfl
  rw [hsender]
  split_ifs
  · exact h.willing.ackReceived _ _
  · exact h.willing

theorem Ready.segmentReceived (h : c.Ready) (hactive : (c.segmentReceived seg).active = true) :
    (c.segmentReceived seg).Ready := by
  rcases c.segmentReceived_cases seg with
    ⟨_, hs⟩ | ⟨_, _, hs⟩ | ⟨hi, _, active, received, linger, active', hs, _⟩
  · rwa [hs]
  · rw [hs] at hactive
    exact absurd hactive (by simp [reset])
  · rw [hs]
    obtain ⟨hclosed, hcp⟩ := TCPReceiver.closed_segmentReceived h.closed h.cp seg
    have hbegun := h.begun_segmentReceived hi
    set c₃ := takeIn { c with
      active := active, finreceived := received, lingerAfterStreamsFinish := linger } seg
    have hready := ready_reply (c := c₃) hcp hclosed (h.willing_takeIn seg) (Or.inr hbegun) seg
    exact ⟨hready.cp, hready.closed, hready.fresh, hready.rested⟩

/-- An endpoint stays ready as long as it is active. -/
theorem Ready.step (h : c.active = true → c.Ready) {o : Op} (hactive : (c.step o).active = true) :
    (c.step o).Ready := by
  cases o with
  | connect =>
    have hc := h ((fillWindowAndSend_active c).symm.trans hactive)
    exact (ready_fillWindowAndSend hc.cp hc.closed hc.willing hc.marked).1
  | write data =>
    rw [TCPConnection.step, TCPConnection.write] at hactive ⊢
    split_ifs at hactive ⊢ with ha
    · have hc := h ha
      exact (ready_fillWindowAndSend (c := { c with
        sender := { c.sender with stream := (c.sender.stream.write data).1 } })
          hc.cp hc.closed (hc.willing.write data) hc.marked).1
    · exact h hactive
  | endInputStream =>
    rw [TCPConnection.step, TCPConnection.endInputStream] at hactive ⊢
    split_ifs at hactive ⊢ with ha
    · have hc := h ha
      exact (ready_fillWindowAndSend (c := { c with
        sender := { c.sender with stream := c.sender.stream.endInput } })
          hc.cp hc.closed hc.willing.endInput hc.marked).1
    · exact h hactive
  | tick ms =>
    rw [TCPConnection.step] at hactive ⊢
    rcases c.tick_cases ms with hs | ⟨ha, linger, active, _, ⟨_, hs⟩ | hs⟩
    · rw [hs] at hactive ⊢
      exact h hactive
    · rw [hs, sendRST_active] at hactive
      exact absurd hactive (by simp)
    · have hc := h ha
      obtain ⟨hwilling, hwindow⟩ := hc.willing.tick ms
      rw [hs]
      exact (ready_fillWindowAndSend (c := { c with
        tnow := (c.tnow + ms) % 2 ^ 64, lingerAfterStreamsFinish := linger, active := active
        sender := c.sender.tick ms }) hc.cp hc.closed hwilling
          (hc.marked.imp_left hwindow.trans)).1
  | read len =>
    have hc := h hactive
    exact ⟨hc.cp, hc.closed, hc.fresh, hc.rested⟩
  | segment seg =>
    have ha : c.active = true := by
      by_contra hne
      have hs : c.segmentReceived seg = c := if_pos (by simp [ignores, hne])
      rw [TCPConnection.step, hs] at hactive
      exact hne hactive
    exact (h ha).segmentReceived hactive

theorem ready_run {cfg : TCPConfig} {ops : List Op}
    (hactive : (run step (new cfg) ops).active = true) : (run step (new cfg) ops).Ready :=
  run_invariant (I := fun c : TCPConnection => c.active = true → c.Ready)
    (fun _ _ h ha => Ready.step h ha)
    (fun _ => ⟨by simp [TCPConnection.new, TCPReceiver.new], by
      intro h
      simp [TCPConnection.new, TCPReceiver.new, StreamReassembler.new] at h,
      fun _ => ⟨_, _, _, rfl⟩, fun hb => by
        simp [Begun, SentSyn, TCPConnection.new, TCPReceiver.new] at hb⟩) hactive

theorem ignores_iff (seg : TCPSegment) (ha : c.active = true) : c.ignores seg = true ↔
    c.sender.bytesInFlight = 0 ∧ c.sender.stream.eof = false ∧ c.receiver.ackno = none ∧
      seg.header.syn = false := by
  simp [ignores, ha, and_assoc]

theorem segmentReceived_rst (hrst : seg.header.rst = true) (hnone : c.receiver.ackno = none) :
    (c.ignores seg = true ∧ c.segmentReceived seg = c) ∨
      (c.ignores seg = false ∧ c.segmentReceived seg = c.reset) := by
  have haccepts : c.acceptsRst seg = true := by simp [acceptsRst, hrst, hnone]
  rcases c.segmentReceived_cases seg with hs | ⟨hi, _, hs⟩ | ⟨_, hr, _⟩
  · exact Or.inl hs
  · exact Or.inr ⟨hi, hs⟩
  · rw [haccepts] at hr
    exact absurd hr (by simp)

theorem isReset_reset (c : TCPConnection) : c.reset.IsReset := ⟨rfl, rfl, rfl⟩

theorem Inert.refl (c : TCPConnection) : Inert c c := ⟨rfl, rfl, rfl, rfl⟩

theorem reply_empty (hpay : seg.payload = []) (hsyn : seg.header.syn = false)
    (hfin : seg.header.fin = false) : c.reply seg = c.fillWindowAndSend.1 := by
  simp [reply, hpay, hsyn, hfin]

theorem fillWindowAndSend_same_iff {s : TCPSender} (hs : s.segmentsOut = []) :
    (c.fillWindowAndSend.1.sender = s ∧ c.fillWindowAndSend.1.segmentsOut = c.segmentsOut) ↔
      c.sender.fillWindow = s := by
  rw [fillWindowAndSend_eq]
  simp only [List.append_right_eq_self, List.map_eq_nil_iff]
  constructor
  · rintro ⟨hsender, hqueue⟩
    rw [← hsender, ← hqueue]
  · intro h
    rw [h, ← hs]
    exact ⟨rfl, rfl⟩

/-- A segment that is taken in changes nothing exactly when it is empty. -/
theorem Ready.inert_iff (h : c.Ready) (hlisten : c.receiver.status ≠ .listen)
    (hi : c.ignores seg = false) (hr : c.acceptsRst seg = false) :
    Inert c (c.segmentReceived seg) ↔ c.Empty seg := by
  have hrested := h.rested (Or.inl hlisten)
  rcases c.segmentReceived_cases seg with
    ⟨hi', _⟩ | ⟨_, hr', _⟩ | ⟨_, _, active, received, linger, active', hs, hlinger, _⟩
  · simp [hi] at hi'
  · simp [hr] at hr'
  rw [hs]
  set c₃ := takeIn { c with
    active := active, finreceived := received, lingerAfterStreamsFinish := linger } seg with hc₃
  have hsender : c₃.sender = if seg.header.ack = true then
      c.sender.ackReceived seg.header.ackno seg.header.win else c.sender := rfl
  have hreceiver : (c₃.reply seg).receiver = c.receiver.segmentReceived seg := reply_receiver c₃ seg
  have hsame : c₃.sender.fillWindow = c.sender ↔
      (seg.header.ack = true → c.sender.Repeats seg.header.ackno seg.header.win) := by
    rw [hsender]
    split_ifs with hack
    · simpa [hack] using hrested.ackReceived_iff
    · simpa [hack] using
        TCPSender.fillWindow_of_settled hrested.consistent hrested.begun hrested.settled
  constructor
  · intro hinert
    obtain ⟨hpay, hsyn, hfin⟩ : seg.payload = [] ∧ seg.header.syn = false ∧
        seg.header.fin = false := by
      by_contra hne
      have hlt := c₃.length_lt_reply hne
      have heq : (c₃.reply seg).segmentsOut = c.segmentsOut := hinert.segmentsOut
      exact absurd (congrArg List.length heq) hlt.ne'
    have hmoved := hinert.receiver
    have hsent := hinert.sender
    have hout := hinert.segmentsOut
    simp only [reply_empty hpay hsyn hfin] at hsent hout
    simp only [hreceiver] at hmoved
    exact ⟨hpay, hsyn, hfin, (TCPReceiver.lasting_segmentReceived_iff h.closed h.cp hlisten hpay
      hsyn hfin).mp hmoved, hsame.mp ((fillWindowAndSend_same_iff hrested.queue).mp ⟨hsent, hout⟩)⟩
  · rintro ⟨hpay, hsyn, hfin, hseqno, hack⟩
    obtain ⟨hsent, hout⟩ := (fillWindowAndSend_same_iff (c := c₃) hrested.queue).mpr
      (hsame.mpr hack)
    have hmoved := (TCPReceiver.lasting_segmentReceived_iff h.closed h.cp hlisten hpay hsyn
      hfin).mpr hseqno
    have hflag : (c₃.reply seg).lingerAfterStreamsFinish = linger := by
      rw [reply_empty hpay hsyn hfin, fillWindowAndSend_eq]
      rfl
    rw [reply_empty hpay hsyn hfin] at hreceiver hflag ⊢
    exact
      { sender := hsent
        receiver := by
          simp only [hreceiver]
          exact hmoved
        linger := hflag.trans (hlinger hfin)
        segmentsOut := hout }

theorem isReset_iff_of_none (ha : c.active = true) (hrst : seg.header.rst = true)
    (hnone : c.receiver.ackno = none) :
    ((c.segmentReceived seg).IsReset ↔ c.sender.bytesInFlight ≠ 0 ∨ c.sender.stream.eof = true ∨
      seg.header.syn = true) ∧
    (¬ (c.segmentReceived seg).IsReset → c.segmentReceived seg = c) := by
  have hignores := ignores_iff seg ha
  simp only [hnone, true_and] at hignores
  rcases segmentReceived_rst hrst hnone with ⟨hi, hs⟩ | ⟨hi, hs⟩
  · rw [hs]
    obtain ⟨hz, heof, hsyn⟩ := hignores.mp hi
    exact ⟨iff_of_false (fun h => by simp [h.1] at ha) (by simp [hz, heof, hsyn]), fun _ => rfl⟩
  · rw [hs]
    refine ⟨iff_of_true c.isReset_reset ?_, fun h => absurd c.isReset_reset h⟩
    by_contra hne
    simp only [not_or, not_not, Bool.not_eq_true] at hne
    simp [hignores.mpr hne] at hi

theorem Ready.isReset_iff_of_some (h : c.Ready) (hrst : seg.header.rst = true)
    {a : WrappingInt32} (ha : c.active = true) (hackno : c.receiver.ackno = some a) :
    ((c.segmentReceived seg).IsReset ↔ seg.header.seqno = a) ∧
      (seg.header.seqno ≠ a → (Inert c (c.segmentReceived seg) ↔ c.Empty seg)) := by
  have hlisten : c.receiver.status ≠ .listen := by
    rw [← TCPReceiver.ackno_isSome_iff, hackno]
    rfl
  have hi : c.ignores seg = false := by
    rw [← Bool.not_eq_true, ignores_iff seg ha]
    simp [hackno]
  have haccepts : c.acceptsRst seg = true ↔ seg.header.seqno = a := by
    simp only [acceptsRst, hrst, hackno, Option.isNone_some, Bool.false_or, Bool.true_and,
      beq_iff_eq, Option.some_inj]
    exact eq_comm
  rcases c.segmentReceived_cases seg with
    ⟨hi', _⟩ | ⟨_, hr, hs⟩ | ⟨_, hr, active, received, linger, active', hs, _⟩
  · simp [hi] at hi'
  · rw [hs]
    have heq := haccepts.mp hr
    exact ⟨iff_of_true c.isReset_reset heq, fun hne => absurd heq hne⟩
  · have hne : seg.header.seqno ≠ a := fun heq => by
      rw [haccepts.mpr heq] at hr
      exact absurd hr (by simp)
    refine ⟨iff_of_false (fun hreset => ?_) hne, fun _ => h.inert_iff hlisten hi hr⟩
    have hnext : (c.segmentReceived seg).sender.stream.error = false := by
      rw [hs]
      set c₃ := takeIn { c with
        active := active, finreceived := received, lingerAfterStreamsFinish := linger } seg
      obtain ⟨hclosed, hcp⟩ := TCPReceiver.closed_segmentReceived h.closed h.cp seg
      have hwilling := h.willing_takeIn seg
      exact (ready_reply (c := c₃) hcp hclosed hwilling
        (Or.inr (h.begun_segmentReceived hi)) seg).willing.error
    rw [hreset.2.1] at hnext
    exact absurd hnext (by simp)

theorem Ready.handlesRst_iff (h : c.Ready) (ha : c.active = true) (hrst : seg.header.rst = true) :
    c.HandlesRst seg ↔ c.Tame seg := by
  rcases hackno : c.receiver.ackno with _ | a
  · obtain ⟨hreset, hsame⟩ := isReset_iff_of_none ha hrst hackno
    constructor
    · intro hh
      refine ⟨fun _ hsent => ?_, fun _ hsent => ?_, by simp [hackno]⟩
      · have hs := hh.listen hackno hsent
        rw [hs] at hreset
        by_contra hsyn
        have hover := (hreset.mpr (Or.inr (Or.inr (by simpa using hsyn)))).1
        simp [ha] at hover
      · exact (hh.synSent hackno hsent).symm.trans hreset
    · rintro ⟨hlisten, hsyn, _⟩
      refine
        { listen := fun _ hsent => hsame fun hr => ?_
          synSent := fun _ hsent => hreset.trans (hsyn hackno hsent).symm
          synReceived := by simp [hackno]
          inert := fun hr => by
            rw [hsame hr]
            exact .refl c }
      have hnot : ¬ c.Begun := fun hb => hb.elim
        (fun hs => by simp [← TCPReceiver.ackno_isSome_iff, hackno] at hs) hsent
      obtain ⟨_, _, _, hnew⟩ := h.fresh hnot
      have hnosyn := hlisten hackno hsent
      rw [hreset, hnew, hnosyn] at hr
      simp [TCPSender.new, TCPSender.bytesInFlight, TCPSender.inFlight, ByteStream.new,
        ByteStream.eof] at hr
  · obtain ⟨hreset, hinert⟩ := h.isReset_iff_of_some hrst ha hackno
    constructor
    · intro hh
      refine ⟨by simp [hackno], by simp [hackno], fun b hb => ?_⟩
      obtain rfl : a = b := Option.some_inj.mp (hackno.symm.trans hb)
      by_cases heq : seg.header.seqno = a
      · exact Or.inl heq
      · exact Or.inr ((hinert heq).mp (hh.inert (mt hreset.mp heq)))
    · rintro ⟨_, _, htame⟩
      refine
        { listen := by simp [hackno]
          synSent := by simp [hackno]
          synReceived := fun b hb => by
            obtain rfl : a = b := Option.some_inj.mp (hackno.symm.trans hb)
            exact hreset
          inert := fun hr => ?_ }
      have hne : seg.header.seqno ≠ a := mt hreset.mpr hr
      exact (hinert hne).mpr ((htame a hackno).resolve_left hne)

/-- In any run, a RST that arrives at an active endpoint resets it when it is acceptable and is
inert otherwise, exactly when it is tame. -/
theorem rst_handled_iff {cfg : TCPConfig} {ops : List Op}
    (hactive : (run step (new cfg) ops).active = true) (hrst : seg.header.rst = true) :
    (run step (new cfg) ops).HandlesRst seg ↔ (run step (new cfg) ops).Tame seg :=
  (ready_run hactive).handlesRst_iff hactive hrst

/-- A RST with the number of the byte last received, and an acknowledgment seen before. -/
theorem rst_handled_duplicate :
    let synAck : TCPHeader := { seqno := ⟨100⟩, syn := true, ack := true, ackno := ⟨1⟩, win := 9 }
    let data : TCPHeader := { seqno := ⟨101⟩, ack := true, ackno := ⟨1⟩, win := 9 }
    let ops : List Op := [.connect, .segment { header := synAck },
      .segment { header := data, payload := [7] }]
    (run step (new { isn := ⟨0⟩ }) ops).HandlesRst { header := { data with rst := true } } :=
  (rst_handled_iff (by decide +kernel) rfl).mpr (by decide +kernel)

/-- A RST with SYN resets an endpoint that waits for a SYN, one without acknowledgment an endpoint
that has sent its SYN, and one out of sequence has its byte delivered and acknowledged. -/
theorem rst_mishandled :
    let synAck : TCPHeader := { seqno := ⟨100⟩, syn := true, ack := true, ackno := ⟨1⟩, win := 9 }
    let listening := new { isn := ⟨0⟩ }
    let waiting := run step listening [.connect]
    let established := run step listening [.connect, .segment { header := synAck },
      .segment { header := { seqno := ⟨101⟩ }, payload := [7] }]
    let syn : TCPSegment := { header := { seqno := ⟨100⟩, syn := true, rst := true } }
    let bare : TCPSegment := { header := { seqno := ⟨100⟩, rst := true } }
    let late : TCPSegment := { header := { seqno := ⟨101⟩, rst := true }, payload := [7, 8] }
    (listening.receiver.ackno = none ∧ ¬ listening.SentSyn ∧
      (listening.segmentReceived syn).IsReset) ∧
    (waiting.receiver.ackno = none ∧ waiting.SentSyn ∧ ¬ waiting.CoversSyn bare ∧
      (waiting.segmentReceived bare).IsReset) ∧
    (established.receiver.ackno = some ⟨102⟩ ∧ ¬ (established.segmentReceived late).IsReset ∧
      (established.segmentReceived late).inboundStream.buf = [7, 8] ∧
      (established.segmentReceived late).segmentsOut.length = established.segmentsOut.length + 1) ∧
    ¬ listening.HandlesRst syn ∧ ¬ waiting.HandlesRst bare ∧ ¬ established.HandlesRst late := by
  intro synAck listening waiting established syn bare late
  have hlistening : listening.receiver.ackno = none ∧ ¬ listening.SentSyn ∧
      (listening.segmentReceived syn).IsReset := by decide +kernel
  have hwaiting : waiting.receiver.ackno = none ∧ waiting.SentSyn ∧ ¬ waiting.CoversSyn bare ∧
      (waiting.segmentReceived bare).IsReset := by decide +kernel
  have hopen : established.receiver.ackno = some ⟨102⟩ ∧
      ¬ (established.segmentReceived late).IsReset ∧
      (established.segmentReceived late).inboundStream.buf = [7, 8] ∧
      (established.segmentReceived late).segmentsOut.length =
        established.segmentsOut.length + 1 := by
    decide +kernel
  refine ⟨hlistening, hwaiting, hopen, fun h => ?_, fun h => ?_, fun h => ?_⟩
  · have hsame := h.listen hlistening.1 hlistening.2.1
    have hover : (listening.segmentReceived syn).active = false := hlistening.2.2.1
    rw [hsame] at hover
    exact absurd hover (by decide)
  · exact hwaiting.2.2.1 ((h.synSent hwaiting.1 hwaiting.2.1).mp hwaiting.2.2.2)
  · have hout := (h.inert hopen.2.1).segmentsOut
    have hlength := hopen.2.2.2
    rw [hout] at hlength
    omega

end TCPConnection

end Sponge
