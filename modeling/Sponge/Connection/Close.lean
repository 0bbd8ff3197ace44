import Sponge.Connection.Sending
import Sponge.Library.Runs
import Sponge.Receiver.Completion

/-! # Closing

An endpoint that closes without an error has sent its whole stream and has nothing
in flight. It takes the inbound stream to be complete too, which is right as long as
the branches that close it are entered only after the inbound stream has ended.
-/

namespace Sponge

open Layout Runs TCPSender

namespace TCPConnection

/-- Both streams are complete, and the FIN is sent and acknowledged. -/
structure Complete (c : TCPConnection) : Prop where
  inbound : c.inboundStream.inputEnded = true
  outbound : c.sender.stream.eof = true
  finsent : c.finsent = true
  bytesInFlight : c.bytesInFlight = 0

/-- The segment acknowledges all that a finished endpoint, which does not linger, has sent. -/
def Closes (c : TCPConnection) (seg : TCPSegment) : Prop :=
  seg.header.ack = true ∧ c.lingerAfterStreamsFinish = false ∧ c.sender.stream.eof = true ∧
    c.sender.finSent = true ∧
    (c.sender.bytesInFlight = 0 ∨ seg.header.ackno = c.sender.relativeNextSeqno)

instance (c : TCPConnection) (seg : TCPSegment) : Decidable (c.Closes seg) :=
  inferInstanceAs (Decidable (_ ∧ _))

/-- The operation takes a branch that closes the endpoint: the time of lingering has run out, or a
segment that is taken in acknowledges all. -/
def Ending (c : TCPConnection) : Op → Prop
  | .tick ms => c.active = true ∧ c.timesOut ((c.tnow + ms) % 2 ^ 64) = true
  | .segment seg => c.takes seg = true ∧ c.Closes seg
  | _ => False

/-- The inbound stream has ended, or does with the segment that arrives. -/
def EndsInbound (c : TCPConnection) : Op → Prop
  | .segment seg => c.receiver.EndsWith seg
  | _ => c.inboundStream.inputEnded = true

/-- The branches that close the endpoint are entered only when the inbound stream is complete, and
the position of the sender is not among the last 2^32. -/
def Orderly (c : TCPConnection) (o : Op) : Prop :=
  c.sender.nextSeqno + 2 ^ 32 < 2 ^ 64 ∧ (c.Ending o → c.EndsInbound o)

instance (c : TCPConnection) : ∀ o, Decidable (c.Ending o)
  | .tick _ | .segment _ => inferInstanceAs (Decidable (_ ∧ _))
  | .connect | .write _ | .endInputStream | .read _ => inferInstanceAs (Decidable False)

/-- Between operations nothing more can be sent, and a closed endpoint is complete. -/
structure Calm (c : TCPConnection) : Prop where
  settled : c.sender.Settled
  finsent : c.sender.finSent = true → c.finsent = true
  closed : c.active = false → Complete c

/-- The invariant of an endpoint; after an error, nothing is claimed but that it stays. -/
structure Proper (c : TCPConnection) : Prop where
  flight : ∃ journal, Flight journal c.sender
  calm : c.sender.stream.error = true ∨ Calm c

variable {c c' : TCPConnection} {journal : List TCPSegment} {seg : TCPSegment}

theorem Proper.new {cfg : TCPConfig} : Proper (new cfg) where
  flight := ⟨[], .new⟩
  calm := Or.inr ⟨Or.inr (Or.inr ⟨rfl, rfl⟩), by simp [TCPConnection.new, TCPSender.new],
    by simp [TCPConnection.new]⟩

theorem Calm.finSent (h : Calm c) (hf : Flight journal c.sender)
    (hsmall : c.sender.nextSeqno + 2 ^ 32 < 2 ^ 64) (heof : c.sender.stream.eof = true)
    (hz : c.sender.bytesInFlight = 0) : c.sender.finSent = true :=
  hf.finSent_of_eof (by omega) h.settled heof hz

theorem Sent.proper (h : Sent c c')
    (hc : c.sender.stream.error = true ∨ (c.sender.finSent = true → c.finsent = true))
    (hclosed : c'.sender.stream.error = false → c'.active = false → Complete c') : Proper c' where
  flight := h.flight
  calm := by
    by_cases he : c'.sender.stream.error = true
    · exact Or.inl he
    · have he' : c.sender.stream.error ≠ true := by rwa [← h.error]
      exact Or.inr ⟨h.settled, h.finsent (hc.resolve_left he'), hclosed (by simpa using he)⟩

theorem Sent.complete (h : Sent c c') (hfin : c.sender.finSent = true)
    (hfin' : c'.finsent = true) (hin : c.inboundStream.inputEnded = true)
    (heof : c.sender.stream.eof = true) (hz : c.sender.bytesInFlight = 0) : Complete c' := by
  obtain ⟨_, hstream, hflight⟩ := h.blocked hfin
  exact
    { inbound := by rw [h.frame]; exact hin
      outbound := by rw [hstream, heof]
      finsent := hfin'
      bytesInFlight := by
        rw [TCPConnection.bytesInFlight, TCPSender.bytesInFlight, hflight]
        exact hz }

theorem Proper.connect (h : Proper c) (ho : c.sender.nextSeqno + 2 ^ 32 < 2 ^ 64) :
    Proper c.connect := by
  obtain ⟨journal, hf⟩ := h.flight
  have hs := sent_fillWindowAndSend hf
  apply hs.proper (h.calm.imp_right Calm.finsent)
  intro he hactive
  have hc := h.calm.resolve_left (by rw [← hs.error, he]; simp)
  have hdone := hc.closed (by rw [hs.frame] at hactive; exact hactive)
  have hfin := hc.finSent hf ho hdone.outbound hdone.bytesInFlight
  exact hs.complete hfin (hs.finsent hc.finsent (hs.blocked hfin).1) hdone.inbound hdone.outbound
    hdone.bytesInFlight

theorem Proper.sendStream (h : Proper c) (hactive : c.active = true) {stream : ByteStream}
    (hc : stream.Consistent) (herror : stream.error = c.sender.stream.error) :
    Proper ({ c with sender := { c.sender with stream := stream } }).fillWindowAndSend.1 := by
  obtain ⟨journal, hf⟩ := h.flight
  have hs := sent_fillWindowAndSend
    (c := { c with sender := { c.sender with stream := stream } })
    (hf.other c.sender.segmentsOut c.sender.crtx hc)
  refine hs.proper ?_ fun _ hclosed => ?_
  · rw [herror]
    exact h.calm.imp_right fun hc => hc.finsent
  · rw [hs.frame] at hclosed
    simp [hactive] at hclosed

theorem proper_sendRST (h : Flight journal c.sender) : Proper c.sendRST := by
  unfold sendRST
  simp only
  split
  · next hnil => simp [sendEmptySegment] at hnil
  · next seg queue _ =>
    exact ⟨⟨journal, h.other _ 0 h.consistent.setError⟩, Or.inl rfl⟩

theorem inFlight_tick {s : TCPSender} (ms : ℕ) (hnil : s.inFlight = []) :
    (s.tick ms).inFlight = [] := by
  obtain ⟨again, ht⟩ := s.ticked_tick ms
  exact List.Perm.eq_nil (hnil ▸ ht.inFlight)

theorem Proper.tick (h : Proper c) {ms : ℕ} (ho : c.Orderly (.tick ms)) : Proper (c.tick ms) := by
  obtain ⟨journal, hf⟩ := h.flight
  obtain ⟨hsmall, hin⟩ := ho
  rcases c.tick_cases ms with hs | ⟨hactive, linger, active, hdone, ⟨_, hs⟩ | hs⟩
  · rwa [hs]
  · rw [hs]
    exact proper_sendRST (hf.tick ms)
  · rw [hs]
    obtain ⟨again, ht⟩ := c.sender.ticked_tick ms
    have hstream : (c.sender.tick ms).stream = c.sender.stream := by rw [ht.frame]
    have hsent : (c.sender.tick ms).finSent = c.sender.finSent := by rw [ht.frame]
    have hsends := sent_fillWindowAndSend
      (c := { c with
        tnow := (c.tnow + ms) % 2 ^ 64, lingerAfterStreamsFinish := linger, active := active
        sender := c.sender.tick ms }) (hf.tick ms)
    refine hsends.proper ?_ fun he hclosed => ?_
    · simp only [hstream, hsent]
      exact h.calm.imp_right fun hc => hc.finsent
    · -- the endpoint was active, so it is the time of lingering that has run out
      have hout := hdone (by rw [hsends.frame] at hclosed; exact hclosed)
      have hended := hin ⟨hactive, hout⟩
      have hcalm := h.calm.resolve_left (by
        rw [hsends.error, hstream] at he
        simp [he])
      simp only [timesOut, Bool.and_eq_true, beq_iff_eq] at hout
      have hfin := hcalm.finSent hf hsmall hout.1.2 hout.1.1
      have hnil := inFlight_tick ms (hf.bytesInFlight_eq_zero_iff.mp hout.1.1)
      exact hsends.complete (hsent.trans hfin)
        (hsends.finsent (fun _ => hcalm.finsent hfin) (hsends.blocked (hsent.trans hfin)).1) hended
        (by rw [hstream]; exact hout.1.2)
        ((hf.tick ms).bytesInFlight_eq_zero_iff.mpr hnil)

theorem acksAll_of_inFlight {s : TCPSender} (hf : Flight journal s)
    (hsmall : s.nextSeqno + 2 ^ 32 < 2 ^ 64) {ackno : WrappingInt32} {windowSize : UInt16}
    (hnil : (s.ackReceived ackno windowSize).inFlight = []) :
    s.bytesInFlight = 0 ∨ ackno = s.relativeNextSeqno := by
  have hf' := hf.ackReceived ackno windowSize (by omega)
  rcases s.ackReceived_cases ackno windowSize with ⟨hs, _⟩ | hs
  · rw [hs] at hnil
    exact Or.inl (hf.bytesInFlight_eq_zero_iff.mpr hnil)
  · have hacked := hf'.acked_eq hnil
    have ha : (s.ackReceived ackno windowSize).acked = unwrap ackno s.isn s.acked := by
      rw [hs.frame]
    have hnext : (s.ackReceived ackno windowSize).nextSeqno = s.nextSeqno := by rw [hs.frame]
    have hle := hf.acked_le
    right
    rw [relativeNextSeqno, ← hnext, ← hacked, ha, wrap_unwrap _ _ (by omega)]

theorem flight_takeIn (hf : Flight journal c.sender) (hsmall : c.sender.nextSeqno + 2 ^ 32 < 2 ^ 64)
    (seg : TCPSegment) :
    Flight journal (c.takeIn seg).sender ∧ (c.takeIn seg).sender.stream = c.sender.stream ∧
      (c.takeIn seg).sender.finSent = c.sender.finSent ∧
      (c.takeIn seg).sender.nextSeqno = c.sender.nextSeqno ∧
      (c.sender.inFlight = [] → (c.takeIn seg).sender.inFlight = []) := by
  have hsender : (c.takeIn seg).sender = if seg.header.ack = true then
      c.sender.ackReceived seg.header.ackno seg.header.win else c.sender := rfl
  rw [hsender]
  split_ifs
  · exact ⟨hf.ackReceived _ _ (by omega), c.sender.ackReceived_frame _ _⟩
  · exact ⟨hf, rfl, rfl, rfl, id⟩

/-- An endpoint that finishes after an answer closes: the segment acknowledged what was left, and
the FIN was sent before. -/
theorem Calm.closes_of_reply (h : Calm c) (hf : Flight journal c.sender)
    (hsmall : c.sender.nextSeqno + 2 ^ 32 < 2 ^ 64) {active received linger : Bool}
    (hlinger : linger = false → c.lingerAfterStreamsFinish = false ∨ c.finsent = false)
    (hfin : ((takeIn { c with
      active := active, finreceived := received, lingerAfterStreamsFinish := linger }
        seg).reply seg).Finishes seg) :
    c.Closes seg ∧ (c.takeIn seg).sender.inFlight = [] := by
  set c₃ := takeIn { c with
    active := active, finreceived := received, lingerAfterStreamsFinish := linger } seg
  obtain ⟨hf₃, hstream, hsent, hnext, _⟩ : Flight journal c₃.sender ∧
      c₃.sender.stream = c.sender.stream ∧ c₃.sender.finSent = c.sender.finSent ∧
      c₃.sender.nextSeqno = c.sender.nextSeqno ∧ _ := flight_takeIn hf hsmall seg
  have hs := sent_reply hf₃ seg
  obtain ⟨hl, heof, hz, hack⟩ := hfin
  obtain ⟨journal', hf'⟩ := hs.flight
  have hsmall' : (c₃.reply seg).sender.nextSeqno + 2 ^ 16 ≤ 2 ^ 64 := by
    have hclose := hf'.close
    have hle := hf₃.acked_le
    rw [hs.acked] at hclose
    rw [hnext] at hle
    omega
  have hflight := hf'.bytesInFlight_eq_zero_iff.mp hz
  have hfin₃ : c₃.sender.finSent = true := by
    by_contra hne
    exact hs.fresh (by simpa using hne) (hf'.finSent_of_eof hsmall' hs.settled heof hz) hflight
  obtain ⟨_, hstream', hflight'⟩ := hs.blocked hfin₃
  have hnone : c₃.sender.inFlight = [] := hflight'.symm.trans hflight
  have hfinSent : c.sender.finSent = true := hsent.symm.trans hfin₃
  have hl' : linger = false := by
    rw [hs.frame] at hl
    exact hl
  have hlinger' := (hlinger hl').resolve_right (by simp [h.finsent hfinSent])
  refine ⟨⟨hack, hlinger', by rw [← hstream, ← hstream', heof], hfinSent, ?_⟩, hnone⟩
  have hsender : c₃.sender = c.sender.ackReceived seg.header.ackno seg.header.win := if_pos hack
  rw [hsender] at hnone
  exact acksAll_of_inFlight hf hsmall hnone

theorem Proper.segmentReceived (h : Proper c) (ho : c.Orderly (.segment seg)) :
    Proper (c.segmentReceived seg) := by
  obtain ⟨journal, hf⟩ := h.flight
  obtain ⟨hsmall, hin⟩ := ho
  rcases c.segmentReceived_cases seg with
    ⟨_, hs⟩ | ⟨_, _, hs⟩ | ⟨hi, hr, active, received, linger, active', hs, _, hlinger, hclosed⟩
  · rwa [hs]
  · rw [hs]
    exact ⟨⟨journal, hf.other c.sender.segmentsOut c.sender.crtx hf.consistent.setError⟩,
      Or.inl rfl⟩
  · rw [hs]
    set c₃ := takeIn { c with
      active := active, finreceived := received, lingerAfterStreamsFinish := linger } seg
    obtain ⟨hf₃, hstream, hsent, _, hnil⟩ : Flight journal c₃.sender ∧
        c₃.sender.stream = c.sender.stream ∧ c₃.sender.finSent = c.sender.finSent ∧ _ ∧
        (c.sender.inFlight = [] → c₃.sender.inFlight = []) := flight_takeIn hf hsmall seg
    have hsends := sent_reply hf₃ seg
    refine ⟨hsends.flight, ?_⟩
    by_cases he : (c₃.reply seg).sender.stream.error = true
    · exact Or.inl he
    have hcalm : Calm c := h.calm.resolve_left (by rwa [← hstream, ← hsends.error])
    have hsettled : c₃.sender.finSent = true → c₃.finsent = true := by
      rw [hsent]
      exact hcalm.finsent
    refine Or.inr ⟨hsends.settled, hsends.finsent hsettled, fun hactive' => ?_⟩
    -- closing means that all was sent before, and that this segment acknowledges it
    have hkey : c.Closes seg ∧ c₃.sender.inFlight = [] := by
      rcases hclosed hactive' with ⟨hl, heof, hz, hack⟩ | hfin
      · exact ⟨⟨hack, hl, heof, hcalm.finSent hf hsmall heof hz, Or.inl hz⟩,
          hnil (hf.bytesInFlight_eq_zero_iff.mp hz)⟩
      · exact hcalm.closes_of_reply hf hsmall hlinger hfin
    have hin' := (hin ⟨by simp [takes, hi, hr], hkey.1⟩).inputEnded
    obtain ⟨_, _, heof, hfin, _⟩ := hkey.1
    have hfin₃ := hsent.trans hfin
    have hcomplete := hsends.complete hfin₃ (hsends.finsent hsettled (hsends.blocked hfin₃).1) hin'
      (by rw [hstream]; exact heof) (hf₃.bytesInFlight_eq_zero_iff.mpr hkey.2)
    exact ⟨hcomplete.inbound, hcomplete.outbound, hcomplete.finsent, hcomplete.bytesInFlight⟩

theorem Proper.step (h : Proper c) (o : Op) (ho : c.Orderly o) : Proper (c.step o) := by
  cases o with
  | connect => exact h.connect ho.1
  | write data =>
    rw [TCPConnection.step, TCPConnection.write]
    split_ifs with hactive
    · obtain ⟨journal, hf⟩ := h.flight
      exact h.sendStream hactive hf.consistent.write rfl
    · exact h
  | endInputStream =>
    rw [TCPConnection.step, TCPConnection.endInputStream]
    split_ifs with hactive
    · obtain ⟨journal, hf⟩ := h.flight
      exact h.sendStream hactive hf.consistent.endInput rfl
    · exact h
  | tick ms => exact h.tick ho
  | read len =>
    exact ⟨h.flight, h.calm.imp_right fun hc => ⟨hc.settled, hc.finsent, fun hactive =>
      ⟨(hc.closed hactive).inbound, (hc.closed hactive).outbound, (hc.closed hactive).finsent,
        (hc.closed hactive).bytesInFlight⟩⟩⟩
  | segment seg => exact h.segmentReceived ho

/-- In an orderly run, an endpoint that has closed without an error is complete. -/
theorem closed_complete {cfg : TCPConfig} {ops : List Op}
    (h : Admitted step Orderly (new cfg) ops)
    (hclosed : (run step (new cfg) ops).active = false)
    (hout : (run step (new cfg) ops).sender.stream.error = false) :
    Complete (run step (new cfg) ops) := by
  have hp : Proper (run step (new cfg) ops) := h.invariant (fun c o hc ho => hc.step o ho) .new
  exact (hp.calm.resolve_left (by simp [hout])).closed hclosed

theorem Orderly.of_inputEnded {o : Op} (hsmall : c.sender.nextSeqno + 2 ^ 32 < 2 ^ 64)
    (h : c.Ending o → c.inboundStream.inputEnded = true) : c.Orderly o := by
  refine ⟨hsmall, fun hending => ?_⟩
  cases o with
  | segment seg => exact Or.inl (h hending)
  | _ => exact h hending

/-- The peer ends its stream with the last byte, and then acknowledges the own FIN. -/
theorem closed_complete_passive :
    let synAck : TCPHeader := { seqno := ⟨100⟩, syn := true, ack := true, ackno := ⟨1⟩, win := 9 }
    let last : TCPHeader := { seqno := ⟨101⟩, fin := true, ack := true, ackno := ⟨3⟩, win := 9 }
    let bare : TCPHeader := { seqno := ⟨103⟩, ack := true, ackno := ⟨4⟩, win := 9 }
    Complete (run step (new { isn := ⟨0⟩ })
      [.connect, .segment { header := synAck }, .write [1, 2],
        .segment { header := last, payload := [7] }, .read 1, .endInputStream,
        .segment { header := bare }]) := by
  intro synAck last bare
  have h : Admitted step
      (fun c o => c.sender.nextSeqno + 2 ^ 32 < 2 ^ 64 ∧
        (c.Ending o → c.inboundStream.inputEnded = true))
      (new { isn := ⟨0⟩ })
      [.connect, .segment { header := synAck }, .write [1, 2],
        .segment { header := last, payload := [7] }, .read 1, .endInputStream,
        .segment { header := bare }] := by decide
  exact closed_complete (h.mono fun c o ho => .of_inputEnded ho.1 ho.2) (by decide) (by decide)

/-- The own stream is acknowledged, the peer still sends, and ten timeouts pass. -/
theorem closes_half_open :
    let synAck : TCPHeader := { seqno := ⟨100⟩, syn := true, ack := true, ackno := ⟨1⟩, win := 9 }
    let bare : TCPHeader := { seqno := ⟨101⟩, ack := true, ackno := ⟨2⟩, win := 9 }
    let c := run step (new { isn := ⟨0⟩ })
      [.connect, .segment { header := synAck }, .endInputStream, .segment { header := bare },
        .tick 10000]
    c.active = false ∧ c.sender.stream.error = false ∧ c.inboundStream.error = false ∧
      c.inboundStream.inputEnded = false := by
  decide

end TCPConnection

end Sponge
