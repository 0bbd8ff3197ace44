import Sponge.Connection.Ended

/-! # The streams of an endpoint

The sizes that both streams report stay right. Sending only makes room in the outbound stream.
-/

namespace Sponge

/-- The stream `s'` comes from `s` by reads of bytes that are there. -/
structure ByteStream.Drained (s s' : ByteStream) : Prop where
  consistent : s.Consistent → s'.Consistent
  room : s.Consistent → s.rem ≤ s'.rem

namespace ByteStream

variable {s s' s'' : ByteStream}

theorem Drained.refl (s : ByteStream) : s.Drained s := ⟨id, fun _ => le_rfl⟩

theorem Drained.trans (h : s.Drained s') (h' : s'.Drained s'') : s.Drained s'' :=
  ⟨fun hc => h'.consistent (h.consistent hc),
    fun hc => (h.room hc).trans (h'.room (h.consistent hc))⟩

theorem drained_read {len : ℕ} (hlen : len ≤ s.bufferSize) : s.Drained (s.read len).1 := by
  have hle : s.Consistent → len ≤ s.buf.length := fun hc => hc.bufferSize_eq ▸ hlen
  refine ⟨fun hc => hc.popOutput (hle hc), fun hc => ?_⟩
  have hroom := hc.room
  have hcap := hc.cap_lt
  have hshort := hle hc
  change s.rem ≤ (s.rem + len) % 2 ^ 64
  omega

theorem drained_setError (s : ByteStream) : s.Drained s.setError :=
  ⟨Consistent.setError, fun _ => le_rfl⟩

end ByteStream

namespace TCPSender

variable {s : TCPSender}

theorem drained_fillLoop (n : ℕ) (s : TCPSender) : s.stream.Drained (s.fillLoop n).stream := by
  induction n generalizing s with
  | zero => exact .refl _
  | succ n ih =>
    have hread : ∀ k, s.stream.Drained
        (s.stream.read (min maxPayloadSize (min s.stream.bufferSize k))).1 := fun k =>
      ByteStream.drained_read ((min_le_right _ _).trans (min_le_left _ _))
    simp only [fillLoop]
    split_ifs
    · exact .refl _
    · exact .refl _
    · exact hread _
    · refine (hread (sub64 s.limit s.nextSeqno)).trans ?_
      exact ih (s.emit _ _ _)
    · exact .refl _

theorem drained_fillWindow (s : TCPSender) : s.stream.Drained s.fillWindow.stream := by
  unfold fillWindow
  simp only
  split_ifs
  · exact .refl _
  · exact .refl _
  · exact .refl _
  · exact drained_fillLoop _ s

theorem ackReceived_stream (s : TCPSender) (ackno : WrappingInt32) (windowSize : UInt16) :
    (s.ackReceived ackno windowSize).stream = s.stream := by
  rcases s.ackReceived_cases ackno windowSize with ⟨hs, -⟩ | hs
  · rw [hs]
  · rw [hs.frame]

end TCPSender

namespace TCPConnection

variable {c : TCPConnection} {o : Op}

theorem drained_fillWindowAndSend (c : TCPConnection) :
    c.sender.stream.Drained c.fillWindowAndSend.1.sender.stream := by
  rw [fillWindowAndSend_eq]
  exact c.sender.drained_fillWindow

theorem drained_reply (c : TCPConnection) (seg : TCPSegment) :
    c.sender.stream.Drained (c.reply seg).sender.stream := by
  have hsent := c.drained_fillWindowAndSend
  unfold reply
  simp only
  split_ifs
  · exact hsent.trans (drained_fillWindowAndSend
      { c.fillWindowAndSend.1 with sender := c.fillWindowAndSend.1.sender.sendEmptySegment })
  · exact hsent

theorem drained_segmentReceived (c : TCPConnection) (seg : TCPSegment) :
    c.sender.stream.Drained (c.segmentReceived seg).sender.stream := by
  rcases c.segmentReceived_cases seg with
    ⟨-, hs⟩ | ⟨-, -, hs⟩ | ⟨-, -, active, received, linger, active', hs, -⟩
  · rw [hs]
    exact .refl _
  · rw [hs]
    exact c.sender.stream.drained_setError
  · rw [hs]
    have htaken : ∀ c : TCPConnection, (c.takeIn seg).sender.stream = c.sender.stream := by
      intro c
      unfold takeIn
      split_ifs
      · exact c.sender.ackReceived_stream _ _
      · rfl
    have hreply := drained_reply (takeIn { c with
      active := active, finreceived := received, lingerAfterStreamsFinish := linger } seg) seg
    rwa [htaken] at hreply

theorem drained_sendRST (c : TCPConnection) :
    c.sender.stream.Drained c.sendRST.sender.stream := by
  unfold sendRST
  simp only
  split
  · exact .refl _
  · exact c.sender.stream.drained_setError

theorem drained_tick (c : TCPConnection) (ms : ℕ) :
    c.sender.stream.Drained (c.tick ms).sender.stream := by
  obtain ⟨again, hticked⟩ := c.sender.ticked_tick ms
  have hstream : (c.sender.tick ms).stream = c.sender.stream := by rw [hticked.frame]
  rcases c.tick_cases ms with hsame | ⟨-, linger, active, -, ⟨-, htick⟩ | htick⟩
  · rw [hsame]
    exact .refl _
  · rw [htick]
    have hrst := drained_sendRST { c with
      tnow := (c.tnow + ms) % 2 ^ 64, lingerAfterStreamsFinish := linger, active := active
      sender := c.sender.tick ms }
    rwa [hstream] at hrst
  · rw [htick]
    have hsent := drained_fillWindowAndSend { c with
      tnow := (c.tnow + ms) % 2 ^ 64, lingerAfterStreamsFinish := linger, active := active
      sender := c.sender.tick ms }
    rwa [hstream] at hsent

/-- Both streams report their sizes right. -/
structure Steady (c : TCPConnection) : Prop where
  outbound : c.sender.stream.Consistent
  inbound : c.inboundStream.Consistent

theorem Steady.new (cfg : TCPConfig) : (new cfg).Steady :=
  ⟨.new cfg.sendCapacity.toNat_lt, .new cfg.recvCapacity.toNat_lt⟩

/-- They go on to do so, if only bytes are read that are there. -/
theorem Steady.step (h : c.Steady) (hreads : ∀ len, o = .read len →
    len ≤ c.inboundStream.bufferSize) : (c.step o).Steady where
  outbound := by
    cases o with
    | connect => exact c.drained_fillWindowAndSend.consistent h.outbound
    | write data =>
      rw [TCPConnection.step, TCPConnection.write]
      split_ifs
      · exact (drained_fillWindowAndSend _).consistent h.outbound.write
      · exact h.outbound
    | endInputStream =>
      rw [TCPConnection.step, TCPConnection.endInputStream]
      split_ifs
      · exact (drained_fillWindowAndSend _).consistent h.outbound.endInput
      · exact h.outbound
    | tick ms => exact (c.drained_tick ms).consistent h.outbound
    | read len => exact h.outbound
    | segment seg => exact (c.drained_segmentReceived seg).consistent h.outbound
  inbound := by
    by_cases hread : ∃ len, o = .read len
    · obtain ⟨len, rfl⟩ := hread
      exact (ByteStream.drained_read (hreads len rfl)).consistent h.inbound
    · exact (c.appended_step o fun len ho => hread ⟨len, ho⟩).consistent h.inbound

end TCPConnection

end Sponge
