import Sponge.Connection.Incoming
import Sponge.Receiver.Completion

/-! # Streams that have ended

As long as nothing is written to an outbound stream that has ended, no bytes wait behind the FIN.
An inbound stream stays ended, and stays in error.
-/

namespace Sponge

namespace TCPSender

variable {s : TCPSender}

/-- No bytes wait behind the FIN, and the stream had ended before it. -/
structure Tidy (s : TCPSender) : Prop where
  consistent : s.stream.Consistent
  fresh : s.Fresh
  last : s.finSent = true → s.stream.buf = []
  ended : s.finSent = true → s.stream.eof2 = true

theorem Tidy.new {capacity : UInt64} {retxTimeout : UInt16} {isn : WrappingInt32} :
    Tidy (new capacity retxTimeout isn) where
  consistent := .new capacity.toNat_lt
  fresh _ := ⟨rfl, rfl, rfl⟩
  last := by simp [TCPSender.new]
  ended := by simp [TCPSender.new]

theorem Tidy.fillWindow (h : s.Tidy) :
    s.fillWindow.Tidy ∧ s.fillWindow.stream.eof2 = s.stream.eof2 := by
  by_cases hfin : s.finSent = true
  · have hs : s.fillWindow = s := if_pos hfin
    rw [hs]
    exact ⟨h, rfl⟩
  · obtain ⟨segs, hf⟩ := filled_fillWindow h.consistent h.fresh
    obtain ⟨w, hw, hne⟩ := s.opened_eq
    have hwindow := congrArg TCPSender.window hf.base
    have hsent := hf.finSent
    have heof := hf.eof2
    simp only [hw, base] at hwindow hsent heof
    -- the FIN is sent by this call, so the stream is at its end
    have hlast : s.fillWindow.finSent = true →
        s.fillWindow.stream.buf = [] ∧ s.fillWindow.stream.eof2 = true := fun hf' => by
      obtain ⟨g, hg, hgfin⟩ := (hsent.mp hf').resolve_left hfin
      obtain ⟨p, hp⟩ : ∃ p, Layout.At len segs p g := Layout.exists_at_of_mem hg
      exact hf.consistent.eof_iff.mp (hf.fin p g hp hgfin).2
    exact ⟨
      { consistent := hf.consistent
        fresh := fun hw' => absurd (hwindow.symm.trans hw') hne
        last := fun hf' => (hlast hf').1
        ended := fun hf' => (hlast hf').2 }, heof⟩

theorem Tidy.tick (h : s.Tidy) (ms : ℕ) :
    (s.tick ms).Tidy ∧ (s.tick ms).stream = s.stream := by
  obtain ⟨again, hs⟩ := s.ticked_tick ms
  rw [hs.frame]
  exact ⟨⟨h.consistent, h.fresh, h.last, h.ended⟩, rfl⟩

theorem Tidy.ackReceived (h : s.Tidy) (ackno : WrappingInt32) (windowSize : UInt16) :
    (s.ackReceived ackno windowSize).Tidy ∧
      (s.ackReceived ackno windowSize).stream = s.stream := by
  rcases s.ackReceived_cases ackno windowSize with ⟨hs, _⟩ | hs
  · rw [hs]
    exact ⟨h, rfl⟩
  · rw [hs.frame]
    exact ⟨⟨h.consistent, fun hw => absurd hw (by simp only; omega), h.last, h.ended⟩, rfl⟩

theorem Tidy.sendEmptySegment (h : s.Tidy) : s.sendEmptySegment.Tidy :=
  ⟨h.consistent, h.fresh, h.last, h.ended⟩

theorem Tidy.write (h : s.Tidy) (data : List UInt8) (hopen : s.stream.eof2 = false) :
    Tidy { s with stream := (s.stream.write data).1 } where
  consistent := h.consistent.write
  fresh := h.fresh
  last hf := by simp [h.ended hf] at hopen
  ended := h.ended

theorem Tidy.endInput (h : s.Tidy) : Tidy { s with stream := s.stream.endInput } where
  consistent := h.consistent.endInput
  fresh := h.fresh
  last := h.last
  ended _ := rfl

theorem Tidy.setError (h : s.Tidy) : Tidy { s with stream := s.stream.setError } where
  consistent := h.consistent.setError
  fresh := h.fresh
  last := h.last
  ended := h.ended

end TCPSender

namespace TCPConnection

variable {c : TCPConnection} {o : Op}

/-- An operation leaves the outbound stream tidy; `e` tells whether it has ended. -/
structure Tidy (c : TCPConnection) (e : Bool) : Prop where
  sender : c.sender.Tidy
  ended : c.sender.stream.eof2 = e

variable {e : Bool}

theorem Tidy.new (cfg : TCPConfig) : (new cfg).Tidy false := ⟨.new, rfl⟩

theorem Tidy.fillWindowAndSend (h : c.Tidy e) : c.fillWindowAndSend.1.Tidy e := by
  obtain ⟨hs, he⟩ := h.sender.fillWindow
  rw [fillWindowAndSend_eq]
  exact ⟨⟨hs.consistent, hs.fresh, hs.last, hs.ended⟩, he.trans h.ended⟩

theorem Tidy.sendRST (h : c.Tidy e) : c.sendRST.Tidy e := by
  have hempty := h.sender.sendEmptySegment
  unfold TCPConnection.sendRST
  simp only
  split
  · exact h
  · exact ⟨⟨hempty.setError.consistent, hempty.fresh, hempty.last, hempty.ended⟩, h.ended⟩

theorem Tidy.takeIn (h : c.Tidy e) (seg : TCPSegment) : (c.takeIn seg).Tidy e := by
  obtain ⟨hs, hstream⟩ := h.sender.ackReceived seg.header.ackno seg.header.win
  unfold TCPConnection.takeIn
  split_ifs
  · exact ⟨hs, (congrArg ByteStream.eof2 hstream).trans h.ended⟩
  · exact ⟨h.sender, h.ended⟩

theorem Tidy.reply (h : c.Tidy e) (seg : TCPSegment) : (c.reply seg).Tidy e := by
  have hfirst := h.fillWindowAndSend
  unfold TCPConnection.reply
  simp only
  split_ifs
  · have hagain : Tidy { c.fillWindowAndSend.1 with
        sender := c.fillWindowAndSend.1.sender.sendEmptySegment } e :=
      ⟨hfirst.sender.sendEmptySegment, hfirst.ended⟩
    exact hagain.fillWindowAndSend
  · exact hfirst

theorem Tidy.step (h : c.Tidy e) (o : Op) (hopen : e = true → c.newBytes o = []) :
    ∃ e', (c.step o).Tidy e' ∧ (e' = true → e = true ∨ o = .endInputStream) := by
  cases o with
  | connect => exact ⟨e, h.fillWindowAndSend, Or.inl⟩
  | write data =>
    rw [TCPConnection.step, TCPConnection.write]
    split_ifs with hactive
    · refine ⟨e, ?_, Or.inl⟩
      have hwritten : Tidy
          { c with sender := { c.sender with stream := (c.sender.stream.write data).1 } } e := by
        refine ⟨?_, h.ended⟩
        cases e with
        | false => exact h.sender.write data h.ended
        | true =>
          -- nothing is accepted, so the buffer stays as it is
          have hnone : data.take (c.write data).2 = [] := hopen rfl
          have hbuf : (c.sender.stream.write data).1.buf = c.sender.stream.buf := by
            rw [TCPConnection.write, if_pos hactive] at hnone
            change c.sender.stream.buf ++ data.take (c.sender.stream.write data).2 = _
            rw [hnone, List.append_nil]
          exact
            { consistent := h.sender.consistent.write
              fresh := h.sender.fresh
              last := fun hf => hbuf.trans (h.sender.last hf)
              ended := h.sender.ended }
      exact hwritten.fillWindowAndSend
    · exact ⟨e, h, Or.inl⟩
  | endInputStream =>
    rw [TCPConnection.step, TCPConnection.endInputStream]
    split_ifs
    · have hended : Tidy
          { c with sender := { c.sender with stream := c.sender.stream.endInput } } true :=
        ⟨h.sender.endInput, rfl⟩
      exact ⟨true, hended.fillWindowAndSend, fun _ => Or.inr rfl⟩
    · exact ⟨e, h, Or.inl⟩
  | tick ms =>
    rw [TCPConnection.step]
    obtain ⟨hs, hstream⟩ := h.sender.tick ms
    rcases c.tick_cases ms with hsame | ⟨-, linger, active, -, htick⟩
    · rw [hsame]
      exact ⟨e, h, Or.inl⟩
    · have hticked : Tidy { c with
          tnow := (c.tnow + ms) % 2 ^ 64, lingerAfterStreamsFinish := linger, active := active
          sender := c.sender.tick ms } e :=
        ⟨hs, (congrArg ByteStream.eof2 hstream).trans h.ended⟩
      rcases htick with ⟨-, htick⟩ | htick
      · rw [htick]
        exact ⟨e, hticked.sendRST, Or.inl⟩
      · rw [htick]
        exact ⟨e, hticked.fillWindowAndSend, Or.inl⟩
  | read len => exact ⟨e, ⟨h.sender, h.ended⟩, Or.inl⟩
  | segment seg =>
    refine ⟨e, ?_, Or.inl⟩
    rw [TCPConnection.step]
    rcases c.segmentReceived_cases seg with
      ⟨-, hs⟩ | ⟨-, -, hs⟩ | ⟨-, -, active, received, linger, active', hs, -⟩
    · rwa [hs]
    · rw [hs]
      exact ⟨h.sender.setError, h.ended⟩
    · rw [hs]
      have hc : Tidy { c with
          active := active, finreceived := received, lingerAfterStreamsFinish := linger } e :=
        ⟨h.sender, h.ended⟩
      have hreply := (hc.takeIn seg).reply seg
      exact ⟨hreply.sender, hreply.ended⟩

end TCPConnection

namespace TCPConnection

/-- What is done to an endpoint, but for reading, only appends to its inbound stream. -/
theorem appended_step (c : TCPConnection) (o : Op) (hread : ∀ len, o ≠ .read len) :
    c.inboundStream.Appended (c.step o).inboundStream := by
  rw [inboundStream, inboundStream]
  rcases c.step_receiver o with ⟨seg, -, -, hr⟩ | ⟨len, rfl, -⟩ | ⟨-, hr | hr⟩
  · rw [hr]
    exact c.receiver.appended_segmentReceived seg
  · exact absurd rfl (hread len)
  · rw [hr]
    exact .refl _
  · rw [hr]
    exact c.receiver.streamOut.appended_setError

theorem later_step (c : TCPConnection) (o : Op) :
    c.inboundStream.Later (c.step o).inboundStream := by
  by_cases hread : ∃ len, o = .read len
  · obtain ⟨len, rfl⟩ := hread
    exact ⟨id, id⟩
  · exact (c.appended_step o fun len h => hread ⟨len, h⟩).toLater

end TCPConnection

end Sponge
