import Sponge.Connection.Sending

/-! # What is sent fits into a datagram

The header of every segment that an endpoint sends has no options, and its payload is short.
-/

namespace Sponge

/-- A segment as a sender makes it. -/
structure TCPSegment.Plain (g : TCPSegment) : Prop where
  doff : g.header.doff = 5
  payload : g.payload.length ≤ maxPayloadSize

namespace TCPSender

variable {s : TCPSender} {g : TCPSegment} {stream : ByteStream} {n : ℕ}

/-- All that waits or is in flight is plain. -/
structure Plain (s : TCPSender) : Prop where
  queue : ∀ g ∈ s.segmentsOut, g.Plain
  flight : ∀ g ∈ s.inFlight, g.Plain

theorem Plain.push (h : s.Plain) (hg : g.Plain) : (s.push g).Plain where
  queue g' hg' := by
    rcases List.mem_append.mp hg' with hg' | hg'
    · exact h.queue g' hg'
    · rwa [List.mem_singleton.mp hg']
  flight g' hg' := by
    obtain ⟨c, hc, rfl⟩ := List.mem_map.mp hg'
    rcases List.mem_cons.mp (perm_multimapInsert.mem_iff.mp hc) with rfl | hc
    · exact hg
    · exact h.flight _ (List.mem_map_of_mem hc)

theorem Plain.emit (h : s.Plain) (hg : g.Plain) : (s.emit stream g n).Plain :=
  ⟨(h.push hg).queue, (h.push hg).flight⟩

theorem Plain.fillLoop (h : s.Plain) : (s.fillLoop n).Plain := by
  induction n generalizing s with
  | zero => exact h
  | succ n ih =>
    have hdata : ∀ k room, (s.stream.read (min maxPayloadSize (min k room))).2.length ≤
        maxPayloadSize := fun k room => by
      simp only [ByteStream.read, List.length_take]
      omega
    simp only [TCPSender.fillLoop]
    split_ifs
    · exact h.emit ⟨rfl, Nat.zero_le _⟩
    · exact h
    · exact h.emit ⟨rfl, hdata _ _⟩
    · exact ih (h.emit ⟨rfl, hdata _ _⟩)
    · exact h

theorem Plain.fillWindow (h : s.Plain) : s.fillWindow.Plain := by
  have hopen : Plain { s with window := 1 } := ⟨h.queue, h.flight⟩
  have hsyn := hopen.push (g := { header := { seqno := s.isn, syn := true, fin := s.stream.eof } })
    ⟨rfl, Nat.zero_le _⟩
  unfold TCPSender.fillWindow
  simp only
  split_ifs
  · exact h
  · exact ⟨hsyn.queue, hsyn.flight⟩
  · exact ⟨hsyn.queue, hsyn.flight⟩
  · exact h.fillLoop

theorem Plain.ackReceived (h : s.Plain) (ackno : WrappingInt32) (windowSize : UInt16) :
    (s.ackReceived ackno windowSize).Plain := by
  rcases s.ackReceived_cases ackno windowSize with ⟨hs, _⟩ | hs
  · rwa [hs]
  · have hqueue : (s.ackReceived ackno windowSize).segmentsOut = s.segmentsOut := by rw [hs.frame]
    refine ⟨fun g hg => h.queue g (hqueue ▸ hg), fun g hg => ?_⟩
    rw [hs.inFlight] at hg
    exact h.flight g (List.mem_of_mem_filter hg)

theorem Plain.tick (h : s.Plain) (ms : ℕ) : (s.tick ms).Plain := by
  obtain ⟨again, hs⟩ := s.ticked_tick ms
  refine ⟨fun g hg => ?_, fun g hg => h.flight g (hs.inFlight.mem_iff.mp hg)⟩
  rw [hs.frame] at hg
  rcases List.mem_append.mp hg with hg | hg
  · exact h.queue g hg
  · exact h.flight g (hs.resent g (by simpa using hg))

theorem Plain.sendEmptySegment (h : s.Plain) : s.sendEmptySegment.Plain := by
  refine ⟨fun g hg => ?_, h.flight⟩
  rcases List.mem_append.mp hg with hg | hg
  · exact h.queue g hg
  · rw [List.mem_singleton.mp hg]
    exact ⟨rfl, Nat.zero_le _⟩

end TCPSender

namespace TCPConnection

variable {c c' : TCPConnection}

/-- All that was sent or waits to be sent is plain. -/
structure Plain (c : TCPConnection) : Prop where
  sender : c.sender.Plain
  wire : ∀ seg ∈ c.segmentsOut, seg.Plain

theorem Plain.new (cfg : TCPConfig) : (new cfg).Plain :=
  ⟨⟨by simp [TCPConnection.new, TCPSender.new],
    by simp [TCPConnection.new, TCPSender.new, TCPSender.inFlight]⟩, by simp [TCPConnection.new]⟩

theorem Plain.congr (h : c.Plain) (hs : c'.sender = c.sender)
    (hw : c'.segmentsOut = c.segmentsOut) : c'.Plain := ⟨hs ▸ h.sender, hw ▸ h.wire⟩

theorem plain_stamp (c : TCPConnection) {g : TCPSegment} (hg : g.Plain) : (c.stamp g).Plain := by
  unfold stamp
  cases c.receiver.ackno <;> exact ⟨hg.doff, hg.payload⟩

theorem Plain.fillWindowAndSend (h : c.Plain) : c.fillWindowAndSend.1.Plain := by
  have hfill := h.sender.fillWindow
  rw [fillWindowAndSend_eq]
  refine ⟨⟨by simp, hfill.flight⟩, fun seg hseg => ?_⟩
  rcases List.mem_append.mp hseg with hseg | hseg
  · exact h.wire seg hseg
  · obtain ⟨g, hg, rfl⟩ := List.mem_map.mp hseg
    exact c.plain_stamp (hfill.queue g hg)

theorem Plain.sendRST (h : c.Plain) : c.sendRST.Plain := by
  have hempty := h.sender.sendEmptySegment
  unfold TCPConnection.sendRST
  simp only
  split
  · exact h
  · next seg queue hqueue =>
      have hmem : ∀ g ∈ seg :: queue, g.Plain := fun g hg => hempty.queue g (hqueue ▸ hg)
      refine ⟨⟨fun g hg => hmem g (List.mem_cons_of_mem _ hg), hempty.flight⟩, fun g hg => ?_⟩
      rcases List.mem_append.mp hg with hg | hg
      · exact h.wire g hg
      · rw [List.mem_singleton.mp hg]
        exact ⟨(hmem seg List.mem_cons_self).doff, (hmem seg List.mem_cons_self).payload⟩

theorem Plain.reply (h : c.Plain) (seg : TCPSegment) : (c.reply seg).Plain := by
  have hfirst := h.fillWindowAndSend
  unfold TCPConnection.reply
  simp only
  split_ifs
  · have hagain : Plain { c.fillWindowAndSend.1 with
        sender := c.fillWindowAndSend.1.sender.sendEmptySegment } :=
      ⟨hfirst.sender.sendEmptySegment, hfirst.wire⟩
    exact hagain.fillWindowAndSend
  · exact hfirst

theorem Plain.takeIn (h : c.Plain) (seg : TCPSegment) : (c.takeIn seg).Plain := by
  refine ⟨?_, h.wire⟩
  unfold TCPConnection.takeIn
  simp only
  split_ifs
  · exact h.sender.ackReceived _ _
  · exact h.sender

/-- Whatever is done to an endpoint, what it sends is plain. -/
theorem Plain.step (h : c.Plain) (o : Op) : (c.step o).Plain := by
  have hstream : ∀ stream, Plain { c with sender := { c.sender with stream := stream } } :=
    fun _ => ⟨⟨h.sender.queue, h.sender.flight⟩, h.wire⟩
  cases o with
  | connect => exact h.fillWindowAndSend
  | write data =>
    rw [TCPConnection.step, TCPConnection.write]
    split_ifs
    · exact (hstream _).fillWindowAndSend
    · exact h
  | endInputStream =>
    rw [TCPConnection.step, TCPConnection.endInputStream]
    split_ifs
    · exact (hstream _).fillWindowAndSend
    · exact h
  | tick ms =>
    rw [TCPConnection.step]
    rcases c.tick_cases ms with hs | ⟨-, linger, active, -, hs⟩
    · rwa [hs]
    · have hticked : Plain { c with
          tnow := (c.tnow + ms) % 2 ^ 64, lingerAfterStreamsFinish := linger, active := active
          sender := c.sender.tick ms } := ⟨h.sender.tick ms, h.wire⟩
      rcases hs with ⟨-, hs⟩ | hs
      · rw [hs]
        exact hticked.sendRST
      · rw [hs]
        exact hticked.fillWindowAndSend
  | read len => exact h.congr rfl rfl
  | segment seg =>
    rw [TCPConnection.step]
    rcases c.segmentReceived_cases seg with
      ⟨-, hs⟩ | ⟨-, -, hs⟩ | ⟨-, -, active, received, linger, active', hs, -⟩
    · rwa [hs]
    · rw [hs]
      exact ⟨⟨h.sender.queue, h.sender.flight⟩, h.wire⟩
    · rw [hs]
      have hc : Plain { c with
          active := active, finreceived := received, lingerAfterStreamsFinish := linger } :=
        h.congr rfl rfl
      exact ((hc.takeIn seg).reply seg).congr rfl rfl

end TCPConnection

end Sponge
