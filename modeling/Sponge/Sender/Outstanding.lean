import Sponge.Sender.Flight

/-! # What stays outstanding

The outstanding segments are the last ones of the journal, each once, from the first one
on that is not acknowledged whole. A tick sends one of these again.
-/

namespace Sponge

open Layout Runs

namespace TCPSender

/-- Each segment of the journal that ends past the acknowledged position is outstanding once. -/
structure Outstanding (journal : List TCPSegment) (s : TCPSender) : Prop
    extends Flight journal s where
  once : s.inFlight.Perm ((past len s.acked journal).map Prod.snd)

variable {s s' : TCPSender} {journal segs : List TCPSegment} {a : ℕ} {windowSize : UInt16}

theorem Outstanding.new {capacity : UInt64} {retxTimeout : UInt16} {isn : WrappingInt32} :
    Outstanding [] (new capacity retxTimeout isn) := ⟨.new, .nil⟩

theorem Outstanding.filled (h : Outstanding journal s) (hf : Filled s s' segs) :
    Outstanding (journal ++ segs) s' := by
  refine ⟨h.toFlight.filled hf, ?_⟩
  obtain ⟨w, hw, _⟩ := s.opened_eq
  have hacked : s'.acked = s.acked := by
    have hacked := congrArg TCPSender.acked hf.base
    simpa only [hw, base] using hacked
  have hle : s.acked ≤ extent len journal := h.nextSeqno ▸ h.acked_le
  rw [hacked, past_append hle hf.len_pos, List.map_append, map_snd_place]
  exact hf.inFlight_perm.trans (h.once.append_right segs)

theorem Outstanding.acked (h : Outstanding journal s) (hsmall : s.nextSeqno + 2 ^ 32 < 2 ^ 64)
    (hs : Acked s s' a windowSize) (hl : Laid journal s') : Outstanding journal s' := by
  refine ⟨h.toFlight.acked hsmall hs hl, ?_⟩
  have hacked : s'.acked = a := by rw [hs.frame]
  have hkept : ((past len s.acked journal).filter fun c => !isAcked s.isn a c.2) =
      past len a journal := by
    rw [← past_past hs.ge]
    apply List.filter_congr
    intro c hc
    obtain ⟨hat, hlt⟩ := mem_past.mp hc
    have hiff := h.isAcked_iff hsmall hat hlt hs.ge hs.le
    by_cases hend : c.1 + len c.2 ≤ a
    · simp [hiff.mpr hend, hend]
    · simp [Bool.eq_false_iff.mpr (mt hiff.mp hend), Nat.lt_of_not_le hend]
  rw [hs.inFlight, hacked, ← hkept]
  have hperm := h.once.filter fun seg => !isAcked s.isn a seg
  rwa [List.filter_map] at hperm

theorem Outstanding.ackReceived (h : Outstanding journal s)
    (hsmall : s.nextSeqno + 2 ^ 32 < 2 ^ 64) (ackno : WrappingInt32) (windowSize : UInt16) :
    Outstanding journal (s.ackReceived ackno windowSize) := by
  rcases s.ackReceived_cases ackno windowSize with ⟨hs, _⟩ | hs
  · rwa [hs]
  · exact h.acked hsmall hs (h.toLaid.ackReceived ackno windowSize)

theorem Outstanding.tick (h : Outstanding journal s) (ms : ℕ) :
    Outstanding journal (s.tick ms) := by
  refine ⟨h.toFlight.tick ms, ?_⟩
  obtain ⟨again, hs⟩ := s.ticked_tick ms
  have hacked : (s.tick ms).acked = s.acked := by rw [hs.frame]
  rw [hacked]
  exact hs.inFlight.trans h.once

theorem Outstanding.other (h : Outstanding journal s) {stream : ByteStream}
    {queue : List TCPSegment} {crtx : UInt32} (hc : stream.Consistent) :
    Outstanding journal { s with stream := stream, segmentsOut := queue, crtx := crtx } :=
  ⟨h.toFlight.other _ _ hc, h.once⟩

theorem Outstanding.bytesInFlight (h : Outstanding journal s) :
    s.bytesInFlight = extent len ((past len s.acked journal).map Prod.snd) :=
  (h.once.map len).sum_eq

end TCPSender

namespace SenderTrace

open TCPSender

/-- The segments that are not acknowledged whole, with their positions. -/
def unacked (t : SenderTrace) : List (ℕ × TCPSegment) := past len t.sender.acked t.journal

/-- Nothing unacknowledged is dropped, and nothing acknowledged is kept. -/
structure Exact (t : SenderTrace) : Prop where
  segments : t.sender.inFlight.Perm (t.unacked.map Prod.snd)
  acked_le : t.sender.acked ≤ t.sender.nextSeqnoAbsolute
  none : t.unacked = [] → t.sender.bytesInFlight = 0
  lowest : ∀ c ∈ t.unacked, (∀ d ∈ t.unacked, c.1 ≤ d.1) →
    t.sender.bytesInFlight = t.sender.nextSeqnoAbsolute - c.1

/-- Positions are below 2^63. -/
def Small (t : SenderTrace) : Prop := t.sender.nextSeqnoAbsolute < 2 ^ 63

instance (t : SenderTrace) : Decidable t.Small := inferInstanceAs (Decidable (_ < _))

variable {t : SenderTrace} {o : Op} {ops : List Op} {capacity : UInt64} {retxTimeout : UInt16}
  {isn : WrappingInt32}

theorem outstanding_step (h : Outstanding t.journal t.sender)
    (hsmall : t.sender.nextSeqno + 2 ^ 32 < 2 ^ 64) :
    Outstanding (t.step o).journal (t.step o).sender := by
  cases o with
  | write data => exact h.other h.consistent.write
  | endInput => exact h.other h.consistent.endInput
  | fillWindow =>
    obtain ⟨segs, hf⟩ := filled_fillWindow h.consistent h.fresh
    rw [SenderTrace.step, newlyQueued_eq hf]
    exact h.filled hf
  | ackReceived ackno windowSize => exact h.ackReceived hsmall ackno windowSize
  | tick ms => exact h.tick ms
  | sendEmptySegment => exact h.other h.consistent
  | pop => exact h.other h.consistent

theorem outstanding_run
    (h : Admitted step (fun t _ => t.Small) (new capacity retxTimeout isn) ops) :
    let t := run step (new capacity retxTimeout isn) ops
    Outstanding t.journal t.sender := by
  refine h.invariant (I := fun t => Outstanding t.journal t.sender) (fun t o ht ho => ?_) .new
  have hsmall : t.sender.nextSeqno < 2 ^ 63 := ho
  exact outstanding_step ht (by omega)

theorem exact_of_outstanding (h : Outstanding t.journal t.sender) : t.Exact where
  segments := h.once
  acked_le := h.acked_le
  none hnil := by
    have hpast : past len t.sender.acked t.journal = [] := hnil
    rw [h.bytesInFlight, hpast]
    rfl
  lowest c hc hlow := by
    have hsum := sum_past hc hlow
    have hnext := h.nextSeqno
    rw [h.bytesInFlight, nextSeqnoAbsolute]
    omega

/-- After every operation, the segments that are outstanding are exactly those queued by filling
the window that are not acknowledged whole, and a tick sends only such a segment again. -/
theorem outstanding_exact
    (h : Admitted step (fun t _ => t.Small) (new capacity retxTimeout isn) ops) :
    (run step (new capacity retxTimeout isn) ops).Exact ∧
      ∀ ops' ms, ops' ++ [.tick ms] <+: ops →
        let t := run step (new capacity retxTimeout isn) ops'
        ∀ seg ∈ (t.sender.tick ms).segmentsOut.drop t.sender.segmentsOut.length,
          seg ∈ t.unacked.map Prod.snd := by
  refine ⟨exact_of_outstanding (outstanding_run h), ?_⟩
  rintro ops' ms ⟨rest, rfl⟩ t seg hseg
  rw [List.append_assoc] at h
  have ht : Outstanding t.journal t.sender := outstanding_run (admitted_append.mp h).1
  obtain ⟨again, hs⟩ := t.sender.ticked_tick ms
  rw [hs.frame, List.drop_left] at hseg
  exact ht.once.mem_iff.mp (hs.resent seg (by simpa using hseg))

/-- A partial acknowledgment keeps the segment that it cuts, and a tick sends it again. -/
theorem outstanding_exact_partial_ack :
    Exact (run step (new 8 1000 ⟨4294967290⟩)
      [.fillWindow, .ackReceived ⟨4294967291⟩ 6, .write [1, 2, 3], .fillWindow, .write [4, 5],
        .endInput, .fillWindow, .ackReceived ⟨4294967293⟩ 6, .tick 1000, .pop]) :=
  (outstanding_exact (by decide)).1

end SenderTrace

end Sponge
