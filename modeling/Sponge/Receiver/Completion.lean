import Sponge.Receiver.Ackno
import Sponge.Receiver.Monotone
import Sponge.Stream.LongStreams

/-! # When a segment completes the stream

A segment ends the inbound stream when, with its payload, all bytes up to the announced
end are held and none behind them. While the comparator orders what is stored, the room
left in the output reaches from what is assembled to the end of the window, so that the
window advertised goes past it only by a FIN that is counted too early.
-/

namespace Sponge

open Blocks

theorem ByteStream.writeAll_rem {s : ByteStream} {ws : List (List UInt8)}
    (h : ws.flatten.length ≤ s.rem) : (s.writeAll ws).rem = s.rem - ws.flatten.length := by
  induction ws generalizing s with
  | nil => simp
  | cons w ws ih =>
    rw [List.flatten_cons, List.length_append] at h ⊢
    have hw : (s.write w).1.rem = s.rem - w.length := s.write_rem_of_fits (by omega)
    rw [ByteStream.writeAll_cons, ih (by omega), hw]
    omega

namespace TCPReceiver

/-- The end that is announced once the segment has been received. -/
def endAfter (r : TCPReceiver) (seg : TCPSegment) : ℕ :=
  r.reassembler.endAfter seg.payload (r.indexOf seg) seg.header.fin

/-- With the payload, all bytes up to the announced end are held, and not the one at it. -/
def Completes (r : TCPReceiver) (seg : TCPSegment) : Prop :=
  (∀ p < r.endAfter seg, r.HoldsAfter seg p) ∧ ¬ r.HoldsAfter seg (r.endAfter seg)

/-- The segment is not dropped for want of a SYN. -/
def Live (r : TCPReceiver) (seg : TCPSegment) : Prop :=
  seg.header.syn = true ∨ r.status ≠ .listen

/-- The payload ends in the range of 64-bit positions, and the comparator orders what is kept of
it and what is stored by position. -/
def Orders (r : TCPReceiver) (seg : TCPSegment) : Prop :=
  r.indexOf seg + seg.payload.length < 2 ^ 64 ∧
    r.reassembler.KeysOrdered seg.payload (r.indexOf seg)

/-- The stream has ended, or it does with the segment: the table is in order, and all bytes up to
the announced end are held or carried. -/
def EndsWith (r : TCPReceiver) (seg : TCPSegment) : Prop :=
  r.streamOut.inputEnded = true ∨
    (r.Live seg ∧ r.reassembler.SoundTo (2 ^ 64 - 1) ∧ r.Orders seg ∧ r.Completes seg)

instance (r : TCPReceiver) (seg : TCPSegment) : Decidable (r.Live seg) :=
  inferInstanceAs (Decidable (_ ∨ _))

variable {r : TCPReceiver} {seg : TCPSegment} {hi : ℕ}

theorem Orders.of_small (ht : ∀ k ∈ r.reassembler.t, k.1.1 < k.1.2 ∧ k.1.2 < 2 ^ 31)
    (hlen : r.indexOf seg + seg.payload.length < 2 ^ 31) : r.Orders seg := by
  refine ⟨by omega, StreamReassembler.keysOrdered_of_round (j := 0) (fun k hk => ?_) ?_ ?_⟩
  · have := ht k hk
    omega
  · omega
  · omega

/-- What an orderly segment leaves: a table in order, with the bytes held that it carries, and a
stream that has ended if it completes it. -/
theorem segmentReceived_kept (h : r.reassembler.SoundTo hi) (hhi : hi < 2 ^ 64)
    (hlive : r.Live seg) (ho : r.Orders seg)
    (htop : min (r.indexOf seg + seg.payload.length) r.reassembler.windowEnd ≤ hi) :
    (r.segmentReceived seg).reassembler.SoundTo hi ∧
      (∀ p, (r.segmentReceived seg).reassembler.Holds p ↔ r.HoldsAfter seg p) ∧
      ((r.segmentReceived seg).streamOut.inputEnded = true ↔
        r.streamOut.inputEnded = true ∨ r.Completes seg) := by
  obtain ⟨hsound, ws, hkept⟩ :=
    h.pushSubstring_of_keysOrdered seg.header.fin hhi ho.1 htop ho.2
  have houtput := congrArg ByteStream.eof2 hkept.output
  have hends : (r.segmentReceived seg).reassembler.unasb = r.endAfter seg ↔ r.Completes seg := by
    rw [segmentReceived_reassembler hlive, hsound.unasb_eq_iff]
    simp only [hkept.holds_iff]
    rfl
  rw [segmentReceived_reassembler hlive] at hends
  rw [streamOut, segmentReceived_reassembler hlive, ← hends]
  refine ⟨hsound, hkept.holds_iff, ?_⟩
  rw [ByteStream.inputEnded, houtput, ByteStream.inputEnded, streamOut, endAfter]
  split_ifs with heq
  · simp [heq]
  · simp [heq, ByteStream.writeAll_eof2]

theorem appended_segmentReceived (r : TCPReceiver) (seg : TCPSegment) :
    r.streamOut.Appended (r.segmentReceived seg).streamOut := by
  by_cases hlive : seg.header.syn = true ∨ r.status ≠ .listen
  · rw [streamOut, streamOut, segmentReceived_reassembler hlive]
    exact StreamReassembler.appended_pushSubstring _ _ _ _
  · simp only [not_or, Bool.not_eq_true, not_not] at hlive
    rw [segmentReceived_listen hlive.1 hlive.2]
    exact .refl _

theorem EndsWith.inputEnded (h : r.EndsWith seg) :
    (r.segmentReceived seg).streamOut.inputEnded = true := by
  rcases h with hended | ⟨hlive, hsound, ho, hcompletes⟩
  · exact (r.appended_segmentReceived seg).ended hended
  · have htop : min (r.indexOf seg + seg.payload.length) r.reassembler.windowEnd ≤ 2 ^ 64 - 1 :=
      (min_le_left _ _).trans (Nat.le_pred_of_lt ho.1)
    exact (segmentReceived_kept hsound (by norm_num) hlive ho htop).2.2.mpr (Or.inr hcompletes)

/-- The receiver's counters agree: nothing is stored behind the window, and the room of the output
reaches from what is assembled to the end of the window. -/
structure Windowed (r : TCPReceiver) : Prop where
  sound : r.reassembler.SoundTo r.reassembler.windowEnd
  room : r.reassembler.unasb + r.reassembler.output.rem = r.reassembler.windowEnd
  cap : r.reassembler.output.cap = r.capacity
  capacity : r.reassembler.capacity = r.capacity
  small : r.reassembler.output.totRead + r.capacity < 2 ^ 64

theorem Windowed.new {capacity : ℕ} (h : capacity < 2 ^ 64) : Windowed (new capacity) where
  sound := .new
  room := by
    simp only [TCPReceiver.new, StreamReassembler.new, ByteStream.new, StreamReassembler.windowEnd]
    omega
  cap := rfl
  capacity := rfl
  small := by simpa [TCPReceiver.new, StreamReassembler.new, ByteStream.new] using h

theorem Windowed.windowEnd_eq (h : Windowed r) :
    r.reassembler.windowEnd = r.reassembler.output.totRead + r.capacity := by
  rw [StreamReassembler.windowEnd, h.capacity, Nat.mod_eq_of_lt h.small]

theorem Windowed.windowSize_eq (h : Windowed r) : r.windowSize = r.reassembler.output.rem := by
  have hend := h.windowEnd_eq
  have hroom := h.room
  have hsmall := h.small
  rw [windowSize, ByteStream.bufferSize, h.cap, sub64, sub64]
  omega

theorem windowEnd_segmentReceived (r : TCPReceiver) (seg : TCPSegment) :
    (r.segmentReceived seg).reassembler.output.totRead = r.reassembler.output.totRead ∧
      (r.segmentReceived seg).reassembler.capacity = r.reassembler.capacity ∧
      (r.segmentReceived seg).reassembler.windowEnd = r.reassembler.windowEnd := by
  have hsame : (r.segmentReceived seg).reassembler.output.totRead =
      r.reassembler.output.totRead ∧
      (r.segmentReceived seg).reassembler.capacity = r.reassembler.capacity := by
    by_cases hlive : seg.header.syn = true ∨ r.status ≠ .listen
    · rw [segmentReceived_reassembler hlive]
      exact ⟨StreamReassembler.totRead_pushSubstring ..,
        StreamReassembler.capacity_pushSubstring ..⟩
    · simp only [not_or, Bool.not_eq_true, not_not] at hlive
      rw [segmentReceived_listen hlive.1 hlive.2]
      exact ⟨rfl, rfl⟩
  refine ⟨hsame.1, hsame.2, ?_⟩
  rw [StreamReassembler.windowEnd, hsame.1, hsame.2, StreamReassembler.windowEnd]

theorem capacity_segmentReceived (r : TCPReceiver) (seg : TCPSegment) :
    (r.segmentReceived seg).capacity = r.capacity := by
  by_cases hlive : seg.header.syn = true ∨ r.status ≠ .listen
  · rw [segmentReceived_eq hlive]
  · simp only [not_or, Bool.not_eq_true, not_not] at hlive
    rw [segmentReceived_listen hlive.1 hlive.2]

theorem Windowed.congr {r' : TCPReceiver} (h : Windowed r) (hr : r'.reassembler = r.reassembler)
    (hc : r'.capacity = r.capacity) : Windowed r' where
  sound := by rw [hr]; exact h.sound
  room := by rw [hr]; exact h.room
  cap := by rw [hr, hc]; exact h.cap
  capacity := by rw [hr, hc]; exact h.capacity
  small := by rw [hr, hc]; exact h.small

theorem Windowed.setError (h : Windowed r) : Windowed r.setError where
  sound := ⟨h.sound.chain, h.sound.gap, h.sound.top, h.sound.size, h.sound.unasb_le⟩
  room := h.room
  cap := h.cap
  capacity := h.capacity
  small := h.small

theorem Windowed.read (h : Windowed r) {len : ℕ}
    (hlen : r.reassembler.output.totRead + len + r.capacity < 2 ^ 64) :
    Windowed (r.read len).1 ∧
      (r.read len).1.reassembler.windowEnd = r.reassembler.windowEnd + len := by
  have hroom := h.room
  have hend := h.windowEnd_eq
  have hend' : (r.read len).1.reassembler.windowEnd = r.reassembler.windowEnd + len := by
    rw [hend, StreamReassembler.windowEnd]
    simp only [TCPReceiver.read, StreamReassembler.read, ByteStream.read, h.capacity]
    omega
  refine ⟨⟨⟨h.sound.chain, h.sound.gap, fun c hc => ?_, h.sound.size, ?_⟩, ?_, h.cap,
    h.capacity, ?_⟩, hend'⟩
  · rw [hend']
    exact (h.sound.top c hc).trans (Nat.le_add_right _ _)
  · rw [hend']
    exact h.sound.unasb_le.trans (Nat.le_add_right _ _)
  · rw [hend']
    simp only [TCPReceiver.read, StreamReassembler.read, ByteStream.read]
    omega
  · simp only [TCPReceiver.read, StreamReassembler.read, ByteStream.read]
    omega

theorem Windowed.segment (h : Windowed r) (hlive : r.Live seg) (ho : r.Orders seg) :
    Windowed (r.segmentReceived seg) := by
  obtain ⟨htot, hcapacity, hend⟩ := r.windowEnd_segmentReceived seg
  have hlt : r.reassembler.windowEnd < 2 ^ 64 := h.windowEnd_eq ▸ h.small
  obtain ⟨hsound, ws, hkept⟩ := h.sound.pushSubstring_of_keysOrdered seg.header.fin hlt ho.1
    (min_le_right _ _) ho.2
  have hsame := r.capacity_segmentReceived seg
  have hle := hsound.unasb_le
  have hunasb := hkept.unasb
  have hroom := h.room
  have hrem : (r.segmentReceived seg).reassembler.output.rem =
      r.reassembler.output.rem - ws.flatten.length := by
    rw [segmentReceived_reassembler hlive, hkept.output,
      ← ByteStream.writeAll_rem (s := r.reassembler.output) (by omega)]
    split_ifs <;> rfl
  refine ⟨?_, ?_, ?_, by rw [hcapacity, hsame, h.capacity], by rw [htot, hsame]; exact h.small⟩
  · rw [hend, segmentReceived_reassembler hlive]
    exact hsound
  · rw [hend, hrem, segmentReceived_reassembler hlive]
    omega
  · rw [hsame, ← h.cap, segmentReceived_reassembler hlive, hkept.output]
    split_ifs <;> simp [ByteStream.writeAll_cap]

/-- Counted from what is acknowledged, the window ends no later than the room for bytes does,
unless the stream has ended. -/
def Reaches (r : TCPReceiver) : Prop :=
  r.streamOut.inputEnded = true ∨
    r.ackedTo + min r.windowSize 65535 ≤ r.reassembler.windowEnd + 1

/-- The window goes past the room exactly by a FIN that is counted before the stream has ended,
and only when it is no larger than a header can say. -/
theorem Windowed.reaches_iff (h : Windowed r) : Reaches r ↔
    (r.FinCounted → r.streamOut.inputEnded = true ∨ 65535 < r.windowSize) := by
  have hroom := h.room
  unfold Reaches ackedTo
  rw [h.windowSize_eq, StreamReassembler.firstUnasb]
  by_cases hended : r.streamOut.inputEnded = true
  · simp [hended]
  · by_cases hfin : r.FinCounted
    · simp only [hended, hfin, if_true, forall_const, false_or, Bool.false_eq_true]
      omega
    · simp only [hended, hfin, if_false, false_implies, iff_true]
      omega

/-- If a FIN has been seen once the segment is in, then the stream is complete, a byte waits behind
a gap, or one is missing that has more than 65535 bytes of the window behind it. -/
def CountsFin (r : TCPReceiver) (seg : TCPSegment) : Prop :=
  r.statusAfter seg = .finRecv →
    r.streamOut.inputEnded = true ∨ r.Completes seg ∨
      (∃ q, r.HoldsAfter seg q ∧ ∃ p < q, ¬ r.HoldsAfter seg p) ∨
      ∃ p, ¬ r.HoldsAfter seg p ∧ p + 65535 < r.reassembler.windowEnd

theorem Windowed.reaches_segment_iff (h : Windowed r) (hlive : r.Live seg) (ho : r.Orders seg) :
    Reaches (r.segmentReceived seg) ↔ r.CountsFin seg := by
  have h' := h.segment hlive ho
  have hlt : r.reassembler.windowEnd < 2 ^ 64 := h.windowEnd_eq ▸ h.small
  obtain ⟨hsound, hholds, hended⟩ :=
    segmentReceived_kept h.sound hlt hlive ho (min_le_right _ _)
  have hstatus : (r.segmentReceived seg).status = r.statusAfter seg := by
    rw [segmentReceived_eq hlive]
  have hwaits := hsound.szUnasb_ne_zero_iff
  have hroom := h'.room
  have hend := (r.windowEnd_segmentReceived seg).2.2
  have hgap : 65535 < (r.segmentReceived seg).windowSize ↔
      ∃ p, ¬ r.HoldsAfter seg p ∧ p + 65535 < r.reassembler.windowEnd := by
    rw [h'.windowSize_eq]
    simp only [← hholds]
    constructor
    · intro hlarge
      exact ⟨_, hsound.not_holds_unasb, by omega⟩
    · rintro ⟨p, hp, hlarge⟩
      have hle : (r.segmentReceived seg).reassembler.unasb ≤ p :=
        not_lt.mp fun hlt => hp (Or.inl hlt)
      omega
  simp only [hholds] at hwaits
  rw [h'.reaches_iff, hended, hgap, FinCounted, hstatus, CountsFin, ← hwaits, unassembledBytes,
    StreamReassembler.unassembledBytes]
  by_cases hz : (r.segmentReceived seg).reassembler.szUnasb = 0
  · simp only [hz, and_true, ne_eq, not_true, false_or, or_assoc]
  · simp only [hz, and_false, false_implies, ne_eq, not_false_iff, true_or, or_true, implies_true]

end TCPReceiver

end Sponge
