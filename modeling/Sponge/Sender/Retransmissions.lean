import Sponge.Sender.Tiling

/-! # Counting retransmissions

Sending new data resets the counter of the sender, and an acknowledgment does not. The
counter still counts the segments sent again as long as each reset meets a zero.
-/

namespace Sponge

open Layout Runs

namespace TCPSender

variable {s : TCPSender} {seg : TCPSegment} {stream : ByteStream} {n k ms : ℕ}

/-- Filling the window sends data or a FIN. -/
def CanSend (s : TCPSender) : Prop :=
  s.finSent = false ∧ s.window ≠ -1 ∧ s.nextSeqno < s.limit ∧
    (s.stream.bufferSize ≠ 0 ∨ s.stream.eof = true)

instance (s : TCPSender) : Decidable s.CanSend := inferInstanceAs (Decidable (_ ∧ _ ∧ _ ∧ _))

theorem crtx_fillLoop_zero (h : s.crtx = 0) : (s.fillLoop n).crtx = 0 := by
  induction n generalizing s with
  | zero => exact h
  | succ n ih =>
    simp only [fillLoop]
    split_ifs
    · rfl
    · exact h
    · rfl
    · exact ih rfl
    · exact h

theorem crtx_fillLoop : (s.fillLoop (n + 1)).crtx =
    if s.nextSeqno < s.limit ∧ (s.stream.bufferSize ≠ 0 ∨ s.stream.eof = true) then 0
    else s.crtx := by
  rw [fillLoop]
  by_cases hroom : s.nextSeqno < s.limit
  · have hlt := limit_lt (s := s)
    have hr : sub64 s.limit s.nextSeqno = s.limit - s.nextSeqno := sub64_of_le hroom.le hlt
    have hmax : maxPayloadSize = 1000 := rfl
    rw [if_pos hroom]
    simp only [hroom, true_and]
    by_cases hzero : min maxPayloadSize (min s.stream.bufferSize (sub64 s.limit s.nextSeqno)) = 0
    · have hbuf : s.stream.bufferSize = 0 := by omega
      rw [if_pos hzero]
      by_cases heof : s.stream.eof = true
      · rw [if_pos ⟨heof, by omega⟩, if_pos (Or.inr heof)]
        rfl
      · rw [if_neg fun h => heof h.1, if_neg fun h => h.elim (absurd hbuf) heof]
    · have hbuf : s.stream.bufferSize ≠ 0 := by omega
      rw [if_neg hzero, if_pos (Or.inl hbuf)]
      split_ifs
      · rfl
      · exact crtx_fillLoop_zero rfl
  · rw [if_neg hroom, if_neg fun h => hroom h.1]

theorem crtx_fillWindow (s : TCPSender) :
    s.fillWindow.crtx = if s.CanSend then 0 else s.crtx := by
  unfold fillWindow
  by_cases hfin : s.finSent = true
  · rw [if_pos hfin, if_neg (c := s.CanSend) fun h => by simp [h.1] at hfin]
  rw [if_neg hfin]
  by_cases hw : s.window = -1
  · rw [if_pos hw, if_neg (c := s.CanSend) fun h => h.2.1 hw]
    simp only
    split_ifs <;> rfl
  · rw [if_neg hw, crtx_fillLoop]
    have hfin' : s.finSent = false := by simpa using hfin
    simp only [CanSend, hfin', hw, ne_eq, not_false_eq_true, true_and]

theorem crtx_ackReceived (s : TCPSender) (ackno : WrappingInt32) (windowSize : UInt16) :
    (s.ackReceived ackno windowSize).crtx = s.crtx := by
  rcases s.ackReceived_cases ackno windowSize with ⟨hs, _⟩ | hs
  · rw [hs]
  · rw [hs.frame]

theorem crtx_tick (s : TCPSender) (ms : ℕ) :
    ((s.tick ms).segmentsOut = s.segmentsOut ∧ (s.tick ms).crtx = s.crtx) ∨
      ((∃ c ∈ s.outstanding, c.2.1 ≤ s.clock ms) ∧
        (s.tick ms).segmentsOut.length = s.segmentsOut.length + 1 ∧
        (s.tick ms).crtx = s.crtx + 1) := by
  rw [tick_eq]
  cases hsome : (s.ticking ms).oldest (s.iters ms) with
  | none => exact Or.inl ⟨rfl, rfl⟩
  | some d =>
    have hd := ((oldest_spec (s := s.ticking ms) (s.iters ms)).1 d hsome).1
    refine Or.inr ⟨⟨d.1, mem_iters.mp ⟨d.2, hd⟩⟩, ?_, rfl⟩
    exact List.length_append

/-- No segment of the sender has the flag RST. -/
structure NoRst (s : TCPSender) : Prop where
  queue : ∀ g ∈ s.segmentsOut, g.header.rst = false
  flight : ∀ g ∈ s.inFlight, g.header.rst = false

theorem NoRst.push (h : s.NoRst) (seg : TCPSegment) (hseg : seg.header.rst = false) :
    (s.push seg).NoRst where
  queue g hg := by
    rcases List.mem_append.mp hg with hg | hg
    · exact h.queue g hg
    · rwa [List.mem_singleton.mp hg]
  flight g hg := by
    obtain ⟨c, hc, rfl⟩ := List.mem_map.mp hg
    rcases List.mem_cons.mp (perm_multimapInsert.mem_iff.mp hc) with rfl | hc
    · exact hseg
    · exact h.flight _ (List.mem_map_of_mem hc)

theorem NoRst.emit (h : s.NoRst) (hseg : seg.header.rst = false) :
    (s.emit stream seg k).NoRst :=
  ⟨(h.push seg hseg).queue, (h.push seg hseg).flight⟩

theorem NoRst.fillLoop (h : s.NoRst) : (s.fillLoop n).NoRst := by
  induction n generalizing s with
  | zero => exact h
  | succ n ih =>
    simp only [TCPSender.fillLoop]
    split_ifs
    · exact h.emit rfl
    · exact h
    · exact h.emit rfl
    · exact ih (h.emit rfl)
    · exact h

theorem NoRst.fillWindow (h : s.NoRst) : s.fillWindow.NoRst := by
  have hopen : NoRst { s with window := 1 } := ⟨h.queue, h.flight⟩
  have hsyn := hopen.push { header := { seqno := s.isn, syn := true, fin := s.stream.eof } } rfl
  unfold TCPSender.fillWindow
  simp only
  split_ifs
  · exact h
  · exact ⟨hsyn.queue, hsyn.flight⟩
  · exact ⟨hsyn.queue, hsyn.flight⟩
  · exact h.fillLoop

theorem NoRst.step (h : s.NoRst) (o : Op) : (s.step o).NoRst := by
  cases o with
  | write _ | endInput => exact ⟨h.queue, h.flight⟩
  | fillWindow => exact h.fillWindow
  | ackReceived ackno windowSize =>
    rcases s.ackReceived_cases ackno windowSize with ⟨hs, _⟩ | hs
    · rwa [TCPSender.step, hs]
    · have hqueue : (s.ackReceived ackno windowSize).segmentsOut = s.segmentsOut := by rw [hs.frame]
      refine ⟨fun g hg => h.queue g (hqueue ▸ hg), fun g hg => ?_⟩
      rw [TCPSender.step, hs.inFlight] at hg
      exact h.flight g (List.mem_of_mem_filter hg)
  | tick ms =>
    obtain ⟨again, hs⟩ := s.ticked_tick ms
    refine ⟨fun g hg => ?_, fun g hg => h.flight g (hs.inFlight.mem_iff.mp hg)⟩
    rw [TCPSender.step, hs.frame] at hg
    rcases List.mem_append.mp hg with hg | hg
    · exact h.queue g hg
    · exact h.flight g (hs.resent g (by simpa using hg))
  | sendEmptySegment =>
    refine ⟨fun g hg => ?_, h.flight⟩
    rcases List.mem_append.mp hg with hg | hg
    · exact h.queue g hg
    · rw [List.mem_singleton.mp hg]
  | pop => exact ⟨fun g hg => h.queue g (List.mem_of_mem_tail hg), h.flight⟩

end TCPSender

open TCPSender

/-- A sender with the number of segments sent again by ticks since the last acknowledgment of new
data. -/
structure RetxTrace where
  sender : TCPSender
  retx : ℕ := 0
  deriving DecidableEq, Repr

namespace RetxTrace

def new (capacity : UInt64) (retxTimeout : UInt16) (isn : WrappingInt32) : RetxTrace :=
  { sender := .new capacity retxTimeout isn }

def step (t : RetxTrace) (o : Op) : RetxTrace :=
  let s := t.sender.step o
  { sender := s
    retx :=
      match o with
      | .tick _ => t.retx + (s.segmentsOut.length - t.sender.segmentsOut.length)
      | .ackReceived .. => if t.sender.acked < s.acked then 0 else t.retx
      | _ => t.retx }

/-- An operation that resets one of the two counts meets a state in which nothing has been sent
again, and no tick overflows the counter. -/
def Undisturbed (t : RetxTrace) : Op → Prop
  | .fillWindow => t.sender.CanSend → t.retx = 0
  | .sendEmptySegment => t.retx = 0
  | .ackReceived ackno _ =>
    t.sender.acked < unwrap ackno t.sender.isn t.sender.acked ∧
      unwrap ackno t.sender.isn t.sender.acked ≤ t.sender.nextSeqno → t.retx = 0
  | .tick ms => (∃ c ∈ t.sender.outstanding, c.2.1 ≤ t.sender.clock ms) → t.retx + 1 < 2 ^ 32
  | _ => True

instance (t : RetxTrace) : ∀ o, Decidable (t.Undisturbed o)
  | .fillWindow | .ackReceived .. | .tick _ => inferInstanceAs (Decidable (_ → _))
  | .sendEmptySegment => inferInstanceAs (Decidable (_ = _))
  | .write _ | .endInput | .pop => instDecidableTrue

/-- The counter of the sender is the number of segments sent again. -/
structure Counts (t : RetxTrace) : Prop where
  crtx : t.sender.consecutiveRetransmissions.toNat = t.retx
  noRst : t.sender.NoRst

variable {t : RetxTrace} {o : Op}

theorem Counts.new {capacity : UInt64} {retxTimeout : UInt16} {isn : WrappingInt32} :
    (new capacity retxTimeout isn).Counts :=
  ⟨rfl, by simp [RetxTrace.new, TCPSender.new], by simp [RetxTrace.new, TCPSender.new, inFlight]⟩

theorem Counts.step (h : t.Counts) (ho : t.Undisturbed o) : (t.step o).Counts := by
  refine ⟨?_, h.noRst.step o⟩
  have hcrtx : t.sender.crtx.toNat = t.retx := h.crtx
  change (t.sender.step o).crtx.toNat = _
  cases o with
  | write _ | endInput | pop => exact hcrtx
  | fillWindow =>
    rw [TCPSender.step, crtx_fillWindow]
    split_ifs with hsend
    · exact (ho hsend).symm
    · exact hcrtx
  | sendEmptySegment =>
    have hzero : t.retx = 0 := ho
    exact hzero.symm
  | ackReceived ackno windowSize =>
    rw [TCPSender.step, crtx_ackReceived, hcrtx, RetxTrace.step, TCPSender.step]
    simp only
    split_ifs with hnew
    · rcases t.sender.ackReceived_cases ackno windowSize with ⟨hs, _⟩ | hs
      · rw [hs] at hnew
        exact absurd hnew (Nat.lt_irrefl _)
      · rw [hs.frame] at hnew
        exact ho ⟨hnew, hs.le⟩
    · rfl
  | tick ms =>
    rw [TCPSender.step, RetxTrace.step, TCPSender.step]
    rcases t.sender.crtx_tick ms with ⟨hout, hsame⟩ | ⟨hexp, hout, hcount⟩
    · simp only [hsame, hout, Nat.sub_self, Nat.add_zero]
      exact hcrtx
    · have hlt : t.retx + 1 < 2 ^ 32 := ho hexp
      simp only [hcount, hout, Nat.add_sub_cancel_left]
      rw [UInt32.toNat_add, hcrtx]
      exact Nat.mod_eq_of_lt hlt

end RetxTrace

end Sponge
