import Sponge.Sender.Tiling

/-! # Segments in flight

What is outstanding is exactly what was sent and is not acknowledged whole. The
numbers in flight stay close together, so unwrapping a segment's number near the
acknowledged position always gives its position back.
-/

namespace Sponge

open Layout

namespace TCPSender

/-- The outstanding segments are those of the journal that end past the acknowledged position. -/
structure Flight (journal : List TCPSegment) (s : TCPSender) : Prop extends Laid journal s where
  acked_le : s.acked ≤ s.nextSeqno
  close : s.nextSeqno ≤ s.acked + 65537
  window_le : s.window ≤ 65535
  window_ge : s.window ≠ -1 → 1 ≤ s.window
  covered : ∀ p g, At len journal p g → s.acked < p + len g → g ∈ s.inFlight
  placed : ∀ g ∈ s.inFlight, ∃ p, At len journal p g ∧ s.acked < p + len g

variable {s s' : TCPSender} {journal segs : List TCPSegment} {g : TCPSegment} {p a : ℕ}
  {ackno : WrappingInt32} {windowSize : UInt16}

theorem Flight.new {capacity : UInt64} {retxTimeout : UInt16} {isn : WrappingInt32} :
    Flight [] (new capacity retxTimeout isn) where
  toLaid := .new
  acked_le := le_rfl
  close := by simp [TCPSender.new]
  window_le := by simp [TCPSender.new]
  window_ge h := absurd rfl h
  covered p g h := absurd h not_at_nil
  placed g h := by simp [TCPSender.new, inFlight] at h

theorem Laid.len_le (h : Laid journal s) (hg : g ∈ journal) : len g ≤ 1002 := by
  have := h.payload g hg
  have hmax : maxPayloadSize = 1000 := rfl
  simp only [len, TCPSegment.lengthInSequenceSpace]
  split_ifs <;> omega

theorem Flight.isAcked_iff (h : Flight journal s) (hsmall : s.nextSeqno + 2 ^ 32 < 2 ^ 64)
    (hp : At len journal p g) (hlt : s.acked < p + len g) (ha : s.acked ≤ a)
    (ha' : a ≤ s.nextSeqno) : isAcked s.isn a g = true ↔ p + len g ≤ a := by
  have hle := hp.add_le
  have hlen := h.len_le hp.mem
  have hnext := h.nextSeqno
  have hclose := h.close
  rw [isAcked, h.seqno p g hp,
    unwrap_wrap s.isn (by omega) (by omega) (by omega) (Or.inl (by omega)), decide_eq_true_eq]
  change (p + len g) % 2 ^ 64 ≤ a ↔ _
  rw [Nat.mod_eq_of_lt (by omega)]

theorem Flight.filled (h : Flight journal s) (hf : Filled s s' segs) :
    Flight (journal ++ segs) s' := by
  obtain ⟨w, hw, hne⟩ := s.opened_eq
  have hopened : 1 ≤ w ∧ w ≤ 65535 := by
    by_cases hclosed : s.window = -1
    · have : s.opened = { s with window := 1 } := if_pos hclosed
      have hw' := congrArg TCPSender.window (hw.symm.trans this)
      simp only at hw'
      omega
    · have hw' := congrArg TCPSender.window ((opened_of_ne hclosed).symm.trans hw)
      have := h.window_ge hclosed
      have := h.window_le
      simp only at hw'
      omega
  have hwindow := congrArg TCPSender.window hf.base
  have hacked := congrArg TCPSender.acked hf.base
  have hnext := hf.nextSeqno
  simp only [hw, base] at hwindow hacked hnext
  have hmem : ∀ g, g ∈ s'.inFlight ↔ g ∈ s.inFlight ∨ g ∈ segs := fun g => by
    rw [hf.inFlight_perm.mem_iff, List.mem_append]
  have hlimit : s'.limit ≤ s.acked + 65535 := by
    rw [limit, hacked, hwindow]
    omega
  have hle := h.acked_le
  refine
    { toLaid := h.toLaid.filled hf
      acked_le := by omega
      close := by
        have := hf.bound
        have := h.close
        omega
      window_le := by omega
      window_ge := fun _ => by omega
      covered := fun p g hg hlt => ?_
      placed := fun g hg => ?_ }
  · rw [hmem]
    rcases at_append.mp hg with hg | ⟨q, hq, rfl⟩
    · exact Or.inl (h.covered p g hg (by omega))
    · exact Or.inr hq.mem
  · rcases (hmem g).mp hg with hg | hg
    · obtain ⟨p, hp, hlt⟩ := h.placed g hg
      exact ⟨p, hp.mono (List.prefix_append _ _), by omega⟩
    · obtain ⟨q, hq⟩ : ∃ q, At len segs q g := exists_at_of_mem hg
      have := hf.len_pos g hg
      have := h.nextSeqno
      exact ⟨_, at_append.mpr (Or.inr ⟨q, hq, rfl⟩), by omega⟩

theorem Flight.acked (h : Flight journal s) (hsmall : s.nextSeqno + 2 ^ 32 < 2 ^ 64)
    (hs : Acked s s' a windowSize) (hl : Laid journal s') : Flight journal s' := by
  have hfields := hs.frame
  have hacked : s'.acked = a := by rw [hfields]
  have hnext : s'.nextSeqno = s.nextSeqno := by rw [hfields]
  have hwindow : s'.window = max 1 (windowSize.toNat : ℤ) := by rw [hfields]
  have := windowSize.toNat_lt
  refine
    { toLaid := hl
      acked_le := by have := hs.le; omega
      close := by
        have := h.close
        have := hs.ge
        omega
      window_le := by omega
      window_ge := fun _ => by omega
      covered := fun p g hg hlt => ?_
      placed := fun g hg => ?_ }
  · have hlt' : s.acked < p + len g := by
      have := hs.ge
      omega
    have hiff := h.isAcked_iff hsmall hg hlt' hs.ge hs.le
    rw [hs.inFlight, List.mem_filter]
    refine ⟨h.covered p g hg hlt', ?_⟩
    rw [Bool.not_eq_true', Bool.eq_false_iff, Ne, hiff]
    omega
  · rw [hs.inFlight, List.mem_filter, Bool.not_eq_true', Bool.eq_false_iff] at hg
    obtain ⟨p, hp, hlt⟩ := h.placed g hg.1
    have hiff := h.isAcked_iff hsmall hp hlt hs.ge hs.le
    have hnot := mt hiff.mpr hg.2
    exact ⟨p, hp, by omega⟩

theorem Flight.ackReceived (h : Flight journal s) (ackno : WrappingInt32) (windowSize : UInt16)
    (hsmall : s.nextSeqno + 2 ^ 32 < 2 ^ 64) :
    Flight journal (s.ackReceived ackno windowSize) := by
  rcases s.ackReceived_cases ackno windowSize with ⟨hs, _⟩ | hs
  · rwa [hs]
  · exact h.acked hsmall hs (h.toLaid.ackReceived ackno windowSize)

theorem Flight.tick (h : Flight journal s) (ms : ℕ) : Flight journal (s.tick ms) := by
  have hl := h.toLaid.tick ms
  obtain ⟨again, hs⟩ := s.ticked_tick ms
  have hmem := fun g => hs.inFlight.mem_iff (a := g)
  have hfields := hs.frame
  have hacked : (s.tick ms).acked = s.acked := by rw [hfields]
  have hnext : (s.tick ms).nextSeqno = s.nextSeqno := by rw [hfields]
  have hwindow : (s.tick ms).window = s.window := by rw [hfields]
  exact
    { toLaid := hl
      acked_le := by rw [hacked, hnext]; exact h.acked_le
      close := by rw [hacked, hnext]; exact h.close
      window_le := by rw [hwindow]; exact h.window_le
      window_ge := by rw [hwindow]; exact h.window_ge
      covered := fun p g hg hlt => (hmem g).mpr (h.covered p g hg (by omega))
      placed := fun g hg => by rw [hacked]; exact h.placed g ((hmem g).mp hg) }

theorem Flight.other (h : Flight journal s) {stream : ByteStream} (queue : List TCPSegment)
    (crtx : UInt32) (hc : stream.Consistent) :
    Flight journal { s with stream := stream, segmentsOut := queue, crtx := crtx } where
  toLaid := h.toLaid.other rfl rfl rfl hc h.fresh
  acked_le := h.acked_le
  close := h.close
  window_le := h.window_le
  window_ge := h.window_ge
  covered := h.covered
  placed := h.placed

theorem Flight.bytesInFlight_eq_zero_iff (h : Flight journal s) :
    s.bytesInFlight = 0 ↔ s.inFlight = [] := by
  constructor
  · intro hz
    by_contra hne
    obtain ⟨g, hg⟩ := List.exists_mem_of_ne_nil _ hne
    obtain ⟨p, hp, _⟩ := h.placed g hg
    have hle : len g ≤ s.bytesInFlight := List.le_sum_of_mem (List.mem_map_of_mem hg)
    have := h.len_pos g hp.mem
    omega
  · intro hnil
    simp [bytesInFlight, hnil]

theorem Flight.acked_eq (h : Flight journal s) (hnil : s.inFlight = []) :
    s.acked = s.nextSeqno := by
  by_contra hne
  have hle := h.acked_le
  have hnext := h.nextSeqno
  have hlast : s.nextSeqno - 1 < extent len journal := by omega
  obtain ⟨p, g, hg, hp, hlt⟩ := exists_at_of_lt hlast
  have hmem := h.covered p g hg (by omega)
  simp [hnil] at hmem

theorem Flight.finSent_of_eof (h : Flight journal s) (hsmall : s.nextSeqno + 2 ^ 16 ≤ 2 ^ 64)
    (hs : s.Settled) (heof : s.stream.eof = true) (hz : s.bytesInFlight = 0) :
    s.finSent = true := by
  have hacked := h.acked_eq (h.bytesInFlight_eq_zero_iff.mp hz)
  rcases hs with hs | hs | ⟨_, hs⟩
  · exact hs
  · exfalso
    have hle := h.window_le
    by_cases hw : s.window = -1
    · obtain ⟨hz, ha, _⟩ := h.fresh hw
      rw [limit, ha, hw, hz] at hs
      omega
    · have := h.window_ge hw
      rw [limit] at hs
      omega
  · have := (h.consistent.eof_iff.mp heof).2
    simp [hs] at this

end TCPSender

end Sponge
