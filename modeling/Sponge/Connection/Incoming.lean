import Sponge.Connection.Outgoing
import Sponge.Stream.Refinement

/-! # What an endpoint takes in

A segment from the peer opens the stream or is a slice of the bytes that the peer has
sent. It is pushed at its own position, or at least 2^32 positions further on.
-/

namespace Sponge

open Layout TCPSender

/-- The segment opens the stream `S`, without bytes, or is a slice of it. -/
def TCPSegment.PartOf (S : List UInt8) (isn : WrappingInt32) (seg : TCPSegment) : Prop :=
  (seg.header.syn = true ∧ seg.header.seqno = isn ∧ seg.payload = [] ∧
    (seg.header.fin = true → S = [])) ∨ ∃ i, seg.SliceOf S isn i

/-- What is pushed at `index` agrees with `S` below position 2^32. -/
structure TCPSegment.Placed (S : List UInt8) (seg : TCPSegment) (index : ℕ) : Prop where
  lt : index + seg.payload.length < 2 ^ 64
  within : seg.payload = [] ∨ index % 2 ^ 32 + seg.payload.length ≤ S.length
  bytes : ∀ p < 2 ^ 32, ∀ b, index ≤ p → seg.payload[p - index]? = some b → S[p]? = some b
  fin : seg.header.fin = true → S = [] ∨ (index + seg.payload.length) % 2 ^ 32 = S.length

variable {S : List UInt8} {isn : WrappingInt32} {seg g : TCPSegment} {r : TCPReceiver}
  {journal : List TCPSegment} {accepted : List UInt8} {c : TCPConnection}

theorem TCPSegment.SliceOf.conveys {i : ℕ} (h : g.SliceOf S isn i) (hc : seg.Conveys g) :
    seg.SliceOf S isn i where
  syn := hc.syn.trans h.syn
  seqno := hc.seqno.trans h.seqno
  payload := by rw [hc.payload]; exact h.payload
  le := h.le
  fin hf := by rw [hc.payload]; exact h.fin (hc.fin.symm.trans hf)

theorem TCPConnection.Outgoing.partOf (h : Outgoing journal accepted c)
    (hseg : seg ∈ c.segmentsOut) : seg.PartOf (sentBytes journal) c.sender.isn := by
  obtain ⟨g, hg, hc⟩ := h.wire seg hseg
  rcases hg.slice h.tiled with ⟨hs, hq, hpay, hf⟩ | ⟨i, hslice⟩
  · exact Or.inl ⟨hc.syn.trans hs, hc.seqno.trans hq, hc.payload.trans hpay,
      fun hf' => hf (hc.fin.symm.trans hf')⟩
  · exact Or.inr ⟨i, hslice.conveys hc⟩

theorem TCPConnection.Outgoing.finSent (h : Outgoing journal accepted c)
    (hseg : seg ∈ c.segmentsOut) (hf : seg.header.fin = true) : c.sender.finSent = true := by
  obtain ⟨g, hg, hc⟩ := h.wire seg hseg
  have hgf : g.header.fin = true := hc.fin.symm.trans hf
  rcases hg.2 with ⟨p, hp⟩ | ⟨_, hnf, _⟩
  · exact h.tiled.finSent.mpr ⟨g, hp.mem, hgf⟩
  · simp [hnf] at hgf

theorem TCPConnection.Outgoing.length_le (h : Outgoing journal accepted c) :
    (sentBytes journal).length ≤ accepted.length := by
  rw [← h.tiled.bytes, List.length_append]
  exact Nat.le_add_right _ _

theorem TCPConnection.Outgoing.nextSeqno_le (h : Outgoing journal accepted c) :
    c.sender.nextSeqno ≤ (sentBytes journal).length + 2 := by
  rw [h.tiled.nextSeqno]
  exact h.tiled.extent_le

namespace TCPReceiver

theorem indexOf_mod {i : ℕ} (hi : i < 2 ^ 32 - 1) (hc : r.cp < 2 ^ 64) (hr : r.isn = isn)
    (hs : seg.header.syn = false) (hq : seg.header.seqno = wrap (1 + i) isn) :
    r.indexOf seg % 2 ^ 32 = i := by
  have hlt : unwrap seg.header.seqno r.isn r.cp < 2 ^ 64 := unwrap_lt _ _ hc
  have hwrap := wrap_unwrap seg.header.seqno r.isn hc
  rw [indexOf, if_neg (by simp [hs])]
  set u := unwrap seg.header.seqno r.isn r.cp
  rw [hq, hr, wrap_eq_wrap_iff] at hwrap
  rw [sub64_of_le (by omega) hlt]
  omega

theorem placed_indexOf (hS : S.length < 2 ^ 31) (hc : r.cp < 2 ^ 64)
    (hr : r.status ≠ .listen → r.isn = isn)
    (hlive : seg.header.syn = true ∨ r.status ≠ .listen) (h : seg.PartOf S isn) :
    seg.Placed S (r.indexOf seg) := by
  have hindex := indexOf_lt seg hc
  rcases h with ⟨hs, hq, hpay, hf⟩ | ⟨i, h⟩
  · exact
      { lt := by simpa [hpay] using hindex
        within := Or.inl hpay
        bytes := by simp [hpay]
        fin := fun hfin => Or.inl (hf hfin) }
  · have hle := h.le
    have hadd := h.add_le
    have hmod := indexOf_mod (by omega) hc (hr (hlive.resolve_left (by simp [h.syn]))) h.syn h.seqno
    exact
      { lt := by omega
        within := by
          rw [hmod, ← List.length_eq_zero_iff]
          omega
        bytes := fun p hp b hip hb => by
          have hi : r.indexOf seg = i := by omega
          rw [hi] at hip hb
          exact h.getElem? hip hb
        fin := fun hf => Or.inr (by
          have := h.fin hf
          omega) }

end TCPReceiver

namespace TCPConnection

theorem sendRST_receiver (c : TCPConnection) :
    c.sendRST.receiver = c.receiver ∨ c.sendRST.receiver = c.receiver.setError := by
  unfold sendRST
  simp only
  split
  · exact Or.inl rfl
  · exact Or.inr rfl

theorem reply_receiver (c : TCPConnection) (seg : TCPSegment) :
    (c.reply seg).receiver = c.receiver := by
  unfold TCPConnection.reply
  simp only
  split_ifs <;> simp only [fillWindowAndSend_receiver]

theorem step_receiver (c : TCPConnection) (o : Op) :
    (∃ seg, o = .segment seg ∧ c.takes seg = true ∧
      (c.step o).receiver = c.receiver.segmentReceived seg) ∨
    (∃ len, o = .read len ∧ (c.step o).receiver = (c.receiver.read len).1) ∨
    ((∀ len, o ≠ .read len) ∧
      ((c.step o).receiver = c.receiver ∨ (c.step o).receiver = c.receiver.setError)) := by
  cases o with
  | connect => exact Or.inr (Or.inr ⟨by simp, Or.inl (fillWindowAndSend_receiver c)⟩)
  | write data =>
    refine Or.inr (Or.inr ⟨by simp, Or.inl ?_⟩)
    rw [TCPConnection.step, TCPConnection.write]
    split_ifs
    · exact fillWindowAndSend_receiver _
    · rfl
  | endInputStream =>
    refine Or.inr (Or.inr ⟨by simp, Or.inl ?_⟩)
    rw [TCPConnection.step, TCPConnection.endInputStream]
    split_ifs
    · exact fillWindowAndSend_receiver _
    · rfl
  | tick ms =>
    refine Or.inr (Or.inr ⟨by simp, ?_⟩)
    rw [TCPConnection.step]
    rcases c.tick_cases ms with h | ⟨_, linger, active, _, ⟨_, h⟩ | h⟩
    · exact Or.inl (by rw [h])
    · rw [h]
      exact sendRST_receiver _
    · exact Or.inl (by rw [h, fillWindowAndSend_receiver])
  | read len => exact Or.inr (Or.inl ⟨len, rfl, rfl⟩)
  | segment seg =>
    rw [TCPConnection.step]
    rcases c.segmentReceived_cases seg with ⟨_, h⟩ | ⟨_, _, h⟩ | ⟨hi, hr, _, _, _, _, h, _⟩
    · exact Or.inr (Or.inr ⟨by simp, Or.inl (by rw [h])⟩)
    · exact Or.inr (Or.inr ⟨by simp, Or.inr (by rw [h]; rfl)⟩)
    · refine Or.inl ⟨seg, rfl, by simp [takes, hi, hr], ?_⟩
      rw [h]
      exact reply_receiver _ seg

end TCPConnection

end Sponge
