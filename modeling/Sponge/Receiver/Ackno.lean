import Sponge.Receiver.Basic
import Sponge.Stream.Refinement

/-! # What the acknowledgment says

The acknowledgment should name the first sequence number that is not assembled,
counting the FIN once the stream is complete. The receiver infers this from a FIN
having been seen and from nothing being stored out of order; the inference fails
when bytes are missing before the FIN and none behind them arrived.
-/

namespace Sponge

open Blocks Runs

namespace TCPReceiver

/-- A segment that arrives is a slice of `S`. -/
def Op.CutFrom (S : List UInt8) (isn : WrappingInt32) : Op → Prop
  | .segment seg => ∃ i, seg.CutFrom S isn i
  | .read _ => True

/-- The acknowledgment counts the SYN, the assembled bytes, and the FIN of an ended stream. -/
def AckExact (isn : WrappingInt32) (r : TCPReceiver) : Prop :=
  r.ackno = some
    (wrap (1 + r.reassembler.firstUnasb + if r.streamOut.inputEnded then 1 else 0) isn)

/-- The byte at `p` is held once the segment has been received. -/
def HoldsAfter (r : TCPReceiver) (seg : TCPSegment) (p : ℕ) : Prop :=
  r.reassembler.Holds p ∨
    (p < r.reassembler.windowEnd ∧ r.indexOf seg ≤ p ∧ p < r.indexOf seg + seg.payload.length)

instance (r : TCPReceiver) (seg : TCPSegment) (p : ℕ) : Decidable (r.HoldsAfter seg p) :=
  inferInstanceAs (Decidable (_ ∨ _))

/-- Once a FIN has been received, the bytes held are all of `S`, or one lies behind a gap. -/
def AckSafe (S : List UInt8) (r : TCPReceiver) : Op → Prop
  | .segment seg =>
    r.statusAfter seg = .finRecv →
      (∀ p < S.length, r.HoldsAfter seg p) ∨
        ∃ q < S.length, r.HoldsAfter seg q ∧ ∃ p < q, ¬ r.HoldsAfter seg p
  | .read _ => True

instance (S : List UInt8) (r : TCPReceiver) : ∀ o, Decidable (r.AckSafe S o)
  | .segment _ => inferInstanceAs (Decidable (_ → _))
  | .read _ => inferInstanceAs (Decidable True)

/-- The receiver has taken in nothing but slices of `S`. -/
structure Receiving (S : List UInt8) (isn : WrappingInt32) (r : TCPReceiver) : Prop where
  isn : r.isn = isn
  status : r.status ≠ .listen
  cp : r.cp ≤ S.length
  ending : Ending S.length ⟨r.reassembler, [], r.status = .finRecv⟩

variable {S : List UInt8} {isn : WrappingInt32} {r : TCPReceiver} {seg : TCPSegment}

theorem indexOf_cutFrom {i n : ℕ} (hn : n < 2 ^ 31) (hi : i ≤ n) (hr : r.isn = isn)
    (hc : r.cp ≤ n) (hs : seg.header.syn = false) (hq : seg.header.seqno = wrap (1 + i) isn) :
    r.indexOf seg = i := by
  rw [indexOf, if_neg (by simp [hs]), hq, hr,
    unwrap_wrap isn (by omega) (by omega) (by omega) (Or.inr (by omega)),
    sub64_of_le (by omega) (by omega)]
  omega

theorem Receiving.opens {capacity : ℕ} (hS : S.length < 2 ^ 31) (ho : seg.Opens S isn) :
    Receiving S isn ((new capacity).segmentReceived seg) := by
  have hle := ho.payload.length_le
  have hindex : (new capacity).indexOf seg = 0 := by simp [indexOf, ho.syn, new]
  rw [segmentReceived_eq (Or.inl ho.syn)]
  refine ⟨by simp [ho.syn, ho.seqno], ?_, by simp [hindex], ?_⟩
  · rcases Bool.eq_false_or_eq_true seg.header.fin with hf | hf <;>
      simp [statusAfter, ho.syn, hf]
  · have hend := (Ending.new capacity S.length).push seg.payload 0 seg.header.fin
      (by simp only [StreamTrace.Within]; omega)
      ⟨by omega, fun hf => by have := ho.fin hf; omega⟩
    have hstatus : decide ((new capacity).statusAfter seg = .finRecv) = seg.header.fin := by
      rcases Bool.eq_false_or_eq_true seg.header.fin with hf | hf <;>
        simp [statusAfter, ho.syn, hf]
    simp only [hindex, hstatus]
    exact hend

theorem Receiving.cut {i : ℕ} (hS : S.length < 2 ^ 31) (h : Receiving S isn r)
    (hc : seg.CutFrom S isn i) : Receiving S isn (r.segmentReceived seg) := by
  have hle := hc.le
  have hindex : r.indexOf seg = i := indexOf_cutFrom hS (by omega) h.isn h.cp hc.syn hc.seqno
  rw [segmentReceived_eq (Or.inr h.status)]
  refine ⟨by simp [hc.syn, h.isn], ?_, by simp only [hindex]; omega, ?_⟩
  · rcases Bool.eq_false_or_eq_true seg.header.fin with hf | hf <;>
      simp [statusAfter, hc.syn, hf, h.status]
  · have hend := h.ending.push seg.payload i seg.header.fin
      (by simp only [StreamTrace.Within]; omega) ⟨by omega, hc.fin⟩
    have hstatus : decide (r.statusAfter seg = .finRecv) =
        (decide (r.status = .finRecv) || seg.header.fin) := by
      rcases Bool.eq_false_or_eq_true seg.header.fin with hf | hf <;>
        simp [statusAfter, hc.syn, hf]
    simp only [hindex, hstatus]
    exact hend

theorem Receiving.step (hS : S.length < 2 ^ 31) (h : Receiving S isn r) {o : Op}
    (ho : o.CutFrom S isn) : Receiving S isn (r.step o) := by
  cases o with
  | segment seg =>
    obtain ⟨i, hc⟩ := ho
    exact h.cut hS hc
  | read len =>
    exact ⟨h.isn, h.status, h.cp, h.ending.read len _⟩

theorem Receiving.complete_iff (h : Receiving S isn r) :
    r.reassembler.unasb = S.length ↔ ∀ p < S.length, r.reassembler.Holds p := by
  constructor
  · exact fun heq p hp => Or.inl (heq ▸ hp)
  · intro hall
    by_contra hne
    have hlt := lt_of_le_of_ne h.ending.unasb_le hne
    exact (StreamReassembler.sound_iff.mp h.ending.sound).not_holds_unasb (hall _ hlt)

/-- Something waits to be assembled exactly when a byte of `S` is held behind a missing one. -/
theorem Receiving.waiting_iff (h : Receiving S isn r) :
    r.reassembler.unassembledBytes ≠ 0 ↔
      ∃ q < S.length, r.reassembler.Holds q ∧ ∃ p < q, ¬ r.reassembler.Holds p := by
  rw [StreamReassembler.unassembledBytes,
    (StreamReassembler.sound_iff.mp h.ending.sound).szUnasb_ne_zero_iff]
  constructor
  · rintro ⟨q, hq, p, hpq, hp⟩
    have hstored := hq.resolve_left fun hlt => hp (Or.inl (by omega))
    exact ⟨q, h.ending.stored q hstored, hq, p, hpq, hp⟩
  · rintro ⟨q, _, hq⟩
    exact ⟨q, hq⟩

theorem Receiving.ended_iff (h : Receiving S isn r) :
    r.streamOut.inputEnded = true ↔ r.status = .finRecv ∧ r.reassembler.unasb = S.length := by
  have he := h.ending.ended
  simp only [decide_eq_true_eq] at he
  exact he

/-- The acknowledgment is exact unless a FIN was seen, bytes are missing and none is stored. -/
theorem Receiving.ackExact_iff (h : Receiving S isn r) :
    AckExact isn r ↔ (r.status = .finRecv →
      r.reassembler.unasb = S.length ∨ r.reassembler.unassembledBytes ≠ 0) := by
  have hended := h.ended_iff
  have hlt := h.ending.sound.unasb_lt
  have hstored : r.reassembler.unassembledBytes ≠ 0 → r.reassembler.unasb ≠ S.length := by
    rw [h.waiting_iff]
    rintro ⟨q, hq, _, p, hpq, hp⟩ heq
    exact hp (Or.inl (by omega))
  have hwrap : AckExact isn r ↔ ((r.status = .finRecv ∧ r.unassembledBytes = 0) ↔
      r.streamOut.inputEnded = true) := by
    unfold AckExact
    rw [ackno_eq h.status, h.isn, Option.some_inj, wrap_eq_wrap_iff,
      StreamReassembler.firstUnasb]
    split_ifs <;> simp [*] <;> omega
  rw [hwrap, hended]
  change (_ ∧ r.reassembler.unassembledBytes = 0 ↔ _) ↔ _
  tauto

theorem holds_segmentReceived (h : r.reassembler.Sound)
    (hlive : seg.header.syn = true ∨ r.status ≠ .listen)
    (hlen : r.indexOf seg + seg.payload.length < 2 ^ 64)
    (htop : min (r.indexOf seg + seg.payload.length) r.reassembler.windowEnd < 2 ^ 31 ∨
      min (r.indexOf seg + seg.payload.length) r.reassembler.windowEnd ≤ r.indexOf seg) :
    (r.segmentReceived seg).reassembler.Sound ∧
      ∀ p, (r.segmentReceived seg).reassembler.Holds p ↔ r.HoldsAfter seg p := by
  obtain ⟨ws, hp⟩ := h.pushSubstring seg.header.fin hlen htop
  rw [segmentReceived_reassembler hlive]
  exact ⟨hp.sound, hp.holds_iff⟩

/-- Receiving a segment keeps the acknowledgment exact precisely in the safe states. -/
theorem Receiving.ackExact_segment (h : Receiving S isn (r.segmentReceived seg))
    (hr : r.reassembler.Sound) (hlive : seg.header.syn = true ∨ r.status ≠ .listen)
    (hlen : r.indexOf seg + seg.payload.length < 2 ^ 31) :
    AckExact isn (r.segmentReceived seg) ↔ r.AckSafe S (.segment seg) := by
  have hstatus : (r.segmentReceived seg).status = r.statusAfter seg := by
    rw [segmentReceived_eq hlive]
  obtain ⟨_, hholds⟩ := holds_segmentReceived hr hlive (by omega) (Or.inl (by omega))
  rw [h.ackExact_iff, h.complete_iff, h.waiting_iff, hstatus]
  simp only [hholds, AckSafe]

theorem Receiving.ackExact_step (hS : S.length < 2 ^ 31) (h : Receiving S isn r)
    (hr : AckExact isn r) {o : Op} (ho : o.CutFrom S isn) :
    AckExact isn (r.step o) ↔ r.AckSafe S o := by
  cases o with
  | segment seg =>
    obtain ⟨i, hc⟩ := ho
    have hle := hc.le
    have hindex : r.indexOf seg = i := indexOf_cutFrom hS (by omega) h.isn h.cp hc.syn hc.seqno
    exact (h.cut hS hc).ackExact_segment h.ending.sound (Or.inr h.status) (by omega)
  | read len => exact iff_of_true hr trivial

/-- The acknowledgment is exact in every state of a run precisely if each segment met a state in
which the FIN could safely be counted. -/
theorem ackno_exact_iff {capacity : ℕ} {syn : TCPSegment} {ops : List Op}
    (hS : S.length < 2 ^ 31) (hsyn : syn.Opens S isn) (hops : ∀ o ∈ ops, o.CutFrom S isn) :
    (∀ ops', ops' <+: ops →
      AckExact isn (run step ((new capacity).segmentReceived syn) ops')) ↔
    AckSafe S (new capacity) (.segment syn) ∧
      Admitted step (AckSafe S) ((new capacity).segmentReceived syn) ops := by
  have hopen : Receiving S isn ((new capacity).segmentReceived syn) := .opens hS hsyn
  have hle := hsyn.payload.length_le
  have hindex : (new capacity).indexOf syn = 0 := by simp [indexOf, hsyn.syn, new]
  have hfirst : AckExact isn ((new capacity).segmentReceived syn) ↔ _ :=
    hopen.ackExact_segment .new (Or.inl hsyn.syn) (by omega)
  have hcut : Admitted step (fun _ o => Op.CutFrom S isn o)
      ((new capacity).segmentReceived syn) ops := .of_forall hops
  rw [← hfirst]
  constructor
  · intro hall
    have hnow := hall [] (List.nil_prefix)
    exact ⟨hnow, (forall_prefix_iff_admitted (fun r o h ho => h.step hS ho)
      (fun r o h hr ho => h.ackExact_step hS hr ho) hopen hnow hcut).mp hall⟩
  · rintro ⟨hnow, hadm⟩
    exact (forall_prefix_iff_admitted (fun r o h ho => h.step hS ho)
      (fun r o h hr ho => h.ackExact_step hS hr ho) hopen hnow hcut).mpr hadm

/-- A slice at the front, one behind a gap with the FIN, and the slice between them. -/
theorem ackno_exact_reordered :
    let S : List UInt8 := [10, 20, 30, 40]
    let isn : WrappingInt32 := ⟨4294967294⟩
    let syn : TCPSegment := { header := { syn := true, seqno := isn } }
    let slice (i len : ℕ) (fin : Bool) : TCPSegment :=
      { header := { seqno := wrap (1 + i) isn, fin := fin }, payload := (S.drop i).take len }
    let ops : List Op := [.segment (slice 0 1 false), .segment (slice 3 1 true), .read 1,
      .segment (slice 1 2 false)]
    ∀ ops', ops' <+: ops →
      AckExact isn (run step ((new 8).segmentReceived syn) ops') := by
  intro S isn syn slice ops
  have hsyn : syn.Opens S isn := ⟨rfl, rfl, List.nil_prefix, by decide⟩
  have hcut : ∀ o ∈ ops, o.CutFrom S isn := by
    simp only [ops, List.forall_mem_cons]
    exact ⟨⟨0, rfl, rfl, rfl, by decide, by decide⟩, ⟨3, rfl, rfl, rfl, by decide, by decide⟩,
      trivial, ⟨1, rfl, rfl, rfl, by decide, by decide⟩, by simp⟩
  exact (ackno_exact_iff (by decide) hsyn hcut).mpr (by decide)

/-- An empty FIN that overtakes all data: the FIN is acknowledged and no byte has arrived. -/
theorem ackno_counts_early_fin :
    let S : List UInt8 := [10, 20, 30, 40]
    let isn : WrappingInt32 := ⟨4294967294⟩
    let syn : TCPSegment := { header := { syn := true, seqno := isn } }
    let fin : TCPSegment := { header := { seqno := wrap (1 + 4) isn, fin := true } }
    let r := run step ((new 8).segmentReceived syn) [.segment fin]
    syn.Opens S isn ∧ fin.CutFrom S isn 4 ∧ r.reassembler.firstUnasb = 0 ∧
      r.streamOut.inputEnded = false ∧ r.ackno = some (wrap 2 isn) ∧ ¬ AckExact isn r :=
  ⟨⟨rfl, rfl, List.nil_prefix, by decide⟩, ⟨rfl, rfl, rfl, by decide, by decide⟩, by decide,
    by decide, by decide, by unfold AckExact; decide⟩

end TCPReceiver

end Sponge
