import Sponge.Library.Runs
import Sponge.Receiver.Basic
import Sponge.Stream.Growth

/-! # The acknowledged position

Every SYN rewrites the initial sequence number and the status, and a FIN is counted
only while nothing waits to be assembled. The acknowledgment moves back when a
counted FIN stops being counted: bytes are stored behind a gap, or a SYN without FIN
makes the receiver forget that the FIN was seen.
-/

namespace Sponge

open Blocks Runs

namespace TCPReceiver

/-- The acknowledgment counts a FIN. -/
def FinCounted (r : TCPReceiver) : Prop := r.status = .finRecv ∧ r.unassembledBytes = 0

instance (r : TCPReceiver) : Decidable r.FinCounted := inferInstanceAs (Decidable (_ ∧ _))

/-- The position that is acknowledged. -/
def ackedTo (r : TCPReceiver) : ℕ :=
  1 + r.reassembler.firstUnasb + if r.FinCounted then 1 else 0

/-- The end of the payload, cut off at the end of the window. -/
def endOf (r : TCPReceiver) (seg : TCPSegment) : ℕ :=
  r.reassembler.pushEnd seg.payload (r.indexOf seg)

/-- Nothing is stored, and the payload continues what is assembled. -/
def Continues (r : TCPReceiver) (seg : TCPSegment) : Prop :=
  r.reassembler.empty = true ∧ r.indexOf seg ≤ r.reassembler.firstUnasb ∧
    r.reassembler.firstUnasb < r.endOf seg

/-- No byte of the payload lies in the window, at or past the first unassembled position. -/
def Misses (r : TCPReceiver) (seg : TCPSegment) : Prop :=
  r.endOf seg ≤ max r.reassembler.firstUnasb (r.indexOf seg)

/-- A SYN repeats the initial sequence number, the count of bytes fits in 64 bits, and once a FIN
is counted, the payload is assembled at once or misses the window, and no SYN takes the FIN back. -/
def KeepsAck (r : TCPReceiver) : Op → Prop
  | .segment seg =>
    (seg.header.syn = true → seg.header.seqno = r.isn) ∧
      r.reassembler.firstUnasb + total r.reassembler.t + seg.payload.length < 2 ^ 64 ∧
      (r.FinCounted → r.Continues seg ∨
        r.Misses seg ∧ (seg.header.syn = true → seg.header.fin = true))
  | .read _ => True

instance (r : TCPReceiver) (seg : TCPSegment) : Decidable (r.Continues seg) :=
  inferInstanceAs (Decidable (_ ∧ _))

instance (r : TCPReceiver) (seg : TCPSegment) : Decidable (r.Misses seg) :=
  inferInstanceAs (Decidable (_ ≤ _))

instance (r : TCPReceiver) : ∀ o, Decidable (r.KeepsAck o)
  | .segment _ => inferInstanceAs (Decidable (_ ∧ _))
  | .read _ => inferInstanceAs (Decidable True)

/-- The receiver has seen a SYN with number `isn`. -/
structure Synced (isn : WrappingInt32) (r : TCPReceiver) : Prop where
  isn : r.isn = isn
  status : r.status ≠ .listen
  keyed : r.reassembler.Keyed

variable {isn : WrappingInt32} {r : TCPReceiver} {seg : TCPSegment}

theorem Synced.ackno (h : Synced isn r) : r.ackno = some (wrap r.ackedTo isn) := by
  rw [ackno_eq h.status, h.isn]
  rfl

theorem Synced.syn (hs : seg.header.syn = true) (hk : r.reassembler.Keyed) :
    Synced seg.header.seqno (r.segmentReceived seg) := by
  rw [segmentReceived_eq (Or.inl hs)]
  exact ⟨if_pos hs, statusAfter_ne_listen (Or.inl hs), hk.pushSubstring⟩

theorem Synced.step (h : Synced isn r) {o : Op} (ho : r.KeepsAck o) : Synced isn (r.step o) := by
  cases o with
  | read len => exact ⟨h.isn, h.status, h.keyed⟩
  | segment seg =>
    change Synced isn (r.segmentReceived seg)
    rw [segmentReceived_eq (Or.inr h.status)]
    refine ⟨?_, statusAfter_ne_listen (Or.inr h.status), h.keyed.pushSubstring⟩
    simp only
    split_ifs with hs
    · exact (ho.1 hs).trans h.isn
    · exact h.isn

/-- The position moves back at most by the FIN, and then only if nothing new was assembled. -/
theorem ackedTo_le {r r' : TCPReceiver}
    (hle : r.reassembler.firstUnasb ≤ r'.reassembler.firstUnasb)
    (hfin : r.FinCounted → r'.FinCounted ∨ r.reassembler.firstUnasb < r'.reassembler.firstUnasb) :
    r.ackedTo ≤ r'.ackedTo := by
  unfold ackedTo
  by_cases hr : r.FinCounted
  · rcases hfin hr with hr' | hlt
    · rw [if_pos hr, if_pos hr']
      omega
    · rw [if_pos hr]
      split_ifs <;> omega
  · rw [if_neg hr]
    split_ifs <;> omega

theorem Synced.ackedTo_le_step (h : Synced isn r) {o : Op} (ho : r.KeepsAck o) :
    r.ackedTo ≤ (r.step o).ackedTo := by
  cases o with
  | read len => exact le_rfl
  | segment seg =>
    obtain ⟨_, hsmall, hcounted⟩ := ho
    change r.ackedTo ≤ (r.segmentReceived seg).ackedTo
    rw [segmentReceived_eq (Or.inr h.status)]
    refine ackedTo_le (h.keyed.unasb_le_pushSubstring hsmall) fun hfin => ?_
    rcases hcounted hfin with ⟨hempty, hindex, hend⟩ | ⟨hmiss, hsyn⟩
    · right
      have hpush := StreamReassembler.unasb_pushSubstring_front seg.header.fin
        (List.isEmpty_iff.mp hempty) hindex hend
      exact hend.trans_eq hpush.symm
    · left
      obtain ⟨_, _, hsize⟩ := StreamReassembler.pushSubstring_outside
        seg.header.fin hmiss
      refine ⟨?_, hsize.trans hfin.2⟩
      simp only [statusAfter]
      split_ifs with hf hs
      · rfl
      · exact absurd (hsyn hs) hf
      · exact hfin.1

/-- No other segment keeps both, as long as the bytes are counted right. -/
theorem Synced.keepsAck_iff (h : Synced isn r) (hempty : r.unassembledBytes = 0 →
      r.reassembler.t = [])
    (hsmall : r.reassembler.firstUnasb + total r.reassembler.t + seg.payload.length < 2 ^ 64) :
    r.KeepsAck (.segment seg) ↔
      (r.segmentReceived seg).isn = isn ∧ r.ackedTo ≤ (r.segmentReceived seg).ackedTo := by
  constructor
  · exact fun ho => ⟨(h.step ho).isn, h.ackedTo_le_step ho⟩
  · rintro ⟨hisn, hle⟩
    rw [segmentReceived_eq (Or.inr h.status)] at hisn hle
    refine ⟨fun hs => ?_, hsmall, fun hfin => ?_⟩
    · rw [h.isn, ← hisn]
      exact (if_pos hs).symm
    · have ht := hempty hfin.2
      set s' := r.reassembler.pushSubstring seg.payload (r.indexOf seg) seg.header.fin with hs'
      have hsame : s'.unasb = r.reassembler.unasb → r.statusAfter seg = .finRecv ∧
          s'.szUnasb = 0 := by
        intro heq
        by_contra hcount
        have hcount' : ¬ FinCounted ⟨s', r.capacity,
          if seg.header.syn then seg.header.seqno else r.isn, r.indexOf seg, r.statusAfter seg⟩ :=
          hcount
        simp only [ackedTo, if_pos hfin, if_neg hcount', StreamReassembler.firstUnasb, heq] at hle
        omega
      by_cases hmiss : r.Misses seg
      · right
        refine ⟨hmiss, fun hs => ?_⟩
        have hstatus := (hsame (StreamReassembler.pushSubstring_outside _ hmiss).2.1).1
        by_contra hf
        simp [statusAfter, hs, hf] at hstatus
      · left
        have hend := not_le.mp hmiss
        refine ⟨List.isEmpty_iff.mpr ht, ?_, (le_max_left _ _).trans_lt hend⟩
        by_contra hbehind
        have hi : r.reassembler.unasb < r.indexOf seg := not_le.mp hbehind
        have hlt : r.indexOf seg < r.endOf seg := (le_max_right _ _).trans_lt hend
        obtain ⟨hun, hsz⟩ := StreamReassembler.pushSubstring_behind seg.header.fin ht
          hfin.2 hi hlt
        have hzero := (hsame hun).2
        have hpos : s'.szUnasb = r.endOf seg - r.indexOf seg := hsz
        omega

/-- Nothing that happens before the first SYN enters a key into the table. -/
theorem keyed_before_syn {capacity : ℕ} {pre : List Op}
    (hpre : ∀ seg, .segment seg ∈ pre → seg.header.syn = false) :
    (run step (new capacity) pre).reassembler.Keyed := by
  have hadm : Admitted step (fun _ o => ∀ seg, o = .segment seg → seg.header.syn = false)
      (new capacity) pre := .of_forall fun o ho seg hseg => hpre seg (hseg ▸ ho)
  have hinv := hadm.invariant (I := fun r => r.status = .listen ∧ r.reassembler.Keyed)
    (fun r o hr ho => by
      cases o with
      | read len => exact hr
      | segment seg =>
        rw [step, segmentReceived_listen (ho seg rfl) hr.1]
        exact hr)
    ⟨rfl, by simp [StreamReassembler.Keyed, new, StreamReassembler.new]⟩
  exact hinv.2

/-- From the first SYN on, in runs whose steps keep the acknowledgment, the initial sequence
number stays and the acknowledged position never moves back. -/
theorem ackno_monotone {capacity : ℕ} {pre ops : List Op} {syn : TCPSegment}
    (hpre : ∀ seg, .segment seg ∈ pre → seg.header.syn = false) (hsyn : syn.header.syn = true)
    (hops : Admitted step KeepsAck ((run step (new capacity) pre).segmentReceived syn) ops) :
    let r := (run step (new capacity) pre).segmentReceived syn
    ∀ ops', ops' <+: ops →
      (run step r ops').isn = syn.header.seqno ∧
      (run step r ops').ackno = some (wrap (run step r ops').ackedTo syn.header.seqno) ∧
      ∀ o, ops' ++ [o] <+: ops →
        (run step r ops').ackedTo ≤ (run step r (ops' ++ [o])).ackedTo := by
  intro r ops' hp
  have hsynced : Synced syn.header.seqno (run step r ops') :=
    (hops.of_isPrefix hp).invariant (fun r o hr ho => hr.step ho)
      (.syn hsyn (keyed_before_syn hpre))
  refine ⟨hsynced.isn, hsynced.ackno, fun o hpo => ?_⟩
  have hlast := (admitted_append.mp (hops.of_isPrefix hpo)).2.1
  rw [run_concat]
  exact hsynced.ackedTo_le_step hlast

/-- Data behind a gap, the bytes of the gap, a FIN, a repeated SYN with FIN, and a late copy. -/
theorem ackno_monotone_reordered :
    let data (i : ℕ) (bytes : List UInt8) : Op :=
      .segment { header := { seqno := wrap (1 + i) ⟨7⟩ }, payload := bytes }
    let syn : TCPSegment := { header := { syn := true, seqno := ⟨7⟩ } }
    let ops : List Op := [data 2 [3], data 0 [1, 2], .read 2,
      .segment { header := { fin := true, seqno := wrap 4 ⟨7⟩ } },
      .segment { header := { syn := true, fin := true, seqno := ⟨7⟩ } }, data 1 [2, 3]]
    let r := (run step (new 4) [.read 0]).segmentReceived syn
    ∀ ops', ops' <+: ops →
      (run step r ops').isn = ⟨7⟩ ∧
      (run step r ops').ackno = some (wrap (run step r ops').ackedTo ⟨7⟩) ∧
      ∀ o, ops' ++ [o] <+: ops →
        (run step r ops').ackedTo ≤ (run step r (ops' ++ [o])).ackedTo :=
  ackno_monotone (by simp) rfl (by decide +kernel)

/-- A FIN overtakes two bytes and is counted. When the second byte arrives it is no longer
counted. A SYN with another number then replaces the initial sequence number. -/
theorem ackno_moves_back :
    let syn : TCPSegment := { header := { syn := true, seqno := ⟨7⟩ } }
    let fin : Op := .segment { header := { fin := true, seqno := wrap 3 ⟨7⟩ } }
    let byte : Op := .segment { header := { seqno := wrap 2 ⟨7⟩ }, payload := [2] }
    let other : Op := .segment { header := { syn := true, seqno := ⟨5⟩ } }
    let r := (new 4).segmentReceived syn
    (run step r [fin]).ackedTo = 2 ∧ (run step r [fin, byte]).ackedTo = 1 ∧
      (run step r [fin]).ackno = some ⟨9⟩ ∧ (run step r [fin, byte]).ackno = some ⟨8⟩ ∧
      (run step r [fin, byte, other]).isn ≠ syn.header.seqno := by
  decide

end TCPReceiver

end Sponge
