import Sponge.Network.Basic
import Sponge.Receiver.Ackno

/-! # No byte is forgotten

A sender forgets a segment once it is acknowledged whole, so the acknowledgments of the
other side must not pass a byte that it does not hold. They do not, as long as the
receiver counts a FIN only when no byte before it is missing.
-/

namespace Sponge

open Layout Runs TCPSender

/-- The segment carries the byte of `S` at position `p`. -/
def TCPSegment.Carries (S : List UInt8) (isn : WrappingInt32) (seg : TCPSegment) (p : ℕ) : Prop :=
  ∃ i, seg.header.seqno = wrap (1 + i) isn ∧ i ≤ p ∧ p < i + seg.payload.length ∧
    seg.payload[p - i]? = S[p]?

/-- Each byte that `x` has taken from its stream is held by `y` or lies in an outstanding
segment. -/
def Retained (x y : Endpoint) : Prop :=
  ∀ p < x.sent.length, y.conn.receiver.reassembler.Holds p ∨
    ∃ seg ∈ x.conn.sender.inFlight, seg.Carries x.sent x.conn.sender.isn p

/-- The position behind what is assembled, counting the SYN, and the FIN when all before it is. -/
def frontier (S : List UInt8) (finSent : Bool) (r : TCPReceiver) : ℕ :=
  1 + r.reassembler.unasb +
    if finSent = true ∧ r.reassembler.unasb = S.length then 1 else 0

/-- The receiver holds only positions of `S`, and takes `S` for complete only when it is. -/
structure Keeps (S : List UInt8) (finSent : Bool) (r : TCPReceiver) : Prop where
  sound : r.reassembler.Sound
  held : ∀ p, r.reassembler.Holds p → p < S.length
  fin : r.status = .finRecv → finSent = true ∧
    (r.reassembler.unasb = S.length ∨ r.reassembler.unassembledBytes ≠ 0)

/-- The receiver may count a FIN, and no byte is stored a whole round too far on. -/
def KeepsSafe (S : List UInt8) (r : TCPReceiver) (seg : TCPSegment) : Prop :=
  seg.header.syn = true ∨ r.status ≠ .listen →
    r.AckSafe S (.segment seg) ∧ (seg.payload = [] ∨ r.indexOf seg < 2 ^ 31 ∨
      r.reassembler.windowEnd ≤ r.indexOf seg)

instance (S : List UInt8) (r : TCPReceiver) (seg : TCPSegment) : Decidable (KeepsSafe S r seg) :=
  inferInstanceAs (Decidable (_ → _))

section Receiver

variable {S S' : List UInt8} {finSent finSent' : Bool} {r r' : TCPReceiver} {seg : TCPSegment}
  {isn : WrappingInt32}

theorem Keeps.unasb_le (h : Keeps S finSent r) : r.reassembler.unasb ≤ S.length := by
  rcases Nat.eq_zero_or_pos r.reassembler.unasb with hz | hpos
  · omega
  · have := h.held (r.reassembler.unasb - 1) (Or.inl (by omega))
    omega

theorem Keeps.new {capacity : ℕ} : Keeps [] false (.new capacity) where
  sound := .new
  held p hp := by simp [TCPReceiver.new, StreamReassembler.new, StreamReassembler.Holds] at hp
  fin h := by simp [TCPReceiver.new] at h

theorem Keeps.grow (h : Keeps S finSent r) (hS : S <+: S')
    (hfin : finSent = true → S = S' ∧ finSent' = true) : Keeps S' finSent' r where
  sound := h.sound
  held p hp := (h.held p hp).trans_le hS.length_le
  fin hs := by
    obtain ⟨hf, hdone⟩ := h.fin hs
    obtain ⟨rfl, hf'⟩ := hfin hf
    exact ⟨hf', hdone⟩

theorem Keeps.congr (h : Keeps S finSent r) (ht : r'.reassembler.t = r.reassembler.t)
    (hu : r'.reassembler.unasb = r.reassembler.unasb)
    (hz : r'.reassembler.szUnasb = r.reassembler.szUnasb) (hs : r'.status = r.status) :
    Keeps S finSent r' where
  sound := by
    obtain ⟨h₁, h₂, h₃, h₄, h₅⟩ := h.sound
    exact ⟨by rwa [ht, hu], by rwa [ht, hu], by rwa [ht], by rwa [ht, hz], by rwa [hu]⟩
  held p hp := h.held p (by rwa [StreamReassembler.Holds, ← ht, ← hu])
  fin hf := by
    rw [StreamReassembler.unassembledBytes, hu, hz]
    exact h.fin (hs ▸ hf)

theorem frontier_grow (hS : S <+: S') (hfin : finSent = true → S = S' ∧ finSent' = true) :
    frontier S finSent r ≤ frontier S' finSent' r := by
  unfold frontier
  by_cases hf : finSent = true
  · obtain ⟨rfl, hf'⟩ := hfin hf
    rw [hf, hf']
  · rw [if_neg fun hc => hf hc.1]
    exact Nat.le_add_right _ _

theorem frontier_mono (finSent : Bool) (hle : r.reassembler.unasb ≤ r'.reassembler.unasb)
    (hle' : r'.reassembler.unasb ≤ S.length) : frontier S finSent r ≤ frontier S finSent r' := by
  unfold frontier
  by_cases hf : finSent = true
  · simp only [hf, true_and]
    split_ifs <;> omega
  · rw [if_neg fun hc => hf hc.1]
    omega

theorem frontier_le (h : Keeps S finSent r) : frontier S finSent r ≤ S.length + 2 := by
  have := h.unasb_le
  unfold frontier
  split_ifs <;> omega

theorem Keeps.ackno_le (h : Keeps S finSent r) {ackno : WrappingInt32}
    (ha : r.ackno = some ackno) :
    ∃ k, 0 < k ∧ k ≤ frontier S finSent r ∧ ackno = wrap k r.isn := by
  have hlisten := r.ackno_isSome_iff.mp (by simp [ha])
  rw [TCPReceiver.ackno_eq hlisten, Option.some_inj, StreamReassembler.firstUnasb] at ha
  refine ⟨_, ?_, ?_, ha.symm⟩
  · omega
  · unfold frontier
    split_ifs with hfin hdone
    · exact le_rfl
    · exfalso
      obtain ⟨hf, hu | hz⟩ := h.fin hfin.1
      · exact hdone ⟨hf, hu⟩
      · exact hz hfin.2
    · omega
    · omega

/-- Receiving a part of `S` safely. -/
theorem Keeps.segmentReceived (h : Keeps S finSent r) (hS : S.length < 2 ^ 31)
    (hcp : r.cp < 2 ^ 64) (hisn : r.status ≠ .listen → r.isn = isn) (hpart : seg.PartOf S isn)
    (hfin : seg.header.fin = true → finSent = true) (hsafe : KeepsSafe S r seg) :
    Keeps S finSent (r.segmentReceived seg) ∧
      r.reassembler.unasb ≤ (r.segmentReceived seg).reassembler.unasb := by
  by_cases hlive : seg.header.syn = true ∨ r.status ≠ .listen
  · have hplaced := TCPReceiver.placed_indexOf hS hcp hisn hlive hpart
    obtain ⟨hack, hwhere⟩ := hsafe hlive
    have hpay : seg.payload = [] ↔ seg.payload.length = 0 := List.length_eq_zero_iff.symm
    have hwithin := hplaced.within
    rw [hpay] at hwhere hwithin
    obtain ⟨hsound, hholds⟩ := TCPReceiver.holds_segmentReceived h.sound hlive hplaced.lt (by omega)
    have hto := StreamReassembler.sound_iff.mp hsound
    have hheld : ∀ p, (r.segmentReceived seg).reassembler.Holds p → p < S.length := by
      intro p hp
      rcases (hholds p).mp hp with hp | ⟨hw, hi, hlt⟩
      · exact h.held p hp
      · omega
    have hstatus : (r.segmentReceived seg).status = r.statusAfter seg := by
      rw [TCPReceiver.segmentReceived_eq hlive]
    refine ⟨⟨hsound, hheld, fun hf => ⟨?_, ?_⟩⟩, ?_⟩
    · rw [hstatus, TCPReceiver.statusAfter] at hf
      split_ifs at hf with hf' hs
      · exact hfin hf'
      · exact (h.fin hf).1
    · rw [hstatus] at hf
      rcases hack hf with hall | ⟨q, hq, hhq, p, hpq, hhp⟩
      · left
        by_contra hne
        have hle : (r.segmentReceived seg).reassembler.unasb ≤ S.length := by
          by_contra hgt
          exact absurd (hheld S.length (Or.inl (by omega))) (lt_irrefl _)
        exact hto.not_holds_unasb ((hholds _).mpr (hall _ (by omega)))
      · right
        rw [StreamReassembler.unassembledBytes, hto.szUnasb_ne_zero_iff]
        exact ⟨q, (hholds q).mpr hhq, p, hpq, mt (hholds p).mp hhp⟩
    · by_contra hlt
      refine hto.not_holds_unasb ((hholds _).mpr (Or.inl (Or.inl ?_)))
      omega
  · simp only [not_or, Bool.not_eq_true, not_not] at hlive
    rw [TCPReceiver.segmentReceived_listen hlive.1 hlive.2]
    exact ⟨h.congr rfl rfl rfl rfl, le_rfl⟩

end Receiver

/-- The invariant of a run: no acknowledgment passes what `b` has assembled. -/
structure Kept (journal : List TCPSegment) (a b : Endpoint) : Prop extends Linked journal a b where
  keeps : Keeps (sentBytes journal) a.conn.sender.finSent b.conn.receiver
  covers : ∀ seg ∈ b.conn.segmentsOut, seg.header.ack = true →
    ∃ k, 0 < k ∧ k ≤ frontier (sentBytes journal) a.conn.sender.finSent b.conn.receiver ∧
      seg.header.ackno = wrap k a.conn.sender.isn
  acked : a.conn.sender.acked ≤
    frontier (sentBytes journal) a.conn.sender.finSent b.conn.receiver

namespace Kept

variable {journal : List TCPSegment} {a b : Endpoint} {o : TCPConnection.Op}

theorem new {cfg cfg' : TCPConfig} : Kept [] (.new cfg) (.new cfg') where
  toLinked := .new
  keeps := .new
  covers := by simp [Endpoint.new, TCPConnection.new]
  acked := by simp [Endpoint.new, TCPConnection.new, TCPSender.new]

/-- The sender takes an acknowledgment for the position that the receiver meant. -/
theorem acked_le (h : Kept journal a b) (hsmall : a.accepted.length < 2 ^ 31)
    (hwire : ∀ seg, o = .segment seg → seg ∈ b.conn.segmentsOut) :
    (a.conn.step o).sender.acked ≤
      frontier (sentBytes journal) a.conn.sender.finSent b.conn.receiver := by
  have hlen := h.out.length_le
  have hnext := h.out.nextSeqno_le
  have hacked := h.out.flight.acked_le
  have hle := frontier_le h.keeps
  rcases (h.toLinked.stepped hsmall hwire).acked with hsame | ⟨ackno, hmem, heq, hbound⟩
  · rw [hsame]
    exact h.acked
  · cases o with
    | segment seg =>
      simp only [TCPConnection.Op.ackno, Option.mem_def, Option.ite_none_right_eq_some,
        Option.some_inj] at hmem
      obtain ⟨hack, rfl⟩ := hmem
      obtain ⟨k, _, hk, hackno⟩ := h.covers seg (hwire seg rfl) hack
      have hwrap := wrap_unwrap seg.header.ackno a.conn.sender.isn
        (c := a.conn.sender.acked) (by omega)
      rw [← heq, hackno, wrap_eq_wrap_iff] at hwrap
      omega
    | _ => simp [TCPConnection.Op.ackno] at hmem

theorem send (h : Kept journal a b) (hsmall : a.accepted.length < 2 ^ 31)
    (hwire : ∀ seg, o = .segment seg → seg ∈ b.conn.segmentsOut) :
    ∃ journal', Kept journal' (a.step o) b := by
  obtain ⟨journal', hpre, hlink⟩ := h.toLinked.send hsmall hwire
  have hS := sentBytes_mono hpre
  have hfin : a.conn.sender.finSent = true →
      sentBytes journal = sentBytes journal' ∧ (a.step o).conn.sender.finSent = true := fun hf => by
    obtain ⟨heq, hf'⟩ := h.toLinked.finSent hlink hpre hf
    exact ⟨by rw [heq], hf'⟩
  have hgrow := frontier_grow (r := b.conn.receiver) hS hfin
  have hisn := (h.toLinked.stepped hsmall hwire).isn
  refine ⟨journal',
    { toLinked := hlink
      keeps := h.keeps.grow hS hfin
      covers := fun seg hseg hack => ?_
      acked := (h.acked_le hsmall hwire).trans hgrow }⟩
  obtain ⟨k, hpos, hk, heq⟩ := h.covers seg hseg hack
  exact ⟨k, hpos, hk.trans hgrow, by rw [heq]; exact congrArg _ hisn.symm⟩

theorem receive (h : Kept journal a b) (hsmall : a.accepted.length < 2 ^ 31)
    (hwire : ∀ seg, o = .segment seg → seg ∈ a.conn.segmentsOut)
    (hsafe : ∀ seg, o = .segment seg → b.conn.takes seg = true →
      KeepsSafe a.sent b.conn.receiver seg)
    (hstamped : TCPConnection.Stamped b.conn (b.conn.step o)) : Kept journal a (b.step o) := by
  have hlen := h.out.length_le
  have hsent := h.toLinked.sent_eq
  have hkeeps : Keeps (sentBytes journal) a.conn.sender.finSent (b.conn.step o).receiver ∧
      b.conn.receiver.reassembler.unasb ≤ (b.conn.step o).receiver.reassembler.unasb := by
    rcases b.conn.step_receiver o with ⟨seg, rfl, htakes, hr⟩ | ⟨len, rfl, hr⟩ | ⟨_, hr | hr⟩
    · have hs := hsafe seg rfl htakes
      rw [hsent] at hs
      rw [hr]
      exact h.keeps.segmentReceived (by omega) h.cp h.isn (h.out.partOf (hwire seg rfl))
        (h.out.finSent (hwire seg rfl)) hs
    all_goals
      rw [hr]
      exact ⟨h.keeps.congr rfl rfl rfl rfl, le_rfl⟩
  have hlink := h.toLinked.receive hwire hstamped hkeeps.1.unasb_le
  have hmono := frontier_mono a.conn.sender.finSent hkeeps.2 hkeeps.1.unasb_le
  refine
    { toLinked := hlink
      keeps := hkeeps.1
      covers := fun seg hseg hack => ?_
      acked := h.acked.trans hmono }
  rcases hstamped seg hseg with hseg | hnew
  · obtain ⟨k, hpos, hk, heq⟩ := h.covers seg hseg hack
    exact ⟨k, hpos, hk.trans hmono, heq⟩
  · have hsome := hnew hack
    obtain ⟨k, hpos, hk, heq⟩ := hkeeps.1.ackno_le hsome
    have hlisten := (b.conn.step o).receiver.ackno_isSome_iff.mp (by simp [hsome])
    exact ⟨k, hpos, hk, by rw [heq]; exact congrArg _ (hlink.isn hlisten)⟩

/-- A byte that is not held was not acknowledged, so its segment is outstanding. -/
theorem retained (h : Kept journal a b) : Retained a b := by
  intro p hp
  by_cases hheld : b.conn.receiver.reassembler.Holds p
  · exact Or.inl hheld
  · have hsent := h.toLinked.sent_eq
    rw [hsent] at hp ⊢
    obtain ⟨i, g, hat, hcut, hi, hlt⟩ := h.out.tiled.exists_carrier hp
    have hunasb : b.conn.receiver.reassembler.unasb ≤ p := by
      by_contra hgt
      exact hheld (Or.inl (by omega))
    have hacked := h.acked
    unfold frontier at hacked
    rw [if_neg (by omega)] at hacked
    have hlen : g.payload.length ≤ len g := by
      simp only [len, TCPSegment.lengthInSequenceSpace]
      omega
    refine Or.inr ⟨g, h.out.flight.covered _ g hat (by omega), i, hcut.seqno, hi, hlt, ?_⟩
    rw [hcut.payload, List.getElem?_take_of_lt (by omega), List.getElem?_drop]
    congr 1
    omega

end Kept

namespace Network

/-- A segment that is not dropped meets a state in which it is safe to receive it. -/
def DeliversSafely (n : Network) : Event → Prop
  | .deliver s i => ∀ seg ∈ (n s.other).conn.segmentsOut[i]?, (n s).conn.takes seg = true →
      KeepsSafe (n s.other).sent (n s).conn.receiver seg
  | .act _ _ => True

instance (n : Network) : ∀ e, Decidable (n.DeliversSafely e)
  | .deliver _ _ => inferInstanceAs (Decidable (∀ _ ∈ _, _))
  | .act _ _ => inferInstanceAs (Decidable True)

/-- Fewer than 2^31 bytes are accepted for each direction. -/
def Below (n : Network) : Prop := ∀ s, (n s).accepted.length < 2 ^ 31

variable {cfg : Side → TCPConfig} {n : Network} {e : Event} {es : List Event}

theorem Below.of_step (h : (n.step e).Below) : n.Below := fun s =>
  (n.accepted_prefix e s).length_le.trans_lt (h s)

theorem kept_step (h : n.Joined fun _ => Kept) (hsafe : n.DeliversSafely e) (hsmall : n.Below) :
    (n.step e).Joined fun _ => Kept := by
  apply h.step
  intro o J J' hop hJ hJ'
  have hwire : ∀ seg, o = .segment seg → seg ∈ (n e.side.other).conn.segmentsOut := by
    rintro seg rfl
    exact mem_of_op hop
  refine ⟨hJ.send (hsmall _) hwire, hJ'.receive (hsmall _) hwire ?_ ?_⟩
  · rintro seg rfl
    cases e with
    | act s o => cases o <;> simp [op, LocalOp.op] at hop
    | deliver s i =>
      simp only [op, Option.map_eq_some_iff, TCPConnection.Op.segment.injEq] at hop
      obtain ⟨seg', hget, rfl⟩ := hop
      exact hsafe seg' hget
  · exact (hJ.toLinked.stepped (hsmall _) hwire).stamped

/-- Over every run that delivers safely, each byte that a sender has taken from its stream is held
by the other side or is outstanding. -/
theorem bytes_retained (h : Admitted step DeliversSafely (new cfg) es)
    (hsmall : (run step (new cfg) es).Below) (s : Side) :
    Retained (run step (new cfg) es s) (run step (new cfg) es s.other) := by
  obtain ⟨hfirst, hadm⟩ := h.and_of_last (fun _ _ => Below.of_step) hsmall
  have hinv := hadm.invariant (I := fun n => n.Below ∧ n.Joined fun _ => Kept)
    (fun n e hn ho => ⟨ho.2, kept_step hn.2 ho.1 hn.1⟩) ⟨hfirst, fun s => ⟨[], .new⟩⟩
  obtain ⟨J, hJ⟩ := hinv.2 s
  exact hJ.retained

/-- The FIN overtakes the first of two segments, but not the second one. -/
theorem bytes_retained_reordered :
    let cfg : Side → TCPConfig := fun s => { isn := if s = .x then ⟨4294967294⟩ else ⟨100⟩ }
    let es : List Event := [.act .x .connect, .deliver .y 0, .deliver .x 0, .act .x (.write [97]),
      .act .x (.write [98, 99]), .act .x .endInputStream, .deliver .y 3, .deliver .y 4,
      .deliver .x 2, .act .y (.tick 1000)]
    Retained (run step (new cfg) es .x) (run step (new cfg) es .y) := by
  intro cfg es
  exact bytes_retained (by decide) (fun s => by cases s <;> decide) .x

/-- The FIN overtakes the only data and is acknowledged at once, with the data. -/
theorem byte_forgotten_early_fin :
    let cfg : Side → TCPConfig := fun s => { isn := if s = .x then ⟨4294967294⟩ else ⟨100⟩ }
    let es : List Event := [.act .x .connect, .deliver .y 0, .deliver .x 0, .act .x (.write [97]),
      .act .x .endInputStream, .deliver .y 3, .deliver .x 1]
    let n := run step (new cfg) es
    n.Below ∧ (n .x).conn.active = true ∧ (n .x).sent = [97] ∧
      ((n .x).conn.sender.inFlight.map TCPSegment.payload) = [[]] ∧
      ¬ (n .y).conn.receiver.reassembler.Holds 0 ∧ ¬ Retained (n .x) (n .y) := by
  intro cfg es n
  have hpayload : (n .x).conn.sender.inFlight.map TCPSegment.payload = [[]] := by decide
  have hheld : ¬ (n .y).conn.receiver.reassembler.Holds 0 := by decide
  refine ⟨fun s => by cases s <;> decide, by decide, by decide, hpayload, hheld, fun h => ?_⟩
  rcases h 0 (by decide) with h | ⟨seg, hseg, i, _, hi, hlt, _⟩
  · exact hheld h
  · have hmem := List.mem_map_of_mem (f := TCPSegment.payload) hseg
    rw [hpayload, List.mem_singleton] at hmem
    simp [hmem] at hlt
    omega

end Network

end Sponge
