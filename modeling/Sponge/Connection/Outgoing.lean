import Sponge.Connection.Sending
import Sponge.Sender.Slices

/-! # What an endpoint puts on the wire

Every segment that an endpoint sends conveys a segment of its sender's journal, or is
empty. Its acknowledgment is the one that the receiver gives at that time.
-/

namespace Sponge

open Layout TCPSender

/-- A segment of the journal, or one without flags and bytes at a position behind the SYN. -/
def Sendable (journal : List TCPSegment) (isn : WrappingInt32) (g : TCPSegment) : Prop :=
  g.header.ack = false ∧
    ((∃ p, At len journal p g) ∨
      (g.header.syn = false ∧ g.header.fin = false ∧ g.payload = [] ∧
        ∃ p, 0 < p ∧ p ≤ extent len journal ∧ g.header.seqno = wrap p isn))

/-- The segment `seg` has the number, the flags and the bytes of `g`. -/
structure TCPSegment.Conveys (seg g : TCPSegment) : Prop where
  seqno : seg.header.seqno = g.header.seqno
  syn : seg.header.syn = g.header.syn
  fin : seg.header.fin = g.header.fin
  payload : seg.payload = g.payload

namespace TCPConnection

/-- Sender, queue and wire of an endpoint agree with the journal. -/
structure Outgoing (journal : List TCPSegment) (accepted : List UInt8) (c : TCPConnection) :
    Prop where
  flight : Flight journal c.sender
  tiled : Tiled journal accepted c.sender
  queue : ∀ g ∈ c.sender.segmentsOut, Sendable journal c.sender.isn g
  wire : ∀ seg ∈ c.segmentsOut, ∃ g, Sendable journal c.sender.isn g ∧ seg.Conveys g
  crtx : journal = [] → c.sender.crtx = 0

/-- What `c'` has sent beyond `c` is stamped with the acknowledgment of its receiver. -/
def Stamped (c c' : TCPConnection) : Prop :=
  ∀ seg ∈ c'.segmentsOut, seg ∈ c.segmentsOut ∨
    (seg.header.ack = true → c'.receiver.ackno = some seg.header.ackno)

/-- The journal of `c` grows to one that agrees with `c'`. -/
structure Grown (journal : List TCPSegment) (accepted : List UInt8) (c c' : TCPConnection) :
    Prop where
  out : ∃ journal', journal <+: journal' ∧ Outgoing journal' accepted c'
  isn : c'.sender.isn = c.sender.isn
  acked : c'.sender.acked = c.sender.acked
  ackno : c'.receiver.ackno = c.receiver.ackno
  stamped : Stamped c c'

variable {c c' c₁ : TCPConnection} {journal journal' : List TCPSegment} {accepted : List UInt8}
  {g seg : TCPSegment} {isn : WrappingInt32}

end TCPConnection

open TCPConnection

variable {journal journal' : List TCPSegment} {g seg : TCPSegment} {isn : WrappingInt32}

theorem Sendable.mono (h : Sendable journal isn g) (hj : journal <+: journal') :
    Sendable journal' isn g := by
  refine ⟨h.1, h.2.imp (fun ⟨p, hp⟩ => ⟨p, hp.mono hj⟩) ?_⟩
  rintro ⟨hs, hf, hpay, p, hpos, hle, hseq⟩
  exact ⟨hs, hf, hpay, p, hpos, hle.trans (extent_mono hj), hseq⟩

theorem Sendable.slice {accepted : List UInt8} {s : TCPSender} (ht : Tiled journal accepted s)
    (h : Sendable journal s.isn g) :
    (g.header.syn = true ∧ g.header.seqno = s.isn ∧ g.payload = [] ∧
      (g.header.fin = true → sentBytes journal = [])) ∨
    ∃ i, g.SliceOf (sentBytes journal) s.isn i := by
  rcases h.2 with ⟨p, hp⟩ | ⟨hs, hf, hpay, p, hpos, hle, hseq⟩
  · rcases Bool.eq_false_or_eq_true g.header.syn with hs | hs
    · have hz := (ht.syn p g hp).mp hs
      refine Or.inl ⟨hs, by rw [ht.seqno p g hp, hz, wrap_zero], ht.synPayload g hp.mem hs,
        fun hf => ?_⟩
      obtain ⟨before, hb, hext⟩ := hp
      have hall := ht.fin_last hb hf
      have hnil : before = [] := by
        by_contra hne
        have := extent_pos (fun x hx =>
          ht.len_pos x (((List.prefix_append _ _).trans hb).subset hx)) hne
        omega
      rw [← hall, hnil, List.nil_append, sentBytes_singleton]
      exact ht.synPayload g (hb.subset (by simp)) hs
    · obtain ⟨i, _, hcut⟩ := ht.cutFrom hp hs
      exact Or.inr ⟨i, hcut.sliceOf⟩
  · have hle' := ht.extent_le
    refine Or.inr ⟨p - 1, hs, ?_, by simp [hpay], by omega, by simp [hf]⟩
    rw [hseq]
    congr 1
    omega

namespace TCPConnection

theorem Outgoing.new {cfg : TCPConfig} : Outgoing [] [] (new cfg) where
  flight := .new
  tiled := .new
  queue := by simp [TCPConnection.new, TCPSender.new]
  wire := by simp [TCPConnection.new]
  crtx _ := rfl

theorem Outgoing.congr (h : Outgoing journal accepted c) (hs : c'.sender = c.sender)
    (hw : c'.segmentsOut = c.segmentsOut) : Outgoing journal accepted c' where
  flight := by rw [hs]; exact h.flight
  tiled := by rw [hs]; exact h.tiled
  queue := by rw [hs]; exact h.queue
  wire := by rw [hs, hw]; exact h.wire
  crtx := by rw [hs]; exact h.crtx

theorem Outgoing.grown (h : Outgoing journal accepted c') (hisn : c'.sender.isn = c.sender.isn)
    (hacked : c'.sender.acked = c.sender.acked) (hackno : c'.receiver.ackno = c.receiver.ackno)
    (hw : c'.segmentsOut = c.segmentsOut) : Grown journal accepted c c' where
  out := ⟨journal, List.prefix_rfl, h⟩
  isn := hisn
  acked := hacked
  ackno := hackno
  stamped _ hseg := Or.inl (hw ▸ hseg)

theorem Grown.trans (h : Grown journal accepted c c₁)
    (h' : ∀ journal', journal <+: journal' → Outgoing journal' accepted c₁ →
      Grown journal' accepted c₁ c') : Grown journal accepted c c' := by
  obtain ⟨journal₁, hj, hout⟩ := h.out
  have hg := h' journal₁ hj hout
  obtain ⟨journal₂, hj', hout'⟩ := hg.out
  refine ⟨⟨journal₂, hj.trans hj', hout'⟩, hg.isn.trans h.isn, hg.acked.trans h.acked,
    hg.ackno.trans h.ackno, fun seg hseg => ?_⟩
  rcases hg.stamped seg hseg with hseg | hseg
  · exact (h.stamped seg hseg).imp_right fun ha hack => hg.ackno.trans (ha hack)
  · exact Or.inr hseg

theorem Stamped.stamp (c : TCPConnection) (g : TCPSegment) (hg : g.header.ack = false) :
    (c.stamp g).Conveys g ∧
      ((c.stamp g).header.ack = true → c.receiver.ackno = some (c.stamp g).header.ackno) := by
  unfold TCPConnection.stamp
  cases c.receiver.ackno <;> exact ⟨⟨rfl, rfl, rfl, rfl⟩, by simp [hg]⟩

theorem Outgoing.fillWindowAndSend (h : Outgoing journal accepted c) :
    Grown journal accepted c c.fillWindowAndSend.1 ∧
      ∃ journal', journal <+: journal' ∧ journal' ≠ [] ∧
        Outgoing journal' accepted c.fillWindowAndSend.1 := by
  obtain ⟨segs, hf⟩ := filled_fillWindow h.tiled.consistent h.tiled.fresh
  obtain ⟨w, hw, _⟩ := c.sender.opened_eq
  have hqueue := hf.segmentsOut
  have hacked := congrArg TCPSender.acked hf.base
  simp only [hw, base] at hqueue hacked
  have ht := h.tiled.filled hf
  have hpre : journal <+: journal ++ segs := List.prefix_append _ _
  have hne : journal ++ segs ≠ [] := fun hnil => hf.window_ne (ht.closed.mpr hnil)
  -- what is in the queue comes from before, or was newly cut
  have hsend : ∀ g ∈ c.sender.fillWindow.segmentsOut,
      Sendable (journal ++ segs) c.sender.isn g := by
    intro g hg
    rw [hqueue] at hg
    rcases List.mem_append.mp hg with hg | hg
    · exact (h.queue g hg).mono hpre
    · obtain ⟨p, hp⟩ : ∃ p, At len (journal ++ segs) p g :=
        exists_at_of_mem (List.mem_append_right journal hg)
      exact ⟨hf.plain g hg, Or.inl ⟨p, hp⟩⟩
  have hout : Outgoing (journal ++ segs) accepted c.fillWindowAndSend.1 := by
    rw [fillWindowAndSend_eq]
    refine
      { flight := (h.flight.filled hf).other _ c.sender.fillWindow.crtx hf.consistent
        tiled := ht.requeue [] c.sender.fillWindow.crtx
        queue := by simp
        wire := fun seg hseg => ?_
        crtx := fun hnil => absurd hnil hne }
    simp only [hf.isn_eq]
    rcases List.mem_append.mp hseg with hseg | hseg
    · obtain ⟨g, hg, hconv⟩ := h.wire seg hseg
      exact ⟨g, hg.mono hpre, hconv⟩
    · obtain ⟨g, hg, rfl⟩ := List.mem_map.mp hseg
      exact ⟨g, hsend g hg, (Stamped.stamp c g (hsend g hg).1).1⟩
  refine ⟨⟨⟨_, hpre, hout⟩, ?_, ?_, ?_, ?_⟩, _, hpre, hne, hout⟩
  · rw [fillWindowAndSend_eq]
    exact hf.isn_eq
  · rw [fillWindowAndSend_eq]
    exact hacked
  · rw [fillWindowAndSend_eq]
  · rw [fillWindowAndSend_eq]
    intro seg hseg
    apply (List.mem_append.mp hseg).imp_right
    intro hseg
    obtain ⟨g, hg, rfl⟩ := List.mem_map.mp hseg
    exact (Stamped.stamp c g (hsend g hg).1).2

theorem Outgoing.sendEmptySegment (h : Outgoing journal accepted c) (hne : journal ≠ []) :
    Outgoing journal accepted { c with sender := c.sender.sendEmptySegment } where
  flight := h.flight.other _ _ h.tiled.consistent
  tiled := h.tiled.requeue _ 0
  queue g hg := by
    rcases List.mem_append.mp hg with hg | hg
    · exact h.queue g hg
    · rw [List.mem_singleton] at hg
      have hnext := h.tiled.nextSeqno
      have hpos := extent_pos h.tiled.len_pos hne
      subst hg
      exact ⟨rfl, Or.inr ⟨rfl, rfl, rfl, _, by omega, hnext.le, rfl⟩⟩
  wire := h.wire
  crtx hnil := absurd hnil hne

theorem Outgoing.reply (h : Outgoing journal accepted c) (seg : TCPSegment) :
    Grown journal accepted c (c.reply seg) := by
  obtain ⟨hgrown, journal₁, hpre, hne, hout⟩ := h.fillWindowAndSend
  unfold TCPConnection.reply
  simp only
  split_ifs
  · -- an empty segment is queued before the window is filled again
    have hempty := hout.sendEmptySegment hne
    have hg := hempty.fillWindowAndSend.1
    obtain ⟨journal₂, hpre', hout'⟩ := hg.out
    refine ⟨⟨journal₂, hpre.trans hpre', hout'⟩, hg.isn.trans hgrown.isn,
      hg.acked.trans hgrown.acked, hg.ackno.trans hgrown.ackno, fun seg hseg => ?_⟩
    rcases hg.stamped seg hseg with hseg | hseg
    · exact (hgrown.stamped seg hseg).imp_right fun ha hack => hg.ackno.trans (ha hack)
    · exact Or.inr hseg
  · exact hgrown

theorem Outgoing.sendRST (h : Outgoing journal accepted c) (hne : journal ≠ []) :
    Grown journal accepted c c.sendRST := by
  have hempty := h.sendEmptySegment hne
  unfold TCPConnection.sendRST
  simp only
  split
  · next hnil => simp [TCPSender.sendEmptySegment] at hnil
  · next seg queue hqueue =>
    have hseg : Sendable journal c.sender.isn seg := hempty.queue seg (by simp [hqueue])
    refine
      { out := ⟨journal, List.prefix_rfl,
          { flight := h.flight.other _ 0 h.tiled.consistent.setError
            tiled := (h.tiled.requeue queue 0).setError
            queue := fun g hg => hempty.queue g (by
              simp only [hqueue]
              exact List.mem_cons_of_mem _ hg)
            wire := fun seg' hseg' => ?_
            crtx := fun hnil => absurd hnil hne }⟩
        isn := rfl
        acked := rfl
        ackno := rfl
        stamped := fun seg' hseg' => ?_ }
    · rcases List.mem_append.mp hseg' with hseg' | hseg'
      · exact h.wire seg' hseg'
      · rw [List.mem_singleton] at hseg'
        subst hseg'
        exact ⟨seg, hseg, rfl, rfl, rfl, rfl⟩
    · apply (List.mem_append.mp hseg').imp_right
      intro hseg' hack
      rw [List.mem_singleton] at hseg'
      subst hseg'
      simp [hseg.1] at hack

theorem Outgoing.senderTick (h : Outgoing journal accepted c) (ms : ℕ) :
    Outgoing journal accepted { c with sender := c.sender.tick ms } := by
  obtain ⟨again, ht⟩ := c.sender.ticked_tick ms
  have hisn : (c.sender.tick ms).isn = c.sender.isn := by rw [ht.frame]
  have hqueue : (c.sender.tick ms).segmentsOut = c.sender.segmentsOut ++ again.toList := by
    rw [ht.frame]
  have hplaced : ∀ g ∈ again, ∃ p, At len journal p g := fun g hg => by
    obtain ⟨p, hp, _⟩ := h.flight.placed g (ht.resent g hg)
    exact ⟨p, hp⟩
  exact
    { flight := h.flight.tick ms
      tiled := h.tiled.tick ms
      queue := fun g hg => by
        simp only [hqueue, hisn] at hg ⊢
        rcases List.mem_append.mp hg with hg | hg
        · exact h.queue g hg
        · have hg' : g ∈ again := by simpa using hg
          obtain ⟨p, hp⟩ := hplaced g hg'
          exact ⟨h.tiled.plain g hp.mem, Or.inl ⟨p, hp⟩⟩
      wire := by
        simp only [hisn]
        exact h.wire
      crtx := fun hnil => by
        cases again with
        | none => exact (ht.crtx rfl).trans (h.crtx hnil)
        | some g =>
          obtain ⟨p, hp⟩ := hplaced g rfl
          exact absurd hp (hnil ▸ not_at_nil) }

theorem Outgoing.tick (h : Outgoing journal accepted c) (ms : ℕ) :
    Grown journal accepted c (c.tick ms) := by
  obtain ⟨again, ht⟩ := c.sender.ticked_tick ms
  have hticked : ∀ linger active, Grown journal accepted c { c with
      tnow := (c.tnow + ms) % 2 ^ 64, lingerAfterStreamsFinish := linger, active := active
      sender := c.sender.tick ms } := fun linger active => by
    have hout : Outgoing journal accepted { c with
        tnow := (c.tnow + ms) % 2 ^ 64, lingerAfterStreamsFinish := linger, active := active
        sender := c.sender.tick ms } := (h.senderTick ms).congr rfl rfl
    exact hout.grown (by rw [ht.frame]) (by rw [ht.frame]) rfl rfl
  rcases c.tick_cases ms with hs | ⟨_, linger, active, _, ⟨hmany, hs⟩ | hs⟩
  · rw [hs]
    exact h.grown rfl rfl rfl rfl
  · rw [hs]
    refine (hticked linger active).trans fun journal' hpre hout' => hout'.sendRST fun hnil => ?_
    have hz := hout'.crtx hnil
    simp only [consecutiveRetransmissions] at hmany
    rw [hz] at hmany
    exact absurd hmany (by decide)
  · rw [hs]
    exact (hticked linger active).trans fun journal' _ hout' => hout'.fillWindowAndSend.1

/-- The acknowledgment that an operation hands to the sender. -/
def Op.ackno : Op → Option WrappingInt32
  | .segment seg => if seg.header.ack then some seg.header.ackno else none
  | _ => none

/-- The bytes that an operation adds to the outbound stream. -/
def newBytes (c : TCPConnection) : Op → List UInt8
  | .write data => data.take (c.write data).2
  | _ => []

/-- An acknowledgment of a position behind the SYN. -/
def AcksSyn (isn ackno : WrappingInt32) : Prop := ∃ k, 0 < k ∧ k < 2 ^ 32 ∧ ackno = wrap k isn

/-- What an operation does to the sender and the wire of an endpoint. -/
structure Stepped (journal : List TCPSegment) (accepted : List UInt8) (c c' : TCPConnection)
    (ackno : Option WrappingInt32) : Prop where
  out : ∃ journal', journal <+: journal' ∧ Outgoing journal' accepted c'
  isn : c'.sender.isn = c.sender.isn
  acked : c'.sender.acked = c.sender.acked ∨ ∃ a ∈ ackno,
    c'.sender.acked = unwrap a c.sender.isn c.sender.acked ∧
      c'.sender.acked ≤ c.sender.nextSeqno
  stamped : Stamped c c'

theorem Grown.stepped {ackno : Option WrappingInt32} (h : Grown journal accepted c c') :
    Stepped journal accepted c c' ackno :=
  ⟨h.out, h.isn, Or.inl h.acked, h.stamped⟩

theorem ackReceived_early {s : TCPSender} (hf : s.Fresh) {ackno : WrappingInt32}
    {windowSize : UInt16} (hack : AcksSyn s.isn ackno) (hw : s.window = -1) :
    s.ackReceived ackno windowSize = s := by
  obtain ⟨hnext, hacked, _⟩ := hf hw
  obtain ⟨k, hpos, hlt, rfl⟩ := hack
  apply (s.ackReceived_cases _ windowSize).elim And.left
  intro h
  exfalso
  have hle := h.le
  rw [hnext, hacked] at hle
  have hwrap := wrap_unwrap (wrap k s.isn) s.isn (c := 0) (by norm_num)
  rw [wrap_eq_wrap_iff] at hwrap
  omega

theorem Outgoing.takeIn (h : Outgoing journal accepted c) (seg : TCPSegment)
    (hsmall : c.sender.nextSeqno < 2 ^ 63)
    (hack : seg.header.ack = true → AcksSyn c.sender.isn seg.header.ackno) :
    Outgoing journal accepted (c.takeIn seg) ∧ (c.takeIn seg).sender.isn = c.sender.isn ∧
      ((c.takeIn seg).sender.acked = c.sender.acked ∨ (seg.header.ack = true ∧
        (c.takeIn seg).sender.acked = unwrap seg.header.ackno c.sender.isn c.sender.acked ∧
        (c.takeIn seg).sender.acked ≤ c.sender.nextSeqno)) := by
  by_cases ha : seg.header.ack = true
  · have hsender : (c.takeIn seg).sender =
        c.sender.ackReceived seg.header.ackno seg.header.win := if_pos ha
    have hf := h.flight.ackReceived seg.header.ackno seg.header.win (by omega)
    have ht := h.tiled.ackReceived seg.header.win
      (ackReceived_early h.tiled.fresh (hack ha))
    rcases c.sender.ackReceived_cases seg.header.ackno seg.header.win with ⟨hs, _⟩ | hs
    · rw [hs] at hsender
      exact ⟨h.congr hsender rfl, by rw [hsender], Or.inl (by rw [hsender])⟩
    · have hframe := hs.frame
      refine ⟨⟨by rwa [hsender], by rwa [hsender], ?_, ?_, ?_⟩, ?_, Or.inr ⟨ha, ?_, ?_⟩⟩ <;>
        rw [hsender, hframe]
      · exact h.queue
      · exact h.wire
      · exact h.crtx
      · exact hs.le
  · have hsender : (c.takeIn seg).sender = c.sender := if_neg ha
    exact ⟨h.congr hsender rfl, by rw [hsender], Or.inl (by rw [hsender])⟩

theorem Outgoing.segmentReceived (h : Outgoing journal accepted c)
    (hsmall : c.sender.nextSeqno < 2 ^ 63)
    (hack : seg.header.ack = true → AcksSyn c.sender.isn seg.header.ackno) :
    Stepped journal accepted c (c.segmentReceived seg) (Op.ackno (.segment seg)) := by
  rcases c.segmentReceived_cases seg with
    ⟨_, hs⟩ | ⟨_, _, hs⟩ | ⟨_, _, active, received, linger, active', hs, _⟩
  · rw [hs]
    exact (h.grown rfl rfl rfl rfl).stepped
  · rw [hs]
    have hout : Outgoing journal accepted c.reset :=
      { flight := h.flight.other _ c.sender.crtx h.tiled.consistent.setError
        tiled := h.tiled.setError
        queue := h.queue
        wire := h.wire
        crtx := h.crtx }
    exact (hout.grown (c := c) rfl rfl rfl rfl).stepped
  · rw [hs]
    set c₂ : TCPConnection := { c with
      active := active, finreceived := received, lingerAfterStreamsFinish := linger }
    have hc : Outgoing journal accepted c₂ := h.congr rfl rfl
    obtain ⟨hout, hisn, hacked⟩ := hc.takeIn seg hsmall hack
    have hg := hout.reply seg
    obtain ⟨journal', hpre, hout'⟩ := hg.out
    refine ⟨⟨journal', hpre, hout'.congr rfl rfl⟩, hg.isn.trans hisn, ?_, hg.stamped⟩
    have hacked' := hg.acked
    simp only [hacked']
    apply hacked.imp id
    rintro ⟨ha, heq, hle⟩
    exact ⟨seg.header.ackno, by simp [Op.ackno, ha], heq, hle⟩

theorem Outgoing.stepped_stream {stream : ByteStream}
    (h : Outgoing journal accepted { c with sender := { c.sender with stream := stream } }) :
    Stepped journal accepted c
      ({ c with sender := { c.sender with stream := stream } }).fillWindowAndSend.1 none :=
  ((h.grown (c := c) rfl rfl rfl rfl).trans fun _ _ h' => h'.fillWindowAndSend.1).stepped

/-- Every operation of an endpoint keeps what it sends in agreement with a growing journal. -/
theorem Outgoing.step (h : Outgoing journal accepted c) (hsmall : c.sender.nextSeqno < 2 ^ 63)
    (o : Op) (hack : ∀ a ∈ o.ackno, AcksSyn c.sender.isn a) :
    Stepped journal (accepted ++ c.newBytes o) c (c.step o) o.ackno := by
  cases o with
  | connect =>
    simp only [newBytes, List.append_nil]
    exact h.fillWindowAndSend.1.stepped
  | write data =>
    rw [TCPConnection.step, newBytes, TCPConnection.write]
    split_ifs
    · have hout : Outgoing journal (accepted ++ data.take (c.sender.stream.write data).2)
          { c with sender := { c.sender with stream := (c.sender.stream.write data).1 } } :=
        { flight := h.flight.other _ c.sender.crtx h.tiled.consistent.write
          tiled := h.tiled.write data
          queue := h.queue
          wire := h.wire
          crtx := h.crtx }
      exact hout.stepped_stream
    · simp only [List.take_zero, List.append_nil]
      exact (h.grown rfl rfl rfl rfl).stepped
  | endInputStream =>
    simp only [newBytes, List.append_nil]
    rw [TCPConnection.step, TCPConnection.endInputStream]
    split_ifs
    · have hout : Outgoing journal accepted
          { c with sender := { c.sender with stream := c.sender.stream.endInput } } :=
        { flight := h.flight.other _ c.sender.crtx h.tiled.consistent.endInput
          tiled := h.tiled.endInput
          queue := h.queue
          wire := h.wire
          crtx := h.crtx }
      exact hout.stepped_stream
    · exact (h.grown rfl rfl rfl rfl).stepped
  | tick ms =>
    simp only [newBytes, List.append_nil]
    exact (h.tick ms).stepped
  | read len =>
    simp only [newBytes, List.append_nil]
    refine ⟨⟨journal, List.prefix_rfl, h.congr rfl rfl⟩, rfl, Or.inl rfl, fun _ => Or.inl⟩
  | segment seg =>
    simp only [newBytes, List.append_nil]
    exact h.segmentReceived hsmall fun ha => hack _ (by simp [Op.ackno, ha])

end TCPConnection

end Sponge
