import Sponge.Connection.GivingUp
import Sponge.Connection.Incoming
import Sponge.Library.Runs
import Sponge.Receiver.Completion

/-! # Advertised windows

Every segment that an endpoint fills in advertises the whole capacity, up to 65535
bytes. That is the window of its receiver only as long as no byte waits to be read,
or 65535 bytes of room are left. Where it is, the bytes inside the window find room
at any later time, unless a FIN is counted too early.
-/

namespace Sponge

open Runs

/-- A byte at position `p` is discarded for lack of capacity. -/
def TCPReceiver.Discards (r : TCPReceiver) (p : ℕ) : Prop := r.reassembler.windowEnd ≤ p

namespace TCPConnection

/-- The receiver at the time when an operation sends: an arriving segment has been taken in. -/
def receiverAt (c : TCPConnection) : Op → TCPReceiver
  | .segment seg => if c.takes seg then c.receiver.segmentReceived seg else c.receiver
  | _ => c.receiver

/-- The segments that an operation puts on the wire. -/
def appended (c : TCPConnection) (o : Op) : List TCPSegment :=
  (c.step o).segmentsOut.drop c.segmentsOut.length

/-- An operation sends a segment that is no RST. -/
def Sends (c : TCPConnection) (o : Op) : Prop := ∃ seg ∈ c.appended o, seg.header.rst = false

/-- No byte waits to be read, or 65535 bytes of room are left. -/
def Roomy (c : TCPConnection) (r : TCPReceiver) : Prop :=
  r.windowSize = c.cfg.recvCapacity.toNat ∨
    (65535 ≤ r.windowSize ∧ 65535 ≤ c.cfg.recvCapacity.toNat)

/-- A FIN that the operation acknowledges is not counted too early: a segment that is taken in
counts it truly, and otherwise the one that is counted already has ended the stream, or more than
65535 bytes of room are left. -/
def AcksTruly (c : TCPConnection) : Op → Prop
  | .segment seg =>
    if c.takes seg = true ∧ c.receiver.Live seg then c.receiver.CountsFin seg
    else c.receiver.FinCounted →
      c.inboundStream.inputEnded = true ∨ 65535 < c.receiver.windowSize
  | _ =>
    c.receiver.FinCounted → c.inboundStream.inputEnded = true ∨ 65535 < c.receiver.windowSize

/-- The operation sends with room left and counts the FIN truly, what it takes in is stored in
order, and the bytes read are counted in 64 bits. -/
def SendsRoomy (c : TCPConnection) (o : Op) : Prop :=
  (c.Sends o → c.Roomy (c.receiverAt o) ∧ c.AcksTruly o) ∧
    match o with
    | .read len =>
      c.inboundStream.bytesRead + len + c.receiver.reassembler.capacity < 2 ^ 64
    | .segment seg => c.takes seg = true ∧ c.receiver.Live seg → c.receiver.Orders seg
    | _ => True

instance (c : TCPConnection) (r : TCPReceiver) : Decidable (c.Roomy r) :=
  inferInstanceAs (Decidable (_ ∨ _))

instance (c : TCPConnection) (o : Op) : Decidable (c.Sends o) :=
  inferInstanceAs (Decidable (∃ _ ∈ _, _))

/-- From `c` to `c'`, segments were filled in and put on the wire. -/
structure Puts (c c' : TCPConnection) : Prop where
  cfg : c'.cfg = c.cfg
  receiver : c'.receiver = c.receiver
  out : ∃ segs, c'.segmentsOut = c.segmentsOut ++ segs ∧ ∀ seg ∈ segs, ∃ g, seg = c.stamp g

variable {c c' c₁ : TCPConnection} {seg g : TCPSegment}

theorem stamp_congr (hc : c'.cfg = c.cfg) (hr : c'.receiver = c.receiver) (g : TCPSegment) :
    c'.stamp g = c.stamp g := by
  simp only [stamp, hc, hr]

theorem stamp_win (c : TCPConnection) (g : TCPSegment) :
    (c.stamp g).header.win.toNat = min c.cfg.recvCapacity.toNat 65535 := by
  have hwin : (c.stamp g).header.win =
      if 65535 < c.cfg.recvCapacity then 65535 else c.cfg.recvCapacity.toUInt16 := rfl
  rw [hwin]
  split_ifs with h
  · have := UInt64.lt_iff_toNat_lt.mp h
    simp only [UInt64.reduceToNat, UInt16.reduceToNat] at this ⊢
    omega
  · have := UInt64.lt_iff_toNat_lt.not.mp h
    simp only [UInt64.reduceToNat, UInt64.toNat_toUInt16] at this ⊢
    omega

theorem stamp_ackno {a : WrappingInt32} (h : c.receiver.ackno = some a) (g : TCPSegment) :
    (c.stamp g).header.ack = true ∧ (c.stamp g).header.ackno = a := by
  simp only [stamp, h, and_self]

theorem Puts.refl (hc : c'.cfg = c.cfg) (hr : c'.receiver = c.receiver)
    (hs : c'.segmentsOut = c.segmentsOut) : Puts c c' :=
  ⟨hc, hr, [], by simpa using hs, by simp⟩

theorem Puts.trans (h : Puts c c₁) (h' : Puts c₁ c') : Puts c c' := by
  obtain ⟨segs, hout, hsegs⟩ := h.out
  obtain ⟨segs', hout', hsegs'⟩ := h'.out
  refine ⟨h'.cfg.trans h.cfg, h'.receiver.trans h.receiver, segs ++ segs', ?_, fun seg hseg => ?_⟩
  · rw [hout', hout, List.append_assoc]
  · rcases List.mem_append.mp hseg with hseg | hseg
    · exact hsegs seg hseg
    · obtain ⟨g, rfl⟩ := hsegs' seg hseg
      exact ⟨g, stamp_congr h.cfg h.receiver g⟩

theorem puts_fillWindowAndSend (c : TCPConnection) : Puts c c.fillWindowAndSend.1 := by
  rw [fillWindowAndSend_eq]
  refine ⟨rfl, rfl, _, rfl, fun seg hseg => ?_⟩
  obtain ⟨g, _, rfl⟩ := List.mem_map.mp hseg
  exact ⟨g, rfl⟩

theorem puts_reply (c : TCPConnection) (seg : TCPSegment) : Puts c (c.reply seg) := by
  unfold reply
  simp only
  split_ifs
  · have hempty : Puts c.fillWindowAndSend.1
        { c.fillWindowAndSend.1 with
          sender := c.fillWindowAndSend.1.sender.sendEmptySegment } := .refl rfl rfl rfl
    exact ((puts_fillWindowAndSend c).trans hempty).trans (puts_fillWindowAndSend _)
  · exact puts_fillWindowAndSend c

/-- Every answer acknowledges what has been received, and there is one to a segment that takes
numbers. -/
theorem reply_acknowledges (c : TCPConnection) (seg : TCPSegment)
    (hackno : c.receiver.ackno.isSome) :
    ∃ segs, (c.reply seg).segmentsOut = c.segmentsOut ++ segs ∧
      (¬ (seg.payload = [] ∧ seg.header.syn = false ∧ seg.header.fin = false) → segs ≠ []) ∧
      ∀ g ∈ segs, g.header.ack = true ∧ some g.header.ackno = c.receiver.ackno := by
  obtain ⟨ackno, hackno⟩ := Option.isSome_iff_exists.mp hackno
  obtain ⟨-, -, segs, hout, hstamped⟩ := puts_reply c seg
  refine ⟨segs, hout, ?_, ?_⟩
  · rintro hoccupied rfl
    have hlt := c.length_lt_reply hoccupied
    rw [hout, List.append_nil] at hlt
    exact absurd hlt (lt_irrefl _)
  · intro g hg
    obtain ⟨g', rfl⟩ := hstamped g hg
    obtain ⟨hack, hnumber⟩ := stamp_ackno hackno g'
    exact ⟨hack, by rw [hnumber, hackno]⟩

/-- From `c` to `c'`, segments were put on the wire; all but a RST were filled in from `r`, which
stays, but for an error. -/
structure PutsAt (r : TCPReceiver) (c c' : TCPConnection) : Prop where
  receiver : c'.receiver = r ∨ c'.receiver = r.setError
  out : ∃ segs, c'.segmentsOut = c.segmentsOut ++ segs ∧
    ∀ seg ∈ segs, seg.header.rst = false →
      ∃ g, seg = ({ c with receiver := r } : TCPConnection).stamp g

theorem Puts.at {r : TCPReceiver} (h : Puts c₁ c') (hc : c₁.cfg = c.cfg) (hr : c₁.receiver = r)
    (hs : c₁.segmentsOut = c.segmentsOut) : PutsAt r c c' := by
  obtain ⟨segs, hout, hsegs⟩ := h.out
  refine ⟨Or.inl (h.receiver.trans hr), segs, by rw [hout, hs], fun seg hseg _ => ?_⟩
  obtain ⟨g, rfl⟩ := hsegs seg hseg
  exact ⟨g, stamp_congr (c := { c with receiver := r }) hc hr g⟩

theorem putsAt_step (c : TCPConnection) {o : Op} (hread : ∀ len, o ≠ .read len) :
    PutsAt (c.receiverAt o) c (c.step o) := by
  cases o with
  | connect => exact (puts_fillWindowAndSend c).at rfl rfl rfl
  | write data =>
    rw [TCPConnection.step, TCPConnection.write]
    split_ifs
    · exact (puts_fillWindowAndSend _).at rfl rfl rfl
    · exact (Puts.refl rfl rfl rfl).at rfl rfl rfl
  | endInputStream =>
    rw [TCPConnection.step, TCPConnection.endInputStream]
    split_ifs
    · exact (puts_fillWindowAndSend _).at rfl rfl rfl
    · exact (Puts.refl rfl rfl rfl).at rfl rfl rfl
  | read len => exact absurd rfl (hread len)
  | tick ms =>
    rw [TCPConnection.step]
    rcases c.tick_cases ms with h | ⟨_, linger, active, _, ⟨_, h⟩ | h⟩
    · rw [h]
      exact (Puts.refl rfl rfl rfl).at rfl rfl rfl
    · rw [h]
      set c₁ : TCPConnection := { c with
        tnow := (c.tnow + ms) % 2 ^ 64, lingerAfterStreamsFinish := linger, active := active
        sender := c.sender.tick ms }
      obtain ⟨seg, hout, hrst⟩ := sendRST_segmentsOut c₁
      refine ⟨sendRST_receiver c₁, [seg], hout, fun seg' hseg' hno => ?_⟩
      rw [List.mem_singleton.mp hseg', hrst] at hno
      exact absurd hno (by decide)
    · rw [h]
      exact (puts_fillWindowAndSend _).at rfl rfl rfl
  | segment seg =>
    rw [TCPConnection.step]
    rcases c.segmentReceived_cases seg with
      ⟨hi, h⟩ | ⟨hi, hr, h⟩ | ⟨hi, hr, active, received, linger, active', h, _⟩
    · rw [h]
      exact (Puts.refl rfl rfl rfl).at rfl (by simp [receiverAt, takes, hi]) rfl
    · rw [h]
      refine ⟨Or.inr ?_, [], (List.append_nil _).symm, by simp⟩
      simp [receiverAt, takes, hi, hr, reset]
    · rw [h]
      set c₃ := takeIn { c with
        active := active, finreceived := received, lingerAfterStreamsFinish := linger } seg
      have hputs : Puts c₃ { c₃.reply seg with active := active' } :=
        (puts_reply c₃ seg).trans (.refl rfl rfl rfl)
      refine hputs.at rfl ?_ rfl
      simp only [receiverAt, takes, hi, hr, Bool.not_false, Bool.and_self, if_true]
      rfl

theorem windowed_receiverAt (h : c.receiver.Windowed) {o : Op} (ho : c.SendsRoomy o) :
    (c.receiverAt o).Windowed ∧
      (c.receiverAt o).reassembler.windowEnd = c.receiver.reassembler.windowEnd := by
  cases o with
  | segment seg =>
    by_cases ht : c.takes seg = true
    · rw [receiverAt, if_pos ht]
      refine ⟨?_, (c.receiver.windowEnd_segmentReceived seg).2.2⟩
      by_cases hlive : c.receiver.Live seg
      · exact h.segment hlive (ho.2 ⟨ht, hlive⟩)
      · simp only [TCPReceiver.Live, not_or, Bool.not_eq_true, not_not] at hlive
        rw [TCPReceiver.segmentReceived_listen hlive.1 hlive.2]
        exact h.congr rfl rfl
    · rw [receiverAt, if_neg ht]
      exact ⟨h, rfl⟩
  | _ => exact ⟨h, rfl⟩

theorem reaches_receiverAt (h : c.receiver.Windowed) {o : Op} (ho : c.SendsRoomy o)
    (hacks : c.AcksTruly o) : (c.receiverAt o).Reaches := by
  have hold : (c.receiver.FinCounted →
      c.inboundStream.inputEnded = true ∨ 65535 < c.receiver.windowSize) →
      c.receiver.Reaches := h.reaches_iff.mpr
  cases o with
  | segment seg =>
    by_cases ht : c.takes seg = true
    · rw [receiverAt, if_pos ht]
      by_cases hlive : c.receiver.Live seg
      · rw [AcksTruly, if_pos ⟨ht, hlive⟩] at hacks
        exact (h.reaches_segment_iff hlive (ho.2 ⟨ht, hlive⟩)).mpr hacks
      · rw [AcksTruly, if_neg (fun h => hlive h.2)] at hacks
        simp only [TCPReceiver.Live, not_or, Bool.not_eq_true, not_not] at hlive
        rw [TCPReceiver.segmentReceived_listen hlive.1 hlive.2]
        exact hold hacks
    · rw [AcksTruly, if_neg (fun h => ht h.1)] at hacks
      rw [receiverAt, if_neg ht]
      exact hold hacks
  | _ => exact hold hacks

/-- The end of the window in which bytes are kept never moves back. -/
theorem windowEnd_le_step (h : c.receiver.Windowed) {o : Op} (ho : c.SendsRoomy o) :
    (c.step o).receiver.Windowed ∧
      c.receiver.reassembler.windowEnd ≤ (c.step o).receiver.reassembler.windowEnd := by
  rcases c.step_receiver o with ⟨seg, rfl, ht, hr⟩ | ⟨len, rfl, hr⟩ | ⟨_, hr⟩
  · have hat := windowed_receiverAt h ho
    rw [receiverAt, if_pos ht, ← hr] at hat
    exact ⟨hat.1, hat.2.ge⟩
  · have hlen := ho.2
    rw [h.capacity] at hlen
    rw [hr]
    exact ⟨(h.read hlen).1, (h.read hlen).2 ▸ Nat.le_add_right _ _⟩
  · rcases hr with hr | hr
    · rw [hr]
      exact ⟨h, le_rfl⟩
    · rw [hr]
      exact ⟨h.setError, le_rfl⟩

theorem windowEnd_le_run {ops : List Op} (h : c.receiver.Windowed)
    (hops : Admitted step SendsRoomy c ops) :
    c.receiver.reassembler.windowEnd ≤ (run step c ops).receiver.reassembler.windowEnd := by
  induction ops generalizing c with
  | nil => exact le_rfl
  | cons o ops ih =>
    obtain ⟨hnext, hle⟩ := windowEnd_le_step h hops.1
    exact hle.trans (ih hnext hops.2)

/-- In runs that send with room left, every segment but a RST advertises the window of the
receiver, and no byte inside it is ever discarded for lack of capacity. -/
theorem windows_truthful {cfg : TCPConfig} {ops : List Op}
    (h : Admitted step SendsRoomy (new cfg) ops) :
    ∀ before o later, before ++ o :: later <+: ops →
      let c := run step (new cfg) before
      let r := c.receiverAt o
      ∀ seg ∈ c.appended o, seg.header.rst = false →
        seg.header.win.toNat = min r.windowSize 65535 ∧
        ∀ a, r.ackno = some a →
          seg.header.ack = true ∧ seg.header.ackno = a ∧ a = wrap r.ackedTo r.isn ∧
          (r.streamOut.inputEnded = false → ∀ p, r.ackedTo ≤ 1 + p →
            1 + p < r.ackedTo + seg.header.win.toNat →
            ¬ (run step (c.step o) later).receiver.Discards p) := by
  intro before o later hp c r seg hseg hrst
  obtain ⟨hbefore, ho, hlater⟩ : Admitted step SendsRoomy (new cfg) before ∧ c.SendsRoomy o ∧
      Admitted step SendsRoomy (c.step o) later := admitted_append.mp (h.of_isPrefix hp)
  have hread : ∀ len, o ≠ .read len := by
    rintro len rfl
    simp [appended, TCPConnection.step, TCPConnection.read] at hseg
  obtain ⟨hreceiver, segs, hout, hsegs⟩ := c.putsAt_step hread
  have hwindowed : c.receiver.Windowed :=
    hbefore.invariant (I := fun c => c.receiver.Windowed)
      (fun _ _ hc ho => (windowEnd_le_step hc ho).1) (.new cfg.recvCapacity.toNat_lt)
  obtain ⟨hroomy, hacks⟩ : c.Roomy r ∧ c.AcksTruly o := ho.1 ⟨seg, hseg, hrst⟩
  have hreaches : r.Reaches := reaches_receiverAt hwindowed ho hacks
  rw [appended, hout, List.drop_left] at hseg
  obtain ⟨g, rfl⟩ := hsegs seg hseg hrst
  have hwin : (({ c with receiver := r } : TCPConnection).stamp g).header.win.toNat =
      min c.cfg.recvCapacity.toNat 65535 := stamp_win _ g
  have hmin : min c.cfg.recvCapacity.toNat 65535 = min r.windowSize 65535 := by
    rcases hroomy with heq | ⟨h₁, h₂⟩
    · rw [← heq]
    · omega
  refine ⟨hwin.trans hmin, fun a ha => ?_⟩
  obtain ⟨hack, hackno⟩ := stamp_ackno (c := { c with receiver := c.receiverAt o }) ha g
  have hlisten : r.status ≠ .listen := by
    rw [← TCPReceiver.ackno_isSome_iff, ha]
    rfl
  refine ⟨hack, hackno, ?_, fun hopen p _ hhi => ?_⟩
  · have heq := TCPReceiver.ackno_eq hlisten
    rw [ha, Option.some_inj] at heq
    exact heq
  · have hreach := hreaches.resolve_left (by simp [hopen])
    have hnow : (c.step o).receiver.reassembler.windowEnd = r.reassembler.windowEnd := by
      rcases hreceiver with hr | hr
      · rw [hr]
      · rw [hr]
        rfl
    have hrun := windowEnd_le_run (windowEnd_le_step hwindowed ho).1 hlater
    rw [hwin, hmin] at hhi
    unfold TCPReceiver.Discards
    omega

/-- The operation sends with room left, no FIN comes, and positions lie below 2^31. -/
def Modest (c : TCPConnection) (o : Op) : Prop :=
  ((c.Sends o → c.Roomy (c.receiverAt o)) ∧ c.receiver.status ≠ .finRecv) ∧
    match o with
    | .read len =>
      c.inboundStream.bytesRead + len + c.receiver.reassembler.capacity < 2 ^ 64
    | .segment seg =>
      c.receiver.statusAfter seg ≠ .finRecv ∧
        (∀ k ∈ c.receiver.reassembler.t, k.1.1 < k.1.2 ∧ k.1.2 < 2 ^ 31) ∧
        c.receiver.indexOf seg + seg.payload.length < 2 ^ 31
    | _ => True

instance (c : TCPConnection) : ∀ o, Decidable (c.Modest o)
  | .read _ | .segment _ => inferInstanceAs (Decidable (_ ∧ _))
  | .connect | .write _ | .endInputStream | .tick _ => inferInstanceAs (Decidable (_ ∧ True))

theorem Modest.sendsRoomy {o : Op} (h : c.Modest o) : c.SendsRoomy o := by
  obtain ⟨⟨hroomy, hstatus⟩, ho⟩ := h
  have hnow : c.receiver.FinCounted →
      c.inboundStream.inputEnded = true ∨ 65535 < c.receiver.windowSize :=
    fun hfin => absurd hfin.1 hstatus
  refine ⟨fun hs => ⟨hroomy hs, ?_⟩, ?_⟩
  · cases o with
    | segment seg =>
      rw [AcksTruly]
      split_ifs
      · exact fun hfin => absurd hfin ho.1
      · exact hnow
    | _ => exact hnow
  · cases o with
    | segment seg => exact fun _ => .of_small ho.2.1 ho.2.2
    | _ => exact ho

/-- Bytes wait to be read and to be assembled, with more than 65535 bytes of room beside them. -/
theorem windows_truthful_read :
    let synAck : TCPHeader := { seqno := ⟨100⟩, syn := true, ack := true, ackno := ⟨1⟩, win := 9 }
    let data (n : UInt32) : TCPHeader := { seqno := ⟨n⟩, ack := true, ackno := ⟨1⟩, win := 9 }
    let ops : List Op := [.connect, .segment { header := synAck }, .write [1],
      .segment { header := data 101, payload := [7, 8] }, .tick 1000,
      .segment { header := data 106, payload := [9] }, .read 2]
    ∀ before o later, before ++ o :: later <+: ops →
      let c := run step (new { recvCapacity := 70000, isn := ⟨0⟩ }) before
      let r := c.receiverAt o
      ∀ seg ∈ c.appended o, seg.header.rst = false →
        seg.header.win.toNat = min r.windowSize 65535 ∧
        ∀ a, r.ackno = some a →
          seg.header.ack = true ∧ seg.header.ackno = a ∧ a = wrap r.ackedTo r.isn ∧
          (r.streamOut.inputEnded = false → ∀ p, r.ackedTo ≤ 1 + p →
            1 + p < r.ackedTo + seg.header.win.toNat →
            ¬ (run step (c.step o) later).receiver.Discards p) := by
  intro synAck data ops
  have h : Admitted step Modest (new { recvCapacity := 70000, isn := ⟨0⟩ }) ops := by
    decide +kernel
  exact windows_truthful (h.mono fun _ _ ho => ho.sendsRoomy)

/-- Four bytes that nobody reads: the endpoint still advertises all ten, and the last four of
them would be discarded. -/
theorem window_untruthful :
    let synAck : TCPHeader := { seqno := ⟨100⟩, syn := true, ack := true, ackno := ⟨1⟩, win := 9 }
    let data : TCPHeader := { seqno := ⟨101⟩, ack := true, ackno := ⟨1⟩, win := 9 }
    let c := run step (new { recvCapacity := 10, isn := ⟨0⟩ })
      [.connect, .segment { header := synAck }]
    let o : Op := .segment { header := data, payload := [1, 2, 3, 4] }
    let r := c.receiverAt o
    (c.appended o).map (fun seg => (seg.header.rst, seg.header.ackno, seg.header.win)) =
        [(false, ⟨105⟩, 10)] ∧
      r.windowSize = 6 ∧ r.ackedTo = 5 ∧ r.reassembler.windowEnd = 10 ∧
      ∀ p, 10 ≤ p → p < 14 → r.ackedTo ≤ 1 + p ∧ 1 + p < r.ackedTo + 10 ∧ r.Discards p := by
  intro synAck data c o r
  have hacked : r.ackedTo = 5 := by decide +kernel
  have hend : r.reassembler.windowEnd = 10 := by decide +kernel
  refine ⟨by decide +kernel, by decide +kernel, hacked, hend, fun p h₁ h₂ => ?_⟩
  rw [hacked, TCPReceiver.Discards, hend]
  omega

end TCPConnection

end Sponge
