import Sponge.Connection.Basic
import Sponge.Sender.Flight

/-! # What sending does to an endpoint

Whatever an endpoint does, it ends by filling the window and moving the queue of its
sender to its own queue. Around that, only flags of the endpoint change.
-/

namespace Sponge

open Layout TCPSender

namespace TCPConnection

variable {c c' c₁ : TCPConnection} {journal : List TCPSegment}

theorem foldl_sendOne (queue : List TCPSegment) (c : TCPConnection) :
    queue.foldl sendOne c =
      { c with
        segmentsOut := c.segmentsOut ++ queue.map c.stamp
        tlastsent := if queue.isEmpty then c.tlastsent else c.tnow
        finsent := c.finsent || queue.any fun seg => seg.header.fin } := by
  induction queue generalizing c with
  | nil => simp
  | cons seg queue ih =>
    have hstamp : (c.sendOne seg).stamp = c.stamp := rfl
    rw [List.foldl_cons, ih, hstamp]
    simp [sendOne, Bool.or_assoc]

theorem fillWindowAndSend_eq (c : TCPConnection) :
    c.fillWindowAndSend.1 =
      { c with
        sender := { c.sender.fillWindow with segmentsOut := [] }
        segmentsOut := c.segmentsOut ++ c.sender.fillWindow.segmentsOut.map c.stamp
        tlastsent := if c.sender.fillWindow.segmentsOut.isEmpty then c.tlastsent else c.tnow
        finsent :=
          c.finsent || c.sender.fillWindow.segmentsOut.any fun seg => seg.header.fin } := by
  simp only [fillWindowAndSend, foldl_sendOne]
  rfl

@[simp] theorem fillWindowAndSend_receiver (c : TCPConnection) :
    c.fillWindowAndSend.1.receiver = c.receiver := by
  rw [fillWindowAndSend_eq]

@[simp] theorem fillWindowAndSend_active (c : TCPConnection) :
    c.fillWindowAndSend.1.active = c.active := by
  rw [fillWindowAndSend_eq]

/-- The endpoint `c'` results from `c` by sending: segments went out, and no more can. -/
structure Sent (c c' : TCPConnection) : Prop where
  frame : c' =
    { c with
      sender := c'.sender
      segmentsOut := c'.segmentsOut
      tlastsent := c'.tlastsent
      finsent := c'.finsent }
  flight : ∃ journal, Flight journal c'.sender
  error : c'.sender.stream.error = c.sender.stream.error
  acked : c'.sender.acked = c.sender.acked
  settled : c'.sender.Settled
  finsent : (c.sender.finSent = true → c.finsent = true) →
    c'.sender.finSent = true → c'.finsent = true
  blocked : c.sender.finSent = true → c'.sender.finSent = true ∧
    c'.sender.stream = c.sender.stream ∧ c'.sender.inFlight = c.sender.inFlight
  fresh : c.sender.finSent = false → c'.sender.finSent = true → c'.sender.inFlight ≠ []

theorem sent_fillWindowAndSend (h : Flight journal c.sender) : Sent c c.fillWindowAndSend.1 := by
  obtain ⟨segs, hf⟩ := filled_fillWindow h.consistent h.fresh
  obtain ⟨w, hw, _⟩ := c.sender.opened_eq
  have hsent := hf.finSent
  have herror := hf.error
  have hqueue := hf.segmentsOut
  have hacked := congrArg TCPSender.acked hf.base
  simp only [hw, base] at hsent herror hqueue hacked
  rw [fillWindowAndSend_eq]
  refine
    { frame := rfl
      flight := ⟨_, (h.filled hf).other _ c.sender.fillWindow.crtx hf.consistent⟩
      error := herror
      acked := hacked
      settled := hf.settled
      finsent := fun hfin hs => ?_
      blocked := fun hs => ?_
      fresh := fun hs hs' => ?_ }
  · rcases hsent.mp hs with hs | ⟨g, hg, hgf⟩
    · simp [hfin hs]
    · have : g ∈ c.sender.fillWindow.segmentsOut := by
        rw [hqueue]
        exact List.mem_append_right _ hg
      simp only [Bool.or_eq_true, List.any_eq_true]
      exact Or.inr ⟨g, this, hgf⟩
  · have hs' : c.sender.fillWindow = c.sender := if_pos hs
    exact ⟨by simp only [hs']; exact hs, by simp only [hs'], by simp only [hs', inFlight]⟩
  · rcases hsent.mp hs' with hs' | ⟨g, hg, _⟩
    · simp [hs] at hs'
    · have hmem := hf.inFlight_perm.mem_iff.mpr (List.mem_append_right _ hg)
      exact List.ne_nil_of_mem hmem

theorem Sent.trans {s : TCPSender} (h : Sent c c₁)
    (hs : s = { c₁.sender with segmentsOut := s.segmentsOut, crtx := s.crtx })
    (h' : Sent { c₁ with sender := s } c') : Sent c c' := by
  have hfin : s.finSent = c₁.sender.finSent := by rw [hs]
  have hstream : s.stream = c₁.sender.stream := by rw [hs]
  have hacked : s.acked = c₁.sender.acked := by rw [hs]
  have hflight : s.inFlight = c₁.sender.inFlight := by rw [hs]; rfl
  refine
    { frame := ?_
      flight := h'.flight
      error := by rw [h'.error, ← h.error, hstream]
      acked := by rw [h'.acked, ← h.acked, hacked]
      settled := h'.settled
      finsent := fun hf => h'.finsent fun hs' => h.finsent hf (hfin ▸ hs')
      blocked := fun hb => ?_
      fresh := fun hb hb' => ?_ }
  · have h₁ := h.frame
    have h₂ := h'.frame
    rw [h₁] at h₂
    exact h₂
  · obtain ⟨h₁, h₂, h₃⟩ := h.blocked hb
    obtain ⟨h₄, h₅, h₆⟩ := h'.blocked (hfin.trans h₁)
    exact ⟨h₄, h₅.trans (hstream.trans h₂), h₆.trans (hflight.trans h₃)⟩
  · by_cases hmid : c₁.sender.finSent = true
    · rw [(h'.blocked (hfin.trans hmid)).2.2]
      exact hflight ▸ h.fresh hb hmid
    · exact h'.fresh (by simpa [hfin] using hmid) hb'

theorem sent_reply (h : Flight journal c.sender) (seg : TCPSegment) : Sent c (c.reply seg) := by
  have hfirst := sent_fillWindowAndSend h
  unfold reply
  simp only
  split_ifs
  · obtain ⟨journal', h'⟩ := hfirst.flight
    exact hfirst.trans rfl (sent_fillWindowAndSend (h'.other _ 0 h'.consistent))
  · exact hfirst

theorem length_lt_reply (c : TCPConnection) {seg : TCPSegment}
    (h : ¬ (seg.payload = [] ∧ seg.header.syn = false ∧ seg.header.fin = false)) :
    c.segmentsOut.length < (c.reply seg).segmentsOut.length := by
  have hoccupied : (!seg.payload.isEmpty || seg.header.syn || seg.header.fin) = true := by
    by_contra hne
    simp only [Bool.not_eq_true, Bool.or_eq_false_iff, Bool.not_eq_false', List.isEmpty_iff] at hne
    exact h ⟨hne.1.1, hne.1.2, hne.2⟩
  have hsent : ∀ c : TCPConnection, c.fillWindowAndSend.1.segmentsOut.length =
      c.segmentsOut.length + c.sender.fillWindow.segmentsOut.length := by
    intro c
    rw [fillWindowAndSend_eq, List.length_append, List.length_map]
  have hcount : c.fillWindowAndSend.2 = c.sender.fillWindow.segmentsOut.length := rfl
  have hfirst := hsent c
  unfold reply
  simp only [hoccupied, Bool.and_true, hcount, beq_iff_eq]
  split_ifs with hnone
  · -- nothing was sent, and the empty segment goes out
    rw [hsent]
    have hqueue := (segmentsOut_fillWindow c.fillWindowAndSend.1.sender.sendEmptySegment).length_le
    simp only [sendEmptySegment, List.length_append, List.length_singleton] at hqueue ⊢
    omega
  · omega

theorem sendRST_active (c : TCPConnection) : c.sendRST.active = false := by
  unfold sendRST
  simp only
  split
  · next h => simp [sendEmptySegment] at h
  · rfl

theorem lingerOver_eq (c : TCPConnection) :
    ∃ linger active, c.lingerOver =
      { c with lingerAfterStreamsFinish := linger, active := active } ∧
      (active = false → c.active = false ∨ c.timesOut c.tnow = true) := by
  unfold lingerOver
  split_ifs with ht
  · exact ⟨false, false, rfl, fun _ => Or.inr ht⟩
  · exact ⟨_, _, rfl, Or.inl⟩

/-- Is the segment handed to the receiver and the sender? -/
def takes (c : TCPConnection) (seg : TCPSegment) : Bool := !c.ignores seg && !c.acceptsRst seg

/-- Both streams are done and the segment has an acknowledgment, so an endpoint that does not
linger closes. -/
def Finishes (c : TCPConnection) (seg : TCPSegment) : Prop :=
  c.lingerAfterStreamsFinish = false ∧ c.sender.stream.eof = true ∧ c.sender.bytesInFlight = 0 ∧
    seg.header.ack = true

theorem passiveClose_eq (c : TCPConnection) (seg : TCPSegment) :
    ∃ active, c.passiveClose seg = { c with active := active } ∧
      (active = false → c.active = false ∨ c.Finishes seg) := by
  unfold passiveClose
  split_ifs with hdone hack
  · simp only [Bool.and_eq_true, Bool.not_eq_true', beq_iff_eq] at hdone hack
    exact ⟨false, rfl, fun _ => Or.inr ⟨hdone.1.1, hdone.1.2, hdone.2, hack.1⟩⟩
  · exact ⟨_, rfl, Or.inl⟩
  · exact ⟨_, rfl, Or.inl⟩

theorem noteFin_eq (c : TCPConnection) (seg : TCPSegment) :
    ∃ received linger, c.noteFin seg =
      { c with finreceived := received, lingerAfterStreamsFinish := linger } ∧
      (linger = false → c.lingerAfterStreamsFinish = false ∨ c.finsent = false) ∧
      (seg.header.fin = false → linger = c.lingerAfterStreamsFinish) := by
  unfold noteFin
  by_cases hfin : seg.header.fin = true
  · rw [if_pos hfin]
    refine ⟨_, _, rfl, fun hl => ?_, by simp [hfin]⟩
    by_cases hsent : c.finsent = true
    · exact Or.inl (by simpa [hsent] using hl)
    · exact Or.inr (by simpa using hsent)
  · rw [if_neg hfin]
    exact ⟨c.finreceived, c.lingerAfterStreamsFinish, rfl, Or.inl, fun _ => rfl⟩

theorem closeIfDone_eq (c : TCPConnection) (seg : TCPSegment) :
    ∃ active, c.closeIfDone seg = { c with active := active } ∧
      (active = false → c.active = false ∨ c.Finishes seg) := by
  unfold closeIfDone
  split_ifs with hdone hack
  · simp only [Bool.and_eq_true, Bool.not_eq_true', beq_iff_eq] at hdone
    exact ⟨false, rfl, fun _ => Or.inr ⟨hdone.1.1, hdone.1.2, hdone.2, hack⟩⟩
  · exact ⟨_, rfl, Or.inl⟩
  · exact ⟨_, rfl, Or.inl⟩

theorem reply_active (c : TCPConnection) (seg : TCPSegment) :
    (c.reply seg).active = c.active := by
  unfold reply
  simp only
  split_ifs <;> simp only [fillWindowAndSend_active]

/-- What a segment does: it is ignored, resets the endpoint, or is taken in and answered. Around
that, only flags change; the endpoint closes when it finishes before or after. -/
theorem segmentReceived_cases (c : TCPConnection) (seg : TCPSegment) :
    (c.ignores seg = true ∧ c.segmentReceived seg = c) ∨
    (c.ignores seg = false ∧ c.acceptsRst seg = true ∧ c.segmentReceived seg = c.reset) ∨
    (c.ignores seg = false ∧ c.acceptsRst seg = false ∧ ∃ active received linger active',
      let c' := (takeIn
        { c with
          active := active, finreceived := received
          lingerAfterStreamsFinish := linger } seg).reply seg
      c.segmentReceived seg = { c' with active := active' } ∧
      (seg.header.fin = false → linger = c.lingerAfterStreamsFinish) ∧
      (linger = false → c.lingerAfterStreamsFinish = false ∨ c.finsent = false) ∧
      (active' = false → c.Finishes seg ∨ c'.Finishes seg)) := by
  unfold segmentReceived
  rcases Bool.eq_false_or_eq_true (c.ignores seg) with hignores | hignores
  · exact Or.inl ⟨hignores, if_pos hignores⟩
  · right
    rw [if_neg (by simp [hignores])]
    obtain ⟨active, hpassive, hbefore⟩ := c.passiveClose_eq seg
    have hrst' : acceptsRst { c with active := active } seg = c.acceptsRst seg := rfl
    simp only [hpassive, hrst']
    rcases Bool.eq_false_or_eq_true (c.acceptsRst seg) with hrst | hrst
    · exact Or.inl ⟨hignores, hrst, if_pos hrst⟩
    · rw [if_neg (by simp [hrst])]
      obtain ⟨received, linger, hnote, hcloses, hlinger⟩ :=
        ({ c with active := active } : TCPConnection).noteFin_eq seg
      rw [hnote]
      set c₃ := takeIn { c with
        active := active, finreceived := received, lingerAfterStreamsFinish := linger } seg
      obtain ⟨active', hlast, hafter⟩ := (c₃.reply seg).closeIfDone_eq seg
      refine Or.inr ⟨hignores, hrst, active, received, linger, active', hlast, hlinger, hcloses,
        fun hactive' => (hafter hactive').imp_left fun hclosed => ?_⟩
      rw [reply_active] at hclosed
      apply (hbefore hclosed).resolve_left
      intro hinactive
      simp [ignores, hinactive] at hignores

/-- What a tick does: nothing, or time passes and the endpoint gives up or sends. It closes when
the time of lingering has run out. -/
theorem tick_cases (c : TCPConnection) (ms : ℕ) :
    c.tick ms = c ∨ (c.active = true ∧ ∃ linger active,
      let c' : TCPConnection := { c with
        tnow := (c.tnow + ms) % 2 ^ 64, lingerAfterStreamsFinish := linger, active := active
        sender := c.sender.tick ms }
      (active = false → c.timesOut ((c.tnow + ms) % 2 ^ 64) = true) ∧
      ((maxRetxAttempts < c'.sender.consecutiveRetransmissions ∧ c.tick ms = c'.sendRST) ∨
        c.tick ms = c'.fillWindowAndSend.1)) := by
  unfold tick
  split_ifs with hactive hlistens
  · exact Or.inl rfl
  · exact Or.inl rfl
  · have ha : c.active = true := by simpa using hactive
    obtain ⟨linger, active, hover, hdone⟩ :=
      ({ c with tnow := (c.tnow + ms) % 2 ^ 64 } : TCPConnection).lingerOver_eq
    simp only [hover]
    refine Or.inr ⟨ha, linger, active, fun h => (hdone h).resolve_left (by simp [ha]), ?_⟩
    split_ifs with hmany
    · exact Or.inl ⟨hmany, rfl⟩
    · exact Or.inr rfl

end TCPConnection

end Sponge
