import Sponge.Connection.Incoming
import Sponge.Connection.Window
import Sponge.Connection.GivingUp

/-! # Lingering

A connection that lingers is meant to answer until ten timeouts have passed since the last
segment came. Its tick looks at the time since it last sent, so it closes too early when the
last segment of the peer needed no answer.
-/

namespace Sponge

open Runs TCPSender

namespace TCPConnection

/-- Ten timeouts: the time for which a connection lingers. -/
def lingerTime (c : TCPConnection) : ℕ := 10 * c.cfg.rtTimeout.toNat

/-- The segment is answered with an acknowledgment of what has been received. -/
def Acknowledges (c : TCPConnection) (seg : TCPSegment) : Prop :=
  ∃ reply ∈ (c.segmentReceived seg).segmentsOut.drop c.segmentsOut.length,
    reply.header.ack = true ∧ some reply.header.ackno = (c.segmentReceived seg).receiver.ackno

/-- A closed connection has heard nothing for the time of lingering. -/
def Waits (c : TCPConnection) : Prop :=
  c.active = false → c.lingerTime ≤ c.timeSinceLastSegmentReceived

/-- The connection is not closed too early, and until the time of lingering is over every FIN that
comes after a SYN is acknowledged. -/
structure KeepsAcking (c : TCPConnection) : Prop where
  waits : c.Waits
  acknowledges : ∀ seg : TCPSegment, seg.header.fin = true → seg.header.rst = false →
    c.receiver.ackno.isSome → c.timeSinceLastSegmentReceived < c.lingerTime → c.Acknowledges seg

/-- No RST is received or sent, and the peer does not end its stream before the own FIN is sent, in
which case the connection would not linger. -/
def Lingers (c : TCPConnection) : Op → Prop
  | .segment seg => seg.header.rst = false ∧
      (c.active = true → (c.segmentReceived seg).lingerAfterStreamsFinish = true)
  | .tick ms => ¬ c.GivesUp ms
  | _ => True

/-- When a tick comes with the own stream done and nothing in flight, and the last transmission is
ten timeouts ago, the last segment of the peer is as long ago. -/
def HeardBefore (c : TCPConnection) : Op → Prop
  | .tick ms => c.active = true → c.sender.bytesInFlight = 0 → c.sender.stream.eof = true →
      c.lingerTime ≤ sub64 ((c.tnow + ms) % 2 ^ 64) c.tlastsent →
      c.lingerTime ≤ sub64 ((c.tnow + ms) % 2 ^ 64) c.tlast
  | _ => True

instance (c : TCPConnection) : ∀ o, Decidable (c.Lingers o)
  | .segment _ => inferInstanceAs (Decidable (_ ∧ (_ → _)))
  | .tick _ => inferInstanceAs (Decidable (¬ _))
  | .connect | .write _ | .endInputStream | .read _ => inferInstanceAs (Decidable True)

instance (c : TCPConnection) : ∀ o, Decidable (c.HeardBefore o)
  | .tick _ => inferInstanceAs (Decidable (_ → _ → _ → _ ≤ _ → _ ≤ _))
  | .connect | .write _ | .endInputStream | .read _ | .segment _ =>
    inferInstanceAs (Decidable True)

variable {c c' : TCPConnection} {seg : TCPSegment} {ms : ℕ}

theorem acknowledges_of_active (hactive : c.active = true) (hfin : seg.header.fin = true)
    (hrst : seg.header.rst = false) (hackno : c.receiver.ackno.isSome) : c.Acknowledges seg := by
  have hbegun : c.receiver.status ≠ .listen := c.receiver.ackno_isSome_iff.mp hackno
  rcases c.segmentReceived_cases seg with ⟨hignores, -⟩ | ⟨-, haccepts, -⟩ |
    ⟨-, -, active, received, linger, active', hs, -⟩
  · simp [ignores, hactive, Option.isSome_iff_ne_none.mp hackno] at hignores
  · simp [acceptsRst, hrst] at haccepts
  · set c₃ := takeIn { c with
      active := active, finreceived := received, lingerAfterStreamsFinish := linger } seg
    have hreceiver : c₃.receiver = c.receiver.segmentReceived seg := rfl
    have hackno' : c₃.receiver.ackno.isSome := by
      rw [hreceiver, TCPReceiver.ackno_isSome_iff, TCPReceiver.segmentReceived_eq (Or.inr hbegun)]
      exact TCPReceiver.statusAfter_ne_listen (Or.inr hbegun)
    obtain ⟨segs, hout, hsome, hacks⟩ := reply_acknowledges c₃ seg hackno'
    obtain ⟨g, hg⟩ := List.exists_mem_of_ne_nil segs (hsome (by simp [hfin]))
    obtain ⟨hack, hnumber⟩ := hacks g hg
    refine ⟨g, ?_, hack, ?_⟩
    · rw [hs]
      have hstart : c₃.segmentsOut = c.segmentsOut := rfl
      simp only [hout, hstart, List.drop_left]
      exact hg
    · rw [hs, hnumber, ← reply_receiver c₃ seg]

/-- A connection keeps acknowledging if it does not close too early. -/
theorem keepsAcking_iff : c.KeepsAcking ↔ c.Waits := by
  refine ⟨KeepsAcking.waits, fun h => ⟨h, fun seg hfin hrst hackno hsince => ?_⟩⟩
  have hactive : c.active = true := by
    by_contra hne
    have := h (by simpa using hne)
    omega
  exact acknowledges_of_active hactive hfin hrst hackno

/-- From `c` to `c'` nothing changes that lingering depends on. -/
structure SameClocks (c c' : TCPConnection) : Prop where
  cfg : c'.cfg = c.cfg
  active : c'.active = c.active
  linger : c'.lingerAfterStreamsFinish = c.lingerAfterStreamsFinish
  tnow : c'.tnow = c.tnow
  tlast : c'.tlast = c.tlast

theorem SameClocks.trans {c₁ : TCPConnection} (h : SameClocks c c₁) (h' : SameClocks c₁ c') :
    SameClocks c c' :=
  ⟨h'.cfg.trans h.cfg, h'.active.trans h.active, h'.linger.trans h.linger, h'.tnow.trans h.tnow,
    h'.tlast.trans h.tlast⟩

theorem sameClocks_fillWindowAndSend (c : TCPConnection) : SameClocks c c.fillWindowAndSend.1 := by
  rw [fillWindowAndSend_eq]
  exact ⟨rfl, rfl, rfl, rfl, rfl⟩

theorem sameClocks_step (c : TCPConnection) {o : Op} (hseg : ∀ seg, o ≠ .segment seg)
    (htick : ∀ ms, o ≠ .tick ms) : SameClocks c (c.step o) := by
  have hrefl : SameClocks c c := ⟨rfl, rfl, rfl, rfl, rfl⟩
  have hsends : ∀ stream, SameClocks c
      ({ c with sender := { c.sender with stream := stream } }).fillWindowAndSend.1 := by
    intro stream
    have hstream : SameClocks c { c with sender := { c.sender with stream := stream } } :=
      ⟨rfl, rfl, rfl, rfl, rfl⟩
    exact hstream.trans (sameClocks_fillWindowAndSend _)
  cases o with
  | connect => exact sameClocks_fillWindowAndSend c
  | write data =>
    rw [step, write]
    split_ifs
    · exact hsends _
    · exact hrefl
  | endInputStream =>
    rw [step, endInputStream]
    split_ifs
    · exact hsends _
    · exact hrefl
  | read len => exact ⟨rfl, rfl, rfl, rfl, rfl⟩
  | segment seg => exact absurd rfl (hseg seg)
  | tick ms => exact absurd rfl (htick ms)

theorem sameClocks_tick (hactive : c.active = true) (hlistens : c.listens = false)
    (hquiet : ¬ c.GivesUp ms) : SameClocks (c.ticking ms) (c.tick ms) := by
  rw [GivesUp, tick_awake ms hactive hlistens] at hquiet
  rw [tick_awake ms hactive hlistens]
  split_ifs at hquiet ⊢
  · obtain ⟨seg, hout, hrst⟩ := (c.ticking ms).sendRST_segmentsOut
    have hstart : (c.ticking ms).segmentsOut = c.segmentsOut := rfl
    refine absurd ⟨seg, ?_, hrst⟩ hquiet
    rw [hout, hstart, List.drop_left]
    exact List.mem_singleton_self seg
  · exact sameClocks_fillWindowAndSend _

theorem active_segmentReceived (hactive : c.active = true)
    (hlinger : c.lingerAfterStreamsFinish = true) (hrst : seg.header.rst = false)
    (hlinger' : (c.segmentReceived seg).lingerAfterStreamsFinish = true) :
    (c.segmentReceived seg).active = true := by
  rcases c.segmentReceived_cases seg with ⟨-, hs⟩ | ⟨-, haccepts, -⟩ |
    ⟨-, -, active, received, linger, active', hs, -, -, hclosed⟩
  · rwa [hs]
  · simp [acceptsRst, hrst] at haccepts
  · by_contra hne
    rw [hs] at hne hlinger'
    rcases hclosed (by simpa using hne) with hfin | hfin
    · exact Bool.false_ne_true (hfin.1.symm.trans hlinger)
    · exact Bool.false_ne_true (hfin.1.symm.trans hlinger')

theorem SameClocks.waits_iff (h : SameClocks c c') : c'.Waits ↔ c.Waits := by
  simp only [Waits, lingerTime, timeSinceLastSegmentReceived, h.active, h.cfg, h.tnow, h.tlast]

theorem segmentReceived_inactive (h : c.active = false) : c.segmentReceived seg = c :=
  if_pos (by simp [ignores, h])

theorem linger_step (h : c.active = true → c.lingerAfterStreamsFinish = true) {o : Op}
    (ho : c.Lingers o) (hactive : (c.step o).active = true) :
    (c.step o).lingerAfterStreamsFinish = true := by
  have hother : SameClocks c (c.step o) → (c.step o).lingerAfterStreamsFinish = true :=
    fun hsame => hsame.linger.trans (h (hsame.active.symm.trans hactive))
  cases o with
  | segment seg =>
    apply ho.2
    by_contra hne
    rw [step, segmentReceived_inactive (by simpa using hne)] at hactive
    exact hne hactive
  | tick ms =>
    rw [step] at hactive hother ⊢
    by_cases hawake : c.active = true ∧ c.listens = false
    · have hsame := sameClocks_tick hawake.1 hawake.2 ho
      have hopen : c.timesOut ((c.tnow + ms) % 2 ^ 64) = false := by
        rw [hsame.active, ticking, hawake.1] at hactive
        simpa using hactive
      rw [hsame.linger, ticking, h hawake.1, hopen]
      rfl
    · have hasleep : c.tick ms = c := tick_asleep (not_awake.mp hawake)
      exact hother (by rw [hasleep]; exact ⟨rfl, rfl, rfl, rfl, rfl⟩)
  | connect => exact hother (c.sameClocks_step (by simp) (by simp))
  | write data => exact hother (c.sameClocks_step (by simp) (by simp))
  | endInputStream => exact hother (c.sameClocks_step (by simp) (by simp))
  | read len => exact hother (c.sameClocks_step (by simp) (by simp))

theorem waits_step_iff (h : c.active = true → c.lingerAfterStreamsFinish = true) {o : Op}
    (hwaits : c.Waits) (ho : c.Lingers o) : (c.step o).Waits ↔ c.HeardBefore o := by
  have hother : SameClocks c (c.step o) → (c.step o).Waits :=
    fun hsame => hsame.waits_iff.mpr hwaits
  cases o with
  | segment seg =>
    refine iff_of_true ?_ trivial
    rw [step]
    rcases Bool.eq_false_or_eq_true c.active with hactive | hactive
    · have hopen := active_segmentReceived hactive (h hactive) ho.1 (ho.2 hactive)
      exact fun hclosed => absurd (hopen.symm.trans hclosed) (by decide)
    · rwa [segmentReceived_inactive hactive]
  | tick ms =>
    rw [step]
    by_cases hawake : c.active = true ∧ c.listens = false
    · have hsame := sameClocks_tick hawake.1 hawake.2 ho
      rw [hsame.waits_iff]
      simp only [Waits, ticking, hawake.1, HeardBefore, timesOut, Bool.true_and, Bool.not_eq_false',
        Bool.and_eq_true, beq_iff_eq, decide_eq_true_eq, and_imp, forall_const]
      rfl
    · rw [tick_asleep (not_awake.mp hawake)]
      apply iff_of_true hwaits
      intro hactive _ heof
      have hlistens := (not_awake.mp hawake).resolve_left (by simp [hactive])
      simp [listens, heof] at hlistens
  | connect => exact iff_of_true (hother (c.sameClocks_step (by simp) (by simp))) trivial
  | write data => exact iff_of_true (hother (c.sameClocks_step (by simp) (by simp))) trivial
  | endInputStream => exact iff_of_true (hother (c.sameClocks_step (by simp) (by simp))) trivial
  | read len => exact iff_of_true (hother (c.sameClocks_step (by simp) (by simp))) trivial

/-- In a run that lingers, a connection keeps acknowledging exactly when in every tick that finds
it to have sent long ago, its peer was heard as long ago. -/
theorem keepsAcking_run_iff (cfg : TCPConfig) {ops : List Op}
    (h : Admitted step Lingers (new cfg) ops) :
    (∀ ops', ops' <+: ops → (run step (new cfg) ops').KeepsAcking) ↔
      Admitted step HeardBefore (new cfg) ops := by
  simp only [keepsAcking_iff]
  exact forall_prefix_iff_admitted
    (I := fun c => c.active = true → c.lingerAfterStreamsFinish = true)
    (fun _ _ hlinger ho => linger_step hlinger ho)
    (fun _ _ hlinger hwaits ho => waits_step_iff hlinger hwaits ho)
    (fun _ => rfl) (by simp [Waits, new]) h

/-- Both streams are done, the FIN of the peer comes again, and ten timeouts pass. -/
theorem keepsAcking_run_second_fin :
    let synAck : TCPHeader := { seqno := ⟨100⟩, syn := true, ack := true, ackno := ⟨1⟩, win := 9 }
    let fin : TCPHeader := { seqno := ⟨101⟩, fin := true, ack := true, ackno := ⟨2⟩, win := 9 }
    let ops : List Op := [.connect, .segment { header := synAck }, .endInputStream,
      .segment { header := fin }, .tick 9990, .segment { header := fin }, .tick 9990, .tick 10]
    ∀ ops', ops' <+: ops → (run step (new { isn := ⟨0⟩ }) ops').KeepsAcking := by
  intro synAck fin ops
  exact (keepsAcking_run_iff { isn := ⟨0⟩ } (by decide)).mpr (by decide)

/-- The FIN is sent again after one second and acknowledged after three; eight seconds later the
connection closes, and the FIN of the peer is not acknowledged when it comes again. -/
theorem closes_too_early :
    let synAck : TCPHeader := { seqno := ⟨100⟩, syn := true, ack := true, ackno := ⟨1⟩, win := 9 }
    let fin : TCPHeader := { seqno := ⟨101⟩, fin := true, ack := true, ackno := ⟨1⟩, win := 9 }
    let bare : TCPHeader := { seqno := ⟨102⟩, ack := true, ackno := ⟨2⟩, win := 9 }
    let ops : List Op := [.connect, .segment { header := synAck }, .endInputStream,
      .segment { header := fin }, .tick 1000, .tick 1999, .segment { header := bare }, .tick 8001]
    let c := run step (new { isn := ⟨0⟩ }) ops
    Admitted step Lingers (new { isn := ⟨0⟩ }) ops ∧ c.active = false ∧ c.lingerTime = 10000 ∧
      c.timeSinceLastSegmentReceived = 8001 ∧ ¬ c.Acknowledges { header := fin } ∧
      ¬ c.KeepsAcking := by
  intro synAck fin bare ops c
  have hclosed : c.active = false := by decide
  refine ⟨by decide, hclosed, by decide, by decide, ?_, fun h => ?_⟩
  · rintro ⟨reply, hreply, -⟩
    rw [segmentReceived_inactive hclosed, List.drop_length] at hreply
    simp at hreply
  · exact absurd (h.waits hclosed) (by decide)

end TCPConnection

end Sponge
