import Sponge.Sender.Tiling

/-! # The SYN opens the stream

Before the window is filled for the first time, only empty segments are queued. The SYN
goes first then, unless an acknowledgment of the initial number has opened the window.
-/

namespace Sponge

open Layout Runs TCPSender

namespace TCPSender

/-- Nothing has been sent that takes sequence numbers. -/
structure Unsent (isn : WrappingInt32) (s : TCPSender) : Prop where
  isn : s.isn = isn
  consistent : s.stream.Consistent
  nextSeqno : s.nextSeqno = 0
  acked : s.acked = 0
  finSent : s.finSent = false
  outstanding : s.outstanding = []

variable {s : TCPSender} {isn ackno : WrappingInt32} {windowSize : UInt16} {o : Op}

theorem Unsent.new {capacity : UInt64} {retxTimeout : UInt16} :
    Unsent isn (new capacity retxTimeout isn) :=
  ⟨rfl, .new capacity.toNat_lt, rfl, rfl, rfl, rfl⟩

theorem Unsent.tick_eq (h : Unsent isn s) (ms : ℕ) : s.tick ms = { s with now := s.clock ms } :=
  tick_idle (by simp [h.outstanding])

/-- Only the initial number is acknowledged, and that opens the window. -/
theorem Unsent.ackReceived_cases (h : Unsent isn s) (ackno : WrappingInt32) (windowSize : UInt16) :
    (ackno ≠ isn ∧ s.ackReceived ackno windowSize = s) ∨
      (ackno = isn ∧ Acked s (s.ackReceived ackno windowSize) 0 windowSize) := by
  have hwrap := wrap_unwrap ackno isn (c := 0) (by omega)
  rcases s.ackReceived_cases ackno windowSize with ⟨hs, hout⟩ | hs
  · refine Or.inl ⟨?_, hs⟩
    rintro rfl
    have hself := unwrap_wrap (k := 0) (c := 0) ackno (by omega) (by omega) (by omega)
      (Or.inr (by omega))
    rw [wrap_zero] at hself
    rw [h.nextSeqno, h.isn, h.acked, hself] at hout
    omega
  · have hle := hs.le
    rw [h.nextSeqno, h.isn, h.acked, Nat.le_zero] at hle
    rw [h.isn, h.acked, hle] at hs
    rw [hle, wrap_zero] at hwrap
    exact Or.inr ⟨hwrap.symm, hs⟩

theorem Unsent.step (h : Unsent isn s) (ho : o ≠ .fillWindow) : Unsent isn (s.step o) := by
  cases o with
  | fillWindow => exact absurd rfl ho
  | write data => exact { h with consistent := h.consistent.write }
  | endInput => exact { h with consistent := h.consistent.endInput }
  | sendEmptySegment | pop => exact { h with }
  | tick ms =>
    rw [TCPSender.step, h.tick_eq]
    exact { h with }
  | ackReceived ackno windowSize =>
    rw [TCPSender.step]
    rcases h.ackReceived_cases ackno windowSize with ⟨-, hs⟩ | ⟨-, hs⟩
    · rwa [hs]
    · have hnil : (s.ackReceived ackno windowSize).outstanding = [] := by
        have hflight := hs.inFlight
        rw [inFlight, inFlight, h.outstanding] at hflight
        exact List.map_eq_nil_iff.mp hflight
      rw [hs.frame]
      exact { h with acked := rfl, outstanding := hnil }

theorem Unsent.window_step (h : Unsent isn s) (ho : o ≠ .fillWindow)
    (hearly : ∀ windowSize, o ≠ .ackReceived isn windowSize) : (s.step o).window = s.window := by
  cases o with
  | fillWindow => exact absurd rfl ho
  | tick ms => rw [TCPSender.step, h.tick_eq]
  | ackReceived ackno windowSize =>
    rcases h.ackReceived_cases ackno windowSize with ⟨-, hs⟩ | ⟨rfl, -⟩
    · rw [TCPSender.step, hs]
    · exact absurd rfl (hearly windowSize)
  | write _ | endInput | sendEmptySegment | pop => rfl

theorem Unsent.window_ne (h : Unsent isn s) (hw : s.window ≠ -1) (ho : o ≠ .fillWindow) :
    (s.step o).window ≠ -1 := by
  by_cases hearly : ∃ windowSize, o = .ackReceived isn windowSize
  · obtain ⟨windowSize, rfl⟩ := hearly
    rcases h.ackReceived_cases isn windowSize with ⟨hne, -⟩ | ⟨-, hs⟩
    · exact absurd rfl hne
    · rw [TCPSender.step, hs.frame]
      simp only
      omega
  · rwa [h.window_step ho fun windowSize heq => hearly ⟨windowSize, heq⟩]

theorem Unsent.queued (h : Unsent isn s) (ho : o ≠ .fillWindow) :
    ∀ g ∈ (s.step o).segmentsOut.drop s.segmentsOut.length,
      len g = 0 ∧ g.header.syn = false := by
  have hsame : (s.step o).segmentsOut = s.segmentsOut →
      ∀ g ∈ (s.step o).segmentsOut.drop s.segmentsOut.length,
        len g = 0 ∧ g.header.syn = false := by
    intro hout g hg
    rw [hout, List.drop_length] at hg
    simp at hg
  cases o with
  | fillWindow => exact absurd rfl ho
  | write _ | endInput => exact hsame rfl
  | tick ms => exact hsame (by rw [TCPSender.step, h.tick_eq])
  | pop =>
    intro g hg
    rw [TCPSender.step, List.drop_eq_nil_of_le (by simp)] at hg
    simp at hg
  | sendEmptySegment =>
    intro g hg
    simp only [TCPSender.step, sendEmptySegment, List.drop_left, List.mem_singleton] at hg
    subst hg
    exact ⟨rfl, rfl⟩
  | ackReceived ackno windowSize =>
    rcases s.ackReceived_cases ackno windowSize with ⟨hs, _⟩ | hs
    · exact hsame (by rw [TCPSender.step, hs])
    · exact hsame (by rw [TCPSender.step, hs.frame])

end TCPSender

/-- A sender with all that it ever queued, and a note whether its window has been filled. -/
structure QueueTrace where
  sender : TCPSender
  queued : List TCPSegment := []
  filled : Bool := false
  deriving DecidableEq, Repr

namespace QueueTrace

def new (capacity : UInt64) (retxTimeout : UInt16) (isn : WrappingInt32) : QueueTrace :=
  { sender := .new capacity retxTimeout isn }

/-- Is it the operation that fills the window? -/
def fills : Op → Bool
  | .fillWindow => true
  | _ => false

def step (t : QueueTrace) (o : Op) : QueueTrace where
  sender := t.sender.step o
  queued := t.queued ++ (t.sender.step o).segmentsOut.drop t.sender.segmentsOut.length
  filled := t.filled || fills o

/-- Nothing that takes sequence numbers is queued before the SYN, and the SYN is queued when the
window is filled first. -/
structure SynFirst (isn : WrappingInt32) (t : QueueTrace) : Prop where
  first : ∀ before seg, before ++ [seg] <+: t.queued → 0 < len seg →
    ∃ g ∈ before ++ [seg], g.header.syn = true ∧ g.header.seqno = isn
  queued : t.filled = true → ∃ g ∈ t.queued, g.header.syn = true

/-- No acknowledgment of the initial number comes before the window is filled for the first time. -/
def NoEarlyAck (isn : WrappingInt32) (ops : List Op) : Prop :=
  ∀ before ackno windowSize after, ops = before ++ .ackReceived ackno windowSize :: after →
    .fillWindow ∉ before → .fillWindow ∈ after → ackno ≠ isn

/-- Nothing has been sent: all that was queued is empty. -/
structure Unsent (isn : WrappingInt32) (t : QueueTrace) : Prop where
  sender : t.sender.Unsent isn
  filled : t.filled = false
  plain : ∀ g ∈ t.queued, len g = 0 ∧ g.header.syn = false

/-- The SYN has been queued, with only empty segments before it. -/
def Opened (isn : WrappingInt32) (t : QueueTrace) : Prop :=
  ∃ empties syn rest, t.queued = empties ++ syn :: rest ∧ (∀ g ∈ empties, len g = 0) ∧
    syn.header.syn = true ∧ syn.header.seqno = isn

variable {t : QueueTrace} {isn : WrappingInt32} {o : Op} {ops : List Op} {capacity : UInt64}
  {retxTimeout : UInt16}

theorem Unsent.new : Unsent isn (new capacity retxTimeout isn) :=
  ⟨.new, rfl, by simp [QueueTrace.new]⟩

theorem Unsent.step (h : Unsent isn t) (ho : o ≠ .fillWindow) : Unsent isn (t.step o) where
  sender := h.sender.step ho
  filled := by
    have hfills : fills o = false := by cases o <;> first | rfl | exact absurd rfl ho
    rw [QueueTrace.step, h.filled, hfills]
    rfl
  plain g hg := (List.mem_append.mp hg).elim (h.plain g) (h.sender.queued ho g)

theorem Unsent.synFirst (h : Unsent isn t) : SynFirst isn t where
  first before seg hpre hlen := by
    have hzero := (h.plain seg (hpre.subset (by simp))).1
    omega
  queued hf := by simp [h.filled] at hf

theorem Unsent.run (h : Unsent isn t) (hops : .fillWindow ∉ ops) :
    Unsent isn (run QueueTrace.step t ops) := by
  have hadm : Admitted QueueTrace.step (fun _ o => o ≠ .fillWindow) t ops :=
    Admitted.of_forall fun o ho heq => hops (heq ▸ ho)
  exact hadm.invariant (fun _ _ h ho => h.step ho) h

theorem Unsent.run_closed (h : Unsent isn t) (hw : t.sender.window = -1)
    (hops : .fillWindow ∉ ops) (hearly : ∀ windowSize, .ackReceived isn windowSize ∉ ops) :
    (Runs.run QueueTrace.step t ops).sender.window = -1 := by
  have hadm : Admitted QueueTrace.step
      (fun _ o => o ≠ .fillWindow ∧ ∀ windowSize, o ≠ .ackReceived isn windowSize) t ops :=
    Admitted.of_forall fun o ho => ⟨fun heq => hops (heq ▸ ho), fun w heq => hearly w (heq ▸ ho)⟩
  exact (hadm.invariant (I := fun t => Unsent isn t ∧ t.sender.window = -1)
    (fun t o ht ho => ⟨ht.1.step ho.1, (ht.1.sender.window_step ho.1 ho.2).trans ht.2⟩) ⟨h, hw⟩).2

theorem Unsent.run_open (h : Unsent isn t) (hw : t.sender.window ≠ -1)
    (hops : .fillWindow ∉ ops) : (Runs.run QueueTrace.step t ops).sender.window ≠ -1 := by
  have hadm : Admitted QueueTrace.step (fun _ o => o ≠ .fillWindow) t ops :=
    Admitted.of_forall fun o ho heq => hops (heq ▸ ho)
  exact (hadm.invariant (I := fun t => Unsent isn t ∧ t.sender.window ≠ -1)
    (fun t o ht ho => ⟨ht.1.step ho, ht.1.sender.window_ne ht.2 ho⟩) ⟨h, hw⟩).2

theorem Unsent.opened (h : Unsent isn t) (hw : t.sender.window = -1) :
    Opened isn (t.step .fillWindow) := by
  have hfresh : t.sender.Fresh := fun _ => ⟨h.sender.nextSeqno, h.sender.acked, h.sender.finSent⟩
  have hf := filled_syn h.sender.consistent hfresh hw
  have hq : (t.step .fillWindow).queued = _ :=
    congrArg (t.queued ++ ·) (SenderTrace.newlyQueued_eq hf)
  exact ⟨t.queued, _, [], hq, fun g hg => (h.plain g hg).1, rfl, h.sender.isn⟩

theorem Unsent.no_syn (h : Unsent isn t) (hw : t.sender.window ≠ -1) :
    ∀ g ∈ (t.step .fillWindow).queued, g.header.syn = false := by
  have hfresh : t.sender.Fresh := fun h => absurd h hw
  obtain ⟨segs, hf⟩ := filled_fillWindow h.sender.consistent hfresh
  intro g hg
  have hnew : (t.step .fillWindow).queued = t.queued ++ segs :=
    congrArg (t.queued ++ ·) (SenderTrace.newlyQueued_eq hf)
  rw [hnew] at hg
  rcases List.mem_append.mp hg with hg | hg
  · exact (h.plain g hg).2
  · rw [hf.syn g hg]
    exact decide_eq_false hw

theorem Opened.step (h : Opened isn t) (o : Op) : Opened isn (t.step o) := by
  obtain ⟨empties, syn, rest, hq, hrest⟩ := h
  refine ⟨empties, syn, rest ++ (t.sender.step o).segmentsOut.drop t.sender.segmentsOut.length, ?_,
    hrest⟩
  rw [QueueTrace.step, hq, List.append_assoc, List.cons_append]

theorem Opened.run (h : Opened isn t) (ops : List Op) : Opened isn (run QueueTrace.step t ops) :=
  (Admitted.of_forall (q := fun _ => True) (by simp)).invariant (fun _ o h _ => h.step o) h

theorem Opened.synFirst (h : Opened isn t) : SynFirst isn t := by
  obtain ⟨empties, syn, rest, hq, hempty, hsyn, hseqno⟩ := h
  refine ⟨fun before seg hpre hlen => ?_, fun _ => ⟨syn, by simp [hq], hsyn⟩⟩
  rw [hq] at hpre
  refine ⟨syn, ?_, hsyn, hseqno⟩
  have hsplit : empties ++ [syn] <+: empties ++ syn :: rest := ⟨rest, by simp⟩
  rcases List.prefix_or_prefix_of_prefix hpre hsplit with hshort | hlong
  · rcases List.prefix_concat_iff.mp hshort with heq | hshort
    · rw [heq]
      simp
    · have hzero := hempty seg (hshort.subset (by simp))
      omega
  · exact hlong.subset (by simp)

/-- The SYN always opens the stream if and only if no acknowledgment of the initial number comes
before the window is first filled. -/
theorem syn_first_iff :
    (∀ ops', ops' <+: ops → SynFirst isn (run step (new capacity retxTimeout isn) ops')) ↔
      NoEarlyAck isn ops := by
  have hnew : Unsent isn (new capacity retxTimeout isn) := .new
  constructor
  · rintro hall before ackno windowSize after rfl hbefore hafter rfl
    obtain ⟨mid, rest, rfl, hmid⟩ := List.eq_append_cons_of_mem hafter
    -- the window is open when it is filled for the first time
    have hu := hnew.run hbefore
    have hack := hu.step (o := .ackReceived ackno windowSize) (by simp)
    have hopen : (QueueTrace.step (run step (new capacity retxTimeout ackno) before)
        (.ackReceived ackno windowSize)).sender.window ≠ -1 := by
      rcases hu.sender.ackReceived_cases ackno windowSize with ⟨hne, -⟩ | ⟨-, hs⟩
      · exact absurd rfl hne
      · rw [QueueTrace.step, TCPSender.step, hs.frame]
        simp only
        omega
    have hnosyn := (hack.run hmid).no_syn (hack.run_open hopen hmid)
    have hbad := hall (before ++ .ackReceived ackno windowSize :: (mid ++ [.fillWindow]))
      ⟨rest, by simp⟩
    rw [run_append, run_cons, run_append] at hbad
    obtain ⟨g, hg, hsyn⟩ := hbad.queued (by simp [QueueTrace.step, fills])
    rw [hnosyn g hg] at hsyn
    simp at hsyn
  · rintro hearly ops' ⟨rest, rfl⟩
    by_cases hfill : Op.fillWindow ∈ ops'
    · obtain ⟨before, after, rfl, hbefore⟩ := List.eq_append_cons_of_mem hfill
      have hno : ∀ windowSize, Op.ackReceived isn windowSize ∉ before := by
        intro windowSize hmem
        obtain ⟨b, c, rfl⟩ := List.append_of_mem hmem
        refine hearly b isn windowSize (c ++ .fillWindow :: (after ++ rest)) (by simp)
          (fun hb => hbefore (by simp [hb])) (by simp) rfl
      rw [run_append, run_cons]
      exact (((hnew.run hbefore).opened (hnew.run_closed rfl hbefore hno)).run after).synFirst
    · exact (hnew.run hfill).synFirst

/-- A listening sender that is handed an acknowledgment of its initial number never sends a SYN. -/
theorem syn_lost_early_ack :
    let ops : List Op := [.ackReceived ⟨7⟩ 4, .write [1], .fillWindow]
    let t := run step (new 8 1000 ⟨7⟩) ops
    t.queued = [{ header := { seqno := ⟨7⟩ }, payload := [1] }] ∧ ¬ SynFirst ⟨7⟩ t := by
  intro ops t
  have hq : t.queued = [{ header := { seqno := ⟨7⟩ }, payload := [1] }] := by decide
  refine ⟨hq, fun h => ?_⟩
  obtain ⟨g, hg, hsyn⟩ := h.queued (by decide)
  rw [hq, List.mem_singleton] at hg
  simp [hg] at hsyn

end QueueTrace

end Sponge
