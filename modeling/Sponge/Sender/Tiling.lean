import Sponge.Library.Runs
import Sponge.Sender.Acking
import Sponge.Sender.Filling

/-! # The sequence space of a sender

The segments that filling the window newly queues form a journal. They tile the
sequence space from 0 up to the next number, whatever is acknowledged, sent again
or queued between them.
-/

namespace Sponge

open Layout Runs

namespace TCPSender

/-- What is done to a sender and its stream; `pop` removes the front of the queue. -/
inductive Op
  | write (data : List UInt8)
  | endInput
  | fillWindow
  | ackReceived (ackno : WrappingInt32) (windowSize : UInt16)
  | tick (ms : ℕ)
  | sendEmptySegment
  | pop

def step (s : TCPSender) : Op → TCPSender
  | .write data => { s with stream := (s.stream.write data).1 }
  | .endInput => { s with stream := s.stream.endInput }
  | .fillWindow => s.fillWindow
  | .ackReceived ackno windowSize => s.ackReceived ackno windowSize
  | .tick ms => s.tick ms
  | .sendEmptySegment => s.sendEmptySegment
  | .pop => { s with segmentsOut := s.segmentsOut.tail }

/-- The segments that filling the window newly queues. -/
def newlyQueued (s : TCPSender) : List TCPSegment :=
  s.fillWindow.segmentsOut.drop s.segmentsOut.length

/-- The segments of the journal lie one behind the other from 0 to the next sequence number. -/
structure Laid (journal : List TCPSegment) (s : TCPSender) : Prop where
  seqno : ∀ p g, At len journal p g → g.header.seqno = wrap p s.isn
  payload : ∀ g ∈ journal, g.payload.length ≤ maxPayloadSize
  len_pos : ∀ g ∈ journal, 0 < len g
  plain : ∀ g ∈ journal, g.header.ack = false
  fin : ∀ p g, At len journal p g → g.header.fin = true → p + len g = extent len journal
  finSent : s.finSent = true ↔ ∃ g ∈ journal, g.header.fin = true
  nextSeqno : s.nextSeqno = extent len journal
  nextSeqno_lt : s.nextSeqno < 2 ^ 64
  consistent : s.stream.Consistent
  fresh : s.Fresh

variable {s s' : TCPSender} {journal segs : List TCPSegment}

theorem Laid.new {capacity : UInt64} {retxTimeout : UInt16} {isn : WrappingInt32} :
    Laid [] (new capacity retxTimeout isn) where
  seqno p g h := absurd h not_at_nil
  payload := by simp
  len_pos := by simp
  plain := by simp
  fin p g h := absurd h not_at_nil
  finSent := by simp [TCPSender.new]
  nextSeqno := rfl
  nextSeqno_lt := by simp [TCPSender.new]
  consistent := .new capacity.toNat_lt
  fresh _ := ⟨rfl, rfl, rfl⟩

theorem opened_eq (s : TCPSender) : ∃ w, s.opened = { s with window := w } ∧ w ≠ -1 := by
  by_cases hw : s.window = -1
  · exact ⟨1, if_pos hw, by decide⟩
  · exact ⟨s.window, if_neg hw, hw⟩

theorem Filled.window_ne (h : Filled s s' segs) : s'.window ≠ -1 := by
  obtain ⟨w, hw, hne⟩ := s.opened_eq
  have hb := congrArg TCPSender.window h.base
  simp only [hw, base] at hb
  rw [hb]
  exact hne

theorem Filled.isn_eq (h : Filled s s' segs) : s'.isn = s.isn := by
  obtain ⟨w, hw, _⟩ := s.opened_eq
  rw [h.isn, hw]

theorem Filled.inFlight_perm (h : Filled s s' segs) : s'.inFlight.Perm (s.inFlight ++ segs) := by
  obtain ⟨w, hw, _⟩ := s.opened_eq
  have hperm := h.inFlight
  rwa [hw] at hperm

theorem Laid.filled (hl : Laid journal s) (h : Filled s s' segs) : Laid (journal ++ segs) s' := by
  obtain ⟨w, hw, _⟩ := s.opened_eq
  have hnext := h.nextSeqno
  have hsent := h.finSent
  have hseqno := h.seqno
  simp only [hw] at hnext hsent hseqno
  refine
    { seqno := fun p g hg => ?_
      payload := fun g hg => (List.mem_append.mp hg).elim (hl.payload g) (h.payload g)
      len_pos := fun g hg => (List.mem_append.mp hg).elim (hl.len_pos g) (h.len_pos g)
      plain := fun g hg => (List.mem_append.mp hg).elim (hl.plain g) (h.plain g)
      fin := fun p g hg hf => ?_
      finSent := by rw [hsent, hl.finSent]; simp only [List.mem_append, or_and_right, exists_or]
      nextSeqno := by rw [hnext, hl.nextSeqno, extent_append]
      nextSeqno_lt := by
        have := h.bound
        have := hl.nextSeqno_lt
        have := limit_lt (s := s')
        omega
      consistent := h.consistent
      fresh := fun hc => absurd hc h.window_ne }
  · rw [h.isn_eq]
    rcases at_append.mp hg with hg | ⟨q, hq, rfl⟩
    · exact hl.seqno p g hg
    · rw [hseqno q g hq, hl.nextSeqno]
  · rw [extent_append]
    rcases at_append.mp hg with hg | ⟨q, hq, rfl⟩
    · have hnew : segs = [] := h.blocked (hl.finSent.mpr ⟨g, hg.mem, hf⟩)
      rw [hnew, extent_nil]
      exact hl.fin p g hg hf
    · have := (h.fin q g hq hf).1
      omega

theorem Laid.other (hl : Laid journal s) (hisn : s'.isn = s.isn)
    (hnext : s'.nextSeqno = s.nextSeqno) (hfin : s'.finSent = s.finSent)
    (hc : s'.stream.Consistent) (hfresh : s'.Fresh) :
    Laid journal s' where
  seqno p g hg := by rw [hisn, hl.seqno p g hg]
  payload := hl.payload
  len_pos := hl.len_pos
  plain := hl.plain
  fin := hl.fin
  finSent := by rw [hfin, hl.finSent]
  nextSeqno := by rw [hnext, hl.nextSeqno]
  nextSeqno_lt := by rw [hnext]; exact hl.nextSeqno_lt
  consistent := hc
  fresh := hfresh

theorem Laid.fin_last (hl : Laid journal s) {before : List TCPSegment} {g : TCPSegment}
    (hb : before ++ [g] <+: journal) (hf : g.header.fin = true) : before ++ [g] = journal := by
  have hend := hl.fin _ _ ⟨before, hb, rfl⟩ hf
  obtain ⟨rest, rfl⟩ := hb
  have hpos : rest ≠ [] → 0 < extent len rest := extent_pos fun g hg =>
    hl.len_pos g (List.mem_append_right _ hg)
  have hnil : rest = [] := by
    by_contra hne
    have := hpos hne
    simp at hend
    omega
  rw [hnil, List.append_nil]

theorem Laid.journal_eq {journal' : List TCPSegment} (hl : Laid journal' s)
    (hpre : journal <+: journal') (hf : ∃ g ∈ journal, g.header.fin = true) :
    journal = journal' := by
  obtain ⟨g, hg, hf⟩ := hf
  obtain ⟨before, after, rfl⟩ := List.append_of_mem hg
  have hb : before ++ [g] <+: before ++ g :: after := ⟨after, by simp⟩
  have hall := hl.fin_last (hb.trans hpre) hf
  exact hpre.eq_of_length_le (by rw [← hall]; simp)

theorem Laid.ackReceived (hl : Laid journal s) (ackno : WrappingInt32) (windowSize : UInt16) :
    Laid journal (s.ackReceived ackno windowSize) := by
  rcases s.ackReceived_cases ackno windowSize with ⟨hs, _⟩ | h
  · rwa [hs]
  · rw [h.frame]
    exact hl.other rfl rfl rfl hl.consistent fun hw => by simp only at hw; omega

theorem Laid.tick (hl : Laid journal s) (ms : ℕ) : Laid journal (s.tick ms) := by
  obtain ⟨again, h⟩ := s.ticked_tick ms
  rw [h.frame]
  exact hl.other rfl rfl rfl hl.consistent hl.fresh

/-- The journal holds the SYN first, and the bytes taken from the stream. -/
structure Tiled (journal : List TCPSegment) (accepted : List UInt8) (s : TCPSender) : Prop
    extends Laid journal s where
  syn : ∀ p g, At len journal p g → (g.header.syn = true ↔ p = 0)
  synPayload : ∀ g ∈ journal, g.header.syn = true → g.payload = []
  closed : s.window = -1 ↔ journal = []
  bytes : journal.flatMap TCPSegment.payload ++ s.stream.buf = accepted
  totRead : s.stream.totRead = (journal.flatMap TCPSegment.payload).length
  ended : s.finSent = true → s.stream.eof2 = true

variable {accepted : List UInt8} {windowSize : UInt16}

theorem length_payload_le (xs : List TCPSegment) :
    (xs.flatMap TCPSegment.payload).length ≤ extent len xs := by
  induction xs with
  | nil => simp
  | cons x xs ih =>
    have hx : x.payload.length ≤ len x := by
      simp only [len, TCPSegment.lengthInSequenceSpace]
      omega
    rw [List.flatMap_cons, List.length_append, extent_cons]
    omega

theorem Tiled.filled (ht : Tiled journal accepted s) (h : Filled s s' segs) :
    Tiled (journal ++ segs) accepted s' := by
  obtain ⟨w, hw, _⟩ := s.opened_eq
  have hbuf := h.buf
  have htot := h.totRead
  have hsent := h.finSent
  have heof := h.eof2
  simp only [hw] at hbuf htot hsent heof
  have hlaid := ht.toLaid.filled h
  refine
    { toLaid := hlaid
      syn := fun p g hg => ?_
      synPayload := fun g hg =>
        (List.mem_append.mp hg).elim (ht.synPayload g) (h.synPayload g)
      closed := ?_
      bytes := by rw [List.flatMap_append, List.append_assoc, ← hbuf, ht.bytes]
      totRead := ?_
      ended := fun hf => ?_ }
  · rcases at_append.mp hg with hg | ⟨q, hq, rfl⟩
    · exact ht.syn p g hg
    · rw [h.syn g hq.mem, decide_eq_true_eq]
      by_cases hclosed : s.window = -1
      · obtain ⟨g', rfl⟩ := h.single hclosed
        simp [ht.closed.mp hclosed, (at_singleton.mp hq).1, hclosed]
      · have hpos := extent_pos ht.len_pos (mt ht.closed.mpr hclosed)
        exact iff_of_false hclosed (by omega)
  · apply iff_of_false h.window_ne
    intro hnil
    obtain ⟨hj, hs⟩ := List.append_eq_nil_iff.mp hnil
    obtain ⟨g, rfl⟩ := h.single (ht.closed.mpr hj)
    simp at hs
  · have hlen := length_payload_le (journal ++ segs)
    have := hlaid.nextSeqno
    have := hlaid.nextSeqno_lt
    rw [List.flatMap_append, List.length_append] at hlen ⊢
    have := ht.totRead
    rw [htot (by omega)]
    omega
  · rcases (hsent.mp hf) with hf | ⟨g, hg, hf⟩
    · rw [heof, ht.ended hf]
    · obtain ⟨p, hp⟩ : ∃ p, At len segs p g := exists_at_of_mem hg
      exact (hlaid.consistent.eof_iff.mp (h.fin p g hp hf).2).2

theorem Tiled.new {capacity : UInt64} {retxTimeout : UInt16} {isn : WrappingInt32} :
    Tiled [] [] (new capacity retxTimeout isn) where
  toLaid := .new
  syn p g h := absurd h not_at_nil
  synPayload := by simp
  closed := by simp [TCPSender.new]
  bytes := rfl
  totRead := rfl
  ended := by simp [TCPSender.new]

theorem Tiled.write (ht : Tiled journal accepted s) (data : List UInt8) :
    Tiled journal (accepted ++ data.take (s.stream.write data).2)
      { s with stream := (s.stream.write data).1 } where
  toLaid := ht.other rfl rfl rfl ht.consistent.write ht.fresh
  syn := ht.syn
  synPayload := ht.synPayload
  closed := ht.closed
  bytes := by rw [← ht.bytes, List.append_assoc]; rfl
  totRead := ht.totRead
  ended := ht.ended

theorem Tiled.endInput (ht : Tiled journal accepted s) :
    Tiled journal accepted { s with stream := s.stream.endInput } where
  toLaid := ht.other rfl rfl rfl ht.consistent.endInput ht.fresh
  syn := ht.syn
  synPayload := ht.synPayload
  closed := ht.closed
  bytes := ht.bytes
  totRead := ht.totRead
  ended _ := rfl

theorem Tiled.setError (ht : Tiled journal accepted s) :
    Tiled journal accepted { s with stream := s.stream.setError } where
  toLaid := ht.toLaid.other rfl rfl rfl ht.consistent.setError ht.fresh
  syn := ht.syn
  synPayload := ht.synPayload
  closed := ht.closed
  bytes := ht.bytes
  totRead := ht.totRead
  ended := ht.ended

theorem Tiled.other (ht : Tiled journal accepted s) (hl : Laid journal s')
    (hstream : s'.stream = s.stream) (hwindow : s'.window = -1 ↔ s.window = -1) :
    Tiled journal accepted s' where
  toLaid := hl
  syn := ht.syn
  synPayload := ht.synPayload
  closed := by rw [hwindow, ht.closed]
  bytes := by rw [hstream, ht.bytes]
  totRead := by rw [hstream, ht.totRead]
  ended hf := by rw [hstream, ht.ended (ht.finSent.mpr (hl.finSent.mp hf))]

theorem Tiled.ackReceived (ht : Tiled journal accepted s) (windowSize : UInt16)
    {ackno : WrappingInt32}
    (hsent : s.window = -1 → s.ackReceived ackno windowSize = s) :
    Tiled journal accepted (s.ackReceived ackno windowSize) := by
  by_cases hw : s.window = -1
  · rwa [hsent hw]
  · have hl := ht.toLaid.ackReceived ackno windowSize
    rcases s.ackReceived_cases ackno windowSize with ⟨hs, _⟩ | h
    · rwa [hs]
    · rw [h.frame] at hl ⊢
      exact ht.other hl rfl (iff_of_false (by simp only; omega) hw)

theorem Tiled.tick (ht : Tiled journal accepted s) (ms : ℕ) :
    Tiled journal accepted (s.tick ms) := by
  have hl := ht.toLaid.tick ms
  obtain ⟨again, h⟩ := s.ticked_tick ms
  rw [h.frame] at hl ⊢
  exact ht.other hl rfl Iff.rfl

theorem Tiled.requeue (ht : Tiled journal accepted s) (queue : List TCPSegment) (crtx : UInt32) :
    Tiled journal accepted { s with segmentsOut := queue, crtx := crtx } :=
  ht.other (ht.toLaid.other rfl rfl rfl ht.consistent ht.fresh) rfl Iff.rfl

end TCPSender

/-- A sender with a record of the segments newly queued by filling the window and of the bytes
accepted into its stream. -/
structure SenderTrace where
  sender : TCPSender
  journal : List TCPSegment
  accepted : List UInt8

namespace SenderTrace

open TCPSender

def new (capacity : UInt64) (retxTimeout : UInt16) (isn : WrappingInt32) : SenderTrace :=
  ⟨.new capacity retxTimeout isn, [], []⟩

def step (t : SenderTrace) : Op → SenderTrace
  | .write data =>
    { t with
      sender := t.sender.step (.write data)
      accepted := t.accepted ++ data.take (t.sender.stream.write data).2 }
  | .fillWindow =>
    { t with
      sender := t.sender.step .fillWindow
      journal := t.journal ++ t.sender.newlyQueued }
  | o => { t with sender := t.sender.step o }

theorem step_sender (t : SenderTrace) (o : Op) : (t.step o).sender = t.sender.step o := by
  cases o <;> rfl

/-- The window is filled before an acknowledgment is received. -/
def FillsFirst : List Op → Prop
  | [] => True
  | .fillWindow :: _ => True
  | .ackReceived .. :: _ => False
  | _ :: ops => FillsFirst ops

instance : ∀ ops, Decidable (FillsFirst ops)
  | [] => instDecidableTrue
  | .fillWindow :: _ => instDecidableTrue
  | .ackReceived .. :: _ => instDecidableFalse
  | .write _ :: ops | .endInput :: ops | .tick _ :: ops | .sendEmptySegment :: ops | .pop :: ops =>
    instDecidableFillsFirst ops

theorem FillsFirst.of_append {ops ops' : List Op} (h : FillsFirst (ops ++ ops')) :
    FillsFirst ops := by
  induction ops with
  | nil => trivial
  | cons o ops ih =>
    cases o with
    | fillWindow => trivial
    | ackReceived => exact h.elim
    | _ => exact ih h

/-- The invariant of a run: the journal tiles the sequence space, relative to `isn`. -/
structure Tiled (isn : WrappingInt32) (t : SenderTrace) : Prop where
  isn : t.sender.isn = isn
  tiled : TCPSender.Tiled t.journal t.accepted t.sender

variable {t : SenderTrace} {isn : WrappingInt32} {o : Op} {ops : List Op}

theorem newlyQueued_eq {s : TCPSender} {segs : List TCPSegment}
    (h : Filled s s.fillWindow segs) : s.newlyQueued = segs := by
  obtain ⟨w, hw, _⟩ := s.opened_eq
  have hout := h.segmentsOut
  simp only [hw] at hout
  rw [newlyQueued, hout, List.drop_left]

theorem Tiled.step (h : Tiled isn t)
    (ho : t.sender.window ≠ -1 ∨ ∀ ackno windowSize, o ≠ .ackReceived ackno windowSize) :
    Tiled isn (t.step o) := by
  obtain ⟨hisn, ht⟩ := h
  cases o with
  | write data => exact ⟨hisn, ht.write data⟩
  | endInput => exact ⟨hisn, ht.endInput⟩
  | fillWindow =>
    obtain ⟨segs, hf⟩ := filled_fillWindow ht.consistent ht.fresh
    refine ⟨hf.isn_eq.trans hisn, ?_⟩
    rw [SenderTrace.step, newlyQueued_eq hf]
    exact ht.filled hf
  | ackReceived ackno windowSize =>
    have hw : t.sender.window ≠ -1 := ho.resolve_right fun h => h _ _ rfl
    refine ⟨?_, ht.ackReceived _ fun h => absurd h hw⟩
    rcases t.sender.ackReceived_cases ackno windowSize with ⟨hs, _⟩ | hs
    · exact (congrArg TCPSender.isn hs).trans hisn
    · exact (congrArg TCPSender.isn hs.frame).trans hisn
  | tick ms =>
    obtain ⟨again, hs⟩ := t.sender.ticked_tick ms
    exact ⟨(congrArg TCPSender.isn hs.frame).trans hisn, ht.tick ms⟩
  | sendEmptySegment => exact ⟨hisn, ht.requeue _ 0⟩
  | pop => exact ⟨hisn, ht.requeue _ _⟩

/-- Once the window has been filled it stays open, so acknowledgments may come from then on. -/
theorem Tiled.run (h : Tiled isn t) (hops : t.sender.window ≠ -1 ∨ FillsFirst ops) :
    Tiled isn (run SenderTrace.step t ops) := by
  induction ops generalizing t with
  | nil => exact h
  | cons o ops ih =>
    have hstep : Tiled isn (t.step o) := h.step <| hops.imp_right fun hf a w => by
      rintro rfl
      exact hf
    apply ih hstep
    by_cases hw : t.sender.window = -1
    · have hf := hops.resolve_left (not_not_intro hw)
      cases o with
      | fillWindow =>
        obtain ⟨segs, hfill⟩ := filled_fillWindow h.tiled.consistent h.tiled.fresh
        exact Or.inl hfill.window_ne
      | ackReceived => exact hf.elim
      | _ => exact Or.inr hf
    · refine Or.inl (mt hstep.tiled.closed.mp ?_)
      have hne := mt h.tiled.closed.mpr hw
      cases o <;> simp [SenderTrace.step, hne]

/-- The segments queued by filling the window tile the sequence space. -/
structure Tiling (isn : WrappingInt32) (t : SenderTrace) : Prop where
  seqno : ∀ before seg, before ++ [seg] <+: t.journal →
    seg.header.seqno = wrap (extent len before) isn
  syn : ∀ before seg, before ++ [seg] <+: t.journal → (seg.header.syn = true ↔ before = [])
  fin : ∀ before seg, before ++ [seg] <+: t.journal → seg.header.fin = true →
    before ++ [seg] = t.journal
  payload : ∀ seg ∈ t.journal, seg.payload.length ≤ maxPayloadSize
  bytes : t.journal.flatMap TCPSegment.payload ++ t.sender.stream.buf = t.accepted
  bytesRead : t.sender.stream.bytesRead = (t.journal.flatMap TCPSegment.payload).length
  total : extent len t.journal = t.sender.nextSeqnoAbsolute

theorem Tiled.tiling (h : Tiled isn t) : Tiling isn t := by
  obtain ⟨hisn, ht⟩ := h
  refine
    { seqno := fun before seg hb => ?_
      syn := fun before seg hb => ?_
      fin := fun before seg hb hf => ?_
      payload := ht.payload
      bytes := ht.bytes
      bytesRead := ht.totRead
      total := ht.nextSeqno.symm }
  · rw [ht.seqno _ _ ⟨before, hb, rfl⟩, hisn]
  · rw [ht.syn _ _ ⟨before, hb, rfl⟩]
    constructor
    · intro hz
      by_contra hne
      have hmem := (List.prefix_append before [seg]).trans hb
      have := extent_pos (fun g hg => ht.len_pos g (hmem.subset hg)) hne
      omega
    · rintro rfl
      rfl
  · exact ht.fin_last hb hf

theorem journal_ne_nil_run (h : t.journal ≠ []) : (run step t ops).journal ≠ [] := by
  refine run_invariant (I := fun t : SenderTrace => t.journal ≠ []) (fun t o h => ?_) h
  cases o <;> simp [SenderTrace.step, h]

theorem journal_ne_nil_of_mem (h : Tiled isn t) (hops : t.sender.window ≠ -1 ∨ FillsFirst ops)
    (hfill : .fillWindow ∈ ops) : (run step t ops).journal ≠ [] := by
  obtain ⟨before, after, rfl⟩ := List.append_of_mem hfill
  have hops' := hops.imp_right FillsFirst.of_append
  have ht := h.run hops'
  rw [run_append, run_cons]
  apply journal_ne_nil_run
  have hnext := ht.step (o := .fillWindow) (Or.inr nofun)
  obtain ⟨segs, hf⟩ := filled_fillWindow ht.tiled.consistent ht.tiled.fresh
  exact mt hnext.tiled.closed.mpr hf.window_ne

theorem Tiling.exists_syn (h : Tiling isn t) (hne : t.journal ≠ []) :
    ∃ seg rest, t.journal = seg :: rest ∧ seg.header.syn = true ∧ seg.header.seqno = isn ∧
      ∀ seg' ∈ rest, seg'.header.syn = false := by
  obtain ⟨seg, rest, hj⟩ := List.exists_cons_of_ne_nil hne
  have hfirst : [] ++ [seg] <+: t.journal := ⟨rest, by rw [hj]; rfl⟩
  refine ⟨seg, rest, hj, (h.syn [] seg hfirst).mpr rfl, ?_, fun seg' hseg' => ?_⟩
  · rw [h.seqno [] seg hfirst, extent_nil, wrap_zero]
  · obtain ⟨before, after, rfl⟩ := List.append_of_mem hseg'
    have hlater : (seg :: before) ++ [seg'] <+: t.journal := ⟨after, by simp [hj]⟩
    simpa using (h.syn _ _ hlater)

/-- In every run that fills the window before it takes an acknowledgment, the segments newly
queued tile the sequence space: the SYN comes first, once the window has been filled at all, and
the FIN is queued only at the end of the stream. -/
theorem segments_tile {capacity : UInt64} {retxTimeout : UInt16} {isn : WrappingInt32}
    {ops : List Op} (h : FillsFirst ops) :
    let t := run step (new capacity retxTimeout isn) ops
    Tiling isn t ∧
      (.fillWindow ∈ ops → ∃ seg rest, t.journal = seg :: rest ∧ seg.header.syn = true ∧
        seg.header.seqno = isn ∧ ∀ seg' ∈ rest, seg'.header.syn = false) ∧
      ∀ ops', ops' ++ [.fillWindow] <+: ops →
        let s := (run step (new capacity retxTimeout isn) ops').sender
        ∀ seg ∈ s.newlyQueued, seg.header.fin = true → s.fillWindow.stream.eof = true := by
  have hnew : Tiled isn (new capacity retxTimeout isn) := ⟨rfl, .new⟩
  have htiling := (hnew.run (Or.inr h)).tiling
  refine ⟨htiling, fun hf => htiling.exists_syn (journal_ne_nil_of_mem hnew (Or.inr h) hf), ?_⟩
  rintro ops' ⟨rest, rfl⟩ s seg hseg hfin
  rw [List.append_assoc] at h
  have ht : Tiled isn (run step (new capacity retxTimeout isn) ops') :=
    hnew.run (Or.inr h.of_append)
  obtain ⟨segs, hfill⟩ := filled_fillWindow ht.tiled.consistent ht.tiled.fresh
  rw [newlyQueued_eq hfill] at hseg
  obtain ⟨p, hp⟩ : ∃ p, At len segs p seg := exists_at_of_mem hseg
  exact (hfill.fin p seg hp hfin).2

/-- Data, a full window, a retransmission, an empty segment and the FIN. -/
theorem segments_tile_small_window :
    let t := run step (new 8 1000 ⟨4294967290⟩)
      [.write [1, 2, 3], .fillWindow, .ackReceived ⟨4294967291⟩ 2, .fillWindow, .write [4],
        .endInput, .tick 1000, .pop, .sendEmptySegment, .ackReceived ⟨4294967293⟩ 9,
        .fillWindow]
    Tiling ⟨4294967290⟩ t ∧ ∃ seg rest, t.journal = seg :: rest ∧ seg.header.syn = true ∧
      seg.header.seqno = ⟨4294967290⟩ ∧ ∀ seg' ∈ rest, seg'.header.syn = false :=
  have h := segments_tile (by decide)
  ⟨h.1, h.2.1 (by simp)⟩

end SenderTrace

end Sponge
