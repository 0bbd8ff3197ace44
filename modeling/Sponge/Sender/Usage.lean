import Sponge.Sender.Accepting

/-! # The window is used fully

The window in force is the one accepted last, and a single position as long as none was
accepted. Filling the window never sends past it, and stops short of its end only when the stream
has nothing to send. What is left over then waits for an acknowledgment of what is outstanding.
-/

namespace Sponge

open Layout Runs

namespace TCPSender

variable {s : TCPSender} {journal : List TCPSegment} {ackno : WrappingInt32} {k : ℕ}

/-- Is it the number of a position in range? -/
def acceptable (s : TCPSender) (ackno : WrappingInt32) : Bool :=
  (List.range (s.nextSeqnoAbsolute + 1 - s.acked)).any fun i => wrap (s.acked + i) s.isn = ackno

theorem acceptable_iff : s.acceptable ackno = true ↔ ∃ k, s.InRange ackno k := by
  simp only [acceptable, List.any_eq_true, List.mem_range, decide_eq_true_eq]
  constructor
  · rintro ⟨i, hi, hwraps⟩
    exact ⟨s.acked + i, by omega, by omega, hwraps⟩
  · rintro ⟨k, hk⟩
    have hge := hk.ge
    have hle := hk.le
    refine ⟨k - s.acked, by omega, ?_⟩
    rw [Nat.add_sub_cancel' hge]
    exact hk.wraps

theorem cut_fillWindow (hc : s.stream.Consistent) (hw : s.window ≠ -1) :
    ∃ new, Cut s s.fillWindow new := by
  by_cases hfin : s.finSent = true
  · have hs : s.fillWindow = s := if_pos hfin
    rw [hs]
    exact ⟨[], .of_settled hc (Or.inl hfin)⟩
  · have hs : s.fillWindow = s.fillLoop (s.stream.buf.length + 1) := by
      rw [fillWindow, if_neg hfin, if_neg hw]
    rw [hs]
    exact cut_fillLoop hc (Nat.lt_succ_self _) (by simpa using hfin)

end TCPSender

/-- A sender with a note whether the SYN was queued by filling the window, and with the window
size of the acknowledgment accepted last. -/
structure UsageTrace where
  sender : TCPSender
  synSent : Bool
  advertised : Option UInt16
  deriving DecidableEq, Repr

namespace UsageTrace

open TCPSender

def new (capacity : UInt64) (retxTimeout : UInt16) (isn : WrappingInt32) : UsageTrace :=
  ⟨.new capacity retxTimeout isn, false, none⟩

def step (t : UsageTrace) (o : Op) : UsageTrace where
  sender := t.sender.step o
  synSent :=
    match o with
    | .fillWindow => t.synSent || t.sender.newlyQueued.any fun seg => seg.header.syn
    | _ => t.synSent
  advertised :=
    match o with
    | .ackReceived ackno windowSize =>
      if t.sender.acceptable ackno then some windowSize else t.advertised
    | _ => t.advertised

/-- The size of the window in force. -/
def windowInForce (t : UsageTrace) : ℕ :=
  match t.advertised with
  | none => 1
  | some windowSize => max 1 windowSize.toNat

theorem one_le_windowInForce (t : UsageTrace) : 1 ≤ t.windowInForce := by
  unfold windowInForce
  split
  · exact le_rfl
  · exact le_max_left _ _

theorem windowInForce_of_some {t : UsageTrace} {windowSize : UInt16}
    (h : t.advertised = some windowSize) : t.windowInForce = max 1 windowSize.toNat := by
  rw [windowInForce, h]

/-- The positions have not reached the last round. -/
def BeforeLastRound (t : UsageTrace) : Prop := t.sender.nextSeqnoAbsolute + 2 ^ 32 < 2 ^ 64

instance (t : UsageTrace) : Decidable t.BeforeLastRound := inferInstanceAs (Decidable (_ < _))

/-- What filling the window does in the state `t`. -/
structure FillsWindow (t : UsageTrace) : Prop where
  fits : ∀ p seg, At len t.sender.newlyQueued p seg →
    seg.header.seqno = wrap (t.sender.nextSeqnoAbsolute + p) t.sender.isn ∧
      t.sender.nextSeqnoAbsolute + p + seg.lengthInSequenceSpace ≤
        t.sender.acked + t.windowInForce
  used : t.sender.fillWindow.finSent = true ∨
    (t.sender.fillWindow.stream.bufferEmpty = true ∧
      t.sender.fillWindow.stream.inputEnded = false) ∨
    t.sender.acked + t.windowInForce ≤ t.sender.fillWindow.nextSeqnoAbsolute
  waits : t.sender.fillWindow.finSent = false →
    t.sender.fillWindow.stream.bufferEmpty = false ∨
      t.sender.fillWindow.stream.inputEnded = true →
    t.sender.fillWindow.outstanding ≠ []

/-- The sender's window is the one in force, or it was never filled nor opened by an
acknowledgment. -/
structure Known (t : UsageTrace) : Prop where
  outstanding : ∃ journal, Outstanding journal t.sender
  window : t.sender.window = t.windowInForce ∨ (t.sender.window = -1 ∧ t.advertised = none)
  opened : t.synSent = true → t.sender.window ≠ -1

variable {t : UsageTrace} {o : Op} {ops : List Op} {capacity : UInt64} {retxTimeout : UInt16}
  {isn : WrappingInt32}

theorem Known.new : Known (new capacity retxTimeout isn) where
  outstanding := ⟨[], .new⟩
  window := Or.inr ⟨rfl, rfl⟩
  opened h := by cases h

theorem Known.other {t' : UsageTrace} (h : Known t)
    (hout : ∃ journal, Outstanding journal t'.sender)
    (hw : t'.sender.window = t.sender.window) (hadv : t'.advertised = t.advertised)
    (hsyn : t'.synSent = t.synSent) : Known t' where
  outstanding := hout
  window := by
    rw [hw, hadv, windowInForce, hadv]
    exact h.window
  opened hs := by
    rw [hw]
    exact h.opened (hsyn ▸ hs)

theorem outstanding_step {s : TCPSender} (h : ∃ journal, Outstanding journal s)
    (hsmall : s.nextSeqno + 2 ^ 32 < 2 ^ 64) (o : Op) :
    ∃ journal, Outstanding journal (s.step o) := by
  obtain ⟨journal, hout⟩ := h
  have hstep := SenderTrace.outstanding_step (t := ⟨s, journal, []⟩) (o := o) hout hsmall
  rw [SenderTrace.step_sender] at hstep
  exact ⟨_, hstep⟩

theorem Known.fillWindow (h : Known t) (hsmall : t.BeforeLastRound) :
    Known (t.step .fillWindow) := by
  have hnext := outstanding_step h.outstanding hsmall .fillWindow
  obtain ⟨journal, hout⟩ := h.outstanding
  obtain ⟨segs, hf⟩ := filled_fillWindow hout.consistent hout.fresh
  have hwindow : t.sender.fillWindow.window = t.sender.opened.window := by
    simpa only [base] using congrArg TCPSender.window hf.base
  refine ⟨hnext, Or.inl ?_, fun _ => hf.window_ne⟩
  change t.sender.fillWindow.window = t.windowInForce
  rcases h.window with hw | ⟨hw, hnone⟩
  · rw [hwindow, opened_of_ne (by omega), hw]
  · have hopen : t.sender.opened = { t.sender with window := 1 } := if_pos hw
    rw [hwindow, hopen, windowInForce, hnone]
    rfl

theorem Known.ackReceived (h : Known t) (hsmall : t.BeforeLastRound) (ackno : WrappingInt32)
    (windowSize : UInt16) : Known (t.step (.ackReceived ackno windowSize)) := by
  have hnext := outstanding_step h.outstanding hsmall (.ackReceived ackno windowSize)
  obtain ⟨journal, hout⟩ := h.outstanding
  by_cases hk : t.sender.acceptable ackno = true
  · obtain ⟨k, hk'⟩ := acceptable_iff.mp hk
    have hs : Acked t.sender (t.sender.ackReceived ackno windowSize) k windowSize :=
      hout.acked_of_inRange hsmall hk'
    have hw : (t.sender.ackReceived ackno windowSize).window = max 1 (windowSize.toNat : ℤ) := by
      rw [hs.frame]
    have hadv : (t.step (.ackReceived ackno windowSize)).advertised = some windowSize := if_pos hk
    refine ⟨hnext, Or.inl ?_, fun _ => ?_⟩
    · rw [windowInForce_of_some hadv]
      change (t.sender.ackReceived ackno windowSize).window = _
      rw [hw]
      omega
    · change (t.sender.ackReceived ackno windowSize).window ≠ -1
      omega
  · have hs : t.sender.ackReceived ackno windowSize = t.sender := by
      have hnext := hout.nextSeqno_lt
      have hacked := hout.acked_le
      exact (ackReceived_eq_or_inRange (by omega) ackno windowSize).resolve_right
        (mt acceptable_iff.mpr hk)
    exact h.other hnext (congrArg TCPSender.window hs) (if_neg hk) rfl

theorem Known.step (h : Known t) (hsmall : t.BeforeLastRound) : Known (t.step o) := by
  have hnext := outstanding_step h.outstanding hsmall o
  cases o with
  | fillWindow => exact h.fillWindow hsmall
  | ackReceived ackno windowSize => exact h.ackReceived hsmall ackno windowSize
  | tick ms =>
    obtain ⟨again, hs⟩ := t.sender.ticked_tick ms
    have hw : (t.sender.tick ms).window = t.sender.window := by rw [hs.frame]
    exact h.other hnext hw rfl rfl
  | write _ | endInput | sendEmptySegment | pop => exact h.other hnext rfl rfl rfl

theorem known_run
    (h : Admitted step (fun t _ => t.BeforeLastRound) (new capacity retxTimeout isn) ops) :
    Known (run step (new capacity retxTimeout isn) ops) :=
  h.invariant (fun _ _ ht hsmall => ht.step hsmall) .new

theorem Known.window_eq (h : Known t) (hsyn : t.synSent = true) :
    t.sender.window = t.windowInForce :=
  h.window.resolve_right fun hclosed => h.opened hsyn hclosed.1

theorem Known.limit_fillWindow (h : Known t) (hsmall : t.BeforeLastRound)
    (hsyn : t.synSent = true) :
    t.sender.fillWindow.limit = t.sender.acked + t.windowInForce := by
  obtain ⟨journal, hout⟩ := h.outstanding
  obtain ⟨segs, hcut⟩ := cut_fillWindow hout.consistent (h.opened hsyn)
  have hle := hout.acked_le
  have hmax := hout.window_le
  have hroom : t.sender.nextSeqno + 2 ^ 32 < 2 ^ 64 := hsmall
  rw [hcut.limit, limit, h.window_eq hsyn]
  rw [h.window_eq hsyn] at hmax
  omega

theorem Known.nextSeqno_fillWindow (h : Known t) (hsyn : t.synSent = true)
    (hnone : t.sender.fillWindow.outstanding = []) :
    t.sender.fillWindow.nextSeqno = t.sender.acked := by
  obtain ⟨journal, hout⟩ := h.outstanding
  obtain ⟨segs, hcut⟩ := cut_fillWindow hout.consistent (h.opened hsyn)
  obtain ⟨segs', hf⟩ := filled_fillWindow hout.consistent hout.fresh
  have hflight : t.sender.fillWindow.inFlight = [] := by rw [inFlight, hnone, List.map_nil]
  have hcaught := (hout.toFlight.filled hf).acked_eq hflight
  have hacked : t.sender.fillWindow.acked = t.sender.acked := by
    simpa only [base] using congrArg TCPSender.acked hcut.base
  rw [← hcaught, hacked]

/-- With the window in force, filling it sends up to its end if the stream has that much. -/
theorem Known.fillsWindow (h : Known t) (hsmall : t.BeforeLastRound) (hsyn : t.synSent = true) :
    FillsWindow t := by
  have hlimit := h.limit_fillWindow hsmall hsyn
  have hcaught := h.nextSeqno_fillWindow hsyn
  obtain ⟨journal, hout⟩ := h.outstanding
  obtain ⟨segs, hcut⟩ := cut_fillWindow hout.consistent (h.opened hsyn)
  have hsettled := hcut.settled
  rw [Settled, hlimit] at hsettled
  have hempty := hcut.consistent.bufferEmpty_iff
  refine ⟨?_, ?_, ?_⟩
  · intro p seg hseg
    have hnew : t.sender.newlyQueued = segs := by
      rw [newlyQueued, hcut.segmentsOut, List.drop_left]
    rw [hnew] at hseg
    have hend := hseg.add_le
    have hpos := hcut.len_pos seg hseg.mem
    have hnext := hcut.nextSeqno
    have hbound := hcut.bound
    rw [hlimit] at hbound
    refine ⟨hcut.seqno p seg hseg, ?_⟩
    change t.sender.nextSeqno + p + len seg ≤ _
    omega
  · rw [hempty]
    exact hsettled.imp_right Or.symm
  · -- were nothing outstanding, the window would have room behind what is acknowledged
    intro hfin hdata hnone
    have hpos := t.one_le_windowInForce
    have hsent := hcaught hnone
    rcases hsettled with hs | hs | hs
    · rw [hfin] at hs
      cases hs
    · omega
    · rcases hdata with hd | hd
      · rw [hempty.mpr hs.1] at hd
        cases hd
      · rw [ByteStream.inputEnded, hs.2] at hd
        cases hd

/-- In every run whose positions do not reach the last round, once the SYN was sent, filling the
window uses it fully and does not exceed it, and what cannot be sent waits for an
acknowledgment. -/
theorem window_filled
    (h : Admitted step (fun t _ => t.BeforeLastRound) (new capacity retxTimeout isn)
      (ops ++ [.fillWindow]))
    (hsyn : (run step (new capacity retxTimeout isn) ops).synSent = true) :
    FillsWindow (run step (new capacity retxTimeout isn) ops) := by
  obtain ⟨hops, hlast⟩ := admitted_append.mp h
  exact (known_run hops).fillsWindow hlast.1 hsyn

/-- A window that shrinks below what was sent, and then a FIN that fits exactly. -/
theorem window_filled_shrunk :
    FillsWindow (run step (new 8 1000 ⟨4294967293⟩)
      [.fillWindow, .ackReceived ⟨4294967294⟩ 3, .write [1, 2, 3, 4], .fillWindow,
        .ackReceived ⟨4294967295⟩ 1, .fillWindow, .endInput, .ackReceived ⟨1⟩ 2]) :=
  window_filled (by decide) (by decide)

/-! ### The last round

One byte at a time, the positions reach the last round. There a number just behind the checkpoint is
unwrapped to a position one round on, which wraps around to the front.
-/

/-- The byte at position `n + 1` is written, sent, acknowledged and taken from the queue. -/
def round (n : ℕ) : List Op :=
  [.write [0], .fillWindow, .ackReceived (wrap (n + 2) ⟨1⟩) 1, .pop]

def rounds (n : ℕ) : List Op := (List.range n).flatMap round

/-- A sender that has sent `n` bytes, all acknowledged. -/
def idle (n : ℕ) : UsageTrace where
  sender :=
    { TCPSender.new 8 1000 ⟨1⟩ with
      stream := { ByteStream.new 8 with totRead := n, totWrite := n }
      nextSeqno := n + 1
      acked := n + 1
      window := 1 }
  synSent := true
  advertised := some 1

/-- The segment with the byte at position `n + 1`. -/
def byteSegment (n : ℕ) : TCPSegment :=
  { header := { seqno := wrap (n + 1) ⟨1⟩ }, payload := [0] }

/-- The byte at position `n + 1` is in the stream. -/
def loaded (n : ℕ) : UsageTrace :=
  { idle n with
    sender :=
      { (idle n).sender with
        stream :=
          { ByteStream.new 8 with rem := 7, totRead := n, totWrite := n + 1, buf := [0] } } }

/-- The byte at position `n + 1` is sent. -/
def busy (n : ℕ) : UsageTrace :=
  { idle n with
    sender :=
      { (idle n).sender with
        stream := { ByteStream.new 8 with totRead := n + 1, totWrite := n + 1 }
        nextSeqno := n + 2
        segmentsOut := [byteSegment n]
        outstanding := [(0, 1000, byteSegment n)] } }

variable {n : ℕ}

theorem step_write (h : n + 2 + 2 ^ 32 < 2 ^ 64) : (idle n).step (.write [0]) = loaded n := by
  simp [step, TCPSender.step, idle, loaded, TCPSender.new, ByteStream.new, ByteStream.write]
  omega

theorem limit_eq {s : TCPSender} (h : n + 2 + 2 ^ 32 < 2 ^ 64) (ha : s.acked = n + 1)
    (hw : s.window = 1) : s.limit = n + 2 := by
  rw [limit, ha, hw]
  omega

/-- The loop takes its first turn for the byte, and its second one to find the window full. -/
theorem fillWindow_loaded (h : n + 2 + 2 ^ 32 < 2 ^ 64) :
    (loaded n).sender.fillWindow = (busy n).sender := by
  have hroom : sub64 (n + 2) (loaded n).sender.nextSeqno = 1 := by
    change sub64 (n + 2) (n + 1) = 1
    rw [sub64_of_le (by omega) (by omega)]
    omega
  have hsize : (loaded n).sender.stream.bufferSize = 1 := by
    simp [loaded, ByteStream.bufferSize, ByteStream.new, sub64]
  have hlen : min maxPayloadSize (min 1 1) = 1 := rfl
  have hread : (loaded n).sender.stream.read 1 = ((busy n).sender.stream, [0]) := by
    simp [loaded, busy, ByteStream.read, ByteStream.new]
    omega
  have heof : (busy n).sender.stream.eof = false := rfl
  have hemit :
      (loaded n).sender.emit (busy n).sender.stream (byteSegment n) 1 = (busy n).sender := by
    simp [loaded, busy, emit, push, multimapInsert, expiry, idle, TCPSender.new]
    exact ⟨by omega, rfl⟩
  change fillLoop 2 (loaded n).sender = _
  rw [fillLoop, limit_eq h rfl rfl,
    if_pos (show (loaded n).sender.nextSeqno < n + 2 from Nat.lt_succ_self (n + 1))]
  simp only [hroom, hsize, hlen, hread, heof, Bool.false_and, Bool.false_eq_true, if_false,
    add_zero, one_ne_zero]
  change fillLoop 1 ((loaded n).sender.emit (busy n).sender.stream (byteSegment n) 1) = _
  rw [hemit, fillLoop, limit_eq h rfl rfl]
  exact if_neg (Nat.lt_irrefl (n + 2))

theorem step_fillWindow (h : n + 2 + 2 ^ 32 < 2 ^ 64) : (loaded n).step .fillWindow = busy n := by
  rw [step, TCPSender.step, fillWindow_loaded h]
  rfl

theorem step_ackReceived (h : n + 2 + 2 ^ 32 < 2 ^ 64) :
    (busy n).step (.ackReceived (wrap (n + 2) ⟨1⟩) 1) =
      { idle (n + 1) with
        sender := { (idle (n + 1)).sender with segmentsOut := [byteSegment n] } } := by
  have hunwrap : unwrap (wrap (n + 2) ⟨1⟩) (busy n).sender.isn (busy n).sender.acked = n + 2 := by
    change unwrap (wrap (n + 2) ⟨1⟩) ⟨1⟩ (n + 1) = n + 2
    exact unwrap_wrap ⟨1⟩ (by omega) (by omega) (by omega) (Or.inl (by omega))
  have hend : isAcked ⟨1⟩ (n + 2) (byteSegment n) = true := by
    rw [isAcked, byteSegment,
      unwrap_wrap ⟨1⟩ (by omega) (by omega) (by omega) (Or.inl (by omega)), decide_eq_true_eq]
    simp [TCPSegment.lengthInSequenceSpace]
    omega
  have hacc : (busy n).sender.acceptable (wrap (n + 2) ⟨1⟩) = true :=
    acceptable_iff.mpr ⟨n + 2, Nat.le_succ (n + 1), le_rfl, rfl⟩
  simp only [step, TCPSender.step, hacc, if_true, TCPSender.ackReceived, hunwrap]
  rw [if_neg (show ¬ (busy n).sender.nextSeqno < n + 2 from Nat.lt_irrefl (n + 2)),
    if_pos (show (busy n).sender.acked ≤ n + 2 from Nat.le_succ (n + 1))]
  simp [busy, idle, TCPSender.new, ByteStream.new, hend]

theorem run_round (h : n + 2 + 2 ^ 32 < 2 ^ 64) : run step (idle n) (round n) = idle (n + 1) := by
  rw [round, run_cons, step_write h, run_cons, step_fillWindow h, run_cons, step_ackReceived h]
  rfl

theorem run_rounds (h : n + 1 + 2 ^ 32 < 2 ^ 64) : run step (idle 0) (rounds n) = idle n := by
  induction n with
  | zero => rfl
  | succ n ih =>
    rw [rounds, List.range_succ, List.flatMap_append, List.flatMap_singleton, run_append, ← rounds,
      ih (by omega)]
    exact run_round h

/-- Of three bytes that begin in the last round but one, the first is acknowledged, and the others
are taken for acknowledged too: nothing is outstanding, and the window stays full. -/
theorem stalls_in_last_round :
    let t := run step (new 8 1000 ⟨1⟩)
      ([.fillWindow, .ackReceived ⟨2⟩ 1, .pop] ++ (rounds (2 ^ 64 - 2 ^ 32 - 2) ++
        [.ackReceived ⟨0⟩ 3, .write [0, 0, 0], .fillWindow, .ackReceived ⟨1⟩ 1, .write [0]]))
    t.synSent = true ∧ ¬ FillsWindow t := by
  have hopen : run step (new 8 1000 ⟨1⟩) [.fillWindow, .ackReceived ⟨2⟩ 1, .pop] = idle 0 := by
    decide +kernel
  intro t
  have ht : t = run step (idle (2 ^ 64 - 2 ^ 32 - 2))
      [.ackReceived ⟨0⟩ 3, .write [0, 0, 0], .fillWindow, .ackReceived ⟨1⟩ 1, .write [0]] := by
    change run step _ _ = _
    rw [run_append, hopen, run_append, run_rounds (by norm_num)]
  have hstall : t.synSent = true ∧ t.sender.fillWindow.finSent = false ∧
      t.sender.fillWindow.stream.bufferEmpty = false ∧
      t.sender.fillWindow.outstanding = [] := by
    rw [ht]
    decide +kernel
  refine ⟨hstall.1, fun h => ?_⟩
  exact h.waits hstall.2.1 (Or.inl hstall.2.2.1) hstall.2.2.2

end UsageTrace

end Sponge
