import Sponge.Sender.Accepting

/-! # One retransmission timer

A reference sender keeps one timer for all segments. The deadlines of the outstanding
segments increase with their positions, so the first of them is that timer.
-/

namespace Sponge

open Layout Runs TCPSender

/-- A sender with a single retransmission timer. It keeps what is acknowledged, the window size it
accepted last and its own timeout; `sender` only cuts the stream, with the position and the window
that it is told. -/
structure TimerSender where
  sender : TCPSender
  acked : ℕ := 0
  advertised : Option UInt16 := none
  unacked : List (ℕ × TCPSegment) := []
  now : ℕ := 0
  initialRto : ℕ
  rto : ℕ
  timer : Option ℕ := none
  deriving DecidableEq, Repr

namespace TimerSender

def new (capacity : UInt64) (retxTimeout : UInt16) (isn : WrappingInt32) : TimerSender where
  sender := .new capacity retxTimeout isn
  initialRto := retxTimeout.toNat
  rto := retxTimeout.toNat

/-- New segments start the timer if it is not running. -/
def fillWindow (r : TimerSender) : TimerSender :=
  let new := r.sender.newlyQueued
  { r with
    sender := r.sender.fillWindow
    unacked := r.unacked ++ place len r.sender.nextSeqno new
    timer := if new = [] then r.timer else r.timer.or (some (r.now + r.rto)) }

/-- The position that carries the number, from the one acknowledged last to the end of what was
sent. -/
def position (r : TimerSender) (ackno : WrappingInt32) : Option ℕ :=
  (List.range' r.acked (r.sender.nextSeqnoAbsolute + 1 - r.acked)).find? fun p =>
    wrap p r.sender.isn = ackno

/-- Take over what is acknowledged and the window, and tell the sender that cuts. -/
def accept (r : TimerSender) (p : ℕ) (windowSize : UInt16) : TimerSender :=
  { r with
    acked := p
    advertised := some windowSize
    sender := { r.sender with acked := p, window := max 1 windowSize.toNat } }

/-- An acknowledgment of new data resets the timeout, and restarts the timer or stops it. -/
def ackReceived (r : TimerSender) (ackno : WrappingInt32) (windowSize : UInt16) : TimerSender :=
  match r.position ackno with
  | none => r
  | some p =>
    if r.acked < p then
      let unacked := r.unacked.filter fun c => p < c.1 + len c.2
      { r.accept p windowSize with
        unacked := unacked
        rto := r.initialRto
        timer := if unacked = [] then none else some (r.now + r.initialRto) }
    else r.accept p windowSize

/-- A tick that reaches the deadline sends the lowest segment again and restarts the timer. -/
def tick (r : TimerSender) (ms : ℕ) : TimerSender :=
  let now := r.now + ms
  match r.timer, r.unacked with
  | some deadline, (_, seg) :: _ =>
    if deadline ≤ now then
      let rto := if r.advertised = some 0 then r.rto else 2 * r.rto
      { r with
        sender := { r.sender with segmentsOut := r.sender.segmentsOut ++ [seg] }
        now := now
        rto := rto
        timer := some (now + rto) }
    else { r with now := now }
  | _, _ => { r with now := now }

def step (r : TimerSender) : Op → TimerSender
  | .fillWindow => r.fillWindow
  | .ackReceived ackno windowSize => r.ackReceived ackno windowSize
  | .tick ms => r.tick ms
  | o => { r with sender := r.sender.step o }

/-- Neither the timeout nor the clock nor the positions reach the end of their range. -/
structure Bounded (r : TimerSender) : Prop where
  rto : r.rto < 2 ^ 32
  clock : r.now + r.rto < 2 ^ 64
  position : r.sender.nextSeqnoAbsolute + 2 ^ 32 < 2 ^ 64

instance (r : TimerSender) : Decidable r.Bounded :=
  decidable_of_iff (r.rto < 2 ^ 32 ∧ r.now + r.rto < 2 ^ 64 ∧
      r.sender.nextSeqnoAbsolute + 2 ^ 32 < 2 ^ 64)
    ⟨fun h => ⟨h.1, h.2.1, h.2.2⟩, fun h => ⟨h.rto, h.clock, h.position⟩⟩

end TimerSender

namespace TCPSender

/-- The sender without what only its deadlines depend on. -/
def timeless (s : TCPSender) : TCPSender :=
  { s with outstanding := [], now := 0, rto := 0, crtx := 0, zeroWindow := false }

variable {s : TCPSender}

@[simp] theorem timeless_nextSeqno : s.timeless.nextSeqno = s.nextSeqno := rfl

@[simp] theorem timeless_limit : s.timeless.limit = s.limit := rfl

@[simp] theorem timeless_stream : s.timeless.stream = s.stream := rfl

@[simp] theorem timeless_isn : s.timeless.isn = s.isn := rfl

theorem timeless_fillLoop (n : ℕ) (s : TCPSender) :
    (s.fillLoop n).timeless = (s.timeless.fillLoop n).timeless := by
  induction n generalizing s with
  | zero => rfl
  | succ n ih =>
    have hturn : ∀ (fin : Bool) stream seg k,
        (if fin then s.emit stream seg k else fillLoop n (s.emit stream seg k)).timeless =
          (if fin then s.timeless.emit stream seg k
            else fillLoop n (s.timeless.emit stream seg k)).timeless := by
      intro fin stream seg k
      cases fin with
      | true => rfl
      | false =>
        simp only [Bool.false_eq_true, if_false]
        rw [ih, ih (s.timeless.emit stream seg k)]
        rfl
    simp only [fillLoop, timeless_nextSeqno, timeless_limit, timeless_stream, timeless_isn]
    by_cases hroom : s.nextSeqno < s.limit
    · by_cases hzero : min maxPayloadSize
          (min s.stream.bufferSize (sub64 s.limit s.nextSeqno)) = 0
      · by_cases heof : s.stream.eof = true ∧ 0 < sub64 s.limit s.nextSeqno <;>
          simp only [hroom, hzero, heof, and_self, if_true, if_false] <;> rfl
      · simp only [hroom, hzero, if_true, if_false]
        exact hturn _ _ _ _
    · simp only [hroom, if_false]
      rfl

theorem timeless_fillWindow (s : TCPSender) :
    s.fillWindow.timeless = s.timeless.fillWindow.timeless := by
  unfold fillWindow
  by_cases hfin : s.finSent = true
  · rw [if_pos hfin, if_pos (c := s.timeless.finSent = true) hfin]
    rfl
  rw [if_neg hfin, if_neg (c := s.timeless.finSent = true) hfin]
  by_cases hw : s.window = -1
  · rw [if_pos hw, if_pos (c := s.timeless.window = -1) hw]
    cases heof : s.stream.eof <;>
      simp only [timeless_stream, heof, Bool.false_eq_true, if_true, if_false] <;> rfl
  · rw [if_neg hw, if_neg (c := s.timeless.window = -1) hw]
    exact timeless_fillLoop _ s

theorem timeless_newlyQueued (s : TCPSender) : s.newlyQueued = s.timeless.newlyQueued := by
  have h := congrArg TCPSender.segmentsOut (timeless_fillWindow s)
  unfold newlyQueued
  exact congrArg (List.drop s.segmentsOut.length) h

theorem Flight.absSeq_eq {journal : List TCPSegment} {c : ℕ × TCPSegment} (h : Flight journal s)
    (hsmall : s.nextSeqno + 2 ^ 32 < 2 ^ 64) (hc : c ∈ past len s.acked journal) :
    s.absSeq c.2 = c.1 := by
  obtain ⟨hat, hlt⟩ := mem_past.mp hc
  have hle := hat.add_le
  have hlen := h.len_le hat.mem
  have hnext := h.nextSeqno
  have hclose := h.close
  have hacked := h.acked_le
  rw [absSeq, h.seqno _ _ hat]
  exact unwrap_wrap s.isn (by omega) (by omega) (by omega) (Or.inl (by omega))

end TCPSender

/-- The deadlines `ds` of the segments that are not acknowledged, in the order of their
positions. -/
structure Deadlines (s : TCPSender) (r : TimerSender) (ds : List ℕ) : Prop where
  length : ds.length = r.unacked.length
  entries : (s.outstanding.map Prod.snd).Perm (ds.zip (r.unacked.map Prod.snd))
  sorted : ds.Pairwise (· ≤ ·)
  le : ∀ d ∈ ds, d ≤ r.now + r.rto
  timer : r.timer = ds.head?

/-- The code's sender and the reference sender agree. -/
structure Timed (journal : List TCPSegment) (s : TCPSender) (r : TimerSender) : Prop
    extends Outstanding journal s where
  same : s.timeless = r.sender.timeless
  acked : s.acked = r.acked
  zero : s.zeroWindow = decide (r.advertised = some 0)
  now : s.now = r.now
  initialRto : s.initialRetransmissionTimeout.toNat = r.initialRto
  rto : s.rto.toNat = r.rto
  unacked : r.unacked = past len s.acked journal
  deadlines : ∃ ds, Deadlines s r ds

variable {s s' : TCPSender} {r r' : TimerSender} {journal : List TCPSegment} {ds : List ℕ}
  {o : Op} {ms : ℕ}

theorem zip_replicate {α β : Type} (a : α) (l : List β) :
    (List.replicate l.length a).zip l = l.map (a, ·) := by
  induction l with
  | nil => rfl
  | cons b l ih => rw [List.length_cons, List.replicate_succ, List.zip_cons_cons, ih, List.map_cons]

theorem Deadlines.restarted {deadline : ℕ} (hall : ∀ c ∈ s.outstanding, c.2.1 = deadline)
    (hperm : s.inFlight.Perm (r.unacked.map Prod.snd)) (hle : deadline ≤ r.now + r.rto)
    (htimer : r.timer = if r.unacked = [] then none else some deadline) :
    Deadlines s r (List.replicate r.unacked.length deadline) where
  length := List.length_replicate
  entries := by
    have hout : s.outstanding.map Prod.snd = s.inFlight.map (deadline, ·) := by
      rw [inFlight, List.map_map]
      exact List.map_congr_left fun c hc => Prod.ext (hall c hc) rfl
    rw [hout, ← List.length_map Prod.snd, zip_replicate]
    exact hperm.map _
  sorted := List.pairwise_replicate.mpr (Or.inr le_rfl)
  le d hd := by rwa [List.eq_of_mem_replicate hd]
  timer := by
    rw [htimer]
    cases r.unacked <;> rfl

theorem Deadlines.started (segs : List TCPSegment) (h : Deadlines s r ds)
    (hclock : r'.now + r'.rto = r.now + r.rto)
    (hout : (s'.outstanding.map Prod.snd).Perm
      (s.outstanding.map Prod.snd ++ segs.map (r.now + r.rto, ·)))
    (hunacked : r'.unacked.map Prod.snd = r.unacked.map Prod.snd ++ segs)
    (htimer : r'.timer = if segs = [] then r.timer else r.timer.or (some (r.now + r.rto))) :
    Deadlines s' r' (ds ++ List.replicate segs.length (r.now + r.rto)) where
  length := by
    have hlen := congrArg List.length hunacked
    simp only [List.length_map, List.length_append] at hlen
    rw [List.length_append, List.length_replicate, h.length, hlen]
  entries := by
    rw [hunacked, List.zip_append (by rw [h.length, List.length_map]), zip_replicate]
    exact hout.trans (h.entries.append_right _)
  sorted := by
    refine List.pairwise_append.mpr ⟨h.sorted, List.pairwise_replicate.mpr (Or.inr le_rfl), ?_⟩
    intro d hd e he
    rw [List.eq_of_mem_replicate he]
    exact h.le d hd
  le d hd := by
    rw [hclock]
    rcases List.mem_append.mp hd with hd | hd
    · exact h.le d hd
    · exact (List.eq_of_mem_replicate hd).le
  timer := by
    rw [htimer, List.head?_append, ← h.timer]
    cases segs with
    | nil => simp
    | cons seg segs => simp [List.replicate_succ]

theorem Timed.field (h : Timed journal s r) {α : Type} (f : TCPSender → α)
    (hf : ∀ s : TCPSender, f s.timeless = f s := by intro; rfl) : f s = f r.sender := by
  rw [← hf, h.same, hf]

theorem Timed.new {capacity : UInt64} {retxTimeout : UInt16} {isn : WrappingInt32} :
    Timed [] (.new capacity retxTimeout isn) (.new capacity retxTimeout isn) where
  toOutstanding := .new
  same := rfl
  acked := rfl
  zero := rfl
  now := rfl
  initialRto := by simp [TCPSender.new, TimerSender.new]
  rto := by simp [TCPSender.new, TimerSender.new]
  unacked := rfl
  deadlines := ⟨[], rfl, .nil, .nil, by simp, rfl⟩

theorem Timed.fillWindow (h : Timed journal s r) (hb : r.fillWindow.Bounded) :
    ∃ journal', Timed journal' s.fillWindow r.fillWindow := by
  obtain ⟨segs, hf⟩ := filled_fillWindow h.consistent h.fresh
  obtain ⟨w, hw, _⟩ := s.opened_eq
  have hnew : r.sender.newlyQueued = segs := by
    rw [timeless_newlyQueued, ← h.same, ← timeless_newlyQueued, SenderTrace.newlyQueued_eq hf]
  have hacked := congrArg TCPSender.acked hf.base
  have hnow := congrArg TCPSender.now hf.base
  have hrto := congrArg TCPSender.rto hf.base
  have hzero := congrArg TCPSender.zeroWindow hf.base
  have hinit := congrArg TCPSender.initialRetransmissionTimeout hf.base
  have hout := hf.outstanding
  simp only [hw, base] at hacked hnow hrto hzero hinit hout
  have hexpiry : expiry { s with window := w } = r.now + r.rto := by
    have hclock : r.now + r.rto < 2 ^ 64 := hb.clock
    rw [expiry, ← h.now, ← h.rto] at *
    exact Nat.mod_eq_of_lt hclock
  have hle : s.acked ≤ extent len journal := h.nextSeqno ▸ h.acked_le
  obtain ⟨ds, hds⟩ := h.deadlines
  refine ⟨journal ++ segs,
    { toOutstanding := h.toOutstanding.filled hf
      same := ?_
      acked := hacked.trans h.acked
      zero := hzero.trans h.zero
      now := hnow.trans h.now
      initialRto := by rw [hinit]; exact h.initialRto
      rto := by rw [hrto]; exact h.rto
      unacked := ?_
      deadlines := ⟨_, hds.started segs rfl ?_ ?_ ?_⟩ }⟩
  · change s.fillWindow.timeless = r.sender.fillWindow.timeless
    rw [timeless_fillWindow, h.same, ← timeless_fillWindow]
  · have hnext : r.sender.nextSeqno = extent len journal :=
      (h.field TCPSender.nextSeqno).symm.trans h.nextSeqno
    rw [TimerSender.fillWindow, hnew, hacked, hnext, h.unacked, past_append hle hf.len_pos]
  · apply (hout.map Prod.snd).trans
    rw [List.map_append, List.map_map, hexpiry]
    rfl
  · simp only [TimerSender.fillWindow, hnew, List.map_append, map_snd_place]
  · simp only [TimerSender.fillWindow, hnew]

theorem Timed.quiet (h : Timed journal s r) (hout : Outstanding journal s') {q : TCPSender}
    (hsame : s'.timeless = q.timeless) (hdead : s'.outstanding = s.outstanding)
    (hacked : s'.acked = s.acked) (hclock : (s'.now, s'.rto) = (s.now, s.rto))
    (hrest : (s'.zeroWindow, s'.initialRetransmissionTimeout) =
      (s.zeroWindow, s.initialRetransmissionTimeout)) :
    Timed journal s' { r with sender := q } := by
  obtain ⟨hnow, hrto⟩ := Prod.mk.inj hclock
  obtain ⟨hzero, hinit⟩ := Prod.mk.inj hrest
  obtain ⟨ds, hds⟩ := h.deadlines
  exact
    { toOutstanding := hout
      same := hsame
      acked := hacked.trans h.acked
      zero := hzero.trans h.zero
      now := hnow.trans h.now
      initialRto := by rw [hinit]; exact h.initialRto
      rto := by rw [hrto]; exact h.rto
      unacked := by rw [hacked]; exact h.unacked
      deadlines := ⟨ds, hds.length, by rw [hdead]; exact hds.entries, hds.sorted, hds.le,
        hds.timer⟩ }

/-- The position that the reference sender finds is the one in range, if there is one. -/
theorem Timed.position_spec (h : Timed journal s r) (ackno : WrappingInt32) :
    (∀ p ∈ r.position ackno, s.InRange ackno p) ∧
      (r.position ackno = none → ¬ ∃ p, s.InRange ackno p) := by
  have hnext : s.nextSeqno = r.sender.nextSeqno := h.field TCPSender.nextSeqno
  have hisn : s.isn = r.sender.isn := h.field TCPSender.isn
  have hacked := h.acked
  constructor
  · intro p hp
    have hmem := List.mem_of_find?_eq_some hp
    have hwraps := List.find?_some hp
    rw [List.mem_range'_1, nextSeqnoAbsolute] at hmem
    simp only [decide_eq_true_eq] at hwraps
    exact ⟨by omega, by rw [nextSeqnoAbsolute]; omega, by rw [hisn, hwraps]⟩
  · rintro hnone ⟨p, hge, hle, hwraps⟩
    rw [nextSeqnoAbsolute] at hle
    have hmem : p ∈ List.range' r.acked (r.sender.nextSeqnoAbsolute + 1 - r.acked) := by
      rw [List.mem_range'_1, nextSeqnoAbsolute]
      omega
    have hne := List.find?_eq_none.mp hnone p hmem
    rw [← hisn, hwraps] at hne
    simp at hne

theorem Timed.same_accept (h : Timed journal s r) {p : ℕ} {windowSize : UInt16}
    (hs : Acked s s' p windowSize) :
    s'.timeless = (r.accept p windowSize).sender.timeless ∧
      s'.zeroWindow = decide ((r.accept p windowSize).advertised = some 0) := by
  constructor
  · have hsame := congrArg (fun q : TCPSender =>
      { q with acked := p, window := max 1 (windowSize.toNat : ℤ) }) h.same
    rw [hs.frame]
    exact hsame
  · rw [hs.frame]
    simp [TimerSender.accept, Bool.beq_eq_decide_eq]

theorem Timed.advanced (h : Timed journal s r) {ackno : WrappingInt32} {windowSize : UInt16} {p : ℕ}
    (hb : (r.ackReceived ackno windowSize).Bounded) (hout : Outstanding journal s')
    (hs : Acked s s' p windowSize) (hp : r.position ackno = some p) (hnew : s.acked < p) :
    Timed journal s' (r.ackReceived ackno windowSize) := by
  have hr : r.ackReceived ackno windowSize =
      { r.accept p windowSize with
        unacked := r.unacked.filter fun c => p < c.1 + len c.2
        rto := r.initialRto
        timer := if (r.unacked.filter fun c => p < c.1 + len c.2) = [] then none
          else some (r.now + r.initialRto) } := by
    rw [TimerSender.ackReceived, hp]
    exact if_pos (h.acked ▸ hnew)
  have hacked : s'.acked = p := by rw [hs.frame]
  have hnow : s'.now = s.now := by rw [hs.frame]
  have hinit : s'.initialRetransmissionTimeout = s.initialRetransmissionTimeout := by rw [hs.frame]
  have hrto : s'.rto.toNat = (r.ackReceived ackno windowSize).rto := by
    rw [hs.rto, if_pos hnew, hr, h.initialRto]
  have hnow' : (r.ackReceived ackno windowSize).now = r.now := by rw [hr]; rfl
  have hunacked : (r.ackReceived ackno windowSize).unacked = past len s'.acked journal := by
    rw [hr, h.unacked, hacked]
    exact past_past hs.ge
  have hexpiry : s'.expiry =
      (r.ackReceived ackno windowSize).now + (r.ackReceived ackno windowSize).rto := by
    rw [expiry, hnow, hrto, h.now, ← hnow']
    exact Nat.mod_eq_of_lt hb.clock
  obtain ⟨hsame, hzero⟩ := h.same_accept hs
  exact
    { toOutstanding := hout
      same := by rw [hr]; exact hsame
      acked := by rw [hacked, hr]; rfl
      zero := by rw [hr]; exact hzero
      now := by rw [hnow, hnow', h.now]
      initialRto := by rw [hinit, hr]; exact h.initialRto
      rto := hrto
      unacked := hunacked
      deadlines := ⟨_, .restarted (hs.restarted hnew) (by rw [hunacked]; exact hout.once)
        hexpiry.le (by rw [hexpiry, hnow', hr])⟩ }

theorem Timed.repeated (h : Timed journal s r) (hsmall : s.nextSeqno + 2 ^ 32 < 2 ^ 64)
    {ackno : WrappingInt32} {windowSize : UInt16} {p : ℕ} (hout : Outstanding journal s')
    (hs : Acked s s' p windowSize) (hp : r.position ackno = some p) (hold : ¬ s.acked < p) :
    Timed journal s' (r.ackReceived ackno windowSize) := by
  have hsame : s.acked = p := by
    have := hs.ge
    omega
  have hr : r.ackReceived ackno windowSize = r.accept p windowSize := by
    rw [TimerSender.ackReceived, hp]
    exact if_neg (h.acked ▸ hold)
  have hkept : s'.outstanding = s.outstanding := by
    rw [hs.kept hold]
    apply List.filter_eq_self.mpr
    intro c hc
    obtain ⟨q, hq, hlt⟩ := h.placed c.2.2 (List.mem_map_of_mem hc)
    have hiff := h.isAcked_iff hsmall hq hlt hs.ge hs.le
    rw [Bool.not_eq_true', Bool.eq_false_iff, Ne, hiff]
    omega
  have hrto : s'.rto = s.rto := by rw [hs.rto, if_neg hold]
  obtain ⟨hsame', hzero⟩ := h.same_accept hs
  obtain ⟨ds, hds⟩ := h.deadlines
  rw [hr]
  exact
    { toOutstanding := hout
      same := hsame'
      acked := by rw [hs.frame]; rfl
      zero := hzero
      now := by rw [hs.frame]; exact h.now
      initialRto := by rw [hs.frame]; exact h.initialRto
      rto := by rw [hrto]; exact h.rto
      unacked := by rw [hs.frame]; exact hsame ▸ h.unacked
      deadlines := ⟨ds, hds.length, by rw [hkept]; exact hds.entries, hds.sorted, hds.le,
        hds.timer⟩ }

theorem TimerSender.ackReceived_nextSeqno (r : TimerSender) (ackno : WrappingInt32)
    (windowSize : UInt16) :
    (r.ackReceived ackno windowSize).sender.nextSeqno = r.sender.nextSeqno := by
  unfold TimerSender.ackReceived
  split
  · rfl
  · split_ifs <;> rfl

theorem Timed.ackReceived (h : Timed journal s r) {ackno : WrappingInt32} {windowSize : UInt16}
    (hb : (r.ackReceived ackno windowSize).Bounded) :
    Timed journal (s.ackReceived ackno windowSize) (r.ackReceived ackno windowSize) := by
  have hsmall : s.nextSeqno + 2 ^ 32 < 2 ^ 64 := by
    have hposition := hb.position
    rwa [nextSeqnoAbsolute, TimerSender.ackReceived_nextSeqno,
      ← h.field TCPSender.nextSeqno] at hposition
  have hle := h.acked_le
  obtain ⟨hfound, hnone⟩ := h.position_spec ackno
  cases hp : r.position ackno with
  | none =>
    have hs : s.ackReceived ackno windowSize = s :=
      (ackReceived_eq_or_inRange (by omega) ackno windowSize).resolve_right (hnone hp)
    have hr : r.ackReceived ackno windowSize = r := by rw [TimerSender.ackReceived, hp]
    rwa [hs, hr]
  | some p =>
    have hs : Acked s (s.ackReceived ackno windowSize) p windowSize :=
      h.acked_of_inRange hsmall (hfound p hp)
    have hout := h.toOutstanding.ackReceived hsmall ackno windowSize
    by_cases hnew : s.acked < p
    · exact h.advanced hb hout hs hp hnew
    · exact h.repeated hsmall hout hs hp hnew

theorem TimerSender.tick_frame (r : TimerSender) (ms : ℕ) :
    (r.tick ms).now = r.now + ms ∧ (r.tick ms).sender.nextSeqno = r.sender.nextSeqno := by
  unfold TimerSender.tick
  simp only
  split
  · split_ifs <;> exact ⟨rfl, rfl⟩
  · exact ⟨rfl, rfl⟩

theorem TimerSender.tick_early {r : TimerSender} {ms : ℕ} (h : ∀ d ∈ r.timer, r.now + ms < d) :
    r.tick ms = { r with now := r.now + ms } := by
  unfold TimerSender.tick
  simp only
  split
  · next htimer _ => rw [if_neg (by have := h _ htimer; omega)]
  · rfl

theorem Timed.idle (h : Timed journal s r) (hds : Deadlines s r ds)
    (hclock : s.clock ms = r.now + ms) (hlate : ∀ d ∈ ds, r.now + ms < d) :
    Timed journal (s.tick ms) (r.tick ms) := by
  have hs : s.tick ms = { s with now := s.clock ms } := by
    apply tick_idle
    intro c hc
    have hmem := hds.entries.mem_iff.mp (List.mem_map_of_mem (f := Prod.snd) hc)
    rw [hclock]
    exact hlate _ (List.of_mem_zip hmem).1
  have hr : r.tick ms = { r with now := r.now + ms } :=
    TimerSender.tick_early fun d hd => by
      rw [hds.timer] at hd
      exact hlate d (List.mem_of_head? hd)
  have hout := h.toOutstanding.tick ms
  rw [hs] at hout ⊢
  rw [hr]
  exact
    { toOutstanding := hout
      same := h.same
      acked := h.acked
      zero := h.zero
      now := hclock
      initialRto := h.initialRto
      rto := h.rto
      unacked := h.unacked
      deadlines := ⟨ds, hds.length, hds.entries, hds.sorted,
        fun d hd => (hds.le d hd).trans (by simp only; omega), hds.timer⟩ }

theorem Timed.resent (h : Timed journal s r) (hsmall : s.nextSeqno + 2 ^ 32 < 2 ^ 64)
    {c : ℕ × TCPSegment} {cs : List (ℕ × TCPSegment)} (hunacked : r.unacked = c :: cs)
    {d : ℕ} (hhead : (d, c.2) ∈ s.outstanding.map Prod.snd) (hreached : d ≤ s.clock ms) :
    Expired s (s.tick ms) ms c.2 := by
  have hpast : past len s.acked journal = c :: cs := h.unacked.symm.trans hunacked
  have hc : c ∈ past len s.acked journal := by rw [hpast]; exact List.mem_cons_self
  obtain ⟨e, he, heq⟩ := List.mem_map.mp hhead
  have hseg : e.2.2 = c.2 := by rw [heq]
  have hexp : e.2.1 ≤ s.clock ms := by rw [heq]; exact hreached
  have habs : s.absSeq e.2.2 = c.1 := by rw [hseg]; exact h.absSeq_eq hsmall hc
  have hlt : c.1 < 2 ^ 64 - 1 := by
    have hle := (mem_past.mp hc).1.add_le
    have hnext := h.nextSeqno
    omega
  obtain ⟨seg, hs⟩ := tick_expired he hexp (habs ▸ hlt)
  obtain ⟨e', he', rfl, -⟩ := hs.expired
  obtain ⟨c', hc', hseg'⟩ := List.mem_map.mp (h.once.mem_iff.mp (List.mem_map_of_mem he'))
  have hle : c'.1 ≤ c.1 := by
    rw [← h.absSeq_eq hsmall hc', hseg', ← habs]
    exact hs.lowest e he hexp
  have hsorted := pairwise_past (a := s.acked) h.len_pos
  rw [hpast] at hsorted hc'
  rcases List.mem_cons.mp hc' with rfl | hmem
  · rwa [hseg']
  · have := (List.pairwise_cons.mp hsorted).1 c' hmem
    omega

theorem Timed.backoff (h : Timed journal s r)
    (hlt : (if r.advertised = some 0 then r.rto else 2 * r.rto) < 2 ^ 32) :
    (if s.zeroWindow then s.rto else s.rto * 2).toNat =
      if r.advertised = some 0 then r.rto else 2 * r.rto := by
  rw [h.zero]
  by_cases hz : r.advertised = some 0
  · simpa [hz] using h.rto
  · simp only [hz, decide_false, Bool.false_eq_true, if_false] at hlt ⊢
    rw [UInt32.toNat_mul, h.rto]
    exact (congrArg (· % 2 ^ 32) (Nat.mul_comm _ 2)).trans (Nat.mod_eq_of_lt hlt)

/-- The first deadline is reached: its segment is sent again and all deadlines start anew. -/
theorem Timed.due (h : Timed journal s r) (hb : (r.tick ms).Bounded)
    (hsmall : s.nextSeqno + 2 ^ 32 < 2 ^ 64) (hclock : s.clock ms = r.now + ms) {d : ℕ}
    (hds : Deadlines s r (d :: ds)) (hreached : d ≤ r.now + ms) :
    Timed journal (s.tick ms) (r.tick ms) := by
  have htimer : r.timer = some d := hds.timer
  obtain ⟨c, cs, hunacked⟩ := List.exists_cons_of_length_eq_add_one hds.length.symm
  have hhead : (d, c.2) ∈ s.outstanding.map Prod.snd := by
    rw [hds.entries.mem_iff, hunacked, List.map_cons, List.zip_cons_cons]
    exact List.mem_cons_self
  have hs := h.resent hsmall hunacked hhead (hclock ▸ hreached)
  have hout := h.toOutstanding.tick ms
  have hr : r.tick ms =
      { r with
        sender := { r.sender with segmentsOut := r.sender.segmentsOut ++ [c.2] }
        now := r.now + ms
        rto := if r.advertised = some 0 then r.rto else 2 * r.rto
        timer := some (r.now + ms + if r.advertised = some 0 then r.rto else 2 * r.rto) } := by
    simp only [TimerSender.tick, htimer, hunacked, if_pos hreached]
  have hacked : (s.tick ms).acked = s.acked := by rw [hs.frame]
  have hnow : (s.tick ms).now = (r.tick ms).now := by rw [hs.frame, hr, ← hclock]
  have hrto : (s.tick ms).rto.toNat = (r.tick ms).rto := by
    have hlt := hb.rto
    rw [hr] at hlt ⊢
    rw [hs.frame]
    exact h.backoff hlt
  have hexpiry : (s.tick ms).expiry = (r.tick ms).now + (r.tick ms).rto := by
    rw [expiry, hnow, hrto]
    exact Nat.mod_eq_of_lt hb.clock
  have hunacked' : (r.tick ms).unacked = past len (s.tick ms).acked journal := by
    rw [hr, hacked]
    exact h.unacked
  exact
    { toOutstanding := hout
      same := by
        have hqueue := congrArg (fun q : TCPSender =>
          { q with segmentsOut := q.segmentsOut ++ [c.2] }) h.same
        rw [hs.frame, hr]
        exact hqueue
      acked := by rw [hacked, hr]; exact h.acked
      zero := by rw [hs.frame, hr]; exact h.zero
      now := hnow
      initialRto := by rw [hs.frame, hr]; exact h.initialRto
      rto := hrto
      unacked := hunacked'
      deadlines := ⟨_, .restarted hs.restarted (by rw [hunacked']; exact hout.once)
        hexpiry.le (by rw [hexpiry, hr, hunacked]; rfl)⟩ }

theorem Timed.tick (h : Timed journal s r) (hb : (r.tick ms).Bounded) :
    Timed journal (s.tick ms) (r.tick ms) := by
  obtain ⟨ds, hds⟩ := h.deadlines
  obtain ⟨hnow, hnext⟩ := r.tick_frame ms
  have hsmall : s.nextSeqno + 2 ^ 32 < 2 ^ 64 := by
    have hposition := hb.position
    rw [nextSeqnoAbsolute, hnext] at hposition
    rwa [h.field TCPSender.nextSeqno]
  have hclock : s.clock ms = r.now + ms := by
    have hrange := hb.clock
    rw [clock, h.now]
    exact Nat.mod_eq_of_lt (by omega)
  cases ds with
  | nil => exact h.idle hds hclock (by simp)
  | cons d ds =>
    by_cases hreached : d ≤ r.now + ms
    · exact h.due hb hsmall hclock hds hreached
    · apply h.idle hds hclock
      intro e he
      rcases List.mem_cons.mp he with rfl | he
      · omega
      · have := (List.pairwise_cons.mp hds.sorted).1 e he
        omega

theorem Timed.step (h : Timed journal s r) (hb : (r.step o).Bounded) :
    ∃ journal', Timed journal' (s.step o) (r.step o) := by
  have hquiet : ∀ {stream : ByteStream} {queue : List TCPSegment} {crtx : UInt32} {q : TCPSender},
      stream.Consistent →
      { s with stream := stream, segmentsOut := queue, crtx := crtx }.timeless = q.timeless →
      ∃ journal', Timed journal' { s with stream := stream, segmentsOut := queue, crtx := crtx }
        { r with sender := q } := fun hc hsame =>
    ⟨journal, h.quiet (h.toOutstanding.other hc) hsame rfl rfl rfl rfl⟩
  have hsame : ∀ o, (s.step o).timeless = (s.timeless.step o).timeless →
      (r.sender.step o).timeless = (r.sender.timeless.step o).timeless →
      (s.step o).timeless = (r.sender.step o).timeless := by
    intro o hs hr
    rw [hs, h.same, ← hr]
  cases o with
  | fillWindow => exact h.fillWindow hb
  | ackReceived ackno windowSize => exact ⟨journal, h.ackReceived hb⟩
  | tick ms => exact ⟨journal, h.tick hb⟩
  | write data => exact hquiet h.consistent.write (hsame (.write data) rfl rfl)
  | endInput => exact hquiet h.consistent.endInput (hsame .endInput rfl rfl)
  | sendEmptySegment => exact hquiet h.consistent (hsame .sendEmptySegment rfl rfl)
  | pop => exact hquiet h.consistent (hsame .pop rfl rfl)

namespace TimerSender

variable {capacity : UInt64} {retxTimeout : UInt16} {isn : WrappingInt32} {ops : List Op}

/-- As long as nothing overflows, the code queues the segments that the sender with one timer
queues, and a tick sends at most one segment again. -/
theorem same_segments
    (h : Admitted step (fun r o => (r.step o).Bounded) (new capacity retxTimeout isn) ops) :
    (run TCPSender.step (.new capacity retxTimeout isn) ops).segmentsOut =
        (run step (new capacity retxTimeout isn) ops).sender.segmentsOut ∧
      ∀ (s : TCPSender) (ms : ℕ), ∃ again : Option TCPSegment,
        (s.tick ms).segmentsOut = s.segmentsOut ++ again.toList := by
  constructor
  · have hstep : ∀ r s o, (∃ journal, Timed journal s r) → (step r o).Bounded →
        ∃ journal, Timed journal (TCPSender.step s o) (step r o) := by
      rintro r s o ⟨journal, hr⟩ ho
      exact hr.step ho
    obtain ⟨journal, hr⟩ := h.simulation hstep ⟨[], Timed.new⟩
    exact hr.field TCPSender.segmentsOut
  · intro s ms
    obtain ⟨again, hs⟩ := s.ticked_tick ms
    exact ⟨again, by rw [hs.frame]⟩

/-- Back-off, a partial acknowledgment, and a tick long after the deadline. -/
theorem same_segments_backoff :
    (run TCPSender.step (.new 8 1000 ⟨7⟩)
      [.fillWindow, .tick 1000, .ackReceived ⟨8⟩ 3, .write [1, 2, 3, 4], .fillWindow, .tick 400,
        .ackReceived ⟨9⟩ 9, .fillWindow, .tick 100000, .pop]).segmentsOut =
      (run step (new 8 1000 ⟨7⟩)
        [.fillWindow, .tick 1000, .ackReceived ⟨8⟩ 3, .write [1, 2, 3, 4], .fillWindow, .tick 400,
          .ackReceived ⟨9⟩ 9, .fillWindow, .tick 100000, .pop]).sender.segmentsOut :=
  (same_segments (by decide)).1

/-- The second deadline passes the end of the clock, so its segment goes first. -/
theorem segments_differ_clock_wraps :
    let ops : List Op := [.fillWindow, .ackReceived ⟨8⟩ 9, .tick (2 ^ 64 - 1500), .write [1],
      .fillWindow, .tick 600, .write [2], .fillWindow, .tick 0]
    SenderTrace.FillsFirst ops ∧
      Admitted step (fun r o => (r.step o).rto < 2 ^ 32) (new 8 1000 ⟨7⟩) ops ∧
      (run TCPSender.step (.new 8 1000 ⟨7⟩) ops).segmentsOut ≠
        (run step (new 8 1000 ⟨7⟩) ops).sender.segmentsOut := by
  intro ops
  exact ⟨by decide, by decide, by decide⟩

end TimerSender

end Sponge
