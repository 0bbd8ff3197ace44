import Sponge.Library.Layout
import Sponge.Sender.Basic

/-! # What filling the window does

However `fillWindow` leaves its loop, the segments it queued lie one behind the other
from the next sequence number on, and carry the bytes it took from the stream.
-/

namespace Sponge

open Layout

namespace TCPSender

/-- The length in sequence space, by which segments are laid out. -/
abbrev len : TCPSegment → ℕ := TCPSegment.lengthInSequenceSpace

/-- What queueing segments leaves alone. -/
def base (s : TCPSender) : TCPSender :=
  { s with
    segmentsOut := []
    stream := .new 0
    nextSeqno := 0
    outstanding := []
    crtx := 0
    finSent := false }

/-- The state `s'` is reached from `s` by queueing the segments `new`. -/
structure Queued (s s' : TCPSender) (new : List TCPSegment) : Prop where
  base : s'.base = s.base
  segmentsOut : s'.segmentsOut = s.segmentsOut ++ new
  nextSeqno : s'.nextSeqno = s.nextSeqno + extent len new
  seqno : ∀ p g, At len new p g → g.header.seqno = wrap (s.nextSeqno + p) s.isn
  payload : ∀ g ∈ new, g.payload.length ≤ maxPayloadSize
  len_pos : ∀ g ∈ new, 0 < len g
  fin : ∀ p g, At len new p g → g.header.fin = true →
    p + len g = extent len new ∧ s'.stream.eof = true
  finSent : s'.finSent = true ↔ s.finSent = true ∨ ∃ g ∈ new, g.header.fin = true
  outstanding : s'.outstanding.Perm (s.outstanding ++ new.map fun g => (s.now, s.expiry, g))
  consistent : s'.stream.Consistent
  buf : s.stream.buf = new.flatMap TCPSegment.payload ++ s'.stream.buf
  totRead : s.stream.totRead < 2 ^ 64 → s'.stream.totRead =
    (s.stream.totRead + (new.flatMap TCPSegment.payload).length) % 2 ^ 64
  eof2 : s'.stream.eof2 = s.stream.eof2
  error : s'.stream.error = s.stream.error

variable {s s₁ s' : TCPSender} {new new' : List TCPSegment} {g : TCPSegment} {n : ℕ}

theorem limit_lt : s.limit < 2 ^ 64 := by
  unfold limit
  omega

theorem segmentsOut_fillLoop (fuel : ℕ) (s : TCPSender) :
    s.segmentsOut <+: (s.fillLoop fuel).segmentsOut := by
  induction fuel generalizing s with
  | zero => exact List.prefix_rfl
  | succ fuel ih =>
    unfold fillLoop
    simp only
    split_ifs
    · exact List.prefix_append ..
    · exact List.prefix_rfl
    · exact List.prefix_append ..
    · refine .trans ?_ (ih _)
      exact List.prefix_append ..
    · exact List.prefix_rfl

theorem segmentsOut_fillWindow (s : TCPSender) :
    s.segmentsOut <+: s.fillWindow.segmentsOut := by
  unfold fillWindow
  simp only
  split_ifs
  · exact List.prefix_rfl
  · exact List.prefix_append ..
  · exact List.prefix_append ..
  · exact segmentsOut_fillLoop ..

theorem Queued.limit (h : Queued s s' new) : s'.limit = s.limit := by
  have ha := congrArg TCPSender.acked h.base
  have hw := congrArg TCPSender.window h.base
  simp only [TCPSender.base] at ha hw
  simp only [TCPSender.limit, ha, hw]

theorem Queued.expiry (h : Queued s s' new) : (s'.now, s'.expiry) = (s.now, s.expiry) := by
  have hn := congrArg TCPSender.now h.base
  have hr := congrArg TCPSender.rto h.base
  simp only [TCPSender.base] at hn hr
  simp only [TCPSender.expiry, hn, hr]

theorem Queued.isn (h : Queued s s' new) : s'.isn = s.isn := by
  have hi := congrArg TCPSender.isn h.base
  simpa only [TCPSender.base] using hi

theorem Queued.inFlight (h : Queued s s' new) : s'.inFlight.Perm (s.inFlight ++ new) := by
  have hperm := h.outstanding.map fun c => c.2.2
  rw [List.map_append, List.map_map, Function.comp_def, List.map_id'] at hperm
  exact hperm

theorem Queued.refl (hc : s.stream.Consistent) : Queued s s [] where
  base := rfl
  segmentsOut := by simp
  nextSeqno := by simp
  seqno p g h := absurd h not_at_nil
  payload := by simp
  len_pos := by simp
  fin p g h := absurd h not_at_nil
  finSent := by simp
  outstanding := by simp
  consistent := hc
  buf := by simp
  totRead ht := by simpa using (Nat.mod_eq_of_lt ht).symm
  eof2 := rfl
  error := rfl

theorem Queued.trans (h : Queued s s₁ new) (h' : Queued s₁ s' new')
    (hfin : ∀ g ∈ new, g.header.fin = false) : Queued s s' (new ++ new') where
  base := h'.base.trans h.base
  segmentsOut := by rw [h'.segmentsOut, h.segmentsOut, List.append_assoc]
  nextSeqno := by rw [h'.nextSeqno, h.nextSeqno, extent_append, add_assoc]
  seqno p g hg := by
    rcases at_append.mp hg with hg | ⟨q, hq, rfl⟩
    · exact h.seqno p g hg
    · rw [h'.seqno q g hq, h.nextSeqno, h.isn, add_assoc]
  payload g hg := (List.mem_append.mp hg).elim (h.payload g) (h'.payload g)
  len_pos g hg := (List.mem_append.mp hg).elim (h.len_pos g) (h'.len_pos g)
  fin p g hg hf := by
    rcases at_append.mp hg with hg | ⟨q, hq, rfl⟩
    · simp [hfin g hg.mem] at hf
    · have := h'.fin q g hq hf
      rw [extent_append]
      exact ⟨by omega, this.2⟩
  finSent := by
    rw [h'.finSent, h.finSent, or_assoc]
    simp only [List.mem_append, or_and_right, exists_or]
  outstanding := by
    have he := h.expiry
    simp only [Prod.mk.injEq] at he
    rw [List.map_append, ← List.append_assoc]
    apply h'.outstanding.trans
    rw [he.1, he.2]
    exact h.outstanding.append_right _
  consistent := h'.consistent
  buf := by rw [h.buf, h'.buf, List.flatMap_append, List.append_assoc]
  totRead ht := by
    have ht' := h.totRead ht
    rw [h'.totRead (by omega), ht', List.flatMap_append, List.length_append]
    omega
  eof2 := h'.eof2.trans h.eof2
  error := h'.error.trans h.error

theorem Queued.emit {stream : ByteStream} (hseqno : g.header.seqno = wrap s.nextSeqno s.isn)
    (hpay : g.payload.length ≤ maxPayloadSize) (hlen : 0 < len g)
    (hnext : s.nextSeqno + len g < 2 ^ 64) (hfin : g.header.fin = true → stream.eof = true)
    (hc : stream.Consistent) (hbuf : s.stream.buf = g.payload ++ stream.buf)
    (htot : s.stream.totRead < 2 ^ 64 →
      stream.totRead = (s.stream.totRead + g.payload.length) % 2 ^ 64)
    (heof : stream.eof2 = s.stream.eof2) (herror : stream.error = s.stream.error) :
    Queued s (s.emit stream g (len g)) [g] where
  base := rfl
  segmentsOut := rfl
  nextSeqno := by
    rw [extent_cons, extent_nil, add_zero]
    exact Nat.mod_eq_of_lt hnext
  seqno p x hx := by
    obtain ⟨rfl, rfl⟩ := at_singleton.mp hx
    simpa using hseqno
  payload := by simpa using hpay
  len_pos := by simpa using hlen
  fin p x hx hf := by
    obtain ⟨rfl, rfl⟩ := at_singleton.mp hx
    exact ⟨by simp, hfin hf⟩
  finSent := by simp [TCPSender.emit]
  outstanding := perm_multimapInsert.trans (List.perm_append_singleton _ _).symm
  consistent := hc
  buf := by
    rw [List.flatMap_singleton]
    exact hbuf
  totRead := by
    rw [List.flatMap_singleton]
    exact htot
  eof2 := heof
  error := herror

/-- Nothing more can be sent: the FIN is out, the window is full or the stream waits for data. -/
def Settled (s : TCPSender) : Prop :=
  s.finSent = true ∨ s.limit ≤ s.nextSeqno ∨ (s.stream.buf = [] ∧ s.stream.eof2 = false)

/-- The loop has queued the segments `new` and left nothing that can be sent. -/
structure Cut (s s' : TCPSender) (new : List TCPSegment) : Prop extends Queued s s' new where
  settled : s'.Settled
  bound : s'.nextSeqno ≤ max s.nextSeqno s'.limit
  syn : ∀ g ∈ new, g.header.syn = false
  plain : ∀ g ∈ new, g.header.ack = false

theorem Cut.of_settled (hc : s.stream.Consistent) (h : s.Settled) : Cut s s [] where
  toQueued := .refl hc
  settled := h
  bound := le_max_left _ _
  syn := by simp
  plain := by simp

theorem Cut.last (hq : Queued s s' [g]) (hf : g.header.fin = true)
    (hfits : s.nextSeqno + len g ≤ s.limit) (hs : g.header.syn = false)
    (ha : g.header.ack = false) : Cut s s' [g] where
  toQueued := hq
  settled := Or.inl (hq.finSent.mpr (Or.inr ⟨g, List.mem_singleton_self g, hf⟩))
  bound := by
    have hlimit := hq.limit
    have hnext := hq.nextSeqno
    rw [extent_cons, extent_nil] at hnext
    omega
  syn := by simpa using hs
  plain := by simpa using ha

theorem Cut.cons (hq : Queued s s₁ [g]) (hf : g.header.fin = false)
    (hfits : s.nextSeqno + len g ≤ s.limit) (hs : g.header.syn = false)
    (ha : g.header.ack = false) (h : Cut s₁ s' new) : Cut s s' ([g] ++ new) where
  toQueued := hq.trans h.toQueued (by simpa using hf)
  settled := h.settled
  bound := by
    have hlimit := hq.limit
    have hlimit' := h.limit
    have hnext := hq.nextSeqno
    have hbound := h.bound
    rw [extent_cons, extent_nil] at hnext
    omega
  syn := by simpa [hs] using h.syn
  plain := by simpa [ha] using h.plain

theorem queued_data {k : ℕ} (hc : s.stream.Consistent) (hk : 0 < k) (hmax : k ≤ maxPayloadSize)
    (hbuf : k ≤ s.stream.buf.length) (hdata : g.payload = (s.stream.read k).2)
    (hseqno : g.header.seqno = wrap s.nextSeqno s.isn)
    (hfin : g.header.fin = true → (s.stream.read k).1.eof = true)
    (hfits : s.nextSeqno + len g ≤ s.limit) :
    Queued s (s.emit (s.stream.read k).1 g (len g)) [g] := by
  have hlt := limit_lt (s := s)
  have hlen : g.payload.length = k := by
    rw [hdata, ByteStream.read, List.length_take]
    omega
  have hpos : 0 < len g := by
    unfold len TCPSegment.lengthInSequenceSpace
    omega
  exact .emit hseqno (by omega) hpos (by omega) hfin (hc.popOutput hbuf)
    (by rw [hdata]; exact s.stream.buf_eq_read k) (fun _ => by rw [hlen]; rfl) rfl rfl

theorem queued_fin (hc : s.stream.Consistent) (hroom : s.nextSeqno < s.limit)
    (heof : s.stream.eof = true) :
    Queued s (s.emit s.stream { header := { seqno := wrap s.nextSeqno s.isn, fin := true } } 1)
      [{ header := { seqno := wrap s.nextSeqno s.isn, fin := true } }] := by
  have hlt := limit_lt (s := s)
  exact .emit rfl (by simp) (by simp [len, TCPSegment.lengthInSequenceSpace])
    (by change s.nextSeqno + 1 < _; omega) (fun _ => heof) hc (by simp)
    (fun ht => (Nat.mod_eq_of_lt ht).symm) rfl rfl

/-- With a turn for each byte of the stream and one more, the loop ends at one of its exits. -/
theorem cut_fillLoop (hc : s.stream.Consistent) (hn : s.stream.buf.length < n)
    (hf : s.finSent = false) : ∃ new, Cut s (s.fillLoop n) new := by
  induction n generalizing s with
  | zero => omega
  | succ n ih =>
    have hlt := limit_lt (s := s)
    rw [fillLoop]
    split_ifs with hroom
    · have hr : sub64 s.limit s.nextSeqno = s.limit - s.nextSeqno := sub64_of_le hroom.le hlt
      simp only [hr, hc.bufferSize_eq]
      set k := min maxPayloadSize (min s.stream.buf.length (s.limit - s.nextSeqno)) with hk
      have hmax : maxPayloadSize = 1000 := rfl
      have hread : (s.stream.read k).2.length = k := by
        simp only [ByteStream.read, List.length_take]
        omega
      rw [hread]
      by_cases hzero : k = 0
      · rw [if_pos hzero]
        split_ifs with heof
        · -- the window has room and the stream is at its end: the FIN goes alone
          exact ⟨_, .last (queued_fin hc hroom heof.1) rfl (by change s.nextSeqno + 1 ≤ _; omega)
            rfl rfl⟩
        · -- nothing to read, and the stream has not ended
          have hempty : s.stream.buf = [] := List.length_eq_zero_iff.mp (by omega)
          rw [hc.eof_iff] at heof
          refine ⟨[], .of_settled hc (Or.inr (Or.inr ⟨hempty, ?_⟩))⟩
          by_contra hne
          exact heof ⟨⟨hempty, by simpa using hne⟩, by omega⟩
      · rw [if_neg hzero]
        set stream := (s.stream.read k).1 with hstream
        set fin := stream.eof && decide (k < s.limit - s.nextSeqno) with hfin
        set seg : TCPSegment :=
          { header := { seqno := wrap s.nextSeqno s.isn, fin := fin }
            payload := (s.stream.read k).2 } with hseg
        have hlenseg : len seg = k + if fin then 1 else 0 := by
          simp [len, TCPSegment.lengthInSequenceSpace, hseg, hread]
        have hlast : fin = true → stream.eof = true ∧ k < s.limit - s.nextSeqno := by
          rw [hfin, Bool.and_eq_true, decide_eq_true_eq]
          exact id
        have hfits : s.nextSeqno + len seg ≤ s.limit := by
          rw [hlenseg]
          split_ifs with hf'
          · have := (hlast hf').2
            omega
          · omega
        have hq : Queued s (s.emit stream seg (len seg)) [seg] :=
          queued_data hc (by omega) (by omega) (by omega) rfl rfl (fun hf' => (hlast hf').1) hfits
        rw [← hlenseg]
        rcases Bool.eq_false_or_eq_true fin with hf' | hf'
        · -- the rest of the stream goes with the FIN
          rw [if_pos hf']
          exact ⟨_, .last hq hf' hfits rfl rfl⟩
        · -- the loop goes on behind the segment
          have hrest : stream.buf.length = s.stream.buf.length - k := by
            simp [hstream, ByteStream.read]
          rw [if_neg (c := fin = true) (by simp [hf'])]
          obtain ⟨new, h⟩ := ih (s := s.emit stream seg (len seg)) hq.consistent
            (by change stream.buf.length < n; omega) (by simp [emit, hf, hseg, hf'])
          exact ⟨_, .cons hq hf' hfits rfl rfl h⟩
    · exact ⟨[], .of_settled hc (Or.inr (Or.inl (by omega)))⟩

/-- Filling the window for the first time opens it for the SYN. -/
def opened (s : TCPSender) : TCPSender := if s.window = -1 then { s with window := 1 } else s

/-- The window is closed only as long as nothing was sent. -/
def Fresh (s : TCPSender) : Prop :=
  s.window = -1 → s.nextSeqno = 0 ∧ s.acked = 0 ∧ s.finSent = false

/-- What `fillWindow` does: it queues the SYN alone, or cuts segments until nothing more can be
sent. -/
structure Filled (s s' : TCPSender) (new : List TCPSegment) : Prop
    extends Queued s.opened s' new where
  settled : s'.Settled
  bound : s'.nextSeqno ≤ max s.nextSeqno (max 2 s'.limit)
  syn : ∀ g ∈ new, g.header.syn = decide (s.window = -1)
  synPayload : ∀ g ∈ new, g.header.syn = true → g.payload = []
  plain : ∀ g ∈ new, g.header.ack = false
  single : s.window = -1 → ∃ g, new = [g]
  blocked : s.finSent = true → new = []

theorem opened_of_ne (h : s.window ≠ -1) : s.opened = s := if_neg h

theorem filled_syn (hc : s.stream.Consistent) (h : s.Fresh) (hw : s.window = -1) :
    Filled s s.fillWindow
      [{ header := { seqno := s.isn, syn := true, fin := s.stream.eof } }] := by
  obtain ⟨hnext, hacked, hfin⟩ := h hw
  have hopen : s.opened = { s with window := 1 } := if_pos hw
  set seg : TCPSegment := { header := { seqno := s.isn, syn := true, fin := s.stream.eof } }
    with hseg
  have hlen : len seg = if s.stream.eof = true then 2 else 1 := by
    rcases Bool.eq_false_or_eq_true s.stream.eof with he | he <;>
      simp [len, TCPSegment.lengthInSequenceSpace, hseg, he]
  have hs : s.fillWindow =
      { s.opened.push seg with finSent := s.stream.eof, nextSeqno := len seg } := by
    rw [fillWindow, if_neg (by simp [hfin]), if_pos hw, hlen, hopen]
    split_ifs with he
    · simp [he, hseg]
    · simp [he, hseg, push, hfin]
  have hlimit : s.fillWindow.limit = 1 := by
    rw [hs]
    simp [limit, push, hopen, hacked]
  refine
    { base := by rw [hs]; rfl
      segmentsOut := by rw [hs]; rfl
      nextSeqno := by rw [hs, extent_cons, extent_nil, hopen]; simp [hnext]
      seqno := fun p g hg => ?_
      payload := by simp [hseg]
      len_pos := by rw [List.forall_mem_singleton, hlen]; split_ifs <;> omega
      fin := fun p g hg hf => ?_
      finSent := by rw [hs, hopen]; simp [hfin, hseg]
      outstanding := by
        rw [hs]
        exact perm_multimapInsert.trans (List.perm_append_singleton _ _).symm
      consistent := by rw [hs, hopen]; exact hc
      buf := by rw [hs, hopen]; simp [hseg, push]
      totRead := fun ht => by
        rw [hopen] at ht
        rw [hs, hopen]
        exact (Nat.mod_eq_of_lt ht).symm
      eof2 := by rw [hs]; rfl
      error := by rw [hs]; rfl
      settled := ?_
      bound := by rw [hlimit, hs]; simp only [hlen]; split_ifs <;> omega
      syn := by simp [hseg, hw]
      synPayload := by simp [hseg]
      plain := by simp [hseg]
      single := fun _ => ⟨_, rfl⟩
      blocked := fun h' => by simp [hfin] at h' }
  · obtain ⟨rfl, rfl⟩ := at_singleton.mp hg
    simp [hopen, hnext, hseg]
  · obtain ⟨rfl, rfl⟩ := at_singleton.mp hg
    exact ⟨by simp, by rw [hs, hopen]; exact hf⟩
  · exact Or.inr (Or.inl (by rw [hlimit, hs]; simp only [hlen]; split_ifs <;> omega))

theorem filled_fillWindow (hc : s.stream.Consistent) (h : s.Fresh) :
    ∃ new, Filled s s.fillWindow new := by
  by_cases hfin : s.finSent = true
  · have hw : s.window ≠ -1 := fun hw => by simp [(h hw).2.2] at hfin
    have hs : s.fillWindow = s := if_pos hfin
    rw [hs]
    exact ⟨[],
      { toQueued := by rw [opened_of_ne hw]; exact .refl hc
        settled := Or.inl hfin
        bound := le_max_left _ _
        syn := by simp
        synPayload := by simp
        plain := by simp
        single := fun h' => absurd h' hw
        blocked := fun _ => rfl }⟩
  · by_cases hw : s.window = -1
    · exact ⟨_, filled_syn hc h hw⟩
    · have hs : s.fillWindow = s.fillLoop (s.stream.buf.length + 1) := by
        rw [fillWindow, if_neg hfin, if_neg hw]
      rw [hs]
      obtain ⟨new, hcut⟩ := cut_fillLoop hc (Nat.lt_succ_self _) (by simpa using hfin)
      exact ⟨new,
        { toQueued := by rw [opened_of_ne hw]; exact hcut.toQueued
          settled := hcut.settled
          bound := hcut.bound.trans (max_le_max le_rfl (le_max_right _ _))
          syn := fun g hg => by rw [hcut.syn g hg, decide_eq_false hw]
          synPayload := fun g hg hs => by simp [hcut.syn g hg] at hs
          plain := hcut.plain
          single := fun h' => absurd h' hw
          blocked := fun h' => absurd h' hfin }⟩

end TCPSender

end Sponge
