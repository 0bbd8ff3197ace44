import Sponge.Sender.Basic

/-! # What acknowledgments and ticks do

An acknowledgment removes the outstanding segments that it covers. A tick sends at
most one outstanding segment again and keeps it outstanding.
-/

namespace Sponge

namespace TCPSender

variable {s s' : TCPSender} {a : ℕ} {windowSize : UInt16} {again : Option TCPSegment}

/-- The state `s'` results from an acknowledgment of all positions below `a`. -/
structure Acked (s s' : TCPSender) (a : ℕ) (windowSize : UInt16) : Prop where
  ge : s.acked ≤ a
  le : a ≤ s.nextSeqno
  frame : s' =
    { s with
      rto := s'.rto
      acked := a
      window := max 1 windowSize.toNat
      zeroWindow := windowSize == 0
      outstanding := s'.outstanding }
  inFlight : s'.inFlight = s.inFlight.filter fun seg => !isAcked s.isn a seg
  rto : s'.rto = if s.acked < a then s.initialRetransmissionTimeout else s.rto
  restarted : s.acked < a → ∀ c ∈ s'.outstanding, c.2.1 = s'.expiry
  kept : ¬ s.acked < a → s'.outstanding = s.outstanding.filter fun c => !isAcked s.isn a c.2.2

/-- An acknowledgment outside the numbers in flight is dropped. -/
theorem ackReceived_cases (s : TCPSender) (ackno : WrappingInt32) (windowSize : UInt16) :
    (s.ackReceived ackno windowSize = s ∧
      (s.nextSeqno < unwrap ackno s.isn s.acked ∨ unwrap ackno s.isn s.acked < s.acked)) ∨
    Acked s (s.ackReceived ackno windowSize) (unwrap ackno s.isn s.acked) windowSize := by
  unfold ackReceived
  set a := unwrap ackno s.isn s.acked
  by_cases hbeyond : s.nextSeqno < a
  · exact Or.inl ⟨if_pos hbeyond, Or.inl hbeyond⟩
  · simp only [if_neg hbeyond]
    by_cases hold : s.acked ≤ a
    · rw [if_pos hold]
      refine Or.inr ⟨hold, by omega, rfl, ?_, by simp, fun hnew c hc => ?_, fun hnew => ?_⟩
      · simp only [inFlight, List.map_map, List.filter_map]
        apply List.map_congr_left
        intro c _
        simp only [Function.comp_apply]
        split_ifs <;> rfl
      · obtain ⟨e, -, rfl⟩ := List.mem_map.mp hc
        simp only [hnew, decide_true, if_true]
        rfl
      · simp [hnew]
    · rw [if_neg hold]
      exact Or.inl ⟨rfl, Or.inr (by omega)⟩

theorem ackReceived_frame (s : TCPSender) (ackno : WrappingInt32) (windowSize : UInt16) :
    (s.ackReceived ackno windowSize).stream = s.stream ∧
      (s.ackReceived ackno windowSize).finSent = s.finSent ∧
      (s.ackReceived ackno windowSize).nextSeqno = s.nextSeqno ∧
      (s.inFlight = [] → (s.ackReceived ackno windowSize).inFlight = []) := by
  rcases s.ackReceived_cases ackno windowSize with ⟨hs, _⟩ | hs
  · rw [hs]
    exact ⟨rfl, rfl, rfl, id⟩
  · refine ⟨by rw [hs.frame], by rw [hs.frame], by rw [hs.frame], fun hnil => ?_⟩
    rw [hs.inFlight, hnil, List.filter_nil]

/-- The state `s'` results from a tick that sent the segment `again`, if any. -/
structure Ticked (s s' : TCPSender) (again : Option TCPSegment) : Prop where
  frame : s' =
    { s with
      segmentsOut := s.segmentsOut ++ again.toList
      now := s'.now
      outstanding := s'.outstanding
      rto := s'.rto
      crtx := s'.crtx }
  inFlight : s'.inFlight.Perm s.inFlight
  crtx : again = none → s'.crtx = s.crtx
  resent : ∀ seg ∈ again, seg ∈ s.inFlight

/-- The number that the code compares, relative to what is acknowledged. -/
def absSeq (s : TCPSender) (seg : TCPSegment) : ℕ := unwrap seg.header.seqno s.isn s.acked

theorem oldest_spec (iters : List ((ℕ × ℕ × TCPSegment) × ℕ)) :
    (∀ c ∈ s.oldest iters, c ∈ iters ∧ ∀ d ∈ iters, s.absSeq c.1.2.2 ≤ s.absSeq d.1.2.2) ∧
    (s.oldest iters = none → ∀ d ∈ iters, 2 ^ 64 - 1 ≤ s.absSeq d.1.2.2) := by
  -- the best entry so far has the lowest number of those already visited
  have key : ∀ (done rest : List ((ℕ × ℕ × TCPSegment) × ℕ))
      (best : ℕ × Option ((ℕ × ℕ × TCPSegment) × ℕ)),
      (∀ d ∈ done, best.1 ≤ s.absSeq d.1.2.2) → (best.2 = none → best.1 = 2 ^ 64 - 1) →
      (∀ c ∈ best.2, c ∈ done ∧ s.absSeq c.1.2.2 = best.1) →
      let last := rest.foldl (fun best c =>
        let absSeq := unwrap c.1.2.2.header.seqno s.isn s.acked
        if absSeq < best.1 then (absSeq, some c) else best) best
      (∀ d ∈ done ++ rest, last.1 ≤ s.absSeq d.1.2.2) ∧ (last.2 = none → last.1 = 2 ^ 64 - 1) ∧
        ∀ c ∈ last.2, c ∈ done ++ rest ∧ s.absSeq c.1.2.2 = last.1 := by
    intro done rest
    induction rest generalizing done with
    | nil =>
      intro best hlow hnone hbest
      rw [List.append_nil]
      exact ⟨hlow, hnone, hbest⟩
    | cons e rest ih =>
      intro best hlow hnone hbest
      rw [List.foldl_cons, List.append_cons done e rest]
      by_cases hlt : s.absSeq e.1.2.2 < best.1
      · have hlt' : unwrap e.1.2.2.header.seqno s.isn s.acked < best.1 := hlt
        simp only [if_pos hlt']
        refine ih (done ++ [e]) (s.absSeq e.1.2.2, some e) (fun d hd => ?_) (by simp) (by simp)
        rcases List.mem_append.mp hd with hd | hd
        · exact hlt.le.trans (hlow d hd)
        · rw [List.mem_singleton.mp hd]
      · have hlt' : ¬ unwrap e.1.2.2.header.seqno s.isn s.acked < best.1 := hlt
        simp only [if_neg hlt']
        refine ih (done ++ [e]) best (fun d hd => ?_) hnone fun c hc => ?_
        · rcases List.mem_append.mp hd with hd | hd
          · exact hlow d hd
          · rw [List.mem_singleton.mp hd]
            exact Nat.le_of_not_lt hlt
        · exact ⟨List.mem_append_left _ (hbest c hc).1, (hbest c hc).2⟩
  obtain ⟨hlow, hnone, hbest⟩ := key [] iters (2 ^ 64 - 1, none) (by simp) (by simp) (by simp)
  exact ⟨fun c hc => ⟨(hbest c hc).1, fun d hd => (hbest c hc).2 ▸ hlow d hd⟩,
    fun h d hd => hnone h ▸ hlow d hd⟩

theorem ticked_tick (s : TCPSender) (ms : ℕ) : ∃ again, Ticked s (s.tick ms) again := by
  unfold tick
  simp only
  split
  · exact ⟨none, ⟨by simp, .rfl, fun _ => rfl, by simp⟩⟩
  · next c i hsome =>
    have hmem := ((oldest_spec _).1 _ hsome).1
    rw [List.mem_filter, List.mem_zipIdx_iff_getElem?] at hmem
    obtain ⟨hi, hget⟩ := List.getElem?_eq_some_iff.mp hmem.1
    have herase := List.getElem_cons_eraseIdx_perm hi
    rw [hget] at herase
    refine ⟨some c.2.2, ⟨rfl, ?_, by simp, ?_⟩⟩
    · simp only [inFlight, List.map_map]
      exact (perm_multimapInsert.map _).trans (herase.map fun c => c.2.2)
    · rintro seg ⟨⟩
      exact List.mem_map_of_mem (List.mem_of_getElem? hmem.1)

/-- The time after a tick. -/
def clock (s : TCPSender) (ms : ℕ) : ℕ := (s.now + ms) % 2 ^ 64

/-- The expired entries after a tick, with their places. -/
def iters (s : TCPSender) (ms : ℕ) : List ((ℕ × ℕ × TCPSegment) × ℕ) :=
  s.outstanding.zipIdx.filter fun c => c.1.2.1 ≤ s.clock ms

/-- The sender after a tick, before an entry is chosen. -/
def ticking (s : TCPSender) (ms : ℕ) : TCPSender :=
  { s with
    now := s.clock ms
    rto := if !(s.iters ms).isEmpty && !s.zeroWindow then s.rto * 2 else s.rto }

theorem tick_eq (s : TCPSender) (ms : ℕ) : s.tick ms =
    match (s.ticking ms).oldest (s.iters ms) with
    | none => s.ticking ms
    | some (c, i) =>
      let s := { s.ticking ms with
        outstanding := s.outstanding.eraseIdx i, crtx := s.crtx + 1 }.push c.2.2
      { s with outstanding := s.outstanding.map fun c => (c.1, s.expiry, c.2.2) } := rfl

theorem mem_iters {ms : ℕ} {c : ℕ × ℕ × TCPSegment} :
    (∃ i, (c, i) ∈ s.iters ms) ↔ c ∈ s.outstanding ∧ c.2.1 ≤ s.clock ms := by
  simp only [iters, List.mem_filter, List.mem_zipIdx_iff_getElem?, decide_eq_true_eq,
    exists_and_right]
  rw [← List.mem_iff_getElem?]

theorem tick_idle {ms : ℕ} (h : ∀ c ∈ s.outstanding, s.clock ms < c.2.1) :
    s.tick ms = { s with now := s.clock ms } := by
  have hiters : s.iters ms = [] := by
    apply List.eq_nil_iff_forall_not_mem.mpr
    rintro ⟨c, i⟩ hc
    obtain ⟨hmem, hle⟩ := mem_iters.mp ⟨i, hc⟩
    exact absurd (h c hmem) (Nat.not_lt.mpr hle)
  rw [tick_eq, ticking, hiters]
  rfl

/-- What a tick does when the segment `seg` has expired and is sent again. -/
structure Expired (s s' : TCPSender) (ms : ℕ) (seg : TCPSegment) : Prop where
  frame : s' =
    { s with
      segmentsOut := s.segmentsOut ++ [seg]
      now := s.clock ms
      outstanding := s'.outstanding
      rto := if s.zeroWindow then s.rto else s.rto * 2
      crtx := s.crtx + 1 }
  restarted : ∀ c ∈ s'.outstanding, c.2.1 = s'.expiry
  expired : ∃ c ∈ s.outstanding, c.2.2 = seg ∧ c.2.1 ≤ s.clock ms
  lowest : ∀ c ∈ s.outstanding, c.2.1 ≤ s.clock ms → s.absSeq seg ≤ s.absSeq c.2.2

/-- Once a segment has expired, the expired one with the lowest number is sent again. -/
theorem tick_expired {ms : ℕ} {c : ℕ × ℕ × TCPSegment} (hc : c ∈ s.outstanding)
    (hexp : c.2.1 ≤ s.clock ms) (habs : s.absSeq c.2.2 < 2 ^ 64 - 1) :
    ∃ seg, Expired s (s.tick ms) ms seg := by
  obtain ⟨i, hi⟩ := mem_iters.mpr ⟨hc, hexp⟩
  have hrto : (s.ticking ms).rto = if s.zeroWindow then s.rto else s.rto * 2 := by
    have hne : (s.iters ms).isEmpty = false :=
      List.isEmpty_eq_false_iff.mpr (List.ne_nil_of_mem hi)
    rw [ticking, hne]
    cases s.zeroWindow <;> rfl
  have hspec := oldest_spec (s := s.ticking ms) (s.iters ms)
  cases hsome : (s.ticking ms).oldest (s.iters ms) with
  | none =>
    have := hspec.2 hsome _ hi
    exact absurd habs (Nat.not_lt.mpr this)
  | some d =>
    obtain ⟨hd, hlow⟩ := hspec.1 d hsome
    obtain ⟨hmem, hle⟩ := mem_iters.mp ⟨d.2, hd⟩
    rw [tick_eq, hsome]
    refine ⟨d.1.2.2,
      { frame := by rw [← hrto]; rfl
        restarted := fun e he => ?_
        expired := ⟨d.1, hmem, rfl, hle⟩
        lowest := fun e he hle => ?_ }⟩
    · obtain ⟨e', -, rfl⟩ := List.mem_map.mp he
      rfl
    · obtain ⟨j, hj⟩ := mem_iters.mpr ⟨he, hle⟩
      exact hlow _ hj

end TCPSender

end Sponge
