import Sponge.Stream.Fifo
import Sponge.Stream.Growth
import Sponge.Stream.Refinement

/-! # Writing past the end

Neither a write nor the drain of the reassembler looks at the end of the input. Bytes that
still fit are accepted after it, and a read at the end of a stream counts room that there is
not, so that the stream is at its end no longer.
-/

namespace Sponge

open Blocks Runs

namespace ByteStream

def step (s : ByteStream) : Op → ByteStream
  | .write data => (s.write data).1
  | .read len => (s.read len).1
  | .popOutput len => s.popOutput len
  | .peekOutput _ => s
  | .endInput => s.endInput
  | .setError => s.setError

/-- After the end of the input the operation is not a write that is accepted, and it does not take
the stream away from its end. -/
structure Final (s : ByteStream) (o : Op) : Prop where
  write : s.inputEnded = true → ∀ data, o = .write data → (s.write data).2 = 0 ∧
    (s.write data).1.bytesWritten = s.bytesWritten ∧ (s.write data).1.buf = s.buf
  eof : s.eof = true → (s.step o).eof = true

/-- Once the input is ended, a write has no data or no room, and nothing is taken at the end of
the stream. -/
def Respects (s : ByteStream) : Op → Prop
  | .write data => s.inputEnded = true → data = [] ∨ s.remainingCapacity = 0
  | .read len | .popOutput len => s.eof = true → len % 2 ^ 64 = 0
  | _ => True

instance (s : ByteStream) : (o : Op) → Decidable (s.Respects o)
  | .write data => inferInstanceAs (Decidable (_ → data = [] ∨ _))
  | .read len | .popOutput len => inferInstanceAs (Decidable (_ → len % 2 ^ 64 = 0))
  | .peekOutput _ | .endInput | .setError => inferInstanceAs (Decidable True)

/-- The counters are 64-bit ones. -/
structure Counted (s : ByteStream) : Prop where
  rem : s.rem < 2 ^ 64
  totWrite : s.totWrite < 2 ^ 64

variable {s : ByteStream}

theorem Counted.new {capacity : ℕ} (h : capacity < 2 ^ 64) : (new capacity).Counted :=
  ⟨h, by norm_num [ByteStream.new]⟩

theorem Counted.step (h : s.Counted) (o : Op) : (s.step o).Counted := by
  cases o with
  | write data => exact ⟨(Nat.sub_le _ _).trans_lt h.rem, Nat.mod_lt _ (by norm_num)⟩
  | read len => exact ⟨Nat.mod_lt _ (by norm_num), h.totWrite⟩
  | popOutput len => exact ⟨Nat.mod_lt _ (by norm_num), h.totWrite⟩
  | peekOutput len => exact h
  | endInput => exact ⟨h.rem, h.totWrite⟩
  | setError => exact ⟨h.rem, h.totWrite⟩

theorem write_eq_self (h : s.Counted) {data : List UInt8} (hd : data = [] ∨ s.rem = 0) :
    s.write data = (s, 0) := by
  have hmin : min data.length s.rem = 0 := by
    rcases hd with rfl | hrem
    · exact Nat.zero_min _
    · rw [hrem, Nat.min_zero]
  simp only [ByteStream.write, hmin, List.take_zero, List.append_nil, Nat.sub_zero, add_zero,
    Nat.mod_eq_of_lt h.totWrite]

theorem eof_popOutput_iff (h : s.Counted) (heof : s.eof = true) (len : ℕ) :
    (s.popOutput len).eof = true ↔ len % 2 ^ 64 = 0 := by
  have hrem := h.rem
  simp only [eof, Bool.and_eq_true, beq_iff_eq] at heof ⊢
  simp only [popOutput, heof.2, and_true, ← heof.1]
  omega

theorem final_iff (h : s.Counted) (o : Op) : s.Final o ↔ s.Respects o := by
  have htake : ∀ len, ((s.eof = true → (s.popOutput len).eof = true) ↔
      (s.eof = true → len % 2 ^ 64 = 0)) := fun len =>
    forall_congr' fun heof => eof_popOutput_iff h heof len
  cases o with
  | write data =>
    constructor
    · intro hf hended
      have hnone := (hf.write hended data rfl).1
      have hmin : min data.length s.rem = 0 := hnone
      rcases Nat.min_eq_zero_iff.mp hmin with hdata | hrem
      · exact Or.inl (List.length_eq_zero_iff.mp hdata)
      · exact Or.inr hrem
    · intro hr
      have hself : s.inputEnded = true → s.write data = (s, 0) := fun hended =>
        write_eq_self h (hr hended)
      refine ⟨fun hended data' hdata => ?_, fun heof => ?_⟩
      · obtain rfl := Op.write.inj hdata
        rw [hself hended]
        exact ⟨rfl, rfl, rfl⟩
      · have hended : s.inputEnded = true := by
          simp only [eof, Bool.and_eq_true] at heof
          exact heof.2
        rw [step, hself hended]
        exact heof
  | read len => exact ⟨fun hf => (htake len).mp hf.eof, fun hr => ⟨by simp, (htake len).mpr hr⟩⟩
  | popOutput len =>
    exact ⟨fun hf => (htake len).mp hf.eof, fun hr => ⟨by simp, (htake len).mpr hr⟩⟩
  | peekOutput len => exact iff_of_true ⟨by simp, id⟩ trivial
  | endInput =>
    refine iff_of_true ⟨by simp, fun heof => ?_⟩ trivial
    simp only [eof, Bool.and_eq_true] at heof ⊢
    exact ⟨heof.1, rfl⟩
  | setError => exact iff_of_true ⟨by simp, id⟩ trivial

/-- The operations of a run are final exactly when they respect the end. -/
theorem final_run_iff {capacity : ℕ} (hcap : capacity < 2 ^ 64) (os : List Op) :
    Admitted step Final (new capacity) os ↔ Admitted step Respects (new capacity) os := by
  constructor
  · exact fun h => h.imp (fun _ o hs _ => hs.step o) (fun _ o hs => (final_iff hs o).mp)
      (.new hcap)
  · exact fun h => h.imp (fun _ o hs _ => hs.step o) (fun _ o hs => (final_iff hs o).mpr)
      (.new hcap)

end ByteStream

namespace StreamReassembler

variable {s : StreamReassembler} {t : List (Block UInt8)} {data : List UInt8} {index : ℕ}

/-- No block of the table waits at the first unassembled position, in front. -/
def Stalled (s : StreamReassembler) : Prop := ∀ c ∈ s.t.head?, c.1.1 ≠ s.unasb

theorem stalled_drainFrom (s : StreamReassembler) (t : List (Block UInt8)) :
    (s.drainFrom t).Stalled := by
  induction t generalizing s with
  | nil => simp [drainFrom, Stalled]
  | cons c t ih =>
    rw [drainFrom]
    split_ifs with hfront
    · exact ih _
    · rintro c' ⟨⟩
      exact hfront

theorem Stalled.closeAtEnd (h : s.Stalled) : s.closeAtEnd.Stalled := by
  unfold Stalled at h ⊢
  rw [closeAtEnd_t, closeAtEnd_unasb]
  exact h

/-- After every push, whatever it carries, the reassembler is stalled. -/
theorem Stalled.pushSubstring (h : s.Stalled) (data : List UInt8) (index : ℕ) (eof : Bool) :
    (s.pushSubstring data index eof).Stalled := by
  rw [pushSubstring_eq]
  split_ifs
  · exact closeAtEnd (s := s.announce data index eof) h
  · exact (stalled_drainFrom _ _).closeAtEnd

theorem Stalled.drain_eq (h : s.Stalled) : s.drain = s := by
  unfold Stalled at h
  cases ht : s.t with
  | nil => rw [drain, ht, drainFrom, ← ht]
  | cons c t =>
    rw [ht] at h
    rw [drain, ht, drainFrom, if_neg (h c rfl), ← ht]

theorem Stalled.assign (h : s.Stalled) {k : ℕ × ℕ} (hk : k.1 ≠ s.unasb) (v : List UInt8) :
    ∀ c ∈ (assign comp k v s.t).head?, c.1.1 ≠ s.unasb := by
  unfold Stalled at h
  cases ht : s.t with
  | nil =>
    rintro c ⟨⟩
    exact hk
  | cons d t =>
    rw [ht] at h
    rw [Blocks.assign]
    split_ifs
    · rintro c ⟨⟩
      exact h _ rfl
    · rintro c ⟨⟩
      exact hk
    · rintro c ⟨⟩
      exact h d rfl

theorem Stalled.store (h : s.Stalled) {g : List (Block UInt8)}
    (hg : ∀ c ∈ g, c.1.1 ≠ s.unasb) : (s.store g).Stalled := by
  induction g generalizing s with
  | nil => exact h
  | cons i g ih =>
    obtain ⟨hi, hg⟩ := List.forall_mem_cons.mp hg
    exact ih (s := { s with
      t := Blocks.assign comp i.1 i.2 s.t
      szUnasb := (s.szUnasb + i.2.length) % 2 ^ 64 }) (h.assign hi i.2) hg

theorem le_start_gaps {endidx idx : ℕ} : ∀ c ∈ gaps data index endidx idx t, idx ≤ c.1.1 := by
  have hrest : ∀ idx, ∀ c ∈ rest data index endidx idx, idx ≤ c.1.1 := by
    intro idx c hc
    unfold rest at hc
    split_ifs at hc
    · rw [List.mem_singleton.mp hc]
      exact le_rfl
    · simp at hc
  induction t generalizing idx with
  | nil => exact hrest idx
  | cons d t ih =>
    have hbefore : ∀ c ∈ (if idx < d.1.1 then [piece data index idx (min d.1.1 endidx)] else []),
        idx ≤ c.1.1 := by
      intro c hc
      split_ifs at hc
      · rw [List.mem_singleton.mp hc]
        exact le_rfl
      · simp at hc
    intro c hc
    rw [gaps] at hc
    by_cases hend : endidx ≤ d.1.2
    · rw [if_pos hend] at hc
      rcases List.mem_append.mp hc with hc | hc
      · exact hbefore c hc
      · exact (le_max_left _ _).trans (hrest _ c hc)
    · rw [if_neg hend] at hc
      rcases List.mem_append.mp hc with hc | hc
      · exact hbefore c hc
      · exact (le_max_left _ _).trans (ih c hc)

/-- The push carries a byte for the first unassembled position, inside the window. -/
def Reaches (s : StreamReassembler) (data : List UInt8) (index : ℕ) : Prop :=
  index ≤ s.unasb ∧ s.unasb < s.pushEnd data index

instance (data : List UInt8) (index : ℕ) : Decidable (s.Reaches data index) :=
  inferInstanceAs (Decidable (_ ∧ _))

theorem Stalled.bytesWritten_push (h : s.Stalled) (eof : Bool) (hr : ¬ s.Reaches data index) :
    (s.pushSubstring data index eof).output.bytesWritten = s.output.bytesWritten := by
  have hclose : ∀ s' : StreamReassembler,
      s'.closeAtEnd.output.bytesWritten = s'.output.bytesWritten := by
    intro s'
    rw [closeAtEnd_output]
    split_ifs <;> rfl
  rw [pushSubstring_eq]
  split_ifs with hempty
  · exact hclose _
  · have hbehind : s.unasb < max s.unasb index := by
      by_contra hle
      exact hr ⟨by omega, by omega⟩
    have hstalled : ((s.announce data index eof).store
        (gaps data index (s.pushEnd data index) (max s.unasb index) s.t)).Stalled :=
      Stalled.store (s := s.announce data index eof) h fun c hc =>
        (hbehind.trans_le (le_start_gaps c hc)).ne'
    rw [hclose, hstalled.drain_eq, (store_output _ _).1]
    rfl

end StreamReassembler

namespace StreamTrace

/-- After the end of the output, the operation writes nothing to it. -/
def Final (t : StreamTrace) (o : StreamOp) : Prop :=
  t.reassembler.output.inputEnded = true →
    (t.step o).reassembler.output.bytesWritten = t.reassembler.output.bytesWritten

/-- After the end of the output, a push does not reach the first unassembled position. -/
def Respects (t : StreamTrace) : StreamOp → Prop
  | .push data index _ =>
    t.reassembler.output.inputEnded = true → ¬ t.reassembler.Reaches data index
  | .read _ => True

instance (t : StreamTrace) : ∀ o, Decidable (t.Respects o)
  | .push .. => inferInstanceAs (Decidable (_ → ¬ _))
  | .read _ => inferInstanceAs (Decidable True)

variable {t : StreamTrace} {m : ByteMap}

theorem stalled_step (h : t.reassembler.Stalled) (o : StreamOp) :
    (t.step o).reassembler.Stalled := by
  cases o with
  | push data index eof => exact h.pushSubstring data index eof
  | read len => exact h

theorem final_of_respects (h : t.reassembler.Stalled) {o : StreamOp} (ho : t.Respects o) :
    t.Final o := by
  intro hended
  cases o with
  | push data index eof => exact h.bytesWritten_push eof (ho hended)
  | read len => rfl

/-- Below 2^31, a push that reaches the first unassembled position writes its byte. -/
theorem respects_of_final (h : Refines t m) {o : StreamOp} (ho : t.Within o) (hf : t.Final o) :
    t.Respects o := by
  cases o with
  | read len => trivial
  | push data index eof =>
    rintro hended ⟨hindex, hbefore⟩
    have hlt : index + data.length < 2 ^ 31 := ho
    have hnext := h.step (.push data index eof) ho
    have hsame := hf hended
    rw [ByteStream.bytesWritten, ByteStream.bytesWritten, h.totWrite, hnext.totWrite] at hsame
    obtain ⟨ws, hp⟩ := h.sound.pushSubstring eof (by omega)
      (Or.inl (show min (index + data.length) t.reassembler.windowEnd < 2 ^ 31 by omega))
    have hgap : valueAt (t.reassembler.pushSubstring data index eof).t t.reassembler.unasb =
        none := hsame ▸ hp.sound.gap
    have hvalue := hp.value t.reassembler.unasb le_rfl
    have hunasb : (t.reassembler.pushSubstring data index eof).unasb = t.reassembler.unasb := hsame
    rw [StreamReassembler.pushEnd, Nat.mod_eq_of_lt (by omega)] at hbefore
    rw [hunasb, if_neg (lt_irrefl _), hgap, if_pos ⟨by omega, hindex⟩, h.sound.gap,
      List.getElem?_eq_getElem (by omega)] at hvalue
    simp at hvalue

end StreamTrace

/-- The operations of every run of a byte stream are final exactly when they respect the end, and
in every run of a reassembler those that respect it are; below 2^31 no others are. -/
theorem final_iff_respects {capacity : ℕ} (hcap : capacity < 2 ^ 64) :
    (∀ os, Admitted ByteStream.step ByteStream.Final (.new capacity) os ↔
      Admitted ByteStream.step ByteStream.Respects (.new capacity) os) ∧
    (∀ os, Admitted StreamTrace.step StreamTrace.Respects (.new capacity) os →
      Admitted StreamTrace.step StreamTrace.Final (.new capacity) os) ∧
    (capacity < 2 ^ 31 → ∀ os, Admitted StreamTrace.step StreamTrace.Within (.new capacity) os →
      Admitted StreamTrace.step StreamTrace.Final (.new capacity) os →
        Admitted StreamTrace.step StreamTrace.Respects (.new capacity) os) := by
  refine ⟨ByteStream.final_run_iff hcap, fun os h => ?_, fun hsmall os hwithin h => ?_⟩
  · have hstart : (StreamTrace.new capacity).reassembler.Stalled := by
      simp [StreamTrace.new, StreamReassembler.new, StreamReassembler.Stalled]
    exact h.imp (fun _ o hs _ => StreamTrace.stalled_step hs o)
      (fun _ _ hs => StreamTrace.final_of_respects hs) hstart
  · have hstep : ∀ (t : StreamTrace) (o : StreamOp), (∃ m, Refines t m) →
        t.Within o ∧ t.Final o → ∃ m, Refines (t.step o) m := by
      rintro t o ⟨m, hm⟩ ⟨ho, -⟩
      exact ⟨_, hm.step o ho⟩
    refine (hwithin.and h).imp hstep ?_ ⟨_, .new hsmall⟩
    rintro t o ⟨m, hm⟩ ⟨ho, hf⟩
    exact StreamTrace.respects_of_final hm ho hf

/-- A write without data after the end of a stream, and late data below the end of another one. -/
theorem final_late :
    Admitted ByteStream.step ByteStream.Final (.new 2)
        [.write [1], .endInput, .write [], .read 1, .popOutput 0] ∧
      Admitted StreamTrace.step StreamTrace.Final (.new 2)
        [.push [1] 0 true, .push [2] 0 false, .push [3] 2 true] :=
  ⟨((final_iff_respects (by norm_num)).1 _).mpr (by decide),
    (final_iff_respects (by norm_num)).2.1 _ (by decide)⟩

/-- A write after the end is accepted, so that the stream is at its end no longer, and a push past
the end of what was announced is written. -/
theorem not_final_late :
    ¬ Admitted ByteStream.step ByteStream.Final (.new 2) [.endInput, .write [1]] ∧
      (ByteStream.new 2).endInput.eof = true ∧
      ((ByteStream.new 2).endInput.write [1]).1.eof = false ∧
      ¬ Admitted StreamTrace.step StreamTrace.Final (.new 2)
        [.push [1] 0 true, .push [2] 1 false] := by
  refine ⟨fun h => ?_, by decide, by decide, fun h => ?_⟩
  · have hnone := (h.2.1.write rfl [1] rfl).1
    exact absurd hnone (by decide)
  · have hsame := h.2.1 (by decide)
    exact absurd hsame (by decide)

end Sponge
