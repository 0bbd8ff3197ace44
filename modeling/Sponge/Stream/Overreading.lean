import Sponge.Stream.Finality

/-! # Reading more than there is

The buffer gives away what it has, but the counters advance by the length that was asked
for. After such a read there is more room than the capacity, or the size of the buffer is
not that of what is stored.
-/

namespace Sponge

open Runs

namespace ByteStream

/-- The lengths in an operation are 64-bit ones. -/
def Op.Sized : Op → Prop
  | .read len | .popOutput len => len < 2 ^ 64
  | _ => True

instance : (o : Op) → Decidable o.Sized
  | .read len | .popOutput len => inferInstanceAs (Decidable (len < 2 ^ 64))
  | .write _ | .peekOutput _ | .endInput | .setError => inferInstanceAs (Decidable True)

/-- The counters of the stream say what it stores, now and after any writes. -/
structure Accounted (capacity : ℕ) (s : ByteStream) : Prop where
  counted : s.bytesRead ≤ s.bytesWritten
  room : s.remainingCapacity ≤ capacity
  stored : s.bufferSize = s.buf.length
  writes : ∀ ws, (s.writeAll ws).buf.length ≤ capacity

/-- The operation removes from the front as many bytes as are asked for and there are, and leaves
the counters right. -/
def TakesExactly (capacity : ℕ) (s : ByteStream) : Op → Prop
  | .read len => (s.read len).2.length = min len s.bufferSize ∧
      s.buf = (s.read len).2 ++ (s.read len).1.buf ∧ (s.read len).1.Accounted capacity
  | .popOutput len => (∃ removed, removed.length = min len s.bufferSize ∧
      s.buf = removed ++ (s.popOutput len).buf) ∧ (s.popOutput len).Accounted capacity
  | _ => True

/-- No more bytes are asked for than there are, and the number of bytes written has not wrapped
within those that stay. -/
def Covered (s : ByteStream) : Op → Prop
  | .read len | .popOutput len => len ≤ s.bufferSize ∧ s.bufferSize - len ≤ s.bytesWritten
  | _ => True

instance (s : ByteStream) : (o : Op) → Decidable (s.Covered o)
  | .read _ | .popOutput _ => inferInstanceAs (Decidable (_ ∧ _))
  | .write _ | .peekOutput _ | .endInput | .setError => inferInstanceAs (Decidable True)

variable {capacity len : ℕ} {s : ByteStream} {q : BoundedQueue UInt8 capacity}

theorem take_of_consistent (h : s.Consistent) (len : ℕ) :
    (s.buf.take len).length = min len s.bufferSize ∧
      s.buf = s.buf.take len ++ (s.popOutput len).buf := by
  constructor
  · rw [List.length_take, h.bufferSize_eq]
  · exact (List.take_append_drop len s.buf).symm

theorem Stores.length_le (h : s.Stores q) : s.buf.length ≤ capacity := by
  rw [h.buf]
  exact q.fits

theorem Stores.writeAll (h : s.Stores q) (ws : List (List UInt8)) :
    ∃ q' : BoundedQueue UInt8 capacity, (s.writeAll ws).Stores q' := by
  induction ws generalizing s q with
  | nil => exact ⟨q, h⟩
  | cons w ws ih => exact ih (h.write w)

/-- A stream that stores the items of a queue is accounted for, unless a counter has wrapped. -/
theorem Stores.accounted_iff (hcap : capacity < 2 ^ 64) (h : s.Stores q) :
    s.Accounted capacity ↔ s.bytesRead ≤ s.bytesWritten := by
  refine ⟨fun ha => ha.counted, fun hcounted => ⟨hcounted, ?_, ?_, ?_⟩⟩
  · have hroom := q.items_add_room
    rw [remainingCapacity, h.rem]
    omega
  · exact (h.consistent hcap).bufferSize_eq
  · intro ws
    obtain ⟨q', h'⟩ := h.writeAll ws
    exact h'.length_le

/-- The number of bytes read is at most that of bytes written as long as those that are stored
do not reach back behind the last wrap. -/
theorem Stores.bytesRead_le_iff (hcap : capacity < 2 ^ 64) (h : s.Stores q) :
    s.bytesRead ≤ s.bytesWritten ↔ q.items.length ≤ s.bytesWritten := by
  have hcounted := h.counted
  have hread := h.totRead_lt
  have hfits := q.fits
  rw [bytesRead, bytesWritten]
  omega

theorem Stores.accounted_popOutput_iff (hcap : capacity < 2 ^ 64) (h : s.Stores q)
    (hlen : len ≤ s.bufferSize) :
    (s.popOutput len).Accounted capacity ↔ s.bufferSize - len ≤ s.bytesWritten := by
  have hpop := h.popOutput_of_le hcap hlen
  have hleft : (q.pop len).items.length = s.bufferSize - len := by
    rw [h.bufferSize_eq hcap]
    exact List.length_drop
  have hwritten : (s.popOutput len).bytesWritten = s.bytesWritten := rfl
  rw [hpop.accounted_iff hcap, hpop.bytesRead_le_iff hcap, hleft, hwritten]

theorem not_accounted_of_lt (hcap : capacity < 2 ^ 64) (h : s.Stores q) (hsized : len < 2 ^ 64)
    (hlen : s.bufferSize < len) : ¬ (s.popOutput len).Accounted capacity := by
  rintro ⟨-, hroom, hstored, -⟩
  have hconsistent := h.consistent hcap
  have hempty : (s.popOutput len).buf = [] := by
    rw [hconsistent.bufferSize_eq] at hlen
    exact List.drop_eq_nil_of_le hlen.le
  have hfill := hconsistent.room
  have hsize := hconsistent.bufferSize_eq
  have hcaps := h.cap
  rw [hempty, List.length_nil, bufferSize, sub64] at hstored
  simp only [remainingCapacity, popOutput] at hroom hstored
  omega

theorem takesExactly_iff (hcap : capacity < 2 ^ 64) (h : s.Stores q) {o : Op} (ho : o.Sized) :
    s.TakesExactly capacity o ↔ s.Covered o := by
  have hcovered : ∀ len, len < 2 ^ 64 → ((s.popOutput len).Accounted capacity ↔
      len ≤ s.bufferSize ∧ s.bufferSize - len ≤ s.bytesWritten) := by
    intro len hsized
    by_cases hlen : len ≤ s.bufferSize
    · rw [h.accounted_popOutput_iff hcap hlen]
      exact ⟨fun hleft => ⟨hlen, hleft⟩, And.right⟩
    · exact iff_of_false (not_accounted_of_lt hcap h hsized (not_le.mp hlen)) fun hc => hlen hc.1
  have htake := take_of_consistent (h.consistent hcap)
  cases o with
  | read len =>
    refine Iff.trans ⟨fun ht => ht.2.2, fun ha => ?_⟩ (hcovered len ho)
    exact ⟨(htake len).1, (htake len).2, ha⟩
  | popOutput len =>
    refine Iff.trans ⟨And.right, fun ha => ?_⟩ (hcovered len ho)
    exact ⟨⟨_, htake len⟩, ha⟩
  | write data => exact Iff.rfl
  | peekOutput len => exact Iff.rfl
  | endInput => exact Iff.rfl
  | setError => exact Iff.rfl

/-- A covered operation is one of a queue. -/
theorem Stores.step (hcap : capacity < 2 ^ 64) (h : s.Stores q) {o : Op} (ho : s.Covered o) :
    ∃ q' : BoundedQueue UInt8 capacity, (s.step o).Stores q' := by
  cases o with
  | write data => exact ⟨_, h.write data⟩
  | read len => exact ⟨_, h.popOutput_of_le hcap ho.1⟩
  | popOutput len => exact ⟨_, h.popOutput_of_le hcap ho.1⟩
  | peekOutput len => exact ⟨q, h⟩
  | endInput => exact ⟨_, h.endInput⟩
  | setError => exact ⟨_, h.setError⟩

/-- The operations of a run take exactly what they should if and only if no more is asked for
than there is, and the number of bytes written does not wrap within what stays. -/
theorem takesExactly_run_iff (hcap : capacity < 2 ^ 64) {os : List Op}
    (hos : ∀ o ∈ os, o.Sized) :
    Admitted step (TakesExactly capacity) (new capacity) os ↔
      Admitted step Covered (new capacity) os := by
  have hstart : ∃ q : BoundedQueue UInt8 capacity, (new capacity).Stores q := ⟨_, .new capacity⟩
  have hstep : ∀ (s : ByteStream) (o : Op), (∃ q : BoundedQueue UInt8 capacity, s.Stores q) →
      s.Covered o → ∃ q : BoundedQueue UInt8 capacity, (s.step o).Stores q := by
    rintro s o ⟨q, hq⟩ hc
    exact hq.step hcap hc
  have hiff : ∀ (s : ByteStream) (o : Op), (∃ q : BoundedQueue UInt8 capacity, s.Stores q) →
      o.Sized → (s.TakesExactly capacity o ↔ s.Covered o) := by
    rintro s o ⟨q, hq⟩ ho
    exact takesExactly_iff hcap hq ho
  constructor
  · intro h
    exact (h.and_forall hos).imp
      (fun s o hs ht => hstep s o hs ((hiff s o hs ht.2).mp ht.1))
      (fun s o hs ht => (hiff s o hs ht.2).mp ht.1) hstart
  · intro h
    exact (h.and_forall hos).imp (fun s o hs hc => hstep s o hs hc.1)
      (fun s o hs hc => (hiff s o hs hc.2).mpr hc.1) hstart

/-- A stream of three bytes that is read and popped until it is empty. -/
theorem takesExactly_run_three :
    Admitted step (TakesExactly 3) (new 3)
      [.write [1, 2, 3, 4], .read 1, .write [5], .popOutput 3, .read 0] :=
  (takesExactly_run_iff (by norm_num) (by decide)).mpr (by decide)

/-- One byte is stored and two are asked for: more are read than were written, there is more room
than the capacity, and a later write stores three bytes in a stream for two. -/
theorem overread_takes_too_much :
    let s := (new 2).step (.write [1])
    ¬ Admitted step (TakesExactly 2) (new 2) [.write [1], .read 2] ∧
      (s.read 2).1.bytesWritten < (s.read 2).1.bytesRead ∧
      2 < (s.read 2).1.remainingCapacity ∧
      (s.read 2).1.bufferSize = 2 ^ 64 - 1 ∧ (s.read 2).1.buf = [] ∧
      2 < ((s.read 2).1.writeAll [[1, 2, 3]]).buf.length := by
  refine ⟨fun h => ?_, by decide, by decide, by decide, by decide, by decide⟩
  exact absurd h.2.1.2.2.counted (by decide)

end ByteStream

end Sponge
