import Sponge.Library.BoundedQueue
import Sponge.Stream.ByteStream

/-! # A byte stream is a bounded queue

The stored bytes of a stream are the items of a queue of the same capacity, and the counters
agree with them, as long as no more bytes are taken than there are.
-/

namespace Sponge

namespace ByteStream

inductive Op
  | write (data : List UInt8)
  | read (len : ℕ)
  | popOutput (len : ℕ)
  | peekOutput (len : ℕ)
  | endInput
  | setError

/-- What an operation means for a queue. -/
def Op.onQueue : Op → BoundedQueue.Op UInt8
  | .write data => .push data
  | .read len => .pop len
  | .popOutput len => .pop len
  | .peekOutput _ => .look
  | .endInput => .close
  | .setError => .look

/-- The stream stores the items of the queue, and its counters agree with them. -/
structure Stores {capacity : ℕ} (s : ByteStream) (q : BoundedQueue UInt8 capacity) : Prop where
  buf : s.buf = q.items
  cap : s.cap = capacity
  rem : s.rem = q.room
  counted : (s.totRead + q.items.length) % 2 ^ 64 = s.totWrite
  totRead_lt : s.totRead < 2 ^ 64
  eof2 : s.eof2 = q.closed

variable {capacity : ℕ} {s : ByteStream} {q : BoundedQueue UInt8 capacity}

theorem Stores.write (h : s.Stores q) (data : List UInt8) :
    (s.write data).1.Stores (q.push data) where
  buf := by rw [write_buf, h.buf, h.rem]; rfl
  cap := h.cap
  rem := by
    rw [BoundedQueue.push_room, ← h.rem]
    rfl
  counted := by
    have hcounted := h.counted
    simp only [ByteStream.write, BoundedQueue.push, List.length_append, List.length_take, ← h.rem]
    omega
  totRead_lt := h.totRead_lt
  eof2 := h.eof2

theorem Stores.popOutput (hcap : capacity < 2 ^ 64) (h : s.Stores q) {len : ℕ}
    (hlen : len ≤ q.items.length) : (s.popOutput len).Stores (q.pop len) where
  buf := by rw [ByteStream.popOutput, h.buf]; rfl
  cap := h.cap
  rem := by
    have hroom := q.items_add_room
    rw [BoundedQueue.pop_room hlen, ByteStream.popOutput, h.rem, Nat.mod_eq_of_lt (by omega)]
  counted := by
    have hcounted := h.counted
    simp only [ByteStream.popOutput, BoundedQueue.pop, List.length_drop]
    omega
  totRead_lt := Nat.mod_lt _ (by norm_num)
  eof2 := h.eof2

theorem Stores.endInput (h : s.Stores q) : s.endInput.Stores q.close where
  buf := h.buf
  cap := h.cap
  rem := h.rem
  counted := h.counted
  totRead_lt := h.totRead_lt
  eof2 := rfl

theorem Stores.setError (h : s.Stores q) : s.setError.Stores q :=
  ⟨h.buf, h.cap, h.rem, h.counted, h.totRead_lt, h.eof2⟩

theorem Stores.new (capacity : ℕ) : (new capacity).Stores (.empty UInt8 capacity) where
  buf := rfl
  cap := rfl
  rem := rfl
  counted := rfl
  totRead_lt := by norm_num [ByteStream.new]
  eof2 := rfl

theorem Stores.consistent (hcap : capacity < 2 ^ 64) (h : s.Stores q) : s.Consistent where
  room := by
    have hroom := q.items_add_room
    rw [h.buf, h.rem, h.cap]
    omega
  cap_lt := h.cap ▸ hcap

theorem Stores.bufferSize_eq (hcap : capacity < 2 ^ 64) (h : s.Stores q) :
    s.bufferSize = q.items.length := by
  rw [(h.consistent hcap).bufferSize_eq, h.buf]

theorem Stores.popOutput_of_le (hcap : capacity < 2 ^ 64) (h : s.Stores q) {len : ℕ}
    (hlen : len ≤ s.bufferSize) : (s.popOutput len).Stores (q.pop len) :=
  h.popOutput hcap (h.bufferSize_eq hcap ▸ hlen)

end ByteStream

/-- A stream, the bytes that its writes accepted, those that were read or popped, and whether its
input was ended. -/
structure FifoTrace where
  stream : ByteStream
  accepted : List UInt8
  taken : List UInt8
  ended : Bool
  deriving DecidableEq, Repr

namespace FifoTrace

open ByteStream

def new (capacity : ℕ) : FifoTrace where
  stream := .new capacity
  accepted := []
  taken := []
  ended := false

def step (t : FifoTrace) : ByteStream.Op → FifoTrace
  | .write data =>
    let (stream, writable) := t.stream.write data
    { t with stream := stream, accepted := t.accepted ++ data.take writable }
  | .read len =>
    let (stream, res) := t.stream.read len
    { t with stream := stream, taken := t.taken ++ res }
  | .popOutput len =>
    { t with
      stream := t.stream.popOutput len
      -- a peek shows what the pop removes
      taken := t.taken ++ t.stream.peekOutput len }
  | .peekOutput _ => t
  | .endInput => { t with stream := t.stream.endInput, ended := true }
  | .setError => { t with stream := t.stream.setError }

/-- No more bytes are taken than there are. -/
def TakesStored (t : FifoTrace) : ByteStream.Op → Prop
  | .read len | .popOutput len => len ≤ t.stream.bufferSize
  | _ => True

instance (t : FifoTrace) : (o : ByteStream.Op) → Decidable (t.TakesStored o)
  | .read len | .popOutput len => inferInstanceAs (Decidable (len ≤ t.stream.bufferSize))
  | .write _ | .peekOutput _ | .endInput | .setError => inferInstanceAs (Decidable True)

/-- The stream behaves as a queue of the given capacity. -/
structure Fifo (capacity : ℕ) (t : FifoTrace) : Prop where
  order : t.taken ++ t.stream.buf = t.accepted
  accepts : ∀ data, (t.stream.write data).2 = min data.length t.stream.remainingCapacity
  bufferSize : t.stream.bufferSize = t.stream.buf.length
  counted : t.stream.bufferSize = sub64 t.stream.bytesWritten t.stream.bytesRead
  room : t.stream.bufferSize + t.stream.remainingCapacity = capacity
  eof : t.stream.eof ↔ t.ended ∧ t.stream.buf = []

/-- The trace of the stream follows the journal of a queue. -/
structure Follows {capacity : ℕ} (t : FifoTrace) (j : BoundedQueue.Journal UInt8 capacity) :
    Prop where
  stores : t.stream.Stores j.queue
  accepted : t.accepted = j.came
  taken : t.taken = j.went
  ended : t.ended = j.queue.closed

variable {capacity : ℕ} {t : FifoTrace} {j : BoundedQueue.Journal UInt8 capacity}

theorem Follows.taken_pop (h : t.Follows j) (len : ℕ) :
    t.taken ++ t.stream.buf.take len = j.went ++ j.queue.items.take len := by
  rw [h.taken, h.stores.buf]

/-- One operation of the stream is one of the queue. -/
theorem Follows.step (hcap : capacity < 2 ^ 64) (h : t.Follows j) {o : ByteStream.Op}
    (ho : t.TakesStored o) : (t.step o).Follows (j.step o.onQueue) := by
  cases o with
  | write data =>
    refine ⟨h.stores.write data, ?_, h.taken, h.ended⟩
    have hroom : t.stream.rem = j.queue.room := h.stores.rem
    simp only [FifoTrace.step, ByteStream.write, BoundedQueue.Journal.step, Op.onQueue, h.accepted,
      hroom]
    rw [List.take_eq_take_iff.mpr (show min (min data.length j.queue.room) data.length =
      min j.queue.room data.length by omega)]
  | read len =>
    exact ⟨h.stores.popOutput_of_le hcap ho, h.accepted, h.taken_pop len, h.ended⟩
  | popOutput len =>
    exact ⟨h.stores.popOutput_of_le hcap ho, h.accepted, h.taken_pop len, h.ended⟩
  | peekOutput len => exact h
  | endInput => exact ⟨h.stores.endInput, h.accepted, h.taken, rfl⟩
  | setError => exact ⟨h.stores.setError, h.accepted, h.taken, h.ended⟩

theorem Follows.fifo (hcap : capacity < 2 ^ 64) (h : t.Follows j) (hj : j.Balanced) :
    Fifo capacity t := by
  have hconsistent := h.stores.consistent hcap
  have hsize := hconsistent.bufferSize_eq
  have hcounted := h.stores.counted
  have hroom := j.queue.items_add_room
  refine ⟨?_, fun _ => rfl, hsize, ?_, ?_, ?_⟩
  · rw [h.taken, h.stores.buf, h.accepted]
    exact hj
  · have hread := h.stores.totRead_lt
    rw [hsize, h.stores.buf, bytesWritten, bytesRead, sub64]
    omega
  · rw [hsize, h.stores.buf, remainingCapacity, h.stores.rem]
    exact hroom
  · rw [hconsistent.eof_iff, h.ended, h.stores.eof2]
    exact and_comm

/-- Whatever is written, read, popped and looked at, and whether the input is ended or not, the
stream behaves as a queue. -/
theorem fifo_of_run (hcap : capacity < 2 ^ 64) {os : List ByteStream.Op}
    (h : Runs.Admitted step TakesStored (new capacity) os) :
    Fifo capacity (Runs.run step (new capacity) os) := by
  have hstart : (new capacity).Follows (.new UInt8 capacity) := ⟨.new capacity, rfl, rfl, rfl⟩
  have hkeep : ∀ (t : FifoTrace) (j : BoundedQueue.Journal UInt8 capacity) (o : ByteStream.Op),
      t.Follows j → t.TakesStored o → (t.step o).Follows (j.step (Op.onQueue o)) :=
    fun _ _ _ hj ho => Follows.step hcap hj ho
  have hfollows : (Runs.run step (new capacity) os).Follows
      (Runs.run (fun j o => j.step (Op.onQueue o)) (.new UInt8 capacity) os) :=
    h.simulation hkeep hstart
  have hqueue : Runs.run (fun j o => j.step (Op.onQueue o)) (.new UInt8 capacity) os =
      Runs.run BoundedQueue.Journal.step (.new UInt8 capacity) (os.map Op.onQueue) :=
    List.foldl_map.symm
  rw [hqueue] at hfollows
  exact hfollows.fifo hcap (BoundedQueue.Journal.balanced_run _)

/-- A stream with room for three bytes takes the first three of four, and has one left after a
read of two and the end of its input. -/
theorem fifo_of_run_three :
    Fifo 3 (Runs.run step (new 3) [.write [1, 2, 3, 4], .peekOutput 7, .read 2, .endInput]) :=
  fifo_of_run (by norm_num) (by decide)

end FifoTrace

end Sponge
