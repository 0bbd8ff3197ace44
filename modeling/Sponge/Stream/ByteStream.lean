import Mathlib.Tactic

/-! # Byte streams

A bounded in-order byte stream. Its sizes are derived from counters that are
updated beside the stored bytes; in a consistent stream the remaining room and
the stored bytes fill the capacity.
-/

namespace Sponge

/-- Subtraction of 64-bit unsigned integers. -/
def sub64 (a b : ℕ) : ℕ := (a + (2 ^ 64 - b)) % 2 ^ 64

theorem sub64_of_le {a b : ℕ} (h : b ≤ a) (ha : a < 2 ^ 64) : sub64 a b = a - b := by
  unfold sub64
  omega

/-- A flow-controlled stream of bytes with room for `cap` unread ones. -/
structure ByteStream where
  cap : ℕ
  rem : ℕ
  totRead : ℕ
  totWrite : ℕ
  eof2 : Bool
  buf : List UInt8
  error : Bool
  deriving DecidableEq, Repr

namespace ByteStream

def new (capacity : ℕ) : ByteStream where
  cap := capacity
  rem := capacity
  totRead := 0
  totWrite := 0
  eof2 := false
  buf := []
  error := false

/-- Append as many bytes as fit, and return how many were accepted. -/
def write (s : ByteStream) (data : List UInt8) : ByteStream × ℕ :=
  let writable := min data.length s.rem
  ({ s with
      buf := s.buf ++ data.take writable
      rem := s.rem - writable
      totWrite := (s.totWrite + writable) % 2 ^ 64 }, writable)

def peekOutput (s : ByteStream) (len : ℕ) : List UInt8 := s.buf.take len

/-- Remove bytes from the buffer; the counters advance by `len` even when fewer are stored. -/
def popOutput (s : ByteStream) (len : ℕ) : ByteStream :=
  { s with
    buf := s.buf.drop len
    rem := (s.rem + len) % 2 ^ 64
    totRead := (s.totRead + len) % 2 ^ 64 }

/-- Copy and then remove the next `len` bytes. -/
def read (s : ByteStream) (len : ℕ) : ByteStream × List UInt8 :=
  ({ s with
      buf := s.buf.drop len
      rem := (s.rem + len) % 2 ^ 64
      totRead := (s.totRead + len) % 2 ^ 64 }, s.buf.take len)

def endInput (s : ByteStream) : ByteStream := { s with eof2 := true }

def setError (s : ByteStream) : ByteStream := { s with error := true }

def inputEnded (s : ByteStream) : Bool := s.eof2

/-- The difference is a 64-bit one: it wraps when more room is counted than the capacity. -/
def bufferSize (s : ByteStream) : ℕ := sub64 s.cap s.rem

def bufferEmpty (s : ByteStream) : Bool := s.rem == s.cap

def eof (s : ByteStream) : Bool := s.rem == s.cap && s.eof2

def bytesWritten (s : ByteStream) : ℕ := s.totWrite

def bytesRead (s : ByteStream) : ℕ := s.totRead

def remainingCapacity (s : ByteStream) : ℕ := s.rem

/-- The room left and the bytes stored make up the capacity. -/
structure Consistent (s : ByteStream) : Prop where
  room : s.rem + s.buf.length = s.cap
  cap_lt : s.cap < 2 ^ 64

variable {s : ByteStream} {data : List UInt8} {len : ℕ}

theorem buf_eq_read (len : ℕ) : s.buf = (s.read len).2 ++ (s.read len).1.buf :=
  (List.take_append_drop len s.buf).symm

@[simp] theorem write_cap : (s.write data).1.cap = s.cap := rfl
@[simp] theorem write_totRead : (s.write data).1.totRead = s.totRead := rfl
@[simp] theorem write_eof2 : (s.write data).1.eof2 = s.eof2 := rfl
@[simp] theorem endInput_eof2 : s.endInput.eof2 = true := rfl
@[simp] theorem endInput_totRead : s.endInput.totRead = s.totRead := rfl
@[simp] theorem endInput_cap : s.endInput.cap = s.cap := rfl

theorem Consistent.new {capacity : ℕ} (h : capacity < 2 ^ 64) : (new capacity).Consistent :=
  ⟨rfl, h⟩

theorem Consistent.bufferSize_eq (h : s.Consistent) : s.bufferSize = s.buf.length := by
  have := h.room
  rw [bufferSize, sub64_of_le (by omega) h.cap_lt]
  omega

theorem Consistent.bufferEmpty_iff (h : s.Consistent) : s.bufferEmpty ↔ s.buf = [] := by
  have := h.room
  rw [bufferEmpty, beq_iff_eq, ← List.length_eq_zero_iff]
  omega

theorem Consistent.eof_iff (h : s.Consistent) : s.eof ↔ s.buf = [] ∧ s.eof2 := by
  have he := h.bufferEmpty_iff
  unfold eof
  rw [Bool.and_eq_true]
  exact and_congr_left' he

theorem Consistent.write (h : s.Consistent) : (s.write data).1.Consistent := by
  have := h.room
  refine ⟨?_, h.cap_lt⟩
  simp only [ByteStream.write, List.length_append, List.length_take]
  omega

theorem Consistent.popOutput (h : s.Consistent) (hl : len ≤ s.buf.length) :
    (s.popOutput len).Consistent := by
  have := h.room
  have := h.cap_lt
  refine ⟨?_, h.cap_lt⟩
  simp only [ByteStream.popOutput, List.length_drop]
  omega

theorem Consistent.endInput (h : s.Consistent) : s.endInput.Consistent := ⟨h.room, h.cap_lt⟩

theorem Consistent.setError (h : s.Consistent) : s.setError.Consistent := ⟨h.room, h.cap_lt⟩

theorem write_buf : (s.write data).1.buf = s.buf ++ data.take s.rem := by
  simp [ByteStream.write, List.take_eq_take_iff, Nat.min_comm]

theorem write_buf_of_fits (h : data.length ≤ s.rem) :
    (s.write data).1.buf = s.buf ++ data := by
  rw [write_buf, List.take_of_length_le h]

theorem write_rem_of_fits (h : data.length ≤ s.rem) :
    (s.write data).1.rem = s.rem - data.length := by
  simp [ByteStream.write, Nat.min_eq_left h]

/-- Write several strings one after another. -/
def writeAll (s : ByteStream) (ws : List (List UInt8)) : ByteStream :=
  ws.foldl (fun s w => (s.write w).1) s

@[simp] theorem writeAll_nil : s.writeAll [] = s := rfl
@[simp] theorem writeAll_cons (w : List UInt8) (ws : List (List UInt8)) :
    s.writeAll (w :: ws) = (s.write w).1.writeAll ws := rfl

theorem writeAll_eof2 (ws : List (List UInt8)) : (s.writeAll ws).eof2 = s.eof2 := by
  induction ws generalizing s with
  | nil => rfl
  | cons w ws ih => rw [writeAll_cons, ih, write_eof2]

theorem writeAll_totRead (ws : List (List UInt8)) : (s.writeAll ws).totRead = s.totRead := by
  induction ws generalizing s with
  | nil => rfl
  | cons w ws ih => rw [writeAll_cons, ih, write_totRead]

theorem writeAll_cap (ws : List (List UInt8)) : (s.writeAll ws).cap = s.cap := by
  induction ws generalizing s with
  | nil => rfl
  | cons w ws ih => rw [writeAll_cons, ih, write_cap]

theorem Consistent.writeAll (h : s.Consistent) (ws : List (List UInt8)) :
    (s.writeAll ws).Consistent := by
  induction ws generalizing s with
  | nil => exact h
  | cons w ws ih => exact ih h.write

theorem writeAll_buf {ws : List (List UInt8)} (h : ws.flatten.length ≤ s.rem) :
    (s.writeAll ws).buf = s.buf ++ ws.flatten := by
  induction ws generalizing s with
  | nil => simp
  | cons w ws ih =>
    rw [List.flatten_cons, List.length_append] at h
    rw [writeAll_cons, ih (by rw [write_rem_of_fits (by omega)]; omega),
      write_buf_of_fits (by omega)]
    simp

theorem writeAll_totWrite {ws : List (List UInt8)} (h : ws.flatten.length ≤ s.rem)
    (hb : s.totWrite + ws.flatten.length < 2 ^ 64) :
    (s.writeAll ws).totWrite = s.totWrite + ws.flatten.length := by
  induction ws generalizing s with
  | nil => simp
  | cons w ws ih =>
    rw [List.flatten_cons, List.length_append] at h hb
    have hw : (s.write w).1.totWrite = s.totWrite + w.length := by
      simp only [ByteStream.write, Nat.min_eq_left (show w.length ≤ s.rem by omega)]
      omega
    rw [writeAll_cons, ih (by rw [write_rem_of_fits (by omega)]; omega) (by omega), hw,
      List.flatten_cons, List.length_append]
    omega

end ByteStream

end Sponge
