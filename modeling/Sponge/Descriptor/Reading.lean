import Sponge.Descriptor.Writing
import Sponge.Library.Runs

/-! # File descriptors

A descriptor remembers that it has reached its end, and counts how often it was read and written.
A read asks for at most one mebibyte, so what the kernel reports about it fits into an `int`.
-/

namespace Sponge

open Runs

structure FileDescriptor where
  fdNum : Int32 := 0
  eof : Bool := false
  closed : Bool := false
  readCount : UInt32 := 0
  writeCount : UInt32 := 0
  deriving DecidableEq, Repr

/-- An error of the kernel. -/
abbrev Errno := {errno : Int32 // errno ≠ 0}

/-- Make a system call that returns nothing of use, and may be refused. -/
def checked (attempt : String) (refusal : Option Errno) : Except Exception Unit := do
  let _ ← systemCall attempt (if refusal.isSome then -1 else 0) (refusal.elim 0 Subtype.val)
  return ()

@[simp] theorem checked_none (attempt : String) : checked attempt none = .ok () := rfl

@[simp] theorem checked_some (attempt : String) (errno : Errno) :
    checked attempt (some errno) = .error (.unixError attempt errno) := by
  have hfails : systemCall attempt (-1) errno = .error (.unixError attempt errno) := by
    rw [systemCall, if_neg]
    rintro (hnonneg | hzero)
    · exact absurd hnonneg (by decide)
    · exact errno.2 hzero
  exact bind_error_iff.mpr (Or.inl hfails)

theorem checked_error_iff {attempt : String} {refusal : Option Errno} {e : Exception} :
    checked attempt refusal = .error e ↔ ∃ errno ∈ refusal, e = .unixError attempt errno := by
  cases refusal <;> simp [eq_comm]

/-- What a call of `read` leaves: the value that it returns, `errno`, and the bytes it stored. -/
structure ReadAnswer where
  ret : Int64
  errno : Int32 := 0
  stored : Buffer := []
  deriving DecidableEq, Repr

/-- The kernel stores no more than `size` bytes and returns their number, or an error. -/
structure ReadAnswer.Honest (answer : ReadAnswer) (size : ℕ) : Prop where
  stored : 0 ≤ answer.ret.toInt → answer.stored.length = answer.ret.toInt.toNat
  le : answer.ret.toInt ≤ size
  failed : answer.ret.toInt < 0 → answer.ret = -1 ∧ answer.errno ≠ 0

/-- The kernel takes some of the bytes of `buffer` if there are any, or returns an error. -/
structure Answer.Honest (answer : Answer) (buffer : Buffer) : Prop where
  le : answer.ret.toInt ≤ buffer.length
  some : answer.ret.toInt = 0 → buffer = []
  failed : answer.ret.toInt < 0 → answer.ret = -1 ∧ answer.errno ≠ 0

instance (answer : ReadAnswer) (size : ℕ) : Decidable (answer.Honest size) :=
  decidable_of_iff ((0 ≤ answer.ret.toInt → answer.stored.length = answer.ret.toInt.toNat) ∧
      answer.ret.toInt ≤ size ∧ (answer.ret.toInt < 0 → answer.ret = -1 ∧ answer.errno ≠ 0))
    ⟨fun h => ⟨h.1, h.2.1, h.2.2⟩, fun h => ⟨h.stored, h.le, h.failed⟩⟩

instance (answer : Answer) (buffer : Buffer) : Decidable (answer.Honest buffer) :=
  decidable_of_iff (answer.ret.toInt ≤ buffer.length ∧ (answer.ret.toInt = 0 → buffer = []) ∧
      (answer.ret.toInt < 0 → answer.ret = -1 ∧ answer.errno ≠ 0))
    ⟨fun h => ⟨h.1, h.2.1, h.2.2⟩, fun h => ⟨h.le, h.some, h.failed⟩⟩

namespace FileDescriptor

def registerRead (fd : FileDescriptor) : FileDescriptor :=
  { fd with readCount := fd.readCount + 1 }

def registerWrite (fd : FileDescriptor) : FileDescriptor :=
  { fd with writeCount := fd.writeCount + 1 }

/-- The maximum size of a read. -/
def bufferSize : ℕ := 1024 * 1024

def sizeToRead (limit : ℕ) : ℕ := min bufferSize limit

/-- The string has the size that was asked for, and is cut to what was returned. An honest kernel
returns no negative number without setting `errno`. -/
def read (fd : FileDescriptor) (answer : ReadAnswer) (limit : ℕ) :
    Except Exception (FileDescriptor × Buffer) := do
  let bytesRead ← systemCall "read" answer.ret.toInt32 answer.errno
  let fd := if 0 < limit ∧ bytesRead = 0 then { fd with eof := true } else fd
  if (sizeToRead limit : ℤ) < bytesRead then
    .error (.runtimeError "read() read more than requested")
  else
    let str := answer.stored ++ List.replicate (sizeToRead limit - answer.stored.length) 0
    return (fd.registerRead, str.take bytesRead.toNat)

/-- Write a buffer without insisting that all of it is written. What the kernel takes is returned
beside the number that is reported. -/
def write (fd : FileDescriptor) (answer : Answer) (buffer : BufferViewList) :
    Except Exception (FileDescriptor × ℕ × Buffer) := do
  let kernel : Kernel Unit := { writev := fun _ _ => answer, next := fun _ _ => () }
  let w ← kernel.turn (Kernel.begin () buffer)
  return (fd.registerWrite, w.totalBytesWritten, w.taken)

/-- `Socket::shutdown` with `SHUT_WR`. -/
def shutdownWrite (fd : FileDescriptor) (refusal : Option Errno) :
    Except Exception FileDescriptor := do
  checked "shutdown" refusal
  return fd.registerWrite

/-- `FDWrapper::close`. -/
def close (fd : FileDescriptor) (refusal : Option Errno) : Except Exception FileDescriptor := do
  checked "close" refusal
  return { fd with eof := true, closed := true }

/-- `set_blocking` asks for the flags of a descriptor and sets them. The flags are the kernel's. -/
def setBlocking (fd : FileDescriptor) (getfl setfl : Option Errno) :
    Except Exception FileDescriptor := do
  checked "fcntl" getfl
  checked "fcntl" setfl
  return fd

variable {fd : FileDescriptor} {answer : ReadAnswer} {limit : ℕ}

theorem sizeToRead_le : sizeToRead limit ≤ 2 ^ 20 := by
  unfold sizeToRead bufferSize
  omega

theorem count_ne (n : UInt32) : n + 1 ≠ n ∧ n + 1 + 1 ≠ n := by
  have hn := n.toNat_lt
  constructor <;>
    · intro h
      have hnat := congrArg UInt32.toNat h
      simp only [UInt32.toNat_add, UInt32.reduceToNat] at hnat
      omega

theorem read_counts {fd' : FileDescriptor} {data : Buffer}
    (h : fd.read answer limit = .ok (fd', data)) : fd'.readCount = fd.readCount + 1 := by
  obtain ⟨bytesRead, -, h⟩ := bind_ok_iff.mp h
  split_ifs at h <;>
    · cases h
      rfl

theorem write_counts {fd' : FileDescriptor} {written : Answer} {views : BufferViewList}
    {result : ℕ × Buffer} (h : fd.write written views = .ok (fd', result)) :
    fd' = fd.registerWrite := by
  obtain ⟨w, -, h⟩ := bind_ok_iff.mp h
  cases h
  rfl

theorem checked_bind_error {attempt : String} {refusal : Option Errno} {e : Exception}
    {fd' : FileDescriptor} : (checked attempt refusal >>= fun _ => pure fd') = .error e ↔
      ∃ errno ∈ refusal, e = .unixError attempt errno := by
  cases refusal <;> simp [bind, Except.bind, pure, Except.pure, eq_comm]

theorem shutdownWrite_ok {refusal : Option Errno} {fd' : FileDescriptor}
    (h : fd.shutdownWrite refusal = .ok fd') : fd' = fd.registerWrite := by
  obtain ⟨-, -, h⟩ := bind_ok_iff.mp h
  exact (Except.ok.inj h).symm

theorem close_ok {refusal : Option Errno} {fd' : FileDescriptor}
    (h : fd.close refusal = .ok fd') : fd' = { fd with eof := true, closed := true } := by
  obtain ⟨-, -, h⟩ := bind_ok_iff.mp h
  exact (Except.ok.inj h).symm

theorem shutdownWrite_error_iff {refusal : Option Errno} {e : Exception} :
    fd.shutdownWrite refusal = .error e ↔ ∃ errno ∈ refusal, e = .unixError "shutdown" errno :=
  checked_bind_error

theorem close_error_iff {refusal : Option Errno} {e : Exception} :
    fd.close refusal = .error e ↔ ∃ errno ∈ refusal, e = .unixError "close" errno :=
  checked_bind_error

theorem setBlocking_ok {getfl setfl : Option Errno} {fd' : FileDescriptor}
    (h : fd.setBlocking getfl setfl = .ok fd') : fd' = fd := by
  obtain ⟨-, -, h⟩ := bind_ok_iff.mp h
  obtain ⟨-, -, h⟩ := bind_ok_iff.mp h
  exact (Except.ok.inj h).symm

theorem setBlocking_error {getfl setfl : Option Errno} {e : Exception}
    (h : fd.setBlocking getfl setfl = .error e) :
    ∃ errno, (getfl = some errno ∨ setfl = some errno) ∧ e = .unixError "fcntl" errno := by
  rcases bind_error_iff.mp h with h | ⟨-, -, h⟩
  · obtain ⟨errno, hget, rfl⟩ := checked_error_iff.mp h
    exact ⟨errno, Or.inl hget, rfl⟩
  · obtain ⟨errno, hset, rfl⟩ := checked_bind_error.mp h
    exact ⟨errno, Or.inr hset, rfl⟩

theorem toInt_toInt32 {x : Int64} (h : 0 ≤ x.toInt) (hle : x.toInt ≤ sizeToRead limit) :
    x.toInt32.toInt = x.toInt := by
  have hsize : sizeToRead limit ≤ 2 ^ 20 := sizeToRead_le
  rcases toInt32_cases h with ⟨-, heq⟩ | ⟨hlarge, -⟩ | ⟨hlarge, -⟩
  · exact heq
  · omega
  · omega

theorem read_ok (h : answer.Honest (sizeToRead limit)) (hret : 0 ≤ answer.ret.toInt) :
    fd.read answer limit = .ok
      (({ fd with eof := fd.eof || decide (0 < limit ∧ answer.stored = []) } :
        FileDescriptor).registerRead, answer.stored) := by
  have hexact := toInt_toInt32 hret h.le
  have hlen := h.stored hret
  have hle := h.le
  unfold read systemCall
  rw [hexact, if_pos (Or.inl hret)]
  simp only [bind, Except.bind]
  rw [if_neg (by omega), ← hlen, List.take_left]
  have hnil : answer.ret.toInt = 0 ↔ answer.stored = [] := by
    rw [← List.length_eq_zero_iff]
    omega
  by_cases hend : 0 < limit ∧ answer.stored = []
  · rw [if_pos (by rwa [hnil]), decide_eq_true hend, Bool.or_true]
    rfl
  · rw [if_neg (by rwa [hnil]), decide_eq_false hend, Bool.or_false]
    rfl

theorem read_error (h : answer.Honest (sizeToRead limit)) (hret : answer.ret.toInt < 0) :
    fd.read answer limit = .error (.unixError "read" answer.errno) := by
  obtain ⟨hminus, herrno⟩ := h.failed hret
  unfold read systemCall
  rw [hminus, if_neg]
  · rfl
  · rintro (hnonneg | hzero)
    · exact absurd hnonneg (by decide)
    · exact herrno hzero

variable {written : Answer} {buffer : Buffer}

theorem write_ok (h : written.Honest buffer) (hret : 0 ≤ written.ret.toInt)
    (hlen : buffer.length < 2 ^ 31) :
    fd.write written [buffer] = .ok
      (fd.registerWrite, written.ret.toInt.toNat, buffer.take written.ret.toInt.toNat) := by
  have hle := h.le
  let kernel : Kernel Unit := { writev := fun _ _ => written, next := fun _ _ => () }
  let w : Writing Unit := Kernel.begin () [buffer]
  have hcontent : w.buffer.content = buffer := List.append_nil _
  have hexact : (kernel.answer w).ret.toInt32.toInt = written.ret.toInt := by
    change written.ret.toInt32.toInt = _
    rcases toInt32_cases hret with ⟨-, heq⟩ | ⟨hlarge, -⟩ | ⟨hlarge, -⟩
    · exact heq
    · omega
    · omega
  obtain ⟨w', hturn, hturned⟩ := Kernel.turned_of_arrives (by rw [hcontent]; omega) hexact hret
    (by rw [hcontent]; exact hle) (fun hzero => hcontent.trans (h.some hzero))
  have htotal : w'.totalBytesWritten = written.ret.toInt.toNat := by
    rw [hturned.total]
    change (0 + _) % 2 ^ 64 = _
    omega
  have htaken : w'.taken = buffer.take written.ret.toInt.toNat := by
    have hoffered : w.buffer.offered = [buffer] := rfl
    rw [hturned.taken, hoffered]
    change [] ++ (BufferViewList.content [buffer]).take _ = _
    rw [List.nil_append]
    exact congrArg (List.take _) hcontent
  change (kernel.turn w >>= _) = _
  rw [hturn]
  change Except.ok (fd.registerWrite, w'.totalBytesWritten, w'.taken) = _
  rw [htotal, htaken]

theorem write_error (h : written.Honest buffer) (hret : written.ret.toInt < 0) :
    fd.write written [buffer] = .error (.unixError "writev" written.errno) := by
  obtain ⟨hminus, herrno⟩ := h.failed hret
  have hsystem : systemCall "writev" written.ret.toInt32 written.errno =
      .error (.unixError "writev" written.errno) := by
    rw [systemCall, hminus, if_neg]
    rintro (hnonneg | hzero)
    · exact absurd hnonneg (by decide)
    · exact herrno hzero
  unfold write Kernel.turn
  simp only [Kernel.answer, hsystem]
  rfl

end FileDescriptor

end Sponge
