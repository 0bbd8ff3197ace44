import Sponge.Sequence.Segment
import Sponge.Stream.Reassembler

/-! # The TCP receiver

Segments are placed in the stream by unwrapping their sequence number near the
last index received. The acknowledgment counts the flags seen as long as nothing
waits to be assembled.
-/

namespace Sponge

inductive Status
  | listen | synRecv | finRecv
  deriving DecidableEq, Repr

/-- The number by which the status is represented, and which `ackno` adds. -/
def Status.toNat : Status → ℕ
  | listen => 0
  | synRecv => 1
  | finRecv => 2

structure TCPReceiver where
  reassembler : StreamReassembler
  capacity : ℕ
  isn : WrappingInt32
  cp : ℕ
  status : Status
  deriving DecidableEq, Repr

namespace TCPReceiver

def new (capacity : ℕ) : TCPReceiver where
  reassembler := .new capacity
  capacity := capacity
  isn := ⟨0⟩
  cp := 0
  status := .listen

def segmentReceived (r : TCPReceiver) (seg : TCPSegment) : TCPReceiver :=
  let h := seg.header
  let r :=
    if h.syn then { r with isn := h.seqno, status := .synRecv }
    else { r with cp := sub64 (unwrap h.seqno r.isn r.cp) 1 }
  if r.status = .listen then r
  else
    let r := if h.fin then { r with status := .finRecv } else r
    { r with reassembler := r.reassembler.pushSubstring seg.payload r.cp h.fin }

def ackno (r : TCPReceiver) : Option WrappingInt32 :=
  if r.status = .listen then none
  else
    let unasb := r.reassembler.firstUnasb
    if r.reassembler.unassembledBytes = 0 then some (wrap (unasb + r.status.toNat) r.isn)
    else some (wrap (unasb + Status.synRecv.toNat) r.isn)

def windowSize (r : TCPReceiver) : ℕ := sub64 r.capacity r.reassembler.output.bufferSize

def unassembledBytes (r : TCPReceiver) : ℕ := r.reassembler.unassembledBytes

def streamOut (r : TCPReceiver) : ByteStream := r.reassembler.output

/-- Read bytes from the inbound stream. -/
def read (r : TCPReceiver) (len : ℕ) : TCPReceiver × List UInt8 :=
  ({ r with reassembler := (r.reassembler.read len).1 }, (r.reassembler.read len).2)

def setError (r : TCPReceiver) : TCPReceiver :=
  { r with reassembler := { r.reassembler with output := r.reassembler.output.setError } }

/-- What is done to a receiver: segments arrive and the inbound stream is read. -/
inductive Op
  | segment (seg : TCPSegment)
  | read (len : ℕ)

def step (r : TCPReceiver) : Op → TCPReceiver
  | .segment seg => r.segmentReceived seg
  | .read len => (r.read len).1

/-- The stream index at which the payload of the segment is pushed. -/
def indexOf (r : TCPReceiver) (seg : TCPSegment) : ℕ :=
  if seg.header.syn then r.cp else sub64 (unwrap seg.header.seqno r.isn r.cp) 1

theorem indexOf_lt {r : TCPReceiver} (seg : TCPSegment) (hc : r.cp < 2 ^ 64) :
    r.indexOf seg < 2 ^ 64 := by
  unfold indexOf sub64
  split_ifs
  · exact hc
  · omega

/-- The status once the segment has been received. -/
def statusAfter (r : TCPReceiver) (seg : TCPSegment) : Status :=
  if seg.header.fin then .finRecv else if seg.header.syn then .synRecv else r.status

theorem statusAfter_ne_listen {r : TCPReceiver} {seg : TCPSegment}
    (h : seg.header.syn = true ∨ r.status ≠ .listen) :
    r.statusAfter seg ≠ .listen := by
  unfold statusAfter
  split_ifs with hf hs
  · simp
  · simp
  · exact h.resolve_left hs

theorem segmentReceived_eq {r : TCPReceiver} {seg : TCPSegment}
    (h : seg.header.syn = true ∨ r.status ≠ .listen) :
    r.segmentReceived seg =
      { r with
        reassembler := r.reassembler.pushSubstring seg.payload (r.indexOf seg) seg.header.fin
        isn := if seg.header.syn then seg.header.seqno else r.isn
        cp := r.indexOf seg
        status := r.statusAfter seg } := by
  rcases Bool.eq_false_or_eq_true seg.header.syn with hs | hs
  · rcases Bool.eq_false_or_eq_true seg.header.fin with hf | hf <;>
      simp [segmentReceived, indexOf, statusAfter, hs, hf]
  · have hl : r.status ≠ .listen := h.resolve_left (by simp [hs])
    rcases Bool.eq_false_or_eq_true seg.header.fin with hf | hf <;>
      simp [segmentReceived, indexOf, statusAfter, hs, hf, hl]

theorem segmentReceived_reassembler {r : TCPReceiver} {seg : TCPSegment}
    (h : seg.header.syn = true ∨ r.status ≠ .listen) :
    (r.segmentReceived seg).reassembler =
      r.reassembler.pushSubstring seg.payload (r.indexOf seg) seg.header.fin := by
  rw [segmentReceived_eq h]

theorem segmentReceived_listen {r : TCPReceiver} {seg : TCPSegment}
    (hs : seg.header.syn = false) (hl : r.status = .listen) :
    r.segmentReceived seg = { r with cp := r.indexOf seg } := by
  simp [segmentReceived, indexOf, hs, hl]

theorem ackno_isSome_iff (r : TCPReceiver) : r.ackno.isSome ↔ r.status ≠ .listen := by
  unfold ackno
  split_ifs <;> simp_all

/-- The SYN is counted, and the FIN when one was seen and nothing waits to be assembled. -/
theorem ackno_eq {r : TCPReceiver} (h : r.status ≠ .listen) :
    r.ackno = some (wrap (1 + r.reassembler.firstUnasb +
      if r.status = .finRecv ∧ r.unassembledBytes = 0 then 1 else 0) r.isn) := by
  unfold ackno unassembledBytes
  rw [if_neg h]
  rcases hs : r.status with _ | _ | _
  · exact absurd hs h
  · simp [Status.toNat, add_comm]
  · simp only [Status.toNat, true_and]
    split_ifs <;> congr 2 <;> omega

end TCPReceiver

end Sponge
