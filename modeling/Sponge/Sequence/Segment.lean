import Sponge.Sequence.Wrapping

/-! # TCP segments

The header fields with their defaults, the payload, and the length of a segment
in sequence space, where SYN and FIN take one number each.
-/

namespace Sponge

structure TCPHeader where
  sport : UInt16 := 0
  dport : UInt16 := 0
  seqno : WrappingInt32 := ⟨0⟩
  ackno : WrappingInt32 := ⟨0⟩
  doff : UInt8 := 5
  urg : Bool := false
  ack : Bool := false
  psh : Bool := false
  rst : Bool := false
  syn : Bool := false
  fin : Bool := false
  win : UInt16 := 0
  cksum : UInt16 := 0
  uptr : UInt16 := 0
  deriving DecidableEq, Repr

structure TCPSegment where
  header : TCPHeader := {}
  payload : List UInt8 := []
  deriving DecidableEq, Repr

namespace TCPSegment

def lengthInSequenceSpace (seg : TCPSegment) : ℕ :=
  seg.payload.length + (if seg.header.syn then 1 else 0) + (if seg.header.fin then 1 else 0)

/-- A slice of `S` carried at the number of its position, with FIN only at the end of `S`. -/
structure CutFrom (S : List UInt8) (isn : WrappingInt32) (seg : TCPSegment) (i : ℕ) : Prop where
  syn : seg.header.syn = false
  seqno : seg.header.seqno = wrap (1 + i) isn
  payload : seg.payload = (S.drop i).take seg.payload.length
  le : i + seg.payload.length ≤ S.length
  fin : seg.header.fin = true → i + seg.payload.length = S.length

/-- The segment that opens the stream `S`; it may carry a first slice. -/
structure Opens (S : List UInt8) (isn : WrappingInt32) (seg : TCPSegment) : Prop where
  syn : seg.header.syn = true
  seqno : seg.header.seqno = isn
  payload : seg.payload <+: S
  fin : seg.header.fin = true → seg.payload.length = S.length

/-- As a slice, but an empty segment may carry the number behind the FIN. -/
structure SliceOf (S : List UInt8) (isn : WrappingInt32) (seg : TCPSegment) (i : ℕ) : Prop where
  syn : seg.header.syn = false
  seqno : seg.header.seqno = wrap (1 + i) isn
  payload : seg.payload = (S.drop i).take seg.payload.length
  le : i ≤ S.length + 1
  fin : seg.header.fin = true → i + seg.payload.length = S.length

variable {S : List UInt8} {isn : WrappingInt32} {seg : TCPSegment} {i : ℕ}

theorem CutFrom.sliceOf (h : seg.CutFrom S isn i) : seg.SliceOf S isn i where
  syn := h.syn
  seqno := h.seqno
  payload := h.payload
  le := by have := h.le; omega
  fin := h.fin

theorem SliceOf.add_le (h : seg.SliceOf S isn i) : i + seg.payload.length ≤ max i S.length := by
  have hlen := congrArg List.length h.payload
  rw [List.length_take, List.length_drop] at hlen
  omega

theorem SliceOf.getElem? (h : seg.SliceOf S isn i) {p : ℕ} {b : UInt8} (hp : i ≤ p)
    (hb : seg.payload[p - i]? = some b) : S[p]? = some b := by
  rw [h.payload, List.getElem?_take, List.getElem?_drop] at hb
  split_ifs at hb
  rwa [show i + (p - i) = p by omega] at hb

end TCPSegment

end Sponge
