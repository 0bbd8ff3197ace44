import Sponge.Sequence.Segment
import Sponge.Stream.ByteStream

/-! # The TCP sender

Bytes of the outbound stream are cut into segments as far as the window allows.
A segment stays outstanding until it is acknowledged whole, and the oldest expired
one is sent again.
-/

namespace Sponge

def maxPayloadSize : ℕ := 1000

/-- Insertion into an ordered multimap: behind the entries whose key is not larger. -/
def multimapInsert {β : Type} (k : ℕ) (v : β) (m : List (ℕ × β)) : List (ℕ × β) :=
  m.takeWhile (fun c => c.1 ≤ k) ++ (k, v) :: m.dropWhile (fun c => c.1 ≤ k)

theorem perm_multimapInsert {β : Type} {k : ℕ} {v : β} {m : List (ℕ × β)} :
    (multimapInsert k v m).Perm ((k, v) :: m) := by
  unfold multimapInsert
  conv_rhs => rw [← List.takeWhile_append_dropWhile (p := fun c => decide (c.1 ≤ k)) (l := m)]
  exact List.perm_middle

/-- `outstanding` maps the time of sending to the time of expiry and the segment. -/
structure TCPSender where
  isn : WrappingInt32
  segmentsOut : List TCPSegment
  initialRetransmissionTimeout : UInt32
  stream : ByteStream
  nextSeqno : ℕ
  now : ℕ
  window : ℤ
  acked : ℕ
  outstanding : List (ℕ × ℕ × TCPSegment)
  rto : UInt32
  crtx : UInt32
  finSent : Bool
  zeroWindow : Bool
  deriving DecidableEq, Repr

namespace TCPSender

def new (capacity : UInt64) (retxTimeout : UInt16) (isn : WrappingInt32) : TCPSender where
  isn := isn
  segmentsOut := []
  initialRetransmissionTimeout := retxTimeout.toUInt32
  stream := .new capacity.toNat
  nextSeqno := 0
  now := 0
  window := -1
  acked := 0
  outstanding := []
  rto := retxTimeout.toUInt32
  crtx := 0
  finSent := false
  zeroWindow := false

/-- The segments that are outstanding. -/
def inFlight (s : TCPSender) : List TCPSegment := s.outstanding.map fun c => c.2.2

def bytesInFlight (s : TCPSender) : ℕ :=
  (s.inFlight.map TCPSegment.lengthInSequenceSpace).sum

/-- The time at which a segment sent now expires. -/
def expiry (s : TCPSender) : ℕ := (s.now + s.rto.toNat) % 2 ^ 64

/-- Queue a segment and keep it as outstanding. -/
def push (s : TCPSender) (seg : TCPSegment) : TCPSender :=
  { s with
    segmentsOut := s.segmentsOut ++ [seg]
    outstanding := multimapInsert s.now (s.expiry, seg) s.outstanding }

/-- Push a segment that takes `n` sequence numbers and leaves `stream` to be sent. -/
def emit (s : TCPSender) (stream : ByteStream) (seg : TCPSegment) (n : ℕ) : TCPSender :=
  { s.push seg with
    stream := stream
    nextSeqno := (s.nextSeqno + n) % 2 ^ 64
    finSent := s.finSent || seg.header.fin
    crtx := 0 }

/-- The first position past the window of the peer. -/
def limit (s : TCPSender) : ℕ := ((s.acked + s.window) % 2 ^ 64).toNat

/-- The loop of `fillWindow`; every turn that is followed by another one takes bytes from the
stream, so `fuel` bounds their number. -/
def fillLoop : ℕ → TCPSender → TCPSender
  | 0, s => s
  | fuel + 1, s =>
    if s.nextSeqno < s.limit then
      let room := sub64 s.limit s.nextSeqno
      let len := min maxPayloadSize (min s.stream.bufferSize room)
      if len = 0 then
        if s.stream.eof = true ∧ 0 < room then
          s.emit s.stream { header := { seqno := wrap s.nextSeqno s.isn, fin := true } } 1
        else s
      else
        let data := (s.stream.read len).2
        let stream := (s.stream.read len).1
        let fin := stream.eof && decide (data.length < room)
        let s := s.emit stream
          { header := { seqno := wrap s.nextSeqno s.isn, fin := fin }, payload := data }
          (len + if fin then 1 else 0)
        if fin then s else fillLoop fuel s
    else s

/-- Send segments to fill as much of the window as possible. -/
def fillWindow (s : TCPSender) : TCPSender :=
  if s.finSent then s
  else if s.window = -1 then
    let eof := s.stream.eof
    let s := { s with window := 1 }.push
      { header := { seqno := s.isn, syn := true, fin := eof } }
    if eof then { s with finSent := true, nextSeqno := 2 } else { s with nextSeqno := 1 }
  else s.fillLoop (s.stream.buf.length + 1)

/-- Is the segment acknowledged whole? -/
def isAcked (isn : WrappingInt32) (acked : ℕ) (seg : TCPSegment) : Bool :=
  (unwrap seg.header.seqno isn acked + seg.lengthInSequenceSpace) % 2 ^ 64 ≤ acked

def ackReceived (s : TCPSender) (ackno : WrappingInt32) (windowSize : UInt16) : TCPSender :=
  let ackno64 := unwrap ackno s.isn s.acked
  if s.nextSeqno < ackno64 then s
  else if s.acked ≤ ackno64 then
    let isNew := decide (s.acked < ackno64)
    let s :=
      { s with
        rto := if isNew then s.initialRetransmissionTimeout else s.rto
        acked := ackno64
        window := max 1 windowSize.toNat
        zeroWindow := windowSize == 0 }
    { s with
      outstanding := (s.outstanding.filter fun c => !isAcked s.isn s.acked c.2.2).map fun c =>
        if isNew then (c.1, s.expiry, c.2.2) else c }
  else s

/-- Of the expired entries, the first one with the lowest sequence number. The iterator of the
code is left unset when all their numbers are 2^64 - 1; there is none then. -/
def oldest (s : TCPSender) (iters : List ((ℕ × ℕ × TCPSegment) × ℕ)) :
    Option ((ℕ × ℕ × TCPSegment) × ℕ) :=
  (iters.foldl (fun best c =>
    let absSeq := unwrap c.1.2.2.header.seqno s.isn s.acked
    if absSeq < best.1 then (absSeq, some c) else best) (2 ^ 64 - 1, none)).2

/-- Let time pass, and send the oldest expired segment again. -/
def tick (s : TCPSender) (msSinceLastTick : ℕ) : TCPSender :=
  let s := { s with now := (s.now + msSinceLastTick) % 2 ^ 64 }
  let iters := s.outstanding.zipIdx.filter fun c => c.1.2.1 ≤ s.now
  let s := { s with rto := if !iters.isEmpty && !s.zeroWindow then s.rto * 2 else s.rto }
  match s.oldest iters with
  | none => s
  | some (c, i) =>
    let s := { s with outstanding := s.outstanding.eraseIdx i, crtx := s.crtx + 1 }.push c.2.2
    { s with outstanding := s.outstanding.map fun c => (c.1, s.expiry, c.2.2) }

def consecutiveRetransmissions (s : TCPSender) : UInt32 := s.crtx

def sendEmptySegment (s : TCPSender) : TCPSender :=
  { s with
    segmentsOut := s.segmentsOut ++ [{ header := { seqno := wrap s.nextSeqno s.isn } }]
    crtx := 0 }

def nextSeqnoAbsolute (s : TCPSender) : ℕ := s.nextSeqno

/-- The relative sequence number of the next byte to be sent. -/
def relativeNextSeqno (s : TCPSender) : WrappingInt32 := wrap s.nextSeqno s.isn

end TCPSender

end Sponge
