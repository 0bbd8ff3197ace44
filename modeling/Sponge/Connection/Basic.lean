import Sponge.Receiver.Basic
import Sponge.Sender.Basic

/-! # One endpoint of a connection

The endpoint feeds arriving segments to its receiver and its sender, and puts the
acknowledgment and the window of the receiver into what the sender has queued. It
decides from their states when the connection is over.
-/

namespace Sponge

def maxRetxAttempts : UInt32 := 8

/-- The configuration; `isn` is the fixed initial sequence number, or the one drawn at random. -/
structure TCPConfig where
  rtTimeout : UInt16 := 1000
  recvCapacity : UInt64 := 64000
  sendCapacity : UInt64 := 64000
  isn : WrappingInt32
  deriving DecidableEq, Repr

/-- An endpoint; `segmentsOut` keeps what its owner has taken from the queue, too. -/
structure TCPConnection where
  cfg : TCPConfig
  receiver : TCPReceiver
  sender : TCPSender
  segmentsOut : List TCPSegment
  lingerAfterStreamsFinish : Bool
  tnow : ℕ
  tlast : ℕ
  tlastsent : ℕ
  active : Bool
  finreceived : Bool
  finsent : Bool
  deriving DecidableEq, Repr

namespace TCPConnection

def new (cfg : TCPConfig) : TCPConnection where
  cfg := cfg
  receiver := .new cfg.recvCapacity.toNat
  sender := .new cfg.sendCapacity cfg.rtTimeout cfg.isn
  segmentsOut := []
  lingerAfterStreamsFinish := true
  tnow := 0
  tlast := 0
  tlastsent := 0
  active := true
  finreceived := false
  finsent := false

def remainingOutboundCapacity (c : TCPConnection) : ℕ := c.sender.stream.remainingCapacity

def bytesInFlight (c : TCPConnection) : ℕ := c.sender.bytesInFlight

def unassembledBytes (c : TCPConnection) : ℕ := c.receiver.unassembledBytes

def timeSinceLastSegmentReceived (c : TCPConnection) : ℕ := sub64 c.tnow c.tlast

def inboundStream (c : TCPConnection) : ByteStream := c.receiver.streamOut

/-- Fill in the fields that the receiver sets. -/
def stamp (c : TCPConnection) (seg : TCPSegment) : TCPSegment :=
  let header :=
    match c.receiver.ackno with
    | some ackno => { seg.header with ack := true, ackno := ackno }
    | none => seg.header
  { seg with
    header :=
      { header with
        win := if 65535 < c.cfg.recvCapacity then 65535 else c.cfg.recvCapacity.toUInt16 } }

/-- Move one segment from the queue of the sender to that of the connection. -/
def sendOne (c : TCPConnection) (seg : TCPSegment) : TCPConnection :=
  { c with
    segmentsOut := c.segmentsOut ++ [c.stamp seg]
    tlastsent := c.tnow
    finsent := c.finsent || seg.header.fin }

/-- Returns how many segments were sent, too. -/
def fillWindowAndSend (c : TCPConnection) : TCPConnection × ℕ :=
  let sender := c.sender.fillWindow
  let queue := sender.segmentsOut
  (queue.foldl sendOne { c with sender := { sender with segmentsOut := [] } }, queue.length)

def sendRST (c : TCPConnection) : TCPConnection :=
  let sender := c.sender.sendEmptySegment
  match sender.segmentsOut with
  | [] => c
  | seg :: queue =>
    { c with
      active := false
      sender := { sender with segmentsOut := queue, stream := sender.stream.setError }
      receiver := c.receiver.setError
      segmentsOut := c.segmentsOut ++ [{ seg with header := { seg.header with rst := true } }] }

/-- Is the segment dropped, because the connection is over or still waits for a SYN? -/
def ignores (c : TCPConnection) (seg : TCPSegment) : Bool :=
  !c.active || (c.sender.bytesInFlight == 0 && !c.sender.stream.eof && c.receiver.ackno.isNone &&
    !seg.header.syn)

/-- Close at once when all is done but for this acknowledgment of the FIN. -/
def passiveClose (c : TCPConnection) (seg : TCPSegment) : TCPConnection :=
  if !c.lingerAfterStreamsFinish && c.sender.stream.eof && c.sender.bytesInFlight == 0 then
    if seg.header.ack && seg.header.ackno == c.sender.relativeNextSeqno then
      { c with active := false }
    else c
  else c

def acceptsRst (c : TCPConnection) (seg : TCPSegment) : Bool :=
  seg.header.rst &&
    (c.receiver.ackno.isNone || c.receiver.ackno == some seg.header.seqno)

def reset (c : TCPConnection) : TCPConnection :=
  { c with
    sender := { c.sender with stream := c.sender.stream.setError }
    receiver := c.receiver.setError
    active := false }

/-- A FIN that comes before the own one was sent makes the connection close without lingering. -/
def noteFin (c : TCPConnection) (seg : TCPSegment) : TCPConnection :=
  if seg.header.fin then
    { c with
      finreceived := true
      lingerAfterStreamsFinish := if !c.finsent then false else c.lingerAfterStreamsFinish }
  else c

/-- Hand the segment to the receiver, and its acknowledgment to the sender. -/
def takeIn (c : TCPConnection) (seg : TCPSegment) : TCPConnection :=
  { c with
    tlast := c.tnow
    receiver := c.receiver.segmentReceived seg
    sender :=
      if seg.header.ack then c.sender.ackReceived seg.header.ackno seg.header.win else c.sender }

/-- Send what can be sent, and at least an acknowledgment of a segment that takes numbers. -/
def reply (c : TCPConnection) (seg : TCPSegment) : TCPConnection :=
  let seqoccupied := !seg.payload.isEmpty || seg.header.syn || seg.header.fin
  let sent := c.fillWindowAndSend
  if sent.2 == 0 && seqoccupied then
    ({ sent.1 with sender := sent.1.sender.sendEmptySegment }).fillWindowAndSend.1
  else sent.1

def closeIfDone (c : TCPConnection) (seg : TCPSegment) : TCPConnection :=
  if !c.lingerAfterStreamsFinish && c.sender.stream.eof && c.sender.bytesInFlight == 0 then
    if seg.header.ack then { c with active := false } else c
  else c

def segmentReceived (c : TCPConnection) (seg : TCPSegment) : TCPConnection :=
  if c.ignores seg then c
  else
    let c := c.passiveClose seg
    if c.acceptsRst seg then c.reset
    else (((c.noteFin seg).takeIn seg).reply seg).closeIfDone seg

def write (c : TCPConnection) (data : List UInt8) : TCPConnection × ℕ :=
  if c.active then
    let stream := c.sender.stream.write data
    (({ c with sender := { c.sender with stream := stream.1 } }).fillWindowAndSend.1, stream.2)
  else (c, 0)

/-- Has the time of lingering run out, once both streams are taken to be finished? -/
def timesOut (c : TCPConnection) (tnow : ℕ) : Bool :=
  c.sender.bytesInFlight == 0 && c.sender.stream.eof &&
    decide (10 * c.cfg.rtTimeout.toNat ≤ sub64 tnow c.tlastsent)

/-- Close once the time of lingering has run out. -/
def lingerOver (c : TCPConnection) : TCPConnection :=
  if c.timesOut c.tnow then { c with lingerAfterStreamsFinish := false, active := false } else c

def tick (c : TCPConnection) (msSinceLastTick : ℕ) : TCPConnection :=
  if !c.active then c
  else if c.sender.bytesInFlight == 0 && !c.sender.stream.eof && c.receiver.ackno.isNone then c
  else
    let c := ({ c with tnow := (c.tnow + msSinceLastTick) % 2 ^ 64 }).lingerOver
    let c := { c with sender := c.sender.tick msSinceLastTick }
    if maxRetxAttempts < c.sender.consecutiveRetransmissions then c.sendRST
    else c.fillWindowAndSend.1

def endInputStream (c : TCPConnection) : TCPConnection :=
  if c.active then
    ({ c with sender := { c.sender with stream := c.sender.stream.endInput } }).fillWindowAndSend.1
  else c

def connect (c : TCPConnection) : TCPConnection := c.fillWindowAndSend.1

/-- Read bytes from the inbound stream. -/
def read (c : TCPConnection) (len : ℕ) : TCPConnection × List UInt8 :=
  ({ c with receiver := (c.receiver.read len).1 }, (c.receiver.read len).2)

/-- What is done to an endpoint. -/
inductive Op
  | connect
  | write (data : List UInt8)
  | endInputStream
  | tick (ms : ℕ)
  | read (len : ℕ)
  | segment (seg : TCPSegment)
  deriving DecidableEq, Repr

def step (c : TCPConnection) : Op → TCPConnection
  | .connect => c.connect
  | .write data => (c.write data).1
  | .endInputStream => c.endInputStream
  | .tick ms => c.tick ms
  | .read len => (c.read len).1
  | .segment seg => c.segmentReceived seg

end TCPConnection

end Sponge
