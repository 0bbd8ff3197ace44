import Sponge.Connection.Basic

/-! # The official states

A connection has no state of its own: its state is a summary of its sender and its receiver,
and of whether it is active and lingers. The official states are summaries of this kind, and no
two of them are alike.
-/

namespace Sponge

inductive TCPReceiverStateSummary
  | error | listen | synRecv | finRecv
  deriving DecidableEq, Repr

def TCPReceiverStateSummary.text : TCPReceiverStateSummary → String
  | error => "error (connection was reset)"
  | listen => "waiting for SYN: ackno is empty"
  | synRecv => "SYN received (ackno exists), and input to stream hasn't ended"
  | finRecv => "input to stream has ended"

inductive TCPSenderStateSummary
  | error | closed | synSent | synAcked | finSent | finAcked
  deriving DecidableEq, Repr

def TCPSenderStateSummary.text : TCPSenderStateSummary → String
  | error => "error (connection was reset)"
  | closed => "waiting for stream to begin (no SYN sent)"
  | synSent => "stream started but nothing acknowledged"
  | synAcked => "stream ongoing"
  | finSent => "stream finished (FIN sent) but not fully acknowledged"
  | finAcked => "stream finished and fully acknowledged"

/-- The code compares the texts, which tell the summaries apart. -/
theorem TCPReceiverStateSummary.text_inj (s t : TCPReceiverStateSummary) :
    s.text = t.text ↔ s = t := by
  cases s <;> cases t <;> decide

theorem TCPSenderStateSummary.text_inj (s t : TCPSenderStateSummary) :
    s.text = t.text ↔ s = t := by
  cases s <;> cases t <;> decide

structure TCPState where
  sender : TCPSenderStateSummary
  receiver : TCPReceiverStateSummary
  active : Bool := true
  lingerAfterStreamsFinish : Bool := true
  deriving DecidableEq, Repr

namespace TCPState

/-- The states of the specification. -/
inductive State
  | listen | synRcvd | synSent | established | closeWait | lastAck | finWait1 | finWait2 | closing
  | timeWait | closed | reset
  deriving DecidableEq, Repr

def official : State → TCPState
  | .listen => { receiver := .listen, sender := .closed }
  | .synRcvd => { receiver := .synRecv, sender := .synSent }
  | .synSent => { receiver := .listen, sender := .synSent }
  | .established => { receiver := .synRecv, sender := .synAcked }
  | .closeWait =>
    { receiver := .finRecv, sender := .synAcked, lingerAfterStreamsFinish := false }
  | .lastAck => { receiver := .finRecv, sender := .finSent, lingerAfterStreamsFinish := false }
  | .closing => { receiver := .finRecv, sender := .finSent }
  | .finWait1 => { receiver := .synRecv, sender := .finSent }
  | .finWait2 => { receiver := .synRecv, sender := .finAcked }
  | .timeWait => { receiver := .finRecv, sender := .finAcked }
  | .reset =>
    { receiver := .error, sender := .error, lingerAfterStreamsFinish := false, active := false }
  | .closed =>
    { receiver := .finRecv, sender := .finAcked, lingerAfterStreamsFinish := false
      active := false }

/-- A truth value as it is printed. -/
def bit (b : Bool) : String := if b then "1" else "0"

def name (s : TCPState) : String :=
  "sender=`" ++ s.sender.text ++ "`, receiver=`" ++ s.receiver.text ++ "`, active=" ++
    bit s.active ++ ", linger_after_streams_finish=" ++ bit s.lingerAfterStreamsFinish

end TCPState

def TCPReceiver.stateSummary (r : TCPReceiver) : TCPReceiverStateSummary :=
  if r.streamOut.error then .error
  else if r.ackno.isNone then .listen
  else if r.streamOut.inputEnded then .finRecv
  else .synRecv

def TCPSender.stateSummary (s : TCPSender) : TCPSenderStateSummary :=
  if s.stream.error then .error
  else if s.nextSeqnoAbsolute = 0 then .closed
  else if s.nextSeqnoAbsolute = s.bytesInFlight then .synSent
  else if !s.stream.eof then .synAcked
  else if s.nextSeqnoAbsolute < (s.stream.bytesWritten + 2) % 2 ^ 64 then .synAcked
  else if s.bytesInFlight ≠ 0 then .finSent
  else .finAcked

def TCPState.of (sender : TCPSender) (receiver : TCPReceiver) (active linger : Bool) :
    TCPState where
  sender := sender.stateSummary
  receiver := receiver.stateSummary
  active := active
  lingerAfterStreamsFinish := if active then linger else false

def TCPConnection.state (c : TCPConnection) : TCPState :=
  .of c.sender c.receiver c.active c.lingerAfterStreamsFinish

/-- A connection that has just been opened waits for the SYN of its peer, whatever its
configuration. -/
theorem TCPConnection.state_connect (cfg : TCPConfig) :
    (new cfg).connect.state = TCPState.official .synSent := by
  have heof : (ByteStream.new cfg.sendCapacity.toNat).eof = false := Bool.and_false _
  have hfill : (TCPSender.new cfg.sendCapacity cfg.rtTimeout cfg.isn).fillWindow =
      { ({ TCPSender.new cfg.sendCapacity cfg.rtTimeout cfg.isn with window := 1 } : TCPSender).push
          { header := { seqno := cfg.isn, syn := true } } with nextSeqno := 1 } := by
    simp [TCPSender.fillWindow, TCPSender.new, heof]
  rw [connect, fillWindowAndSend]
  simp only [new, hfill]
  rfl

end Sponge
