import Sponge.Adapter.Basic
import Sponge.Connection.State
import Sponge.Descriptor.Reading
import Sponge.Network.Basic

/-! # The socket

The thread of a socket moves bytes between its owner and a connection, and segments between the
connection and an adapter. What it does is a sequence of operations of the connection.
-/

namespace Sponge

open Runs

/-- A socket with its connection; `sent` counts the segments that have left the queue of the
connection. The bytes taken from the owner and given to it are recorded. -/
structure TCPSpongeSocket (α : Type) where
  tcp : TCPConnection
  datagramAdapter : α
  adapterFd : FileDescriptor := {}
  threadData : FileDescriptor := {}
  outboundShutdown : Bool := false
  inboundShutdown : Bool := false
  sent : ℕ := 0
  taken : Buffer := []
  given : Buffer := []
  deriving DecidableEq, Repr

namespace TCPSpongeSocket

/-- What happens in the thread of a socket, and how the kernel and the network answer. A refusal is
one of the writes to the device, or of the shutdown of the owner's side. -/
inductive Event (ω : Type)
  | receive (item : Except Errno ω) (refusal : Option Refusal := none)
  | takeFromOwner (answer : ReadAnswer)
  | cancelOutbound
  | giveToOwner (answer : Answer) (refusal : Option Errno := none)
  | send (refusal : Option Refusal := none)
  | tick (ms : ℕ) (refusal : Option Refusal := none)
  deriving DecidableEq, Repr

variable {α ω : Type} (A : DatagramAdapter α ω)

/-- The segments that wait to be sent. -/
def segmentsQueued (s : TCPSpongeSocket α) : List TCPSegment := s.tcp.segmentsOut.drop s.sent

/-- The descriptor of the adapter after `n` writes. -/
def registerWrites (fd : FileDescriptor) (n : ℕ) : FileDescriptor :=
  { fd with writeCount := fd.writeCount + .ofNat n }

/-- The descriptor of the adapter after an item was read. -/
def registerItem (fd : FileDescriptor) (item : Except Errno ω) : FileDescriptor :=
  { fd.registerRead with eof := fd.eof || item.toOption.any A.ends }

/-- Rule 1: read from the filtered packet stream and dump into the connection. -/
def receive (s : TCPSpongeSocket α) (item : Except Errno ω) (refusal : Option Refusal) :
    Except Exception (TCPSpongeSocket α × List ω) := do
  let (seg, a, out) ← A.read s.datagramAdapter item refusal
  let tcp :=
    match seg with
    | some seg => s.tcp.segmentReceived seg
    | none => s.tcp
  return ({
    s with
    tcp := tcp
    datagramAdapter := a
    adapterFd := registerWrites (registerItem A s.adapterFd item) out.length }, out)

/-- Rule 2: read from the owner into the outbound stream. -/
def takeFromOwner (s : TCPSpongeSocket α) (answer : ReadAnswer) :
    Except Exception (TCPSpongeSocket α) := do
  let (threadData, data) ← s.threadData.read answer s.tcp.remainingOutboundCapacity
  let (tcp, amountWritten) := s.tcp.write data
  if amountWritten ≠ data.length then
    .error (.runtimeError "TCPConnection::write() accepted less than advertised length")
  else
    let s := { s with threadData := threadData, tcp := tcp, taken := s.taken ++ data }
    if threadData.eof then return { s with tcp := tcp.endInputStream, outboundShutdown := true }
    else return s

/-- What rule 2 does when it is cancelled. -/
def cancelOutbound (s : TCPSpongeSocket α) : TCPSpongeSocket α :=
  { s with tcp := s.tcp.endInputStream, outboundShutdown := true }

/-- What is to be given to the owner next. -/
def nextForOwner (s : TCPSpongeSocket α) : Buffer :=
  s.tcp.inboundStream.peekOutput (min 65536 s.tcp.inboundStream.bufferSize)

/-- Rule 3: read from the inbound stream and give to the owner. Only what was written is
popped. -/
def giveToOwner (s : TCPSpongeSocket α) (answer : Answer) (refusal : Option Errno) :
    Except Exception (TCPSpongeSocket α) := do
  let (threadData, bytesWritten, given) ← s.threadData.write answer [s.nextForOwner]
  let tcp := (s.tcp.read bytesWritten).1
  let s := { s with threadData := threadData, tcp := tcp, given := s.given ++ given }
  if tcp.inboundStream.eof || tcp.inboundStream.error then do
    let threadData ← threadData.shutdownWrite refusal
    return { s with threadData := threadData, inboundShutdown := true }
  else return s

/-- Write segments to the adapter, one after another. -/
def writeSegments : List TCPSegment → α → Option Refusal → Except Exception (α × List ω)
  | [], a, _ => .ok (a, [])
  | seg :: queue, a, refusal => do
    let (a, out, refusal) ← A.write a seg refusal
    let (a, out') ← writeSegments queue a refusal
    return (a, out ++ out')

/-- Rule 4: send the outbound segments as datagrams. -/
def send (s : TCPSpongeSocket α) (refusal : Option Refusal) :
    Except Exception (TCPSpongeSocket α × List ω) := do
  let (a, out) ← writeSegments A s.segmentsQueued s.datagramAdapter refusal
  return ({
    s with
    datagramAdapter := a
    adapterFd := registerWrites s.adapterFd out.length
    sent := s.tcp.segmentsOut.length }, out)

/-- What the loop does after each event, if the connection is active. -/
def tick (s : TCPSpongeSocket α) (ms : ℕ) (refusal : Option Refusal) :
    Except Exception (TCPSpongeSocket α × List ω) :=
  if s.tcp.active then do
    let (a, out) ← A.tick s.datagramAdapter ms refusal
    return ({
      s with
      tcp := s.tcp.tick ms
      datagramAdapter := a
      adapterFd := registerWrites s.adapterFd out.length }, out)
  else .ok (s, [])

def step (s : TCPSpongeSocket α) : Event ω → Except Exception (TCPSpongeSocket α × List ω)
  | .receive item refusal => s.receive A item refusal
  | .takeFromOwner answer => do
    let s ← s.takeFromOwner answer
    return (s, [])
  | .cancelOutbound => .ok (s.cancelOutbound, [])
  | .giveToOwner answer refusal => do
    let s ← s.giveToOwner answer refusal
    return (s, [])
  | .send refusal => s.send A refusal
  | .tick ms refusal => s.tick A ms refusal

/-- Nothing is taken from the owner once the outbound stream was shut down. -/
def Admissible (s : TCPSpongeSocket α) : Event ω → Prop
  | .takeFromOwner _ => s.outboundShutdown = false
  | _ => True

/-- What is written to the device, if it does not fail. -/
def written (r : Except Exception (TCPSpongeSocket α × List ω)) : List ω :=
  match r with
  | .ok (_, out) => out
  | .error _ => []

/-- Nothing is left for the owner when `n` more bytes were given to it. -/
def givesLast (s : TCPSpongeSocket α) (n : ℕ) : Bool :=
  let inbound := (s.tcp.read n).1.inboundStream
  inbound.eof || inbound.error

/-- The kernel refuses one of the system calls of an event, or bytes of the owner come in when the
connection is not active any more. -/
def Fails (s : TCPSpongeSocket α) : Event ω → Prop
  | .receive (.error _) _ => True
  | .receive (.ok w) refusal => Refused (written (s.receive A (.ok w) none)) refusal
  | .takeFromOwner answer =>
    answer.ret.toInt < 0 ∨ (s.tcp.active = false ∧ answer.stored ≠ [])
  | .cancelOutbound => False
  | .giveToOwner answer refusal =>
    answer.ret.toInt < 0 ∨ (s.givesLast answer.ret.toInt.toNat ∧ refusal.isSome)
  | .send refusal => Refused (written (s.send A none)) refusal
  | .tick ms refusal => Refused (written (s.tick A ms none)) refusal

/-- `connect`, as far as the loop that waits for the answer to the SYN. -/
def connect (cTcp : TCPConfig) (cAd : FdAdapterConfig) (a : α) :
    Except Exception (TCPSpongeSocket α) :=
  let tcp := (TCPConnection.new cTcp).connect
  let expectedState := TCPState.official .synSent
  if tcp.state ≠ expectedState then
    .error (.runtimeError ("After TCPConnection::connect(), state was " ++ tcp.state.name ++
      " but expected " ++ expectedState.name))
  else .ok { tcp := tcp, datagramAdapter := A.configMut a cAd }

/-- `listen_and_accept`, as far as the loop that waits for a peer. -/
def listenAndAccept (cTcp : TCPConfig) (cAd : FdAdapterConfig) (a : α) : TCPSpongeSocket α :=
  { tcp := .new cTcp, datagramAdapter := A.setListening (A.configMut a cAd) true }

/-- The connection with the bytes that went through it. -/
def endpoint (s : TCPSpongeSocket α) : Endpoint := ⟨s.tcp, s.taken, s.given⟩

/-- The kernel answers as it should. -/
def HonestAnswer (s : TCPSpongeSocket α) : Event ω → Prop
  | .takeFromOwner answer =>
    answer.Honest (FileDescriptor.sizeToRead s.tcp.remainingOutboundCapacity)
  | .giveToOwner answer _ => answer.Honest s.nextForOwner
  | _ => True

instance (s : TCPSpongeSocket α) : ∀ e : Event ω, Decidable (s.HonestAnswer e)
  | .takeFromOwner answer => inferInstanceAs (Decidable (answer.Honest _))
  | .giveToOwner answer _ => inferInstanceAs (Decidable (answer.Honest _))
  | .receive _ _ | .cancelOutbound | .send _ | .tick _ _ => inferInstanceAs (Decidable True)

instance (s : TCPSpongeSocket α) : ∀ e : Event ω, Decidable (s.Admissible e)
  | .takeFromOwner _ => inferInstanceAs (Decidable (s.outboundShutdown = false))
  | .receive _ _ | .giveToOwner _ _ | .cancelOutbound | .send _ | .tick _ _ =>
    inferInstanceAs (Decidable True)

variable {A} {s s' : TCPSpongeSocket α} {out : List ω}

theorem connect_ok (cTcp : TCPConfig) (cAd : FdAdapterConfig) (a : α) :
    connect A cTcp cAd a =
      .ok { tcp := (TCPConnection.new cTcp).connect, datagramAdapter := A.configMut a cAd } := by
  rw [connect, TCPConnection.state_connect]
  exact if_neg (not_not_intro rfl)

theorem segmentReceived_bare {c : TCPConnection} {seg g : TCPSegment} (h : seg.bare = g.bare) :
    c.segmentReceived seg = c.segmentReceived g := by
  have hbare : ∀ seg : TCPSegment, c.segmentReceived seg = c.segmentReceived seg.bare :=
    fun _ => rfl
  rw [hbare seg, hbare g, h]

theorem receive_ok {item : Except Errno ω} {refusal : Option Refusal}
    (h : s.receive A item refusal = .ok (s', out)) :
    ∃ seg, A.read s.datagramAdapter item refusal = .ok (seg, s'.datagramAdapter, out) ∧
      s' = { s with
        tcp := s'.tcp, datagramAdapter := s'.datagramAdapter, adapterFd := s'.adapterFd } ∧
      s'.tcp = match seg with
        | some seg => s.tcp.segmentReceived seg
        | none => s.tcp := by
  obtain ⟨⟨seg, a, out'⟩, hread, h⟩ := bind_ok_iff.mp h
  obtain ⟨rfl, rfl⟩ := Prod.mk.injEq _ _ _ _ ▸ Except.ok.inj h
  exact ⟨seg, hread, rfl, rfl⟩

theorem write_eq (c : TCPConnection) (data : Buffer) :
    (c.write data).2 = if c.active then min data.length c.remainingOutboundCapacity else 0 := by
  unfold TCPConnection.write
  split_ifs <;> rfl

theorem takeFromOwner_ok {answer : ReadAnswer} (h : s.takeFromOwner answer = .ok s') :
    ∃ data threadData, s.threadData.read answer s.tcp.remainingOutboundCapacity =
        .ok (threadData, data) ∧
      s' = { s with
        tcp := s'.tcp, threadData := threadData, taken := s'.taken
        outboundShutdown := s.outboundShutdown || threadData.eof } ∧
      s'.endpoint = if threadData.eof then (s.endpoint.step (.write data)).step .endInputStream
        else s.endpoint.step (.write data) := by
  unfold takeFromOwner at h
  cases hread : s.threadData.read answer s.tcp.remainingOutboundCapacity with
  | error e =>
    rw [hread] at h
    cases h
  | ok result =>
    obtain ⟨threadData, data⟩ := result
    rw [hread] at h
    simp only [bind, Except.bind] at h
    split_ifs at h with hshort heof
    · have hbytes : s.tcp.newBytes (.write data) = data := by
        rw [TCPConnection.newBytes, not_not.mp hshort, List.take_length]
      obtain rfl := Except.ok.inj h
      refine ⟨data, threadData, rfl, by simp [heof], ?_⟩
      have hwritten : s.endpoint.step (.write data) =
          ⟨(s.tcp.write data).1, s.taken ++ data, s.given⟩ := by
        simp [endpoint, Endpoint.step, Endpoint.bytesRead, hbytes, TCPConnection.step]
      rw [if_pos heof, hwritten]
      simp [endpoint, Endpoint.step, Endpoint.bytesRead, TCPConnection.newBytes,
        TCPConnection.step]
    · have hbytes : s.tcp.newBytes (.write data) = data := by
        rw [TCPConnection.newBytes, not_not.mp hshort, List.take_length]
      obtain rfl := Except.ok.inj h
      refine ⟨data, threadData, rfl, by simp [heof], ?_⟩
      rw [if_neg heof]
      simp [endpoint, Endpoint.step, Endpoint.bytesRead, hbytes, TCPConnection.step]

theorem takeFromOwner_throws_iff {answer : ReadAnswer}
    (hhonest : answer.Honest (FileDescriptor.sizeToRead s.tcp.remainingOutboundCapacity)) :
    (∃ e, s.takeFromOwner answer = .error e) ↔
      answer.ret.toInt < 0 ∨ (s.tcp.active = false ∧ answer.stored ≠ []) := by
  by_cases hret : 0 ≤ answer.ret.toInt
  · have hlen : answer.stored.length ≤ s.tcp.remainingOutboundCapacity := by
      have hstored := hhonest.stored hret
      have hle := hhonest.le
      unfold FileDescriptor.sizeToRead at hle
      omega
    have hshort : (s.tcp.write answer.stored).2 ≠ answer.stored.length ↔
        s.tcp.active = false ∧ answer.stored ≠ [] := by
      rw [write_eq, min_eq_left hlen]
      cases s.tcp.active <;> simp [eq_comm]
    unfold takeFromOwner
    rw [FileDescriptor.read_ok hhonest hret]
    simp only [bind, Except.bind]
    split_ifs with hwritten heof
    · exact iff_of_true ⟨_, rfl⟩ (Or.inr (hshort.mp hwritten))
    all_goals
      refine iff_of_false (by rintro ⟨e, he⟩; cases he) ?_
      rintro (hneg | hfails)
      · omega
      · exact hwritten (hshort.mpr hfails)
  · unfold takeFromOwner
    rw [FileDescriptor.read_error hhonest (by omega)]
    exact iff_of_true ⟨_, rfl⟩ (Or.inl (by omega))

theorem cancelOutbound_endpoint (s : TCPSpongeSocket α) :
    s.cancelOutbound.endpoint = s.endpoint.step .endInputStream := by
  simp [endpoint, cancelOutbound, Endpoint.step, Endpoint.bytesRead, TCPConnection.newBytes,
    TCPConnection.step]

theorem length_nextForOwner_le (s : TCPSpongeSocket α) :
    s.nextForOwner.length ≤ 65536 ∧ s.nextForOwner.length ≤ s.tcp.inboundStream.bufferSize := by
  rw [nextForOwner, ByteStream.peekOutput, List.length_take]
  omega

theorem giveToOwner_ok {answer : Answer} {refusal : Option Errno}
    (hhonest : answer.Honest s.nextForOwner) (h : s.giveToOwner answer refusal = .ok s') :
    ∃ n ≤ s.tcp.inboundStream.bufferSize, s'.endpoint = s.endpoint.step (.read n) ∧
      s' = { s with
        tcp := s'.tcp, threadData := s'.threadData, given := s'.given
        inboundShutdown := s.inboundShutdown ||
          (s'.tcp.inboundStream.eof || s'.tcp.inboundStream.error) } := by
  obtain ⟨hshort, hbuffered⟩ := s.length_nextForOwner_le
  by_cases hret : 0 ≤ answer.ret.toInt
  · have hle := hhonest.le
    have hgiven : s.nextForOwner.take answer.ret.toInt.toNat =
        s.tcp.inboundStream.buf.take answer.ret.toInt.toNat := by
      rw [nextForOwner, ByteStream.peekOutput, List.take_take]
      congr 1
      omega
    refine ⟨answer.ret.toInt.toNat, by omega, ?_⟩
    unfold giveToOwner at h
    rw [FileDescriptor.write_ok hhonest hret (by omega), hgiven] at h
    generalize answer.ret.toInt.toNat = n at h ⊢
    have hread : s.endpoint.step (.read n) =
        ⟨(s.tcp.read n).1, s.taken, s.given ++ s.tcp.inboundStream.buf.take n⟩ := by
      simp only [Endpoint.step, Endpoint.bytesRead, TCPConnection.newBytes, List.append_nil]
      rfl
    simp only [bind, Except.bind] at h
    split_ifs at h with hend
    · obtain ⟨threadData, -, h⟩ := bind_ok_iff.mp h
      obtain rfl := Except.ok.inj h
      exact ⟨hread.symm, by rw [hend, Bool.or_true]⟩
    · obtain rfl := Except.ok.inj h
      rw [Bool.not_eq_true] at hend
      exact ⟨hread.symm, by rw [hend, Bool.or_false]⟩
  · unfold giveToOwner at h
    rw [FileDescriptor.write_error hhonest (by omega)] at h
    cases h

theorem giveToOwner_throws_iff {answer : Answer} {refusal : Option Errno}
    (hhonest : answer.Honest s.nextForOwner) : (∃ e, s.giveToOwner answer refusal = .error e) ↔
      answer.ret.toInt < 0 ∨ (s.givesLast answer.ret.toInt.toNat ∧ refusal.isSome) := by
  obtain ⟨hshort, -⟩ := s.length_nextForOwner_le
  unfold giveToOwner
  by_cases hret : 0 ≤ answer.ret.toInt
  · rw [FileDescriptor.write_ok hhonest hret (by omega), or_iff_right (not_lt.mpr hret)]
    simp only [bind, Except.bind]
    unfold givesLast
    simp only
    split_ifs with hend
    · rw [hend]
      cases refusal with
      | none => exact iff_of_false (by rintro ⟨e, he⟩; cases he) (by simp)
      | some errno =>
        refine iff_of_true ⟨.unixError "shutdown" errno, ?_⟩ (by simp)
        exact bind_error_iff.mpr
          (Or.inl (FileDescriptor.shutdownWrite_error_iff.mpr ⟨errno, rfl, rfl⟩))
    · exact iff_of_false (by rintro ⟨e, he⟩; cases he) fun h => hend h.1
  · rw [FileDescriptor.write_error hhonest (by omega)]
    exact iff_of_true ⟨_, rfl⟩ (Or.inl (by omega))

theorem send_ok {refusal : Option Refusal} (h : s.send A refusal = .ok (s', out)) :
    writeSegments A s.segmentsQueued s.datagramAdapter refusal = .ok (s'.datagramAdapter, out) ∧
      s' = { s with
        datagramAdapter := s'.datagramAdapter, adapterFd := s'.adapterFd
        sent := s.tcp.segmentsOut.length } := by
  obtain ⟨⟨a, out'⟩, hwrite, h⟩ := bind_ok_iff.mp h
  obtain ⟨rfl, rfl⟩ := Prod.mk.injEq _ _ _ _ ▸ Except.ok.inj h
  exact ⟨hwrite, rfl⟩

theorem tick_ok {ms : ℕ} {refusal : Option Refusal} (h : s.tick A ms refusal = .ok (s', out)) :
    (s.tcp.active = true ∧ A.tick s.datagramAdapter ms refusal = .ok (s'.datagramAdapter, out) ∧
      s' = { s with
        tcp := s.tcp.tick ms, datagramAdapter := s'.datagramAdapter
        adapterFd := s'.adapterFd }) ∨ (s.tcp.active = false ∧ s' = s ∧ out = []) := by
  unfold tick at h
  split_ifs at h with hactive
  · obtain ⟨⟨a, out'⟩, htick, h⟩ := bind_ok_iff.mp h
    obtain ⟨rfl, rfl⟩ := Prod.mk.injEq _ _ _ _ ▸ Except.ok.inj h
    exact Or.inl ⟨hactive, htick, rfl⟩
  · obtain ⟨rfl, rfl⟩ := Prod.mk.injEq _ _ _ _ ▸ Except.ok.inj h
    exact Or.inr ⟨Bool.eq_false_iff.mpr hactive, rfl, rfl⟩

end TCPSpongeSocket

end Sponge
