import Sponge.Packet.Ethernet

/-! # The network interface

Datagrams leave in Ethernet frames. The Ethernet address of the next hop is learned
by ARP; a datagram that has to wait for it is kept, and so is the time of the request.
-/

namespace Sponge

/-- An IPv4 address and a port. -/
structure Address where
  ip : UInt32
  port : UInt16 := 0
  deriving DecidableEq, Repr

def Address.ipv4Numeric (a : Address) : UInt32 := a.ip

def Address.fromIpv4Numeric (ip : UInt32) : Address := { ip := ip }

/-- Insertion into a map: an entry with the same key stays. -/
def mapInsert {β : Type} (k : UInt32) (v : β) (m : List (UInt32 × β)) : List (UInt32 × β) :=
  if (m.lookup k).isSome then m else m ++ [(k, v)]

/-- Remove the entries with the key `k`. -/
def mapErase {β : Type} (k : UInt32) (m : List (UInt32 × β)) : List (UInt32 × β) :=
  m.filter fun c => c.1 != k

/-- The maps are lists of entries, whose order matters only among the entries of `pending` with
equal keys. -/
structure NetworkInterface where
  ethernetAddress : EthernetAddress
  ipAddress : Address
  framesOut : List EthernetFrame := []
  now : ℕ := 0
  cache : List (UInt32 × EthernetAddress × ℕ) := []
  cooldown : List (UInt32 × ℕ) := []
  pending : List (UInt32 × IPv4Datagram) := []
  deriving DecidableEq, Repr

namespace NetworkInterface

def new (ethernetAddress : EthernetAddress) (ipAddress : Address) : NetworkInterface :=
  { ethernetAddress := ethernetAddress, ipAddress := ipAddress }

/-- The frame in which a datagram is sent to `dst`. -/
def ipv4Frame (i : NetworkInterface) (dst : EthernetAddress) (dgram : IPv4Datagram) :
    Except String EthernetFrame := do
  let payload ← dgram.serialize
  return {
    header := { dst := dst, src := i.ethernetAddress, type := EthernetHeader.typeIPv4 }
    payload := payload }

/-- The frame in which an ARP message is sent to `dst`. -/
def arpFrame (i : NetworkInterface) (dst : EthernetAddress) (m : ARPMessage) :
    Except String EthernetFrame := do
  let payload ← m.serialize
  return {
    header := { dst := dst, src := i.ethernetAddress, type := EthernetHeader.typeARP }
    payload := [payload] }

def arpRequest (i : NetworkInterface) (targetIpAddress : UInt32) : ARPMessage :=
  { opcode := ARPMessage.opcodeRequest
    senderEthernetAddress := i.ethernetAddress
    senderIpAddress := i.ipAddress.ipv4Numeric
    targetIpAddress := targetIpAddress }

def arpReply (i : NetworkInterface) (am : ARPMessage) : ARPMessage :=
  { opcode := ARPMessage.opcodeReply
    senderEthernetAddress := i.ethernetAddress
    senderIpAddress := i.ipAddress.ipv4Numeric
    targetEthernetAddress := am.senderEthernetAddress
    targetIpAddress := am.senderIpAddress }

def sendDatagram (i : NetworkInterface) (dgram : IPv4Datagram) (nextHop : Address) :
    Except String NetworkInterface :=
  let nextHopIp := nextHop.ipv4Numeric
  match i.cache.lookup nextHopIp with
  | some entry => do
    let ef ← i.ipv4Frame entry.1 dgram
    return { i with framesOut := i.framesOut ++ [ef] }
  | none =>
    if (i.cooldown.lookup nextHopIp).isSome then .ok i
    else do
      let ef ← i.arpFrame ethernetBroadcast (i.arpRequest nextHopIp)
      return {
        i with
        pending := i.pending ++ [(nextHopIp, dgram)]
        cooldown := mapInsert nextHopIp i.now i.cooldown
        framesOut := i.framesOut ++ [ef] }

/-- The datagrams that wait for the address `ip`, in the order in which they came. -/
def waiting (i : NetworkInterface) (ip : UInt32) : List IPv4Datagram :=
  (i.pending.filter fun c => c.1 == ip).map Prod.snd

/-- Learn the sender of an ARP message, and send what waited for it. -/
def learn (i : NetworkInterface) (am : ARPMessage) : Except String NetworkInterface := do
  let ip := am.senderIpAddress
  let frames ← (i.waiting ip).mapM (i.ipv4Frame am.senderEthernetAddress)
  return {
    i with
    cache := mapInsert ip (am.senderEthernetAddress, i.now) (mapErase ip i.cache)
    pending := mapErase ip i.pending
    framesOut := i.framesOut ++ frames }

/-- The first buffer of the payload. The code reads it unchecked; a parsed frame has one. -/
def frontBuffer (ef : EthernetFrame) : Buffer := ef.payload.headD []

/-- The interface takes a frame that is addressed to it or to all. -/
def accepts (i : NetworkInterface) (ef : EthernetFrame) : Bool :=
  ef.header.dst == ethernetBroadcast || ef.header.dst == i.ethernetAddress

def recvFrame (i : NetworkInterface) (ef : EthernetFrame) :
    Except String (NetworkInterface × Option IPv4Datagram) :=
  if (ef.header.type ≠ EthernetHeader.typeARP ∧ ef.header.type ≠ EthernetHeader.typeIPv4) ∨
      i.accepts ef = false then
    .ok (i, none)
  else if ef.header.type = EthernetHeader.typeIPv4 then
    let (pr, id) := ({} : IPv4Datagram).parse (frontBuffer ef)
    if pr ≠ .noError then .ok (i, none) else .ok (i, some id)
  else
    let (pr, am) := ({} : ARPMessage).parse (frontBuffer ef)
    if pr ≠ .noError then .ok (i, none)
    else do
      let i ← i.learn am
      if am.opcode ≠ ARPMessage.opcodeRequest ∨ am.targetIpAddress ≠ i.ipAddress.ipv4Numeric then
        return (i, none)
      else
        let ef ← i.arpFrame ef.header.src (i.arpReply am)
        return ({ i with framesOut := i.framesOut ++ [ef] }, none)

/-- Let time pass: mappings last 30 seconds, and requests are not repeated for 5 seconds. -/
def tick (i : NetworkInterface) (msSinceLastTick : ℕ) : NetworkInterface :=
  let now := (i.now + msSinceLastTick) % 2 ^ 64
  { i with
    now := now
    cache := i.cache.filter fun c => decide (now < (c.2.2 + 30000) % 2 ^ 64)
    cooldown := i.cooldown.filter fun c => decide (now < (c.2 + 5000) % 2 ^ 64) }

end NetworkInterface

/-- The datagram can be serialized: it has the right version, and lengths that agree. -/
structure IPv4Datagram.Serializable (d : IPv4Datagram) : Prop where
  size : d.payload.size = d.header.payloadLength.toNat
  ver : d.header.ver = 4
  hlen : 5 ≤ d.header.hlen.toNat

namespace IPv4Datagram

variable {d : IPv4Datagram} {b : Buffer}

instance (d : IPv4Datagram) : Decidable d.Serializable :=
  decidable_of_iff (d.payload.size = d.header.payloadLength.toNat ∧ d.header.ver = 4 ∧
    5 ≤ d.header.hlen.toNat) ⟨fun h => ⟨h.1, h.2.1, h.2.2⟩, fun h => ⟨h.size, h.ver, h.hlen⟩⟩

theorem serialize_ok (h : d.Serializable) : ∃ bs, d.serialize = .ok bs := by
  have hheader : ∀ cksum, ∃ b, ({ d.header with cksum := cksum } : IPv4Header).serialize = .ok b :=
    fun cksum => by
      have hhlen := h.hlen
      unfold IPv4Header.serialize
      rw [if_neg (not_not_intro h.ver), if_neg (by rw [IPv4Header.length]; simp only; omega)]
      exact ⟨_, rfl⟩
  obtain ⟨zero, hzero⟩ := hheader 0
  unfold serialize
  rw [if_neg (not_not_intro h.size), hzero]
  obtain ⟨header, hcksum⟩ := hheader (({} : InternetChecksum).add zero).value
  exact ⟨header :: d.payload, by simp only [bind, Except.bind, hcksum]; rfl⟩

theorem Serializable.ttl (h : d.Serializable) (ttl : UInt8) :
    Serializable { d with header := { d.header with ttl := ttl } } := ⟨h.size, h.ver, h.hlen⟩

/-- The version and the header length of the datagram are right, or its size makes the parser
reject it. -/
def RightOrRejected (b : Buffer) : Prop :=
  (version b = 4 ∧ 5 ≤ headerWords b) ∨ b.length < 20 ∨ SizeDiffers b

instance (b : Buffer) : Decidable (RightOrRejected b) := inferInstanceAs (Decidable (_ ∨ _ ∨ _))

theorem parse_serializable (hb : RightOrRejected b)
    (h : (({} : IPv4Datagram).parse b).1 = .noError) :
    (({} : IPv4Datagram).parse b).2.Serializable := by
  have hlong : 20 ≤ b.length := by
    by_contra hshort
    rw [parse_short (by omega)] at h
    simp at h
  obtain ⟨hresult, hheader, -⟩ := parse_long hlong
  have hfields : version b = 4 ∧ 5 ≤ headerWords b := by
    rcases hresult.mp h with hfits | hsize
    · exact ⟨hfits.2.1, hfits.2.2.1⟩
    · exact hb.resolve_right (by rintro (hb | hb); exacts [absurd hlong (by omega), hsize hb])
  refine ⟨size_of_parse h, ?_, ?_⟩
  · rw [hheader, ← UInt8.toNat_inj, IPv4Header.toNat_ver, hfields.1]
    rfl
  · rw [hheader, IPv4Header.toNat_hlen]
    exact hfields.2

end IPv4Datagram

end Sponge
