import Sponge.Packet.IPv4

/-! # Ethernet frames and ARP messages

The frame parser drops the report of the header parser, so a frame that is too short
for a header is accepted with the header left as it was.
-/

namespace Sponge

abbrev EthernetAddress := Vector UInt8 6

def ethernetBroadcast : EthernetAddress := #v[0xff, 0xff, 0xff, 0xff, 0xff, 0xff]

/-- The initial value of an address. -/
def ethernetZero : EthernetAddress := #v[0, 0, 0, 0, 0, 0]

/-- Parse the six bytes of an Ethernet address. -/
def NetParser.ethernetAddress (p : NetParser) : EthernetAddress × NetParser :=
  let (b₀, p) := p.u8
  let (b₁, p) := p.u8
  let (b₂, p) := p.u8
  let (b₃, p) := p.u8
  let (b₄, p) := p.u8
  let (b₅, p) := p.u8
  (#v[b₀, b₁, b₂, b₃, b₄, b₅], p)

def NetUnparser.ethernetAddress (address : EthernetAddress) : List UInt8 :=
  address.toList.flatMap NetUnparser.u8

theorem NetUnparser.length_ethernetAddress (address : EthernetAddress) :
    (ethernetAddress address).length = 6 := by
  rw [ethernetAddress, List.length_flatMap]
  simp

theorem NetParser.ethernetAddress_append (address : EthernetAddress) (rest : Buffer) :
    ethernetAddress ⟨NetUnparser.ethernetAddress address ++ rest, .noError⟩ =
      (address, ⟨rest, .noError⟩) := by
  have hbytes : address =
      #v[address[0], address[1], address[2], address[3], address[4], address[5]] := by
    ext i hi
    interval_cases i <;> rfl
  have hlist : address.toList =
      [address[0], address[1], address[2], address[3], address[4], address[5]] :=
    congrArg Vector.toList hbytes
  rw [NetUnparser.ethernetAddress, hlist, NetParser.ethernetAddress]
  simp only [List.flatMap_cons, List.flatMap_nil, List.append_assoc, List.append_nil,
    NetParser.u8_append]
  rw [← hbytes]

structure EthernetHeader where
  dst : EthernetAddress := ethernetZero
  src : EthernetAddress := ethernetZero
  type : UInt16 := 0
  deriving DecidableEq, Repr

namespace EthernetHeader

def length : ℕ := 14

def typeIPv4 : UInt16 := 0x800

def typeARP : UInt16 := 0x806

/-- The result, the header and the parser after the header. -/
def parse (h : EthernetHeader) (p : NetParser) : ParseResult × EthernetHeader × NetParser :=
  if p.buffer.length < length then (.packetTooShort, h, p)
  else
    let (dst, p) := p.ethernetAddress
    let (src, p) := p.ethernetAddress
    let (type, p) := p.u16
    (p.error, { dst := dst, src := src, type := type }, p)

def serialize (h : EthernetHeader) : Buffer :=
  NetUnparser.ethernetAddress h.dst ++ NetUnparser.ethernetAddress h.src ++ NetUnparser.u16 h.type

end EthernetHeader

structure EthernetFrame where
  header : EthernetHeader := {}
  payload : BufferList := []
  deriving DecidableEq, Repr

namespace EthernetFrame

def parse (f : EthernetFrame) (buffer : Buffer) : ParseResult × EthernetFrame :=
  let (_, header, p) := f.header.parse { buffer := buffer }
  (p.error, { header := header, payload := [p.buffer] })

def serialize (f : EthernetFrame) : BufferList := f.header.serialize :: f.payload

end EthernetFrame

structure ARPMessage where
  hardwareType : UInt16 := 1
  protocolType : UInt16 := EthernetHeader.typeIPv4
  hardwareAddressSize : UInt8 := 6
  protocolAddressSize : UInt8 := 4
  opcode : UInt16 := 0
  senderEthernetAddress : EthernetAddress := ethernetZero
  senderIpAddress : UInt32 := 0
  targetEthernetAddress : EthernetAddress := ethernetZero
  targetIpAddress : UInt32 := 0
  deriving DecidableEq, Repr

namespace ARPMessage

def length : ℕ := 28

def typeEthernet : UInt16 := 1

def opcodeRequest : UInt16 := 1

def opcodeReply : UInt16 := 2

/-- Is this type of message supported by the parser? -/
def supported (m : ARPMessage) : Bool :=
  m.hardwareType == typeEthernet && m.protocolType == EthernetHeader.typeIPv4 &&
    m.hardwareAddressSize == 6 && m.protocolAddressSize == 4 &&
    (m.opcode == opcodeRequest || m.opcode == opcodeReply)

def parse (m : ARPMessage) (buffer : Buffer) : ParseResult × ARPMessage :=
  let p : NetParser := { buffer := buffer }
  if p.buffer.length < length then (.packetTooShort, m)
  else
    let (hardwareType, p) := p.u16
    let (protocolType, p) := p.u16
    let (hardwareAddressSize, p) := p.u8
    let (protocolAddressSize, p) := p.u8
    let (opcode, p) := p.u16
    let m : ARPMessage :=
      { m with
        hardwareType := hardwareType, protocolType := protocolType
        hardwareAddressSize := hardwareAddressSize, protocolAddressSize := protocolAddressSize
        opcode := opcode }
    if !m.supported then (.unsupported, m)
    else
      let (senderEthernetAddress, p) := p.ethernetAddress
      let (senderIpAddress, p) := p.u32
      let (targetEthernetAddress, p) := p.ethernetAddress
      let (targetIpAddress, p) := p.u32
      (p.error,
        { m with
          senderEthernetAddress := senderEthernetAddress, senderIpAddress := senderIpAddress
          targetEthernetAddress := targetEthernetAddress, targetIpAddress := targetIpAddress })

def serialize (m : ARPMessage) : Except String Buffer :=
  if !m.supported then
    .error ("ARPMessage::serialize(): unsupported field combination " ++
      "(must be Ethernet/IP, and request or reply)")
  else
    .ok (NetUnparser.u16 m.hardwareType ++ NetUnparser.u16 m.protocolType ++
      NetUnparser.u8 m.hardwareAddressSize ++ NetUnparser.u8 m.protocolAddressSize ++
      NetUnparser.u16 m.opcode ++ NetUnparser.ethernetAddress m.senderEthernetAddress ++
      NetUnparser.u32 m.senderIpAddress ++ NetUnparser.ethernetAddress m.targetEthernetAddress ++
      NetUnparser.u32 m.targetIpAddress)

theorem serialize_ok {m : ARPMessage} (h : m.supported = true) : ∃ b, m.serialize = .ok b := by
  refine ⟨_, if_neg ?_⟩
  simp [h]

theorem parse_bytes {m : ARPMessage} (m' : ARPMessage) (h : m.supported = true) :
    ∃ b, m.serialize = .ok b ∧ m'.parse b = (.noError, m) := by
  refine ⟨_, if_neg (by simp [h]), ?_⟩
  rw [← List.append_nil (NetUnparser.u32 m.targetIpAddress), parse, if_neg]
  · simp only [List.append_assoc, NetParser.u8_append, NetParser.u16_append, NetParser.u32_append,
      NetParser.ethernetAddress_append]
    apply if_neg
    intro hno
    rw [Bool.not_eq_true'] at hno
    exact Bool.false_ne_true (hno.symm.trans h)
  · simp only [List.length_append, NetUnparser.length_u8, NetUnparser.length_u16,
      NetUnparser.length_u32, NetUnparser.length_ethernetAddress, length]
    omega

end ARPMessage

namespace EthernetHeader

theorem parse_error (h : EthernetHeader) (b : Buffer) :
    (h.parse ⟨b, .noError⟩).2.2.error = .noError := by
  unfold parse
  split_ifs with hlong
  · rfl
  · have hb : 14 ≤ b.length := by
      simp only [length] at hlong
      omega
    rw [← List.drop_zero (l := b)]
    simp (disch := omega) only [NetParser.ethernetAddress, NetParser.u8_drop, NetParser.u16_drop]

end EthernetHeader

theorem EthernetFrame.parse_eq (f : EthernetFrame) (b : Buffer) :
    (f.parse b).1 = .noError ∧ ∃ rest, (f.parse b).2.payload = [rest] :=
  ⟨f.header.parse_error b, _, rfl⟩

end Sponge
