import Sponge.Packet.Ethernet

/-! # Frames and messages of the link layer

What is parsed is written again as the bytes it was read from. A frame that is too short
for its header is the exception: it is accepted, and its bytes are taken for payload.
-/

namespace Sponge

variable {b : Buffer} {i : ℕ}

/-- The address that stands in the six bytes of `b` from byte `i` on. -/
def addressAt (b : Buffer) (i : ℕ) : EthernetAddress :=
  #v[.ofNat (field b i 1), .ofNat (field b (i + 1) 1), .ofNat (field b (i + 2) 1),
    .ofNat (field b (i + 3) 1), .ofNat (field b (i + 4) 1), .ofNat (field b (i + 5) 1)]

theorem NetParser.ethernetAddress_drop (h : i + 6 ≤ b.length) :
    ethernetAddress ⟨b.drop i, .noError⟩ = (addressAt b i, ⟨b.drop (i + 6), .noError⟩) := by
  simp (disch := omega) only [ethernetAddress, addressAt, u8_drop, add_assoc, Nat.reduceAdd]

theorem take_append_take (b : Buffer) (i m n : ℕ) :
    (b.drop i).take m ++ (b.drop (i + m)).take n = (b.drop i).take (m + n) := by
  rw [List.take_add, List.drop_drop]

theorem NetUnparser.ethernetAddress_at (h : i + 6 ≤ b.length) :
    ethernetAddress (addressAt b i) = (b.drop i).take 6 := by
  have hlist : (addressAt b i).toList =
      [.ofNat (field b i 1), .ofNat (field b (i + 1) 1), .ofNat (field b (i + 2) 1),
        .ofNat (field b (i + 3) 1), .ofNat (field b (i + 4) 1), .ofNat (field b (i + 5) 1)] := rfl
  rw [ethernetAddress, hlist]
  simp only [List.flatMap_cons, List.flatMap_nil, List.append_nil]
  rw [u8_field (by omega), u8_field (by omega), u8_field (by omega), u8_field (by omega),
    u8_field (by omega), u8_field (by omega), take_append_take b (i + 4) 1 1,
    take_append_take b (i + 3) 1 2, take_append_take b (i + 2) 1 3, take_append_take b (i + 1) 1 4,
    take_append_take b i 1 5]

namespace EthernetHeader

/-- The fields that stand in the first bytes. -/
def ofBuffer (b : Buffer) : EthernetHeader where
  dst := addressAt b 0
  src := addressAt b 6
  type := .ofNat (field b 12 2)

theorem parse_long (h : EthernetHeader) (hb : 14 ≤ b.length) :
    h.parse ⟨b, .noError⟩ = (.noError, ofBuffer b, ⟨b.drop 14, .noError⟩) := by
  have hlong : ¬ b.length < length := not_lt.mpr hb
  have hstart : (⟨b, .noError⟩ : NetParser) = ⟨b.drop 0, .noError⟩ := rfl
  rw [parse, if_neg hlong, hstart]
  simp (disch := omega) only [NetParser.ethernetAddress_drop, NetParser.u16_drop, ofBuffer,
    Nat.zero_add, Nat.reduceAdd]

theorem parse_short (h : EthernetHeader) (hb : b.length < 14) :
    h.parse ⟨b, .noError⟩ = (.packetTooShort, h, ⟨b, .noError⟩) := if_pos hb

theorem serialize_ofBuffer (hb : 14 ≤ b.length) : (ofBuffer b).serialize = b.take 14 := by
  rw [serialize, ofBuffer]
  simp only
  rw [NetUnparser.ethernetAddress_at (by omega), NetUnparser.ethernetAddress_at (by omega),
    NetUnparser.u16_field (by omega), take_append_take b 0 6 6, take_append_take b 0 12 2,
    List.drop_zero]

theorem length_serialize (h : EthernetHeader) : h.serialize.length = 14 := by
  simp [serialize, NetUnparser.length_ethernetAddress]

theorem parse_append (h h' : EthernetHeader) (rest : Buffer) :
    h'.parse ⟨h.serialize ++ rest, .noError⟩ = (.noError, h, ⟨rest, .noError⟩) := by
  have hlong : ¬ (h.serialize ++ rest).length < length := by
    rw [List.length_append, length_serialize, length]
    omega
  rw [parse, if_neg hlong]
  simp only [serialize, List.append_assoc, NetParser.ethernetAddress_append, NetParser.u16_append]

end EthernetHeader

namespace EthernetFrame

theorem concatenate_serialize (f : EthernetFrame) :
    f.serialize.concatenate = f.header.serialize ++ f.payload.concatenate := rfl

/-- Frames of at least 14 bytes are parsed exactly, shorter ones are accepted; and every frame
survives the wire. -/
theorem frame_parsed_exactly_iff (f : EthernetFrame) (b : Buffer) :
    ((((f.parse b).1 = .noError ↔ 14 ≤ b.length) ∧
      ((f.parse b).1 = .noError → (f.parse b).2.serialize.concatenate = b)) ↔ 14 ≤ b.length) ∧
    ∀ g : EthernetFrame, f.parse g.serialize.concatenate =
      (.noError, { header := g.header, payload := [g.payload.concatenate] }) := by
  constructor
  · constructor
    · rintro ⟨haccepts, -⟩
      exact haccepts.mp (f.parse_eq b).1
    · intro hb
      refine ⟨iff_of_true (f.parse_eq b).1 hb, fun _ => ?_⟩
      rw [concatenate_serialize, parse, EthernetHeader.parse_long f.header hb]
      simp only [EthernetHeader.serialize_ofBuffer hb, BufferList.concatenate, List.flatten_cons,
        List.flatten_nil, List.append_nil]
      exact List.take_append_drop 14 b
  · intro g
    rw [concatenate_serialize, parse, EthernetHeader.parse_append]

/-- Three bytes are accepted as a frame, and are taken for its payload. -/
theorem frame_accepted_without_header :
    let f : EthernetFrame := {}
    let b : Buffer := [1, 2, 3]
    ¬ ((f.parse b).1 = .noError ↔ 14 ≤ b.length) ∧
      ¬ ((f.parse b).1 = .noError → (f.parse b).2.serialize.concatenate = b) := by
  decide

end EthernetFrame

namespace ARPMessage

variable {m : ARPMessage}

/-- What stands in the first eight bytes of a supported message with this opcode. -/
def start (opcode : UInt16) : Buffer :=
  NetUnparser.u16 typeEthernet ++ NetUnparser.u16 EthernetHeader.typeIPv4 ++ NetUnparser.u8 6 ++
    NetUnparser.u8 4 ++ NetUnparser.u16 opcode

/-- The message `m` with the first five fields from the first eight bytes. -/
def readStart (m : ARPMessage) (b : Buffer) : ARPMessage :=
  { m with
    hardwareType := .ofNat (field b 0 2), protocolType := .ofNat (field b 2 2)
    hardwareAddressSize := .ofNat (field b 4 1), protocolAddressSize := .ofNat (field b 5 1)
    opcode := .ofNat (field b 6 2) }

/-- The message with the addresses from the bytes 8 to 27. -/
def readAddresses (m : ARPMessage) (b : Buffer) : ARPMessage :=
  { m with
    senderEthernetAddress := addressAt b 8, senderIpAddress := .ofNat (field b 14 4)
    targetEthernetAddress := addressAt b 18, targetIpAddress := .ofNat (field b 24 4) }

theorem parse_short (hb : b.length < 28) : m.parse b = (.packetTooShort, m) := if_pos hb

theorem parse_long (hb : 28 ≤ b.length) :
    m.parse b = if (m.readStart b).supported then (.noError, (m.readStart b).readAddresses b)
      else (.unsupported, m.readStart b) := by
  have hlong : ¬ b.length < length := not_lt.mpr hb
  have hstart : (⟨b, .noError⟩ : NetParser) = ⟨b.drop 0, .noError⟩ := rfl
  rw [parse, if_neg hlong, hstart]
  simp (disch := omega) only [NetParser.ethernetAddress_drop, NetParser.u8_drop,
    NetParser.u16_drop, NetParser.u32_drop, Nat.zero_add, Nat.reduceAdd]
  change (if !(m.readStart b).supported then _ else _) = _
  cases (m.readStart b).supported <;> rfl

theorem supported_iff : m.supported = true ↔ m.hardwareType = typeEthernet ∧
    m.protocolType = EthernetHeader.typeIPv4 ∧ m.hardwareAddressSize = 6 ∧
    m.protocolAddressSize = 4 ∧ (m.opcode = opcodeRequest ∨ m.opcode = opcodeReply) := by
  simp [supported, and_assoc]

theorem take_eight (hb : 8 ≤ b.length) :
    b.take 8 = NetUnparser.u16 (m.readStart b).hardwareType ++
      NetUnparser.u16 (m.readStart b).protocolType ++
      NetUnparser.u8 (m.readStart b).hardwareAddressSize ++
      NetUnparser.u8 (m.readStart b).protocolAddressSize ++
      NetUnparser.u16 (m.readStart b).opcode := by
  simp only [readStart]
  rw [NetUnparser.u16_field (by omega), NetUnparser.u16_field (by omega),
    NetUnparser.u8_field (by omega), NetUnparser.u8_field (by omega),
    NetUnparser.u16_field (by omega), take_append_take b 0 2 2, take_append_take b 0 4 1,
    take_append_take b 0 5 1, take_append_take b 0 6 2, List.drop_zero]

theorem take_eight_eq_start_iff (hb : 8 ≤ b.length) {opcode : UInt16} :
    b.take 8 = start opcode ↔ (m.readStart b).hardwareType = typeEthernet ∧
      (m.readStart b).protocolType = EthernetHeader.typeIPv4 ∧
      (m.readStart b).hardwareAddressSize = 6 ∧ (m.readStart b).protocolAddressSize = 4 ∧
      (m.readStart b).opcode = opcode := by
  rw [take_eight (m := m) hb, start]
  constructor
  · intro h
    obtain ⟨h, hopcode⟩ := List.append_inj' h (by simp)
    obtain ⟨h, hprotocolSize⟩ := List.append_inj' h (by simp)
    obtain ⟨h, hhardwareSize⟩ := List.append_inj' h (by simp)
    obtain ⟨hhardware, hprotocol⟩ := List.append_inj' h (by simp)
    exact ⟨NetUnparser.u16_inj hhardware, NetUnparser.u16_inj hprotocol,
      NetUnparser.u8_inj hhardwareSize, NetUnparser.u8_inj hprotocolSize,
      NetUnparser.u16_inj hopcode⟩
  · rintro ⟨hhardware, hprotocol, hhardwareSize, hprotocolSize, hopcode⟩
    rw [hhardware, hprotocol, hhardwareSize, hprotocolSize, hopcode]

theorem supported_readStart_iff (hb : 8 ≤ b.length) : (m.readStart b).supported = true ↔
    b.take 8 = start opcodeRequest ∨ b.take 8 = start opcodeReply := by
  rw [supported_iff, take_eight_eq_start_iff (m := m) hb, take_eight_eq_start_iff (m := m) hb]
  constructor
  · rintro ⟨hhardware, hprotocol, hhardwareSize, hprotocolSize, hopcode | hopcode⟩
    · exact Or.inl ⟨hhardware, hprotocol, hhardwareSize, hprotocolSize, hopcode⟩
    · exact Or.inr ⟨hhardware, hprotocol, hhardwareSize, hprotocolSize, hopcode⟩
  · rintro (⟨hhardware, hprotocol, hhardwareSize, hprotocolSize, hopcode⟩ |
      ⟨hhardware, hprotocol, hhardwareSize, hprotocolSize, hopcode⟩)
    · exact ⟨hhardware, hprotocol, hhardwareSize, hprotocolSize, Or.inl hopcode⟩
    · exact ⟨hhardware, hprotocol, hhardwareSize, hprotocolSize, Or.inr hopcode⟩

theorem parse_accepts_iff : (m.parse b).1 = .noError ↔ 28 ≤ b.length ∧
    (b.take 8 = start opcodeRequest ∨ b.take 8 = start opcodeReply) := by
  by_cases hb : 28 ≤ b.length
  · rw [parse_long hb, ← supported_readStart_iff (m := m) (by omega), iff_true_intro hb, true_and]
    cases (m.readStart b).supported <;> simp
  · rw [parse_short (by omega)]
    exact iff_of_false (by simp) fun h => hb h.1

/-- A supported message is written as the bytes it was read from. -/
theorem serialize_read (hb : 28 ≤ b.length) (h : (m.readStart b).supported = true) :
    ((m.readStart b).readAddresses b).serialize = .ok (b.take 28) := by
  have hsupported : ((m.readStart b).readAddresses b).supported = true := h
  rw [serialize, hsupported, Bool.not_true, if_neg Bool.false_ne_true]
  simp only [readAddresses]
  rw [← take_eight (by omega), NetUnparser.ethernetAddress_at (by omega),
    NetUnparser.u32_field (by omega), NetUnparser.ethernetAddress_at (by omega),
    NetUnparser.u32_field (by omega), ← List.take_add, ← List.take_add, ← List.take_add,
    ← List.take_add]

/-- Exactly the supported messages are accepted, they are written as they were read, and every
supported message survives the wire. -/
theorem arp_parsed_exactly (m : ARPMessage) (b : Buffer) :
    ((m.parse b).1 = .noError ↔ 28 ≤ b.length ∧
      (b.take 8 = [0, 1, 8, 0, 6, 4, 0, 1] ∨ b.take 8 = [0, 1, 8, 0, 6, 4, 0, 2])) ∧
    ((m.parse b).1 = .noError → (m.parse b).2.serialize = .ok (b.take 28)) ∧
    ∀ m' : ARPMessage, m'.supported = true →
      ∃ bytes, m'.serialize = .ok bytes ∧ m.parse bytes = (.noError, m') := by
  have hrequest : start opcodeRequest = [0, 1, 8, 0, 6, 4, 0, 1] := by decide
  have hreply : start opcodeReply = [0, 1, 8, 0, 6, 4, 0, 2] := by decide
  refine ⟨?_, ?_, fun m' h => parse_bytes m h⟩
  · rw [parse_accepts_iff, hrequest, hreply]
  · intro h
    obtain ⟨hb, hstart⟩ := parse_accepts_iff.mp h
    have hsupported := (supported_readStart_iff (m := m) (by omega)).mpr hstart
    rw [parse_long hb, if_pos hsupported]
    exact serialize_read hb hsupported

end ARPMessage

end Sponge
