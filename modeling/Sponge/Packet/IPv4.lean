import Sponge.Packet.Checksum
import Sponge.Packet.Parser

/-! # IPv4 datagrams

The header parser reports what is wrong with a header. The datagram parser drops that
report: it only compares the size of the payload with the one that the header names.
-/

namespace Sponge

structure IPv4Header where
  ver : UInt8 := 4
  hlen : UInt8 := 5
  tos : UInt8 := 0
  len : UInt16 := 0
  id : UInt16 := 0
  df : Bool := true
  mf : Bool := false
  offset : UInt16 := 0
  ttl : UInt8 := 128
  proto : UInt8 := 6
  cksum : UInt16 := 0
  src : UInt32 := 0
  dst : UInt32 := 0
  deriving DecidableEq, Repr

namespace IPv4Header

def length : ℕ := 20

def payloadLength (h : IPv4Header) : UInt16 := .ofInt (h.len.toNat - 4 * h.hlen.toNat)

/-- The sum of the two halves of an address. -/
def halves (address : UInt32) : UInt32 := (address >>> 16) + (address &&& 0xffff)

/-- What the addresses, the protocol and the payload length add to the checksum of a TCP
segment. -/
def pseudoCksum (h : IPv4Header) : UInt32 :=
  halves h.src + halves h.dst + h.proto.toUInt32 + h.payloadLength.toUInt32

/-- The fixed fields of a header, in their order on the wire. -/
def parseFields (p : NetParser) : IPv4Header × NetParser :=
  let (firstByte, p) := p.u8
  let (tos, p) := p.u8
  let (len, p) := p.u16
  let (id, p) := p.u16
  let (foVal, p) := p.u16
  let (ttl, p) := p.u8
  let (proto, p) := p.u8
  let (cksum, p) := p.u16
  let (src, p) := p.u32
  let (dst, p) := p.u32
  ({ ver := firstByte >>> 4, hlen := firstByte &&& 0x0f, tos := tos, len := len, id := id
     df := foVal &&& 0x4000 != 0, mf := foVal &&& 0x2000 != 0, offset := foVal &&& 0x1fff
     ttl := ttl, proto := proto, cksum := cksum, src := src, dst := dst }, p)

/-- Check a header that was parsed from the buffer `original`, and skip its options. -/
def check (h : IPv4Header) (original : Buffer) (p : NetParser) : ParseResult × NetParser :=
  if original.length < 4 * h.hlen.toNat then (.packetTooShort, p)
  else if h.ver ≠ 4 then (.wrongIPVersion, p)
  else if h.hlen < 5 then (.headerTooShort, p)
  else if original.length ≠ h.len.toNat then (.truncatedPacket, p)
  else
    let p := p.removePrefix (h.hlen.toNat * 4 - length)
    if p.error ≠ .noError then (p.error, p)
    else if (({} : InternetChecksum).add (original.take (4 * h.hlen.toNat))).value ≠ 0 then
      (.badChecksum, p)
    else (.noError, p)

/-- The result, the header and the parser after the header. -/
def parse (h : IPv4Header) (p : NetParser) : ParseResult × IPv4Header × NetParser :=
  if p.buffer.length < length then (.packetTooShort, h, p)
  else
    let fields := parseFields p
    let checked := fields.1.check p.buffer fields.2
    (checked.1, fields.1, checked.2)

/-- Serialize the header, without computing the checksum. -/
def serialize (h : IPv4Header) : Except String Buffer :=
  if h.ver ≠ 4 then .error "wrong IP version"
  else if 4 * h.hlen.toNat < length then .error "IP header too short"
  else
    let foVal := (if h.df then 0x4000 else 0) ||| (if h.mf then 0x2000 else 0) |||
      (h.offset &&& 0x1fff)
    let ret := NetUnparser.u8 ((h.ver <<< 4) ||| (h.hlen &&& 0xf)) ++ NetUnparser.u8 h.tos ++
      NetUnparser.u16 h.len ++ NetUnparser.u16 h.id ++ NetUnparser.u16 foVal ++
      NetUnparser.u8 h.ttl ++ NetUnparser.u8 h.proto ++ NetUnparser.u16 h.cksum ++
      NetUnparser.u32 h.src ++ NetUnparser.u32 h.dst
    -- expand the header to the advertised size
    .ok (ret ++ List.replicate (4 * h.hlen.toNat - ret.length) 0)

end IPv4Header

structure IPv4Datagram where
  header : IPv4Header := {}
  payload : BufferList := []
  deriving DecidableEq, Repr

namespace IPv4Datagram

def parse (d : IPv4Datagram) (buffer : Buffer) : ParseResult × IPv4Datagram :=
  let (_, header, p) := d.header.parse { buffer := buffer }
  let d : IPv4Datagram := { header := header, payload := [p.buffer] }
  if d.payload.size ≠ d.header.payloadLength.toNat then (.packetTooShort, d)
  else (p.error, d)

def serialize (d : IPv4Datagram) : Except String BufferList :=
  if d.payload.size ≠ d.header.payloadLength.toNat then
    .error "IPv4Datagram::serialize: payload is wrong size"
  else do
    let headerZeroChecksum ← ({ d.header with cksum := 0 } : IPv4Header).serialize
    let cksum := (({} : InternetChecksum).add headerZeroChecksum).value
    let header ← ({ d.header with cksum := cksum } : IPv4Header).serialize
    return header :: d.payload

end IPv4Datagram

/-- The version that the first byte names. -/
def version (b : Buffer) : ℕ := field b 0 1 / 2 ^ 4

/-- The length of the header in units of four bytes, as the first byte names it. -/
def headerWords (b : Buffer) : ℕ := field b 0 1 % 2 ^ 4

def totalLength (b : Buffer) : ℕ := field b 2 2

/-- A header with the right version and lengths, in a datagram of the right size. -/
def HeaderFits (b : Buffer) : Prop :=
  4 * headerWords b ≤ b.length ∧ version b = 4 ∧ 5 ≤ headerWords b ∧ totalLength b = b.length

instance (b : Buffer) : Decidable (HeaderFits b) := inferInstanceAs (Decidable (_ ∧ _))

/-- The checksum of the header. -/
def headerChecksum (b : Buffer) : UInt16 :=
  (({} : InternetChecksum).add (b.take (4 * headerWords b))).value

namespace IPv4Header

variable {h : IPv4Header} {b : Buffer}

theorem toNat_shiftRight_four (byte : UInt8) : (byte >>> 4).toNat = byte.toNat / 2 ^ 4 := by
  rw [UInt8.toNat_shiftRight, Nat.shiftRight_eq_div_pow]
  rfl

theorem toNat_and_fifteen (byte : UInt8) : (byte &&& 0x0f).toNat = byte.toNat % 2 ^ 4 := by
  rw [UInt8.toNat_and]
  exact Nat.and_two_pow_sub_one_eq_mod _ 4

/-- The fields of a header at the start of a buffer. -/
def ofBuffer (b : Buffer) : IPv4Header :=
  let foVal : UInt16 := .ofNat (field b 6 2)
  { ver := UInt8.ofNat (field b 0 1) >>> 4
    hlen := UInt8.ofNat (field b 0 1) &&& 0x0f
    tos := .ofNat (field b 1 1)
    len := .ofNat (field b 2 2)
    id := .ofNat (field b 4 2)
    df := foVal &&& 0x4000 != 0
    mf := foVal &&& 0x2000 != 0
    offset := foVal &&& 0x1fff
    ttl := .ofNat (field b 8 1)
    proto := .ofNat (field b 9 1)
    cksum := .ofNat (field b 10 2)
    src := .ofNat (field b 12 4)
    dst := .ofNat (field b 16 4) }

theorem toNat_ver (b : Buffer) : (ofBuffer b).ver.toNat = version b := by
  have := field_lt b 0 1
  simp only [ofBuffer, toNat_shiftRight_four, UInt8.toNat_ofNat', version]
  omega

theorem toNat_hlen (b : Buffer) : (ofBuffer b).hlen.toNat = headerWords b := by
  have := field_lt b 0 1
  simp only [ofBuffer, toNat_and_fifteen, UInt8.toNat_ofNat', headerWords]
  omega

theorem toNat_len (b : Buffer) : (ofBuffer b).len.toNat = totalLength b := by
  have := field_lt b 2 2
  simp only [ofBuffer, UInt16.toNat_ofNat', totalLength]
  omega

theorem parseFields_eq (hb : 20 ≤ b.length) :
    parseFields ⟨b, .noError⟩ = (ofBuffer b, ⟨b.drop 20, .noError⟩) := by
  rw [← List.drop_zero (l := b)]
  simp (disch := omega) only [parseFields, NetParser.u8_drop, NetParser.u16_drop,
    NetParser.u32_drop]
  rfl

/-- The check finds no error exactly in headers that fit and have a zero checksum, and it skips
the options exactly when the header fits. -/
theorem check_ofBuffer (b : Buffer) :
    ((ofBuffer b).check b ⟨b.drop 20, .noError⟩).2 =
      ⟨b.drop (if HeaderFits b then 4 * headerWords b else 20), .noError⟩ ∧
    (((ofBuffer b).check b ⟨b.drop 20, .noError⟩).1 = .noError ↔
      HeaderFits b ∧ headerChecksum b = 0) := by
  have hver : (ofBuffer b).ver ≠ 4 ↔ version b ≠ 4 := by
    rw [← toNat_ver, ne_eq, ← UInt8.toNat_inj]
    rfl
  have hhlen : (ofBuffer b).hlen < 5 ↔ headerWords b < 5 := by
    rw [← toNat_hlen, UInt8.lt_iff_toNat_lt]
    rfl
  unfold check
  simp only [hver, hhlen, toNat_hlen, toNat_len]
  by_cases hfits : HeaderFits b
  · have hskip : NetParser.removePrefix ⟨b.drop 20, .noError⟩ (headerWords b * 4 - length) =
        ⟨b.drop (4 * headerWords b), .noError⟩ := by
      obtain ⟨hlong, _, hwords, _⟩ := hfits
      rw [length, NetParser.removePrefix_drop (by omega)]
      congr 2
      omega
    rw [if_pos hfits, iff_true_intro hfits, true_and, headerChecksum]
    obtain ⟨hlong, hv, hwords, htotal⟩ := hfits
    rw [if_neg (by omega), if_neg (by omega), if_neg (by omega), if_neg (by omega), hskip,
      if_neg (not_not_intro rfl)]
    split_ifs with hsum
    · exact ⟨rfl, iff_of_false (by simp) hsum⟩
    · exact ⟨rfl, iff_of_true rfl (not_not.mp hsum)⟩
  · rw [if_neg hfits]
    have hbad : ∀ result : ParseResult, result ≠ .noError →
        (result = .noError ↔ HeaderFits b ∧ headerChecksum b = 0) := fun _ hne =>
      iff_of_false hne fun hc => hfits hc.1
    unfold HeaderFits at hfits
    by_cases hlong : b.length < 4 * headerWords b
    · rw [if_pos hlong]
      exact ⟨rfl, hbad _ (by simp)⟩
    by_cases hv : version b ≠ 4
    · rw [if_neg hlong, if_pos hv]
      exact ⟨rfl, hbad _ (by simp)⟩
    by_cases hwords : headerWords b < 5
    · rw [if_neg hlong, if_neg hv, if_pos hwords]
      exact ⟨rfl, hbad _ (by simp)⟩
    by_cases htotal : b.length ≠ totalLength b
    · rw [if_neg hlong, if_neg hv, if_neg hwords, if_pos htotal]
      exact ⟨rfl, hbad _ (by simp)⟩
    omega

theorem parse_short (hb : b.length < 20) :
    h.parse ⟨b, .noError⟩ = (.packetTooShort, h, ⟨b, .noError⟩) := if_pos hb

theorem parse_long (hb : 20 ≤ b.length) :
    (h.parse ⟨b, .noError⟩).2 =
      (ofBuffer b, ⟨b.drop (if HeaderFits b then 4 * headerWords b else 20), .noError⟩) ∧
    ((h.parse ⟨b, .noError⟩).1 = .noError ↔ HeaderFits b ∧ headerChecksum b = 0) := by
  obtain ⟨hparser, hresult⟩ := check_ofBuffer b
  have hlong : ¬ b.length < length := by
    rw [length]
    omega
  rw [parse, if_neg hlong]
  simp only [parseFields_eq hb]
  exact ⟨by rw [hparser], hresult⟩

theorem toNat_payloadLength (h : IPv4Header) :
    (h.payloadLength.toNat : ℤ) = ((h.len.toNat : ℤ) - 4 * h.hlen.toNat) % 2 ^ 16 := by
  rw [payloadLength, UInt16.ofInt, UInt16.toNat_ofNat']
  omega

end IPv4Header

namespace IPv4Datagram

variable {b : Buffer}

/-- The conditions under which a datagram is to be accepted. -/
def WellFormed (b : Buffer) : Prop := 20 ≤ b.length ∧ HeaderFits b ∧ headerChecksum b = 0

/-- Exactly a well-formed datagram is accepted, with what follows the header as its payload. -/
def ParsedExactly (b : Buffer) : Prop :=
  let parsed := ({} : IPv4Datagram).parse b
  (parsed.1 = .noError ↔ WellFormed b) ∧
    (parsed.1 = .noError → parsed.2.payload.concatenate = b.drop (4 * headerWords b))

/-- The size of the payload that is left for a header that does not fit. -/
def SizeDiffers (b : Buffer) : Prop :=
  (b.length : ℤ) - 20 ≠ ((totalLength b : ℤ) - 4 * headerWords b) % 2 ^ 16

instance (b : Buffer) : Decidable (SizeDiffers b) := inferInstanceAs (Decidable (_ ≠ _))

theorem parse_short (hb : b.length < 20) :
    (({} : IPv4Datagram).parse b).1 = .packetTooShort := by
  rw [parse, IPv4Header.parse_short hb]
  have hsize : BufferList.size [b] ≠ ({} : IPv4Header).payloadLength.toNat := by
    have hlen : ({} : IPv4Header).payloadLength.toNat = 65516 := rfl
    simp only [BufferList.size, List.map_cons, List.map_nil, List.sum_singleton]
    omega
  simp only [if_pos hsize]

theorem parse_long (hb : 20 ≤ b.length) :
    ((({} : IPv4Datagram).parse b).1 = .noError ↔ HeaderFits b ∨ ¬ SizeDiffers b) ∧
      (({} : IPv4Datagram).parse b).2.header = IPv4Header.ofBuffer b ∧
      (({} : IPv4Datagram).parse b).2.payload =
        [b.drop (if HeaderFits b then 4 * headerWords b else 20)] := by
  have hparse := (IPv4Header.parse_long (h := {}) hb).1
  have hlength := (IPv4Header.ofBuffer b).toNat_payloadLength
  rw [IPv4Header.toNat_len, IPv4Header.toNat_hlen] at hlength
  rw [parse]
  simp only [hparse]
  have hsize : BufferList.size [b.drop (if HeaderFits b then 4 * headerWords b else 20)] =
      (IPv4Header.ofBuffer b).payloadLength.toNat ↔ HeaderFits b ∨ ¬ SizeDiffers b := by
    have hlt := field_lt b 2 2
    simp only [BufferList.size, List.map_cons, List.map_nil, List.sum_singleton, List.length_drop]
    by_cases hfits : HeaderFits b
    · rw [if_pos hfits, iff_true_right (Or.inl hfits)]
      obtain ⟨hlong, _, _, htotal⟩ := hfits
      rw [totalLength] at htotal hlength
      omega
    · rw [if_neg hfits, or_iff_right hfits, SizeDiffers]
      omega
  by_cases heq : BufferList.size [b.drop (if HeaderFits b then 4 * headerWords b else 20)] =
      (IPv4Header.ofBuffer b).payloadLength.toNat
  · rw [if_neg (not_not_intro heq)]
    exact ⟨iff_of_true rfl (hsize.mp heq), rfl, rfl⟩
  · rw [if_pos heq]
    exact ⟨iff_of_false (by simp) (mt hsize.mpr heq), rfl, rfl⟩

theorem size_of_parse {d : IPv4Datagram} (h : (d.parse b).1 = .noError) :
    (d.parse b).2.payload.size = (d.parse b).2.header.payloadLength.toNat := by
  unfold parse at h ⊢
  simp only at h ⊢
  split_ifs with hne
  · rw [if_pos hne] at h
    simp at h
  · exact not_not.mp hne

/-- A datagram is parsed as it should be unless its header fits but has a wrong checksum, or does
not fit but names the size of what follows the fixed fields. -/
theorem parsed_exactly_iff (b : Buffer) :
    ParsedExactly b ↔ b.length < 20 ∨ (HeaderFits b ∧ headerChecksum b = 0) ∨
      (¬ HeaderFits b ∧ SizeDiffers b) := by
  unfold ParsedExactly WellFormed
  simp only
  by_cases hb : b.length < 20
  · rw [parse_short hb]
    simp [hb]
  · obtain ⟨hresult, -, hpayload⟩ := parse_long (b := b) (by omega)
    rw [hresult, hpayload]
    by_cases hfits : HeaderFits b
    · simp only [hfits, hb, true_or, not_true_eq_false, false_and, or_false, true_and, if_true,
        forall_const, BufferList.concatenate, List.flatten_cons, List.flatten_nil, List.append_nil,
        and_true, true_iff, false_or, not_lt.mp hb]
    · simp only [hfits, hb, false_or, false_and, and_false, iff_false, not_not, not_false_eq_true,
        true_and]
      exact ⟨And.left, fun h => ⟨h, fun h' => absurd h h'⟩⟩

/-- A datagram of 20 bytes that is right but for a checksum of zero. -/
theorem parse_accepts_bad_checksum :
    let b : Buffer := [0x45, 0, 0, 20] ++ List.replicate 16 0
    (({} : IPv4Datagram).parse b).1 = .noError ∧ headerChecksum b = 0xbaeb ∧ ¬ ParsedExactly b := by
  intro b
  have hparse : (({} : IPv4Datagram).parse b).1 = .noError := by decide
  have hsum : headerChecksum b = 0xbaeb := by decide
  refine ⟨hparse, hsum, fun h => ?_⟩
  have hzero := (h.1.mp hparse).2.2
  rw [hsum] at hzero
  exact absurd hzero (by decide)

end IPv4Datagram

end Sponge
