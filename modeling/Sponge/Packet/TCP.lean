import Sponge.Packet.IPv4
import Sponge.Sequence.Segment

/-! # TCP segments on the wire

The header parser reports a data offset that is too small, but leaves no error in the
parser. The segment parser only looks at the parser, so it accepts such a segment.
-/

namespace Sponge

namespace TCPHeader

def length : ℕ := 20

/-- The fixed fields of a header, in their order on the wire. -/
def parseFields (p : NetParser) : TCPHeader × NetParser :=
  let (sport, p) := p.u16
  let (dport, p) := p.u16
  let (seqno, p) := p.u32
  let (ackno, p) := p.u32
  let (doffByte, p) := p.u8
  let (flB, p) := p.u8
  let (win, p) := p.u16
  let (cksum, p) := p.u16
  let (uptr, p) := p.u16
  ({ sport := sport, dport := dport, seqno := ⟨seqno⟩, ackno := ⟨ackno⟩, doff := doffByte >>> 4
     urg := flB &&& 0x20 != 0, ack := flB &&& 0x10 != 0, psh := flB &&& 0x08 != 0
     rst := flB &&& 0x04 != 0, syn := flB &&& 0x02 != 0, fin := flB &&& 0x01 != 0
     win := win, cksum := cksum, uptr := uptr }, p)

/-- Check the data offset of a header, and skip its options. -/
def skipOptions (h : TCPHeader) (p : NetParser) : ParseResult × NetParser :=
  if h.doff < 5 then (.headerTooShort, p)
  else
    let p := p.removePrefix (h.doff.toNat * 4 - length)
    if p.error ≠ .noError then (p.error, p) else (.noError, p)

/-- The result, the header and the parser after the header. -/
def parse (p : NetParser) : ParseResult × TCPHeader × NetParser :=
  let fields := parseFields p
  let skipped := fields.1.skipOptions fields.2
  (skipped.1, fields.1, skipped.2)

/-- The byte of flags. -/
def flags (h : TCPHeader) : UInt8 :=
  (if h.urg then 0x20 else 0) ||| (if h.ack then 0x10 else 0) ||| (if h.psh then 0x08 else 0) |||
    (if h.rst then 0x04 else 0) ||| (if h.syn then 0x02 else 0) ||| (if h.fin then 0x01 else 0)

/-- Serialize the header, without computing the checksum. -/
def serialize (h : TCPHeader) : Except String Buffer :=
  if h.doff < 5 then .error "TCP header too short"
  else
    let ret := NetUnparser.u16 h.sport ++ NetUnparser.u16 h.dport ++
      NetUnparser.u32 h.seqno.rawValue ++ NetUnparser.u32 h.ackno.rawValue ++
      NetUnparser.u8 (h.doff <<< 4) ++ NetUnparser.u8 h.flags ++ NetUnparser.u16 h.win ++
      NetUnparser.u16 h.cksum ++ NetUnparser.u16 h.uptr
    -- expand the header to the advertised size
    .ok (ret ++ List.replicate (4 * h.doff.toNat - ret.length) 0)

end TCPHeader

namespace TCPSegment

def parse (seg : TCPSegment) (buffer : Buffer) (datagramLayerChecksum : UInt32) :
    ParseResult × TCPSegment :=
  if ((⟨datagramLayerChecksum, false⟩ : InternetChecksum).add buffer).value ≠ 0 then
    (.badChecksum, seg)
  else
    let (_, header, p) := TCPHeader.parse { buffer := buffer }
    (p.error, { header := header, payload := p.buffer })

def serialize (seg : TCPSegment) (datagramLayerChecksum : UInt32) : Except String BufferList := do
  let headerOut ← ({ seg.header with cksum := 0 } : TCPHeader).serialize
  let check := ((⟨datagramLayerChecksum, false⟩ : InternetChecksum).add headerOut).add seg.payload
  let header ← ({ seg.header with cksum := check.value } : TCPHeader).serialize
  return [header, seg.payload]

end TCPSegment

/-- The length of the header in units of four bytes, as the segment names it. -/
def dataOffset (b : Buffer) : ℕ := field b 12 1 / 2 ^ 4

namespace TCPHeader

variable {b : Buffer}

/-- The fields of a header at the start of a buffer. -/
def ofBuffer (b : Buffer) : TCPHeader :=
  let flB : UInt8 := .ofNat (field b 13 1)
  { sport := .ofNat (field b 0 2)
    dport := .ofNat (field b 2 2)
    seqno := ⟨.ofNat (field b 4 4)⟩
    ackno := ⟨.ofNat (field b 8 4)⟩
    doff := UInt8.ofNat (field b 12 1) >>> 4
    urg := flB &&& 0x20 != 0
    ack := flB &&& 0x10 != 0
    psh := flB &&& 0x08 != 0
    rst := flB &&& 0x04 != 0
    syn := flB &&& 0x02 != 0
    fin := flB &&& 0x01 != 0
    win := .ofNat (field b 14 2)
    cksum := .ofNat (field b 16 2)
    uptr := .ofNat (field b 18 2) }

theorem toNat_doff (b : Buffer) : (ofBuffer b).doff.toNat = dataOffset b := by
  have := field_lt b 12 1
  simp only [ofBuffer, IPv4Header.toNat_shiftRight_four, UInt8.toNat_ofNat', dataOffset]
  omega

theorem parseFields_eq (hb : 20 ≤ b.length) :
    parseFields ⟨b, .noError⟩ = (ofBuffer b, ⟨b.drop 20, .noError⟩) := by
  rw [← List.drop_zero (l := b)]
  simp (disch := omega) only [parseFields, NetParser.u8_drop, NetParser.u16_drop,
    NetParser.u32_drop]
  rfl

theorem took_parseFields (p : NetParser) : NetParser.Took p (parseFields p).2 20 := by
  have h16 := NetParser.took_u16
  have h32 := NetParser.took_u32
  have h8 := NetParser.took_u8
  unfold parseFields
  -- only what the reads take matters, not what they return
  revert h16 h32 h8
  generalize NetParser.u16 = f16
  generalize NetParser.u32 = f32
  generalize NetParser.u8 = f8
  intro h16 h32 h8
  have h₁ := (h16 p).trans (h16 _)
  have h₂ := h₁.trans (h32 _)
  have h₃ := h₂.trans (h32 _)
  have h₄ := h₃.trans (h8 _)
  have h₅ := h₄.trans (h8 _)
  have h₆ := h₅.trans (h16 _)
  have h₇ := h₆.trans (h16 _)
  exact h₇.trans (h16 _)

theorem skipOptions_error {h : TCPHeader} {p : NetParser}
    (hok : (h.skipOptions p).2.error = .noError) : p.error = .noError := by
  unfold skipOptions at hok
  simp only at hok
  split_ifs at hok with hdoff
  · exact hok
  · exact (p.took_removePrefix _).ok hok
  · exact (p.took_removePrefix _).ok hok

theorem parse_short (hb : b.length < 20) : (parse ⟨b, .noError⟩).2.2.error ≠ .noError := by
  intro hok
  have hfields : (parseFields ⟨b, .noError⟩).2.error = .noError := skipOptions_error hok
  have hlen := (took_parseFields ⟨b, .noError⟩).length hfields
  simp only at hlen
  omega

/-- A header that can be read leaves an error only if its options go past the end. -/
theorem parse_long (hb : 20 ≤ b.length) :
    (parse ⟨b, .noError⟩).2.1 = ofBuffer b ∧
      ((parse ⟨b, .noError⟩).2.2.error = .noError ↔
        dataOffset b < 5 ∨ 4 * dataOffset b ≤ b.length) ∧
      (5 ≤ dataOffset b → 4 * dataOffset b ≤ b.length →
        (parse ⟨b, .noError⟩).2.2.buffer = b.drop (4 * dataOffset b)) := by
  have hdoff : (ofBuffer b).doff < 5 ↔ dataOffset b < 5 := by
    rw [← toNat_doff, UInt8.lt_iff_toNat_lt]
    rfl
  have hparse : (parse ⟨b, .noError⟩).2 =
      (ofBuffer b, ((ofBuffer b).skipOptions ⟨b.drop 20, .noError⟩).2) := by
    rw [parse, parseFields_eq hb]
  rw [hparse, skipOptions, toNat_doff, length]
  simp only [hdoff]
  by_cases hshort : dataOffset b < 5
  · rw [if_pos hshort]
    exact ⟨trivial, iff_of_true rfl (Or.inl hshort), fun hle => by omega⟩
  rw [if_neg hshort]
  by_cases hlong : 4 * dataOffset b ≤ b.length
  · have hskip : 20 + (dataOffset b * 4 - 20) = 4 * dataOffset b := by omega
    rw [NetParser.removePrefix_drop (by omega), if_neg (not_not_intro rfl), hskip]
    exact ⟨trivial, iff_of_true rfl (Or.inr hlong), fun _ _ => rfl⟩
  · have herror : (NetParser.removePrefix ⟨b.drop 20, .noError⟩ (dataOffset b * 4 - 20)).error ≠
        .noError := fun hok => by
      have hlen := (NetParser.took_removePrefix ⟨b.drop 20, .noError⟩ _).length hok
      simp only [List.length_drop] at hlen
      omega
    rw [if_pos herror]
    exact ⟨trivial, iff_of_false herror (by omega), fun _ hle => absurd hle hlong⟩

end TCPHeader

namespace IPv4Header

theorem toNat_halves_le (address : UInt32) : (halves address).toNat ≤ 2 * (2 ^ 16 - 1) := by
  have := address.toNat_lt
  rw [halves, InternetChecksum.toNat_fold]
  omega

theorem toNat_pseudoCksum_le (h : IPv4Header) :
    h.pseudoCksum.toNat ≤ 5 * (2 ^ 16 - 1) + (2 ^ 8 - 1) := by
  have hsrc := toNat_halves_le h.src
  have hdst := toNat_halves_le h.dst
  have hproto := h.proto.toNat_lt
  have hlen := h.payloadLength.toNat_lt
  unfold pseudoCksum
  simp only [UInt32.toNat_add, UInt8.toNat_toUInt32, UInt16.toNat_toUInt32]
  omega

end IPv4Header

/-- The checksum of a lower layer that a TCP segment can be parsed or serialized with. -/
def FromLowerLayer (c : UInt32) : Prop := c = 0 ∨ ∃ h : IPv4Header, c = h.pseudoCksum

namespace TCPSegment

variable {b : Buffer} {c : UInt32}

/-- The conditions under which a segment is to be accepted. -/
structure WellFormed (b : Buffer) (c : UInt32) : Prop where
  checksum : internetChecksum c.toNat b = 0
  long : 20 ≤ b.length
  minimum : 5 ≤ dataOffset b
  fits : 4 * dataOffset b ≤ b.length

/-- Exactly a well-formed segment is accepted, with what follows the header as its payload. -/
structure ParsedExactly (seg : TCPSegment) (b : Buffer) (c : UInt32) : Prop where
  accepts : (seg.parse b c).1 = .noError ↔ WellFormed b c
  payload : (seg.parse b c).1 = .noError → (seg.parse b c).2.payload = b.drop (4 * dataOffset b)

theorem sum_lt (hb : b.length ≤ 65535) (hc : FromLowerLayer c) :
    c.toNat + wordSum b < 2 ^ 32 := by
  have hsum := wordSum_le b
  have hle : c.toNat ≤ 5 * (2 ^ 16 - 1) + (2 ^ 8 - 1) := by
    rcases hc with rfl | ⟨h, rfl⟩
    · exact Nat.zero_le _
    · exact h.toNat_pseudoCksum_le
  omega

theorem checksum_iff (hb : b.length ≤ 65535) (hc : FromLowerLayer c) :
    ((⟨c, false⟩ : InternetChecksum).add b).value = 0 ↔ internetChecksum c.toNat b = 0 := by
  rw [← InternetChecksum.toNat_value c (sum_lt hb hc), ← UInt16.toNat_inj]
  rfl

/-- What is accepted has the right checksum, a whole header, and room for the options if the
data offset is not too small. -/
theorem parse_ok_iff (seg : TCPSegment) (hb : b.length ≤ 65535) (hc : FromLowerLayer c) :
    (seg.parse b c).1 = .noError ↔ internetChecksum c.toNat b = 0 ∧ 20 ≤ b.length ∧
      (dataOffset b < 5 ∨ 4 * dataOffset b ≤ b.length) := by
  unfold parse
  rw [← checksum_iff hb hc]
  by_cases hsum : ((⟨c, false⟩ : InternetChecksum).add b).value = 0
  · rw [if_neg (not_not_intro hsum), iff_true_intro hsum, true_and]
    simp only
    by_cases hlong : 20 ≤ b.length
    · rw [(TCPHeader.parse_long hlong).2.1, iff_true_intro hlong, true_and]
    · exact iff_of_false (TCPHeader.parse_short (by omega)) fun h => hlong h.1
  · rw [if_pos hsum]
    exact iff_of_false (by simp) fun h => hsum h.1

theorem parse_eq_of_checksum (seg : TCPSegment)
    (hsum : ((⟨c, false⟩ : InternetChecksum).add b).value = 0) :
    (seg.parse b c).2 = { header := (TCPHeader.parse ⟨b, .noError⟩).2.1
                          payload := (TCPHeader.parse ⟨b, .noError⟩).2.2.buffer } := by
  unfold parse
  rw [if_neg (not_not_intro hsum)]

/-- A segment is parsed as it should be unless it has the right checksum and a whole header
whose data offset is too small. -/
theorem segment_parsed_exactly_iff (seg : TCPSegment) (hb : b.length ≤ 65535)
    (hc : FromLowerLayer c) :
    ParsedExactly seg b c ↔
      internetChecksum c.toNat b ≠ 0 ∨ b.length < 20 ∨ 5 ≤ dataOffset b := by
  have hok := seg.parse_ok_iff hb hc
  constructor
  · intro h
    by_contra hbad
    simp only [not_or, not_not, not_lt, not_le] at hbad
    obtain ⟨hsum, hlong, hdoff⟩ := hbad
    have hminimum := (h.accepts.mp (hok.mpr ⟨hsum, hlong, Or.inl hdoff⟩)).minimum
    omega
  · intro h
    have haccepts : (seg.parse b c).1 = .noError ↔ WellFormed b c := by
      rw [hok]
      constructor
      · rintro ⟨hsum, hlong, hdoff⟩
        have hminimum : 5 ≤ dataOffset b := by
          rcases h with h | h | h
          · exact absurd hsum h
          · omega
          · exact h
        exact ⟨hsum, hlong, hminimum, hdoff.resolve_left (by omega)⟩
      · exact fun h => ⟨h.checksum, h.long, Or.inr h.fits⟩
    refine ⟨haccepts, fun hp => ?_⟩
    have hwell := haccepts.mp hp
    rw [seg.parse_eq_of_checksum ((checksum_iff hb hc).mpr hwell.checksum)]
    exact (TCPHeader.parse_long hwell.long).2.2 hwell.minimum hwell.fits

/-- A well-formed segment with a payload of three bytes, which is accepted. -/
theorem parsed_exactly_three_bytes :
    let b : Buffer := List.replicate 12 0 ++ [0x50, 0, 0, 0, 0xac, 0x0a, 0, 0, 1, 2, 3]
    let c := ({} : IPv4Header).pseudoCksum
    (({} : TCPSegment).parse b c).1 = .noError ∧ ParsedExactly {} b c := by
  intro b c
  exact ⟨by decide, (segment_parsed_exactly_iff {} (by decide) (Or.inr ⟨{}, rfl⟩)).mpr
    (Or.inr (Or.inr (by decide)))⟩

/-- A segment of 20 bytes with a data offset of 4 and the right checksum. -/
theorem parse_accepts_small_offset :
    let b : Buffer := List.replicate 12 0 ++ [0x40, 0, 0, 0, 0xbf, 0xff, 0, 0]
    (({} : TCPSegment).parse b 0).1 = .noError ∧ dataOffset b = 4 ∧ ¬ ParsedExactly {} b 0 := by
  intro b
  have hparse : (({} : TCPSegment).parse b 0).1 = .noError := by decide
  refine ⟨hparse, by decide, fun h => ?_⟩
  have hminimum := (h.accepts.mp hparse).minimum
  exact absurd hminimum (by decide)

end TCPSegment

end Sponge
