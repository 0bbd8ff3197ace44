import Sponge.Packet.TCP

/-! # Packets survive the wire

A serializer writes a checksum into a header whose checksum field was zero when it was
computed. The receiver's checksum is then zero, so the parser accepts the packet and reads
back what was written.
-/

namespace Sponge

variable {front rest : Buffer}

theorem wordSum_u16 (val : UInt16) (rest : Buffer) :
    wordSum (NetUnparser.u16 val ++ rest) = val.toNat + wordSum rest := by
  have hval := val.toNat_lt
  have hbytes : NetUnparser.u16 val = [.ofNat (val.toNat / 2 ^ 8), .ofNat val.toNat] := by
    rw [NetUnparser.u16, NetUnparser.unparseInt_succ, NetUnparser.unparseInt_succ]
    rfl
  rw [hbytes]
  simp only [List.cons_append, List.nil_append, wordSum, UInt8.toNat_ofNat']
  omega

theorem wordSum_u16_between (heven : 2 ∣ front.length) (val : UInt16) (rest : Buffer) :
    wordSum (front ++ (NetUnparser.u16 val ++ rest)) =
      wordSum (front ++ (NetUnparser.u16 0 ++ rest)) + val.toNat := by
  rw [wordSum_append heven, wordSum_append heven, wordSum_u16, wordSum_u16]
  simp only [UInt16.toNat_zero]
  omega

/-- With its own checksum in place of a zero, the data has the checksum zero. -/
theorem internetChecksum_patched {initial : ℕ} {val : UInt16} (heven : 2 ∣ front.length)
    (hval : val.toNat = internetChecksum initial (front ++ (NetUnparser.u16 0 ++ rest))) :
    internetChecksum initial (front ++ (NetUnparser.u16 val ++ rest)) = 0 := by
  have hdigit := OnesComplement.digit_add_complement (b := 2 ^ 16) (by norm_num)
    (initial + wordSum (front ++ (NetUnparser.u16 0 ++ rest)))
  rw [internetChecksum] at hval ⊢
  rw [wordSum_u16_between heven, hval, ← add_assoc, hdigit, Nat.sub_self]

theorem BufferList.length_concatenate (bs : BufferList) : bs.concatenate.length = bs.size := by
  rw [concatenate, List.length_flatten, size]

namespace TCPHeader

variable {h : TCPHeader}

def withCksum (h : TCPHeader) (cksum : UInt16) : TCPHeader := { h with cksum := cksum }

/-- What stands before the checksum. -/
def beforeCksum (h : TCPHeader) : Buffer :=
  NetUnparser.u16 h.sport ++ NetUnparser.u16 h.dport ++ NetUnparser.u32 h.seqno.rawValue ++
    NetUnparser.u32 h.ackno.rawValue ++ NetUnparser.u8 (h.doff <<< 4) ++
    NetUnparser.u8 h.flags ++ NetUnparser.u16 h.win

/-- What stands behind the checksum. -/
def afterCksum (h : TCPHeader) : Buffer :=
  NetUnparser.u16 h.uptr ++ List.replicate (4 * h.doff.toNat - 20) 0

/-- The bytes of a serialized header. -/
def bytes (h : TCPHeader) : Buffer := h.beforeCksum ++ (NetUnparser.u16 h.cksum ++ h.afterCksum)

theorem length_beforeCksum (h : TCPHeader) : h.beforeCksum.length = 16 := by
  simp [beforeCksum]

theorem length_bytes (hdoff : 5 ≤ h.doff.toNat) : h.bytes.length = 4 * h.doff.toNat := by
  simp only [bytes, afterCksum, List.length_append, length_beforeCksum, NetUnparser.length_u16,
    List.length_replicate]
  omega

theorem serialize_eq (hdoff : 5 ≤ h.doff.toNat) : h.serialize = .ok h.bytes := by
  have hlong : ¬ h.doff < 5 := by
    rw [UInt8.lt_iff_toNat_lt]
    exact not_lt.mpr hdoff
  rw [serialize, if_neg hlong]
  simp [bytes, beforeCksum, afterCksum]

theorem flags_bits (h : TCPHeader) :
    (h.flags &&& 0x20 != 0) = h.urg ∧ (h.flags &&& 0x10 != 0) = h.ack ∧
      (h.flags &&& 0x08 != 0) = h.psh ∧ (h.flags &&& 0x04 != 0) = h.rst ∧
      (h.flags &&& 0x02 != 0) = h.syn ∧ (h.flags &&& 0x01 != 0) = h.fin := by
  unfold flags
  cases h.urg <;> cases h.ack <;> cases h.psh <;> cases h.rst <;> cases h.syn <;>
    cases h.fin <;> decide

theorem doff_shift (hdoff : h.doff.toNat ≤ 15) : h.doff <<< 4 >>> 4 = h.doff := by
  rw [← UInt8.toNat_inj, IPv4Header.toNat_shiftRight_four, UInt8.toNat_shiftLeft,
    Nat.shiftLeft_eq]
  simp only [UInt8.reduceToNat, Nat.reduceMod]
  omega

theorem ofBuffer_bytes (hdoff : h.doff.toNat ≤ 15) (rest : Buffer) :
    ofBuffer (h.bytes ++ rest) = h := by
  obtain ⟨hurg, hack, hpsh, hrst, hsyn, hfin⟩ := h.flags_bits
  have hlong : 20 ≤ (h.bytes ++ rest).length := by
    simp only [bytes, afterCksum, List.length_append, length_beforeCksum, NetUnparser.length_u16]
    omega
  have hread : (parseFields ⟨h.bytes ++ rest, .noError⟩).1 = h := by
    simp only [parseFields, bytes, beforeCksum, afterCksum, List.append_assoc,
      NetParser.u8_append, NetParser.u16_append, NetParser.u32_append, doff_shift hdoff, hurg,
      hack, hpsh, hrst, hsyn, hfin]
  rw [parseFields_eq hlong] at hread
  exact hread

end TCPHeader

namespace TCPSegment

variable {s seg : TCPSegment} {c : UInt32}

theorem serialize_def (s : TCPSegment) (c : UInt32) :
    s.serialize c = (s.header.withCksum 0).serialize.bind fun headerOut =>
      let check := ((⟨c, false⟩ : InternetChecksum).add headerOut).add s.payload
      (s.header.withCksum check.value).serialize.bind fun header => .ok [header, s.payload] := rfl

theorem serialize_eq (hdoff : 5 ≤ s.header.doff.toNat)
    (hlen : 4 * s.header.doff.toNat + s.payload.length ≤ 65535) (hc : FromLowerLayer c) :
    ∃ cksum : UInt16, s.serialize c = .ok [(s.header.withCksum cksum).bytes, s.payload] ∧
      internetChecksum c.toNat ((s.header.withCksum cksum).bytes ++ s.payload) = 0 := by
  have hheader : ∀ cksum : UInt16, (s.header.withCksum cksum).serialize =
      .ok (s.header.withCksum cksum).bytes := fun _ => TCPHeader.serialize_eq hdoff
  have hlength : ∀ cksum : UInt16, (s.header.withCksum cksum).bytes.length =
      4 * s.header.doff.toNat := fun _ => TCPHeader.length_bytes hdoff
  let cksum := ((⟨c, false⟩ : InternetChecksum).add
    ((s.header.withCksum 0).bytes ++ s.payload)).value
  have hcksum : cksum.toNat =
      internetChecksum c.toNat ((s.header.withCksum 0).bytes ++ s.payload) := by
    refine InternetChecksum.toNat_value c (sum_lt ?_ hc)
    rw [List.length_append, hlength]
    exact hlen
  refine ⟨cksum, ?_, ?_⟩
  · rw [serialize_def, hheader]
    simp only [Except.bind]
    rw [← InternetChecksum.add_append, hheader]
  · have heven : 2 ∣ s.header.beforeCksum.length := by
      rw [TCPHeader.length_beforeCksum]
      norm_num
    rw [TCPHeader.bytes, List.append_assoc, List.append_assoc] at hcksum ⊢
    exact internetChecksum_patched heven hcksum

theorem parse_bytes {cksum : UInt16} (hmin : 5 ≤ s.header.doff.toNat)
    (hmax : s.header.doff.toNat ≤ 15)
    (hlen : 4 * s.header.doff.toNat + s.payload.length ≤ 65535) (hc : FromLowerLayer c)
    (hsum : internetChecksum c.toNat ((s.header.withCksum cksum).bytes ++ s.payload) = 0) :
    seg.parse ((s.header.withCksum cksum).bytes ++ s.payload) c =
      (.noError, { s with header := s.header.withCksum cksum }) := by
  have hlength : (s.header.withCksum cksum).bytes.length = 4 * s.header.doff.toNat :=
    TCPHeader.length_bytes hmin
  have hheader := TCPHeader.ofBuffer_bytes (h := s.header.withCksum cksum) hmax s.payload
  set b := (s.header.withCksum cksum).bytes ++ s.payload with hb
  have hblength : b.length = 4 * s.header.doff.toNat + s.payload.length := by
    rw [hb, List.length_append, hlength]
  have hoffset : dataOffset b = s.header.doff.toNat := by
    rw [← TCPHeader.toNat_doff, hheader]
    rfl
  have hvalue := (checksum_iff (by omega) hc).mpr hsum
  obtain ⟨hfields, herror, hpayload⟩ := TCPHeader.parse_long (b := b) (by omega)
  rw [parse, if_neg (not_not_intro hvalue)]
  simp only [Prod.mk.injEq, TCPSegment.mk.injEq]
  refine ⟨herror.mpr (Or.inr (by omega)), hfields.trans hheader, ?_⟩
  rw [hpayload (by omega) (by omega), hoffset, hb, List.drop_left' hlength]

/-- What is serialized with a checksum of the lower layer is parsed with it, and only the
checksum field differs. -/
theorem parse_serialize_segment (s seg : TCPSegment) {c : UInt32}
    (hmin : 5 ≤ s.header.doff.toNat) (hmax : s.header.doff.toNat ≤ 15)
    (hlen : 4 * s.header.doff.toNat + s.payload.length ≤ 65535) (hc : FromLowerLayer c) :
    ∃ bufs, s.serialize c = .ok bufs ∧ ∃ cksum : UInt16, seg.parse bufs.concatenate c =
      (.noError, { s with header := s.header.withCksum cksum }) := by
  obtain ⟨cksum, hserialize, hsum⟩ := serialize_eq hmin hlen hc
  refine ⟨_, hserialize, cksum, ?_⟩
  simp only [BufferList.concatenate, List.flatten_cons, List.flatten_nil, List.append_nil]
  exact parse_bytes hmin hmax hlen hc hsum

/-- A segment with options and a payload of three bytes, in a datagram from 10.0.0.1. -/
theorem parse_serialize_three_bytes :
    let s : TCPSegment := { header := { doff := 6, syn := true }, payload := [1, 2, 3] }
    let c := ({ src := 0x0a000001 } : IPv4Header).pseudoCksum
    ∃ bufs, s.serialize c = .ok bufs ∧ ∃ cksum : UInt16,
      ({} : TCPSegment).parse bufs.concatenate c =
        (.noError, { s with header := s.header.withCksum cksum }) := by
  intro s c
  exact parse_serialize_segment s {} (by decide) (by decide) (by decide) (Or.inr ⟨_, rfl⟩)

end TCPSegment

namespace IPv4Header

variable {h : IPv4Header}

def withCksum (h : IPv4Header) (cksum : UInt16) : IPv4Header := { h with cksum := cksum }

/-- The version and the length of the header in one byte. -/
def firstByte (h : IPv4Header) : UInt8 := (h.ver <<< 4) ||| (h.hlen &&& 0xf)

/-- The two flags and the offset in one word. -/
def foVal (h : IPv4Header) : UInt16 :=
  (if h.df then 0x4000 else 0) ||| (if h.mf then 0x2000 else 0) ||| (h.offset &&& 0x1fff)

/-- What stands before the checksum. -/
def beforeCksum (h : IPv4Header) : Buffer :=
  NetUnparser.u8 h.firstByte ++ NetUnparser.u8 h.tos ++ NetUnparser.u16 h.len ++
    NetUnparser.u16 h.id ++ NetUnparser.u16 h.foVal ++ NetUnparser.u8 h.ttl ++
    NetUnparser.u8 h.proto

/-- What stands behind the checksum. -/
def afterCksum (h : IPv4Header) : Buffer :=
  NetUnparser.u32 h.src ++ NetUnparser.u32 h.dst ++ List.replicate (4 * h.hlen.toNat - 20) 0

/-- The bytes of a serialized header. -/
def bytes (h : IPv4Header) : Buffer := h.beforeCksum ++ (NetUnparser.u16 h.cksum ++ h.afterCksum)

theorem length_beforeCksum (h : IPv4Header) : h.beforeCksum.length = 10 := by
  simp [beforeCksum]

theorem length_bytes (hhlen : 5 ≤ h.hlen.toNat) : h.bytes.length = 4 * h.hlen.toNat := by
  simp only [bytes, afterCksum, List.length_append, length_beforeCksum, NetUnparser.length_u16,
    NetUnparser.length_u32, List.length_replicate]
  omega

theorem serialize_eq (hver : h.ver = 4) (hhlen : 5 ≤ h.hlen.toNat) :
    h.serialize = .ok h.bytes := by
  have hlong : ¬ 4 * h.hlen.toNat < length := by
    rw [length]
    omega
  rw [serialize, if_neg (not_not_intro hver), if_neg hlong]
  simp [bytes, beforeCksum, afterCksum, firstByte, foVal]

theorem firstByte_bits (hver : h.ver = 4) (hhlen : h.hlen.toNat ≤ 15) :
    h.firstByte >>> 4 = h.ver ∧ h.firstByte &&& 0x0f = h.hlen := by
  have hbyte : h.firstByte.toNat = 2 ^ 4 * 4 + h.hlen.toNat := by
    rw [firstByte, hver, UInt8.toNat_or, toNat_and_fifteen, Nat.mod_eq_of_lt (by omega),
      Nat.two_pow_add_eq_or_of_lt (by omega)]
    rfl
  constructor
  · rw [← UInt8.toNat_inj, toNat_shiftRight_four, hbyte, hver]
    simp only [UInt8.reduceToNat]
    omega
  · rw [← UInt8.toNat_inj, toNat_and_fifteen, hbyte]
    omega

theorem or_and_mask (x y mask : UInt16) : (x ||| y) &&& mask = (x &&& mask) ||| (y &&& mask) := by
  rw [← UInt16.toNat_inj]
  simp only [UInt16.toNat_and, UInt16.toNat_or, Nat.and_or_distrib_right]

theorem foVal_bits (hoffset : h.offset.toNat < 2 ^ 13) :
    (h.foVal &&& 0x4000 != 0) = h.df ∧ (h.foVal &&& 0x2000 != 0) = h.mf ∧
      h.foVal &&& 0x1fff = h.offset := by
  have hmask : h.offset &&& 0x1fff = h.offset := by
    rw [← UInt16.toNat_inj, UInt16.toNat_and]
    exact (Nat.and_two_pow_sub_one_eq_mod _ 13).trans (Nat.mod_eq_of_lt hoffset)
  -- the offset has neither bit
  have hdf : h.offset &&& 0x4000 = 0 := by
    rw [← hmask, UInt16.and_assoc]
    exact UInt16.and_zero
  have hmf : h.offset &&& 0x2000 = 0 := by
    rw [← hmask, UInt16.and_assoc]
    exact UInt16.and_zero
  have h₁ : (0x4000 : UInt16) &&& 0x2000 = 0 := rfl
  have h₂ : (0x2000 : UInt16) &&& 0x4000 = 0 := rfl
  have h₃ : (0x4000 : UInt16) &&& 0x1fff = 0 := rfl
  have h₄ : (0x2000 : UInt16) &&& 0x1fff = 0 := rfl
  rw [foVal, hmask]
  cases h.df <;> cases h.mf <;> simp [or_and_mask, hmask, hdf, hmf, h₁, h₂, h₃, h₄]

theorem ofBuffer_bytes (hver : h.ver = 4) (hhlen : h.hlen.toNat ≤ 15)
    (hoffset : h.offset.toNat < 2 ^ 13) (rest : Buffer) : ofBuffer (h.bytes ++ rest) = h := by
  obtain ⟨hfirst, hwords⟩ := firstByte_bits hver hhlen
  obtain ⟨hdf, hmf, hoff⟩ := foVal_bits hoffset
  have hlong : 20 ≤ (h.bytes ++ rest).length := by
    simp only [bytes, afterCksum, List.length_append, length_beforeCksum, NetUnparser.length_u16,
      NetUnparser.length_u32]
    omega
  have hread : (parseFields ⟨h.bytes ++ rest, .noError⟩).1 = h := by
    simp only [parseFields, bytes, beforeCksum, afterCksum, List.append_assoc,
      NetParser.u8_append, NetParser.u16_append, NetParser.u32_append, hfirst, hwords, hdf, hmf,
      hoff]
  rw [parseFields_eq hlong] at hread
  exact hread

end IPv4Header

namespace IPv4Datagram

variable {d : IPv4Datagram}

theorem serialize_def (hsize : d.payload.size = d.header.payloadLength.toNat) :
    d.serialize = (d.header.withCksum 0).serialize.bind fun headerZeroChecksum =>
      let cksum := (({} : InternetChecksum).add headerZeroChecksum).value
      (d.header.withCksum cksum).serialize.bind fun header => .ok (header :: d.payload) :=
  if_neg (not_not_intro hsize)

theorem serialize_eq (hver : d.header.ver = 4) (hmin : 5 ≤ d.header.hlen.toNat)
    (hmax : d.header.hlen.toNat ≤ 15) (hsize : d.payload.size = d.header.payloadLength.toNat) :
    ∃ cksum : UInt16, d.serialize = .ok ((d.header.withCksum cksum).bytes :: d.payload) ∧
      (({} : InternetChecksum).add (d.header.withCksum cksum).bytes).value = 0 := by
  have hheader : ∀ cksum : UInt16, (d.header.withCksum cksum).serialize =
      .ok (d.header.withCksum cksum).bytes := fun _ => IPv4Header.serialize_eq hver hmin
  have hvalue : ∀ cksum : UInt16,
      (({} : InternetChecksum).add (d.header.withCksum cksum).bytes).value.toNat =
        internetChecksum 0 (d.header.withCksum cksum).bytes := by
    intro cksum
    have hlength : (d.header.withCksum cksum).bytes.length = 4 * d.header.hlen.toNat :=
      IPv4Header.length_bytes hmin
    have hsum := wordSum_le (d.header.withCksum cksum).bytes
    apply InternetChecksum.toNat_value 0
    rw [hlength] at hsum
    rw [UInt32.toNat_zero]
    omega
  let cksum := (({} : InternetChecksum).add (d.header.withCksum 0).bytes).value
  refine ⟨cksum, ?_, ?_⟩
  · rw [serialize_def hsize, hheader]
    simp only [Except.bind]
    rw [hheader]
  · have heven : 2 ∣ d.header.beforeCksum.length := by
      rw [IPv4Header.length_beforeCksum]
      norm_num
    rw [← UInt16.toNat_inj, hvalue]
    exact internetChecksum_patched heven (hvalue 0)

theorem parse_eq_of_long {b : Buffer} (d' : IPv4Datagram) (hb : 20 ≤ b.length) :
    d'.parse b = ({} : IPv4Datagram).parse b := by
  have hlong : ¬ b.length < IPv4Header.length := not_lt.mpr hb
  simp only [parse, IPv4Header.parse, if_neg hlong]

/-- What is serialized would also be accepted by a parser that looks at the checksum. -/
theorem parse_serialized (hver : d.header.ver = 4) (hmin : 5 ≤ d.header.hlen.toNat)
    (hmax : d.header.hlen.toNat ≤ 15) (hoffset : d.header.offset.toNat < 2 ^ 13)
    (hlen : 4 * d.header.hlen.toNat ≤ d.header.len.toNat)
    (hsize : d.payload.size = d.header.len.toNat - 4 * d.header.hlen.toNat) :
    ∃ bufs, d.serialize = .ok bufs ∧ WellFormed bufs.concatenate ∧
      ∃ cksum : UInt16, ∀ d' : IPv4Datagram, d'.parse bufs.concatenate =
        (.noError, { header := d.header.withCksum cksum, payload := [d.payload.concatenate] }) := by
  have hpayload := d.header.toNat_payloadLength
  have hlt := d.header.len.toNat_lt
  obtain ⟨cksum, hserialize, hsum⟩ := serialize_eq hver hmin hmax (by omega)
  refine ⟨_, hserialize, ?_⟩
  have hlength : (d.header.withCksum cksum).bytes.length = 4 * d.header.hlen.toNat :=
    IPv4Header.length_bytes hmin
  have hheader := IPv4Header.ofBuffer_bytes (h := d.header.withCksum cksum) hver hmax hoffset
    d.payload.concatenate
  rw [BufferList.concatenate, List.flatten_cons, ← BufferList.concatenate]
  set b := (d.header.withCksum cksum).bytes ++ d.payload.concatenate with hb
  have hblength : b.length = d.header.len.toNat := by
    rw [hb, List.length_append, hlength, BufferList.length_concatenate, hsize]
    omega
  have hversion : version b = 4 := by
    rw [← IPv4Header.toNat_ver, hheader, IPv4Header.withCksum, hver]
    rfl
  have hwords : headerWords b = d.header.hlen.toNat := by
    rw [← IPv4Header.toNat_hlen, hheader, IPv4Header.withCksum]
  have htotal : totalLength b = d.header.len.toNat := by
    rw [← IPv4Header.toNat_len, hheader, IPv4Header.withCksum]
  have hfits : HeaderFits b := ⟨by omega, hversion, by omega, by omega⟩
  have hcksum : headerChecksum b = 0 := by
    rw [headerChecksum, hwords, hb, List.take_left' hlength]
    exact hsum
  have hlong : 20 ≤ b.length := by omega
  refine ⟨⟨hlong, hfits, hcksum⟩, cksum, fun d' => ?_⟩
  obtain ⟨hresult, hfields, hrest⟩ := parse_long hlong
  rw [if_pos hfits, hwords, hb, List.drop_left' hlength] at hrest
  rw [parse_eq_of_long d' hlong]
  exact Prod.ext (hresult.mpr (Or.inl hfits)) (by rw [← hheader, ← hfields, ← hrest])

/-- What is serialized is parsed without an error, and only the checksum field differs. -/
theorem parse_serialize_datagram (d d' : IPv4Datagram) (hver : d.header.ver = 4)
    (hmin : 5 ≤ d.header.hlen.toNat) (hmax : d.header.hlen.toNat ≤ 15)
    (hoffset : d.header.offset.toNat < 2 ^ 13)
    (hlen : 4 * d.header.hlen.toNat ≤ d.header.len.toNat)
    (hsize : d.payload.size = d.header.len.toNat - 4 * d.header.hlen.toNat) :
    ∃ bufs, d.serialize = .ok bufs ∧ ∃ cksum : UInt16, d'.parse bufs.concatenate =
      (.noError, { header := d.header.withCksum cksum, payload := [d.payload.concatenate] }) := by
  obtain ⟨bufs, hserialize, -, cksum, hparse⟩ := parse_serialized hver hmin hmax hoffset hlen hsize
  exact ⟨bufs, hserialize, cksum, hparse d'⟩

/-- A datagram with options, the last fragment of a longer one, with a payload in two buffers. -/
theorem parse_serialize_two_buffers :
    let d : IPv4Datagram := { header := { hlen := 6, len := 27, df := false, offset := 185 }
                              payload := [[1, 2], [3]] }
    ∃ bufs, d.serialize = .ok bufs ∧ ∃ cksum : UInt16,
      ({} : IPv4Datagram).parse bufs.concatenate =
        (.noError, { header := d.header.withCksum cksum, payload := [d.payload.concatenate] }) := by
  intro d
  exact parse_serialize_datagram d {} rfl (by decide) (by decide) (by decide) (by decide) rfl

end IPv4Datagram

end Sponge
