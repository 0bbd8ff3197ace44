import Sponge.Interface.Basic
import Sponge.Packet.RoundTrip

/-! # TCP over IPv4

An adapter wraps the segments of a connection in datagrams to its peer, and unwraps the
datagrams that come from there. A listening adapter takes the first SYN that reaches its
port, and becomes the mirror of the adapter that sent it.
-/

namespace Sponge

/-- The only buffer of a list of at most one. -/
def BufferList.toBuffer : BufferList → Except String Buffer
  | [] => .ok []
  | [buf] => .ok buf
  | _ => .error
    "BufferList: please use concatenate() to combine a multi-Buffer BufferList into one Buffer"

def IPv4Header.protoTCP : UInt8 := 6

structure FdAdapterConfig where
  source : Address := { ip := 0 }
  destination : Address := { ip := 0 }
  lossRateDn : UInt16 := 0
  lossRateUp : UInt16 := 0
  deriving DecidableEq, Repr

structure TCPOverIPv4Adapter where
  cfg : FdAdapterConfig := {}
  listening : Bool := false
  deriving DecidableEq, Repr

namespace TCPOverIPv4Adapter

/-- What happens to a valid segment from a datagram with the header `h`. -/
def accept (a : TCPOverIPv4Adapter) (h : IPv4Header) (tcpSeg : TCPSegment) :
    Option TCPSegment × TCPOverIPv4Adapter :=
  if tcpSeg.header.dport ≠ a.cfg.source.port then (none, a)
  else if a.listening ∧ ¬ (tcpSeg.header.syn ∧ ¬ tcpSeg.header.rst) then (none, a)
  else
    -- the textual form of an address stands for the address
    let a : TCPOverIPv4Adapter :=
      if a.listening then
        { cfg := { a.cfg with source := { ip := h.dst, port := a.cfg.source.port }
                              destination := { ip := h.src, port := tcpSeg.header.sport } }
          listening := false }
      else a
    if tcpSeg.header.sport ≠ a.cfg.destination.port then (none, a) else (some tcpSeg, a)

/-- The segment in a datagram, if it is valid and related to the connection. -/
def unwrapTcpInIp (a : TCPOverIPv4Adapter) (ipDgram : IPv4Datagram) :
    Except String (Option TCPSegment × TCPOverIPv4Adapter) :=
  if ¬ a.listening ∧ ipDgram.header.dst ≠ a.cfg.source.ipv4Numeric then .ok (none, a)
  else if ¬ a.listening ∧ ipDgram.header.src ≠ a.cfg.destination.ipv4Numeric then .ok (none, a)
  else if ipDgram.header.proto ≠ IPv4Header.protoTCP then .ok (none, a)
  else do
    let buffer ← ipDgram.payload.toBuffer
    let parsed := ({} : TCPSegment).parse buffer ipDgram.header.pseudoCksum
    if parsed.1 ≠ .noError then return (none, a) else return a.accept ipDgram.header parsed.2

/-- The datagram that carries a segment, and the segment with the ports of the connection. -/
def wrapTcpInIp (a : TCPOverIPv4Adapter) (seg : TCPSegment) :
    Except String (IPv4Datagram × TCPSegment) := do
  let seg : TCPSegment := {
    seg with
    header := { seg.header with sport := a.cfg.source.port, dport := a.cfg.destination.port } }
  let header : IPv4Header := {
    src := a.cfg.source.ipv4Numeric
    dst := a.cfg.destination.ipv4Numeric }
  let len := header.hlen.toNat * 4 + seg.header.doff.toNat * 4 + seg.payload.length
  let header : IPv4Header := { header with len := .ofNat len }
  -- the checksum of the segment uses the addresses and the length
  let payload ← seg.serialize header.pseudoCksum
  return ({ header := header, payload := payload }, seg)

/-- The segment `s` as the peer is to receive it, with some checksum. -/
def addressed (a : TCPOverIPv4Adapter) (s : TCPSegment) (cksum : UInt16) : TCPSegment :=
  { s with
    header := {
      s.header with
      sport := a.cfg.source.port
      dport := a.cfg.destination.port
      cksum := cksum } }

/-- The adapter that another one becomes when it takes the first segment of `a`. -/
def mirroredBy (a b : TCPOverIPv4Adapter) : TCPOverIPv4Adapter :=
  { cfg := { b.cfg with source := a.cfg.destination, destination := a.cfg.source }
    listening := false }

/-- The datagram `d` brings the segment `received` from `a` to the adapters at the other end. -/
structure Carries (a : TCPOverIPv4Adapter) (d : IPv4Datagram) (received : TCPSegment) : Prop where
  connected : ∀ b : TCPOverIPv4Adapter, b.listening = false → b.cfg.source = a.cfg.destination →
    b.cfg.destination = a.cfg.source → b.unwrapTcpInIp d = .ok (some received, b)
  opened : ∀ b : TCPOverIPv4Adapter, b.listening = true →
    b.cfg.source.port = a.cfg.destination.port → received.header.syn = true →
      received.header.rst = false → b.unwrapTcpInIp d = .ok (some received, a.mirroredBy b)
  ignored : ∀ b : TCPOverIPv4Adapter, b.listening = true →
    b.cfg.source.port = a.cfg.destination.port →
      ¬ (received.header.syn = true ∧ received.header.rst = false) →
        b.unwrapTcpInIp d = .ok (none, b)

variable {a : TCPOverIPv4Adapter} {d : IPv4Datagram} {s : TCPSegment} {cksum : UInt16}

theorem carries_of_parse {buffer : Buffer} (hpayload : d.payload = [buffer])
    (hsrc : d.header.src = a.cfg.source.ip) (hdst : d.header.dst = a.cfg.destination.ip)
    (hproto : d.header.proto = IPv4Header.protoTCP)
    (hparse : ({} : TCPSegment).parse buffer d.header.pseudoCksum =
      (.noError, a.addressed s cksum)) :
    a.Carries d (a.addressed s cksum) := by
  have hunwrap : ∀ b : TCPOverIPv4Adapter,
      (b.listening = false → b.cfg.source.ip = d.header.dst ∧ b.cfg.destination.ip = d.header.src) →
        b.unwrapTcpInIp d = .ok (b.accept d.header (a.addressed s cksum)) := by
    intro b hb
    have hfirst : ¬ (¬ b.listening ∧ d.header.dst ≠ b.cfg.source.ipv4Numeric) := by
      rintro ⟨hl, hne⟩
      exact hne (hb (by simpa using hl)).1.symm
    have hsecond : ¬ (¬ b.listening ∧ d.header.src ≠ b.cfg.destination.ipv4Numeric) := by
      rintro ⟨hl, hne⟩
      exact hne (hb (by simpa using hl)).2.symm
    rw [unwrapTcpInIp, if_neg hfirst, if_neg hsecond, if_neg (not_not_intro hproto), hpayload]
    simp only [BufferList.toBuffer, bind, Except.bind, hparse]
    rfl
  constructor
  · intro b hl hsource hdestination
    rw [hunwrap b fun _ => ⟨by rw [hsource, hdst], by rw [hdestination, hsrc]⟩]
    simp [accept, addressed, hl, hsource, hdestination]
  · intro b hl hport hsyn hrst
    rw [hunwrap b fun h => by simp [hl] at h]
    simp only [addressed] at hsyn hrst
    simp [accept, addressed, mirroredBy, hl, hport, hsyn, hrst, hsrc, hdst]
  · intro b hl hport hother
    rw [hunwrap b fun h => by simp [hl] at h]
    simp only [addressed] at hother
    simp only [accept, addressed, hl, hport]
    rw [if_neg (not_not_intro rfl), if_pos ⟨trivial, by simpa using hother⟩]

/-- The header of the datagram that carries a segment. -/
def headerOf (a : TCPOverIPv4Adapter) (s : TCPSegment) : IPv4Header :=
  { src := a.cfg.source.ip
    dst := a.cfg.destination.ip
    len := .ofNat (5 * 4 + s.header.doff.toNat * 4 + s.payload.length) }

theorem wrapTcpInIp_def (a : TCPOverIPv4Adapter) (s : TCPSegment) :
    a.wrapTcpInIp s =
      ((a.addressed s s.header.cksum).serialize (a.headerOf s).pseudoCksum).bind fun payload =>
        .ok ({ header := a.headerOf s, payload := payload }, a.addressed s s.header.cksum) := rfl

theorem wrapTcpInIp_eq (a : TCPOverIPv4Adapter) (s : TCPSegment)
    (hmin : 5 ≤ s.header.doff.toNat) (hmax : s.header.doff.toNat ≤ 15)
    (hlen : 20 + 4 * s.header.doff.toNat + s.payload.length ≤ 65535) :
    ∃ (payload : BufferList) (cksum : UInt16),
      a.wrapTcpInIp s = .ok (⟨a.headerOf s, payload⟩, a.addressed s s.header.cksum) ∧
      4 * (a.headerOf s).hlen.toNat ≤ (a.headerOf s).len.toNat ∧
      payload.size = (a.headerOf s).len.toNat - 4 * (a.headerOf s).hlen.toNat ∧
      ({} : TCPSegment).parse payload.concatenate (a.headerOf s).pseudoCksum =
        (.noError, a.addressed s cksum) := by
  have hc : FromLowerLayer (a.headerOf s).pseudoCksum := Or.inr ⟨_, rfl⟩
  have hfits : 4 * s.header.doff.toNat + s.payload.length ≤ 65535 := by omega
  have hwords : (a.headerOf s).hlen.toNat = 5 := rfl
  have htotal : (a.headerOf s).len.toNat = 20 + 4 * s.header.doff.toNat + s.payload.length := by
    rw [headerOf, UInt16.toNat_ofNat']
    omega
  obtain ⟨cksum, hserialize, hsum⟩ :=
    TCPSegment.serialize_eq (s := a.addressed s s.header.cksum) hmin hfits hc
  have hparse : ({} : TCPSegment).parse
      (((a.addressed s s.header.cksum).header.withCksum cksum).bytes ++ s.payload)
      (a.headerOf s).pseudoCksum = (.noError, a.addressed s cksum) :=
    TCPSegment.parse_bytes (s := a.addressed s s.header.cksum) hmin hmax hfits hc hsum
  have hlength : ((a.addressed s s.header.cksum).header.withCksum cksum).bytes.length =
      4 * s.header.doff.toNat :=
    TCPHeader.length_bytes (h := (a.addressed s s.header.cksum).header.withCksum cksum) hmin
  refine ⟨[((a.addressed s s.header.cksum).header.withCksum cksum).bytes, s.payload], cksum, ?_⟩
  refine ⟨?_, ?_, ?_, ?_⟩
  · rw [wrapTcpInIp_def, hserialize]
    rfl
  · omega
  · rw [BufferList.size, List.map_cons, List.map_singleton, List.sum_cons, List.sum_singleton,
      hlength, hwords, htotal]
    omega
  · rw [BufferList.concatenate, List.flatten_cons, List.flatten_singleton]
    exact hparse

/-- A segment that is wrapped, serialized, parsed and unwrapped at the other end is the one that
was sent, with the ports of the connection. -/
theorem wrapTcpInIp_carries (a : TCPOverIPv4Adapter) (s : TCPSegment)
    (hmin : 5 ≤ s.header.doff.toNat) (hmax : s.header.doff.toNat ≤ 15)
    (hlen : 20 + 4 * s.header.doff.toNat + s.payload.length ≤ 65535) :
    ∃ dgram, a.wrapTcpInIp s = .ok (dgram, a.addressed s s.header.cksum) ∧
      ∃ w, dgram.serialize = .ok w ∧
        ∀ d : IPv4Datagram, (d.parse w.concatenate).1 = .noError ∧
          ∃ cksum : UInt16, a.Carries (d.parse w.concatenate).2 (a.addressed s cksum) := by
  obtain ⟨payload, cksum, hwrap, hle, hsize, hparse⟩ := a.wrapTcpInIp_eq s hmin hmax hlen
  have hhlen : (a.headerOf s).hlen.toNat = 5 := rfl
  have hoffset : (a.headerOf s).offset.toNat = 0 := rfl
  obtain ⟨w, hw, -, cksum', hd⟩ := IPv4Datagram.parse_serialized (d := ⟨a.headerOf s, payload⟩) rfl
    hhlen.ge (by rw [hhlen]; norm_num) (by rw [hoffset]; norm_num) hle hsize
  refine ⟨⟨a.headerOf s, payload⟩, hwrap, w, hw, fun d => ?_⟩
  rw [hd d]
  exact ⟨rfl, cksum, carries_of_parse rfl rfl rfl rfl hparse⟩

/-- A SYN from 10.0.0.1, port 1000, to 10.0.0.2, port 80. -/
theorem wrapTcpInIp_carries_syn :
    let a : TCPOverIPv4Adapter := { cfg := { source := { ip := 0x0a000001, port := 1000 }
                                             destination := { ip := 0x0a000002, port := 80 } } }
    let s : TCPSegment := { header := { syn := true } }
    ∃ dgram, a.wrapTcpInIp s = .ok (dgram, a.addressed s s.header.cksum) ∧
      ∃ w, dgram.serialize = .ok w ∧
        ∀ d : IPv4Datagram, (d.parse w.concatenate).1 = .noError ∧
          ∃ cksum : UInt16, a.Carries (d.parse w.concatenate).2 (a.addressed s cksum) := by
  intro a s
  exact wrapTcpInIp_carries a s (by decide) (by decide) (by decide)

end TCPOverIPv4Adapter

end Sponge
