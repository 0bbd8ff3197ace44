import Mathlib.Data.Set.Basic
import Sponge.Adapter.TCPOverIPv4
import Sponge.Interface.Delivery
import Sponge.Packet.LinkLayer

/-! # Segments in transit

A datagram travels if it survives the wire and brings a segment that was written from its
source to its destination. Routers only lower the time to live, and interfaces only put
datagrams into frames, so it still does when it arrives.
-/

namespace Sponge

namespace TCPSegment

/-- The segment with other ports and another checksum. -/
def readdressed (s : TCPSegment) (sport dport cksum : UInt16) : TCPSegment :=
  { s with header := { s.header with sport := sport, dport := dport, cksum := cksum } }

/-- What a connection looks at. -/
def bare (s : TCPSegment) : TCPSegment := s.readdressed 0 0 0

/-- The segment can be put into a datagram. -/
structure Fits (s : TCPSegment) : Prop where
  min : 5 ≤ s.header.doff.toNat
  max : s.header.doff.toNat ≤ 15
  length : 20 + 4 * s.header.doff.toNat + s.payload.length ≤ 65535

@[simp] theorem bare_readdressed (s : TCPSegment) (sport dport cksum : UInt16) :
    (s.readdressed sport dport cksum).bare = s.bare := rfl

end TCPSegment

/-- What was written from an address to an address. -/
abbrev Written := Address → Address → Set TCPSegment

/-- The segment is one that was written, with ports and a checksum of its own. -/
def Written.Knows (W : Written) (source destination : Address) (s : TCPSegment) : Prop :=
  ∃ g ∈ W source destination, s.bare = g.bare

theorem Written.Knows.mono {W W' : Written} {source destination : Address} {s : TCPSegment}
    (h : W.Knows source destination s) (hW : W ≤ W') : W'.Knows source destination s := by
  obtain ⟨g, hg, heq⟩ := h
  exact ⟨g, hW source destination hg, heq⟩

/-- A valid segment that is read from the payload `b` of a datagram with the header `h` was
written, from the address and the port to the address and the port that it names. -/
def Brings (W : Written) (h : IPv4Header) (b : Buffer) : Prop :=
  ∀ s, ({} : TCPSegment).parse b h.pseudoCksum = (.noError, s) →
    W.Knows ⟨h.src, s.header.sport⟩ ⟨h.dst, s.header.dport⟩ s

/-- The datagram is read back from the wire as it is. -/
structure IPv4Datagram.Survives (d : IPv4Datagram) : Prop where
  ver : d.header.ver = 4
  min : 5 ≤ d.header.hlen.toNat
  max : d.header.hlen.toNat ≤ 15
  offset : d.header.offset.toNat < 2 ^ 13
  len : 4 * d.header.hlen.toNat ≤ d.header.len.toNat
  size : d.payload.size = d.header.len.toNat - 4 * d.header.hlen.toNat

/-- The datagram is read back as it is, and brings what was written. -/
structure IPv4Datagram.Travels (W : Written) (d : IPv4Datagram) : Prop extends d.Survives where
  brings : Brings W d.header d.payload.concatenate

/-- A datagram is read back as the other one: with the checksum it was sent with, and its payload in
one piece. -/
def IPv4Datagram.ReadAs (d d' : IPv4Datagram) : Prop :=
  ∃ cksum, d' = { header := d.header.withCksum cksum, payload := [d.payload.concatenate] }

/-- A frame with a datagram has one that travels. -/
def EthernetFrame.Travels (W : Written) (f : EthernetFrame) : Prop :=
  f.header.type = EthernetHeader.typeIPv4 → ∃ d : IPv4Datagram, d.Travels W ∧ f.Carries d

/-- The bytes of a frame that travels. -/
def FrameBytes (W : Written) (b : Buffer) : Prop :=
  ∃ f : EthernetFrame, f.Travels W ∧ b = f.serialize.concatenate

/-- What waits in an interface travels. -/
def NetworkInterface.Travels (W : Written) (i : NetworkInterface) : Prop :=
  ∀ c ∈ i.pending, c.2.Travels W

namespace IPv4Datagram.Survives

variable {d d' : IPv4Datagram}

instance (d : IPv4Datagram) : Decidable d.Survives :=
  decidable_of_iff (d.header.ver = 4 ∧ 5 ≤ d.header.hlen.toNat ∧ d.header.hlen.toNat ≤ 15 ∧
      d.header.offset.toNat < 2 ^ 13 ∧ 4 * d.header.hlen.toNat ≤ d.header.len.toNat ∧
      d.payload.size = d.header.len.toNat - 4 * d.header.hlen.toNat)
    ⟨fun ⟨hver, hmin, hmax, hoffset, hlen, hsize⟩ => ⟨hver, hmin, hmax, hoffset, hlen, hsize⟩,
      fun h => ⟨h.ver, h.min, h.max, h.offset, h.len, h.size⟩⟩

theorem parsed (h : d.Survives) : ∃ bs, d.serialize = .ok bs ∧
    ∀ d' : IPv4Datagram, ∃ d₁, d'.parse bs.concatenate = (.noError, d₁) ∧ d.ReadAs d₁ := by
  obtain ⟨bs, hbs, -, cksum, hparse⟩ :=
    parse_serialized h.ver h.min h.max h.offset h.len h.size
  exact ⟨bs, hbs, fun d' => ⟨_, hparse d', cksum, rfl⟩⟩

theorem readAs (h : d.Survives) (hread : d.ReadAs d') : d'.Survives := by
  obtain ⟨cksum, rfl⟩ := hread
  refine ⟨h.ver, h.min, h.max, h.offset, h.len, ?_⟩
  change ([d.payload.concatenate].map List.length).sum = _
  rw [List.map_singleton, List.sum_singleton, BufferList.length_concatenate]
  exact h.size

theorem ttl (h : d.Survives) (ttl : UInt8) :
    Survives { d with header := { d.header with ttl := ttl } } :=
  ⟨h.ver, h.min, h.max, h.offset, h.len, h.size⟩

theorem serialize_ok (h : d.Survives) : ∃ bs, d.serialize = .ok bs := by
  obtain ⟨bs, hbs, -⟩ := h.parsed
  exact ⟨bs, hbs⟩

end IPv4Datagram.Survives

namespace IPv4Datagram.Travels

variable {W W' : Written} {d : IPv4Datagram}

theorem mono (h : d.Travels W) (hW : W ≤ W') : d.Travels W' where
  toSurvives := h.toSurvives
  brings s hs := (h.brings s hs).mono hW

theorem ttl (h : d.Travels W) (ttl : UInt8) :
    Travels W { d with header := { d.header with ttl := ttl } } where
  toSurvives := h.toSurvives.ttl ttl
  brings := h.brings

theorem parsed (h : d.Travels W) : ∃ bs, d.serialize = .ok bs ∧
    ∀ d' : IPv4Datagram, ∃ d₁ : IPv4Datagram, d'.parse bs.concatenate = (.noError, d₁) ∧
      d₁.payload = [d.payload.concatenate] ∧ d₁.Travels W := by
  obtain ⟨bs, hbs, hparse⟩ := h.toSurvives.parsed
  refine ⟨bs, hbs, fun d' => ?_⟩
  obtain ⟨d₁, hd₁, hread⟩ := hparse d'
  have hsurvives := h.toSurvives.readAs hread
  obtain ⟨cksum, rfl⟩ := hread
  have hconcatenate : BufferList.concatenate [d.payload.concatenate] = d.payload.concatenate :=
    List.flatten_singleton
  refine ⟨_, hd₁, rfl, hsurvives, ?_⟩
  rw [hconcatenate]
  exact h.brings

theorem serialize_ok (h : d.Travels W) : ∃ bs, d.serialize = .ok bs := h.toSurvives.serialize_ok

end IPv4Datagram.Travels

namespace EthernetFrame

variable {W W' : Written} {f : EthernetFrame} {d : IPv4Datagram} {b : Buffer}

theorem Travels.mono (h : f.Travels W) (hW : W ≤ W') : f.Travels W' := fun htype => by
  obtain ⟨d, hd, hcarries⟩ := h htype
  exact ⟨d, hd.mono hW, hcarries⟩

theorem Carries.travels (h : f.Carries d) (hd : d.Travels W) : f.Travels W :=
  fun _ => ⟨d, hd, h⟩

theorem parse_serialized (f g : EthernetFrame) : g.parse f.serialize.concatenate =
    (.noError, { header := f.header, payload := [f.payload.concatenate] }) := by
  rw [concatenate_serialize, parse, EthernetHeader.parse_append]

theorem travels_of_type (h : f.header.type ≠ EthernetHeader.typeIPv4) : f.Travels W :=
  fun htype => absurd htype h

end EthernetFrame

theorem exists_of_forall₂ {α β : Type*} {R : α → β → Prop} {l : List α} {l' : List β} {b : β}
    (h : List.Forall₂ R l l') (hb : b ∈ l') : ∃ a ∈ l, R a b := by
  induction h with
  | nil => simp at hb
  | cons hab _ ih =>
    rcases List.mem_cons.mp hb with rfl | hb
    · exact ⟨_, List.mem_cons_self, hab⟩
    · obtain ⟨a, ha, hr⟩ := ih hb
      exact ⟨a, List.mem_cons_of_mem _ ha, hr⟩

theorem FrameBytes.mono {W W' : Written} {b : Buffer} (h : FrameBytes W b) (hW : W ≤ W') :
    FrameBytes W' b := by
  obtain ⟨f, hf, rfl⟩ := h
  exact ⟨f, hf.mono hW, rfl⟩

namespace NetworkInterface.Travels

variable {W W' : Written} {i : NetworkInterface} {d : IPv4Datagram} {b : Buffer}

theorem mono (h : i.Travels W) (hW : W ≤ W') : i.Travels W' := fun c hc => (h c hc).mono hW

theorem ready (h : i.Travels W) : i.Ready := fun c hc => (h c hc).serialize_ok

theorem sendDatagram (h : i.Travels W) (hd : d.Travels W) (hop : Address) :
    ∃ i' frames, i.sendDatagram d hop = .ok i' ∧ i'.Travels W ∧
      i'.framesOut = i.framesOut ++ frames ∧ ∀ f ∈ frames, f.Travels W := by
  rcases sendDatagram_cases (i := i) hop hd.serialize_ok with
    ⟨f, -, hcarries, hsend⟩ | ⟨-, -, hsend⟩ | ⟨f, -, -, htype, hsend⟩
  · exact ⟨_, [f], hsend, h, rfl, by simpa using hcarries.travels hd⟩
  · exact ⟨_, [], hsend, h, (List.append_nil _).symm, by simp⟩
  · have harp : f.header.type ≠ EthernetHeader.typeIPv4 := by
      rw [htype]
      decide
    refine ⟨_, [f], hsend, fun c hc => ?_, rfl, by simpa using EthernetFrame.travels_of_type harp⟩
    rcases List.mem_append.mp hc with hc | hc
    · exact h c hc
    · rw [List.mem_singleton.mp hc]
      exact hd

/-- A frame that travels brings a datagram that does, or makes what waits travel. -/
theorem recvFrame (h : i.Travels W) (hb : FrameBytes W b) :
    ∃ ef, ({} : EthernetFrame).parse b = (.noError, ef) ∧
      ∃ i' frames dgram, i.recvFrame ef = .ok (i', dgram) ∧ i'.Travels W ∧
        i'.framesOut = i.framesOut ++ frames ∧ (∀ f ∈ frames, f.Travels W) ∧
        ∀ d ∈ dgram, d.Travels W ∧ ∃ payload, d.payload = [payload] := by
  obtain ⟨f, hf, rfl⟩ := hb
  refine ⟨_, EthernetFrame.parse_serialized f {}, ?_⟩
  set ef : EthernetFrame := { header := f.header, payload := [f.payload.concatenate] }
  rcases recvFrame_cases h.ready ef with hrecv | ⟨-, htype, -, hrecv⟩ |
    ⟨frames, replies, hall, hreplies, hrecv⟩
  · exact ⟨i, [], none, hrecv, h, (List.append_nil _).symm, by simp, by simp⟩
  · obtain ⟨d, hd, hcarries⟩ := hf htype
    obtain ⟨bs, hbs, hparse⟩ := hd.parsed
    obtain ⟨d₁, hd₁, hpayload, htravels⟩ := hparse {}
    have hfront : frontBuffer ef = bs.concatenate := by
      have heq := hcarries.payload
      rw [hbs] at heq
      exact congrArg BufferList.concatenate (Except.ok.inj heq).symm
    rw [hfront, hd₁] at hrecv
    refine ⟨i, [], some d₁, hrecv, h, (List.append_nil _).symm, by simp, ?_⟩
    rintro d' ⟨⟩
    exact ⟨htravels, _, hpayload⟩
  · refine ⟨_, frames ++ replies, none, hrecv, fun c hc => h c (List.mem_of_mem_filter hc), rfl,
      fun g hg => ?_, by simp⟩
    rcases List.mem_append.mp hg with hg | hg
    · obtain ⟨d, hd, hcarries⟩ := exists_of_forall₂ hall hg
      obtain ⟨c, hc, rfl⟩ := List.mem_map.mp hd
      exact hcarries.travels (h c (List.mem_of_mem_filter hc))
    · apply EthernetFrame.travels_of_type
      rw [hreplies g hg]
      decide

end NetworkInterface.Travels

end Sponge
