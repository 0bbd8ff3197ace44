import Sponge.Adapter.Basic

/-! # The devices below an adapter

Segments travel in datagrams through a TUN device, in datagrams in frames through a TAP device,
or in the payload of UDP datagrams. Each of these adapters conveys what its peer wrote.
-/

namespace Sponge

open DatagramAdapter

namespace TCPOverIPv4Adapter

variable {W : Written} {a : TCPOverIPv4Adapter} {d : IPv4Datagram} {s : TCPSegment}

theorem wrapTcpInIp_travels (hs : s ∈ W a.cfg.source a.cfg.destination) (hfits : s.Fits) :
    ∃ d seg, a.wrapTcpInIp s = .ok (d, seg) ∧ d.Travels W := by
  obtain ⟨payload, cksum, hwrap, hle, hsize, hparse⟩ :=
    a.wrapTcpInIp_eq s hfits.min hfits.max hfits.length
  have hhlen : (a.headerOf s).hlen.toNat = 5 := rfl
  refine ⟨_, _, hwrap,
    { ver := rfl
      min := hhlen.ge
      max := by rw [hhlen]; norm_num
      offset := by
        change (0 : UInt16).toNat < 2 ^ 13
        decide
      len := hle
      size := hsize
      brings := fun s' hs' => ?_ }⟩
  obtain rfl : a.addressed s cksum = s' := congrArg Prod.snd (hparse.symm.trans hs')
  exact ⟨s, hs, rfl⟩

theorem accept_cases (a : TCPOverIPv4Adapter) (h : IPv4Header) (s : TCPSegment)
    (hconnected : a.listening = false → h.dst = a.cfg.source.ip ∧ h.src = a.cfg.destination.ip) :
    (a.accept h s = (none, a)) ∨
      ∃ a', a.accept h s = (some s, a') ∧ a'.listening = false ∧
        (a.listening = false → a' = a) ∧ a'.cfg.source = ⟨h.dst, s.header.dport⟩ ∧
        a'.cfg.destination = ⟨h.src, s.header.sport⟩ := by
  unfold accept
  by_cases hport : s.header.dport = a.cfg.source.port
  · rw [if_neg (not_not_intro hport)]
    cases hl : a.listening with
    | true =>
      by_cases hsyn : s.header.syn = true ∧ ¬ s.header.rst = true
      · right
        rw [if_neg (by simp [hsyn])]
        simp [hport]
      · left
        rw [if_pos ⟨rfl, hsyn⟩]
    | false =>
      obtain ⟨hdst, hsrc⟩ := hconnected hl
      rw [if_neg (by simp)]
      simp only [Bool.false_eq_true, if_false]
      by_cases hsport : s.header.sport = a.cfg.destination.port
      · right
        rw [if_neg (not_not_intro hsport)]
        refine ⟨a, rfl, hl, fun _ => rfl, ?_, ?_⟩
        · rw [hdst, hport]
        · rw [hsrc, hsport]
      · left
        rw [if_pos hsport]
  · left
    rw [if_pos hport]

theorem unwrapTcpInIp_travels (hd : d.Travels W) (hpayload : ∃ buffer, d.payload = [buffer]) :
    ∃ seg a', a.unwrapTcpInIp d = .ok (seg, a') ∧
      (a.listening = false ∨ a'.listening = true → a' = a) ∧
      ∀ s ∈ seg, a'.listening = false ∧ W.Knows a'.cfg.destination a'.cfg.source s := by
  obtain ⟨buffer, hpayload⟩ := hpayload
  have hnone : ∀ s ∈ (none : Option TCPSegment),
      a.listening = false ∧ W.Knows a.cfg.destination a.cfg.source s := by simp
  unfold unwrapTcpInIp
  split_ifs with hdst hsrc hproto
  · exact ⟨none, a, rfl, fun _ => rfl, hnone⟩
  · exact ⟨none, a, rfl, fun _ => rfl, hnone⟩
  · exact ⟨none, a, rfl, fun _ => rfl, hnone⟩
  · have hconnected : a.listening = false →
        d.header.dst = a.cfg.source.ip ∧ d.header.src = a.cfg.destination.ip := fun hl => by
      simp only [hl, Bool.false_eq_true, not_false_eq_true, true_and, not_not] at hdst hsrc
      exact ⟨hdst, hsrc⟩
    rw [hpayload]
    simp only [BufferList.toBuffer, bind, Except.bind]
    cases hparse : ({} : TCPSegment).parse buffer d.header.pseudoCksum with
    | mk result s =>
      by_cases hok : result = .noError
      · subst hok
        have hbuffer : d.payload.concatenate = buffer := by
          rw [hpayload]
          exact List.flatten_singleton
        have hbrings := hd.brings s (by rw [hbuffer]; exact hparse)
        simp only [ne_eq, not_true_eq_false, if_false]
        rcases a.accept_cases d.header s hconnected with heq | ⟨a', heq, hl, hsame, hown, hpeer⟩
        · rw [heq]
          exact ⟨none, a, rfl, fun _ => rfl, hnone⟩
        · rw [heq]
          refine ⟨some s, a', rfl, fun h => hsame (h.resolve_right (by simp [hl])),
            fun s' hs' => ?_⟩
          obtain rfl := Option.mem_some_iff.mp hs'
          rw [hown, hpeer]
          exact ⟨hl, hbrings⟩
      · simp only [ne_eq, hok, not_false_eq_true, if_true]
        exact ⟨none, a, rfl, fun _ => rfl, hnone⟩

end TCPOverIPv4Adapter

/-! ### IPv4 over a TUN device -/

abbrev TCPOverIPv4OverTunFdAdapter := TCPOverIPv4Adapter

namespace TCPOverIPv4OverTunFdAdapter

def read (a : TCPOverIPv4OverTunFdAdapter) (item : Except Errno Buffer) (_ : Option Refusal) :
    Except Exception (Option TCPSegment × TCPOverIPv4OverTunFdAdapter × List Buffer) := do
  let buffer ← fetch "read" item
  let (pr, ipDgram) := ({} : IPv4Datagram).parse buffer
  if pr ≠ .noError then return (none, a, [])
  else do
    let (seg, a) ← (a.unwrapTcpInIp ipDgram).mapError .runtimeError
    return (seg, a, [])

def write (a : TCPOverIPv4OverTunFdAdapter) (seg : TCPSegment) (refusal : Option Refusal) :
    Except Exception (TCPOverIPv4OverTunFdAdapter × List Buffer × Option Refusal) := do
  let (ipDgram, _) ← (a.wrapTcpInIp seg).mapError .runtimeError
  let bytes ← ipDgram.serialize.mapError .runtimeError
  let refusal ← transmit "writev" [bytes.concatenate] refusal
  return (a, [bytes.concatenate], refusal)

def datagramAdapter : DatagramAdapter TCPOverIPv4OverTunFdAdapter Buffer where
  ends := List.isEmpty
  config a := a.cfg
  configMut a cfg := { a with cfg := cfg }
  listening a := a.listening
  setListening a l := { a with listening := l }
  read := read
  write := write
  tick a _ _ := .ok (a, [])

/-- The bytes of a datagram that travels. -/
def DatagramBytes (W : Written) (b : Buffer) : Prop :=
  ∃ d : IPv4Datagram, d.Travels W ∧ ∃ bs, d.serialize = .ok bs ∧ b = bs.concatenate

def conveys : datagramAdapter.Conveys where
  own a := a.cfg.source
  call := "writev"
  Inv _ _ := True
  Travels := DatagramBytes
  Reaches _ _ := True
  inv_mono _ _ := trivial
  travels_mono := by
    rintro W W' b ⟨d, hd, bs, hbs, rfl⟩ hW
    exact ⟨d, hd.mono hW, bs, hbs, rfl⟩
  unread _ _ _ := ⟨_, rfl⟩
  read {W a b} _ hb _ := by
    obtain ⟨d, hd, bs, hbs, rfl⟩ := hb
    obtain ⟨bs', hbs', hparse⟩ := hd.parsed
    obtain rfl := Except.ok.inj (hbs.symm.trans hbs')
    obtain ⟨d₁, hd₁, hpayload, htravels⟩ := hparse {}
    obtain ⟨seg, a', hunwrap, hsame, hseg⟩ :=
      TCPOverIPv4Adapter.unwrapTcpInIp_travels (a := a) htravels ⟨_, hpayload⟩
    refine ⟨seg, a', [], fun refusal => ?_, trivial, by simp,
      ⟨fun hl => hsame (Or.inl hl) ▸ .refl _ _, fun hl => hsame (Or.inr hl) ▸ .refl _ _⟩, hseg⟩
    change read a (.ok bs.concatenate) refusal = _
    simp only [read, fetch, Except.mapError, bind, Except.bind, hd₁, ne_eq, not_true_eq_false,
      if_false, hunwrap]
    rfl
  write {W a s} _ hs hfits := by
    obtain ⟨d, seg, hwrap, hd⟩ := TCPOverIPv4Adapter.wrapTcpInIp_travels hs hfits
    obtain ⟨bs, hbs⟩ := hd.serialize_ok
    refine ⟨a, [bs.concatenate], fun refusal => ?_, trivial, fun w hw => ?_, .refl _ _⟩
    · change write a s refusal = _
      simp only [write, hwrap, Except.mapError, bind, Except.bind, hbs]
      cases transmit "writev" [bs.concatenate] refusal <;> rfl
    · rw [List.mem_singleton.mp hw]
      exact ⟨d, hd, bs, hbs, rfl⟩
  tick _ _ := ⟨_, [], fun _ => rfl, trivial, by simp, .refl _ _⟩

end TCPOverIPv4OverTunFdAdapter

/-! ### IPv4 over a TAP device -/

structure TCPOverIPv4OverEthernetAdapter extends TCPOverIPv4Adapter where
  interface : NetworkInterface
  nextHop : Address
  deriving DecidableEq, Repr

namespace TCPOverIPv4OverEthernetAdapter

/-- The adapter, and the first frame on the device, which is there to be lost. -/
def new (ethAddress : EthernetAddress) (ipAddress nextHop : Address) :
    TCPOverIPv4OverEthernetAdapter × List Buffer :=
  ({ interface := .new ethAddress ipAddress, nextHop := nextHop },
    [({} : EthernetFrame).serialize.concatenate])

/-- The bytes of the frames that wait. -/
def pending (a : TCPOverIPv4OverEthernetAdapter) : List Buffer :=
  a.interface.framesOut.map fun frame => frame.serialize.concatenate

/-- The adapter when all frames were sent. -/
def emptied (a : TCPOverIPv4OverEthernetAdapter) : TCPOverIPv4OverEthernetAdapter :=
  { a with interface := { a.interface with framesOut := [] } }

/-- Send the frames that wait. -/
def sendPending (a : TCPOverIPv4OverEthernetAdapter) (refusal : Option Refusal) :
    Except Exception (TCPOverIPv4OverEthernetAdapter × List Buffer × Option Refusal) := do
  let refusal ← transmit "writev" a.pending refusal
  return (a.emptied, a.pending, refusal)

def read (a : TCPOverIPv4OverEthernetAdapter) (item : Except Errno Buffer)
    (refusal : Option Refusal) :
    Except Exception (Option TCPSegment × TCPOverIPv4OverEthernetAdapter × List Buffer) := do
  let buffer ← fetch "read" item
  let (pr, frame) := ({} : EthernetFrame).parse buffer
  if pr ≠ .noError then return (none, a, [])
  else do
    let (interface, ipDgram) ← (a.interface.recvFrame frame).mapError .runtimeError
    -- the incoming frame may have caused the interface to send a frame
    let (a, out, _) ← sendPending { a with interface := interface } refusal
    match ipDgram with
    | some ipDgram => do
      let (seg, t) ← (a.unwrapTcpInIp ipDgram).mapError .runtimeError
      return (seg, { a with toTCPOverIPv4Adapter := t }, out)
    | none => return (none, a, out)

def write (a : TCPOverIPv4OverEthernetAdapter) (seg : TCPSegment) (refusal : Option Refusal) :
    Except Exception (TCPOverIPv4OverEthernetAdapter × List Buffer × Option Refusal) := do
  let (ipDgram, _) ← (a.wrapTcpInIp seg).mapError .runtimeError
  let interface ← (a.interface.sendDatagram ipDgram a.nextHop).mapError .runtimeError
  sendPending { a with interface := interface } refusal

def tick (a : TCPOverIPv4OverEthernetAdapter) (msSinceLastTick : ℕ) (refusal : Option Refusal) :
    Except Exception (TCPOverIPv4OverEthernetAdapter × List Buffer) := do
  let (a, out, _) ← sendPending { a with interface := a.interface.tick msSinceLastTick } refusal
  return (a, out)

def datagramAdapter : DatagramAdapter TCPOverIPv4OverEthernetAdapter Buffer where
  ends := List.isEmpty
  config a := a.cfg
  configMut a cfg := { a with cfg := cfg }
  listening a := a.listening
  setListening a l := { a with listening := l }
  read := read
  write := write
  tick := tick

/-- Between its calls no frame waits in the interface. -/
structure Idle (W : Written) (a : TCPOverIPv4OverEthernetAdapter) : Prop where
  travels : a.interface.Travels W
  sent : a.interface.framesOut = []

variable {W : Written} {a : TCPOverIPv4OverEthernetAdapter} {interface : NetworkInterface}
  {frames : List EthernetFrame}

theorem idle_new (ethAddress : EthernetAddress) (ipAddress nextHop : Address) :
    Idle W (new ethAddress ipAddress nextHop).1 :=
  ⟨by simp [new, NetworkInterface.new, NetworkInterface.Travels], rfl⟩

theorem pending_travels (ha : a.interface.framesOut = []) (hi : interface.Travels W)
    (hframes : interface.framesOut = a.interface.framesOut ++ frames)
    (htravels : ∀ f ∈ frames, f.Travels W) :
    Idle W (emptied { a with interface := interface }) ∧
      ∀ b ∈ pending { a with interface := interface }, FrameBytes W b := by
  rw [ha, List.nil_append] at hframes
  refine ⟨⟨hi, rfl⟩, fun b hb => ?_⟩
  obtain ⟨f, hf, rfl⟩ := List.mem_map.mp hb
  exact ⟨f, htravels f (hframes ▸ hf), rfl⟩

def conveys : datagramAdapter.Conveys where
  own a := a.cfg.source
  call := "writev"
  Inv := Idle
  Travels := FrameBytes
  Reaches _ _ := True
  inv_mono h hW := ⟨h.travels.mono hW, h.sent⟩
  travels_mono := FrameBytes.mono
  unread _ _ _ := ⟨_, rfl⟩
  read {W a b} ha hb _ := by
    obtain ⟨ef, hparse, i, frames, dgram, hrecv, hi, hframes, htravels, hdgram⟩ :=
      ha.travels.recvFrame hb
    obtain ⟨hidle, hout⟩ := pending_travels ha.sent hi hframes htravels
    change ∃ seg a' out, (∀ refusal, read a (.ok b) refusal = _) ∧ _
    simp only [read, fetch, Except.mapError, bind, Except.bind, hparse, ne_eq, not_true_eq_false,
      if_false, hrecv, sendPending]
    cases dgram with
    | none =>
      refine ⟨none, _, _, fun refusal => ?_, hidle, hout, Keeps.stays ⟨rfl, rfl, rfl⟩, by simp⟩
      cases transmit "writev" (pending { a with interface := i }) refusal <;> rfl
    | some d =>
      obtain ⟨hd, hpayload⟩ := hdgram d rfl
      obtain ⟨seg, t, hunwrap, hsame, hseg⟩ :=
        TCPOverIPv4Adapter.unwrapTcpInIp_travels (a := a.toTCPOverIPv4Adapter) hd hpayload
      have hkeeps : a.listening = false ∨ t.listening = true →
          datagramAdapter.Keeps (fun a => a.cfg.source) a
            { emptied { a with interface := i } with toTCPOverIPv4Adapter := t } :=
        fun h => by
          obtain rfl := hsame h
          exact ⟨rfl, rfl, rfl⟩
      have hunwrap' : (emptied { a with interface := i }).unwrapTcpInIp d = .ok (seg, t) :=
        hunwrap
      refine ⟨seg, { emptied { a with interface := i } with toTCPOverIPv4Adapter := t }, _,
        fun refusal => ?_, ⟨hidle.travels, hidle.sent⟩, hout,
        ⟨fun hl => hkeeps (Or.inl hl), fun hl => hkeeps (Or.inr hl)⟩, hseg⟩
      cases transmit "writev" (pending { a with interface := i }) refusal with
      | error e => rfl
      | ok r =>
        simp only [hunwrap', pure, Except.pure]
        rfl
  write {W a s} ha hs hfits := by
    obtain ⟨d, seg, hwrap, hd⟩ := TCPOverIPv4Adapter.wrapTcpInIp_travels hs hfits
    obtain ⟨i, frames, hsend, hi, hframes, htravels⟩ := ha.travels.sendDatagram hd a.nextHop
    obtain ⟨hidle, hout⟩ := pending_travels ha.sent hi hframes htravels
    refine ⟨_, _, fun refusal => ?_, hidle, hout, ⟨rfl, rfl, rfl⟩⟩
    change write a s refusal = _
    simp only [write, hwrap, Except.mapError, bind, Except.bind, hsend, sendPending]
    cases transmit "writev" (pending { a with interface := i }) refusal <;> rfl
  tick {W a} ha ms := by
    have hi : (a.interface.tick ms).Travels W := ha.travels
    have hframes : (a.interface.tick ms).framesOut = a.interface.framesOut ++ [] :=
      (List.append_nil _).symm
    obtain ⟨hidle, hout⟩ := pending_travels ha.sent hi hframes (by simp)
    refine ⟨_, _, fun refusal => ?_, hidle, hout, ⟨rfl, rfl, rfl⟩⟩
    change tick a ms refusal = _
    simp only [tick, sendPending, bind, Except.bind]
    cases transmit "writev" (pending { a with interface := a.interface.tick ms }) refusal <;> rfl

end TCPOverIPv4OverEthernetAdapter

/-! ### UDP -/

/-- A UDP datagram on the network. -/
structure UDPDatagram where
  source : Address
  destination : Address
  payload : Buffer
  deriving DecidableEq, Repr

/-- `localAddress` is the address of the UDP socket. -/
structure TCPOverUDPSocketAdapter where
  cfg : FdAdapterConfig := {}
  listening : Bool := false
  localAddress : Address
  deriving DecidableEq, Repr

namespace TCPOverUDPSocketAdapter

/-- `UDPSocket::recv`. -/
def recv (item : Except Errno UDPDatagram) : Except Exception UDPDatagram := do
  let datagram ← fetch "recvfrom" item
  if 65536 < datagram.payload.length then .error (.runtimeError "recvfrom (oversized datagram)")
  else return datagram

def read (a : TCPOverUDPSocketAdapter) (item : Except Errno UDPDatagram) (_ : Option Refusal) :
    Except Exception (Option TCPSegment × TCPOverUDPSocketAdapter × List UDPDatagram) := do
  let datagram ← recv item
  -- is it for us?
  if ¬ a.listening ∧ datagram.source ≠ a.cfg.destination then .ok (none, a, [])
  else
    let (pr, seg) := ({} : TCPSegment).parse datagram.payload 0
    if pr ≠ .noError then .ok (none, a, [])
    else if a.listening then
      if seg.header.syn ∧ ¬ seg.header.rst then
        .ok (some seg,
          { a with cfg := { a.cfg with destination := datagram.source }, listening := false }, [])
      else .ok (none, a, [])
    else .ok (some seg, a, [])

def write (a : TCPOverUDPSocketAdapter) (seg : TCPSegment) (refusal : Option Refusal) :
    Except Exception (TCPOverUDPSocketAdapter × List UDPDatagram × Option Refusal) := do
  let seg := seg.readdressed a.cfg.source.port a.cfg.destination.port seg.header.cksum
  let payload ← (seg.serialize 0).mapError .runtimeError
  let datagram : UDPDatagram := ⟨a.localAddress, a.cfg.destination, payload.concatenate⟩
  let refusal ← transmit "sendmsg" [datagram] refusal
  return (a, [datagram], refusal)

def datagramAdapter : DatagramAdapter TCPOverUDPSocketAdapter UDPDatagram where
  ends _ := false
  config a := a.cfg
  configMut a cfg := { a with cfg := cfg }
  listening a := a.listening
  setListening a l := { a with listening := l }
  read := read
  write := write
  tick a _ _ := .ok (a, [])

/-- The datagram brings what was written from its source to its destination. -/
structure Travels (W : Written) (d : UDPDatagram) : Prop where
  length : d.payload.length ≤ 65536
  brings : ∀ s, ({} : TCPSegment).parse d.payload 0 = (.noError, s) →
    W.Knows d.source d.destination s

variable {W : Written} {a : TCPOverUDPSocketAdapter} {s : TCPSegment}

theorem write_travels (hs : s ∈ W a.localAddress a.cfg.destination) (hfits : s.Fits) :
    ∃ d, (∀ refusal, a.write s refusal =
      (transmit "sendmsg" [d] refusal).map fun r => (a, [d], r)) ∧ Travels W d := by
  have hshort : 4 * s.header.doff.toNat + s.payload.length ≤ 65535 := by
    have := hfits.length
    omega
  let seg := s.readdressed a.cfg.source.port a.cfg.destination.port s.header.cksum
  obtain ⟨cksum, hserialize, hsum⟩ :=
    TCPSegment.serialize_eq (s := seg) hfits.min hshort (Or.inl rfl)
  have hlength : (seg.header.withCksum cksum).bytes.length = 4 * s.header.doff.toNat :=
    TCPHeader.length_bytes (h := seg.header.withCksum cksum) hfits.min
  have hconcatenate : BufferList.concatenate [(seg.header.withCksum cksum).bytes, seg.payload] =
      (seg.header.withCksum cksum).bytes ++ seg.payload := by
    simp [BufferList.concatenate]
  have hparse : ({} : TCPSegment).parse ((seg.header.withCksum cksum).bytes ++ seg.payload) 0 =
      (.noError, { seg with header := seg.header.withCksum cksum }) :=
    TCPSegment.parse_bytes (s := seg) hfits.min hfits.max hshort (Or.inl rfl) hsum
  refine ⟨⟨a.localAddress, a.cfg.destination,
    BufferList.concatenate [(seg.header.withCksum cksum).bytes, seg.payload]⟩, fun refusal => ?_,
    ⟨?_, fun s' hs' => ?_⟩⟩
  · change ((seg.serialize 0).mapError Exception.runtimeError >>= _) = _
    rw [hserialize]
    simp only [Except.mapError, bind, Except.bind]
    generalize transmit "sendmsg" _ refusal = sent
    cases sent <;> rfl
  · rw [hconcatenate, List.length_append, hlength]
    change 4 * s.header.doff.toNat + s.payload.length ≤ 65536
    omega
  · rw [hconcatenate, hparse] at hs'
    obtain rfl := congrArg Prod.snd hs'
    exact ⟨s, hs, rfl⟩

def conveys : datagramAdapter.Conveys where
  own a := a.localAddress
  call := "sendmsg"
  Inv _ _ := True
  Travels := Travels
  Reaches d a := d.destination = a.localAddress
  inv_mono _ _ := trivial
  travels_mono h hW := ⟨h.length, fun s hs => (h.brings s hs).mono hW⟩
  unread _ _ _ := ⟨_, rfl⟩
  read {W a d} _ hd hr := by
    have hnone : ∀ s ∈ (none : Option TCPSegment),
        a.listening = false ∧ W.Knows a.cfg.destination a.localAddress s := by simp
    have hstays : datagramAdapter.Stays (fun a => a.localAddress) a a := Keeps.stays (.refl _ _)
    change ∃ seg a' out, (∀ refusal, read a (.ok d) refusal = _) ∧ _
    have hrecv : recv (.ok d) = .ok d := if_neg (not_lt.mpr hd.length)
    simp only [read, hrecv, bind, Except.bind]
    cases hparse : ({} : TCPSegment).parse d.payload 0 with
    | mk result s =>
      by_cases hother : ¬ a.listening ∧ d.source ≠ a.cfg.destination
      · rw [if_pos hother]
        exact ⟨none, a, [], fun _ => rfl, trivial, by simp, hstays, hnone⟩
      · rw [if_neg hother]
        by_cases hok : result = .noError
        · subst hok
          have hbrings := hd.brings s hparse
          rw [hr] at hbrings
          simp only [ne_eq, not_true_eq_false, if_false]
          cases hl : a.listening with
          | true =>
            simp only [if_true]
            by_cases hsyn : s.header.syn = true ∧ ¬ s.header.rst = true
            · rw [if_pos hsyn]
              refine ⟨some s, _, [], fun _ => rfl, trivial, by simp, ⟨fun hl' => ?_, fun hl' => ?_⟩,
                fun s' hs' => ?_⟩
              · exact absurd (hl.symm.trans hl') (by decide)
              · exact absurd hl' Bool.false_ne_true
              · obtain rfl := Option.mem_some_iff.mp hs'
                exact ⟨rfl, hbrings⟩
            · rw [if_neg hsyn]
              exact ⟨none, a, [], fun _ => rfl, trivial, by simp, hstays, hnone⟩
          | false =>
            have hsource : d.source = a.cfg.destination := by simpa [hl] using hother
            rw [hsource] at hbrings
            simp only [Bool.false_eq_true, if_false]
            refine ⟨some s, a, [], fun _ => rfl, trivial, by simp, hstays, fun s' hs' => ?_⟩
            obtain rfl := Option.mem_some_iff.mp hs'
            exact ⟨hl, hbrings⟩
        · simp only [ne_eq, hok, not_false_eq_true, if_true]
          exact ⟨none, a, [], fun _ => rfl, trivial, by simp, hstays, hnone⟩
  write _ hs hfits := by
    obtain ⟨d, hwrite, hd⟩ := write_travels hs hfits
    refine ⟨_, [d], hwrite, trivial, fun w hw => ?_, .refl _ _⟩
    rw [List.mem_singleton.mp hw]
    exact hd
  tick _ _ := ⟨_, [], fun _ => rfl, trivial, by simp, .refl _ _⟩

instance (d : UDPDatagram) (a : TCPOverUDPSocketAdapter) : Decidable (conveys.Reaches d a) :=
  inferInstanceAs (Decidable (d.destination = a.localAddress))

end TCPOverUDPSocketAdapter

end Sponge
