import Sponge.Network.Basic
import Sponge.Stream.Refinement

/-! # What is delivered was sent

As long as no read asks for more bytes than are buffered, the inbound stream of each
endpoint is a prefix of what the other one accepted. It ends only after the FIN was
sent, and then it holds all bytes sent before the FIN.
-/

namespace Sponge

open Blocks Layout Runs TCPSender

/-- The inbound bytes of `y` are a prefix of those that `x` accepted, and all that `x` sent
before its FIN once they have ended. -/
structure StreamSafe (x y : Endpoint) : Prop where
  inbound : y.inbound <+: x.accepted
  ended : y.conn.inboundStream.inputEnded = true →
    x.conn.sender.stream.inputEnded = true ∧ x.conn.sender.finSent = true ∧ y.inbound = x.sent

theorem TCPSegment.Placed.bytes_push {S : List UInt8} {seg : TCPSegment} {index : ℕ}
    (hplaced : seg.Placed S index) {m : ByteMap} (hsmall : m.read + m.capacity < 2 ^ 32)
    (hbytes : ∀ p b, m.bytes.value p = some b → S[p]? = some b) {p : ℕ} {b : UInt8}
    (hb : (m.push seg.payload index).bytes.value p = some b) : S[p]? = some b := by
  rw [ByteMap.value_push] at hb
  split_ifs at hb with hw
  · cases hv : m.bytes.value p with
    | some a => exact hbytes p b (by simpa [hv] using hb)
    | none => exact hplaced.bytes p (by omega) b hw.2.2 (by simpa [hv] using hb)
  · exact hbytes p b hb

/-- Each byte that the endpoint keeps or has delivered is the byte of `S` at its position. The
announced end is that of `S`, up to whole rounds. -/
structure Delivers (S : List UInt8) (finSent : Bool) (capacity : ℕ) (e : Endpoint) : Prop where
  map : ∃ t m, t.reassembler = e.conn.receiver.reassembler ∧ t.taken = e.received ∧
    Refines t m ∧ m.capacity = capacity ∧ ∀ p b, m.bytes.value p = some b → S[p]? = some b
  pending : e.conn.receiver.reassembler.eof2 = 2 ^ 64 - 1 ∨ (finSent = true ∧
    (S = [] ∨ e.conn.receiver.reassembler.eof2 % 2 ^ 32 = S.length))
  ended : e.conn.inboundStream.inputEnded = true →
    finSent = true ∧ e.conn.receiver.reassembler.unasb = S.length

namespace Delivers

variable {S S' : List UInt8} {finSent finSent' : Bool} {capacity : ℕ} {e : Endpoint}
  {o : TCPConnection.Op} {seg : TCPSegment} {isn : WrappingInt32}

theorem new {cfg : TCPConfig} (h : cfg.recvCapacity.toNat < 2 ^ 31) :
    Delivers [] false cfg.recvCapacity.toNat (.new cfg) where
  map := ⟨_, _, rfl, rfl, .new h, rfl, by simp [ByteMap.new]⟩
  pending := Or.inl rfl
  ended := by
    simp [Endpoint.new, TCPConnection.inboundStream, TCPReceiver.streamOut, TCPConnection.new,
      TCPReceiver.new, StreamReassembler.new, ByteStream.new, ByteStream.inputEnded]

theorem grow (h : Delivers S finSent capacity e) (hS : S <+: S')
    (hfin : finSent = true → S = S' ∧ finSent' = true) : Delivers S' finSent' capacity e := by
  obtain ⟨t, m, hr, ht, href, hcap, hbytes⟩ := h.map
  refine
    { map := ⟨t, m, hr, ht, href, hcap, fun p b hb => ?_⟩
      pending := ?_
      ended := fun he => ?_ }
  · obtain ⟨rest, rfl⟩ := hS
    have hb' := hbytes p b hb
    rwa [List.getElem?_append_left (List.getElem?_eq_some_iff.mp hb').1]
  · rcases h.pending with he | ⟨hf, he⟩
    · exact Or.inl he
    · obtain ⟨rfl, hf'⟩ := hfin hf
      exact Or.inr ⟨hf', he⟩
  · obtain ⟨hf, hu⟩ := h.ended he
    obtain ⟨rfl, hf'⟩ := hfin hf
    exact ⟨hf', hu⟩

theorem inbound (h : Delivers S finSent capacity e) :
    e.inbound <+: S ∧ e.inbound.length = e.conn.receiver.reassembler.unasb := by
  obtain ⟨t, m, hr, ht, href, _, hbytes⟩ := h.map
  have hin : m.bytes.contents = e.inbound := by
    rw [href.contents, ht, hr]
    rfl
  rw [← hin]
  exact ⟨GapMap.contents_isPrefix hbytes, by rw [GapMap.length_contents, href.firstGap, hr]⟩

theorem unasb_le (h : Delivers S finSent capacity e) :
    e.conn.receiver.reassembler.unasb ≤ S.length := by
  rw [← h.inbound.2]
  exact h.inbound.1.length_le

theorem endAfter (h : Delivers S finSent capacity e) (hS : S.length < 2 ^ 32) {index : ℕ}
    (hplaced : seg.Placed S index) (hfin : seg.header.fin = true → finSent = true) :
    let last := e.conn.receiver.reassembler.endAfter seg.payload index seg.header.fin
    last = 2 ^ 64 - 1 ∨ (finSent = true ∧ (S = [] ∨ last % 2 ^ 32 = S.length)) := by
  intro last
  have hlast : last = if seg.header.fin then (index + seg.payload.length) % 2 ^ 64
      else e.conn.receiver.reassembler.eof2 := rfl
  by_cases hf : seg.header.fin = true
  · rw [if_pos hf] at hlast
    refine Or.inr ⟨hfin hf, (hplaced.fin hf).imp_right fun heq => ?_⟩
    omega
  · rw [if_neg hf] at hlast
    rw [hlast]
    exact h.pending

/-- A push that agrees with `S` where the window is. -/
theorem push (h : Delivers S finSent capacity e) (hS : S.length + capacity < 2 ^ 31)
    {index : ℕ} {e' : Endpoint} (hreceived : e'.received = e.received)
    (hr : e'.conn.receiver.reassembler =
      e.conn.receiver.reassembler.pushSubstring seg.payload index seg.header.fin)
    (hplaced : seg.Placed S index) (hfin : seg.header.fin = true → finSent = true) :
    Delivers S finSent capacity e' := by
  obtain ⟨t, m, htr, ht, href, hcap, hbytes⟩ := h.map
  have hsmall := href.small
  have hsound := href.sound
  have hend := href.windowEnd_eq
  have hpush := href.push seg.header.fin hplaced.lt
  rw [htr] at hsound hend
  obtain ⟨ws, hp⟩ := hsound.pushSubstring seg.header.fin hplaced.lt
    (Or.inl (by omega))
  rw [← hr] at hp
  have hunasb := hp.unasb
  have hlt := hp.sound.unasb_lt
  have hbytes' : ∀ p b, (m.push seg.payload index).bytes.value p = some b → S[p]? = some b :=
    fun p b => hplaced.bytes_push (by omega) hbytes
  have hbound : e'.conn.receiver.reassembler.unasb ≤ S.length := by
    have hgap := hpush.firstGap
    simp only [StreamTrace.step, htr, ← hr] at hgap
    rw [← hgap]
    exact GapMap.firstGap_le hbytes'
  -- an announced end is that of `S` but for whole rounds, and those would lie past the window
  have hafter := h.endAfter (by omega) hplaced hfin
  set last := e.conn.receiver.reassembler.endAfter seg.payload index seg.header.fin
  refine
    { map := ⟨_, _, by rw [hr, ← htr]; rfl, by rw [hreceived, ← ht]; rfl, hpush, hcap, hbytes'⟩
      pending := ?_
      ended := fun he => ?_ }
  · rw [hp.eof2]
    split_ifs
    · exact Or.inl rfl
    · exact hafter
  · change e'.conn.receiver.reassembler.output.eof2 = true at he
    rw [hp.output] at he
    split_ifs at he with hdone
    · rcases hafter with heq | ⟨hf, rfl | heq⟩
      · omega
      · exact ⟨hf, by simpa using hbound⟩
      · exact ⟨hf, by omega⟩
    · rw [ByteStream.writeAll_eof2] at he
      obtain ⟨hf, hu⟩ := h.ended he
      exact ⟨hf, by omega⟩

theorem congr (h : Delivers S finSent capacity e) {e' : Endpoint}
    (hreceived : e'.received = e.received)
    (hr : e'.conn.receiver.reassembler = e.conn.receiver.reassembler ∨
      e'.conn.receiver.reassembler = e.conn.receiver.setError.reassembler) :
    Delivers S finSent capacity e' := by
  obtain ⟨t, m, htr, ht, href, hcap, hbytes⟩ := h.map
  have hended := h.ended
  unfold TCPConnection.inboundStream TCPReceiver.streamOut at hended
  rcases hr with hr | hr
  · refine
      { map := ⟨t, m, htr.trans hr.symm, ht.trans hreceived.symm, href, hcap, hbytes⟩
        pending := by rw [hr]; exact h.pending
        ended := ?_ }
    unfold TCPConnection.inboundStream TCPReceiver.streamOut
    rwa [hr]
  · refine
      { map := ⟨{ t with reassembler :=
          { t.reassembler with output := t.reassembler.output.setError } }, m, by rw [hr, htr]; rfl,
          ht.trans hreceived.symm, href.setError, hcap, hbytes⟩
        pending := by rw [hr]; exact h.pending
        ended := ?_ }
    unfold TCPConnection.inboundStream TCPReceiver.streamOut
    rw [hr]
    exact hended

theorem read (h : Delivers S finSent capacity e) (hS : S.length + capacity < 2 ^ 31) {len : ℕ}
    (hlen : len ≤ e.conn.inboundStream.bufferSize) :
    Delivers S finSent capacity (e.step (.read len)) := by
  obtain ⟨t, m, htr, ht, href, hcap, hbytes⟩ := h.map
  have hle := h.unasb_le
  have hunasb := href.unasb_eq
  have hsize := href.stream.bufferSize_eq
  have hcap' := href.capacity
  have htot := href.totRead
  have hread := href.read len ⟨by rw [htr]; exact hlen, by
    rw [ByteStream.bytesRead, hcap', htot]
    change len ≤ e.conn.receiver.reassembler.output.bufferSize at hlen
    rw [← htr] at hlen hle
    omega⟩
  exact
    { map := ⟨_, _, by rw [StreamTrace.step, htr]; rfl, by rw [StreamTrace.step, ht, htr]; rfl,
        hread, hcap, hbytes⟩
      pending := h.pending
      ended := h.ended }

end Delivers

/-- The invariant of a run: what `b` has of the bytes that `a` sent is as `a` sent it. -/
structure Safe (capacity : ℕ) (journal : List TCPSegment) (a b : Endpoint) : Prop
    extends Linked journal a b where
  delivers : Delivers (sentBytes journal) a.conn.sender.finSent capacity b

namespace Safe

variable {capacity : ℕ} {journal : List TCPSegment} {a b : Endpoint} {o : TCPConnection.Op}

theorem new {cfg cfg' : TCPConfig} (h : cfg'.recvCapacity.toNat < 2 ^ 31) :
    Safe cfg'.recvCapacity.toNat [] (.new cfg) (.new cfg') where
  toLinked := .new
  delivers := .new h

theorem send (h : Safe capacity journal a b) (hsmall : a.accepted.length < 2 ^ 31)
    (hwire : ∀ seg, o = .segment seg → seg ∈ b.conn.segmentsOut) :
    ∃ journal', Safe capacity journal' (a.step o) b := by
  obtain ⟨journal', hpre, hlink⟩ := h.toLinked.send hsmall hwire
  refine ⟨journal', hlink, h.delivers.grow (sentBytes_mono hpre) fun hf => ?_⟩
  obtain ⟨heq, hf'⟩ := h.toLinked.finSent hlink hpre hf
  exact ⟨by rw [heq], hf'⟩

theorem receive (h : Safe capacity journal a b) (hsmall : a.accepted.length + capacity < 2 ^ 31)
    (hwire : ∀ seg, o = .segment seg → seg ∈ a.conn.segmentsOut)
    (hread : ∀ len, o = .read len → len ≤ b.conn.inboundStream.bufferSize)
    (hstamped : TCPConnection.Stamped b.conn (b.conn.step o)) :
    Safe capacity journal a (b.step o) := by
  have hlen := h.out.length_le
  have hdelivers : Delivers (sentBytes journal) a.conn.sender.finSent capacity (b.step o) := by
    rcases b.conn.step_receiver o with ⟨seg, rfl, _, hr⟩ | ⟨len, rfl, _⟩ | ⟨hne, hr⟩
    · have hreceived : (b.step (.segment seg)).received = b.received := List.append_nil _
      by_cases hlive : seg.header.syn = true ∨ b.conn.receiver.status ≠ .listen
      · exact h.delivers.push (by omega) hreceived
          (by rw [← TCPReceiver.segmentReceived_reassembler hlive, ← hr]; rfl)
          (TCPReceiver.placed_indexOf (by omega) h.cp h.isn hlive (h.out.partOf (hwire seg rfl)))
          (h.out.finSent (hwire seg rfl))
      · simp only [not_or, Bool.not_eq_true, not_not] at hlive
        rw [TCPReceiver.segmentReceived_listen hlive.1 hlive.2] at hr
        refine h.delivers.congr hreceived (Or.inl ?_)
        exact (congrArg TCPReceiver.reassembler hr :)
    · exact h.delivers.read (by omega) (hread len rfl)
    · refine h.delivers.congr ?_ (hr.imp (congrArg _) (congrArg _))
      cases o with
      | read len => exact absurd rfl (hne len)
      | _ => exact List.append_nil _
  exact ⟨h.toLinked.receive hwire hstamped hdelivers.unasb_le, hdelivers⟩

theorem streamSafe (h : Safe capacity journal a b) : StreamSafe a b := by
  have hsent := h.toLinked.sent_eq
  have hpre : sentBytes journal <+: a.accepted := by
    rw [← h.out.tiled.bytes]
    exact List.prefix_append _ _
  obtain ⟨hin, hlen⟩ := h.delivers.inbound
  refine ⟨hin.trans hpre, fun he => ?_⟩
  obtain ⟨hf, hu⟩ := h.delivers.ended he
  exact ⟨h.out.tiled.ended hf, hf, by rw [hsent]; exact hin.eq_of_length (hlen.trans hu)⟩

end Safe

namespace Network

/-- A read asks for no more bytes than are buffered. -/
def ReadsFit (n : Network) : Event → Prop
  | .act s (.read len) => len ≤ (n s).conn.inboundStream.bufferSize
  | _ => True

instance (n : Network) : ∀ e, Decidable (n.ReadsFit e)
  | .act _ (.read _) => inferInstanceAs (Decidable (_ ≤ _))
  | .act _ .connect | .act _ (.write _) | .act _ .endInputStream | .act _ (.tick _)
  | .deliver _ _ => inferInstanceAs (Decidable True)

theorem ReadsFit.le {n : Network} {e : Event} (h : n.ReadsFit e) {len : ℕ}
    (ho : n.op e = some (.read len)) : len ≤ (n e.side).conn.inboundStream.bufferSize := by
  cases e with
  | act s o =>
    cases o with
    | read len' =>
      simp only [op, LocalOp.op, Option.some_inj, TCPConnection.Op.read.injEq] at ho
      exact ho ▸ h
    | _ => simp [op, LocalOp.op] at ho
  | deliver s i => simp [op] at ho

/-- The bytes accepted for each direction and the window of its receiver lie below 2^31. -/
def Small (cfg : Side → TCPConfig) (n : Network) : Prop :=
  ∀ s, (n s).accepted.length + (cfg s.other).recvCapacity.toNat < 2 ^ 31

variable {cfg : Side → TCPConfig} {n : Network} {e : Event} {es : List Event}

theorem Small.of_step (h : (n.step e).Small cfg) : n.Small cfg := fun s => by
  have hle := (n.accepted_prefix e s).length_le
  have := h s
  omega

theorem safe_step (h : n.Joined fun s => Safe (cfg s.other).recvCapacity.toNat)
    (hfit : n.ReadsFit e) (hsmall : n.Small cfg) :
    (n.step e).Joined fun s => Safe (cfg s.other).recvCapacity.toNat := by
  apply h.step
  intro o J J' hop hJ hJ'
  have hs := hsmall e.side
  have ht := hsmall e.side.other
  have hwire : ∀ seg, o = .segment seg → seg ∈ (n e.side.other).conn.segmentsOut := by
    rintro seg rfl
    exact mem_of_op hop
  refine ⟨hJ.send (by omega) hwire, hJ'.receive ht hwire ?_ ?_⟩
  · rintro len rfl
    exact hfit.le hop
  · exact (hJ.toLinked.stepped (by omega) hwire).stamped

/-- Over every run whose reads ask for no more than is buffered, the inbound stream of each side is
a prefix of what the other one accepted, and complete when it has ended. -/
theorem stream_safe (h : Admitted step ReadsFit (new cfg) es)
    (hsmall : (run step (new cfg) es).Small cfg) (s : Side) :
    StreamSafe (run step (new cfg) es s) (run step (new cfg) es s.other) := by
  obtain ⟨hfirst, hadm⟩ := h.and_of_last (fun _ _ => Small.of_step) hsmall
  have hnew : (new cfg).Joined fun s => Safe (cfg s.other).recvCapacity.toNat :=
    fun s => ⟨[], .new (by have := hfirst s; omega)⟩
  have hinv := hadm.invariant
    (I := fun n => n.Small cfg ∧ n.Joined fun s => Safe (cfg s.other).recvCapacity.toNat)
    (fun n e hn ho => ⟨ho.2, safe_step hn.2 ho.1 hn.1⟩) ⟨hfirst, hnew⟩
  obtain ⟨J, hJ⟩ := hinv.2 s
  exact hJ.streamSafe

/-- Data and FIN arrive out of order, the FIN twice, and bytes are read in between. -/
theorem stream_safe_reordered :
    let cfg : Side → TCPConfig := fun s =>
      if s = .x then { isn := ⟨4294967294⟩ } else { isn := ⟨100⟩, recvCapacity := 4 }
    let es : List Event := [.act .x .connect, .deliver .y 0, .deliver .x 0, .act .x (.write [97]),
      .act .x (.write [98, 99]), .act .x .endInputStream, .deliver .y 3, .deliver .y 2,
      .act .y (.read 2), .deliver .y 4, .deliver .y 3]
    StreamSafe (run step (new cfg) es .x) (run step (new cfg) es .y) := by
  intro cfg es
  exact stream_safe (by decide) (fun s => by cases s <;> decide) .x

/-- Reading all there is, by asking for 2^64 - 1 bytes, takes a place of the buffer away. Bytes
that were stored before are then cut off when they are assembled. -/
theorem stream_unsafe_read_all :
    let cfg : Side → TCPConfig := fun s =>
      if s = .x then { isn := ⟨4294967294⟩ } else { isn := ⟨100⟩, recvCapacity := 4 }
    let es : List Event := [.act .x .connect, .deliver .y 0, .deliver .x 0, .act .x (.write [97]),
      .act .x (.write [98, 99, 100]), .deliver .y 3, .act .y (.read (2 ^ 64 - 1)), .deliver .y 2,
      .act .y (.read 3), .deliver .x 2, .act .x (.write [101]), .deliver .y 4]
    let n := run step (new cfg) es
    n.Small cfg ∧ (n .x).accepted = [97, 98, 99, 100, 101] ∧ (n .y).inbound = [97, 98, 99, 101] ∧
      ¬ StreamSafe (n .x) (n .y) := by
  intro cfg es n
  exact ⟨fun s => by cases s <;> decide, by decide, by decide,
    fun h => absurd h.inbound (by decide)⟩

end Network

end Sponge
