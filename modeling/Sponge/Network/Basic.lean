import Sponge.Connection.Incoming
import Sponge.Library.Runs

/-! # Two endpoints and a network

Everything that an endpoint has sent may reach the other one, in any order, any number
of times or never. Each endpoint comes with a record of the bytes that its writes
accepted and of the bytes that were read from its inbound stream.
-/

namespace Sponge

open Layout Runs TCPSender

inductive Side
  | x | y
  deriving DecidableEq, Repr

namespace Side

def other : Side → Side
  | x => y
  | y => x

@[simp] theorem other_other (s : Side) : s.other.other = s := by cases s <;> rfl

theorem other_ne (s : Side) : s.other ≠ s := by cases s <;> decide

theorem eq_or_eq_other (s t : Side) : t = s ∨ t = s.other := by
  cases s <;> cases t <;> decide

end Side

structure Endpoint where
  conn : TCPConnection
  accepted : List UInt8
  received : List UInt8
  deriving DecidableEq, Repr

namespace Endpoint

def new (cfg : TCPConfig) : Endpoint := ⟨.new cfg, [], []⟩

/-- The bytes that an operation reads from the inbound stream. -/
def bytesRead (e : Endpoint) : TCPConnection.Op → List UInt8
  | .read len => (e.conn.read len).2
  | _ => []

def step (e : Endpoint) (o : TCPConnection.Op) : Endpoint where
  conn := e.conn.step o
  accepted := e.accepted ++ e.conn.newBytes o
  received := e.received ++ e.bytesRead o

/-- The bytes written to the inbound stream so far. -/
def inbound (e : Endpoint) : List UInt8 := e.received ++ e.conn.inboundStream.buf

/-- The bytes that the sender has read out of the outbound stream. -/
def sent (e : Endpoint) : List UInt8 := e.accepted.take e.conn.sender.stream.bytesRead

end Endpoint

/-- What the owner of an endpoint does. -/
inductive LocalOp
  | connect
  | write (data : List UInt8)
  | endInputStream
  | tick (ms : ℕ)
  | read (len : ℕ)
  deriving DecidableEq, Repr

def LocalOp.op : LocalOp → TCPConnection.Op
  | connect => .connect
  | write data => .write data
  | endInputStream => .endInputStream
  | tick ms => .tick ms
  | read len => .read len

/-- An owner acts, or the `i`-th segment that the other endpoint has sent arrives. -/
inductive Event
  | act (s : Side) (o : LocalOp)
  | deliver (s : Side) (i : ℕ)
  deriving DecidableEq, Repr

def Event.side : Event → Side
  | act s _ => s
  | deliver s _ => s

abbrev Network := Side → Endpoint

namespace Network

def new (cfg : Side → TCPConfig) : Network := fun s => .new (cfg s)

/-- The operation that an event amounts to; there is none if no such segment was sent. -/
def op (n : Network) : Event → Option TCPConnection.Op
  | .act _ o => some o.op
  | .deliver s i => (n s.other).conn.segmentsOut[i]?.map .segment

def step (n : Network) (e : Event) : Network :=
  match n.op e with
  | some o => Function.update n e.side ((n e.side).step o)
  | none => n

/-- A relation between each endpoint, with some journal of its sender, and the other one. -/
def Joined (P : Side → List TCPSegment → Endpoint → Endpoint → Prop) (n : Network) : Prop :=
  ∀ s, ∃ journal, P s journal (n s) (n s.other)

variable {n : Network} {e : Event} {s : Side} {o : TCPConnection.Op}
  {P : Side → List TCPSegment → Endpoint → Endpoint → Prop}

theorem mem_of_op {seg : TCPSegment} (h : n.op e = some (.segment seg)) :
    seg ∈ (n e.side.other).conn.segmentsOut := by
  cases e with
  | act s o => cases o <;> simp [op, LocalOp.op] at h
  | deliver s i =>
    simp only [op, Option.map_eq_some_iff, TCPConnection.Op.segment.injEq] at h
    obtain ⟨seg', hget, rfl⟩ := h
    exact List.mem_of_getElem? hget

theorem step_eq (h : n.op e = some o) :
    n.step e e.side = (n e.side).step o ∧ n.step e e.side.other = n e.side.other := by
  simp [step, h, Function.update_of_ne e.side.other_ne]

theorem Joined.step (h : Joined P n)
    (hstep : ∀ o J J', n.op e = some o → P e.side J (n e.side) (n e.side.other) →
      P e.side.other J' (n e.side.other) (n e.side) →
      (∃ J₁, P e.side J₁ ((n e.side).step o) (n e.side.other)) ∧
        P e.side.other J' (n e.side.other) ((n e.side).step o)) : Joined P (n.step e) := by
  cases hop : n.op e with
  | none =>
    have hn : n.step e = n := by simp [Network.step, hop]
    rwa [hn]
  | some o =>
    obtain ⟨hs, ht⟩ := step_eq hop
    obtain ⟨J, hJ⟩ := h e.side
    obtain ⟨J', hJ'⟩ := h e.side.other
    rw [Side.other_other] at hJ'
    obtain ⟨⟨J₁, h₁⟩, h₂⟩ := hstep o J J' hop hJ hJ'
    intro s
    rcases Side.eq_or_eq_other e.side s with rfl | rfl
    · exact ⟨J₁, by rwa [hs, ht]⟩
    · exact ⟨J', by rwa [Side.other_other, hs, ht]⟩

theorem accepted_prefix (n : Network) (e : Event) (s : Side) :
    (n s).accepted <+: (n.step e s).accepted := by
  cases hop : n.op e with
  | none => simp [Network.step, hop]
  | some o =>
    obtain ⟨hs, ht⟩ := step_eq hop
    rcases Side.eq_or_eq_other e.side s with rfl | rfl
    · rw [hs]
      exact List.prefix_append _ _
    · rw [ht]

end Network

/-- The endpoint `b` knows the initial number of `a`, and acknowledges nothing that `a` may not
have sent. -/
structure Linked (journal : List TCPSegment) (a b : Endpoint) : Prop where
  out : a.conn.Outgoing journal a.accepted
  isn : b.conn.receiver.status ≠ .listen → b.conn.receiver.isn = a.conn.sender.isn
  cp : b.conn.receiver.cp < 2 ^ 64
  acks : ∀ seg ∈ b.conn.segmentsOut, seg.header.ack = true →
    ∃ k, 0 < k ∧ k ≤ (sentBytes journal).length + 2 ∧
      seg.header.ackno = wrap k a.conn.sender.isn

namespace Linked

variable {journal journal' : List TCPSegment} {a b a' b' : Endpoint} {o : TCPConnection.Op}

theorem new {cfg cfg' : TCPConfig} : Linked [] (.new cfg) (.new cfg') where
  out := .new
  isn h := absurd rfl h
  cp := by simp [Endpoint.new, TCPConnection.new, TCPReceiver.new]
  acks := by simp [Endpoint.new, TCPConnection.new]

theorem sent_eq (h : Linked journal a b) : a.sent = sentBytes journal := by
  have ht := h.out.tiled.totRead
  have hb := h.out.tiled.bytes
  rw [Endpoint.sent, ByteStream.bytesRead, ht, ← hb, List.take_left]
  rfl

theorem finSent (h : Linked journal a b) (h' : Linked journal' a' b')
    (hpre : journal <+: journal') (hf : a.conn.sender.finSent = true) :
    journal = journal' ∧ a'.conn.sender.finSent = true := by
  have hmem := h.out.tiled.finSent.mp hf
  have heq := h'.out.tiled.journal_eq hpre hmem
  exact ⟨heq, h'.out.tiled.finSent.mpr (heq ▸ hmem)⟩

theorem stepped (h : Linked journal a b) (hsmall : a.accepted.length < 2 ^ 31)
    (hwire : ∀ seg, o = .segment seg → seg ∈ b.conn.segmentsOut) :
    TCPConnection.Stepped journal (a.accepted ++ a.conn.newBytes o) a.conn (a.conn.step o)
      o.ackno := by
  have hlen := h.out.length_le
  have hnext := h.out.nextSeqno_le
  apply h.out.step (by omega) o
  intro ackno hmem
  cases o with
  | segment seg =>
    simp only [TCPConnection.Op.ackno, Option.mem_def, Option.ite_none_right_eq_some,
      Option.some_inj] at hmem
    obtain ⟨hack, rfl⟩ := hmem
    obtain ⟨k, hpos, hle, heq⟩ := h.acks seg (hwire seg rfl) hack
    exact ⟨k, hpos, by omega, heq⟩
  | _ => simp [TCPConnection.Op.ackno] at hmem

theorem send (h : Linked journal a b) (hsmall : a.accepted.length < 2 ^ 31)
    (hwire : ∀ seg, o = .segment seg → seg ∈ b.conn.segmentsOut) :
    ∃ journal', journal <+: journal' ∧ Linked journal' (a.step o) b := by
  have hs := h.stepped hsmall hwire
  obtain ⟨journal', hpre, hout⟩ := hs.out
  refine ⟨journal', hpre,
    { out := hout
      isn := fun hl => (h.isn hl).trans hs.isn.symm
      cp := h.cp
      acks := fun seg hseg hack => ?_ }⟩
  obtain ⟨k, hpos, hle, heq⟩ := h.acks seg hseg hack
  have hlen := (sentBytes_mono hpre).length_le
  exact ⟨k, hpos, by omega, by rw [heq]; exact congrArg _ hs.isn.symm⟩

theorem receive (h : Linked journal a b)
    (hwire : ∀ seg, o = .segment seg → seg ∈ a.conn.segmentsOut)
    (hstamped : TCPConnection.Stamped b.conn (b.conn.step o))
    (hunasb : (b.conn.step o).receiver.reassembler.unasb ≤ (sentBytes journal).length) :
    Linked journal a (b.step o) := by
  have hisn : (b.conn.step o).receiver.status ≠ .listen →
      (b.conn.step o).receiver.isn = a.conn.sender.isn := by
    rcases b.conn.step_receiver o with ⟨seg, rfl, _, hr⟩ | ⟨len, _, hr⟩ | ⟨_, hr | hr⟩
    · rw [hr]
      by_cases hlive : seg.header.syn = true ∨ b.conn.receiver.status ≠ .listen
      · rw [TCPReceiver.segmentReceived_eq hlive]
        intro _
        rcases h.out.partOf (hwire seg rfl) with ⟨hs, hq, _⟩ | ⟨i, hslice⟩
        · simp only [hs, if_true, hq]
        · simp only [hslice.syn, Bool.false_eq_true, if_false]
          exact h.isn (hlive.resolve_left (by simp [hslice.syn]))
      · simp only [not_or, Bool.not_eq_true, not_not] at hlive
        rw [TCPReceiver.segmentReceived_listen hlive.1 hlive.2]
        exact fun hl => absurd hlive.2 hl
    all_goals rw [hr]; exact h.isn
  refine
    { out := h.out
      isn := hisn
      cp := ?_
      acks := fun seg hseg hack => ?_ }
  · rcases b.conn.step_receiver o with ⟨seg, rfl, _, hr⟩ | ⟨len, _, hr⟩ | ⟨_, hr | hr⟩
    · have hlt := TCPReceiver.indexOf_lt seg h.cp
      change (b.conn.step _).receiver.cp < _
      rw [hr]
      by_cases hlive : seg.header.syn = true ∨ b.conn.receiver.status ≠ .listen
      · rwa [TCPReceiver.segmentReceived_eq hlive]
      · simp only [not_or, Bool.not_eq_true, not_not] at hlive
        rwa [TCPReceiver.segmentReceived_listen hlive.1 hlive.2]
    all_goals
      change (b.conn.step _).receiver.cp < _
      rw [hr]
      exact h.cp
  · rcases hstamped seg hseg with hseg | hnew
    · exact h.acks seg hseg hack
    · have hsome := hnew hack
      have hlisten := ((b.conn.step o).receiver.ackno_isSome_iff).mp (by simp [hsome])
      rw [TCPReceiver.ackno_eq hlisten, Option.some_inj, hisn hlisten] at hsome
      refine ⟨_, ?_, ?_, hsome.symm⟩
      · omega
      · rw [StreamReassembler.firstUnasb]
        split_ifs <;> omega

end Linked

end Sponge
