import Sponge.Connection.Ended
import Sponge.Network.Safety
import Sponge.Socket.Conveying

/-! # The streams of two sockets

The connections of two sockets that hear each other go through a run of the network. What one
socket gives to its owner was taken by the other one, and is all of it once it has shut the inbound
stream down without an error.
-/

namespace Sponge

open Runs

variable {α : Type}

/-- The connections of two sockets, as a network. -/
def networkOf (q : Side → TCPSpongeSocket α) : Network := fun s => (q s).endpoint

/-- The inbound stream is in error, or all that the other side has taken was given. -/
def Closed (q : Side → TCPSpongeSocket α) (s : Side) : Prop :=
  (q s).tcp.inboundStream.error = true ∨
    ((q s).tcp.inboundStream.inputEnded = true ∧ (q s).given = (q s.other).taken)

/-- The streams between two sockets are safe, and no owner writes behind the end of a stream. -/
structure Tied (cfg : Side → TCPConfig) (q : Side → TCPSpongeSocket α) : Prop where
  joined : (networkOf q).Joined fun s => Safe (cfg s.other).recvCapacity.toNat
  tidy : ∀ s, ∃ e, (q s).tcp.Tidy e ∧ (e = true → (q s).outboundShutdown = true)

/-- What is shut down has come to its end. -/
structure Streams (cfg : Side → TCPConfig) (q : Side → TCPSpongeSocket α) : Prop
    extends Tied cfg q where
  closed : ∀ s, (q s).inboundShutdown = true → Closed q s

/-- The socket `sock'` comes from `sock` by the operation `o` of its connection. -/
structure TCPSpongeSocket.Performs (sock sock' : TCPSpongeSocket α) (o : TCPConnection.Op) :
    Prop where
  endpoint : sock'.endpoint = sock.endpoint.step o
  outbound : sock.outboundShutdown = true → sock'.outboundShutdown = true
  ends : o = .endInputStream → sock'.outboundShutdown = true
  writes : ∀ data, o = .write data → sock.outboundShutdown = false
  reads : ∀ len, o = .read len → len ≤ sock.tcp.inboundStream.bufferSize
  inbound : sock'.inboundShutdown = true → sock.inboundShutdown = true ∨
    sock'.tcp.inboundStream.eof = true ∨ sock'.tcp.inboundStream.error = true

namespace TCPSpongeSocket

/-- The socket `s'` comes from `s` by operations of its connection, one after another. -/
inductive Performed : TCPSpongeSocket α → List TCPConnection.Op → TCPSpongeSocket α → Prop
  | rest {s s' : TCPSpongeSocket α} (endpoint : s'.endpoint = s.endpoint)
      (outbound : s'.outboundShutdown = s.outboundShutdown)
      (inbound : s'.inboundShutdown = s.inboundShutdown) : Performed s [] s'
  | op {s s₁ s' : TCPSpongeSocket α} {o : TCPConnection.Op} {os : List TCPConnection.Op}
      (first : s.Performs s₁ o) (rest : Performed s₁ os s') : Performed s (o :: os) s'

end TCPSpongeSocket

variable {cfg : Side → TCPConfig} {q q' : Side → TCPSpongeSocket α} {sock' : TCPSpongeSocket α}
  {s : Side} {o : TCPConnection.Op}

theorem networkOf_update (q : Side → TCPSpongeSocket α) (s : Side) (sock' : TCPSpongeSocket α) :
    networkOf (Function.update q s sock') =
      Function.update (networkOf q) s sock'.endpoint := by
  funext t
  by_cases ht : t = s
  · subst ht
    simp [networkOf]
  · simp [networkOf, Function.update_of_ne ht]

theorem Linked.sent_eq_accepted {journal : List TCPSegment} {a b : Endpoint}
    (h : Linked journal a b) (hbuf : a.conn.sender.stream.buf = []) : a.sent = a.accepted := by
  have hbytes := h.out.tiled.bytes
  rw [hbuf, List.append_nil] at hbytes
  rw [h.sent_eq]
  exact hbytes

theorem Safe.consistent {capacity : ℕ} {journal : List TCPSegment} {a b : Endpoint}
    (h : Safe capacity journal a b) : b.conn.inboundStream.Consistent := by
  obtain ⟨t, m, hr, -, href, -, -⟩ := h.delivers.map
  have hstream := href.stream
  rw [hr] at hstream
  exact hstream

namespace TCPSpongeSocket.Performs

variable {sock : TCPSpongeSocket α}

theorem newBytes_eq (h : sock.Performs sock' o) (hshut : sock.outboundShutdown = true) :
    sock.tcp.newBytes o = [] := by
  cases o with
  | write data =>
    have hopen := h.writes data rfl
    rw [hshut] at hopen
    cases hopen
  | _ => rfl

theorem readsFit {e : Sponge.Event} (h : (q e.side).Performs sock' o)
    (hop : (networkOf q).op e = some o) : (networkOf q).ReadsFit e := by
  cases e with
  | deliver => trivial
  | act s o' =>
    cases o' with
    | read len => exact h.reads len (Option.some.inj hop).symm
    | _ => trivial

end TCPSpongeSocket.Performs

namespace Tied

theorem safe (h : Tied cfg q) (s : Side) : StreamSafe (q s).endpoint (q s.other).endpoint := by
  obtain ⟨J, hJ⟩ := h.joined s
  exact hJ.streamSafe

theorem outboundShutdown_of_ended (h : Tied cfg q)
    (hended : (q s.other).tcp.inboundStream.inputEnded = true) :
    (q s).outboundShutdown = true := by
  obtain ⟨e, htidy, he⟩ := h.tidy s
  have hinput := ((h.safe s).ended hended).1
  exact he (htidy.ended.symm.trans hinput)

theorem inbound_eq_of_ended (h : Tied cfg q)
    (hended : (q s.other).tcp.inboundStream.inputEnded = true) :
    (q s.other).endpoint.inbound = (q s).taken := by
  obtain ⟨J, hJ⟩ := h.joined s
  obtain ⟨-, hfin, hinbound⟩ := hJ.streamSafe.ended hended
  obtain ⟨e, htidy, -⟩ := h.tidy s
  exact hinbound.trans (hJ.sent_eq_accepted (htidy.sender.last hfin))

theorem closed_of_eof (h : Tied cfg q) (heof : (q s.other).tcp.inboundStream.eof = true) :
    Closed q s.other := by
  obtain ⟨J, hJ⟩ := h.joined s
  obtain ⟨hbuf, hended⟩ := hJ.consistent.eof_iff.mp heof
  have hinbound := h.inbound_eq_of_ended hended
  rw [Endpoint.inbound] at hinbound
  have hempty : (q s.other).endpoint.conn.inboundStream.buf = [] := hbuf
  rw [hempty, List.append_nil] at hinbound
  refine Or.inr ⟨hended, ?_⟩
  rw [Side.other_other]
  exact hinbound

/-- An operation of one side that is allowed in the network keeps the streams safe. -/
theorem step (h : Tied cfg q) {e : Sponge.Event} (hop : (networkOf q).op e = some o)
    (hsmall : (networkOf q).Small cfg) (hperforms : (q e.side).Performs sock' o) :
    Tied cfg (Function.update q e.side sock') where
  joined := by
    rw [networkOf_update, hperforms.endpoint]
    have hstep : Function.update (networkOf q) e.side ((q e.side).endpoint.step o) =
        (networkOf q).step e := by
      rw [Network.step, hop]
      rfl
    rw [hstep]
    exact Network.safe_step h.joined (hperforms.readsFit hop) hsmall
  tidy s := by
    rcases Side.eq_or_eq_other e.side s with rfl | rfl
    · obtain ⟨ended, htidy, hended⟩ := h.tidy e.side
      obtain ⟨ended', htidy', hended'⟩ :=
        htidy.step o fun he => hperforms.newBytes_eq (hended he)
      have hconn : sock'.tcp = (q e.side).tcp.step o :=
        congrArg Endpoint.conn hperforms.endpoint
      rw [Function.update_self, hconn]
      refine ⟨ended', htidy', fun he => ?_⟩
      rcases hended' he with he | rfl
      · exact hperforms.outbound (hended he)
      · exact hperforms.ends rfl
    · rw [Function.update_of_ne e.side.other_ne]
      exact h.tidy e.side.other

end Tied

theorem Streams.step (h : Streams cfg q) {e : Sponge.Event} (hop : (networkOf q).op e = some o)
    (hsmall : (networkOf q).Small cfg) (hperforms : (q e.side).Performs sock' o) :
    Streams cfg (Function.update q e.side sock') := by
  have htied := h.toTied.step hop hsmall hperforms
  set q' := Function.update q e.side sock' with hq'
  have hself : q' e.side = sock' := Function.update_self ..
  have hother : q' e.side.other = q e.side.other := Function.update_of_ne e.side.other_ne ..
  have hconn : sock'.tcp = (q e.side).tcp.step o := congrArg Endpoint.conn hperforms.endpoint
  have htaken : sock'.taken = (q e.side).taken ++ (q e.side).tcp.newBytes o :=
    congrArg Endpoint.accepted hperforms.endpoint
  have hgiven : sock'.given = (q e.side).given ++ (q e.side).endpoint.bytesRead o :=
    congrArg Endpoint.received hperforms.endpoint
  refine ⟨htied, fun s hs => ?_⟩
  rcases Side.eq_or_eq_other e.side s with rfl | rfl
  · have heof := htied.closed_of_eof (s := e.side.other)
    have hended := htied.inbound_eq_of_ended (s := e.side.other)
    rw [Side.other_other, hself] at heof hended
    rw [hself] at hs
    rcases hperforms.inbound hs with hold | hnew | hnew
    · have hlater : (q e.side).tcp.inboundStream.Later sock'.tcp.inboundStream :=
        hconn ▸ (q e.side).tcp.later_step o
      rw [Closed, hself, hother]
      rcases h.closed e.side hold with herror | ⟨hlast, hall⟩
      · exact Or.inl (hlater.error herror)
      · -- all was given before, so nothing can have been added to it
        have hinbound := hended (hlater.ended hlast)
        rw [hother, ← hall] at hinbound
        have hlength := congrArg List.length hinbound
        change (sock'.given ++ _).length = _ at hlength
        rw [hgiven] at hlength ⊢
        simp only [List.length_append] at hlength
        have hnone : (q e.side).endpoint.bytesRead o = [] := List.length_eq_zero_iff.mp (by omega)
        exact Or.inr ⟨hlater.ended hlast, by rw [hnone, List.append_nil, hall]⟩
    · exact heof hnew
    · exact Or.inl (hself ▸ hnew)
  · rw [hother] at hs
    rw [Closed, hother, Side.other_other, hself]
    rcases h.closed e.side.other hs with herror | ⟨hlast, hall⟩
    · exact Or.inl herror
    · have hshut := h.outboundShutdown_of_ended hlast
      rw [Side.other_other] at hall
      exact Or.inr ⟨hlast, by rw [htaken, hperforms.newBytes_eq hshut, List.append_nil, hall]⟩

theorem Streams.congr (h : Streams cfg q) (hnetwork : networkOf q' = networkOf q)
    (houtbound : ∀ s, (q' s).outboundShutdown = (q s).outboundShutdown)
    (hinbound : ∀ s, (q' s).inboundShutdown = (q s).inboundShutdown) : Streams cfg q' := by
  have htcp : ∀ s, (q' s).tcp = (q s).tcp := fun s => congrArg Endpoint.conn (congrFun hnetwork s)
  refine ⟨⟨hnetwork ▸ h.joined, fun s => ?_⟩, fun s hs => ?_⟩
  · rw [htcp, houtbound]
    exact h.tidy s
  · have htaken : (q' s.other).taken = (q s.other).taken :=
      congrArg Endpoint.accepted (congrFun hnetwork s.other)
    have hgiven : (q' s).given = (q s).given := congrArg Endpoint.received (congrFun hnetwork s)
    rw [Closed, htcp, htaken, hgiven]
    exact h.closed s (hinbound s ▸ hs)

theorem Streams.new (a : Side → α) (hsmall : ∀ s, (cfg s).recvCapacity.toNat < 2 ^ 31) :
    Streams cfg fun s => { tcp := .new (cfg s), datagramAdapter := a s } where
  joined s := ⟨[], .new (hsmall s.other)⟩
  tidy s := ⟨false, .new (cfg s), by simp⟩
  closed s hs := by simp at hs

theorem Network.exists_op (n : Network) (s : Side) {o : TCPConnection.Op}
    (h : ∀ seg, o = .segment seg → seg ∈ (n s.other).conn.segmentsOut) :
    ∃ e : Sponge.Event, e.side = s ∧ n.op e = some o := by
  cases o with
  | segment seg =>
    obtain ⟨i, hi⟩ := List.mem_iff_getElem?.mp (h seg rfl)
    exact ⟨.deliver s i, rfl, by simp [op, hi]⟩
  | connect => exact ⟨.act s .connect, rfl, rfl⟩
  | write data => exact ⟨.act s (.write data), rfl, rfl⟩
  | endInputStream => exact ⟨.act s .endInputStream, rfl, rfl⟩
  | tick ms => exact ⟨.act s (.tick ms), rfl, rfl⟩
  | read len => exact ⟨.act s (.read len), rfl, rfl⟩

namespace TCPSpongeSocket

variable {ω : Type} {A : DatagramAdapter α ω} {e : Event ω} {out : List ω}
  {sock : TCPSpongeSocket α} {os : List TCPConnection.Op}

theorem Performs.bare {seg g : TCPSegment} (h : sock.Performs sock' (.segment seg))
    (hbare : seg.bare = g.bare) : sock.Performs sock' (.segment g) where
  endpoint := by
    rw [h.endpoint, Endpoint.step, Endpoint.step, TCPConnection.step, TCPConnection.step]
    have hsame : sock.endpoint.conn.segmentReceived seg = sock.endpoint.conn.segmentReceived g :=
      segmentReceived_bare hbare
    rw [hsame]
    rfl
  outbound := h.outbound
  ends := by simp
  writes := by simp
  reads := by simp
  inbound := h.inbound

theorem Performed.segmentsOut_prefix (h : sock.Performed os sock') :
    sock.tcp.segmentsOut <+: sock'.tcp.segmentsOut := by
  induction h with
  | @rest s s' endpoint _ _ =>
    have htcp : s'.tcp = s.tcp := congrArg Endpoint.conn endpoint
    rw [htcp]
  | @op s s₁ s' o _ first _ ih =>
    have htcp : s₁.tcp = s.tcp.step o := congrArg Endpoint.conn first.endpoint
    exact (s.tcp.segmentsOut_step o).trans (htcp ▸ ih)

theorem Performed.plain (h : sock.Performed os sock') (hplain : sock.tcp.Plain) :
    sock'.tcp.Plain := by
  induction h with
  | @rest s s' endpoint _ _ =>
    have htcp : s'.tcp = s.tcp := congrArg Endpoint.conn endpoint
    rwa [htcp]
  | @op s s₁ s' o _ first _ ih =>
    have htcp : s₁.tcp = s.tcp.step o := congrArg Endpoint.conn first.endpoint
    exact ih (htcp ▸ hplain.step o)

theorem Performed.taken_prefix (h : sock.Performed os sock') : sock.taken <+: sock'.taken := by
  induction h with
  | @rest s s' endpoint _ _ =>
    have htaken : s'.taken = s.taken := congrArg Endpoint.accepted endpoint
    rw [htaken]
  | @op s s₁ s' o _ first _ ih =>
    have htaken : s₁.taken = s.taken ++ s.tcp.newBytes o :=
      congrArg Endpoint.accepted first.endpoint
    exact (List.prefix_append _ _).trans (htaken ▸ ih)

theorem Performs.performed (h : sock.Performs sock' o) : sock.Performed [o] sock' :=
  .op h (.rest rfl rfl rfl)

theorem takeFromOwner_performed {answer : ReadAnswer} (hopen : sock.outboundShutdown = false)
    (h : sock.takeFromOwner answer = .ok sock') : ∃ os, sock.Performed os sock' ∧
      ∀ seg, .segment seg ∉ os := by
  obtain ⟨data, threadData, -, hsame, hendpoint⟩ := takeFromOwner_ok h
  have hinbound : sock'.inboundShutdown = sock.inboundShutdown := by rw [hsame]
  have houtbound : sock'.outboundShutdown = (sock.outboundShutdown || threadData.eof) := by
    rw [hsame]
  have hwrite : ∀ {s₁ : TCPSpongeSocket α}, s₁.endpoint = sock.endpoint.step (.write data) →
      s₁.inboundShutdown = sock.inboundShutdown → sock.Performs s₁ (.write data) :=
    fun hs hin =>
      { endpoint := hs, outbound := by simp [hopen], ends := by simp, writes := fun _ _ => hopen
        reads := by simp, inbound := fun hs => Or.inl (hin ▸ hs) }
  cases heof : threadData.eof with
  | false =>
    rw [heof] at hendpoint
    exact ⟨_, (hwrite hendpoint hinbound).performed, by simp⟩
  | true =>
    rw [heof] at hendpoint houtbound
    rw [Bool.or_true] at houtbound
    -- the state between the write and the end of the input
    let s₁ : TCPSpongeSocket α :=
      { sock with
        tcp := (sock.endpoint.step (.write data)).conn
        taken := (sock.endpoint.step (.write data)).accepted
        given := (sock.endpoint.step (.write data)).received }
    have hends : s₁.Performs sock' .endInputStream :=
      { endpoint := hendpoint, outbound := fun _ => houtbound, ends := fun _ => houtbound
        writes := by simp, reads := by simp, inbound := fun hs => Or.inl (hinbound ▸ hs) }
    have hwrites : sock.Performs s₁ (.write data) := hwrite rfl rfl
    exact ⟨_, .op hwrites hends.performed, by simp⟩

theorem giveToOwner_performed {answer : Answer} {refusal : Option Errno}
    (hhonest : answer.Honest sock.nextForOwner) (h : sock.giveToOwner answer refusal = .ok sock') :
    ∃ len, sock.Performs sock' (.read len) := by
  obtain ⟨len, hlen, hendpoint, hsame⟩ := giveToOwner_ok hhonest h
  refine ⟨len, hendpoint, fun hs => by rw [hsame]; exact hs, by simp, by simp, ?_, fun hs => ?_⟩
  · rintro len' ⟨⟩
    exact hlen
  · rw [hsame] at hs
    simpa using hs

theorem tick_performed {ms : ℕ} {refusal : Option Refusal}
    (h : sock.tick A ms refusal = .ok (sock', out)) :
    ∃ os, sock.Performed os sock' ∧ ∀ seg, .segment seg ∉ os := by
  rcases tick_ok h with ⟨-, -, hsame⟩ | ⟨-, rfl, -⟩
  · refine ⟨[.tick ms], Performs.performed
      { endpoint := ?_, outbound := fun hs => by rw [hsame]; exact hs, ends := by simp
        writes := by simp, reads := by simp
        inbound := fun hs => by rw [hsame] at hs; exact Or.inl hs }, by simp⟩
    rw [hsame]
    simp [endpoint, Endpoint.step, Endpoint.bytesRead, TCPConnection.newBytes, TCPConnection.step]
  · exact ⟨[], .rest rfl rfl rfl, by simp⟩

theorem receive_performed {item : Except Errno ω} {refusal : Option Refusal}
    (h : sock.receive A item refusal = .ok (sock', out)) :
    ∃ os, sock.Performed os sock' ∧ ∀ seg, .segment seg ∈ os →
      A.read sock.datagramAdapter item refusal = .ok (some seg, sock'.datagramAdapter, out) := by
  obtain ⟨seg, hread, hsame, htcp⟩ := receive_ok h
  cases seg with
  | none =>
    refine ⟨[], .rest ?_ (by rw [hsame]) (by rw [hsame]), by simp⟩
    rw [hsame, htcp]
    rfl
  | some seg =>
    refine ⟨[.segment seg], Performs.performed
      { endpoint := ?_, outbound := fun hs => by rw [hsame]; exact hs, ends := by simp
        writes := by simp, reads := by simp
        inbound := fun hs => by rw [hsame] at hs; exact Or.inl hs }, ?_⟩
    · rw [hsame, htcp]
      simp [endpoint, Endpoint.step, Endpoint.bytesRead, TCPConnection.newBytes,
        TCPConnection.step]
    · intro seg' hseg'
      obtain rfl : seg' = seg := by simpa using hseg'
      exact hread

/-- Whatever happens in the thread of a socket, its connection goes through a few operations. -/
theorem step_performed (hhonest : sock.HonestAnswer e) (hadmissible : sock.Admissible e)
    (h : sock.step A e = .ok (sock', out)) : ∃ os, sock.Performed os sock' ∧
      ∀ seg, .segment seg ∈ os → ∃ item refusal, e = .receive item refusal ∧
        A.read sock.datagramAdapter item refusal =
          .ok (some seg, sock'.datagramAdapter, out) := by
  cases e with
  | receive item refusal =>
    obtain ⟨os, hos, hsegs⟩ := receive_performed h
    exact ⟨os, hos, fun seg hseg => ⟨item, refusal, rfl, hsegs seg hseg⟩⟩
  | takeFromOwner answer =>
    obtain ⟨s₁, htake, h⟩ := bind_ok_iff.mp h
    cases h
    obtain ⟨os, hos, hsegs⟩ := takeFromOwner_performed hadmissible htake
    exact ⟨os, hos, fun seg hseg => absurd hseg (hsegs seg)⟩
  | cancelOutbound =>
    obtain ⟨rfl, rfl⟩ : sock.cancelOutbound = sock' ∧ [] = out := by simpa [step] using h
    have hends : sock.Performs sock.cancelOutbound .endInputStream :=
      { endpoint := sock.cancelOutbound_endpoint, outbound := fun _ => rfl, ends := fun _ => rfl
        writes := by simp, reads := by simp, inbound := Or.inl }
    exact ⟨_, hends.performed, by simp⟩
  | giveToOwner answer refusal =>
    obtain ⟨s₁, hgive, h⟩ := bind_ok_iff.mp h
    cases h
    obtain ⟨len, hread⟩ := giveToOwner_performed hhonest hgive
    exact ⟨_, hread.performed, by simp⟩
  | send refusal =>
    obtain ⟨-, hsame⟩ := send_ok h
    refine ⟨[], .rest ?_ ?_ ?_, by simp⟩ <;> rw [hsame]
    rfl
  | tick ms refusal =>
    obtain ⟨os, hos, hsegs⟩ := tick_performed h
    exact ⟨os, hos, fun seg hseg => absurd hseg (hsegs seg)⟩

end TCPSpongeSocket

theorem small_of_performed {os : List TCPConnection.Op} (h : (q s).Performed os sock')
    (hsmall : (networkOf (Function.update q s sock')).Small cfg) :
    (networkOf q).Small cfg := by
  intro t
  have ht := hsmall t
  rcases Side.eq_or_eq_other s t with rfl | rfl
  · rw [networkOf, Function.update_self] at ht
    have hlength := h.taken_prefix.length_le
    change sock'.taken.length + _ < _ at ht
    change (q t).taken.length + _ < _
    omega
  · rwa [networkOf, Function.update_of_ne s.other_ne] at ht

/-- What a socket does with segments of its peer keeps the streams. -/
theorem Streams.performed {sock : TCPSpongeSocket α} {os : List TCPConnection.Op}
    (hp : sock.Performed os sock') (hq : q s = sock) (h : Streams cfg q)
    (hfrom : ∀ seg, .segment seg ∈ os → ∃ g ∈ (q s.other).tcp.segmentsOut, seg.bare = g.bare)
    (hsmall : (networkOf (Function.update q s sock')).Small cfg) :
    Streams cfg (Function.update q s sock') := by
  induction hp generalizing q with
  | @rest sock sock' endpoint outbound inbound =>
    have hflags : ∀ {f : TCPSpongeSocket α → Bool}, f sock' = f sock →
        ∀ t, f (Function.update q s sock' t) = f (q t) := fun {f} hf t => by
      rcases Side.eq_or_eq_other s t with rfl | rfl
      · rw [Function.update_self, hf, hq]
      · rw [Function.update_of_ne s.other_ne]
    refine h.congr ?_ (hflags outbound) (hflags inbound)
    rw [networkOf_update, endpoint, ← hq]
    exact Function.update_eq_self s (networkOf q)
  | @op sock sock₁ sock' o os first rest ih =>
    subst hq
    have hsmall₁ : (networkOf (Function.update q s sock₁)).Small cfg := by
      have hrest : (Function.update q s sock₁ s).Performed os sock' := by
        rwa [Function.update_self]
      exact small_of_performed hrest (by rwa [Function.update_idem])
    have hfirst : Streams cfg (Function.update q s sock₁) := by
      have hmeet : ∃ o', (q s).Performs sock₁ o' ∧
          ∀ seg, o' = .segment seg → seg ∈ (networkOf q s.other).conn.segmentsOut := by
        by_cases hseg : ∃ seg, o = .segment seg
        · obtain ⟨seg, rfl⟩ := hseg
          obtain ⟨g, hg, hbare⟩ := hfrom seg List.mem_cons_self
          refine ⟨.segment g, first.bare hbare, ?_⟩
          rintro g' ⟨⟩
          exact hg
        · exact ⟨o, first, fun seg ho => absurd ⟨seg, ho⟩ hseg⟩
      obtain ⟨o', hperforms, hsent⟩ := hmeet
      obtain ⟨e, rfl, hop⟩ := (networkOf q).exists_op s hsent
      exact h.step hop (small_of_performed hperforms.performed hsmall₁) hperforms
    have hrest := ih (Function.update_self ..) hfirst
      (fun seg hseg => by
        rw [Function.update_of_ne s.other_ne]
        exact hfrom seg (List.mem_cons_of_mem _ hseg))
      (by rwa [Function.update_idem])
    rwa [Function.update_idem] at hrest

end Sponge
