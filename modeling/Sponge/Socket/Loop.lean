import Sponge.Adapter.Devices
import Sponge.Connection.Streams
import Sponge.Descriptor.EventLoop
import Sponge.Socket.Streams

/-! # The thread of a socket

Four rules make up the event loop of a socket. What the loop does is a sequence of events, each of
which may happen where it does. The rules are never busy.
-/

namespace Sponge

open EventLoop Runs

/-- The rules, in the order in which they are added. -/
inductive SocketRule
  | receive | takeFromOwner | giveToOwner | send
  deriving DecidableEq, Repr

namespace SocketRule

/-- The rule `j` is added before `k`. -/
def before : SocketRule → SocketRule → Prop
  | receive, k => k ≠ receive
  | takeFromOwner, k => k = giveToOwner ∨ k = send
  | giveToOwner, k => k = send
  | send, _ => False

instance : ∀ j k, Decidable (before j k)
  | receive, k => inferInstanceAs (Decidable (k ≠ receive))
  | takeFromOwner, k => inferInstanceAs (Decidable (k = giveToOwner ∨ k = send))
  | giveToOwner, k => inferInstanceAs (Decidable (k = send))
  | send, _ => instDecidableFalse

def all : List SocketRule := [receive, takeFromOwner, giveToOwner, send]

/-- What a callback meets: an item from the device, how the kernel answers to what it is asked for,
and what it refuses. -/
abbrev Input (ω : Type) : SocketRule → Type
  | receive => Except Errno ω × Option Refusal
  | takeFromOwner => ℕ → ReadAnswer
  | giveToOwner => (Buffer → Answer) × Option Errno
  | send => Option Refusal

/-- The kernel answers as it should. -/
def Good {ω : Type} : ∀ k, Input ω k → Prop
  | takeFromOwner, answer => ∀ size, (answer size).Honest size
  | giveToOwner, (answer, _) => ∀ buffer, (answer buffer).Honest buffer
  | receive, _ | send, _ => True

end SocketRule

namespace TCPSpongeSocket

variable {α ω : Type} (A : DatagramAdapter α ω)

/-- A socket and all that its adapter has sent. -/
abbrev World (α ω : Type) := TCPSpongeSocket α × List ω

def World.step (x : World α ω) (e : Event ω) : Except Exception (World α ω) := do
  let (s, out) ← x.1.step A e
  return (s, x.2 ++ out)

/-- The event that a callback amounts to. -/
def eventOf (s : TCPSpongeSocket α) : ∀ k, SocketRule.Input ω k → Event ω
  | .receive, (item, refusal) => .receive item refusal
  | .takeFromOwner, answer =>
    .takeFromOwner (answer (FileDescriptor.sizeToRead s.tcp.remainingOutboundCapacity))
  | .giveToOwner, (answer, refusal) => .giveToOwner (answer s.nextForOwner) refusal
  | .send, refusal => .send refusal

/-- There are bytes for the owner, or their end is to be passed on. -/
def hasForOwner (s : TCPSpongeSocket α) : Bool :=
  !s.tcp.inboundStream.bufferEmpty ||
    ((s.tcp.inboundStream.eof || s.tcp.inboundStream.error) && !s.inboundShutdown)

/-- `_initialize_TCP` adds the rules. -/
def rules : ∀ k, Rule (World α ω) (SocketRule.Input ω k)
  | .receive =>
    { fd := fun x => x.1.adapterFd
      direction := .In
      callback := fun x input => World.step A x (x.1.eventOf .receive input)
      interest := fun x => x.1.tcp.active }
  | .takeFromOwner =>
    { fd := fun x => x.1.threadData
      direction := .In
      callback := fun x input => World.step A x (x.1.eventOf .takeFromOwner input)
      interest := fun x =>
        x.1.tcp.active && !x.1.outboundShutdown && decide (0 < x.1.tcp.remainingOutboundCapacity)
      cancel := fun x => (x.1.cancelOutbound, x.2) }
  | .giveToOwner =>
    { fd := fun x => x.1.threadData
      direction := .Out
      callback := fun x input => World.step A x (x.1.eventOf .giveToOwner input)
      interest := fun x => x.1.hasForOwner }
  | .send =>
    { fd := fun x => x.1.adapterFd
      direction := .Out
      callback := fun x input => World.step A x (x.1.eventOf .send input)
      interest := fun x => !x.1.segmentsQueued.isEmpty }

/-- What a turn of the loop meets. -/
structure LoopInput (ω : Type) where
  poll : PollAnswer SocketRule (SocketRule.Input ω)
  abort : Bool := false
  ms : ℕ
  refusal : Option Refusal := none

/-- What is true where a rule is called: it is still interested, except that the connection may have
become inactive when bytes are to be taken from the owner. -/
def Called (s : TCPSpongeSocket α) : Event ω → Prop
  | .receive _ _ => s.tcp.active = true
  | .takeFromOwner _ => s.outboundShutdown = false ∧ 0 < s.tcp.remainingOutboundCapacity
  | .giveToOwner _ _ => s.hasForOwner = true
  | .send _ => s.segmentsQueued ≠ []
  | .cancelOutbound | .tick _ _ => True

variable {A} {s s' : TCPSpongeSocket α} {x x' : World α ω} {out : List ω}

theorem Called.admissible {e : Event ω} (h : s.Called e) : s.Admissible e := by
  cases e with
  | takeFromOwner answer => exact h.1
  | _ => trivial

/-- What is allowed in the thread of a socket. -/
structure Performable (x : World α ω) (e : Event ω) : Prop where
  called : x.1.Called e
  honest : x.1.HonestAnswer e

theorem World.step_ok {e : Event ω} (h : World.step A x e = .ok x') :
    ∃ out, x.1.step A e = .ok (x'.1, out) ∧ x'.2 = x.2 ++ out := by
  obtain ⟨⟨s, out⟩, hs, h⟩ := bind_ok_iff.mp h
  obtain rfl := Except.ok.inj h
  exact ⟨out, hs, rfl⟩

theorem giveToOwner_counts {answer : Answer} {refusal : Option Errno}
    (h : s.giveToOwner answer refusal = .ok s') :
    s'.sent = s.sent ∧ s'.threadData.writeCount ≠ s.threadData.writeCount := by
  obtain ⟨⟨threadData, bytesWritten, given⟩, hwrite, h⟩ := bind_ok_iff.mp h
  obtain rfl := FileDescriptor.write_counts hwrite
  simp only at h
  split_ifs at h
  · obtain ⟨fd, hshut, h⟩ := bind_ok_iff.mp h
    obtain rfl := FileDescriptor.shutdownWrite_ok hshut
    cases h
    exact ⟨rfl, (FileDescriptor.count_ne _).2⟩
  · cases h
    exact ⟨rfl, (FileDescriptor.count_ne _).1⟩

theorem step_sent {e : Event ω} (hsend : ∀ refusal, e ≠ .send refusal)
    (h : s.step A e = .ok (s', out)) :
    s'.sent = s.sent := by
  cases e with
  | receive item refusal =>
    obtain ⟨seg, -, hsame, -⟩ := receive_ok h
    rw [hsame]
  | takeFromOwner answer =>
    obtain ⟨s₁, hs, h⟩ := bind_ok_iff.mp h
    cases h
    obtain ⟨data, threadData, -, hsame, -⟩ := takeFromOwner_ok hs
    rw [hsame]
  | cancelOutbound =>
    cases h
    rfl
  | giveToOwner answer refusal =>
    obtain ⟨s₁, hs, h⟩ := bind_ok_iff.mp h
    cases h
    exact (giveToOwner_counts hs).1
  | send refusal => exact absurd rfl (hsend refusal)
  | tick ms refusal =>
    rcases tick_ok h with ⟨-, -, hsame⟩ | ⟨-, rfl, -⟩
    · rw [hsame]
    · rfl

theorem segmentsQueued_ne {e : Event ω} (hsend : ∀ refusal, e ≠ .send refusal)
    (hhonest : s.HonestAnswer e) (hadmissible : s.Admissible e)
    (hs : s.step A e = .ok (s', out)) (hqueue : s.segmentsQueued ≠ []) :
    s'.segmentsQueued ≠ [] := by
  obtain ⟨os, hos, -⟩ := step_performed hhonest hadmissible hs
  have hlen := hos.segmentsOut_prefix.length_le
  have hsent := step_sent hsend hs
  rw [segmentsQueued, ne_eq, List.drop_eq_nil_iff] at hqueue ⊢
  omega

theorem endInputStream_active (c : TCPConnection) : c.endInputStream.active = c.active := by
  unfold TCPConnection.endInputStream
  split_ifs
  · rw [TCPConnection.fillWindowAndSend_active]
  · rfl

theorem Performed.steady {os : List TCPConnection.Op} (h : s.Performed os s')
    (hs : s.tcp.Steady) : s'.tcp.Steady := by
  induction h with
  | @rest s s' endpoint _ _ =>
    have htcp : s'.tcp = s.tcp := congrArg Endpoint.conn endpoint
    rwa [htcp]
  | @op s s₁ s' o _ first _ ih =>
    have htcp : s₁.tcp = s.tcp.step o := congrArg Endpoint.conn first.endpoint
    exact ih (htcp ▸ hs.step first.reads)

theorem Performable.steady {e : Event ω} (h : Performable x e) (hs : World.step A x e = .ok x')
    (hsteady : x.1.tcp.Steady) : x'.1.tcp.Steady := by
  obtain ⟨out, hsocket, -⟩ := World.step_ok hs
  obtain ⟨os, hos, -⟩ := step_performed h.honest h.called.admissible hsocket
  exact hos.steady hsteady

theorem hasForOwner_of_appended (hsteady : s.tcp.Steady)
    (h : s.tcp.inboundStream.Appended s'.tcp.inboundStream)
    (hshut : s'.inboundShutdown = s.inboundShutdown) (hs : s.hasForOwner = true) :
    s'.hasForOwner = true := by
  have hbefore := hsteady.inbound.bufferEmpty_iff
  have hafter := (h.consistent hsteady.inbound).bufferEmpty_iff
  rw [hasForOwner, Bool.or_eq_true, Bool.not_eq_true', ← Bool.not_eq_true] at hs ⊢
  rw [hafter]
  by_cases hnil : s'.tcp.inboundStream.buf = []
  · right
    have hempty : s.tcp.inboundStream.buf = [] := List.prefix_nil.mp (hnil ▸ h.buf)
    rw [hbefore] at hs
    have hends := hs.resolve_left (not_not_intro hempty)
    rw [hshut]
    simp only [Bool.and_eq_true, Bool.or_eq_true] at hends ⊢
    refine ⟨hends.1.imp (fun heof => ?_) h.error, hends.2⟩
    obtain ⟨-, hended⟩ := hsteady.inbound.eof_iff.mp heof
    exact (h.consistent hsteady.inbound).eof_iff.mpr ⟨hnil, h.ended hended⟩
  · exact Or.inl hnil

theorem receive_streams {item : Except Errno ω} {refusal : Option Refusal}
    (h : s.receive A item refusal = .ok (s', out)) :
    s.tcp.inboundStream.Appended s'.tcp.inboundStream ∧
      s.tcp.sender.stream.Drained s'.tcp.sender.stream := by
  obtain ⟨seg, -, -, htcp⟩ := receive_ok h
  rw [htcp]
  cases seg with
  | none => exact ⟨.refl _, .refl _⟩
  | some seg =>
    exact ⟨s.tcp.appended_step (.segment seg) (by simp), s.tcp.drained_segmentReceived seg⟩

theorem takeFromOwner_appended {answer : ReadAnswer} (h : s.takeFromOwner answer = .ok s') :
    s.tcp.inboundStream.Appended s'.tcp.inboundStream := by
  obtain ⟨data, threadData, -, -, hendpoint⟩ := takeFromOwner_ok h
  have hconn := congrArg Endpoint.conn hendpoint
  have hwrite := s.tcp.appended_step (.write data) (by simp)
  change s'.tcp = _ at hconn
  rw [hconn]
  split_ifs
  · exact hwrite.trans ((s.tcp.step (.write data)).appended_step .endInputStream (by simp))
  · exact hwrite

theorem good_honest {k : SocketRule} {input : SocketRule.Input ω k}
    (h : SocketRule.Good k input) : s.HonestAnswer (s.eventOf k input) := by
  cases k with
  | receive | send => trivial
  | takeFromOwner => exact h _
  | giveToOwner => exact h _

theorem callback_eq {k : SocketRule} {input : SocketRule.Input ω k} :
    (rules A k).callback x input = World.step A x (x.1.eventOf k input) := by
  cases k <;> rfl

/-- What is true where a rule is called, whatever its callback will meet. -/
def Guard (k : SocketRule) (x : World α ω) : Prop :=
  ∀ input : SocketRule.Input ω k, x.1.Called (x.1.eventOf k input)

theorem Guard.cancelOutbound {k : SocketRule} (hg : Guard k x) (hne : k ≠ .takeFromOwner)
    (hsteady : x.1.tcp.Steady) : Guard k (x.1.cancelOutbound, x.2) := by
  intro input
  cases k with
  | receive =>
    have hactive : x.1.tcp.active = true := hg input
    exact (endInputStream_active _).trans hactive
  | takeFromOwner => exact absurd rfl hne
  | giveToOwner =>
    have happended := x.1.tcp.appended_step .endInputStream (by simp)
    have hwaits : x.1.cancelOutbound.hasForOwner = true :=
      hasForOwner_of_appended hsteady happended rfl (hg input)
    exact hwaits
  | send =>
    have hlen : x.1.tcp.segmentsOut.length ≤ x.1.cancelOutbound.tcp.segmentsOut.length :=
      (x.1.tcp.segmentsOut_step .endInputStream).length_le
    have hqueue : x.1.segmentsQueued ≠ [] := hg input
    change List.drop x.1.sent x.1.cancelOutbound.tcp.segmentsOut ≠ []
    rw [segmentsQueued, ne_eq, List.drop_eq_nil_iff] at hqueue
    rw [ne_eq, List.drop_eq_nil_iff]
    omega

/-- The guards of the rules that come later are kept by an event of a rule. -/
theorem Guard.callback {j k : SocketRule} {input : SocketRule.Input ω j} (hg : Guard k x)
    (hbefore : SocketRule.before j k) (hsteady : x.1.tcp.Steady)
    (h : Performable x (x.1.eventOf j input))
    (hstep : World.step A x (x.1.eventOf j input) = .ok x') : Guard k x' := by
  intro input'
  obtain ⟨out, hsocket, -⟩ := World.step_ok hstep
  cases k with
  | receive => cases j <;> simp [SocketRule.before] at hbefore
  | takeFromOwner =>
    obtain rfl : j = .receive := by cases j <;> simp [SocketRule.before] at hbefore ⊢
    obtain ⟨seg, -, hsame, -⟩ := receive_ok hsocket
    obtain ⟨hopen, hroom⟩ := hg input'
    have hgrows := (receive_streams hsocket).2.room hsteady.outbound
    have hshut : x'.1.outboundShutdown = x.1.outboundShutdown := by rw [hsame]
    exact ⟨hshut.trans hopen, hroom.trans_le hgrows⟩
  | giveToOwner =>
    have hwaits : x.1.hasForOwner = true := hg (fun _ => { ret := 0 }, none)
    cases j with
    | receive =>
      obtain ⟨seg, -, hsame, -⟩ := receive_ok hsocket
      exact hasForOwner_of_appended hsteady (receive_streams hsocket).1 (by rw [hsame]) hwaits
    | takeFromOwner =>
      obtain ⟨s₁, htake, heq⟩ := bind_ok_iff.mp hsocket
      obtain rfl : s₁ = x'.1 := congrArg Prod.fst (Except.ok.inj heq)
      obtain ⟨data, threadData, -, hsame, -⟩ := takeFromOwner_ok htake
      exact hasForOwner_of_appended hsteady (takeFromOwner_appended htake) (by rw [hsame]) hwaits
    | giveToOwner | send => simp [SocketRule.before] at hbefore
  | send =>
    have hsend : ∀ refusal, x.1.eventOf j input ≠ .send refusal := by
      cases j <;> simp [SocketRule.before, eventOf] at hbefore ⊢
    exact segmentsQueued_ne hsend h.honest h.called.admissible hsocket (hg input')

variable (A) in
/-- The rules of a socket go through events that may happen in its thread. -/
theorem rules_sound (x₀ : World α ω) :
    Sound (rules A) SocketRule.before SocketRule.Good Set.univ
      (fun _ x => ReachesE (World.step A) Performable x₀ x ∧ x.1.tcp.Steady) Guard where
  guards _ k x _ _ _ hinterest input := by
    cases k with
    | receive => exact hinterest
    | takeFromOwner =>
      simp only [rules, Bool.and_eq_true, Bool.not_eq_true', decide_eq_true_eq] at hinterest
      exact ⟨hinterest.1.2, hinterest.2⟩
    | giveToOwner => exact hinterest
    | send =>
      intro hnone
      simp [rules, hnone] at hinterest
  cancel _ j x hj hx _ := by
    obtain ⟨hreaches, hsteady⟩ := hx
    cases j with
    | takeFromOwner =>
      have hcancel : World.step A x .cancelOutbound = .ok (x.1.cancelOutbound, x.2) := by
        have hout : x.2 ++ ([] : List ω) = x.2 := List.append_nil _
        change Except.ok (x.1.cancelOutbound, x.2 ++ []) = _
        rw [hout]
      have hperformable : Performable x (.cancelOutbound : Event ω) := ⟨trivial, trivial⟩
      exact ⟨⟨hreaches.tail hperformable hcancel, hperformable.steady hcancel hsteady⟩,
        fun k hk hg => hg.cancelOutbound (ne_of_mem_of_not_mem hk hj) hsteady⟩
    | receive | giveToOwner | send => exact ⟨⟨hreaches, hsteady⟩, fun k _ hg => hg⟩
  callback _ j x input x' _ hx hg hgood hs := by
    obtain ⟨hreaches, hsteady⟩ := hx
    have hperformable : Performable x (x.1.eventOf j input) := ⟨hg input, good_honest hgood⟩
    have hstep : World.step A x (x.1.eventOf j input) = .ok x' := callback_eq ▸ hs
    exact ⟨⟨hreaches.tail hperformable hstep, hperformable.steady hstep hsteady⟩,
      fun k _ hk hguard => hguard.callback hk hsteady hperformable hstep⟩

/-- A rule that is called reads or writes its descriptor, or has sent all there is to send. -/
theorem rules_served {k : SocketRule} {input : SocketRule.Input ω k}
    (h : (rules A k).callback x input = .ok x')
    (hcount : (rules A k).serviceCount x = (rules A k).serviceCount x') :
    (rules A k).interest x' = false := by
  cases k with
  | receive =>
    obtain ⟨out, hs, -⟩ := World.step_ok h
    obtain ⟨⟨seg, a, out'⟩, -, hs⟩ := bind_ok_iff.mp hs
    have hfd : registerWrites (registerItem A x.1.adapterFd input.1) out'.length =
        x'.1.adapterFd := congrArg (fun r => r.1.adapterFd) (Except.ok.inj hs)
    have hcounts : x.1.adapterFd.readCount + 1 = x'.1.adapterFd.readCount :=
      congrArg FileDescriptor.readCount hfd
    exact absurd (hcounts.trans hcount.symm) (FileDescriptor.count_ne _).1
  | takeFromOwner =>
    obtain ⟨out, hs, -⟩ := World.step_ok h
    obtain ⟨s₁, hs, heq⟩ := bind_ok_iff.mp hs
    obtain rfl : s₁ = x'.1 := congrArg Prod.fst (Except.ok.inj heq)
    obtain ⟨data, threadData, hread, hsame, -⟩ := takeFromOwner_ok hs
    have hcounts := FileDescriptor.read_counts hread
    have hdata : x'.1.threadData = threadData := by rw [hsame]
    rw [← hdata] at hcounts
    exact absurd (hcounts.symm.trans hcount.symm) (FileDescriptor.count_ne _).1
  | giveToOwner =>
    obtain ⟨out, hs, -⟩ := World.step_ok h
    obtain ⟨s₁, hs, heq⟩ := bind_ok_iff.mp hs
    obtain rfl : s₁ = x'.1 := congrArg Prod.fst (Except.ok.inj heq)
    exact absurd hcount.symm (giveToOwner_counts hs).2
  | send =>
    obtain ⟨out, hs, -⟩ := World.step_ok h
    obtain ⟨-, hsame⟩ := send_ok hs
    have hnone : x'.1.segmentsQueued = [] := by
      rw [hsame]
      exact List.drop_length
    simp [rules, hnone]

theorem all_ordered : SocketRule.all.Nodup ∧ SocketRule.all.Pairwise SocketRule.before := by
  decide

/-- The kernel answers as it should whenever it is asked. -/
def LoopInput.Good (input : LoopInput ω) : Prop :=
  ∀ k, SocketRule.Good k (input.poll.revents k).input

/-- What is left to do for a rule: nothing. -/
def Idle (s : TCPSpongeSocket α) : SocketRule → Prop
  | .receive => s.tcp.active = false
  | .takeFromOwner => s.tcp.active = true → s.outboundShutdown = false →
      s.tcp.remainingOutboundCapacity = 0
  | .giveToOwner => s.tcp.inboundStream.bufferEmpty = true ∧
      (s.tcp.inboundStream.eof = true ∨ s.tcp.inboundStream.error = true → s.inboundShutdown = true)
  | .send => s.segmentsQueued = []

theorem idle_of_interest {k : SocketRule} (h : (rules A k).interest x = false) : x.1.Idle k := by
  cases k with
  | receive => exact h
  | takeFromOwner =>
    intro hactive hopen
    simpa [rules, hactive, hopen] using h
  | giveToOwner =>
    simp only [rules, hasForOwner, Bool.or_eq_false_iff, Bool.and_eq_false_iff,
      Bool.not_eq_false'] at h
    refine ⟨h.1, fun hends => h.2.resolve_left fun hnone => ?_⟩
    rcases hends with hends | hends <;> simp [hends] at hnone
  | send => exact List.isEmpty_iff.mp (by simpa [rules] using h)

/-- A loop ends by itself only if there is nothing left to do for any of the rules that it still
has. -/
theorem exit_idle {rules rules' : List SocketRule} (hrules : rules.Sublist SocketRule.all)
    {poll : PollAnswer SocketRule (SocketRule.Input ω)}
    (hsignal : poll.ret.toInt < 0 → poll.errno ≠ interrupted)
    (h : waitNextEvent (TCPSpongeSocket.rules A) rules x poll = .ok (.exit, rules', x')) :
    ∀ k ∈ rules', x'.1.Idle k := by
  have hcancel : ∀ (k j : SocketRule) (x : World α ω), SocketRule.before k j → x.1.Idle k →
      ((TCPSpongeSocket.rules A j).cancel x).1.Idle k := by
    intro k j x hbefore hidle
    cases j with
    | takeFromOwner =>
      obtain rfl : k = .receive := by cases k <;> simp [SocketRule.before] at hbefore ⊢
      exact (endInputStream_active _).trans hidle
    | receive | giveToOwner | send => exact hidle
  obtain ⟨hentries, -⟩ := prepare_idle (R := TCPSpongeSocket.rules A) (s := x)
    (Q := fun k x => x.1.Idle k) (fun _ _ => idle_of_interest) hcancel
    (all_ordered.2.sublist hrules)
  cases waitNextEvent_ok h with
  | idle hidle =>
    intro k hk
    obtain ⟨c, hc, rfl⟩ := List.mem_map.mp hk
    exact hentries c hc (hidle c hc)
  | interrupted hpoll herrno => exact absurd herrno (hsignal (systemCall_error hpoll))

/-- The loop of a connection that has given up, after its RST was sent. -/
theorem exit_idle_gives_up :
    let c := (List.range 9).foldl (fun c _ => c.tick 1000000)
      (TCPConnection.new { isn := ⟨0⟩ }).connect
    let x : World TCPOverUDPSocketAdapter UDPDatagram :=
      ({ tcp := c, datagramAdapter := { localAddress := ⟨1, 10⟩ }, sent := 10
         inboundShutdown := true }, [])
    ∀ k ∈ SocketRule.all, x.1.Idle k := by
  intro c x
  let A := TCPOverUDPSocketAdapter.datagramAdapter
  let poll : PollAnswer SocketRule (SocketRule.Input UDPDatagram) :=
    { ret := 0, revents := fun k => match k with
      | .receive => { input := (.ok ⟨⟨2, 20⟩, ⟨1, 10⟩, []⟩, none) }
      | .takeFromOwner => { input := fun _ => { ret := -1, errno := 11 } }
      | .giveToOwner => { input := (fun _ => { ret := -1, errno := 11 }, none) }
      | .send => { input := none } }
  have hsignal : poll.ret.toInt < 0 → poll.errno ≠ interrupted := by decide
  have hwait : waitNextEvent (TCPSpongeSocket.rules A) SocketRule.all x poll =
      .ok (.exit, SocketRule.all, x) := rfl
  exact exit_idle (List.Sublist.refl _) hsignal hwait

end TCPSpongeSocket

end Sponge
