import Sponge.Adapter.Devices
import Sponge.Socket.Streams

/-! # Two sockets and the network between them

One socket connects, the other one listens. The network hands on what was sent, in any order, any
number of times or never; on its way it may be changed, as long as it goes on to carry what was
written. What a socket gives to its owner is then a prefix of what the owner of the other socket
has written.
-/

namespace Sponge

open DatagramAdapter Runs TCPSpongeSocket

variable {α ω : Type} {A : DatagramAdapter α ω}

/-- If all that is on the wire carries what was written, `w` does. -/
def DatagramAdapter.Conveys.Relays (C : A.Conveys) (wire : List ω) (w : ω) : Prop :=
  ∀ W, (∀ w' ∈ wire, C.Travels W w') → C.Travels W w

theorem DatagramAdapter.Conveys.relays_of_mem (C : A.Conveys) {wire : List ω} {w : ω}
    (h : w ∈ wire) : C.Relays wire w := fun _ hwire => hwire w h

/-- The sockets, and all that their adapters have sent. -/
structure SpongePair (α ω : Type) where
  socket : Side → TCPSpongeSocket α
  wire : List ω := []

namespace SpongePair

/-- Something happens in the thread of one of the sockets. -/
abbrev Event (ω : Type) := Side × TCPSpongeSocket.Event ω

def step (A : DatagramAdapter α ω) (p : SpongePair α ω) (e : Event ω) :
    Except Exception (SpongePair α ω) := do
  let (sock, out) ← (p.socket e.1).step A e.2
  return ⟨Function.update p.socket e.1 sock, p.wire ++ out⟩

/-- The kernel answers as it should, and the network brings what was sent. -/
structure Allowed (C : A.Conveys) (p : SpongePair α ω) (e : Event ω) : Prop where
  honest : (p.socket e.1).HonestAnswer e.2
  admissible : (p.socket e.1).Admissible e.2
  arrives : ∀ w refusal, e.2 = .receive (.ok w) refusal →
    C.Relays p.wire w ∧ C.Reaches w (p.socket e.1).datagramAdapter

/-- What arrives was sent as it is. -/
def Direct (C : A.Conveys) (p : SpongePair α ω) (e : Event ω) : Prop :=
  (p.socket e.1).HonestAnswer e.2 ∧ (p.socket e.1).Admissible e.2 ∧
    match e.2 with
    | .receive (.ok w) _ => w ∈ p.wire ∧ C.Reaches w (p.socket e.1).datagramAdapter
    | _ => True

instance [DecidableEq ω] (C : A.Conveys) [∀ w a, Decidable (C.Reaches w a)]
    (p : SpongePair α ω) : ∀ e, Decidable (Direct C p e)
  | (_, .receive (.ok _) _) => inferInstanceAs (Decidable (_ ∧ _ ∧ _ ∧ _))
  | (_, .receive (.error _) _) | (_, .takeFromOwner _) | (_, .cancelOutbound)
  | (_, .giveToOwner _ _) | (_, .send _) | (_, .tick _ _) =>
    inferInstanceAs (Decidable (_ ∧ _ ∧ True))

theorem Direct.allowed {C : A.Conveys} {p : SpongePair α ω} {e : Event ω} (h : Direct C p e) :
    Allowed C p e where
  honest := h.1
  admissible := h.2.1
  arrives w refusal he := by
    obtain ⟨-, -, harrives⟩ := h
    rw [he] at harrives
    exact ⟨C.relays_of_mem harrives.1, harrives.2⟩

/-- One socket has called `connect` and the other one `listen_and_accept`, from different
addresses. -/
structure Opening (C : A.Conveys) (cfg : Side → TCPConfig) (p : SpongePair α ω) : Prop where
  connect : ∃ cAd a, connect A (cfg .x) cAd a = .ok (p.socket .x)
  listen : ∃ cAd a, p.socket .y = listenAndAccept A (cfg .y) cAd a
  wire : p.wire = []
  inv : ∀ s, C.Inv ⊥ (p.socket s).datagramAdapter
  listening : A.listening (p.socket .x).datagramAdapter = false
  distinct : C.own (p.socket .y).datagramAdapter ≠ C.own (p.socket .x).datagramAdapter
  abroad : A.peer (p.socket .x).datagramAdapter ≠ C.own (p.socket .x).datagramAdapter

/-- The socket `y` listens, or talks to `x`, which is at the address `X` and calls `Y`. -/
def Met (C : A.Conveys) (X Y : Address) (p : SpongePair α ω) : Prop :=
  A.listening (p.socket .y).datagramAdapter = true ∨
    (C.own (p.socket .y).datagramAdapter = Y ∧ A.peer (p.socket .y).datagramAdapter = X)

/-- All that is on the wire carries what was written. -/
structure Carrying (C : A.Conveys) (W : Written) (p : SpongePair α ω) : Prop where
  wire : ∀ w ∈ p.wire, C.Travels W w
  inv : ∀ s, C.Inv W (p.socket s).datagramAdapter
  plain : ∀ s, (p.socket s).tcp.Plain

/-- What was written from the address of `x` was sent by `x`, and all else by `y`. -/
structure Wired (C : A.Conveys) (X Y : Address) (W : Written) (p : SpongePair α ω) : Prop
    extends Carrying C W p where
  listening : A.listening (p.socket .x).datagramAdapter = false
  own : C.own (p.socket .x).datagramAdapter = X
  peer : A.peer (p.socket .x).datagramAdapter = Y
  distinct : C.own (p.socket .y).datagramAdapter ≠ X
  known : ∀ source destination, ∀ g ∈ W source destination,
    (source = X ∧ destination = Y ∧ g ∈ (p.socket .x).tcp.segmentsOut) ∨
      (source ≠ X ∧ g ∈ (p.socket .y).tcp.segmentsOut)

variable {C : A.Conveys} {W : Written} {X Y : Address} {cfg : Side → TCPConfig}
  {p p' : SpongePair α ω} {e : Event ω}

theorem step_ok (h : p.step A e = .ok p') : ∃ out,
    (p.socket e.1).step A e.2 = .ok (p'.socket e.1, out) ∧
      p'.socket = Function.update p.socket e.1 (p'.socket e.1) ∧ p'.wire = p.wire ++ out := by
  unfold step at h
  cases hs : (p.socket e.1).step A e.2 with
  | error e =>
    rw [hs] at h
    cases h
  | ok result =>
    obtain ⟨sock, out⟩ := result
    rw [hs] at h
    obtain rfl := Except.ok.inj h
    exact ⟨out, by simp, by simp, rfl⟩

theorem socket_other (h : p.step A e = .ok p') : p'.socket e.1.other = p.socket e.1.other := by
  obtain ⟨-, -, hsocket, -⟩ := step_ok h
  have hother := congrFun hsocket e.1.other
  rwa [Function.update_of_ne e.1.other_ne] at hother

theorem Carrying.reached (h : Carrying C W p) (ha : Allowed C p e) :
    (p.socket e.1).Reached C W e.2 := by
  match he : e.2 with
  | .receive (.ok w) refusal =>
    exact ⟨(ha.arrives w refusal he).1 W h.wire, (ha.arrives w refusal he).2⟩
  | .receive (.error _) _ | .takeFromOwner _ | .cancelOutbound | .giveToOwner _ _ | .send _
  | .tick _ _ => trivial

theorem Carrying.step (h : Carrying C W p) (ha : Allowed C p e) (hs : p.step A e = .ok p') :
    Carrying C ((p.socket e.1).wrote C W) p' ∧
      A.Stays C.own (p.socket e.1).datagramAdapter (p'.socket e.1).datagramAdapter := by
  obtain ⟨out, hstep, -, hwire⟩ := step_ok hs
  have hother := socket_other hs
  have hle : W ≤ (p.socket e.1).wrote C W := W.le_add _ _ _
  have hconveyed := step_conveyed (h.inv e.1) (h.plain e.1) ha.honest (h.reached ha) hstep
  obtain ⟨os, hos, -⟩ := step_performed ha.honest ha.admissible hstep
  refine ⟨⟨fun w hw => ?_, fun s => ?_, fun s => ?_⟩, hconveyed.stays⟩
  · rw [hwire] at hw
    rcases List.mem_append.mp hw with hw | hw
    · exact C.travels_mono (h.wire w hw) hle
    · exact hconveyed.out w hw
  · rcases Side.eq_or_eq_other e.1 s with rfl | rfl
    · exact hconveyed.inv
    · rw [hother]
      exact C.inv_mono (h.inv _) hle
  · rcases Side.eq_or_eq_other e.1 s with rfl | rfl
    · exact hos.plain (h.plain _)
    · rw [hother]
      exact h.plain _

theorem Met.of_stays (hstays : ∀ s, A.Stays C.own (p.socket s).datagramAdapter
    (p'.socket s).datagramAdapter) (h : Met C X Y p') : Met C X Y p := by
  cases hl : A.listening (p.socket .y).datagramAdapter with
  | true => exact Or.inl hl
  | false =>
    have hkeeps := (hstays .y).connected hl
    rcases h with h | ⟨hown, hpeer⟩
    · rw [hkeeps.listening, hl] at h
      cases h
    · exact Or.inr ⟨hkeeps.own ▸ hown, hkeeps.peer ▸ hpeer⟩

theorem Carrying.stays (h : Carrying C W p) (ha : Allowed C p e) (hs : p.step A e = .ok p')
    (s : Side) : A.Stays C.own (p.socket s).datagramAdapter (p'.socket s).datagramAdapter := by
  rcases Side.eq_or_eq_other e.1 s with rfl | rfl
  · exact (h.step ha hs).2
  · rw [socket_other hs]
    exact (Keeps.refl _ _).stays

theorem segmentsOut_prefix (ha : Allowed C p e) (hs : p.step A e = .ok p') (s : Side) :
    (p.socket s).tcp.segmentsOut <+: (p'.socket s).tcp.segmentsOut := by
  obtain ⟨out, hstep, -, -⟩ := step_ok hs
  obtain ⟨os, hos, -⟩ := step_performed ha.honest ha.admissible hstep
  rcases Side.eq_or_eq_other e.1 s with rfl | rfl
  · exact hos.segmentsOut_prefix
  · rw [socket_other hs]

/-- As long as the sockets talk to each other, all that is written is known to be theirs. -/
theorem Wired.step (h : Wired C X Y W p) (ha : Allowed C p e) (hs : p.step A e = .ok p')
    (hmet : Met C X Y p') (hne : Y ≠ X) : Wired C X Y ((p.socket e.1).wrote C W) p' := by
  have hstays := h.toCarrying.stays ha hs
  have hcaller := (hstays .x).connected h.listening
  have hout := segmentsOut_prefix ha hs
  refine ⟨(h.toCarrying.step ha hs).1, hcaller.listening.trans h.listening,
    hcaller.own.trans h.own, hcaller.peer.trans h.peer, ?_, fun source destination g hg => ?_⟩
  · rcases hmet with hl | ⟨hown, -⟩
    · rw [((hstays .y).listening hl).own]
      exact h.distinct
    · rwa [hown]
  · rcases hg with hg | ⟨rfl, rfl, hg⟩
    · rcases h.known source destination g hg with ⟨hsource, hdestination, hg⟩ | ⟨hsource, hg⟩
      · exact Or.inl ⟨hsource, hdestination, (hout .x).subset hg⟩
      · exact Or.inr ⟨hsource, (hout .y).subset hg⟩
    · cases hside : e.1 with
      | x =>
        rw [hside] at hg
        exact Or.inl ⟨h.own, h.peer, (hout .x).subset hg⟩
      | y =>
        rw [hside] at hg
        exact Or.inr ⟨h.distinct, (hout .y).subset hg⟩

theorem Wired.from_other (h : Wired C X Y W p) (ha : Allowed C p e) (hs : p.step A e = .ok p')
    (hmet : Met C X Y p') (hne : Y ≠ X) {item : Except Errno ω} {refusal : Option Refusal}
    {seg : TCPSegment} {out : List ω} (he : e.2 = .receive item refusal)
    (hread : A.read (p.socket e.1).datagramAdapter item refusal =
      .ok (some seg, (p'.socket e.1).datagramAdapter, out)) :
    ∃ g ∈ (p.socket e.1.other).tcp.segmentsOut, seg.bare = g.bare := by
  obtain ⟨w, rfl⟩ : ∃ w, item = .ok w := by
    cases item with
    | ok w => exact ⟨w, rfl⟩
    | error errno =>
      obtain ⟨err, herr⟩ := C.unread (p.socket e.1).datagramAdapter errno refusal
      cases hread.symm.trans herr
  obtain ⟨hrelays, hreaches⟩ := ha.arrives w refusal he
  obtain ⟨seg', a', out', hread', -, -, -, hseg⟩ :=
    C.read (h.inv e.1) (hrelays W h.wire) hreaches
  obtain ⟨-, -, heq⟩ := map_ok_iff.mp ((hread' refusal).symm.trans hread)
  obtain ⟨rfl, rfl, -⟩ : seg' = some seg ∧ a' = (p'.socket e.1).datagramAdapter ∧ out' = out := by
    simpa using heq
  obtain ⟨hlistening, g, hg, hbare⟩ := hseg seg rfl
  refine ⟨g, ?_, hbare⟩
  have hcaller := (h.toCarrying.stays ha hs .x).connected h.listening
  cases hside : e.1 with
  | x =>
    rw [hside, hcaller.own, h.own, hcaller.peer, h.peer] at hg
    rcases h.known _ _ g hg with ⟨hsource, -⟩ | ⟨-, hg⟩
    · exact absurd hsource hne
    · exact hg
  | y =>
    rw [hside] at hg hlistening
    rcases hmet with hl | ⟨hown, hpeer⟩
    · rw [hlistening] at hl
      cases hl
    · rw [hown, hpeer] at hg
      rcases h.known _ _ g hg with ⟨-, -, hg⟩ | ⟨hsource, -⟩
      · exact hg
      · exact absurd rfl hsource

theorem Wired.streams (h : Wired C X Y W p) (ha : Allowed C p e) (hs : p.step A e = .ok p')
    (hmet : Met C X Y p') (hne : Y ≠ X) (hsmall : (networkOf p'.socket).Small cfg)
    (hstreams : Streams cfg p.socket) : Streams cfg p'.socket := by
  obtain ⟨out, hstep, hsocket, -⟩ := step_ok hs
  obtain ⟨os, hos, hsegs⟩ := step_performed ha.honest ha.admissible hstep
  rw [hsocket] at hsmall ⊢
  refine hstreams.performed hos rfl (fun seg hseg => ?_) hsmall
  obtain ⟨item, refusal, he, hread⟩ := hsegs seg hseg
  exact h.from_other ha hs hmet hne he hread

namespace Opening

theorem carrying (h : Opening C cfg p) : Carrying C ⊥ p where
  wire := by simp [h.wire]
  inv := h.inv
  plain s := by
    obtain ⟨cAd, a, hconnect⟩ := h.connect
    obtain ⟨cAd', a', hlisten⟩ := h.listen
    rw [connect_ok] at hconnect
    cases s with
    | x =>
      rw [← Except.ok.inj hconnect]
      exact (TCPConnection.Plain.new _).step .connect
    | y =>
      rw [hlisten]
      exact .new _

theorem wired (h : Opening C cfg p) : Wired C (C.own (p.socket .x).datagramAdapter)
    (A.peer (p.socket .x).datagramAdapter) ⊥ p where
  toCarrying := h.carrying
  listening := h.listening
  own := rfl
  peer := rfl
  distinct := h.distinct
  known _ _ _ hg := absurd hg id

theorem streams (h : Opening C cfg p) (hsmall : (networkOf p.socket).Small cfg) :
    Streams cfg p.socket := by
  obtain ⟨cAd, a, hconnect⟩ := h.connect
  obtain ⟨cAd', a', hlisten⟩ := h.listen
  rw [connect_ok] at hconnect
  have hx := (Except.ok.inj hconnect).symm
  have hcapacity : ∀ s, (cfg s).recvCapacity.toNat < 2 ^ 31 := fun s => by
    have hs := hsmall s.other
    rw [Side.other_other] at hs
    omega
  have hnew := Streams.new (fun s => (p.socket s).datagramAdapter) hcapacity
  -- the caller has sent its SYN
  have hconnects : Performs
      { tcp := .new (cfg .x), datagramAdapter := (p.socket .x).datagramAdapter }
      (p.socket .x) .connect :=
    { endpoint := by rw [hx]; rfl
      outbound := by simp
      ends := by simp
      writes := by simp
      reads := by simp
      inbound := fun hs => by rw [hx] at hs; exact Or.inl hs }
  have hcalls := Streams.performed (s := .x) hconnects.performed rfl hnew (by simp)
  have hsocket : Function.update
      (fun s : Side => ({ tcp := .new (cfg s), datagramAdapter := (p.socket s).datagramAdapter } :
        TCPSpongeSocket α)) .x (p.socket .x) = p.socket := by
    funext s
    cases s with
    | x => simp
    | y =>
      rw [Function.update_of_ne (by decide), hlisten]
      rfl
  rw [hsocket] at hcalls
  exact hcalls hsmall

end Opening

/-- What each socket has given to its owner is the beginning of what the other one has taken, and
all of it once the inbound stream was shut down without an error. -/
structure Agree (p : SpongePair α ω) (s : Side) : Prop where
  given : (p.socket s).given <+: (p.socket s.other).taken
  closed : (p.socket s).inboundShutdown = true →
    (p.socket s).tcp.inboundStream.error = false →
      (p.socket s).given = (p.socket s.other).taken ∧ (p.socket s.other).outboundShutdown = true

theorem agree_of_streams (h : Streams cfg p.socket) (s : Side) : Agree p s where
  given := by
    have hsafe := (h.safe s.other).inbound
    rw [Side.other_other] at hsafe
    exact (List.prefix_append _ _).trans hsafe
  closed hs hclean := by
    rcases h.closed s hs with herror | ⟨hended, hall⟩
    · rw [herror] at hclean
      cases hclean
    · have hshut := h.outboundShutdown_of_ended (s := s.other)
      rw [Side.other_other] at hshut
      exact ⟨hall, hshut hended⟩

/-- After every run in which the sockets have talked only to each other, the streams are safe. -/
theorem Opening.streams_of_run {es : List (Event ω)} (h : Opening C cfg p)
    (hallowed : AdmittedE (step A) (Allowed C) p es) (hrun : runE (step A) p es = .ok p')
    (hmet : Met C (C.own (p.socket .x).datagramAdapter) (A.peer (p.socket .x).datagramAdapter) p')
    (hsmall : (networkOf p'.socket).Small cfg) : Streams cfg p'.socket := by
  set X := C.own (p.socket .x).datagramAdapter
  set Y := A.peer (p.socket .x).datagramAdapter
  have hinv := hallowed.invariant_of_last
    (J := fun p => ∃ W, Carrying C W p)
    (P := fun p => Met C X Y p ∧ (networkOf p.socket).Small cfg)
    (I := fun p => ∃ W, Wired C X Y W p ∧ Streams cfg p.socket) ?_ ?_ hrun ⟨⊥, h.carrying⟩
    ⟨hmet, hsmall⟩ fun hp => ⟨⊥, h.wired, h.streams hp.2⟩
  · obtain ⟨-, W, -, hstreams⟩ := hinv
    exact hstreams
  · rintro p e p' ⟨W, hcarrying⟩ ha hs
    refine ⟨⟨_, (hcarrying.step ha hs).1⟩, fun hp => ⟨hp.1.of_stays (hcarrying.stays ha hs), ?_⟩⟩
    obtain ⟨out, hstep, hsocket, -⟩ := step_ok hs
    obtain ⟨os, hos, -⟩ := step_performed ha.honest ha.admissible hstep
    exact small_of_performed hos (hsocket ▸ hp.2)
  · rintro p e p' - ⟨W, hwired, hstreams⟩ hp ha hs
    exact ⟨_, hwired.step ha hs hp.1 h.abroad, hwired.streams ha hs hp.1 h.abroad hp.2 hstreams⟩

theorem Opening.carrying_of_run {es : List (Event ω)} (h : Opening C cfg p)
    (hallowed : AdmittedE (step A) (Allowed C) p es) (hrun : runE (step A) p es = .ok p') :
    ∃ W, Carrying C W p' :=
  hallowed.invariant_of_ok (I := fun p => ∃ W, Carrying C W p)
    (fun _ _ _ ⟨_, hcarrying⟩ ha hs => ⟨_, (hcarrying.step ha hs).1⟩) hrun ⟨⊥, h.carrying⟩

/-- Over every run of two sockets that talk to each other, their streams agree. -/
theorem streams_agree {es : List (Event ω)} (h : Opening C cfg p)
    (hallowed : AdmittedE (step A) (Allowed C) p es) (hrun : runE (step A) p es = .ok p')
    (hmet : Met C (C.own (p.socket .x).datagramAdapter) (A.peer (p.socket .x).datagramAdapter) p')
    (hsmall : (networkOf p'.socket).Small cfg) (s : Side) : Agree p' s :=
  agree_of_streams (h.streams_of_run hallowed hrun hmet hsmall) s

/-- Two sockets over UDP. -/
def overUDP (cfg : Side → TCPConfig) (x y : Address) :
    SpongePair TCPOverUDPSocketAdapter UDPDatagram where
  socket s := match s with
    | .x => {
        tcp := (TCPConnection.new (cfg .x)).connect
        datagramAdapter := { cfg := { source := x, destination := y }, localAddress := x } }
    | .y => listenAndAccept TCPOverUDPSocketAdapter.datagramAdapter (cfg .y) { source := y }
        { localAddress := y }

theorem opening_overUDP (cfg : Side → TCPConfig) {x y : Address} (h : y ≠ x) :
    Opening TCPOverUDPSocketAdapter.conveys cfg (overUDP cfg x y) where
  connect := ⟨{ source := x, destination := y }, { localAddress := x }, connect_ok _ _ _⟩
  listen := ⟨_, _, rfl⟩
  wire := rfl
  inv _ := trivial
  listening := rfl
  distinct := h
  abroad := h

/-- The FIN overtakes the last bytes on its way through UDP. -/
theorem streams_agree_udp :
    let x : Address := ⟨1, 10⟩
    let y : Address := ⟨2, 20⟩
    let cfg : Side → TCPConfig := fun s => if s = .x then { isn := ⟨1000⟩ } else { isn := ⟨2000⟩ }
    let p := overUDP cfg x y
    let es : List (Event UDPDatagram) := [(.x, .send),
      (.y, .receive (.ok ⟨x, y,
        [0, 10, 0, 20, 0, 0, 3, 232, 0, 0, 0, 0, 80, 2, 250, 0, 177, 246, 0, 0]⟩)),
      (.y, .send),
      (.x, .receive (.ok ⟨y, x,
        [0, 20, 0, 10, 0, 0, 7, 208, 0, 0, 3, 233, 80, 18, 250, 0, 170, 21, 0, 0]⟩)),
      (.x, .takeFromOwner { ret := 3, stored := [97, 98, 99] }),
      (.x, .takeFromOwner { ret := 0 }), (.x, .send),
      (.y, .receive (.ok ⟨x, y,
        [0, 10, 0, 20, 0, 0, 3, 236, 0, 0, 7, 209, 80, 17, 250, 0, 170, 18, 0, 0]⟩)),
      (.y, .receive (.ok ⟨x, y,
        [0, 10, 0, 20, 0, 0, 3, 233, 0, 0, 7, 209, 80, 16, 250, 0, 229, 179, 0, 0, 97, 98, 99]⟩)),
      (.y, .giveToOwner { ret := 2 }), (.y, .giveToOwner { ret := 1 })]
    ∃ p', runE (step TCPOverUDPSocketAdapter.datagramAdapter) p es = .ok p' ∧ Agree p' .y ∧
      (p'.socket .y).inboundShutdown = true := by
  intro x y cfg p es
  have hdirect : AdmittedE (step TCPOverUDPSocketAdapter.datagramAdapter)
      (Direct TCPOverUDPSocketAdapter.conveys) p es := by decide +kernel
  obtain ⟨p', hrun, hown, hpeer, hx, hy, hshut⟩ := exists_ok
    (r := runE (step TCPOverUDPSocketAdapter.datagramAdapter) p es)
    (P := fun p' => TCPOverUDPSocketAdapter.conveys.own (p'.socket .y).datagramAdapter = y ∧
      TCPOverUDPSocketAdapter.datagramAdapter.peer (p'.socket .y).datagramAdapter = x ∧
      (p'.socket .x).taken.length + (cfg .y).recvCapacity.toNat < 2 ^ 31 ∧
      (p'.socket .y).taken.length + (cfg .x).recvCapacity.toNat < 2 ^ 31 ∧
      (p'.socket .y).inboundShutdown = true) (by decide +kernel)
  have hsmall : (networkOf p'.socket).Small cfg := fun s => by
    cases s with
    | x => exact hx
    | y => exact hy
  exact ⟨p', hrun, streams_agree (opening_overUDP cfg (by decide))
    (hdirect.mono fun _ _ => Direct.allowed) hrun (Or.inr ⟨hown, hpeer⟩) hsmall .y, hshut⟩

theorem throws_iff_socket : (∃ err, p.step A e = .error err) ↔
    ∃ err, (p.socket e.1).step A e.2 = .error err := by
  unfold step
  cases hs : (p.socket e.1).step A e.2 with
  | error err => exact iff_of_true ⟨err, rfl⟩ ⟨err, rfl⟩
  | ok result => exact iff_of_false (by rintro ⟨e, he⟩; cases he) (by rintro ⟨e, he⟩; cases he)

theorem Carrying.error_iff (h : Carrying C W p) (ha : Allowed C p e) :
    (∃ err, p.step A e = .error err) ↔ (p.socket e.1).Fails A e.2 :=
  throws_iff_socket.trans (step_throws_iff (h.inv e.1) (h.plain e.1) ha.honest (h.reached ha))

/-- In every state that two sockets reach, an event throws exactly if the kernel refuses one of its
calls, or bytes of the owner come in when the connection is not active any more. -/
theorem throws_iff {es : List (Event ω)} (h : Opening C cfg p)
    (hallowed : AdmittedE (step A) (Allowed C) p es) (hrun : runE (step A) p es = .ok p')
    (ha : Allowed C p' e) :
    (∃ err, p'.step A e = .error err) ↔ (p'.socket e.1).Fails A e.2 := by
  obtain ⟨W, hcarrying⟩ := h.carrying_of_run hallowed hrun
  exact hcarrying.error_iff ha

/-- A socket that has given up in the meantime cannot take the bytes of its owner. -/
theorem throws_given_up :
    let p := overUDP (fun _ => { isn := ⟨0⟩ }) ⟨1, 10⟩ ⟨2, 20⟩
    let es : List (Event UDPDatagram) := List.replicate 10 (.x, .tick 1000000)
    ∃ p', runE (step TCPOverUDPSocketAdapter.datagramAdapter) p es = .ok p' ∧
      ∃ err, p'.step TCPOverUDPSocketAdapter.datagramAdapter
        (.x, .takeFromOwner { ret := 1, stored := [97] }) = .error err := by
  intro p es
  have hdirect : AdmittedE (step TCPOverUDPSocketAdapter.datagramAdapter)
      (Direct TCPOverUDPSocketAdapter.conveys) p es := by decide +kernel
  obtain ⟨p', hrun, hlast, hinactive⟩ := exists_ok
    (r := runE (step TCPOverUDPSocketAdapter.datagramAdapter) p es)
    (P := fun p' => Direct TCPOverUDPSocketAdapter.conveys p'
        (.x, .takeFromOwner { ret := 1, stored := [97] }) ∧
      (p'.socket .x).tcp.active = false) (by decide +kernel)
  exact ⟨p', hrun, (throws_iff (opening_overUDP (fun _ => { isn := ⟨0⟩ }) (by decide))
    (hdirect.mono fun _ _ => Direct.allowed) hrun hlast.allowed).mpr
      (Or.inr ⟨hinactive, List.cons_ne_nil _ _⟩)⟩

end SpongePair

end Sponge
