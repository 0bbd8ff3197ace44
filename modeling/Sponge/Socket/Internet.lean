import Sponge.Router.Transit
import Sponge.Socket.Pair

/-! # Two sockets and the routers between them

Frames of two sockets over Ethernet and of any number of routers get on links, where every
interface may take them, in any order, any number of times or never.
-/

namespace Sponge

open Runs

structure Internet (ι : Type) where
  pair : SpongePair TCPOverIPv4OverEthernetAdapter Buffer
  routers : ι → Router
  forwarded : List Buffer := []

namespace Internet

abbrev adapter := TCPOverIPv4OverEthernetAdapter.datagramAdapter

/-- Something happens in the thread of a socket, or to a router. -/
inductive Event (ι : Type)
  | host (e : SpongePair.Event Buffer)
  | router (k : ι) (e : Router.Event)
  deriving DecidableEq, Repr

variable {ι : Type}

/-- All frames that were ever sent. -/
def wire (n : Internet ι) : List Buffer := n.pair.wire ++ n.forwarded

/-- The kernel answers as it should, and what arrives was sent. -/
def Allowed (n : Internet ι) : Event ι → Prop
  | .host e => (n.pair.socket e.1).HonestAnswer e.2 ∧ (n.pair.socket e.1).Admissible e.2 ∧
    match e.2 with
    | .receive (.ok w) _ => w ∈ n.wire
    | _ => True
  | .router _ (.recv _ bytes) => bytes ∈ n.wire
  | .router _ _ => True

instance (n : Internet ι) : ∀ e, Decidable (n.Allowed e)
  | .host (_, .receive (.ok _) _) => inferInstanceAs (Decidable (_ ∧ _ ∧ _ ∈ _))
  | .host (_, .receive (.error _) _) | .host (_, .takeFromOwner _) | .host (_, .cancelOutbound)
  | .host (_, .giveToOwner _ _) | .host (_, .send _) | .host (_, .tick _ _) =>
    inferInstanceAs (Decidable (_ ∧ _ ∧ True))
  | .router _ (.recv _ _) => inferInstanceAs (Decidable (_ ∈ _))
  | .router _ (.tick _ _) | .router _ .route => inferInstanceAs (Decidable True)

/-- Whatever the frames of the sockets carry, all that is in the routers carries it. -/
def Forwarding (n : Internet ι) : Prop :=
  ∀ W, (∀ b ∈ n.pair.wire, FrameBytes W b) →
    (∀ k, (n.routers k).Travels W) ∧ ∀ b ∈ n.forwarded, FrameBytes W b

variable {n n' : Internet ι} {e : Event ι} {cfg : Side → TCPConfig}

theorem Forwarding.relays (h : n.Forwarding) {b : Buffer} (hb : b ∈ n.wire) :
    TCPOverIPv4OverEthernetAdapter.conveys.Relays n.pair.wire b := fun W hW => by
  rcases List.mem_append.mp hb with hb | hb
  · exact hW b hb
  · exact (h W hW).2 b hb

theorem Forwarding.allowed (h : n.Forwarding) {e : SpongePair.Event Buffer}
    (ha : n.Allowed (.host e)) :
    SpongePair.Allowed TCPOverIPv4OverEthernetAdapter.conveys n.pair e where
  honest := ha.1
  admissible := ha.2.1
  arrives w refusal he := by
    obtain ⟨-, -, harrives⟩ := ha
    rw [he] at harrives
    exact ⟨h.relays harrives, trivial⟩

/-- Two sockets have just been opened, and the routers have routes to their interfaces only. -/
structure Opening (cfg : Side → TCPConfig) (n : Internet ι) : Prop where
  pair : SpongePair.Opening TCPOverIPv4OverEthernetAdapter.conveys cfg n.pair
  routers : ∀ k, ∃ addresses routes, n.routers k = .new addresses routes ∧
    ∀ c ∈ routes, c.interfaceNum < addresses.length
  forwarded : n.forwarded = []

theorem Opening.forwarding (h : Opening cfg n) : n.Forwarding := fun W _ => by
  refine ⟨fun k => ?_, by simp [h.forwarded]⟩
  obtain ⟨addresses, routes, hr, hroutes⟩ := h.routers k
  rw [hr]
  exact .new hroutes

/-- Two sockets over Ethernet and a few routers. -/
def overEthernet (cfg : Side → TCPConfig) (mac : Side → EthernetAddress)
    (address nextHop : Side → Address) (routers : ι → Router) : Internet ι where
  pair := { socket := fun s => match s with
    | .x => {
        tcp := (TCPConnection.new (cfg .x)).connect
        datagramAdapter := {
          (TCPOverIPv4OverEthernetAdapter.new (mac .x) (address .x) (nextHop .x)).1 with
          cfg := { source := address .x, destination := address .y } } }
    | .y => TCPSpongeSocket.listenAndAccept adapter (cfg .y) { source := address .y }
        (TCPOverIPv4OverEthernetAdapter.new (mac .y) (address .y) (nextHop .y)).1 }
  routers := routers

theorem opening_overEthernet (cfg : Side → TCPConfig) (mac : Side → EthernetAddress)
    {address : Side → Address} (nextHop : Side → Address)
    {addresses : ι → List (EthernetAddress × Address)} {routes : ι → List Route}
    (hdistinct : address .y ≠ address .x)
    (hroutes : ∀ k, ∀ c ∈ routes k, c.interfaceNum < (addresses k).length) :
    Opening cfg (overEthernet cfg mac address nextHop fun k => .new (addresses k) (routes k)) where
  pair :=
    { connect := ⟨{ source := address .x, destination := address .y },
        (TCPOverIPv4OverEthernetAdapter.new (mac .x) (address .x) (nextHop .x)).1,
        TCPSpongeSocket.connect_ok _ _ _⟩
      listen := ⟨_, _, rfl⟩
      wire := rfl
      inv := fun s => by
        cases s with
        | x => exact ⟨(TCPOverIPv4OverEthernetAdapter.idle_new (mac .x) (address .x)
            (nextHop .x)).travels, rfl⟩
        | y => exact ⟨(TCPOverIPv4OverEthernetAdapter.idle_new (mac .y) (address .y)
            (nextHop .y)).travels, rfl⟩
      listening := rfl
      distinct := hdistinct
      abroad := hdistinct }
  routers k := ⟨addresses k, routes k, rfl, hroutes k⟩
  forwarded := rfl

variable {beyond : UInt32 → UInt8 → UInt32}

theorem Forwarding.router (beyond : UInt32 → UInt8 → UInt32) (h : n.Forwarding) {k : ι}
    {e : Router.Event} (ha : n.Allowed (.router k e)) {W : Written}
    (hW : ∀ b ∈ n.pair.wire, FrameBytes W b) :
    ∃ r, (n.routers k).step beyond e = .ok r ∧ r.Travels W := by
  obtain ⟨hrouters, -⟩ := h W hW
  refine (hrouters k).step fun i bytes he => ?_
  subst he
  exact h.relays ha W hW

variable [DecidableEq ι]

def step (beyond : UInt32 → UInt8 → UInt32) (n : Internet ι) :
    Event ι → Except Exception (Internet ι)
  | .host e => do
    let pair ← n.pair.step adapter e
    return { n with pair := pair }
  | .router k e => do
    let r ← ((n.routers k).step beyond e).mapError .runtimeError
    return { n with
      routers := Function.update n.routers k r, forwarded := n.forwarded ++ r.framesOut }

theorem step_host {e : SpongePair.Event Buffer} (hs : n.step beyond (.host e) = .ok n') :
    ∃ pair, n.pair.step adapter e = .ok pair ∧ n' = { n with pair := pair } := by
  unfold step at hs
  cases hpair : n.pair.step adapter e with
  | error err =>
    simp only [hpair] at hs
    cases hs
  | ok pair =>
    simp only [hpair] at hs
    exact ⟨pair, rfl, (Except.ok.inj hs).symm⟩

theorem step_router {k : ι} {e : Router.Event} (hs : n.step beyond (.router k e) = .ok n') :
    ∃ r, (n.routers k).step beyond e = .ok r ∧ n' = { n with
      routers := Function.update n.routers k r, forwarded := n.forwarded ++ r.framesOut } := by
  unfold step at hs
  cases hr : (n.routers k).step beyond e with
  | error err =>
    simp only [hr] at hs
    cases hs
  | ok r =>
    simp only [hr] at hs
    exact ⟨r, rfl, (Except.ok.inj hs).symm⟩

theorem Forwarding.step (h : n.Forwarding) (ha : n.Allowed e) (hs : n.step beyond e = .ok n') :
    n'.Forwarding := by
  cases e with
  | host e =>
    obtain ⟨pair, hpair, rfl⟩ := step_host hs
    obtain ⟨out, -, -, hwire⟩ := SpongePair.step_ok hpair
    intro W hW
    exact h W fun b hb => hW b (hwire ▸ List.mem_append_left _ hb)
  | router k e =>
    obtain ⟨r, hr, rfl⟩ := step_router hs
    intro W hW
    obtain ⟨hrouters, hforwarded⟩ := h W hW
    obtain ⟨r', hr', htravels⟩ := h.router beyond ha hW
    obtain rfl := Except.ok.inj (hr.symm.trans hr')
    refine ⟨fun k' => ?_, fun b hb => ?_⟩
    · change (Function.update n.routers k r k').Travels W
      by_cases hk : k' = k
      · subst hk
        rwa [Function.update_self]
      · rw [Function.update_of_ne hk]
        exact hrouters k'
    · rcases List.mem_append.mp hb with hb | hb
      · exact hforwarded b hb
      · exact htravels.framesOut b hb

/-- What the sockets do in a run of the network is a run of the sockets alone. -/
theorem Forwarding.pair_run (h : n.Forwarding) {es : List (Event ι)}
    (hallowed : AdmittedE (Internet.step beyond) Allowed n es)
    (hrun : runE (Internet.step beyond) n es = .ok n') : n'.Forwarding ∧ ∃ es',
      AdmittedE (SpongePair.step adapter)
        (SpongePair.Allowed TCPOverIPv4OverEthernetAdapter.conveys) n.pair es' ∧
      runE (SpongePair.step adapter) n.pair es' = .ok n'.pair := by
  induction es generalizing n with
  | nil =>
    obtain rfl := Except.ok.inj hrun
    exact ⟨h, [], trivial, rfl⟩
  | cons e es ih =>
    cases hs : n.step beyond e with
    | error err =>
      rw [runE, List.foldlM_cons, hs] at hrun
      cases hrun
    | ok n₁ =>
      have hrest := hallowed.2
      rw [hs] at hrest
      rw [runE, List.foldlM_cons, hs] at hrun
      obtain ⟨hlast, es', hallowed', hrun'⟩ := ih (h.step hallowed.1 hs) hrest hrun
      refine ⟨hlast, ?_⟩
      cases e with
      | host e =>
        obtain ⟨pair, hpair, rfl⟩ := step_host hs
        refine ⟨e :: es', ⟨h.allowed hallowed.1, ?_⟩, ?_⟩
        · rw [hpair]
          exact hallowed'
        · rw [runE, List.foldlM_cons, hpair]
          exact hrun'
      | router k e =>
        obtain ⟨r, -, rfl⟩ := step_router hs
        exact ⟨es', hallowed', hrun'⟩

/-- Whatever the routers do with the frames of two sockets that talk to each other, the streams of
the sockets agree. -/
theorem internet_streams_agree {es : List (Event ι)} (h : Opening cfg n)
    (hallowed : AdmittedE (step beyond) Allowed n es) (hrun : runE (step beyond) n es = .ok n')
    (hmet : SpongePair.Met TCPOverIPv4OverEthernetAdapter.conveys
      (n.pair.socket .x).datagramAdapter.cfg.source
      (n.pair.socket .x).datagramAdapter.cfg.destination n'.pair)
    (hsmall : (networkOf n'.pair.socket).Small cfg) (s : Side) :
    SpongePair.Agree n'.pair s := by
  obtain ⟨-, es', hallowed', hrun'⟩ := h.forwarding.pair_run hallowed hrun
  exact SpongePair.agree_of_streams (h.pair.streams_of_run hallowed' hrun' hmet hsmall) s

/-- A SYN goes through a router, after the addresses were found out on both sides of it. -/
theorem internet_streams_agree_syn :
    let cfg : Side → TCPConfig := fun s => if s = .x then { isn := ⟨1000⟩ } else { isn := ⟨2000⟩ }
    let n : Internet Unit := overEthernet cfg
      (fun s => if s = .x then #v[2, 0, 0, 0, 0, 1] else #v[2, 0, 0, 0, 0, 2])
      (fun s => if s = .x then ⟨0x0A000002, 10⟩ else ⟨0x0A010002, 20⟩)
      (fun s => if s = .x then ⟨0x0A000001, 0⟩ else ⟨0x0A010001, 0⟩)
      fun _ => .new
        [(#v[2, 0, 0, 0, 0, 3], ⟨0x0A000001, 0⟩), (#v[2, 0, 0, 0, 0, 4], ⟨0x0A010001, 0⟩)]
        [⟨0x0A000000, 16, none, 0⟩, ⟨0x0A010000, 16, none, 1⟩]
    let es : List (Event Unit) := [.host (.x, .send),
      .router () (.recv 0 [255, 255, 255, 255, 255, 255, 2, 0, 0, 0, 0, 1, 8, 6, 0, 1, 8, 0, 6, 4,
        0, 1, 2, 0, 0, 0, 0, 1, 10, 0, 0, 2, 0, 0, 0, 0, 0, 0, 10, 0, 0, 1]),
      .host (.x, .receive (.ok [2, 0, 0, 0, 0, 1, 2, 0, 0, 0, 0, 3, 8, 6, 0, 1, 8, 0, 6, 4, 0, 2,
        2, 0, 0, 0, 0, 3, 10, 0, 0, 1, 2, 0, 0, 0, 0, 1, 10, 0, 0, 2])),
      .router () (.recv 0 [2, 0, 0, 0, 0, 3, 2, 0, 0, 0, 0, 1, 8, 0, 69, 0, 0, 40, 0, 0, 64, 0,
        128, 6, 230, 203, 10, 0, 0, 2, 10, 1, 0, 2, 0, 10, 0, 20, 0, 0, 3, 232, 0, 0, 0, 0, 80, 2,
        250, 0, 157, 215, 0, 0]),
      .router () .route,
      .host (.y, .receive (.ok [255, 255, 255, 255, 255, 255, 2, 0, 0, 0, 0, 4, 8, 6, 0, 1, 8, 0,
        6, 4, 0, 1, 2, 0, 0, 0, 0, 4, 10, 1, 0, 1, 0, 0, 0, 0, 0, 0, 10, 1, 0, 2])),
      .router () (.recv 1 [2, 0, 0, 0, 0, 4, 2, 0, 0, 0, 0, 2, 8, 6, 0, 1, 8, 0, 6, 4, 0, 2,
        2, 0, 0, 0, 0, 2, 10, 1, 0, 2, 2, 0, 0, 0, 0, 4, 10, 1, 0, 1]),
      .host (.y, .receive (.ok [2, 0, 0, 0, 0, 2, 2, 0, 0, 0, 0, 4, 8, 0, 69, 0, 0, 40, 0, 0, 64, 0,
        127, 6, 231, 203, 10, 0, 0, 2, 10, 1, 0, 2, 0, 10, 0, 20, 0, 0, 3, 232, 0, 0, 0, 0, 80, 2,
        250, 0, 157, 215, 0, 0]))]
    ∃ n', runE (step fun _ _ => 0) n es = .ok n' ∧ SpongePair.Agree n'.pair .y ∧
      (n'.pair.socket .y).datagramAdapter.listening = false := by
  intro cfg n es
  have hallowed : AdmittedE (step fun _ _ => 0) Allowed n es := by decide +kernel
  obtain ⟨n', hrun, hown, hpeer, hx, hy, hlistening⟩ := exists_ok
    (r := runE (step fun _ _ => 0) n es)
    (P := fun n' => (n'.pair.socket .y).datagramAdapter.cfg.source = ⟨0x0A010002, 20⟩ ∧
      (n'.pair.socket .y).datagramAdapter.cfg.destination = ⟨0x0A000002, 10⟩ ∧
      (n'.pair.socket .x).taken.length + (cfg .y).recvCapacity.toNat < 2 ^ 31 ∧
      (n'.pair.socket .y).taken.length + (cfg .x).recvCapacity.toNat < 2 ^ 31 ∧
      (n'.pair.socket .y).datagramAdapter.listening = false) (by decide +kernel)
  have hsmall : (networkOf n'.pair.socket).Small cfg := fun s => by
    cases s with
    | x => exact hx
    | y => exact hy
  have hopening : Opening cfg n := opening_overEthernet cfg _ _ (by decide) (by decide)
  exact ⟨n', hrun,
    internet_streams_agree hopening hallowed hrun (Or.inr ⟨hown, hpeer⟩) hsmall .y, hlistening⟩

/-- In every state that is reached no router throws an exception, and a socket throws one exactly if
the kernel refuses one of its calls, or bytes of its owner come in when the connection is not active
any more. -/
theorem internet_throws_iff {es : List (Event ι)} (h : Opening cfg n)
    (hallowed : AdmittedE (step beyond) Allowed n es) (hrun : runE (step beyond) n es = .ok n')
    (ha : n'.Allowed e) : (∃ err, n'.step beyond e = .error err) ↔
      ∃ s e', e = .host (s, e') ∧ (n'.pair.socket s).Fails adapter e' := by
  obtain ⟨hforwarding, es', hallowed', hrun'⟩ := h.forwarding.pair_run hallowed hrun
  obtain ⟨W, hcarrying⟩ := h.pair.carrying_of_run hallowed' hrun'
  cases e with
  | host e =>
    have hthrows := hcarrying.error_iff (hforwarding.allowed ha)
    have hstep : (∃ err, n'.step beyond (.host e) = .error err) ↔
        ∃ err, n'.pair.step adapter e = .error err := by
      unfold step
      cases hpair : n'.pair.step adapter e with
      | error err => exact iff_of_true ⟨err, by simp only [hpair]; rfl⟩ ⟨err, rfl⟩
      | ok pair =>
        simp only [hpair]
        exact iff_of_false (by rintro ⟨err, herr⟩; cases herr) (by rintro ⟨err, herr⟩; cases herr)
    rw [hstep, hthrows]
    constructor
    · exact fun hfails => ⟨e.1, e.2, rfl, hfails⟩
    · rintro ⟨s, e', ⟨⟩, hfails⟩
      exact hfails
  | router k e =>
    obtain ⟨r, hr, -⟩ := hforwarding.router beyond ha hcarrying.wire
    refine iff_of_false ?_ (by simp)
    rintro ⟨err, herr⟩
    simp only [step, hr] at herr
    cases herr

/-- The end of the input comes in when the connection is not active any more. -/
theorem internet_throws_nothing_at_end :
    let n : Internet Unit := overEthernet (fun _ => { isn := ⟨0⟩ })
      (fun s => if s = .x then #v[2, 0, 0, 0, 0, 1] else #v[2, 0, 0, 0, 0, 2])
      (fun s => if s = .x then ⟨0x0A000002, 10⟩ else ⟨0x0A010002, 20⟩) (fun _ => ⟨0x0A000001, 0⟩)
      fun _ => .new [(#v[2, 0, 0, 0, 0, 3], ⟨0x0A000001, 0⟩)] [⟨0x0A000000, 8, none, 0⟩]
    let es : List (Event Unit) := List.replicate 10 (.host (.x, .tick 1000000))
    ∃ n', runE (step fun _ _ => 0) n es = .ok n' ∧ (n'.pair.socket .x).tcp.active = false ∧
      ¬ ∃ err, n'.step (fun _ _ => 0) (.host (.x, .takeFromOwner { ret := 0 })) = .error err := by
  intro n es
  have hallowed : AdmittedE (step fun _ _ => 0) Allowed n es := by decide +kernel
  obtain ⟨n', hrun, hlast, hinactive⟩ := exists_ok (r := runE (step fun _ _ => 0) n es)
    (P := fun n' => n'.Allowed (.host (.x, .takeFromOwner { ret := 0 })) ∧
      (n'.pair.socket .x).tcp.active = false) (by decide +kernel)
  refine ⟨n', hrun, hinactive, fun herr => ?_⟩
  have hopening : Opening (fun _ => { isn := ⟨0⟩ }) n :=
    opening_overEthernet _ _ _ (by decide) (by decide)
  obtain ⟨s, e, he, hfails⟩ := (internet_throws_iff hopening hallowed hrun hlast).mp herr
  cases he
  rcases hfails with hneg | ⟨-, hdata⟩
  · exact absurd hneg (by decide)
  · exact hdata rfl

end Internet

end Sponge
