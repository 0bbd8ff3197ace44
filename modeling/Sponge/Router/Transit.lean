import Sponge.Adapter.Transit
import Sponge.Router.Exceptions

/-! # Segments on their way through routers

A router that is only given frames that travel sends only such frames, and throws no exception.
-/

namespace Sponge

open Runs NetworkInterface

/-- What an interface has received, what waits in it and what it has sent travels. -/
structure AsyncNetworkInterface.Travels (W : Written) (a : AsyncNetworkInterface) : Prop where
  received : ∀ d ∈ a.datagramsOut, d.Travels W
  waiting : a.interface.Travels W
  sent : ∀ f ∈ a.interface.framesOut, f.Travels W

/-- All that is in a router travels, and its routes name existing interfaces. -/
structure Router.Travels (W : Written) (r : Router) : Prop where
  interfaces : ∀ a ∈ r.interfaces, a.Travels W
  routes : ∀ c ∈ r.routingTable, c.interfaceNum < r.interfaces.length

namespace AsyncNetworkInterface.Travels

variable {W : Written} {a : AsyncNetworkInterface} {d : IPv4Datagram}

theorem sendDatagram (h : a.Travels W) (hd : d.Travels W) (hop : Address) :
    ∃ i, a.interface.sendDatagram d hop = .ok i ∧ Travels W { a with interface := i } := by
  obtain ⟨i, frames, hsend, hi, hframes, htravels⟩ := h.waiting.sendDatagram hd hop
  refine ⟨i, hsend, h.received, hi, fun f hf => ?_⟩
  rw [hframes] at hf
  rcases List.mem_append.mp hf with hf | hf
  · exact h.sent f hf
  · exact htravels f hf

theorem recvFrame (h : a.Travels W) {f : EthernetFrame} (hf : f.Travels W) :
    ∃ a', a.recvFrame { header := f.header, payload := [f.payload.concatenate] } = .ok a' ∧
      a'.Travels W := by
  obtain ⟨ef, hparse, i, frames, dgram, hrecv, hi, hframes, htravels, hdgram⟩ :=
    h.waiting.recvFrame ⟨f, hf, rfl⟩
  obtain rfl : _ = ef :=
    congrArg Prod.snd ((EthernetFrame.parse_serialized f {}).symm.trans hparse)
  refine ⟨⟨i, a.datagramsOut ++ dgram.toList⟩, ?_, fun d hd => ?_, hi, fun f hf => ?_⟩
  · rw [AsyncNetworkInterface.recvFrame, hrecv]
    rfl
  · rcases List.mem_append.mp hd with hd | hd
    · exact h.received d hd
    · exact (hdgram d (Option.mem_toList.mp hd)).1
  · rw [hframes] at hf
    rcases List.mem_append.mp hf with hf | hf
    · exact h.sent f hf
    · exact htravels f hf

end AsyncNetworkInterface.Travels

namespace Router

variable {W : Written} {beyond : UInt32 → UInt8 → UInt32} {r : Router} {e : Event}
  {dgram : IPv4Datagram} {n : ℕ}

/-! ### What a router keeps -/

section Kept

variable (beyond) (table : List Route) (Q : AsyncNetworkInterface → Prop) (D : IPv4Datagram → Prop)

/-- All interfaces of a router with these routes have a property, and the routes name existing
interfaces. -/
structure Kept (r : Router) : Prop where
  interfaces : ∀ a ∈ r.interfaces, Q a
  routes : ∀ c ∈ table, c.interfaceNum < r.interfaces.length
  table : r.routingTable = table

/-- The property `Q` of interfaces, `D` of the datagrams that they have received, is kept by
routing: a datagram that the routes hand to an interface can be sent there. -/
structure Keeps : Prop where
  received : ∀ a, Q a → ∀ d ∈ a.datagramsOut, D d
  popped : ∀ a, Q a → Q { a with datagramsOut := a.datagramsOut.tail }
  ticked : ∀ a ms, Q a → Q (a.tick ms)
  sent : ∀ a (d : IPv4Datagram) n hop, Q a → D d →
    ({ routingTable := table } : Router).handsTo beyond d = some (n, hop) →
      ∃ i, a.interface.sendDatagram
          { d with header := { d.header with ttl := d.header.ttl - 1 } } hop = .ok i ∧
        Q { a with interface := i }

variable {beyond table Q D}

namespace Kept

theorem of_interfaces (h : r.Kept table Q) {interfaces : List AsyncNetworkInterface}
    (hlen : interfaces.length = r.interfaces.length) (hall : ∀ a ∈ interfaces, Q a) :
    Kept table Q { r with interfaces := interfaces } :=
  ⟨hall, fun c hc => hlen ▸ h.routes c hc, h.table⟩

theorem set (h : r.Kept table Q) {a : AsyncNetworkInterface} (ha : Q a) :
    Kept table Q { r with interfaces := r.interfaces.set n a } := by
  apply h.of_interfaces (List.length_set ..)
  intro a' ha'
  rcases List.mem_or_eq_of_mem_set ha' with ha' | rfl
  · exact h.interfaces a' ha'
  · exact ha

theorem modify (h : r.Kept table Q) {f : AsyncNetworkInterface → AsyncNetworkInterface}
    (hf : ∀ a, Q a → Q (f a)) : Kept table Q { r with interfaces := r.interfaces.modify n f } := by
  apply h.of_interfaces (List.length_modify ..)
  intro a ha
  obtain ⟨m, hm, rfl⟩ := List.mem_iff_getElem.mp ha
  have hm' : m < r.interfaces.length := by simpa using hm
  have hold := h.interfaces r.interfaces[m] (List.getElem_mem hm')
  rw [List.getElem_modify]
  split_ifs
  · exact hf _ hold
  · exact hold

theorem routeOneDatagram (h : r.Kept table Q) (hkeeps : Keeps beyond table Q D) (hd : D dgram) :
    ∃ r', r.routeOneDatagram beyond dgram = .ok r' ∧ r'.Kept table Q := by
  have hsame : r.handsTo beyond dgram =
      ({ routingTable := table } : Router).handsTo beyond dgram := by
    rw [← h.table]
    rfl
  unfold Router.routeOneDatagram
  cases hhands : r.handsTo beyond dgram with
  | none => exact ⟨r, rfl, h⟩
  | some target =>
    obtain ⟨n, hop⟩ := target
    have hroutes : ∀ c ∈ r.routingTable, c.interfaceNum < r.interfaces.length := by
      rw [h.table]
      exact h.routes
    have hn := handsTo_lt hroutes hhands
    obtain ⟨i, hsend, hq⟩ := hkeeps.sent r.interfaces[n] dgram n hop
      (h.interfaces _ (List.getElem_mem hn)) hd (hsame.symm.trans hhands)
    simp only [Router.sendOn, List.getElem?_eq_getElem hn, hsend]
    exact ⟨_, rfl, h.set hq⟩

theorem routeQueue (h : r.Kept table Q) (hkeeps : Keeps beyond table Q D)
    {queue : List IPv4Datagram} (hqueue : ∀ d ∈ queue, D d) :
    ∃ r', routeQueue beyond n queue r = .ok r' ∧ r'.Kept table Q := by
  induction queue generalizing r with
  | nil => exact ⟨r, rfl, h⟩
  | cons d queue ih =>
    obtain ⟨r', hr', hkept⟩ : ∃ r', r.routeOneDatagram beyond d = .ok r' ∧ r'.Kept table Q :=
      h.routeOneDatagram hkeeps (hqueue d List.mem_cons_self)
    have hpop : (r'.popDatagram n).Kept table Q := hkept.modify hkeeps.popped
    rw [Router.routeQueue, hr']
    exact ih hpop fun d' hd' => hqueue d' (List.mem_cons_of_mem d hd')

theorem routeInterface (h : r.Kept table Q) (hkeeps : Keeps beyond table Q D) (n : ℕ) :
    ∃ r', r.routeInterface beyond n = .ok r' ∧ r'.Kept table Q := by
  unfold Router.routeInterface
  cases ha : r.interfaces[n]? with
  | none => exact ⟨r, rfl, h⟩
  | some a =>
    exact h.routeQueue hkeeps (hkeeps.received a (h.interfaces a (List.mem_of_getElem? ha)))

theorem recvFrame (h : r.Kept table Q) {bytes : Buffer}
    (hrecv : ∃ ef, ({} : EthernetFrame).parse bytes = (.noError, ef) ∧
      ∀ a, Q a → ∃ a', a.recvFrame ef = .ok a' ∧ Q a') :
    ∃ r', r.recvFrame n bytes = .ok r' ∧ r'.Kept table Q := by
  obtain ⟨ef, hparse, hrecv⟩ := hrecv
  unfold Router.recvFrame
  cases ha : r.interfaces[n]? with
  | none => exact ⟨r, rfl, h⟩
  | some a =>
    obtain ⟨a', ha', hq⟩ := hrecv a (h.interfaces a (List.mem_of_getElem? ha))
    simp only [hparse, ha']
    exact ⟨_, rfl, h.set hq⟩

theorem step (h : r.Kept table Q) (hkeeps : Keeps beyond table Q D)
    (hrecv : ∀ n bytes, e = .recv n bytes →
      ∃ ef, ({} : EthernetFrame).parse bytes = (.noError, ef) ∧
        ∀ a, Q a → ∃ a', a.recvFrame ef = .ok a' ∧ Q a') :
    ∃ r', r.step beyond e = .ok r' ∧ r'.Kept table Q := by
  cases e with
  | recv n bytes => exact h.recvFrame (hrecv n bytes rfl)
  | tick n ms => exact ⟨_, rfl, h.modify fun a ha => hkeeps.ticked a ms ha⟩
  | route =>
    exact (AdmittedE.of_forall (q := fun _ => True) (by simp)).invariant
      (fun r n hr _ => hr.routeInterface hkeeps n) h

theorem new {addresses : List (EthernetAddress × Address)} {routes : List Route}
    (hroutes : ∀ c ∈ routes, c.interfaceNum < addresses.length)
    (hfresh : ∀ c ∈ addresses, Q { interface := .new c.1 c.2 }) :
    (new addresses routes).Kept (new addresses routes).routingTable Q := by
  have hinterfaces : ∀ (routes : List Route) (r : Router),
      (routes.foldl addRoute r).interfaces = r.interfaces := by
    intro routes
    induction routes with
    | nil => exact fun _ => rfl
    | cons c routes ih => exact fun r => ih (r.addRoute c)
  refine ⟨fun a ha => ?_, (Safe.new hroutes).routes, rfl⟩
  rw [Router.new, hinterfaces] at ha
  obtain ⟨c, hc, rfl⟩ := List.mem_map.mp ha
  exact hfresh c hc

end Kept

end Kept

/-- The bytes of the frames that the interfaces have sent. -/
def framesOut (r : Router) : List Buffer :=
  r.interfaces.flatMap fun a => a.interface.framesOut.map fun f => f.serialize.concatenate

theorem framesOut_forall {P : Buffer → Prop}
    (h : ∀ a ∈ r.interfaces, ∀ f ∈ a.interface.framesOut, P f.serialize.concatenate) :
    ∀ b ∈ r.framesOut, P b := by
  intro b hb
  obtain ⟨a, ha, hb⟩ := List.mem_flatMap.mp hb
  obtain ⟨f, hf, rfl⟩ := List.mem_map.mp hb
  exact h a ha f hf

namespace Travels

theorem keeps (W : Written) (table : List Route) :
    Keeps beyond table (AsyncNetworkInterface.Travels W) (IPv4Datagram.Travels W) where
  received _ ha := ha.received
  popped _ ha := ⟨fun d hd => ha.received d (List.mem_of_mem_tail hd), ha.waiting, ha.sent⟩
  ticked _ _ ha := ⟨ha.received, ha.waiting, ha.sent⟩
  sent _ d _ hop ha hd _ := ha.sendDatagram (hd.ttl (d.header.ttl - 1)) hop

/-- A step in which no frame arrives but those that travel does not fail. -/
theorem step (h : r.Travels W) (hb : ∀ n bytes, e = .recv n bytes → FrameBytes W bytes) :
    ∃ r', r.step beyond e = .ok r' ∧ r'.Travels W := by
  have hkept : r.Kept r.routingTable (AsyncNetworkInterface.Travels W) :=
    ⟨h.interfaces, h.routes, rfl⟩
  obtain ⟨r', hr', hkept'⟩ := hkept.step (keeps W r.routingTable) (e := e) fun n bytes he => by
    obtain ⟨f, hf, rfl⟩ := hb n bytes he
    exact ⟨_, EthernetFrame.parse_serialized f {}, fun a ha => ha.recvFrame hf⟩
  exact ⟨r', hr', hkept'.interfaces, by rw [hkept'.table]; exact hkept'.routes⟩

theorem framesOut (h : r.Travels W) : ∀ b ∈ r.framesOut, FrameBytes W b :=
  framesOut_forall fun a ha f hf => ⟨f, (h.interfaces a ha).sent f hf, rfl⟩

theorem new {addresses : List (EthernetAddress × Address)} {routes : List Route}
    (hroutes : ∀ c ∈ routes, c.interfaceNum < addresses.length) :
    (new addresses routes).Travels W := by
  have hkept : (Router.new addresses routes).Kept _ (AsyncNetworkInterface.Travels W) :=
    .new hroutes fun c _ => ⟨by simp, by simp [NetworkInterface.Travels, NetworkInterface.new],
      by simp [NetworkInterface.new]⟩
  exact ⟨hkept.interfaces, hkept.routes⟩

end Travels

end Router

end Sponge
