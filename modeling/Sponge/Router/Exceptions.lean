import Sponge.Router.Basic
import Sponge.Interface.Delivery

/-! # No exceptions in the router

A datagram that can be serialized stays so while it waits, is routed and is sent. The
router does not fail unless a datagram comes in that cannot be serialized.
-/

namespace Sponge

open Runs NetworkInterface

namespace NetworkInterface

variable {i : NetworkInterface}

theorem ready_of_serializable (h : ∀ c ∈ i.pending, c.2.Serializable) : i.Ready :=
  fun c hc => IPv4Datagram.serialize_ok (h c hc)

end NetworkInterface

/-- What an interface has received and what waits in it can be serialized. -/
structure AsyncNetworkInterface.Safe (a : AsyncNetworkInterface) : Prop where
  received : ∀ d ∈ a.datagramsOut, d.Serializable
  pending : ∀ c ∈ a.interface.pending, c.2.Serializable

/-- The frame brings no datagram with a wrong version or a short header. -/
def EthernetFrame.Harmless (ef : EthernetFrame) (i : NetworkInterface) : Prop :=
  i.accepts ef = true → ef.header.type = EthernetHeader.typeIPv4 →
    IPv4Datagram.RightOrRejected (frontBuffer ef)

instance (ef : EthernetFrame) (i : NetworkInterface) : Decidable (ef.Harmless i) :=
  inferInstanceAs (Decidable (_ → _))

namespace AsyncNetworkInterface.Safe

variable {a : AsyncNetworkInterface} {d : IPv4Datagram}

theorem sendDatagram (h : a.Safe) (hd : d.Serializable) (hop : Address) :
    ∃ i, a.interface.sendDatagram d hop = .ok i ∧ Safe { a with interface := i } := by
  rcases sendDatagram_cases (i := a.interface) hop (IPv4Datagram.serialize_ok hd) with
    ⟨f, -, -, hsend⟩ | ⟨-, -, hsend⟩ | ⟨f, -, -, -, hsend⟩
  · exact ⟨_, hsend, h.received, h.pending⟩
  · exact ⟨_, hsend, h.received, h.pending⟩
  · refine ⟨_, hsend, h.received, fun c hc => ?_⟩
    rcases List.mem_append.mp hc with hc | hc
    · exact h.pending c hc
    · rw [List.mem_singleton.mp hc]
      exact hd

theorem recvFrame (h : a.Safe) {ef : EthernetFrame} (hef : ef.Harmless a.interface) :
    ∃ a', a.recvFrame ef = .ok a' ∧ a'.Safe := by
  unfold AsyncNetworkInterface.recvFrame
  rcases recvFrame_cases (ready_of_serializable h.pending) ef with hrecv |
    ⟨haccept, htype, hparse, hrecv⟩ | ⟨frames, replies, -, -, hrecv⟩
  · rw [hrecv]
    exact ⟨_, rfl, by simpa using h.received, h.pending⟩
  · rw [hrecv]
    refine ⟨_, rfl, fun d hd => ?_, h.pending⟩
    rcases List.mem_append.mp hd with hd | hd
    · exact h.received d hd
    · rw [List.mem_singleton.mp hd]
      exact IPv4Datagram.parse_serializable (hef haccept htype) hparse
  · rw [hrecv]
    exact ⟨_, rfl, by simpa using h.received, fun c hc => h.pending c (List.mem_of_mem_filter hc)⟩

end AsyncNetworkInterface.Safe

/-- Every interface is safe, and the routes name existing interfaces. -/
structure Router.Safe (r : Router) : Prop where
  interfaces : ∀ a ∈ r.interfaces, a.Safe
  routes : ∀ c ∈ r.routingTable, c.interfaceNum < r.interfaces.length

namespace Router

variable {beyond : UInt32 → UInt8 → UInt32} {r : Router} {e : Event}
  {dgram : IPv4Datagram} {n : ℕ}

/-- A frame that arrives is harmless to the interface where it arrives. -/
def Harmless (r : Router) : Event → Prop
  | .recv n bytes => ∀ a ∈ r.interfaces[n]?,
      (({} : EthernetFrame).parse bytes).2.Harmless a.interface
  | _ => True

instance (r : Router) : ∀ e, Decidable (r.Harmless e)
  | .recv _ _ => inferInstanceAs (Decidable (∀ _ ∈ _, _))
  | .tick _ _ | .route => instDecidableTrue

theorem addRouteTo_interfaceNum {table : List Route} {c : Route} {bound : ℕ}
    (h : ∀ c ∈ table, c.interfaceNum < bound) (hc : c.interfaceNum < bound) :
    ∀ c' ∈ addRouteTo table c, c'.interfaceNum < bound := by
  induction table with
  | nil => simpa [addRouteTo] using hc
  | cons c₀ table ih =>
    have htail := fun c' hc' => h c' (List.mem_cons_of_mem c₀ hc')
    unfold addRouteTo
    split_ifs with hsame
    · intro c' hc'
      rcases List.mem_cons.mp hc' with rfl | hc'
      · exact h c₀ List.mem_cons_self
      · exact htail c' hc'
    · intro c' hc'
      rcases List.mem_cons.mp hc' with rfl | hc'
      · exact h _ List.mem_cons_self
      · exact ih htail c' hc'

theorem scan_interfaceNum (dst : UInt32) {table : List Route} {s : Scan} {bound : ℕ}
    (h : ∀ c ∈ table, c.interfaceNum < bound) (hs : s.addr.isSome → s.interfaceNum < bound) :
    (scan beyond dst table s).addr.isSome → (scan beyond dst table s).interfaceNum < bound := by
  induction table generalizing s with
  | nil => exact hs
  | cons c table ih =>
    have hhead := h c List.mem_cons_self
    have htail := fun c' hc' => h c' (List.mem_cons_of_mem c hc')
    unfold scan
    split_ifs
    · cases c.nextHop with
      | none => exact fun _ => hhead
      | some addr => exact ih htail fun _ => hhead
    · exact ih htail hs

theorem handsTo_lt {addr : Address} {bound : ℕ} (h : ∀ c ∈ r.routingTable, c.interfaceNum < bound)
    (hhands : r.handsTo beyond dgram = some (n, addr)) : n < bound := by
  unfold handsTo at hhands
  split_ifs at hhands
  obtain ⟨addr', haddr, heq⟩ := Option.map_eq_some_iff.mp hhands
  have hlt : (scan beyond dgram.header.dst r.routingTable {}).interfaceNum < bound :=
    scan_interfaceNum dgram.header.dst h (by simp) (by rw [haddr]; rfl)
  rwa [(Prod.mk.inj heq).1] at hlt

theorem Safe.of_interfaces (h : r.Safe) {interfaces : List AsyncNetworkInterface}
    (hlen : interfaces.length = r.interfaces.length) (hsafe : ∀ a ∈ interfaces, a.Safe) :
    Safe { r with interfaces := interfaces } :=
  ⟨hsafe, fun c hc => by simpa [hlen] using h.routes c hc⟩

theorem Safe.set (h : r.Safe) {a : AsyncNetworkInterface} (ha : a.Safe) :
    Safe { r with interfaces := r.interfaces.set n a } := by
  apply h.of_interfaces (List.length_set ..)
  intro a' ha'
  rcases List.mem_or_eq_of_mem_set ha' with ha' | rfl
  · exact h.interfaces a' ha'
  · exact ha

theorem Safe.modify (h : r.Safe) {f : AsyncNetworkInterface → AsyncNetworkInterface}
    (hf : ∀ a, a.Safe → (f a).Safe) : Safe { r with interfaces := r.interfaces.modify n f } := by
  apply h.of_interfaces (List.length_modify ..)
  intro a ha
  obtain ⟨m, hm, rfl⟩ := List.mem_iff_getElem.mp ha
  have hm' : m < r.interfaces.length := by simpa using hm
  have hold := h.interfaces r.interfaces[m] (List.getElem_mem hm')
  rw [List.getElem_modify]
  split_ifs
  · exact hf _ hold
  · exact hold

theorem Safe.sendOn (h : r.Safe) (hn : n < r.interfaces.length) (hd : dgram.Serializable)
    (hop : Address) : ∃ r', r.sendOn n dgram hop = .ok r' ∧ r'.Safe := by
  unfold Router.sendOn
  rw [List.getElem?_eq_getElem hn]
  obtain ⟨i, hsend, hsafe⟩ := (h.interfaces _ (List.getElem_mem hn)).sendDatagram hd hop
  simp only [hsend]
  exact ⟨_, rfl, h.set hsafe⟩

theorem Safe.routeOneDatagram (h : r.Safe) (hd : dgram.Serializable) :
    ∃ r', r.routeOneDatagram beyond dgram = .ok r' ∧ r'.Safe := by
  unfold Router.routeOneDatagram
  cases hhands : r.handsTo beyond dgram with
  | none => exact ⟨r, rfl, h⟩
  | some target => exact h.sendOn (handsTo_lt h.routes hhands) (hd.ttl _) target.2

theorem Safe.routeQueue (h : r.Safe) {queue : List IPv4Datagram}
    (hqueue : ∀ d ∈ queue, d.Serializable) :
    ∃ r', routeQueue beyond n queue r = .ok r' ∧ r'.Safe := by
  induction queue generalizing r with
  | nil => exact ⟨r, rfl, h⟩
  | cons d queue ih =>
    obtain ⟨r', hr', hsafe⟩ : ∃ r', r.routeOneDatagram beyond d = .ok r' ∧ r'.Safe :=
      h.routeOneDatagram (hqueue d List.mem_cons_self)
    have hpop : (r'.popDatagram n).Safe := hsafe.modify fun a ha =>
      ⟨fun d hd => ha.received d (List.mem_of_mem_tail hd), ha.pending⟩
    rw [Router.routeQueue, hr']
    exact ih hpop fun d' hd' => hqueue d' (List.mem_cons_of_mem d hd')

theorem Safe.routeInterface (h : r.Safe) (n : ℕ) :
    ∃ r', r.routeInterface beyond n = .ok r' ∧ r'.Safe := by
  unfold Router.routeInterface
  cases ha : r.interfaces[n]? with
  | none => exact ⟨r, rfl, h⟩
  | some a => exact h.routeQueue (h.interfaces a (List.mem_of_getElem? ha)).received

theorem Safe.recvFrame (h : r.Safe) {bytes : Buffer} (hok : r.Harmless (.recv n bytes)) :
    ∃ r', r.recvFrame n bytes = .ok r' ∧ r'.Safe := by
  unfold Router.recvFrame
  cases ha : r.interfaces[n]? with
  | none => exact ⟨r, rfl, h⟩
  | some a =>
    obtain ⟨a', hrecv, hsafe⟩ :=
      (h.interfaces a (List.mem_of_getElem? ha)).recvFrame (hok a ha)
    simp only [(EthernetFrame.parse_eq {} bytes).1, hrecv]
    exact ⟨_, rfl, h.set hsafe⟩

/-- A step in which no harmful frame arrives does not fail. -/
theorem Safe.safe_step (h : r.Safe) (hok : r.Harmless e) :
    ∃ r', r.step beyond e = .ok r' ∧ r'.Safe := by
  cases e with
  | recv n bytes => exact h.recvFrame hok
  | tick n ms => exact ⟨_, rfl, h.modify fun a ha => ⟨ha.received, ha.pending⟩⟩
  | route =>
    exact (AdmittedE.of_forall (q := fun _ => True) (by simp)).invariant
      (fun r n hr _ => hr.routeInterface n) h

variable {addresses : List (EthernetAddress × Address)} {routes : List Route} {es : List Event}

theorem Safe.new (hroutes : ∀ c ∈ routes, c.interfaceNum < addresses.length) :
    (new addresses routes).Safe := by
  have hadd : ∀ (routes : List Route) (r : Router), r.Safe →
      (∀ c ∈ routes, c.interfaceNum < r.interfaces.length) → (routes.foldl addRoute r).Safe := by
    intro routes
    induction routes with
    | nil => exact fun r hr _ => hr
    | cons c routes ih =>
      intro r hr hbound
      refine ih _ ⟨hr.interfaces, ?_⟩ fun c' hc' => hbound c' (List.mem_cons_of_mem c hc')
      exact addRouteTo_interfaceNum hr.routes (hbound c List.mem_cons_self)
  refine hadd routes _ ⟨fun a ha => ?_, by simp⟩ (by simpa using hroutes)
  obtain ⟨address, -, rfl⟩ := List.mem_map.mp ha
  exact ⟨by simp, fun c hc => by simp [NetworkInterface.new] at hc⟩

/-- A run of a router in which all frames are harmless to the interface that takes them throws no
exception. -/
theorem run_throws_nothing (hroutes : ∀ c ∈ routes, c.interfaceNum < addresses.length)
    (h : AdmittedE (step beyond) Harmless (new addresses routes) es) :
    ∃ r, runE (step beyond) (new addresses routes) es = .ok r := by
  obtain ⟨r, hrun, -⟩ := h.invariant (fun r e hr ho => hr.safe_step ho) (Safe.new hroutes)
  exact ⟨r, hrun⟩

/-- A datagram of version 6 is rejected for its size, and a datagram of version 4 is sent. -/
theorem run_throws_nothing_wrong_size :
    let mac : EthernetAddress := #v[2, 2, 2, 2, 2, 2]
    let ip : Buffer := [255, 255, 255, 255, 255, 255, 1, 1, 1, 1, 1, 1, 8, 0]
    let es : List Event := [
      .recv 0 (ip ++ [0x65, 0, 0, 28, 0, 0, 0, 0, 64, 6, 0, 0, 1, 1, 1, 1, 10, 0, 0, 1]),
      .recv 0 (ip ++ [0x45, 0, 0, 20, 0, 0, 0, 0, 64, 6, 0, 0, 1, 1, 1, 1, 10, 0, 0, 1]),
      .route, .tick 0 5000]
    ∃ r, runE (step fun _ _ => 0) (new [(mac, ⟨0x0A000009, 0⟩)] [⟨0, 0, none, 0⟩]) es = .ok r := by
  intro mac ip es
  exact run_throws_nothing (by decide) (by decide +kernel)

set_option maxRecDepth 4000 in
/-- A datagram of version 6 is accepted, and cannot be sent once the address is known. -/
theorem route_throws_wrong_version :
    let mac : EthernetAddress := #v[2, 2, 2, 2, 2, 2]
    let es : List Event := [
      .recv 0 [2, 2, 2, 2, 2, 2, 1, 1, 1, 1, 1, 1, 8, 6, 0, 1, 8, 0, 6, 4, 0, 2,
        1, 1, 1, 1, 1, 1, 10, 0, 0, 1, 2, 2, 2, 2, 2, 2, 10, 0, 0, 9],
      .recv 0 [2, 2, 2, 2, 2, 2, 1, 1, 1, 1, 1, 1, 8, 0, 0x65, 0, 0, 20, 0, 0, 0, 0, 64, 6, 0, 0,
        1, 1, 1, 1, 10, 0, 0, 1],
      .route]
    ∀ beyond, runE (step beyond) (new [(mac, ⟨0x0A000009, 0⟩)] [⟨0, 0, none, 0⟩]) es =
      .error "wrong IP version" := by
  intro mac es beyond
  rfl

end Router

end Sponge
