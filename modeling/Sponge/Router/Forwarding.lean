import Sponge.Router.Exceptions
import Sponge.Router.LongestPrefix

/-! # Forwarding

A call of `route` empties every queue. A log of the calls of `send_datagram`, which every interface
has performed, shows that each waiting datagram is passed on at most once, in the order of the
queues, with its time to live lowered by one and nothing else changed.
-/

namespace Sponge

/-- A call of `send_datagram` on the interface with the number `interfaceNum`. -/
structure SendCall where
  interfaceNum : ℕ
  dgram : IPv4Datagram
  nextHop : Address
  deriving DecidableEq, Repr

/-- A router with a log of its calls of `send_datagram`. -/
structure LoggedRouter where
  router : Router
  calls : List SendCall := []
  deriving DecidableEq, Repr

/-- The datagram as it is passed on. -/
def IPv4Datagram.passedOn (d : IPv4Datagram) : IPv4Datagram :=
  { d with header := { d.header with ttl := d.header.ttl - 1 } }

namespace LoggedRouter

variable (beyond : UInt32 → UInt8 → UInt32)

def routeOneDatagram (l : LoggedRouter) (dgram : IPv4Datagram) : Except String LoggedRouter :=
  match l.router.handsTo beyond dgram with
  | none => .ok l
  | some (n, addr) => do
    let r ← l.router.sendOn n dgram.passedOn addr
    return { router := r, calls := l.calls ++ [⟨n, dgram.passedOn, addr⟩] }

def routeQueue (n : ℕ) : List IPv4Datagram → LoggedRouter → Except String LoggedRouter
  | [], l => .ok l
  | dgram :: queue, l => do
    let l ← l.routeOneDatagram beyond dgram
    routeQueue n queue { l with router := l.router.popDatagram n }

def routeInterface (l : LoggedRouter) (n : ℕ) : Except String LoggedRouter :=
  match l.router.interfaces[n]? with
  | none => .ok l
  | some a => routeQueue beyond n a.datagramsOut l

def route (l : LoggedRouter) : Except String LoggedRouter :=
  (List.range l.router.interfaces.length).foldlM (routeInterface beyond) l

end LoggedRouter

/-- Send the datagrams of some calls. -/
def NetworkInterface.sendAll (i : NetworkInterface) (calls : List SendCall) :
    Except String NetworkInterface :=
  calls.foldlM (fun i call => i.sendDatagram call.dgram call.nextHop) i

/-- Each interface of `r'` is what the calls that name it, in their order, make of that of `r`. -/
structure Router.Performed (r r' : Router) (calls : List SendCall) : Prop where
  table : r'.routingTable = r.routingTable
  length : r'.interfaces.length = r.interfaces.length
  interfaces : ∀ n (a a' : AsyncNetworkInterface), r.interfaces[n]? = some a →
    r'.interfaces[n]? = some a' →
    a.interface.sendAll (calls.filter fun call => call.interfaceNum == n) = .ok a'.interface

/-- The routes name existing interfaces and have at most 32 bits, and what waits can be
serialized. -/
structure Router.Forwardable (r : Router) : Prop where
  routes : ∀ c ∈ r.routingTable, c.interfaceNum < r.interfaces.length ∧ c.prefixLength ≤ 32
  queued : ∀ a ∈ r.interfaces, ∀ d ∈ a.datagramsOut, d.Serializable

/-- What is sent for a datagram: one call with the time to live lowered if it is at least two and a
route matches, and none otherwise. -/
structure Router.Forwards (r : Router) (d : IPv4Datagram) (calls : List SendCall) : Prop where
  dropped : d.header.ttl ≤ 1 ∨ (∀ c ∈ r.routingTable, ¬ c.Matches d.header.dst) → calls = []
  passed : 2 ≤ d.header.ttl → (∃ c ∈ r.routingTable, c.Matches d.header.dst) →
    ∃ n addr, n < r.interfaces.length ∧ calls = [⟨n, d.passedOn, addr⟩]

namespace Router

variable {beyond : UInt32 → UInt8 → UInt32} {r r' : Router} {n : ℕ} {d : IPv4Datagram}

instance (r : Router) : Decidable r.Forwardable :=
  decidable_of_iff ((∀ c ∈ r.routingTable,
      c.interfaceNum < r.interfaces.length ∧ c.prefixLength ≤ 32) ∧
      ∀ a ∈ r.interfaces, ∀ d ∈ a.datagramsOut, d.Serializable)
    ⟨fun h => ⟨h.1, h.2⟩, fun h => ⟨h.routes, h.queued⟩⟩

/-- The queues of the interfaces. -/
def queues (r : Router) : List (List IPv4Datagram) := r.interfaces.map (·.datagramsOut)

/-- As the router is between the turns of its loops. -/
structure Waiting (r : Router) : Prop where
  routes : ∀ c ∈ r.routingTable, c.interfaceNum < r.queues.length
  queued : ∀ queue ∈ r.queues, ∀ d ∈ queue, d.Serializable

/-- The calls of `send_datagram` for a datagram. -/
def callsFor (beyond : UInt32 → UInt8 → UInt32) (r : Router) (d : IPv4Datagram) : List SendCall :=
  (r.handsTo beyond d).toList.map fun target => ⟨target.1, d.passedOn, target.2⟩

theorem callsFor_congr (h : r'.routingTable = r.routingTable) :
    r'.callsFor beyond = r.callsFor beyond := by
  funext d
  simp only [callsFor, handsTo, h]

namespace Performed

theorem refl (r : Router) : Performed r r [] := by
  refine ⟨rfl, rfl, fun n a a' ha ha' => ?_⟩
  obtain rfl := Option.some.inj (ha.symm.trans ha')
  rfl

theorem trans {r₁ : Router} {calls calls' : List SendCall} (h : Performed r r₁ calls)
    (h' : Performed r₁ r' calls') : Performed r r' (calls ++ calls') := by
  refine ⟨h'.table.trans h.table, h'.length.trans h.length, fun n a a' ha ha' => ?_⟩
  obtain ⟨a₁, ha₁⟩ : ∃ a₁, r₁.interfaces[n]? = some a₁ := by
    obtain ⟨hn, -⟩ := List.getElem?_eq_some_iff.mp ha
    exact ⟨_, List.getElem?_eq_getElem (h.length ▸ hn)⟩
  rw [NetworkInterface.sendAll, List.filter_append, List.foldlM_append]
  have hfirst := h.interfaces n a a₁ ha ha₁
  have hsecond := h'.interfaces n a₁ a' ha₁ ha'
  rw [NetworkInterface.sendAll] at hfirst hsecond
  rw [hfirst]
  exact hsecond

theorem popDatagram (r : Router) (n : ℕ) : Performed r (r.popDatagram n) [] := by
  refine ⟨rfl, List.length_modify .., fun m a a' ha ha' => ?_⟩
  rw [Router.popDatagram, List.getElem?_modify, ha] at ha'
  rw [← Option.some.inj ha']
  simp only
  split_ifs <;> rfl

theorem sendOn {a : AsyncNetworkInterface} {i : NetworkInterface} {hop : Address}
    (ha : r.interfaces[n]? = some a) (hi : a.interface.sendDatagram d hop = .ok i) :
    Performed r { r with interfaces := r.interfaces.set n { a with interface := i } }
      [⟨n, d, hop⟩] := by
  refine ⟨rfl, List.length_set .., fun m b b' hb hb' => ?_⟩
  by_cases hm : n = m
  · subst hm
    obtain rfl := Option.some.inj (ha.symm.trans hb)
    rw [List.getElem?_set_self', ha] at hb'
    rw [← Option.some.inj hb']
    simp [NetworkInterface.sendAll, hi]
  · rw [List.getElem?_set_ne hm, hb] at hb'
    rw [← Option.some.inj hb']
    have hnone : ([⟨n, d, hop⟩] : List SendCall).filter (fun call => call.interfaceNum == m) =
        [] := by simp [hm]
    rw [hnone]
    rfl

end Performed

theorem sendOn_eq (hn : n < r.queues.length) (hd : d.Serializable) (hop : Address) :
    ∃ r', r.sendOn n d hop = .ok r' ∧ r.Performed r' [⟨n, d, hop⟩] ∧ r'.queues = r.queues := by
  have hn' : n < r.interfaces.length := by simpa [queues] using hn
  obtain ⟨i, hi⟩ : ∃ i, r.interfaces[n].interface.sendDatagram d hop = .ok i := by
    rcases NetworkInterface.sendDatagram_cases (i := r.interfaces[n].interface) hop
      (IPv4Datagram.serialize_ok hd) with ⟨_, -, -, hsend⟩ | ⟨-, -, hsend⟩ | ⟨_, -, -, -, hsend⟩
    · exact ⟨_, hsend⟩
    · exact ⟨_, hsend⟩
    · exact ⟨_, hsend⟩
  refine ⟨{ r with interfaces := r.interfaces.set n { r.interfaces[n] with interface := i } },
    ?_, .sendOn (List.getElem?_eq_getElem hn') hi, ?_⟩
  · rw [sendOn, List.getElem?_eq_getElem hn']
    simp only [hi]
    rfl
  · have hsame : r.queues.set n r.interfaces[n].datagramsOut = r.queues := by
      have hget : r.interfaces[n].datagramsOut = r.queues[n] := by simp [queues]
      rw [hget, List.set_getElem_self]
    rw [queues, List.map_set]
    exact hsame

variable (beyond) in
/-- A datagram is passed on once or not at all, as the log says. -/
theorem routeOneDatagram_log (hroutes : ∀ c ∈ r.routingTable, c.interfaceNum < r.queues.length)
    (hd : d.Serializable) (calls : List SendCall) :
    ∃ r', r.routeOneDatagram beyond d = .ok r' ∧
      LoggedRouter.routeOneDatagram beyond ⟨r, calls⟩ d =
        .ok ⟨r', calls ++ r.callsFor beyond d⟩ ∧
      r.Performed r' (r.callsFor beyond d) ∧ r'.queues = r.queues := by
  rw [Router.routeOneDatagram, LoggedRouter.routeOneDatagram, callsFor]
  cases hhands : r.handsTo beyond d with
  | none => exact ⟨r, rfl, by simp, .refl r, rfl⟩
  | some target =>
    obtain ⟨n, addr⟩ := target
    obtain ⟨r', hsend, hperformed, hqueues⟩ :=
      sendOn_eq (handsTo_lt hroutes hhands) (hd.ttl (d.header.ttl - 1)) addr
    refine ⟨r', hsend, ?_, hperformed, hqueues⟩
    change (r.sendOn n d.passedOn addr >>= _) = _
    rw [IPv4Datagram.passedOn, hsend]
    rfl

theorem popDatagram_queues (r : Router) (n : ℕ) :
    (r.popDatagram n).queues = r.queues.modify n List.tail := by
  apply List.ext_getElem?
  intro i
  simp only [queues, popDatagram, List.getElem?_map, List.getElem?_modify]
  cases r.interfaces[i]? with
  | none => rfl
  | some a =>
    by_cases hi : n = i
    · simp [hi]
    · simp [hi]

variable (beyond) in
theorem routeQueue_log {queue : List IPv4Datagram}
    (hroutes : ∀ c ∈ r.routingTable, c.interfaceNum < r.queues.length)
    (hqueue : ∀ d ∈ queue, d.Serializable) (calls : List SendCall) :
    ∃ r', routeQueue beyond n queue r = .ok r' ∧
      LoggedRouter.routeQueue beyond n queue ⟨r, calls⟩ =
        .ok ⟨r', calls ++ queue.flatMap (r.callsFor beyond)⟩ ∧
      r.Performed r' (queue.flatMap (r.callsFor beyond)) ∧
      r'.queues = r.queues.modify n (List.drop queue.length) := by
  induction queue generalizing r calls with
  | nil =>
    have hnone : (List.drop 0 : List IPv4Datagram → List IPv4Datagram) = id := rfl
    exact ⟨r, rfl, by simp [LoggedRouter.routeQueue], .refl r, by simp [hnone]⟩
  | cons d queue ih =>
    obtain ⟨r₁, hr₁, hlog₁, hperformed₁, hqueues₁⟩ :=
      routeOneDatagram_log beyond hroutes (hqueue d List.mem_cons_self) calls
    have hperformed : r.Performed (r₁.popDatagram n) (r.callsFor beyond d) := by
      have hboth := hperformed₁.trans (.popDatagram r₁ n)
      rwa [List.append_nil] at hboth
    have hpop : (r₁.popDatagram n).queues = r.queues.modify n List.tail := by
      rw [popDatagram_queues, hqueues₁]
    obtain ⟨r₂, hr₂, hlog₂, hperformed₂, hqueues₂⟩ :=
      ih (r := r₁.popDatagram n)
        (by rw [hperformed.table, hpop, List.length_modify]; exact hroutes)
        (fun d' hd' => hqueue d' (List.mem_cons_of_mem d hd')) (calls ++ r.callsFor beyond d)
    have hcalls : (r₁.popDatagram n).callsFor beyond = r.callsFor beyond :=
      callsFor_congr hperformed.table
    refine ⟨r₂, ?_, ?_, ?_, ?_⟩
    · rw [routeQueue, hr₁]
      exact hr₂
    · rw [LoggedRouter.routeQueue, hlog₁]
      change LoggedRouter.routeQueue beyond n queue ⟨r₁.popDatagram n, _⟩ = _
      rw [hlog₂, hcalls, List.flatMap_cons, List.append_assoc]
    · rw [hcalls] at hperformed₂
      exact hperformed.trans hperformed₂
    · rw [hqueues₂, hpop, List.modify_modify_eq]
      congr 1
      funext queue'
      rw [Function.comp_apply, List.drop_tail, List.length_cons]

variable (beyond) in
theorem routeInterface_log (h : r.Waiting) (n : ℕ) (calls : List SendCall) :
    ∃ r', r.routeInterface beyond n = .ok r' ∧
      LoggedRouter.routeInterface beyond ⟨r, calls⟩ n =
        .ok ⟨r', calls ++ (r.queues[n]?.getD []).flatMap (r.callsFor beyond)⟩ ∧
      r.Performed r' ((r.queues[n]?.getD []).flatMap (r.callsFor beyond)) ∧
      r'.queues = r.queues.set n [] := by
  rw [routeInterface, LoggedRouter.routeInterface]
  have hget : r.queues[n]? = r.interfaces[n]?.map (·.datagramsOut) := List.getElem?_map
  cases ha : r.interfaces[n]? with
  | none =>
    rw [ha] at hget
    have hlen : r.queues.length ≤ n := List.getElem?_eq_none_iff.mp hget
    exact ⟨r, rfl, by simp [hget], by simpa [hget] using Performed.refl r,
      (List.set_eq_of_length_le hlen).symm⟩
  | some a =>
    rw [ha] at hget
    have hmem : a.datagramsOut ∈ r.queues := List.mem_of_getElem? hget
    obtain ⟨r', hr', hlog, hperformed, hqueues⟩ :=
      routeQueue_log beyond (n := n) h.routes (h.queued _ hmem) calls
    refine ⟨r', hr', by simpa [hget] using hlog, by simpa [hget] using hperformed, ?_⟩
    rw [hqueues]
    apply List.ext_getElem?
    intro i
    rw [List.getElem?_modify, List.getElem?_set']
    by_cases hi : n = i
    · subst hi
      simp [hget]
    · simp [hi]

theorem Waiting.of_emptied (h : r.Waiting) {k : ℕ} (hk : k ≤ r.queues.length)
    (htable : r'.routingTable = r.routingTable)
    (hqueues : r'.queues = List.replicate k [] ++ r.queues.drop k) : r'.Waiting := by
  constructor
  · have hlen : r'.queues.length = r.queues.length := by
      rw [hqueues, List.length_append, List.length_replicate, List.length_drop]
      omega
    rw [htable, hlen]
    exact h.routes
  · intro queue hqueue
    rw [hqueues] at hqueue
    rcases List.mem_append.mp hqueue with hqueue | hqueue
    · rw [List.eq_of_mem_replicate hqueue]
      simp
    · exact h.queued queue (List.mem_of_mem_drop hqueue)

variable (beyond) in
/-- After the first `k` turns of the outer loop the first `k` queues are empty, and the others as
before. -/
theorem route_log (h : r.Waiting) {k : ℕ} (hk : k ≤ r.queues.length) :
    ∃ r', (List.range k).foldlM (routeInterface beyond) r = .ok r' ∧
      (List.range k).foldlM (LoggedRouter.routeInterface beyond) ⟨r, []⟩ =
        .ok ⟨r', (r.queues.take k).flatten.flatMap (r.callsFor beyond)⟩ ∧
      r.Performed r' ((r.queues.take k).flatten.flatMap (r.callsFor beyond)) ∧
      r'.queues = List.replicate k [] ++ r.queues.drop k := by
  induction k with
  | zero => exact ⟨r, rfl, rfl, .refl r, by simp⟩
  | succ k ih =>
    obtain ⟨r₁, hr₁, hlog₁, hperformed₁, hqueues₁⟩ := ih (by omega)
    have hwaiting : r₁.Waiting := h.of_emptied (by omega) hperformed₁.table hqueues₁
    have hcalls : r₁.callsFor beyond = r.callsFor beyond := callsFor_congr hperformed₁.table
    have hsplit : (r.queues.take (k + 1)).flatten.flatMap (r.callsFor beyond) =
        (r.queues.take k).flatten.flatMap (r.callsFor beyond) ++
          (r.queues[k]?.getD []).flatMap (r.callsFor beyond) := by
      rw [List.take_add_one, List.flatten_append, List.flatMap_append]
      cases r.queues[k]? <;> simp
    have hget : r₁.queues[k]? = r.queues[k]? := by
      rw [hqueues₁, List.getElem?_append_right (by simp), List.length_replicate, Nat.sub_self,
        List.getElem?_drop, Nat.add_zero]
    obtain ⟨r₂, hr₂, hlog₂, hperformed₂, hqueues₂⟩ :=
      routeInterface_log beyond hwaiting k ((r.queues.take k).flatten.flatMap
        (r.callsFor beyond))
    rw [hget, hcalls] at hlog₂ hperformed₂
    have hdrop := List.drop_eq_getElem_cons (l := r.queues) (i := k) (by omega)
    refine ⟨r₂, ?_, ?_, ?_, ?_⟩
    · rw [List.range_succ, List.foldlM_append, hr₁]
      change ([k].foldlM (routeInterface beyond) r₁) = _
      rw [List.foldlM_cons, hr₂]
      rfl
    · rw [List.range_succ, List.foldlM_append, hlog₁]
      change ([k].foldlM (LoggedRouter.routeInterface beyond) _) = _
      rw [List.foldlM_cons, hlog₂, hsplit]
      rfl
    · rw [hsplit]
      exact hperformed₁.trans hperformed₂
    · rw [hqueues₂, hqueues₁, List.set_append_right _ _ (by simp), List.length_replicate,
        Nat.sub_self, hdrop, List.set_cons_zero, List.replicate_succ', List.append_assoc,
        List.singleton_append]

/-- A datagram is passed on exactly when the scan selects a route for it. -/
theorem forwards_callsFor (h : r.Forwardable) (d : IPv4Datagram) :
    r.Forwards d (r.callsFor beyond d) := by
  have hscan := selected_scan beyond (fun c hc => (h.routes c hc).2) d.header.dst
  by_cases httl : d.header.ttl ≤ 1
  · have hnone : r.callsFor beyond d = [] := by simp [callsFor, handsTo, httl]
    refine ⟨fun _ => hnone, fun hlive => absurd (UInt8.le_trans hlive httl) (by decide)⟩
  · rcases hscan with ⟨c, hc, hsel⟩ | ⟨hno, hsel⟩
    · have hmem := hc.mem_matches
      refine ⟨fun hdrop => ?_, fun _ _ => ?_⟩
      · rcases hdrop with hdrop | hdrop
        · exact absurd hdrop httl
        · exact absurd hmem.2 (hdrop c hmem.1)
      · refine ⟨c.interfaceNum, (c.target d.header.dst).2, (h.routes c hmem.1).1, ?_⟩
        rw [callsFor, handsTo_eq_selected r httl, hsel]
        rfl
    · refine ⟨fun _ => ?_, fun _ hmatch => ?_⟩
      · rw [callsFor, handsTo_eq_selected r httl, hsel]
        rfl
      · obtain ⟨c, hc, hm⟩ := hmatch
        exact absurd hm (hno c hc)

/-- A call of `route` passes on the datagrams of each queue in its order, each at most once and with
the time to live lowered by one, and leaves every queue empty. The interfaces have sent what the log
says, and nothing else has happened to them. -/
theorem route_forwards (beyond : UInt32 → UInt8 → UInt32) (h : r.Forwardable) :
    ∃ r' calls, r.route beyond = .ok r' ∧ LoggedRouter.route beyond ⟨r, []⟩ = .ok ⟨r', calls⟩ ∧
      r.Performed r' calls ∧ (∀ a ∈ r'.interfaces, a.datagramsOut = []) ∧
      ∃ callsFor : IPv4Datagram → List SendCall, (∀ d, r.Forwards d (callsFor d)) ∧
        calls = r.interfaces.flatMap fun a => a.datagramsOut.flatMap callsFor := by
  have hlen : r.queues.length = r.interfaces.length := List.length_map _
  have hwaiting : r.Waiting := by
    refine ⟨fun c hc => hlen ▸ (h.routes c hc).1, fun queue hqueue => ?_⟩
    obtain ⟨a, ha, rfl⟩ := List.mem_map.mp hqueue
    exact h.queued a ha
  obtain ⟨r', hr', hlog, hperformed, hqueues⟩ := route_log beyond hwaiting le_rfl
  rw [hlen] at hr' hlog hperformed hqueues
  refine ⟨r', _, hr', hlog, hperformed, fun a ha => ?_, r.callsFor beyond, forwards_callsFor h, ?_⟩
  · have hmem : a.datagramsOut ∈ r'.queues := List.mem_map_of_mem ha
    rw [hqueues, ← hlen, List.drop_length, List.append_nil] at hmem
    exact List.eq_of_mem_replicate hmem
  · rw [← hlen, List.take_length, List.flatten_eq_flatMap, List.flatMap_assoc, queues,
      List.flatMap_map]
    rfl

/-- Two interfaces, one of which sends on itself and drops a datagram with no time left. -/
theorem route_forwards_itself :
    let r : Router := {
      interfaces := [
        { interface := .new #v[2, 2, 2, 2, 2, 2] ⟨0x0A000009, 0⟩
          datagramsOut := [{ header := { len := 20, ttl := 9, dst := 0x0A000001 } },
            { header := { len := 20, ttl := 1, dst := 0x0A000001 } }] },
        { interface := .new #v[2, 2, 2, 2, 2, 3] ⟨0x0B000009, 0⟩
          datagramsOut := [{ header := { len := 20, ttl := 2, dst := 0x0A000002 } }] }]
      routingTable := [⟨0x0A000000, 8, none, 0⟩] }
    ∃ r' calls, r.route (fun _ _ => 0) = .ok r' ∧
      LoggedRouter.route (fun _ _ => 0) ⟨r, []⟩ = .ok ⟨r', calls⟩ ∧
      r.Performed r' calls ∧ (∀ a ∈ r'.interfaces, a.datagramsOut = []) ∧
      ∃ callsFor : IPv4Datagram → List SendCall, (∀ d, r.Forwards d (callsFor d)) ∧
        calls = r.interfaces.flatMap fun a => a.datagramsOut.flatMap callsFor := by
  intro r
  exact route_forwards (fun _ _ => 0) (by decide)

end Router

end Sponge
