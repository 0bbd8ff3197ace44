import Sponge.Interface.Basic

/-! # The router

A datagram is handed to the interface that a scan of the routing table selects. The scan
keeps the longest match so far, but ends at the first direct route that it selects.
-/

namespace Sponge

/-- An interface with the queue of the datagrams it has received. -/
structure AsyncNetworkInterface where
  interface : NetworkInterface
  datagramsOut : List IPv4Datagram := []
  deriving DecidableEq, Repr

namespace AsyncNetworkInterface

def recvFrame (a : AsyncNetworkInterface) (ef : EthernetFrame) :
    Except String AsyncNetworkInterface := do
  let (interface, dgram) ← a.interface.recvFrame ef
  return { interface := interface, datagramsOut := a.datagramsOut ++ dgram.toList }

def tick (a : AsyncNetworkInterface) (msSinceLastTick : ℕ) : AsyncNetworkInterface :=
  { a with interface := a.interface.tick msSinceLastTick }

end AsyncNetworkInterface

structure Route where
  routePrefix : UInt32
  prefixLength : UInt8
  nextHop : Option Address
  interfaceNum : ℕ
  deriving DecidableEq, Repr

structure Router where
  interfaces : List AsyncNetworkInterface := []
  routingTable : List Route := []
  deriving DecidableEq, Repr

/-- The state of a scan: the longest match so far, and what it selects. -/
structure Scan where
  max : UInt8 := 0
  addr : Option Address := none
  interfaceNum : ℕ := 0
  deriving DecidableEq, Repr

/-- Add a route; a route with the same prefix and length only gets another next hop. -/
def addRouteTo (table : List Route) (r : Route) : List Route :=
  match table with
  | [] => [r]
  | c :: table =>
    if c.routePrefix = r.routePrefix ∧ c.prefixLength = r.prefixLength then
      { c with nextHop := r.nextHop } :: table
    else c :: addRouteTo table r

section Shift

-- a shift by 32 bits or more is undefined; `beyond` gives the value that it yields
variable (beyond : UInt32 → UInt8 → UInt32)

/-- The `len` high-order bits of an address. -/
def highBits (address : UInt32) (len : UInt8) : UInt32 :=
  if 1 ≤ len ∧ len ≤ 32 then address >>> (32 - len).toUInt32 else beyond address len

/-- Does the scan select the route? -/
def Route.isSelected (r : Route) (dst : UInt32) (s : Scan) : Bool :=
  (s.max == r.prefixLength && r.prefixLength == 0) ||
    (highBits beyond dst r.prefixLength == highBits beyond r.routePrefix r.prefixLength &&
      decide (s.max ≤ r.prefixLength))

/-- Scan the routes for an address. -/
def scan (dst : UInt32) : List Route → Scan → Scan
  | [], s => s
  | r :: rs, s =>
    if r.isSelected beyond dst s then
      match r.nextHop with
      | none =>
        { max := r.prefixLength
          addr := some (.fromIpv4Numeric dst)
          interfaceNum := r.interfaceNum }
      | some addr =>
        scan dst rs { max := r.prefixLength, addr := some addr, interfaceNum := r.interfaceNum }
    else scan dst rs s

namespace Router

def addRoute (r : Router) (route : Route) : Router :=
  { r with routingTable := addRouteTo r.routingTable route }

/-- Send a datagram on the interface with the number `n`. -/
def sendOn (r : Router) (n : ℕ) (dgram : IPv4Datagram) (nextHop : Address) :
    Except String Router :=
  match r.interfaces[n]? with
  | none => .error "out_of_range"
  | some a => do
    let interface ← a.interface.sendDatagram dgram nextHop
    return { r with interfaces := r.interfaces.set n { a with interface := interface } }

/-- The interface that a datagram is handed to, and its next hop. -/
def handsTo (r : Router) (dgram : IPv4Datagram) : Option (ℕ × Address) :=
  if dgram.header.ttl ≤ 1 then none
  else
    let s := scan beyond dgram.header.dst r.routingTable {}
    s.addr.map fun addr => (s.interfaceNum, addr)

def routeOneDatagram (r : Router) (dgram : IPv4Datagram) : Except String Router :=
  match r.handsTo beyond dgram with
  | none => .ok r
  | some (n, addr) =>
    r.sendOn n { dgram with header := { dgram.header with ttl := dgram.header.ttl - 1 } } addr

/-- Remove the front of the queue of an interface. -/
def popDatagram (r : Router) (n : ℕ) : Router :=
  { r with
    interfaces := r.interfaces.modify n fun a => { a with datagramsOut := a.datagramsOut.tail } }

/-- Route the datagrams that wait at an interface. -/
def routeQueue (n : ℕ) : List IPv4Datagram → Router → Except String Router
  | [], r => .ok r
  | dgram :: queue, r => do
    let r ← r.routeOneDatagram beyond dgram
    routeQueue n queue (r.popDatagram n)

/-- Route the datagrams that wait at the interface with the number `n`. -/
def routeInterface (r : Router) (n : ℕ) : Except String Router :=
  match r.interfaces[n]? with
  | none => .ok r
  | some a => routeQueue beyond n a.datagramsOut r

/-- Route every datagram that was received. -/
def route (r : Router) : Except String Router :=
  (List.range r.interfaces.length).foldlM (routeInterface beyond) r

end Router

end Shift

namespace Router

/-- A router with fresh interfaces, to which routes were added. -/
def new (addresses : List (EthernetAddress × Address)) (routes : List Route) : Router :=
  routes.foldl addRoute
    { interfaces := addresses.map fun a => { interface := .new a.1 a.2 } }

/-- A frame arrives as bytes at the interface with the number `n`. -/
def recvFrame (r : Router) (n : ℕ) (bytes : Buffer) : Except String Router :=
  match r.interfaces[n]? with
  | none => .ok r
  | some a =>
    let (pr, ef) := ({} : EthernetFrame).parse bytes
    if pr ≠ .noError then .ok r
    else do
      let a ← a.recvFrame ef
      return { r with interfaces := r.interfaces.set n a }

def tick (r : Router) (n : ℕ) (msSinceLastTick : ℕ) : Router :=
  { r with interfaces := r.interfaces.modify n (·.tick msSinceLastTick) }

/-- What happens to a router. -/
inductive Event
  | recv (n : ℕ) (bytes : Buffer)
  | tick (n : ℕ) (ms : ℕ)
  | route
  deriving DecidableEq, Repr

def step (beyond : UInt32 → UInt8 → UInt32) (r : Router) : Event → Except String Router
  | .recv n bytes => r.recvFrame n bytes
  | .tick n ms => .ok (r.tick n ms)
  | .route => r.route beyond

end Router

end Sponge
