import Sponge.Interface.Delivery

/-! # Fresh addresses and rare requests

An entry of the cache is the last message heard from its address, and a tick removes it
30 seconds later. A request is noted for 5 seconds, in which no other one is sent. Both hold
as long as the clock stays away from the end of its 64 bits, where a deadline wraps.
-/

namespace Sponge

open Runs

/-- The frame carries a datagram to the Ethernet address `dst`. -/
structure EthernetFrame.GoesTo (f : EthernetFrame) (dst : EthernetAddress) : Prop where
  type : f.header.type = EthernetHeader.typeIPv4
  dst : f.header.dst = dst

namespace NetworkInterface

theorem mem_mapInsert_mapErase {β : Type} {ip : UInt32} {v : β} {m : List (UInt32 × β)}
    {c : UInt32 × β} (hc : c ∈ mapInsert ip v (mapErase ip m)) :
    (c.1 ≠ ip ∧ c ∈ m) ∨ c = (ip, v) := by
  have herase : ∀ c ∈ mapErase ip m, c.1 ≠ ip ∧ c ∈ m := fun c hc =>
    ⟨by simpa using (List.mem_filter.mp hc).2, List.mem_of_mem_filter hc⟩
  unfold mapInsert at hc
  split_ifs at hc
  · exact Or.inl (herase c hc)
  · rcases List.mem_append.mp hc with hc | hc
    · exact Or.inl (herase c hc)
    · exact Or.inr (List.mem_singleton.mp hc)

/-- The frames of the datagrams before the first one that cannot be serialized. -/
def framesUntilThrow (i : NetworkInterface) (dst : EthernetAddress) :
    List IPv4Datagram → List EthernetFrame
  | [] => []
  | dgram :: dgrams =>
    match i.ipv4Frame dst dgram with
    | .ok ef => ef :: i.framesUntilThrow dst dgrams
    | .error _ => []

/-- Remove the first `n` entries with the key `ip`. -/
def eraseFirst {β : Type} (ip : UInt32) : ℕ → List (UInt32 × β) → List (UInt32 × β)
  | 0, m => m
  | _, [] => []
  | n + 1, c :: m => if c.1 == ip then eraseFirst ip n m else c :: eraseFirst ip (n + 1) m

/-- What is left of the interface when an operation throws: the sender of an ARP message is learned
and the datagrams before the one that cannot be serialized are sent, otherwise nothing happens. -/
def thrown (i : NetworkInterface) : Op → NetworkInterface
  | .recv ef =>
    let am := arpMessage ef
    let frames := i.framesUntilThrow am.senderEthernetAddress (i.waiting am.senderIpAddress)
    { i.learned am frames with pending := eraseFirst am.senderIpAddress frames.length i.pending }
  | _ => i

/-- Perform an operation, whether it throws or not. -/
def perform (i : NetworkInterface) (o : Op) : NetworkInterface :=
  match i.step o with
  | .ok i' => i'
  | .error _ => i.thrown o

/-- The valid ARP message that the interface accepts with a frame. -/
def hears (i : NetworkInterface) (ef : EthernetFrame) : Option ARPMessage :=
  if i.accepts ef = true ∧ ef.header.type = EthernetHeader.typeARP ∧
      (({} : ARPMessage).parse (frontBuffer ef)).1 = .noError then
    some (arpMessage ef)
  else none

/-- The time that an operation lets pass. -/
def Op.ms : Op → ℕ
  | .tick ms => ms
  | _ => 0

variable {i : NetworkInterface} {d : IPv4Datagram} {hop : Address} {ef f : EthernetFrame}
  {dst : EthernetAddress}

theorem goesTo_of_ipv4Frame (h : i.ipv4Frame dst d = .ok f) : f.GoesTo dst := by
  rw [ipv4Frame] at h
  cases hs : d.serialize with
  | error e => simp [hs, bind, Except.bind] at h
  | ok payload =>
    rw [hs] at h
    obtain rfl := Except.ok.inj h
    exact ⟨rfl, rfl⟩

theorem goesTo_framesUntilThrow (i : NetworkInterface) (dst : EthernetAddress)
    (ds : List IPv4Datagram) :
    ∀ f ∈ i.framesUntilThrow dst ds, f.GoesTo dst := by
  induction ds with
  | nil => simp [framesUntilThrow]
  | cons d ds ih =>
    rw [framesUntilThrow]
    cases hf : i.ipv4Frame dst d with
    | error e => simp
    | ok ef =>
      intro f hmem
      rcases List.mem_cons.mp hmem with rfl | hmem
      · exact goesTo_of_ipv4Frame hf
      · exact ih f hmem

theorem perform_send (i : NetworkInterface) (d : IPv4Datagram) (hop : Address) :
    (∃ entry f, i.cache.lookup hop.ipv4Numeric = some entry ∧ f.GoesTo entry.1 ∧
      i.perform (.send d hop) = { i with framesOut := i.framesOut ++ [f] }) ∨
    i.perform (.send d hop) = i ∨
    (∃ f, i.cooldown.lookup hop.ipv4Numeric = none ∧ f.header.type = EthernetHeader.typeARP ∧
      arpMessage f = i.arpRequest hop.ipv4Numeric ∧
      i.perform (.send d hop) = {
        i with
        pending := i.pending ++ [(hop.ipv4Numeric, d)]
        cooldown := mapInsert hop.ipv4Numeric i.now i.cooldown
        framesOut := i.framesOut ++ [f] }) := by
  unfold perform
  rw [step, sendDatagram]
  cases hcache : i.cache.lookup hop.ipv4Numeric with
  | some entry =>
    cases hf : i.ipv4Frame entry.1 d with
    | error e =>
      refine Or.inr (Or.inl ?_)
      simp only [hf]
      rfl
    | ok f =>
      refine Or.inl ⟨entry, f, rfl, goesTo_of_ipv4Frame hf, ?_⟩
      simp only [hf]
      rfl
  | none =>
    cases hcool : i.cooldown.lookup hop.ipv4Numeric with
    | some time => exact Or.inr (Or.inl rfl)
    | none =>
      obtain ⟨f, hf, htype⟩ := i.arpFrame_ok ethernetBroadcast
        (m := i.arpRequest hop.ipv4Numeric) rfl
      refine Or.inr (Or.inr ⟨f, rfl, htype, arpMessage_of_arpFrame rfl hf, ?_⟩)
      simp only [hf]
      rfl

theorem perform_recv (i : NetworkInterface) (ef : EthernetFrame) :
    (i.hears ef = none ∧ i.perform (.recv ef) = i) ∨
    (i.hears ef = some (arpMessage ef) ∧ ∃ frames replies pending,
      (∀ f ∈ frames, f.GoesTo (arpMessage ef).senderEthernetAddress) ∧
      (∀ f ∈ replies, f.header.type = EthernetHeader.typeARP ∧
        (arpMessage f).opcode = ARPMessage.opcodeReply) ∧
      i.perform (.recv ef) =
        { i.learned (arpMessage ef) (frames ++ replies) with pending := pending }) := by
  by_cases hheard : i.accepts ef = true ∧ ef.header.type = EthernetHeader.typeARP ∧
      (({} : ARPMessage).parse (frontBuffer ef)).1 = .noError
  · refine Or.inr ⟨if_pos hheard, ?_⟩
    obtain ⟨haccept, htype, hparse⟩ := hheard
    unfold perform
    rw [step]
    cases hframes : (i.waiting (arpMessage ef).senderIpAddress).mapM
        (i.ipv4Frame (arpMessage ef).senderEthernetAddress) with
    | error e =>
      set frames := i.framesUntilThrow (arpMessage ef).senderEthernetAddress
        (i.waiting (arpMessage ef).senderIpAddress)
      refine ⟨frames, [], eraseFirst (arpMessage ef).senderIpAddress frames.length i.pending,
        i.goesTo_framesUntilThrow _ _, by simp, ?_⟩
      rw [recvFrame_arp haccept htype hparse, learn, hframes, List.append_nil]
      rfl
    | ok frames =>
      have hlearn : i.learn (arpMessage ef) = .ok (i.learned (arpMessage ef) frames) := by
        rw [learn, hframes]
        rfl
      obtain ⟨replies, hreplies, hrecv⟩ := recvFrame_learned haccept htype hparse hlearn
      refine ⟨frames, replies, mapErase (arpMessage ef).senderIpAddress i.pending, ?_, hreplies, ?_⟩
      · intro f hf
        obtain ⟨d, -, hd⟩ := mem_of_mapM_ok hframes f hf
        exact goesTo_of_ipv4Frame hd
      · rw [hrecv]
        rfl
  · refine Or.inl ⟨if_neg hheard, ?_⟩
    unfold perform
    rw [step]
    rcases recvFrame_unheard hheard with hrecv | ⟨-, -, -, hrecv⟩
    · rw [hrecv]
      rfl
    · rw [hrecv]
      rfl

end NetworkInterface

/-- What is heard from an address, sent to a next hop, or asked for, with the time. -/
inductive ArpEvent
  | heard (ip : UInt32) (ethernet : EthernetAddress) (time : ℕ)
  | sent (nextHop : UInt32) (dst : EthernetAddress) (time : ℕ)
  | asked (ip : UInt32) (time : ℕ)
  deriving DecidableEq, Repr

namespace ArpEvent

def heardFrom (ip : UInt32) : ArpEvent → Option (EthernetAddress × ℕ)
  | .heard ip' ethernet time => if ip' = ip then some (ethernet, time) else none
  | _ => none

/-- The address that was last heard from `ip`, and when. -/
def lastHeard (ip : UInt32) (events : List ArpEvent) : Option (EthernetAddress × ℕ) :=
  (events.filterMap (heardFrom ip)).getLast?

def request : ArpEvent → Option (UInt32 × ℕ)
  | .asked ip time => some (ip, time)
  | _ => none

/-- Whatever is sent goes to the address last heard from its next hop, less than 30 seconds
ago. -/
def Fresh (events : List ArpEvent) : Prop :=
  ∀ pre post nextHop dst time, events = pre ++ .sent nextHop dst time :: post →
    ∃ heardAt, lastHeard nextHop pre = some (dst, heardAt) ∧ time < heardAt + 30000

/-- Any two requests for an address are at least 5 seconds apart. -/
def Spaced (events : List ArpEvent) : Prop :=
  (events.filterMap request).Pairwise fun c d => c.1 = d.1 → c.2 + 5000 ≤ d.2

variable {events : List ArpEvent} {e : ArpEvent} {ip : UInt32}

theorem lastHeard_concat_of_none (h : e.heardFrom ip = none) :
    lastHeard ip (events ++ [e]) = lastHeard ip events := by
  simp [lastHeard, h]

theorem lastHeard_concat_of_some {c : EthernetAddress × ℕ} (h : e.heardFrom ip = some c) :
    lastHeard ip (events ++ [e]) = some c := by
  simp [lastHeard, h]

theorem Fresh.concat (h : Fresh events)
    (he : ∀ nextHop dst time, e = .sent nextHop dst time →
      ∃ heardAt, lastHeard nextHop events = some (dst, heardAt) ∧ time < heardAt + 30000) :
    Fresh (events ++ [e]) := by
  intro pre post nextHop dst time heq
  rcases List.eq_nil_or_concat post with rfl | ⟨post, e', rfl⟩
  · obtain ⟨rfl, hlast⟩ := List.append_inj' heq rfl
    exact he nextHop dst time (List.singleton_inj.mp hlast)
  · have hsplit : events ++ [e] = (pre ++ .sent nextHop dst time :: post) ++ [e'] := by
      rw [heq]
      simp
    obtain ⟨hinit, -⟩ := List.append_inj' hsplit rfl
    exact h pre post nextHop dst time hinit

theorem Spaced.other (h : Spaced events) (he : e.request = none) : Spaced (events ++ [e]) := by
  unfold Spaced at h ⊢
  simpa [he] using h

theorem Spaced.asked {time : ℕ} (h : Spaced events)
    (he : ∀ c ∈ events.filterMap request, c.1 = ip → c.2 + 5000 ≤ time) :
    Spaced (events ++ [.asked ip time]) := by
  unfold Spaced at h ⊢
  have hlast : [ArpEvent.asked ip time].filterMap request = [(ip, time)] := rfl
  rw [List.filterMap_append, hlast]
  refine List.pairwise_append.mpr ⟨h, List.pairwise_singleton .., ?_⟩
  intro c hc d hd hip
  obtain rfl := List.mem_singleton.mp hd
  exact he c hc hip

theorem Fresh.sends {time heardAt : ℕ} {dst : EthernetAddress} (h : Fresh events)
    (hheard : lastHeard ip events = some (dst, heardAt)) (htime : time < heardAt + 30000) (n : ℕ) :
    Fresh (events ++ List.replicate n (sent ip dst time)) ∧
      (∀ a, lastHeard a (events ++ List.replicate n (sent ip dst time)) = lastHeard a events) ∧
      (events ++ List.replicate n (sent ip dst time)).filterMap request =
        events.filterMap request := by
  have hquiet : ∀ n a, lastHeard a (events ++ List.replicate n (sent ip dst time)) =
      lastHeard a events := by
    intro n a
    rw [lastHeard, List.filterMap_append, List.filterMap_replicate_of_none rfl, List.append_nil]
    rfl
  refine ⟨?_, hquiet n, ?_⟩
  · induction n with
    | zero => simpa using h
    | succ n ih =>
      rw [List.replicate_succ', ← List.append_assoc]
      apply ih.concat
      intro nextHop dst' time' heq
      obtain ⟨rfl, rfl, rfl⟩ := ArpEvent.sent.inj heq
      exact ⟨heardAt, (hquiet n _).trans hheard, htime⟩
  · rw [List.filterMap_append, List.filterMap_replicate_of_none rfl, List.append_nil]

/-- What a frame tells that is emitted for the next hop `ip`. -/
def ofFrame (ip : UInt32) (time : ℕ) (f : EthernetFrame) : Option ArpEvent :=
  if f.header.type = EthernetHeader.typeIPv4 then some (.sent ip f.header.dst time)
  else if (NetworkInterface.arpMessage f).opcode = ARPMessage.opcodeRequest then
    some (.asked (NetworkInterface.arpMessage f).targetIpAddress time)
  else none

/-- What an interface hears in an operation. -/
def heardIn (i : NetworkInterface) (time : ℕ) : NetworkInterface.Op → List ArpEvent
  | .recv ef =>
    ((i.hears ef).map fun am => .heard am.senderIpAddress am.senderEthernetAddress time).toList
  | _ => []

theorem ofFrame_goesTo {f : EthernetFrame} {dst : EthernetAddress} {time : ℕ}
    (h : f.GoesTo dst) : ofFrame ip time f = some (.sent ip dst time) := by
  rw [ofFrame, if_pos h.type, h.dst]

theorem ofFrame_asking {f : EthernetFrame} {time : ℕ} (i : NetworkInterface) (a : UInt32)
    (htype : f.header.type = EthernetHeader.typeARP)
    (h : NetworkInterface.arpMessage f = i.arpRequest ip) :
    ofFrame a time f = some (.asked ip time) := by
  rw [ofFrame, if_neg (by rw [htype]; decide), h]
  rfl

theorem ofFrame_reply {f : EthernetFrame} {time : ℕ} (a : UInt32)
    (htype : f.header.type = EthernetHeader.typeARP)
    (h : (NetworkInterface.arpMessage f).opcode = ARPMessage.opcodeReply) :
    ofFrame a time f = none := by
  rw [ofFrame, if_neg (by rw [htype]; decide), if_neg (by rw [h]; decide)]

end ArpEvent

/-- An interface with the time that has passed and what has happened. -/
structure TimedTrace where
  interface : NetworkInterface
  elapsed : ℕ := 0
  events : List ArpEvent := []
  deriving DecidableEq, Repr

namespace TimedTrace

open NetworkInterface ArpEvent

def new (ethernetAddress : EthernetAddress) (ipAddress : Address) : TimedTrace :=
  { interface := .new ethernetAddress ipAddress }

/-- Perform an operation, and note what is heard and what the emitted frames tell. -/
def step (t : TimedTrace) (o : Op) : TimedTrace :=
  let i := t.interface.perform o
  { interface := i
    elapsed := t.elapsed + o.ms
    events := t.events ++ heardIn t.interface t.elapsed o ++
      (i.framesOut.drop t.interface.framesOut.length).filterMap (ofFrame o.address t.elapsed) }

/-- The clock stays 5 seconds away from the end of its 64 bits. -/
def ClockFits (t : TimedTrace) (o : Op) : Prop := t.elapsed + o.ms + 5000 < 2 ^ 64

/-- The tables tell what was heard and asked, as long as it matters. -/
structure Timely (t : TimedTrace) : Prop where
  clock : t.interface.now = t.elapsed
  fits : t.elapsed + 5000 < 2 ^ 64
  known : ∀ c ∈ t.interface.cache, lastHeard c.1 t.events = some c.2 ∧ t.elapsed < c.2.2 + 30000
  noted : ∀ c ∈ t.events.filterMap request,
    c.2 ≤ t.elapsed ∧ (c ∈ t.interface.cooldown ∨ c.2 + 5000 ≤ t.elapsed)
  fresh : Fresh t.events
  spaced : Spaced t.events

variable {t : TimedTrace} {ip : UInt32}

theorem Timely.new (ethernetAddress : EthernetAddress) (ipAddress : Address) :
    (new ethernetAddress ipAddress).Timely where
  clock := rfl
  fits := by simp [TimedTrace.new]
  known := by simp [TimedTrace.new, NetworkInterface.new]
  noted := by simp [TimedTrace.new]
  fresh := by
    rintro pre post nextHop dst time heq
    simp [TimedTrace.new] at heq
  spaced := List.Pairwise.nil

theorem Timely.quiet {ms : ℕ} {i : NetworkInterface} (h : t.Timely)
    (hclock : i.now = t.elapsed + ms) (hfits : t.elapsed + ms + 5000 < 2 ^ 64)
    (hcache : ∀ c ∈ i.cache, c ∈ t.interface.cache ∧ t.elapsed + ms < c.2.2 + 30000)
    (hcooldown : ∀ c ∈ t.interface.cooldown, c.2 ≤ t.elapsed →
      c ∈ i.cooldown ∨ c.2 + 5000 ≤ t.elapsed + ms) :
    Timely { interface := i, elapsed := t.elapsed + ms, events := t.events } where
  clock := hclock
  fits := hfits
  known c hc := ⟨(h.known c (hcache c hc).1).1, (hcache c hc).2⟩
  noted c hc := by
    obtain ⟨hle, hcool | hlong⟩ := h.noted c hc
    · exact ⟨hle.trans (Nat.le_add_right ..), hcooldown c hcool hle⟩
    · exact ⟨hle.trans (Nat.le_add_right ..), Or.inr (hlong.trans (Nat.le_add_right ..))⟩
  fresh := h.fresh
  spaced := h.spaced

theorem Timely.tick (h : t.Timely) (ms : ℕ) (hfits : t.elapsed + ms + 5000 < 2 ^ 64) :
    Timely { interface := t.interface.tick ms, elapsed := t.elapsed + ms, events := t.events } := by
  have hnow : (t.interface.tick ms).now = t.elapsed + ms := by
    rw [← h.clock] at hfits ⊢
    exact Nat.mod_eq_of_lt (by omega)
  refine h.quiet hnow hfits (fun c hc => ?_) (fun c hc hle => ?_)
  · obtain ⟨hmem, hlater⟩ := List.mem_filter.mp hc
    refine ⟨hmem, ?_⟩
    have hlt : (t.interface.tick ms).now < (c.2.2 + 30000) % 2 ^ 64 := of_decide_eq_true hlater
    have hmod := Nat.mod_le (c.2.2 + 30000) (2 ^ 64)
    omega
  · by_cases hlater : (t.interface.tick ms).now < (c.2 + 5000) % 2 ^ 64
    · exact Or.inl (List.mem_filter.mpr ⟨hc, decide_eq_true hlater⟩)
    · right
      rw [hnow, Nat.mod_eq_of_lt (by omega)] at hlater
      omega

theorem Timely.sends {entry : EthernetAddress × ℕ} {frames : List EthernetFrame} (h : t.Timely)
    (hcache : t.interface.cache.lookup ip = some entry) :
    Timely {
      interface := { t.interface with framesOut := t.interface.framesOut ++ frames }
      elapsed := t.elapsed
      events := t.events ++ [.sent ip entry.1 t.elapsed] } := by
  obtain ⟨l, l', hl, -⟩ := List.lookup_eq_some_iff.mp hcache
  obtain ⟨hheard, hfresh⟩ := h.known (ip, entry) (by simp [hl])
  obtain ⟨hfresh', hsame, hrequest⟩ := h.fresh.sends hheard hfresh 1
  exact
    { clock := h.clock
      fits := h.fits
      known := fun c hc => ⟨(hsame c.1).trans (h.known c hc).1, (h.known c hc).2⟩
      noted := fun c hc => h.noted c (hrequest ▸ hc)
      fresh := hfresh'
      spaced := h.spaced.other rfl }

theorem Timely.asks {i : NetworkInterface} (h : t.Timely)
    (hcooldown : t.interface.cooldown.lookup ip = none) (hclock : i.now = t.interface.now)
    (hcache : i.cache = t.interface.cache)
    (hi : i.cooldown = mapInsert ip t.interface.now t.interface.cooldown) :
    Timely {
      interface := i, elapsed := t.elapsed, events := t.events ++ [.asked ip t.elapsed] } := by
  have hinsert : i.cooldown = t.interface.cooldown ++ [(ip, t.elapsed)] := by
    rw [hi, mapInsert, hcooldown, h.clock]
    rfl
  have hrequest : (t.events ++ [asked ip t.elapsed]).filterMap request =
      t.events.filterMap request ++ [(ip, t.elapsed)] := by
    rw [List.filterMap_append]
    rfl
  exact
    { clock := hclock.trans h.clock
      fits := h.fits
      known := fun c hc => by
        obtain ⟨hheard, hfresh⟩ := h.known c (hcache ▸ hc)
        exact ⟨(lastHeard_concat_of_none rfl).trans hheard, hfresh⟩
      noted := fun c hc => by
        rw [hrequest] at hc
        rw [hinsert]
        rcases List.mem_append.mp hc with hc | hc
        · exact ⟨(h.noted c hc).1, (h.noted c hc).2.imp_left (List.mem_append_left _)⟩
        · obtain rfl := List.mem_singleton.mp hc
          exact ⟨le_rfl, Or.inl (List.mem_append_right _ (List.mem_singleton_self _))⟩
      fresh := h.fresh.concat (by simp)
      spaced := h.spaced.asked fun c hc hip => by
        obtain ⟨-, hcool | hlong⟩ := h.noted c hc
        · have hne := List.lookup_eq_none_iff.mp hcooldown c hcool
          simp [hip] at hne
        · exact hlong }

theorem Timely.hears (h : t.Timely) (am : ARPMessage) (frames : List EthernetFrame)
    (pending : List (UInt32 × IPv4Datagram)) (n : ℕ) :
    Timely {
      interface := { t.interface.learned am frames with pending := pending }
      elapsed := t.elapsed
      events := t.events ++ .heard am.senderIpAddress am.senderEthernetAddress t.elapsed ::
        List.replicate n (.sent am.senderIpAddress am.senderEthernetAddress t.elapsed) } := by
  rw [List.append_cons]
  set e := heard am.senderIpAddress am.senderEthernetAddress t.elapsed
  have hself : lastHeard am.senderIpAddress (t.events ++ [e]) =
      some (am.senderEthernetAddress, t.elapsed) := lastHeard_concat_of_some (if_pos rfl)
  have hfresh : Fresh (t.events ++ [e]) := h.fresh.concat (by simp [e])
  obtain ⟨hfresh', hsame, hrequest⟩ := hfresh.sends hself (Nat.lt_add_of_pos_right (by decide)) n
  have hother : (t.events ++ [e]).filterMap request = t.events.filterMap request := by
    rw [List.filterMap_append]
    exact List.append_nil _
  exact
    { clock := h.clock
      fits := h.fits
      known := fun c hc => by
        simp only [hsame]
        rcases mem_mapInsert_mapErase hc with ⟨hne, hc⟩ | rfl
        · obtain ⟨hheard, hlater⟩ := h.known c hc
          have hsilent : e.heardFrom c.1 = none := if_neg hne.symm
          exact ⟨(lastHeard_concat_of_none hsilent).trans hheard, hlater⟩
        · rw [h.clock]
          exact ⟨hself, Nat.lt_add_of_pos_right (by decide)⟩
      noted := fun c hc => h.noted c (hother ▸ hrequest ▸ hc)
      fresh := hfresh'
      spaced := by
        unfold Spaced
        rw [hrequest]
        exact h.spaced.other rfl }

theorem step_eq {o : Op} {i : NetworkInterface} {events : List ArpEvent}
    (frames : List EthernetFrame) (h : t.interface.perform o = i)
    (hout : i.framesOut = t.interface.framesOut ++ frames)
    (hevents : heardIn t.interface t.elapsed o ++
      frames.filterMap (ofFrame o.address t.elapsed) = events) :
    t.step o = {
      interface := i, elapsed := t.elapsed + o.ms, events := t.events ++ events } := by
  rw [TimedTrace.step, h, hout, List.drop_left, List.append_assoc, hevents]

/-- Within the range of the clock, every operation keeps the tables right. -/
theorem Timely.step (h : t.Timely) {o : Op} (ho : t.ClockFits o) : (t.step o).Timely := by
  have hquiet : o.ms = 0 → heardIn t.interface t.elapsed o = [] →
      t.interface.perform o = t.interface → (t.step o).Timely := by
    intro hms hheard hsame
    have htells : heardIn t.interface t.elapsed o ++
        [].filterMap (ofFrame o.address t.elapsed) = [] := by simp [hheard]
    rw [step_eq [] hsame (List.append_nil _).symm htells, hms, List.append_nil]
    exact h
  cases o with
  | send d hop =>
    rcases t.interface.perform_send d hop with
      ⟨entry, f, hcache, hf, hsend⟩ | hsend | ⟨f, hcool, htype, hrequest, hsend⟩
    · have htells : [f].filterMap (ofFrame hop.ipv4Numeric t.elapsed) =
          [.sent hop.ipv4Numeric entry.1 t.elapsed] := by
        simp [ofFrame_goesTo hf]
      rw [step_eq [f] hsend rfl htells]
      exact h.sends hcache
    · exact hquiet rfl rfl hsend
    · have htells : [f].filterMap (ofFrame hop.ipv4Numeric t.elapsed) =
          [.asked hop.ipv4Numeric t.elapsed] := by
        simp [ofFrame_asking _ _ htype hrequest]
      rw [step_eq [f] hsend rfl htells]
      exact h.asks hcool rfl rfl rfl
  | recv ef =>
    rcases t.interface.perform_recv ef with ⟨hnone, hrecv⟩ |
      ⟨hheard, frames, replies, pending, hgo, hreply, hrecv⟩
    · exact hquiet rfl (by simp [heardIn, hnone]) hrecv
    · set am := arpMessage ef
      have hframes : frames.filterMap (ofFrame am.senderIpAddress t.elapsed) =
          List.replicate frames.length
            (.sent am.senderIpAddress am.senderEthernetAddress t.elapsed) := by
        rw [← List.map_const, ← List.filterMap_eq_map]
        exact List.filterMap_congr fun f hf => ofFrame_goesTo (hgo f hf)
      have hreplies : replies.filterMap (ofFrame am.senderIpAddress t.elapsed) = [] :=
        List.filterMap_eq_nil_iff.mpr fun f hf => ofFrame_reply _ (hreply f hf).1 (hreply f hf).2
      have htells : heardIn t.interface t.elapsed (.recv ef) ++
          (frames ++ replies).filterMap (ofFrame am.senderIpAddress t.elapsed) =
          .heard am.senderIpAddress am.senderEthernetAddress t.elapsed ::
            List.replicate frames.length
              (.sent am.senderIpAddress am.senderEthernetAddress t.elapsed) := by
        rw [heardIn, hheard, List.filterMap_append, hframes, hreplies, List.append_nil]
        rfl
      rw [step_eq (frames ++ replies) hrecv rfl htells]
      exact h.hears am _ pending _
  | tick ms =>
    have htick := h.tick ms ho
    rw [← List.append_nil t.events] at htick
    rw [step_eq [] (o := .tick ms) rfl (List.append_nil _).symm rfl]
    exact htick

theorem admitted_of_sum {os : List Op} (h : t.elapsed + (os.map Op.ms).sum + 5000 < 2 ^ 64) :
    Admitted TimedTrace.step ClockFits t os := by
  induction os generalizing t with
  | nil => trivial
  | cons o os ih =>
    rw [List.map_cons, List.sum_cons] at h
    refine ⟨?_, ih ?_⟩
    · unfold ClockFits
      omega
    · simp only [TimedTrace.step]
      omega

/-- As long as the clock does not reach the last 5 seconds of its 64 bits, datagrams go only to
addresses heard in the last 30 seconds, and requests for an address are 5 seconds apart. -/
theorem fresh_and_spaced (ethernetAddress : EthernetAddress) (ipAddress : Address) {os : List Op}
    (h : (os.map Op.ms).sum + 5000 < 2 ^ 64) :
    Fresh (run step (new ethernetAddress ipAddress) os).events ∧
      Spaced (run step (new ethernetAddress ipAddress) os).events := by
  have hfits : Admitted step ClockFits (new ethernetAddress ipAddress) os :=
    admitted_of_sum (by simpa [new] using h)
  have htimely : Timely (run step (new ethernetAddress ipAddress) os) :=
    hfits.invariant (fun t o ht ho => ht.step ho) (.new ethernetAddress ipAddress)
  exact ⟨htimely.fresh, htimely.spaced⟩

/-- The address is asked for twice, heard, and used until 30 seconds have passed. -/
theorem fresh_and_spaced_reply :
    let hop : Address := { ip := 0x0A000001 }
    let d : IPv4Datagram := { header := { len := 20 } }
    let reply : EthernetFrame := {
      header := { dst := ethernetBroadcast, type := EthernetHeader.typeARP }
      payload := [[0, 1, 8, 0, 6, 4, 0, 2, 2, 2, 2, 2, 2, 2, 10, 0, 0, 1,
        1, 1, 1, 1, 1, 1, 10, 0, 0, 9]] }
    let os := [Op.send d hop, .tick 5000, .send d hop, .recv reply, .tick 29999, .send d hop,
      .tick 1, .send d hop]
    let t := run step (new #v[1, 1, 1, 1, 1, 1] { ip := 0x0A000009 }) os
    Fresh t.events ∧ Spaced t.events :=
  fresh_and_spaced _ _ (by decide)

/-- The clock wraps, and an address is used long after it was heard. -/
theorem stale_clock_wraps :
    let hop : Address := { ip := 0x0A000001 }
    let d : IPv4Datagram := { header := { len := 20 } }
    let reply : EthernetFrame := {
      header := { dst := ethernetBroadcast, type := EthernetHeader.typeARP }
      payload := [[0, 1, 8, 0, 6, 4, 0, 2, 2, 2, 2, 2, 2, 2, 10, 0, 0, 1,
        1, 1, 1, 1, 1, 1, 10, 0, 0, 9]] }
    let os := [Op.tick 10, .recv reply, .tick (2 ^ 64 - 5), .send d hop]
    let t := run step (new #v[1, 1, 1, 1, 1, 1] { ip := 0x0A000009 }) os
    t.events = [.heard hop.ip #v[2, 2, 2, 2, 2, 2] 10,
      .sent hop.ip #v[2, 2, 2, 2, 2, 2] (2 ^ 64 + 5)] ∧ ¬ Fresh t.events := by
  intro hop d reply os t
  have hevents : t.events = [.heard hop.ip #v[2, 2, 2, 2, 2, 2] 10,
      .sent hop.ip #v[2, 2, 2, 2, 2, 2] (2 ^ 64 + 5)] := by decide +kernel
  refine ⟨hevents, fun h => ?_⟩
  obtain ⟨heardAt, hlast, htime⟩ := h [_] [] _ _ _ hevents
  obtain ⟨-, rfl⟩ := Prod.mk.inj (Option.some.inj hlast)
  omega

end TimedTrace

end Sponge
