import Sponge.Interface.Basic
import Sponge.Library.Runs

/-! # Delivery by the network interface

A datagram is sent at once or waits, and what waits for an address is sent when the
address is learned. Only a datagram that comes while a request is out is forgotten.
-/

namespace Sponge

open Runs

/-- The frame carries the datagram. -/
structure EthernetFrame.Carries (f : EthernetFrame) (d : IPv4Datagram) : Prop where
  type : f.header.type = EthernetHeader.typeIPv4
  payload : d.serialize = .ok f.payload

/-- The entries of a list that belong to the address `ip`, in their order. -/
def entriesFor {β : Type} (ip : UInt32) (l : List (UInt32 × β)) : List β :=
  (l.filter fun c => c.1 == ip).map Prod.snd

section Entries

variable {β : Type} {ip a : UInt32} {l l' : List (UInt32 × β)}

@[simp] theorem entriesFor_append :
    entriesFor ip (l ++ l') = entriesFor ip l ++ entriesFor ip l' := by
  simp [entriesFor]

@[simp] theorem entriesFor_self (xs : List β) : entriesFor ip (xs.map (ip, ·)) = xs := by
  induction xs with
  | nil => rfl
  | cons x xs ih => simpa [entriesFor] using ih

theorem entriesFor_other (h : a ≠ ip) (xs : List β) : entriesFor ip (xs.map (a, ·)) = [] := by
  simp [entriesFor, h]

@[simp] theorem entriesFor_mapErase_self : entriesFor ip (mapErase ip l) = [] := by
  simp [entriesFor, mapErase]

theorem entriesFor_mapErase_other (h : a ≠ ip) :
    entriesFor ip (mapErase a l) = entriesFor ip l := by
  rw [entriesFor, entriesFor, mapErase, List.filter_filter]
  congr 1
  apply List.filter_congr
  intro c _
  by_cases hc : c.1 = ip
  · simp [hc, h.symm]
  · simp [hc]

theorem lookup_isSome_of_filter {p : UInt32 × β → Bool} (h : ((l.filter p).lookup ip).isSome) :
    (l.lookup ip).isSome := by
  rw [List.lookup_isSome_iff] at h ⊢
  obtain ⟨c, hc, hip⟩ := h
  exact ⟨c, List.mem_of_mem_filter hc, hip⟩

theorem lookup_isSome_of_mapInsert {v : β} (h : ((mapInsert a v l).lookup ip).isSome)
    (hne : a ≠ ip) : (l.lookup ip).isSome := by
  unfold mapInsert at h
  split_ifs at h
  · exact h
  · rw [List.lookup_isSome_iff] at h ⊢
    obtain ⟨c, hc, hip⟩ := h
    rcases List.mem_append.mp hc with hc | hc
    · exact ⟨c, hc, hip⟩
    · rw [List.mem_singleton.mp hc] at hip
      exact absurd (eq_of_beq hip).symm hne

end Entries

namespace NetworkInterface

variable {i : NetworkInterface} {d : IPv4Datagram} {hop : Address} {ef : EthernetFrame}

/-- All that waits can be serialized. -/
def Ready (i : NetworkInterface) : Prop := ∀ c ∈ i.pending, ∃ bs, c.2.serialize = .ok bs

theorem waiting_eq (ip : UInt32) : i.waiting ip = entriesFor ip i.pending := rfl

theorem ipv4Frame_ok (dst : EthernetAddress) (h : ∃ bs, d.serialize = .ok bs) :
    ∃ f, i.ipv4Frame dst d = .ok f ∧ f.Carries d := by
  obtain ⟨bs, hbs⟩ := h
  rw [ipv4Frame, hbs]
  exact ⟨_, rfl, rfl, hbs⟩

theorem arpFrame_ok (dst : EthernetAddress) {m : ARPMessage} (h : m.supported = true) :
    ∃ f, i.arpFrame dst m = .ok f ∧ f.header.type = EthernetHeader.typeARP := by
  obtain ⟨b, hb⟩ := m.serialize_ok h
  rw [arpFrame, hb]
  exact ⟨_, rfl, rfl⟩

/-- A datagram is sent, forgotten, or kept until a request is answered. -/
theorem sendDatagram_cases (hop : Address) (h : ∃ bs, d.serialize = .ok bs) :
    (∃ f, (i.cache.lookup hop.ipv4Numeric).isSome ∧ f.Carries d ∧
      i.sendDatagram d hop = .ok { i with framesOut := i.framesOut ++ [f] }) ∨
    (i.cache.lookup hop.ipv4Numeric = none ∧ (i.cooldown.lookup hop.ipv4Numeric).isSome ∧
      i.sendDatagram d hop = .ok i) ∨
    (∃ f, i.cache.lookup hop.ipv4Numeric = none ∧ i.cooldown.lookup hop.ipv4Numeric = none ∧
      f.header.type = EthernetHeader.typeARP ∧
      i.sendDatagram d hop = .ok {
        i with
        pending := i.pending ++ [(hop.ipv4Numeric, d)]
        cooldown := mapInsert hop.ipv4Numeric i.now i.cooldown
        framesOut := i.framesOut ++ [f] }) := by
  cases hcache : i.cache.lookup hop.ipv4Numeric with
  | some entry =>
    obtain ⟨f, hf, hcarries⟩ := i.ipv4Frame_ok entry.1 h
    refine Or.inl ⟨f, rfl, hcarries, ?_⟩
    simp only [sendDatagram, hcache, hf]
    rfl
  | none =>
    cases hcool : i.cooldown.lookup hop.ipv4Numeric with
    | some t => exact Or.inr (Or.inl ⟨rfl, rfl, by simp [sendDatagram, hcache, hcool]⟩)
    | none =>
      obtain ⟨f, hf, htype⟩ := i.arpFrame_ok ethernetBroadcast
        (m := i.arpRequest hop.ipv4Numeric) rfl
      refine Or.inr (Or.inr ⟨f, rfl, rfl, htype, ?_⟩)
      simp only [sendDatagram, hcache, hcool, hf]
      rfl

/-- What an interface has learned from an ARP message, once it has sent some frames. -/
def learned (i : NetworkInterface) (am : ARPMessage) (frames : List EthernetFrame) :
    NetworkInterface :=
  { i with
    cache := mapInsert am.senderIpAddress (am.senderEthernetAddress, i.now)
      (mapErase am.senderIpAddress i.cache)
    pending := mapErase am.senderIpAddress i.pending
    framesOut := i.framesOut ++ frames }

theorem waiting_learned_self (am : ARPMessage) (frames : List EthernetFrame) :
    (i.learned am frames).waiting am.senderIpAddress = [] := entriesFor_mapErase_self

theorem waiting_learned_other {am : ARPMessage} {ip : UInt32} (h : am.senderIpAddress ≠ ip)
    (frames : List EthernetFrame) : (i.learned am frames).waiting ip = i.waiting ip :=
  entriesFor_mapErase_other h

theorem learn_ok (h : i.Ready) (am : ARPMessage) :
    ∃ frames, i.learn am = .ok (i.learned am frames) ∧
      List.Forall₂ (fun d f => f.Carries d) (i.waiting am.senderIpAddress) frames := by
  have hframe : ∀ d ∈ i.waiting am.senderIpAddress, ∃ f,
      i.ipv4Frame am.senderEthernetAddress d = .ok f ∧ f.Carries d := by
    intro d hd
    obtain ⟨c, hc, rfl⟩ := List.mem_map.mp hd
    exact i.ipv4Frame_ok _ (h c (List.mem_of_mem_filter hc))
  obtain ⟨frames, hframes, hall⟩ := mapM_ok fun d hd => (hframe d hd).imp fun f hf => hf.1
  refine ⟨frames, ?_, ?_⟩
  · rw [learn, hframes]
    rfl
  · rw [List.forall₂_iff_get] at hall ⊢
    refine ⟨hall.1, fun n hn hn' => ?_⟩
    obtain ⟨f, hf, hcarries⟩ := hframe _ (List.get_mem _ ⟨n, hn⟩)
    have heq := hall.2 n hn hn'
    rw [hf] at heq
    rwa [← Except.ok.inj heq]

/-- The ARP message in a frame. -/
def arpMessage (ef : EthernetFrame) : ARPMessage := (({} : ARPMessage).parse (frontBuffer ef)).2

theorem arpMessage_of_arpFrame {m : ARPMessage} (hm : m.supported = true)
    {dst : EthernetAddress} {f : EthernetFrame}
    (h : i.arpFrame dst m = .ok f) : arpMessage f = m := by
  obtain ⟨b, hserialize, hparse⟩ := ARPMessage.parse_bytes {} hm
  rw [arpFrame, hserialize] at h
  obtain rfl := Except.ok.inj h
  exact congrArg Prod.snd hparse

theorem recvFrame_arp (haccept : i.accepts ef = true)
    (htype : ef.header.type = EthernetHeader.typeARP)
    (hparse : (({} : ARPMessage).parse (frontBuffer ef)).1 = .noError) :
    i.recvFrame ef = (do
      let i' ← i.learn (arpMessage ef)
      if (arpMessage ef).opcode ≠ ARPMessage.opcodeRequest ∨
          (arpMessage ef).targetIpAddress ≠ i'.ipAddress.ipv4Numeric then
        return (i', none)
      else
        let reply ← i'.arpFrame ef.header.src (i'.arpReply (arpMessage ef))
        return ({ i' with framesOut := i'.framesOut ++ [reply] }, none)) := by
  have hkeep : ¬ ((ef.header.type ≠ EthernetHeader.typeARP ∧
      ef.header.type ≠ EthernetHeader.typeIPv4) ∨ i.accepts ef = false) := by
    simp [haccept, htype]
  have harp : ¬ ef.header.type = EthernetHeader.typeIPv4 := by
    rw [htype]
    decide
  rw [recvFrame, if_neg hkeep, if_neg harp]
  simp only [hparse]
  rfl

theorem recvFrame_learned {frames : List EthernetFrame} (haccept : i.accepts ef = true)
    (htype : ef.header.type = EthernetHeader.typeARP)
    (hparse : (({} : ARPMessage).parse (frontBuffer ef)).1 = .noError)
    (hlearn : i.learn (arpMessage ef) = .ok (i.learned (arpMessage ef) frames)) :
    ∃ replies, (∀ f ∈ replies, f.header.type = EthernetHeader.typeARP ∧
        (arpMessage f).opcode = ARPMessage.opcodeReply) ∧
      i.recvFrame ef = .ok (i.learned (arpMessage ef) (frames ++ replies), none) := by
  rw [recvFrame_arp haccept htype hparse, hlearn]
  simp only [bind, Except.bind]
  split_ifs with hreq
  · exact ⟨[], by simp, by rw [List.append_nil]; rfl⟩
  · obtain ⟨f, hf, hftype⟩ := (i.learned (arpMessage ef) frames).arpFrame_ok ef.header.src
      (m := (i.learned (arpMessage ef) frames).arpReply (arpMessage ef)) rfl
    refine ⟨[f], ?_, ?_⟩
    · intro g hg
      obtain rfl := List.mem_singleton.mp hg
      exact ⟨hftype, congrArg ARPMessage.opcode (arpMessage_of_arpFrame rfl hf)⟩
    · simp only [hf]
      rw [learned, learned, List.append_assoc]
      rfl

theorem recvFrame_unheard (h : ¬ (i.accepts ef = true ∧
      ef.header.type = EthernetHeader.typeARP ∧
      (({} : ARPMessage).parse (frontBuffer ef)).1 = .noError)) :
    i.recvFrame ef = .ok (i, none) ∨
    (i.accepts ef = true ∧ ef.header.type = EthernetHeader.typeIPv4 ∧
      (({} : IPv4Datagram).parse (frontBuffer ef)).1 = .noError ∧
      i.recvFrame ef = .ok (i, some (({} : IPv4Datagram).parse (frontBuffer ef)).2)) := by
  unfold recvFrame
  split_ifs with hdrop hip
  · exact Or.inl rfl
  · have haccept : i.accepts ef = true := by
      by_contra hno
      exact hdrop (Or.inr (Bool.eq_false_iff.mpr hno))
    by_cases herr : (({} : IPv4Datagram).parse (frontBuffer ef)).1 = .noError
    · exact Or.inr ⟨haccept, hip, herr, if_neg (not_not_intro herr)⟩
    · exact Or.inl (if_pos herr)
  · refine Or.inl (if_pos fun herr => h ⟨?_, ?_, herr⟩)
    · by_contra hno
      exact hdrop (Or.inr (Bool.eq_false_iff.mpr hno))
    · by_contra hno
      exact hdrop (Or.inl ⟨hno, hip⟩)

/-- A frame brings nothing, a datagram, or an address and perhaps a request for one. -/
theorem recvFrame_cases (h : i.Ready) (ef : EthernetFrame) :
    i.recvFrame ef = .ok (i, none) ∨
    (i.accepts ef = true ∧ ef.header.type = EthernetHeader.typeIPv4 ∧
      (({} : IPv4Datagram).parse (frontBuffer ef)).1 = .noError ∧
      i.recvFrame ef = .ok (i, some (({} : IPv4Datagram).parse (frontBuffer ef)).2)) ∨
    (∃ frames replies,
      List.Forall₂ (fun d f => f.Carries d) (i.waiting (arpMessage ef).senderIpAddress) frames ∧
      (∀ f ∈ replies, f.header.type = EthernetHeader.typeARP) ∧
      i.recvFrame ef = .ok (i.learned (arpMessage ef) (frames ++ replies), none)) := by
  by_cases hheard : i.accepts ef = true ∧ ef.header.type = EthernetHeader.typeARP ∧
      (({} : ARPMessage).parse (frontBuffer ef)).1 = .noError
  · obtain ⟨haccept, htype, hparse⟩ := hheard
    obtain ⟨frames, hlearn, hall⟩ := learn_ok h (arpMessage ef)
    obtain ⟨replies, hreplies, hrecv⟩ := recvFrame_learned haccept htype hparse hlearn
    exact Or.inr (Or.inr ⟨frames, replies, hall, fun f hf => (hreplies f hf).1, hrecv⟩)
  · rcases recvFrame_unheard hheard with hrecv | hrecv
    · exact Or.inl hrecv
    · exact Or.inr (Or.inl hrecv)

/-- An operation on an interface. -/
inductive Op
  | send (dgram : IPv4Datagram) (nextHop : Address)
  | recv (ef : EthernetFrame)
  | tick (ms : ℕ)
  deriving DecidableEq, Repr

def step (i : NetworkInterface) : Op → Except String NetworkInterface
  | .send dgram nextHop => i.sendDatagram dgram nextHop
  | .recv ef => (i.recvFrame ef).map Prod.fst
  | .tick ms => .ok (i.tick ms)

/-- The datagram that is passed to the interface, with the address of its next hop. -/
def Op.passed : Op → List (UInt32 × IPv4Datagram)
  | .send dgram nextHop => [(nextHop.ipv4Numeric, dgram)]
  | .recv _ => []
  | .tick _ => []

/-- The address for which an operation can emit datagrams. -/
def Op.address : Op → UInt32
  | .send _ nextHop => nextHop.ipv4Numeric
  | .recv ef => (arpMessage ef).senderIpAddress
  | .tick _ => 0

/-- The datagram that is passed to the interface can be serialized. -/
def Op.Sendable (o : Op) : Prop := ∀ c ∈ o.passed, ∃ bs, c.2.serialize = .ok bs

end NetworkInterface

/-- An interface with the datagrams passed to it and the frames that it emitted with datagrams, each
with the address that it is for. -/
structure InterfaceTrace where
  interface : NetworkInterface
  passed : List (UInt32 × IPv4Datagram) := []
  emitted : List (UInt32 × EthernetFrame) := []
  deriving DecidableEq, Repr

/-- The frames with datagrams. -/
def datagramFrames (frames : List EthernetFrame) : List EthernetFrame :=
  frames.filter fun f => f.header.type == EthernetHeader.typeIPv4

namespace InterfaceTrace

open NetworkInterface

def new (ethernetAddress : EthernetAddress) (ipAddress : Address) : InterfaceTrace :=
  { interface := .new ethernetAddress ipAddress }

/-- Perform an operation, and note the frames that it adds to the queue. -/
def step (t : InterfaceTrace) (o : Op) : Except String InterfaceTrace := do
  let i ← t.interface.step o
  let frames := datagramFrames (i.framesOut.drop t.interface.framesOut.length)
  return {
    interface := i
    passed := t.passed ++ o.passed
    emitted := t.emitted ++ frames.map (o.address, ·) }

/-- Each datagram for an address has been emitted or waits, in the order in which they came, and
none waits for an address that is known. -/
structure Exact (t : InterfaceTrace) : Prop where
  delivered : ∀ ip, ∃ ds, entriesFor ip t.passed = ds ++ t.interface.waiting ip ∧
    List.Forall₂ (fun d f => f.Carries d) ds (entriesFor ip t.emitted)
  settled : ∀ ip, (t.interface.cache.lookup ip).isSome → t.interface.waiting ip = []

/-- A datagram is not sent while the request for its next hop is out. -/
def NoRequestOut (t : InterfaceTrace) : Op → Prop
  | .send _ nextHop => (t.interface.cache.lookup nextHop.ipv4Numeric).isSome ∨
      t.interface.cooldown.lookup nextHop.ipv4Numeric = none
  | _ => True

instance (t : InterfaceTrace) : ∀ o, Decidable (t.NoRequestOut o)
  | .send _ _ => inferInstanceAs (Decidable (_ ∨ _))
  | .recv _ | .tick _ => instDecidableTrue

variable {t : InterfaceTrace} {i : NetworkInterface} {o : Op} {frames replies : List EthernetFrame}

theorem step_eq (frames : List EthernetFrame) (h : t.interface.step o = .ok i)
    (hout : i.framesOut = t.interface.framesOut ++ frames) :
    t.step o = .ok {
      interface := i
      passed := t.passed ++ o.passed
      emitted := t.emitted ++ (datagramFrames frames).map (o.address, ·) } := by
  rw [step, h]
  simp only [bind, Except.bind, hout, List.drop_left]
  rfl

theorem datagramFrames_replies (h : ∀ f ∈ replies, f.header.type = EthernetHeader.typeARP) :
    datagramFrames replies = [] := by
  apply List.filter_eq_nil_iff.mpr
  intro f hf
  rw [h f hf]
  decide

theorem datagramFrames_carriers {ds : List IPv4Datagram}
    (h : List.Forall₂ (fun d f => f.Carries d) ds frames) : datagramFrames frames = frames := by
  apply List.filter_eq_self.mpr
  intro f hf
  induction h with
  | nil => simp at hf
  | cons hcarries _ ih =>
    rcases List.mem_cons.mp hf with rfl | hf
    · simp [hcarries.type]
    · exact ih hf

theorem Exact.new (ethernetAddress : EthernetAddress) (ipAddress : Address) :
    (new ethernetAddress ipAddress).Exact :=
  ⟨fun _ => ⟨[], rfl, .nil⟩, fun _ _ => rfl⟩

theorem Exact.sent {d : IPv4Datagram} {f : EthernetFrame} {ip : UInt32} (h : t.Exact)
    (hknown : (t.interface.cache.lookup ip).isSome) (hf : f.Carries d) :
    Exact {
      interface := { t.interface with framesOut := t.interface.framesOut ++ [f] }
      passed := t.passed ++ [(ip, d)], emitted := t.emitted ++ [(ip, f)] } := by
  refine ⟨fun a => ?_, h.settled⟩
  obtain ⟨ds, hpassed, hall⟩ := h.delivered a
  by_cases ha : ip = a
  · subst ha
    have hnone : t.interface.waiting ip = [] := h.settled ip hknown
    refine ⟨ds ++ [d], ?_, ?_⟩
    · have hnone' : entriesFor ip t.interface.pending = [] := hnone
      rw [hnone, List.append_nil] at hpassed
      rw [waiting_eq, hnone', entriesFor_append, hpassed, List.append_nil]
      exact congrArg (ds ++ ·) (entriesFor_self [d])
    · rw [entriesFor_append]
      exact List.rel_append hall (by simpa [entriesFor] using hf)
  · refine ⟨ds, ?_, ?_⟩
    · rw [entriesFor_append, hpassed]
      exact (congrArg _ (entriesFor_other ha [d])).trans (List.append_nil _)
    · rw [entriesFor_append]
      have hother : entriesFor a [(ip, f)] = [] := entriesFor_other ha [f]
      rwa [hother, List.append_nil]

theorem Exact.queued {d : IPv4Datagram} {ip : UInt32} (h : t.Exact)
    (hunknown : t.interface.cache.lookup ip = none) (hi : i.cache = t.interface.cache)
    (hpending : i.pending = t.interface.pending ++ [(ip, d)]) :
    Exact { interface := i, passed := t.passed ++ [(ip, d)], emitted := t.emitted } := by
  constructor
  · intro a
    obtain ⟨ds, hpassed, hall⟩ := h.delivered a
    refine ⟨ds, ?_, hall⟩
    rw [waiting_eq, hpending, entriesFor_append, entriesFor_append, hpassed, waiting_eq,
      List.append_assoc]
  · intro a ha
    simp only [hi] at ha
    have hne : ip ≠ a := by
      rintro rfl
      simp [hunknown] at ha
    rw [waiting_eq, hpending, entriesFor_append, ← waiting_eq, h.settled a ha]
    exact entriesFor_other hne [d]

theorem Exact.learned {am : ARPMessage} (h : t.Exact)
    (hall : List.Forall₂ (fun d f => f.Carries d) (t.interface.waiting am.senderIpAddress) frames) :
    Exact {
      interface := t.interface.learned am (frames ++ replies), passed := t.passed
      emitted := t.emitted ++ frames.map (am.senderIpAddress, ·) } := by
  constructor
  · intro a
    obtain ⟨ds, hpassed, hds⟩ := h.delivered a
    by_cases ha : am.senderIpAddress = a
    · subst ha
      refine ⟨ds ++ t.interface.waiting am.senderIpAddress, ?_, ?_⟩
      · rw [waiting_learned_self, List.append_nil]
        exact hpassed
      · rw [entriesFor_append, entriesFor_self]
        exact List.rel_append hds hall
    · refine ⟨ds, ?_, ?_⟩
      · rw [waiting_learned_other ha]
        exact hpassed
      · rwa [entriesFor_append, entriesFor_other ha, List.append_nil]
  · intro a ha
    by_cases hne : am.senderIpAddress = a
    · rw [← hne, waiting_learned_self]
    · rw [waiting_learned_other hne]
      exact h.settled a (lookup_isSome_of_filter (lookup_isSome_of_mapInsert ha hne))

/-- An operation on an interface that forgets no datagram fails on none, and loses, repeats and
reorders none. -/
theorem exact_step (h : t.interface.Ready ∧ t.Exact) (ho : o.Sendable) (hok : t.NoRequestOut o) :
    ∃ t', t.step o = .ok t' ∧ t'.interface.Ready ∧ t'.Exact := by
  obtain ⟨hready, hexact⟩ := h
  cases o with
  | send d hop =>
    have hd : ∃ bs, d.serialize = .ok bs := ho (hop.ipv4Numeric, d) (by simp [Op.passed])
    rcases sendDatagram_cases (i := t.interface) hop hd with
      ⟨f, hknown, hf, hsend⟩ | ⟨hnone, hcool, -⟩ | ⟨f, hnone, -, htype, hsend⟩
    · have hframes : datagramFrames [f] = [f] := datagramFrames_carriers (.cons hf .nil)
      refine ⟨_, step_eq [f] (o := .send d hop) hsend rfl, hready, ?_⟩
      rw [hframes]
      exact hexact.sent hknown hf
    · rcases hok with hok | hok
      · simp [hnone] at hok
      · simp [hok] at hcool
    · have hframes : datagramFrames [f] = [] := datagramFrames_replies (by simpa using htype)
      refine ⟨_, step_eq [f] (o := .send d hop) hsend rfl, ?_, ?_⟩
      · intro c hc
        rcases List.mem_append.mp hc with hc | hc
        · exact hready c hc
        · rw [List.mem_singleton.mp hc]
          exact hd
      · rw [hframes, List.map_nil, List.append_nil]
        exact hexact.queued hnone rfl rfl
  | recv ef =>
    have hquiet : ∀ dg, t.interface.recvFrame ef = .ok (t.interface, dg) →
        ∃ t', t.step (.recv ef) = .ok t' ∧ t'.interface.Ready ∧ t'.Exact := by
      intro dg hrecv
      have hstep : t.interface.step (.recv ef) = .ok t.interface := by
        rw [NetworkInterface.step, hrecv]
        rfl
      refine ⟨_, step_eq [] hstep (by simp), hready, ?_⟩
      simpa [datagramFrames, Op.passed] using hexact
    rcases recvFrame_cases hready ef with hrecv | ⟨-, -, -, hrecv⟩ |
      ⟨frames, replies, hall, htypes, hrecv⟩
    · exact hquiet _ hrecv
    · exact hquiet _ hrecv
    · have hstep : t.interface.step (.recv ef) =
          .ok (t.interface.learned (arpMessage ef) (frames ++ replies)) := by
        rw [NetworkInterface.step, hrecv]
        rfl
      have hframes : datagramFrames (frames ++ replies) = frames := by
        rw [datagramFrames, List.filter_append]
        exact (congrArg₂ _ (datagramFrames_carriers hall) (datagramFrames_replies htypes)).trans
          (List.append_nil _)
      refine ⟨_, step_eq (frames ++ replies) hstep rfl,
        fun c hc => hready c (List.mem_of_mem_filter hc), ?_⟩
      rw [hframes, Op.passed, List.append_nil]
      exact hexact.learned hall
  | tick ms =>
    refine ⟨_, step_eq [] (o := .tick ms) rfl (by simp [NetworkInterface.tick]), hready,
      ?_⟩
    rw [datagramFrames, List.filter_nil, List.map_nil, Op.passed, List.append_nil, List.append_nil]
    exact ⟨hexact.delivered, fun a ha => hexact.settled a (lookup_isSome_of_filter ha)⟩

variable {ethernetAddress : EthernetAddress} {ipAddress : Address} {os : List Op}

/-- An interface to which no datagram is passed while the request for its next hop is out loses,
repeats and reorders none. -/
theorem datagrams_delivered (hsend : ∀ o ∈ os, o.Sendable)
    (h : AdmittedE step NoRequestOut (new ethernetAddress ipAddress) os) :
    ∃ t, runE step (new ethernetAddress ipAddress) os = .ok t ∧ t.Exact := by
  obtain ⟨t, hrun, -, hexact⟩ := (h.and_forall hsend).invariant
    (I := fun t => t.interface.Ready ∧ t.Exact) (fun t o ht ho => exact_step ht ho.2 ho.1)
    ⟨fun c hc => by simp [new, NetworkInterface.new] at hc, .new _ _⟩
  exact ⟨t, hrun, hexact⟩

/-- The request is repeated after 5 seconds, and the answer brings both datagrams on their way. -/
theorem datagrams_delivered_repeated_request :
    let hop : Address := { ip := 0x0A000001 }
    let d : IPv4Datagram := { header := { len := 20, dst := 1 } }
    let d' : IPv4Datagram := { header := { len := 20, dst := 2 } }
    let reply : EthernetFrame := {
      header := { dst := ethernetBroadcast, type := EthernetHeader.typeARP }
      payload := [[0, 1, 8, 0, 6, 4, 0, 2, 2, 2, 2, 2, 2, 2, 10, 0, 0, 1,
        1, 1, 1, 1, 1, 1, 10, 0, 0, 9]] }
    let os := [Op.send d hop, .tick 5000, .send d' hop, .recv reply, .send d hop]
    ∃ t, runE step (new #v[1, 1, 1, 1, 1, 1] { ip := 0x0A000009 }) os = .ok t ∧ t.Exact := by
  intro hop d d' reply os
  refine datagrams_delivered ?_ ?_
  · have hok : ∀ o ∈ os, ∀ c ∈ o.passed, c.2.Serializable := by decide
    exact fun o ho c hc => IPv4Datagram.serialize_ok (hok o ho c hc)
  · decide +kernel

/-- The second datagram for an address that is being asked for is forgotten. -/
theorem datagram_forgotten_request_out :
    let hop : Address := { ip := 0x0A000001 }
    let d : IPv4Datagram := { header := { len := 20, dst := 1 } }
    let d' : IPv4Datagram := { header := { len := 20, dst := 2 } }
    let os := [Op.send d hop, .send d' hop]
    (∀ o ∈ os, o.Sendable) ∧
      ∃ t, runE step (new #v[1, 1, 1, 1, 1, 1] { ip := 0x0A000009 }) os = .ok t ∧
        entriesFor hop.ip t.passed = [d, d'] ∧ t.interface.waiting hop.ip = [d] ∧
        t.emitted = [] ∧ ¬ t.Exact := by
  intro hop d d' os
  constructor
  · have hok : ∀ o ∈ os, ∀ c ∈ o.passed, c.2.Serializable := by decide
    exact fun o ho c hc => IPv4Datagram.serialize_ok (hok o ho c hc)
  · refine ⟨_, rfl, by decide, by decide, by decide, fun h => ?_⟩
    obtain ⟨ds, hpassed, hall⟩ := h.delivered hop.ip
    cases hall
    exact absurd hpassed (by decide)

end InterfaceTrace

end Sponge
