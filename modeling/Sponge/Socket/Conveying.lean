import Sponge.Connection.Plain
import Sponge.Connection.Window
import Sponge.Socket.Basic

/-! # A socket and its peer

With an adapter that conveys segments, the connection of a socket takes in only segments that the
peer of the adapter wrote, and all that it sends gets on the network.
-/

namespace Sponge

/-- The segments `segs` are written, too. -/
def Written.add (W : Written) (source destination : Address) (segs : List TCPSegment) : Written :=
  fun s d => {g | g ∈ W s d ∨ (s = source ∧ d = destination ∧ g ∈ segs)}

theorem Written.le_add (W : Written) (source destination : Address) (segs : List TCPSegment) :
    W ≤ W.add source destination segs := fun _ _ _ => Or.inl

theorem TCPSegment.Plain.fits {g : TCPSegment} (h : g.Plain) : g.Fits := by
  have hdoff : g.header.doff.toNat = 5 := by
    rw [h.doff]
    rfl
  have hpayload := h.payload
  have hmax : maxPayloadSize = 1000 := rfl
  exact ⟨by omega, by omega, by omega⟩

theorem TCPConnection.segmentsOut_step (c : TCPConnection) (o : Op) :
    c.segmentsOut <+: (c.step o).segmentsOut := by
  by_cases hread : ∃ len, o = .read len
  · obtain ⟨len, rfl⟩ := hread
    exact List.prefix_rfl
  · obtain ⟨segs, hout, -⟩ := (c.putsAt_step fun len h => hread ⟨len, h⟩).out
    rw [hout]
    exact List.prefix_append _ _

namespace DatagramAdapter

variable {α ω : Type} {A : DatagramAdapter α ω} {own : α → Address} {a a' a'' : α}

theorem Keeps.trans (h : A.Keeps own a a') (h' : A.Keeps own a' a'') : A.Keeps own a a'' :=
  ⟨h'.own.trans h.own, h'.config.trans h.config, h'.listening.trans h.listening⟩

end DatagramAdapter

namespace TCPSpongeSocket

open DatagramAdapter Runs

variable {α ω : Type} {A : DatagramAdapter α ω} {C : A.Conveys} {W : Written}
  {s s' : TCPSpongeSocket α} {out : List ω} {a : α} {queue : List TCPSegment}

theorem writeSegments_eq (hi : C.Inv W a)
    (hqueue : ∀ g ∈ queue, g ∈ W (C.own a) (A.peer a) ∧ g.Fits) : ∃ a' out,
    (∀ refusal, writeSegments A queue a refusal =
      (transmit C.call out refusal).map fun _ => (a', out)) ∧
      C.Inv W a' ∧ (∀ w ∈ out, C.Travels W w) ∧ A.Keeps C.own a a' := by
  induction queue generalizing a with
  | nil => exact ⟨a, [], fun _ => rfl, hi, by simp, .refl _ _⟩
  | cons g queue ih =>
    obtain ⟨⟨hg, hfits⟩, hrest⟩ := List.forall_mem_cons.mp hqueue
    obtain ⟨a₁, out₁, hwrite, hi₁, hout₁, hkeeps⟩ := C.write hi hg hfits
    obtain ⟨a₂, out₂, hwrite', hi₂, hout₂, hkeeps'⟩ :=
      ih hi₁ (by rw [hkeeps.own, hkeeps.peer]; exact hrest)
    refine ⟨a₂, out₁ ++ out₂, fun refusal => ?_, hi₂, fun w hw => ?_, hkeeps.trans hkeeps'⟩
    · rw [writeSegments, hwrite, transmit_append]
      cases transmit C.call out₁ refusal with
      | error e => rfl
      | ok r =>
        simp only [Except.map, bind, Except.bind, hwrite']
        cases transmit C.call out₂ r <;> rfl
    · exact (List.mem_append.mp hw).elim (hout₁ w) (hout₂ w)

/-- All that the socket has sent counts as written from its address to its peer. -/
def wrote (C : A.Conveys) (W : Written) (s : TCPSpongeSocket α) : Written :=
  W.add (C.own s.datagramAdapter) (A.peer s.datagramAdapter) s.tcp.segmentsOut

theorem segmentsQueued_written (C : A.Conveys) (W : Written) (hplain : s.tcp.Plain) :
    ∀ g ∈ s.segmentsQueued,
      g ∈ s.wrote C W (C.own s.datagramAdapter) (A.peer s.datagramAdapter) ∧ g.Fits := by
  intro g hg
  have hmem : g ∈ s.tcp.segmentsOut := List.mem_of_mem_drop hg
  exact ⟨Or.inr ⟨rfl, rfl, hmem⟩, (hplain.wire g hmem).fits⟩

/-- The network brings the socket what travels and is sent to it. -/
def Reached (C : A.Conveys) (W : Written) (s : TCPSpongeSocket α) : Event ω → Prop
  | .receive (.ok w) _ => C.Travels W w ∧ C.Reaches w s.datagramAdapter
  | _ => True

/-- What leaves the socket travels, and its adapter goes on to convey. -/
structure Conveyed (C : A.Conveys) (W : Written) (s s' : TCPSpongeSocket α) (out : List ω) :
    Prop where
  inv : C.Inv (s.wrote C W) s'.datagramAdapter
  out : ∀ w ∈ out, C.Travels (s.wrote C W) w
  stays : A.Stays C.own s.datagramAdapter s'.datagramAdapter

theorem Conveyed.idle (hi : C.Inv W s.datagramAdapter)
    (hsame : s'.datagramAdapter = s.datagramAdapter) : Conveyed C W s s' [] where
  inv := hsame ▸ C.inv_mono hi (W.le_add _ _ _)
  out := by simp
  stays := hsame ▸ (Keeps.refl _ _).stays

theorem step_conveyed {e : Event ω} (hi : C.Inv W s.datagramAdapter) (hplain : s.tcp.Plain)
    (hhonest : s.HonestAnswer e) (hreached : s.Reached C W e)
    (h : s.step A e = .ok (s', out)) : Conveyed C W s s' out := by
  have hle : W ≤ s.wrote C W := W.le_add _ _ _
  cases e with
  | receive item refusal =>
    obtain ⟨seg, hread, -, -⟩ := receive_ok h
    cases item with
    | error errno =>
      obtain ⟨e, he⟩ := C.unread s.datagramAdapter errno refusal
      cases hread.symm.trans he
    | ok w =>
      obtain ⟨seg', a', out', hread', hi', hout, hstays, -⟩ := C.read hi hreached.1 hreached.2
      obtain ⟨-, -, heq⟩ := map_ok_iff.mp ((hread' refusal).symm.trans hread)
      obtain ⟨-, rfl, rfl⟩ : seg' = seg ∧ a' = s'.datagramAdapter ∧ out' = out := by simpa using heq
      exact ⟨C.inv_mono hi' hle, fun w hw => C.travels_mono (hout w hw) hle, hstays⟩
  | takeFromOwner answer =>
    obtain ⟨s₁, htake, h⟩ := bind_ok_iff.mp h
    cases h
    obtain ⟨data, threadData, -, hsame, -⟩ := takeFromOwner_ok htake
    exact .idle hi (by rw [hsame])
  | cancelOutbound =>
    obtain ⟨rfl, rfl⟩ : s.cancelOutbound = s' ∧ [] = out := by simpa [step] using h
    exact .idle hi rfl
  | giveToOwner answer refusal =>
    obtain ⟨s₁, hgive, h⟩ := bind_ok_iff.mp h
    cases h
    obtain ⟨n, -, -, hsame⟩ := giveToOwner_ok hhonest hgive
    exact .idle hi (by rw [hsame])
  | send refusal =>
    obtain ⟨hwrite, -⟩ := send_ok h
    obtain ⟨a', out', hwrite', hi', hout, hkeeps⟩ :=
      writeSegments_eq (C.inv_mono hi hle) (segmentsQueued_written C W hplain)
    obtain ⟨-, -, heq⟩ := map_ok_iff.mp ((hwrite' refusal).symm.trans hwrite)
    obtain ⟨rfl, rfl⟩ : a' = s'.datagramAdapter ∧ out' = out := by simpa using heq
    exact ⟨hi', hout, hkeeps.stays⟩
  | tick ms refusal =>
    rcases tick_ok h with ⟨-, htick, -⟩ | ⟨-, rfl, rfl⟩
    · obtain ⟨a', out', htick', hi', hout, hkeeps⟩ := C.tick hi ms
      obtain ⟨-, -, heq⟩ := map_ok_iff.mp ((htick' refusal).symm.trans htick)
      obtain ⟨rfl, rfl⟩ : a' = s'.datagramAdapter ∧ out' = out := by simpa using heq
      exact ⟨C.inv_mono hi' hle, fun w hw => C.travels_mono (hout w hw) hle, hkeeps.stays⟩
    · exact .idle hi rfl

theorem throws_iff_refused (call : String) (out : List ω)
    {f : Option Refusal → Except Exception (TCPSpongeSocket α × List ω)}
    (h : ∀ refusal, (f refusal).map Prod.snd = (transmit call out refusal).map fun _ => out)
    (refusal : Option Refusal) :
    (∃ e, f refusal = .error e) ↔ Refused (written (f none)) refusal := by
  have hnone : (f none).map Prod.snd = .ok out := by
    rw [h, transmit_none]
    rfl
  obtain ⟨⟨s', out'⟩, hf, rfl⟩ := map_ok_iff.mp hnone
  have hwritten : written (f none) = out' := by
    rw [hf]
    rfl
  rw [hwritten, ← map_throws_iff, h, map_throws_iff, transmit_error_iff]

/-- What is conveyed to a socket, or sent by it, makes no rule throw, unless the kernel does. -/
theorem step_throws_iff {e : Event ω} (hi : C.Inv W s.datagramAdapter) (hplain : s.tcp.Plain)
    (hhonest : s.HonestAnswer e) (hreached : s.Reached C W e) :
    (∃ err, s.step A e = .error err) ↔ s.Fails A e := by
  have hbind : ∀ {r : Except Exception (TCPSpongeSocket α)},
      (∃ err, (r >>= fun s => pure (s, ([] : List ω))) = .error err) ↔ ∃ err, r = .error err := by
    intro r
    exact map_throws_iff (f := fun s => (s, []))
  cases e with
  | receive item refusal =>
    cases item with
    | error errno =>
      obtain ⟨e, he⟩ := C.unread s.datagramAdapter errno refusal
      exact iff_of_true ⟨e, bind_error_iff.mpr (Or.inl he)⟩ trivial
    | ok w =>
      obtain ⟨seg, a, out, hread, -⟩ := C.read hi hreached.1 hreached.2
      refine throws_iff_refused C.call out (f := s.receive A (.ok w)) (fun r => ?_) refusal
      rw [receive, hread]
      cases transmit C.call out r <;> rfl
  | takeFromOwner answer => exact hbind.trans (takeFromOwner_throws_iff hhonest)
  | cancelOutbound => exact iff_of_false (by rintro ⟨err, ⟨⟩⟩) id
  | giveToOwner answer refusal => exact hbind.trans (giveToOwner_throws_iff hhonest)
  | send refusal =>
    obtain ⟨a, out, hwrite, -⟩ := writeSegments_eq (C.inv_mono hi (W.le_add _ _ _))
      (segmentsQueued_written C W hplain)
    refine throws_iff_refused C.call out (f := s.send A) (fun r => ?_) refusal
    rw [send, hwrite]
    cases transmit C.call out r <;> rfl
  | tick ms refusal =>
    obtain ⟨a, out, htick, -⟩ := C.tick hi ms
    cases hactive : s.tcp.active with
    | true =>
      refine throws_iff_refused C.call out (f := s.tick A ms) (fun r => ?_) refusal
      rw [tick, if_pos hactive, htick]
      cases transmit C.call out r <;> rfl
    | false =>
      have hrest : ∀ r, s.tick A ms r = .ok (s, []) := fun r => by simp [tick, hactive]
      refine throws_iff_refused C.call [] (f := s.tick A ms) (fun r => ?_) refusal
      rw [hrest]
      rfl

end TCPSpongeSocket

end Sponge
