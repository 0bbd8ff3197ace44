import Sponge.Adapter.Transit
import Sponge.Descriptor.Reading

/-! # Adapters

What a socket needs of the adapter between its connection and a device. An adapter conveys
segments if it returns only what was written by a peer, from the address of the peer to its own,
and throws only if the kernel refuses a call on the device. Random losses do not change this.
-/

namespace Sponge

open Runs

/-- The kernel takes `after` more items for the device, and refuses the next one. -/
structure Refusal where
  after : ℕ
  errno : Errno
  deriving DecidableEq, Repr

/-- The kernel refuses one of the items. -/
def Refused {ω : Type} (items : List ω) (refusal : Option Refusal) : Prop :=
  ∃ r ∈ refusal, r.after < items.length

/-- Write items to the device, one after another, by the system call `call`. A device takes an item
as a whole or not at all. What is left of the refusal is returned. -/
def transmit {ω : Type} (call : String) : List ω → Option Refusal →
    Except Exception (Option Refusal)
  | [], refusal => .ok refusal
  | _ :: items, none => transmit call items none
  | _ :: _, some ⟨0, errno⟩ => .error (.unixError call errno)
  | _ :: items, some ⟨n + 1, errno⟩ => transmit call items (some ⟨n, errno⟩)

/-- Read an item from the device, or fail, by the system call `call`. -/
def fetch {ω : Type} (call : String) (item : Except Errno ω) : Except Exception ω :=
  item.mapError fun errno : Errno => .unixError call errno

theorem transmit_append {ω : Type} {call : String} {items items' : List ω}
    {refusal : Option Refusal} : transmit call (items ++ items') refusal =
      transmit call items refusal >>= transmit call items' := by
  induction items generalizing refusal with
  | nil => rfl
  | cons item items ih =>
    match refusal with
    | none => exact ih
    | some ⟨0, errno⟩ => rfl
    | some ⟨n + 1, errno⟩ => exact ih

theorem transmit_error_iff {ω : Type} {call : String} {items : List ω} {refusal : Option Refusal} :
    (∃ e, transmit call items refusal = .error e) ↔ Refused items refusal := by
  induction items generalizing refusal with
  | nil => simp [transmit, Refused]
  | cons item items ih =>
    match refusal with
    | none =>
      have hnone : ¬ Refused items none := by simp [Refused]
      simp only [transmit, ih]
      exact iff_of_false hnone (by simp [Refused])
    | some ⟨0, errno⟩ => simp [transmit, Refused]
    | some ⟨n + 1, errno⟩ =>
      simp only [transmit, ih]
      simp [Refused]

@[simp] theorem transmit_none {ω : Type} {call : String} {items : List ω} :
    transmit call items none = .ok none := by
  induction items with
  | nil => rfl
  | cons item items ih => exact ih

/-- What a socket uses of its adapter, which reads and writes items of the type `ω`. What is read
and which write is refused is up to the kernel. An item may show that the device has come to its
end. -/
structure DatagramAdapter (α ω : Type) where
  ends : ω → Bool
  config : α → FdAdapterConfig
  configMut : α → FdAdapterConfig → α
  listening : α → Bool
  setListening : α → Bool → α
  read : α → Except Errno ω → Option Refusal → Except Exception (Option TCPSegment × α × List ω)
  write : α → TCPSegment → Option Refusal → Except Exception (α × List ω × Option Refusal)
  tick : α → ℕ → Option Refusal → Except Exception (α × List ω)

namespace DatagramAdapter

variable {α ω γ : Type} {A : DatagramAdapter α ω}

/-- The address of the peer. -/
def peer (A : DatagramAdapter α ω) (a : α) : Address := (A.config a).destination

/-- The adapter `a'` has the addresses of `a`. -/
structure Keeps (A : DatagramAdapter α ω) (own : α → Address) (a a' : α) : Prop where
  own : own a' = own a
  config : A.config a' = A.config a
  listening : A.listening a' = A.listening a

/-- Addresses change only once, when the adapter stops listening. -/
structure Stays (A : DatagramAdapter α ω) (own : α → Address) (a a' : α) : Prop where
  connected : A.listening a = false → A.Keeps own a a'
  listening : A.listening a' = true → A.Keeps own a a'

/-- The adapter returns segments of its peer only, and writes items that other adapters of this
kind can make use of, by the system call `call`. `Reaches w a` says that the item `w` is sent to the
device of `a`. -/
structure Conveys (A : DatagramAdapter α ω) where
  own : α → Address
  call : String
  Inv : Written → α → Prop
  Travels : Written → ω → Prop
  Reaches : ω → α → Prop
  inv_mono : ∀ {W W' a}, Inv W a → W ≤ W' → Inv W' a
  travels_mono : ∀ {W W' w}, Travels W w → W ≤ W' → Travels W' w
  unread : ∀ a errno refusal, ∃ e, A.read a (.error errno) refusal = .error e
  read : ∀ {W a w}, Inv W a → Travels W w → Reaches w a → ∃ seg a' out,
    (∀ refusal, A.read a (.ok w) refusal =
      (transmit call out refusal).map fun _ => (seg, a', out)) ∧
      Inv W a' ∧ (∀ w ∈ out, Travels W w) ∧ A.Stays own a a' ∧
      ∀ s ∈ seg, A.listening a' = false ∧ W.Knows (A.peer a') (own a') s
  write : ∀ {W a s}, Inv W a → s ∈ W (own a) (A.peer a) → s.Fits → ∃ a' out,
    (∀ refusal, A.write a s refusal = (transmit call out refusal).map fun r => (a', out, r)) ∧
      Inv W a' ∧ (∀ w ∈ out, Travels W w) ∧ A.Keeps own a a'
  tick : ∀ {W a}, Inv W a → ∀ ms, ∃ a' out,
    (∀ refusal, A.tick a ms refusal = (transmit call out refusal).map fun _ => (a', out)) ∧
      Inv W a' ∧ (∀ w ∈ out, Travels W w) ∧ A.Keeps own a a'

theorem Keeps.refl (own : α → Address) (a : α) : A.Keeps own a a := ⟨rfl, rfl, rfl⟩

theorem Keeps.peer {own : α → Address} {a a' : α} (h : A.Keeps own a a') :
    A.peer a' = A.peer a := congrArg FdAdapterConfig.destination h.config

theorem Keeps.stays {own : α → Address} {a a' : α} (h : A.Keeps own a a') : A.Stays own a a' :=
  ⟨fun _ => h, fun _ => h⟩

end DatagramAdapter

/-- An adapter with a source of random numbers. -/
structure LossyFdAdapter (γ α : Type) where
  rand : γ
  adapter : α
  deriving DecidableEq, Repr

namespace LossyFdAdapter

variable {α ω γ : Type} (draw : γ → UInt32 × γ) (A : DatagramAdapter α ω)

/-- Is the segment to be dropped? A number is drawn only if there are losses at all. -/
def shouldDrop (l : LossyFdAdapter γ α) (uplink : Bool) : Bool × LossyFdAdapter γ α :=
  let cfg := A.config l.adapter
  let loss := if uplink then cfg.lossRateUp else cfg.lossRateDn
  if loss ≠ 0 then
    (decide ((draw l.rand).1.toUInt16 < loss), { l with rand := (draw l.rand).2 })
  else (false, l)

/-- What is dropped was read by the adapter below all the same. -/
def read (l : LossyFdAdapter γ α) (item : Except Errno ω) (refusal : Option Refusal) :
    Except Exception (Option TCPSegment × LossyFdAdapter γ α × List ω) := do
  let (ret, a, out) ← A.read l.adapter item refusal
  let (drop, l) := shouldDrop draw A { l with adapter := a } false
  return (if drop then none else ret, l, out)

def write (l : LossyFdAdapter γ α) (seg : TCPSegment) (refusal : Option Refusal) :
    Except Exception (LossyFdAdapter γ α × List ω × Option Refusal) :=
  let (drop, l) := shouldDrop draw A l true
  if drop then .ok (l, [], refusal)
  else do
    let (a, out, refusal) ← A.write l.adapter seg refusal
    return ({ l with adapter := a }, out, refusal)

def tick (l : LossyFdAdapter γ α) (ms : ℕ) (refusal : Option Refusal) :
    Except Exception (LossyFdAdapter γ α × List ω) := do
  let (a, out) ← A.tick l.adapter ms refusal
  return ({ l with adapter := a }, out)

theorem shouldDrop_adapter (l : LossyFdAdapter γ α) (uplink : Bool) :
    (shouldDrop draw A l uplink).2.adapter = l.adapter := by
  unfold shouldDrop
  dsimp only
  split_ifs <;> rfl

end LossyFdAdapter

namespace DatagramAdapter

variable {α ω γ : Type} (draw : γ → UInt32 × γ)

def lossy (A : DatagramAdapter α ω) : DatagramAdapter (LossyFdAdapter γ α) ω where
  ends := A.ends
  config l := A.config l.adapter
  configMut l cfg := { l with adapter := A.configMut l.adapter cfg }
  listening l := A.listening l.adapter
  setListening l b := { l with adapter := A.setListening l.adapter b }
  read := LossyFdAdapter.read draw A
  write := LossyFdAdapter.write draw A
  tick := LossyFdAdapter.tick A

variable {A : DatagramAdapter α ω}

theorem Keeps.lossy {own : α → Address} {l l' : LossyFdAdapter γ α}
    (h : A.Keeps own l.adapter l'.adapter) :
    (A.lossy draw).Keeps (fun l => own l.adapter) l l' := ⟨h.own, h.config, h.listening⟩

/-- Losses keep nothing that comes through from being what the peer wrote. -/
def Conveys.lossy (C : A.Conveys) : (A.lossy draw).Conveys where
  own l := C.own l.adapter
  call := C.call
  Inv W l := C.Inv W l.adapter
  Travels := C.Travels
  Reaches w l := C.Reaches w l.adapter
  inv_mono := C.inv_mono
  travels_mono := C.travels_mono
  unread l errno refusal := by
    obtain ⟨e, he⟩ := C.unread l.adapter errno refusal
    exact ⟨e, bind_error_iff.mpr (Or.inl he)⟩
  read {W l w} hi hw hr := by
    obtain ⟨seg, a', out, hread, hi', hout, hstays, hseg⟩ := C.read hi hw hr
    have hsame := LossyFdAdapter.shouldDrop_adapter draw A { l with adapter := a' } false
    cases hdrop : LossyFdAdapter.shouldDrop draw A { l with adapter := a' } false with
    | mk drop l' =>
      rw [hdrop] at hsame
      obtain rfl : a' = l'.adapter := hsame.symm
      refine ⟨if drop then none else seg, l', out, fun refusal => ?_, hi', hout,
        ⟨fun hl => (hstays.connected hl).lossy draw, fun hl => (hstays.listening hl).lossy draw⟩,
        fun s hs => ?_⟩
      · change LossyFdAdapter.read draw A l (.ok w) refusal = _
        rw [LossyFdAdapter.read, hread]
        cases transmit C.call out refusal with
        | error e => rfl
        | ok r =>
          simp only [Except.map, bind, Except.bind, hdrop]
          rfl
      · cases drop with
        | true => simp at hs
        | false => exact hseg s hs
  write {W l s} hi hs hfits := by
    have hsame := LossyFdAdapter.shouldDrop_adapter draw A l true
    change ∃ a' out, (∀ refusal, LossyFdAdapter.write draw A l s refusal = _) ∧ _
    simp only [LossyFdAdapter.write]
    cases hdrop : LossyFdAdapter.shouldDrop draw A l true with
    | mk drop l' =>
      rw [hdrop] at hsame
      simp only at hsame
      cases drop with
      | true =>
        refine ⟨l', [], fun _ => rfl, by rw [hsame]; exact hi, by simp, ?_⟩
        exact Keeps.lossy draw (hsame ▸ .refl _ _)
      | false =>
        obtain ⟨a', out, hwrite, hi', hout, hkeeps⟩ := C.write hi hs hfits
        refine ⟨{ l' with adapter := a' }, out, fun refusal => ?_, hi', hout, hkeeps.lossy draw⟩
        simp only [hsame, hwrite, Bool.false_eq_true, if_false]
        cases transmit C.call out refusal <;> rfl
  tick {W l} hi ms := by
    obtain ⟨a', out, htick, hi', hout, hkeeps⟩ := C.tick hi ms
    refine ⟨{ l with adapter := a' }, out, fun refusal => ?_, hi', hout, hkeeps.lossy draw⟩
    change LossyFdAdapter.tick A l ms refusal = _
    rw [LossyFdAdapter.tick, htick]
    cases transmit C.call out refusal <;> rfl

end DatagramAdapter

end Sponge
