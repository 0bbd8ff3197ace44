import Sponge.Sender.Outstanding

/-! # Which acknowledgments are accepted

An acknowledgment is accepted exactly when its number is that of a position between the
acknowledged one and the next one to be sent. It then counts as one of this position,
and every other acknowledgment is ignored.
-/

namespace Sponge

open Layout Runs

namespace TCPSender

/-- The number `ackno` is that of the position `k`, acknowledged last or sent since. -/
structure InRange (s : TCPSender) (ackno : WrappingInt32) (k : ℕ) : Prop where
  ge : s.acked ≤ k
  le : k ≤ s.nextSeqnoAbsolute
  wraps : wrap k s.isn = ackno

instance (s : TCPSender) (ackno : WrappingInt32) (k : ℕ) : Decidable (s.InRange ackno k) :=
  decidable_of_iff (s.acked ≤ k ∧ k ≤ s.nextSeqnoAbsolute ∧ wrap k s.isn = ackno)
    ⟨fun h => ⟨h.1, h.2.1, h.2.2⟩, fun h => ⟨h.ge, h.le, h.wraps⟩⟩

variable {s s' : TCPSender} {journal : List TCPSegment} {ackno : WrappingInt32} {k : ℕ}
  {windowSize : UInt16}

theorem Flight.unwrap_of_inRange (h : Flight journal s) (hsmall : s.nextSeqno + 2 ^ 32 < 2 ^ 64)
    (hk : s.InRange ackno k) : unwrap ackno s.isn s.acked = k := by
  have hclose := h.close
  have hacked := h.acked_le
  have hge := hk.ge
  have hle : k ≤ s.nextSeqno := hk.le
  rw [← hk.wraps]
  exact unwrap_wrap s.isn (by omega) (by omega) (by omega) (Or.inl (by omega))

theorem Flight.acked_of_inRange (h : Flight journal s) (hsmall : s.nextSeqno + 2 ^ 32 < 2 ^ 64)
    (hk : s.InRange ackno k) : Acked s (s.ackReceived ackno windowSize) k windowSize := by
  have hunwrap := h.unwrap_of_inRange hsmall hk
  rcases s.ackReceived_cases ackno windowSize with ⟨-, hout⟩ | hs
  · have hge := hk.ge
    have hle : k ≤ s.nextSeqno := hk.le
    rw [hunwrap] at hout
    omega
  · rwa [hunwrap] at hs

theorem ackReceived_eq_or_inRange (hacked : s.acked < 2 ^ 64) (ackno : WrappingInt32)
    (windowSize : UInt16) : s.ackReceived ackno windowSize = s ∨ ∃ k, s.InRange ackno k := by
  rcases s.ackReceived_cases ackno windowSize with ⟨hs, -⟩ | hs
  · exact Or.inl hs
  · exact Or.inr ⟨_, hs.ge, hs.le, wrap_unwrap ackno s.isn hacked⟩

end TCPSender

namespace SenderTrace

open TCPSender

/-- The state `s'` results from an acknowledgment of all positions below `k`: of the segments that
are outstanding, those that end by `k` are removed. -/
structure Accepts (t : SenderTrace) (s' : TCPSender) (k : ℕ) (windowSize : UInt16) : Prop where
  acked : s'.acked = k
  window : s'.window = max 1 (windowSize.toNat : ℤ)
  sublist : s'.inFlight.Sublist t.sender.inFlight
  before : t.sender.inFlight.Perm (t.unacked.map Prod.snd)
  after : s'.inFlight.Perm ((t.unacked.filter fun c => k < c.1 + len c.2).map Prod.snd)

variable {t : SenderTrace} {ackno : WrappingInt32} {k : ℕ} {ops : List Op} {capacity : UInt64}
  {retxTimeout : UInt16} {isn : WrappingInt32} {windowSize : UInt16}

theorem accepts_of_inRange (h : Outstanding t.journal t.sender)
    (hsmall : t.sender.nextSeqno + 2 ^ 32 < 2 ^ 64) (hk : t.sender.InRange ackno k) :
    t.Accepts (t.sender.ackReceived ackno windowSize) k windowSize := by
  have hs : Acked t.sender (t.sender.ackReceived ackno windowSize) k windowSize :=
    h.acked_of_inRange hsmall hk
  have hnext := h.ackReceived hsmall ackno windowSize
  have hacked : (t.sender.ackReceived ackno windowSize).acked = k := by rw [hs.frame]
  refine
    { acked := hacked
      window := by rw [hs.frame]
      sublist := by
        rw [hs.inFlight]
        exact List.filter_sublist
      before := h.once
      after := ?_ }
  rw [unacked, past_past hk.ge]
  have honce := hnext.once
  rwa [hacked] at honce

/-- After every run, an acknowledgment whose number is that of a position `k` in range removes
what ends by `k` and takes over the window; any other one changes nothing. -/
theorem ackReceived_classifies (ackno : WrappingInt32) (windowSize : UInt16)
    (h : Admitted step (fun t _ => t.Small) (new capacity retxTimeout isn)
      (ops ++ [.ackReceived ackno windowSize])) :
    let t := run step (new capacity retxTimeout isn) ops
    let s' := t.sender.ackReceived ackno windowSize
    (∀ k, t.sender.InRange ackno k → t.Accepts s' k windowSize) ∧
      ((¬ ∃ k, t.sender.InRange ackno k) → s' = t.sender) := by
  intro t s'
  obtain ⟨hops, hlast⟩ := admitted_append.mp h
  have ht : Outstanding t.journal t.sender := outstanding_run hops
  have hsmall : t.sender.nextSeqno < 2 ^ 63 := hlast.1
  have hacked := ht.acked_le
  constructor
  · intro k hk
    exact accepts_of_inRange ht (by omega) hk
  · intro hnone
    exact (ackReceived_eq_or_inRange (by omega) ackno windowSize).resolve_right hnone

/-- Close to the wrap-around of the numbers, an acknowledgment of the byte behind it. -/
theorem ackReceived_classifies_behind_wrap :
    let t := run step (new 8 1000 ⟨4294967293⟩)
      [.fillWindow, .ackReceived ⟨4294967294⟩ 6, .write [1, 2, 3], .fillWindow, .write [4, 5],
        .fillWindow]
    t.Accepts (t.sender.ackReceived ⟨1⟩ 0) 4 0 :=
  (ackReceived_classifies ⟨1⟩ 0 (by decide)).1 4 (by decide)

end SenderTrace

end Sponge
