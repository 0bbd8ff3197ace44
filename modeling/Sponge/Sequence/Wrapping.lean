import Mathlib.Tactic

/-! # Wrapping sequence numbers

Absolute 64-bit positions are carried on the wire as 32-bit numbers relative to
an initial sequence number. `unwrap` recovers a position near a checkpoint; it
returns the position itself whenever the checkpoint is less than half a round
away from it.
-/

namespace Sponge

/-- A 32-bit integer, expressed relative to an arbitrary initial sequence number. -/
structure WrappingInt32 where
  rawValue : UInt32
  deriving DecidableEq, Repr

/-- Transform an absolute position into a number relative to `isn`. -/
def wrap (n : ℕ) (isn : WrappingInt32) : WrappingInt32 :=
  ⟨.ofNat ((n % 2 ^ 32 + isn.rawValue.toNat) % 2 ^ 32)⟩

/-- The absolute position that wraps to `n`, chosen near `checkpoint`. -/
def unwrap (n isn : WrappingInt32) (checkpoint : ℕ) : ℕ :=
  let w := (wrap checkpoint isn).rawValue.toNat
  let n := n.rawValue.toNat
  let round := 2 ^ 32
  if w ≤ n then
    if n - w < round + w - n then
      (checkpoint + n - w) % 2 ^ 64
    else if checkpoint < round + w - n then
      (checkpoint + n - w) % 2 ^ 64
    else
      checkpoint - (round + w - n)
  else if w - n < round + n - w then
    -- the sum with `round` is a 64-bit one and wraps at the top of the range
    if (checkpoint + round) % 2 ^ 64 < w - n + round then
      (checkpoint + round - w + n) % 2 ^ 64
    else
      checkpoint - (w - n)
  else
    (checkpoint + round + n - w) % 2 ^ 64

theorem WrappingInt32.ext_toNat {a b : WrappingInt32}
    (h : a.rawValue.toNat = b.rawValue.toNat) : a = b := by
  cases a; cases b
  exact congrArg _ (UInt32.toNat_inj.mp h)

@[simp] theorem wrap_rawValue (n : ℕ) (isn : WrappingInt32) :
    (wrap n isn).rawValue.toNat = (n + isn.rawValue.toNat) % 2 ^ 32 := by
  simp [wrap]

@[simp] theorem wrap_zero (isn : WrappingInt32) : wrap 0 isn = isn := by
  apply WrappingInt32.ext_toNat
  have := isn.rawValue.toNat_lt
  rw [wrap_rawValue]
  omega

theorem wrap_eq_wrap_iff {m n : ℕ} {isn : WrappingInt32} :
    wrap m isn = wrap n isn ↔ m % 2 ^ 32 = n % 2 ^ 32 := by
  constructor
  · intro h
    have h := congrArg (fun w => w.rawValue.toNat) h
    simp only [wrap_rawValue] at h
    omega
  · intro h
    apply WrappingInt32.ext_toNat
    simp only [wrap_rawValue]
    omega

theorem unwrap_lt (n isn : WrappingInt32) {c : ℕ} (hc : c < 2 ^ 64) :
    unwrap n isn c < 2 ^ 64 := by
  unfold unwrap
  simp only
  split_ifs <;> omega

theorem wrap_unwrap (n isn : WrappingInt32) {c : ℕ} (hc : c < 2 ^ 64) :
    wrap (unwrap n isn c) isn = n := by
  apply WrappingInt32.ext_toNat
  have hn := n.rawValue.toNat_lt
  have hi := isn.rawValue.toNat_lt
  simp only [unwrap, wrap_rawValue]
  split_ifs <;> omega

/-- A position is recovered from its wrapped number when the checkpoint is not half a round
past it, and it is either not half a round past the checkpoint or in the first round. In the last
round of checkpoints the sum with a round wraps. -/
theorem unwrap_wrap {k c : ℕ} (isn : WrappingInt32) (hk : k < 2 ^ 64) (hlast : c + 2 ^ 32 < 2 ^ 64)
    (hc : c < k + 2 ^ 31) (h : k < c + 2 ^ 31 ∨ k < 2 ^ 32) : unwrap (wrap k isn) isn c = k := by
  have hi := isn.rawValue.toNat_lt
  simp only [unwrap, wrap_rawValue]
  split_ifs <;> omega

end Sponge
