import Sponge.Sequence.Wrapping

/-! # The position closest to a checkpoint

Positions that carry one number differ by whole rounds, so the one within half a round of
the checkpoint is closest to it, and so is the first one at or after a checkpoint that has none
behind it. At the top of the range `unwrap` misses it: a step forward wraps around, and so
does the sum that is to tell whether a step backward is possible.
-/

namespace Sponge

/-- No 64-bit position that carries the number `n` is closer to the checkpoint than `r`. -/
structure Closest (n isn : WrappingInt32) (checkpoint : UInt64) (r : ℕ) : Prop where
  lt : r < 2 ^ 64
  wraps : wrap r isn = n
  closest : ∀ v : UInt64, wrap v.toNat isn = n →
    ((r : ℤ) - checkpoint.toNat).natAbs ≤ ((v.toNat : ℤ) - checkpoint.toNat).natAbs

variable {n isn : WrappingInt32} {checkpoint : UInt64} {r : ℕ}

theorem Closest.of_near (hlt : r < 2 ^ 64) (hwraps : wrap r isn = n)
    (hle : r ≤ checkpoint.toNat + 2 ^ 31) (hge : checkpoint.toNat ≤ r + 2 ^ 31) :
    Closest n isn checkpoint r where
  lt := hlt
  wraps := hwraps
  closest v hv := by
    have hround := wrap_eq_wrap_iff.mp (hv.trans hwraps.symm)
    omega

theorem Closest.of_first (hlt : r < 2 ^ 32) (hwraps : wrap r isn = n)
    (hle : checkpoint.toNat ≤ r) : Closest n isn checkpoint r where
  lt := by omega
  wraps := hwraps
  closest v hv := by
    have hround := wrap_eq_wrap_iff.mp (hv.trans hwraps.symm)
    omega

theorem Closest.le {v : ℕ} (h : Closest n isn checkpoint r) (hv : v < 2 ^ 64)
    (hwraps : wrap v isn = n) :
    ((r : ℤ) - checkpoint.toNat).natAbs ≤ ((v : ℤ) - checkpoint.toNat).natAbs := by
  have hclosest := h.closest (.ofNat v)
  rw [UInt64.toNat_ofNat', Nat.mod_eq_of_lt hv] at hclosest
  exact hclosest hwraps

/-- Where a step forward by less than half a round is due, it stays in the range, and where a step
backward from a number to a smaller one is due, the sum with a round does. -/
def StepsInRange (n isn : WrappingInt32) (checkpoint : UInt64) : Prop :=
  let w := (wrap checkpoint.toNat isn).rawValue.toNat
  let n := n.rawValue.toNat
  if w ≤ n then n - w < 2 ^ 31 → checkpoint.toNat + (n - w) < 2 ^ 64
  else if w - n < 2 ^ 31 then checkpoint.toNat + 2 ^ 32 < 2 ^ 64
  else checkpoint.toNat + (2 ^ 32 - (w - n)) < 2 ^ 64

instance (n isn : WrappingInt32) (checkpoint : UInt64) :
    Decidable (StepsInRange n isn checkpoint) := by
  unfold StepsInRange
  infer_instance

theorem wrap_eq_iff {v : ℕ} :
    wrap v isn = n ↔ (v + isn.rawValue.toNat) % 2 ^ 32 = n.rawValue.toNat := by
  rw [← wrap_rawValue]
  exact ⟨fun h => h ▸ rfl, WrappingInt32.ext_toNat⟩

/-- The position found is closest to the checkpoint exactly when the steps stay in the range. -/
theorem closest_unwrap_iff (n isn : WrappingInt32) (checkpoint : UInt64) :
    Closest n isn checkpoint (unwrap n isn checkpoint.toNat) ↔ StepsInRange n isn checkpoint := by
  have hc := checkpoint.toNat_lt
  have hn := n.rawValue.toNat_lt
  have hlt := unwrap_lt n isn hc
  have hwraps := wrap_unwrap n isn hc
  have hw := wrap_rawValue checkpoint.toNat isn
  set w := (wrap checkpoint.toNat isn).rawValue.toNat with hwdef
  have hw_lt : w < 2 ^ 32 := UInt32.toNat_lt _
  simp only [StepsInRange, ← hwdef]
  simp only [unwrap, ← hwdef] at hlt hwraps ⊢
  by_cases hle : w ≤ n.rawValue.toNat
  · simp only [if_pos hle] at hlt hwraps ⊢
    by_cases hnear : n.rawValue.toNat - w < 2 ^ 31
    · -- one round back is closer than a step forward that wraps
      rw [if_pos (by omega)] at hlt hwraps ⊢
      simp only [hnear, forall_const]
      constructor
      · intro h
        by_contra hover
        have hback := h.le (v := checkpoint.toNat + n.rawValue.toNat - w - 2 ^ 32) (by omega)
          (wrap_eq_iff.mpr (by omega))
        omega
      · intro h
        exact .of_near hlt hwraps (by omega) (by omega)
    · rw [if_neg (by omega)] at hlt hwraps ⊢
      refine iff_of_true ?_ fun h => absurd h hnear
      by_cases hfirst : checkpoint.toNat < 2 ^ 32 + w - n.rawValue.toNat
      · rw [if_pos hfirst] at hlt hwraps ⊢
        exact .of_first (by omega) hwraps (by omega)
      · rw [if_neg hfirst] at hlt hwraps ⊢
        exact .of_near hlt hwraps (by omega) (by omega)
  · simp only [if_neg hle] at hlt hwraps ⊢
    by_cases hnear : w - n.rawValue.toNat < 2 ^ 31
    · rw [if_pos (by omega)] at hlt hwraps ⊢
      rw [if_pos hnear]
      constructor
      · -- the sum with a round wraps, so a step forward is taken for the one backward
        intro h
        by_contra hover
        rw [if_pos (by omega)] at h
        have hback := h.le (v := checkpoint.toNat - (w - n.rawValue.toNat)) (by omega)
          (wrap_eq_iff.mpr (by omega))
        omega
      · intro h
        by_cases hfirst : checkpoint.toNat < w - n.rawValue.toNat
        · rw [if_pos (by omega)] at hlt hwraps ⊢
          exact .of_first (by omega) hwraps (by omega)
        · rw [if_neg (by omega)] at hlt hwraps ⊢
          exact .of_near hlt hwraps (by omega) (by omega)
    · rw [if_neg (by omega)] at hlt hwraps ⊢
      rw [if_neg hnear]
      constructor
      · intro h
        by_contra hover
        have hback := h.le (v := checkpoint.toNat - (w - n.rawValue.toNat)) (by omega)
          (wrap_eq_iff.mpr (by omega))
        omega
      · intro h
        exact .of_near hlt hwraps (by omega) (by omega)

/-- From the last 64-bit position a step forward by one wraps around. -/
theorem not_closest_last :
    let last : UInt64 := .ofNat (2 ^ 64 - 1)
    unwrap ⟨0⟩ ⟨0⟩ last.toNat = 0 ∧ ¬ Closest ⟨0⟩ ⟨0⟩ last (unwrap ⟨0⟩ ⟨0⟩ last.toNat) := by
  intro last
  have hlast : last.toNat = 2 ^ 64 - 1 := UInt64.toNat_ofNat'
  have hfirst : unwrap ⟨0⟩ ⟨0⟩ (2 ^ 64 - 1) = 0 := by decide
  rw [hlast]
  refine ⟨hfirst, fun h => ?_⟩
  have hback := h.le (v := 2 ^ 64 - 2 ^ 32) (by norm_num) (by decide)
  rw [hlast, hfirst] at hback
  omega

end Sponge
