import Sponge.Sequence.Wrapping

/-! # Shifting the initial sequence number

How far a number is ahead of the checkpoint does not change when the number and the initial
sequence number are shifted together, but `unwrap` compares raw values, so a shift can move it from
one side of its first branch to the other. The two sides agree on a number less than half a
round ahead. One exactly half a round ahead is taken as behind on one side only, and one further
ahead is stepped forward to on the other side when the sum with a round wraps.
-/

namespace Sponge

/-- The point `b` steps past `a`. -/
def WrappingInt32.plus (a : WrappingInt32) (b : UInt32) : WrappingInt32 :=
  ⟨a.rawValue + b⟩

/-- The number of the checkpoint is at most `n` as a raw value. -/
def Ascends (n isn : WrappingInt32) (checkpoint : ℕ) : Prop :=
  (checkpoint + isn.rawValue.toNat) % 2 ^ 32 ≤ n.rawValue.toNat

instance (n isn : WrappingInt32) (checkpoint : ℕ) : Decidable (Ascends n isn checkpoint) :=
  inferInstanceAs (Decidable (_ ≤ _))

/-- How many steps `n` is ahead of the number of the checkpoint. -/
def ahead (n isn : WrappingInt32) (checkpoint : ℕ) : ℕ :=
  (n.rawValue.toNat + 2 ^ 32 - (checkpoint + isn.rawValue.toNat) % 2 ^ 32) % 2 ^ 32

variable {n isn : WrappingInt32} {c : ℕ}

@[simp] theorem WrappingInt32.plus_rawValue (a : WrappingInt32) (b : UInt32) :
    (a.plus b).rawValue.toNat = (a.rawValue.toNat + b.toNat) % 2 ^ 32 := by
  simp [plus]

theorem ahead_lt : ahead n isn c < 2 ^ 32 :=
  Nat.mod_lt _ (by norm_num)

theorem ahead_plus (n isn : WrappingInt32) (k : UInt32) (c : ℕ) :
    ahead (n.plus k) (isn.plus k) c = ahead n isn c := by
  have hn := n.rawValue.toNat_lt
  simp only [ahead, WrappingInt32.plus_rawValue]
  omega

theorem unwrap_of_ascends (h : Ascends n isn c) :
    unwrap n isn c =
      if ahead n isn c < 2 ^ 31 then (c + ahead n isn c) % 2 ^ 64
      else if c < 2 ^ 32 - ahead n isn c then (c + ahead n isn c) % 2 ^ 64
      else c - (2 ^ 32 - ahead n isn c) := by
  have hn := n.rawValue.toNat_lt
  unfold Ascends at h
  have hahead : ahead n isn c = n.rawValue.toNat - (c + isn.rawValue.toNat) % 2 ^ 32 := by
    unfold ahead
    omega
  simp only [unwrap, wrap_rawValue, if_pos h]
  split_ifs <;> omega

theorem unwrap_of_not_ascends (h : ¬ Ascends n isn c) :
    unwrap n isn c =
      if 2 ^ 31 < ahead n isn c then
        if (c + 2 ^ 32) % 2 ^ 64 < 2 ^ 32 - ahead n isn c + 2 ^ 32 then
          (c + ahead n isn c) % 2 ^ 64
        else c - (2 ^ 32 - ahead n isn c)
      else (c + ahead n isn c) % 2 ^ 64 := by
  have hw := Nat.mod_lt (c + isn.rawValue.toNat) (by norm_num : 2 ^ 32 > 0)
  unfold Ascends at h
  have hahead : ahead n isn c = n.rawValue.toNat + 2 ^ 32 - (c + isn.rawValue.toNat) % 2 ^ 32 := by
    unfold ahead
    omega
  simp only [unwrap, wrap_rawValue, if_neg h]
  split_ifs <;> omega

/-- Both sides of the first branch step the same way from `c` to a number `d` ahead. -/
def SidesAgree (d c : ℕ) : Prop :=
  d < 2 ^ 31 ∨ (d = 2 ^ 31 ∧ c < 2 ^ 31) ∨ (2 ^ 31 < d ∧ c + 2 ^ 32 < 2 ^ 64)

instance (d c : ℕ) : Decidable (SidesAgree d c) :=
  inferInstanceAs (Decidable (_ ∨ _))

/-- On two sides of the first branch the results are equal exactly where the sides agree. -/
theorem unwrap_sides_iff {n' isn' : WrappingInt32} (hc : c < 2 ^ 64) (h : Ascends n isn c)
    (h' : ¬ Ascends n' isn' c) (hd : ahead n' isn' c = ahead n isn c) :
    unwrap n isn c = unwrap n' isn' c ↔ SidesAgree (ahead n isn c) c := by
  have hlt : ahead n isn c < 2 ^ 32 := ahead_lt
  rw [unwrap_of_ascends h, unwrap_of_not_ascends h', hd, SidesAgree]
  generalize ahead n isn c = d at hlt ⊢
  rcases Nat.lt_trichotomy d (2 ^ 31) with hnear | rfl | hfar
  · rw [if_pos hnear, if_neg (by omega)]
    exact iff_of_true rfl (Or.inl hnear)
  · -- half a round ahead: the side that ascends steps back where it can
    simp only [Nat.lt_irrefl, if_false, true_and, false_and, false_or, or_false]
    split_ifs <;> omega
  · rw [if_neg (by omega), if_pos hfar]
    by_cases hlast : c + 2 ^ 32 < 2 ^ 64
    · refine iff_of_true ?_ (Or.inr (Or.inr ⟨hfar, hlast⟩))
      split_ifs <;> omega
    · -- the sum with a round wraps, so the side that does not ascend steps forward
      refine iff_of_false ?_ (by omega)
      split_ifs <;> omega

/-- A shift of both numbers leaves the position alone exactly when it leaves `unwrap` on its side of
the first branch, or the two sides agree. -/
theorem unwrap_plus_iff (n isn : WrappingInt32) (k : UInt32) (checkpoint : UInt64) :
    unwrap (n.plus k) (isn.plus k) checkpoint.toNat = unwrap n isn checkpoint.toNat ↔
      (Ascends (n.plus k) (isn.plus k) checkpoint.toNat ↔ Ascends n isn checkpoint.toNat) ∨
        SidesAgree (ahead n isn checkpoint.toNat) checkpoint.toNat := by
  have hc := checkpoint.toNat_lt
  have hd := ahead_plus n isn k checkpoint.toNat
  by_cases h : Ascends n isn checkpoint.toNat <;>
    by_cases h' : Ascends (n.plus k) (isn.plus k) checkpoint.toNat
  · rw [unwrap_of_ascends h, unwrap_of_ascends h', hd]
    exact iff_of_true rfl (Or.inl (iff_of_true h' h))
  · rw [eq_comm, unwrap_sides_iff hc h h' hd]
    simp only [h, h', iff_true, false_or]
  · rw [unwrap_sides_iff hc h' h hd.symm, hd]
    simp only [h, h', true_iff, false_or]
  · rw [unwrap_of_not_ascends h, unwrap_of_not_ascends h', hd]
    exact iff_of_true rfl (Or.inl (iff_of_false h' h))

/-- Half a round ahead of `2 ^ 31`, and in the last round of checkpoints, a shift changes the
position. -/
theorem unwrap_plus_ne :
    unwrap (WrappingInt32.plus ⟨0⟩ (.ofNat (2 ^ 31))) (WrappingInt32.plus ⟨0⟩ (.ofNat (2 ^ 31)))
        (UInt64.toNat (.ofNat (2 ^ 31))) ≠
      unwrap ⟨0⟩ ⟨0⟩ (UInt64.toNat (.ofNat (2 ^ 31))) ∧
    unwrap (WrappingInt32.plus ⟨0⟩ (.ofNat (2 ^ 32 - 1)))
        (WrappingInt32.plus ⟨0⟩ (.ofNat (2 ^ 32 - 1)))
        (UInt64.toNat (.ofNat (2 ^ 64 - 2 ^ 32 + 1))) ≠
      unwrap ⟨0⟩ ⟨0⟩ (UInt64.toNat (.ofNat (2 ^ 64 - 2 ^ 32 + 1))) := by
  rw [UInt64.toNat_ofNat', UInt64.toNat_ofNat']
  decide

end Sponge
