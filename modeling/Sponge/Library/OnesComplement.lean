import Mathlib.Tactic

/-! # Ones' complement sums

Numbers are added in base `b`, and the carries are added back until a single digit is
left. The digit determines the sum up to multiples of `b - 1`, and its complement brings
the sum to the highest digit.
-/

namespace OnesComplement

variable {b n : ℕ}

/-- Add the carries to the lowest digit. -/
def fold (b n : ℕ) : ℕ := n / b + n % b

/-- The digit that is left when all carries have been added back. -/
def digit (b n : ℕ) : ℕ := if n = 0 then 0 else (n - 1) % (b - 1) + 1

theorem fold_add (hb : 0 < b) (n : ℕ) : fold b n + (b - 1) * (n / b) = n := by
  obtain ⟨k, rfl⟩ := Nat.exists_eq_add_of_lt hb
  have hdiv := Nat.div_add_mod n (0 + k + 1)
  have hmul : (0 + k + 1) * (n / (0 + k + 1)) =
      (0 + k + 1 - 1) * (n / (0 + k + 1)) + n / (0 + k + 1) := by
    rw [Nat.add_sub_cancel, add_one_mul]
  rw [fold]
  omega

theorem fold_eq_zero_iff : fold b n = 0 ↔ n = 0 := by
  constructor
  · intro h
    have hdiv := Nat.div_add_mod n b
    obtain ⟨hq, hr⟩ := Nat.add_eq_zero_iff.mp h
    rw [hq, hr, mul_zero] at hdiv
    exact hdiv.symm
  · rintro rfl
    simp [fold]

theorem digit_fold (hb : 0 < b) (n : ℕ) : digit b (fold b n) = digit b n := by
  by_cases hn : n = 0
  · rw [fold_eq_zero_iff.mpr hn, hn]
  · have hf : fold b n ≠ 0 := mt fold_eq_zero_iff.mp hn
    have hsum := fold_add hb n
    have hpred : n - 1 = (fold b n - 1) + (b - 1) * (n / b) := by omega
    rw [digit, digit, if_neg hn, if_neg hf, hpred, Nat.add_mul_mod_self_left]

theorem digit_of_lt (hn : n < b) : digit b n = n := by
  unfold digit
  split_ifs with h
  · exact h.symm
  · rw [Nat.mod_eq_of_lt (by omega)]
    omega

theorem digit_lt (hb : 2 ≤ b) (n : ℕ) : digit b n < b := by
  unfold digit
  split_ifs
  · omega
  · have := Nat.mod_lt (n - 1) (show 0 < b - 1 by omega)
    omega

theorem digit_add (hn : n ≠ 0) : digit b n + (b - 1) * ((n - 1) / (b - 1)) = n := by
  have hdiv := Nat.div_add_mod (n - 1) (b - 1)
  rw [digit, if_neg hn]
  omega

theorem digit_add_mul (hn : n ≠ 0) (k : ℕ) : digit b (n + (b - 1) * k) = digit b n := by
  have hne : n + (b - 1) * k ≠ 0 := by omega
  have hpred : n + (b - 1) * k - 1 = (n - 1) + (b - 1) * k := by omega
  rw [digit, digit, if_neg hn, if_neg hne, hpred, Nat.add_mul_mod_self_left]

theorem digit_digit_add (m n : ℕ) : digit b (digit b m + n) = digit b (m + n) := by
  by_cases hm : m = 0
  · subst hm
    rfl
  · have hsum := digit_add (b := b) hm
    have hpos : digit b m ≠ 0 := by
      rw [digit, if_neg hm]
      exact Nat.succ_ne_zero _
    have hmul : m + n = digit b m + n + (b - 1) * ((m - 1) / (b - 1)) := by omega
    rw [hmul, digit_add_mul (by omega)]

/-- Ones' complement addition of two digits: the carry is added back at once. -/
def plus (b m n : ℕ) : ℕ := fold b (m + n)

theorem plus_lt {m : ℕ} (hm : m < b) (hn : n < b) : plus b m n < b := by
  have hb : 0 < b := by omega
  have hfold := fold_add hb (m + n)
  have hcarry : (m + n) / b < 2 := (Nat.div_lt_iff_lt_mul hb).mpr (by omega)
  rw [plus]
  interval_cases hq : (m + n) / b
  · have hlt := (Nat.div_eq_zero_iff_lt hb).mp hq
    omega
  · omega

/-- Digits are summed with every carry added back at once, or with all of them at the end. -/
theorem foldl_plus (hb : 2 ≤ b) {ns : List ℕ} (hns : ∀ n ∈ ns, n < b) (m : ℕ) :
    ns.foldl (plus b) (digit b m) = digit b (m + ns.sum) := by
  induction ns generalizing m with
  | nil => rfl
  | cons n ns ih =>
    have hlt := plus_lt (digit_lt hb m) (hns n List.mem_cons_self)
    have hstep : plus b (digit b m) n = digit b (m + n) := by
      rw [← digit_of_lt hlt, plus, digit_fold (by omega), digit_digit_add]
    rw [List.foldl_cons, hstep, ih fun n' hn' => hns n' (List.mem_cons_of_mem n hn'),
      List.sum_cons, add_assoc]

theorem digit_eq_pred_iff (hb : 2 ≤ b) : digit b n = b - 1 ↔ n ≠ 0 ∧ b - 1 ∣ n := by
  constructor
  · intro h
    have hn : n ≠ 0 := by
      rintro rfl
      simp only [digit, if_true] at h
      omega
    refine ⟨hn, ?_⟩
    rw [← digit_add (b := b) hn, h]
    exact (dvd_refl _).add (dvd_mul_right _ _)
  · rintro ⟨hn, k, rfl⟩
    have hk : k ≠ 0 := right_ne_zero_of_mul hn
    obtain ⟨k, rfl⟩ := Nat.exists_eq_succ_of_ne_zero hk
    have hpred : (b - 1) * (k + 1) - 1 = (b - 2) + (b - 1) * k := by
      rw [mul_add, mul_one]
      omega
    rw [digit, if_neg hn, hpred, Nat.add_mul_mod_self_left, Nat.mod_eq_of_lt (by omega)]
    omega

theorem digit_add_complement (hb : 2 ≤ b) (n : ℕ) :
    digit b (n + (b - 1 - digit b n)) = b - 1 := by
  have hlt := digit_lt hb n
  by_cases hn : n = 0
  · subst hn
    have hzero : digit b 0 = 0 := rfl
    rw [hzero, zero_add, Nat.sub_zero]
    exact digit_of_lt (by omega)
  · have hsum := digit_add (b := b) hn
    refine (digit_eq_pred_iff hb).mpr ⟨by omega, ?_⟩
    have hmul : n + (b - 1 - digit b n) = (b - 1) * ((n - 1) / (b - 1) + 1) := by
      rw [mul_add, mul_one]
      omega
    rw [hmul]
    exact dvd_mul_right _ _

end OnesComplement
