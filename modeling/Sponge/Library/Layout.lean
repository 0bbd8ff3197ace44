import Mathlib.Data.List.Infix
import Mathlib.Tactic

/-! # Consecutive placement

Items of given lengths are laid out one behind the other from position 0. Each
position below the extent is covered by an item, and appending items moves none
of those already placed.
-/

namespace Layout

variable {α : Type*} {len : α → ℕ} {xs ys : List α} {p q : ℕ} {x y : α}

/-- The length of all items together. -/
def extent (len : α → ℕ) (xs : List α) : ℕ := (xs.map len).sum

/-- The item `x` is placed at position `p`. -/
def At (len : α → ℕ) (xs : List α) (p : ℕ) (x : α) : Prop :=
  ∃ before, before ++ [x] <+: xs ∧ extent len before = p

@[simp] theorem extent_nil : extent len [] = 0 := rfl

@[simp] theorem extent_append : extent len (xs ++ ys) = extent len xs + extent len ys := by
  simp [extent]

@[simp] theorem extent_cons : extent len (x :: xs) = len x + extent len xs := by simp [extent]

theorem extent_mono (h : xs <+: ys) : extent len xs ≤ extent len ys := by
  obtain ⟨zs, rfl⟩ := h
  simp

theorem extent_pos (h : ∀ x ∈ xs, 0 < len x) (hne : xs ≠ []) : 0 < extent len xs := by
  obtain ⟨x, hx⟩ := List.exists_mem_of_ne_nil xs hne
  have hle : len x ≤ extent len xs := List.le_sum_of_mem (List.mem_map_of_mem hx)
  exact (h x hx).trans_le hle

theorem not_at_nil : ¬ At len [] p x := by
  rintro ⟨before, h, _⟩
  simp at h

theorem At.mono (h : At len xs p x) (hxy : xs <+: ys) : At len ys p x := by
  obtain ⟨before, hb, hp⟩ := h
  exact ⟨before, hb.trans hxy, hp⟩

theorem At.add_le (h : At len xs p x) : p + len x ≤ extent len xs := by
  obtain ⟨before, hb, rfl⟩ := h
  have hle : extent len (before ++ [x]) ≤ extent len xs := extent_mono hb
  simpa using hle

theorem At.mem (h : At len xs p x) : x ∈ xs := by
  obtain ⟨before, hb, _⟩ := h
  exact hb.subset (by simp)

theorem exists_at_of_mem (h : x ∈ xs) : ∃ p, At len xs p x := by
  obtain ⟨before, after, rfl⟩ := List.append_of_mem h
  exact ⟨_, before, ⟨after, by simp⟩, rfl⟩

theorem at_concat : At len (xs ++ [y]) p x ↔ At len xs p x ∨ (p = extent len xs ∧ x = y) := by
  constructor
  · rintro ⟨before, hb, hp⟩
    rcases List.prefix_concat_iff.mp hb with heq | hpre
    · obtain ⟨rfl, hx⟩ := List.append_inj' heq rfl
      exact Or.inr ⟨hp.symm, by simpa using hx⟩
    · exact Or.inl ⟨before, hpre, hp⟩
  · rintro (h | ⟨rfl, rfl⟩)
    · exact h.mono (List.prefix_append _ _)
    · exact ⟨xs, List.prefix_rfl, rfl⟩

theorem at_singleton : At len [y] p x ↔ p = 0 ∧ x = y := by
  have h : At len ([] ++ [y]) p x ↔ At len [] p x ∨ (p = extent len [] ∧ x = y) := at_concat
  simpa [not_at_nil] using h

theorem at_append : At len (xs ++ ys) p x ↔
    At len xs p x ∨ ∃ q, At len ys q x ∧ p = extent len xs + q := by
  induction ys using List.reverseRecOn generalizing p x with
  | nil => simp [not_at_nil]
  | append_singleton ys y ih =>
    rw [← List.append_assoc, at_concat, ih, extent_append]
    simp only [at_concat]
    constructor
    · rintro ((h | ⟨q, hq, rfl⟩) | ⟨rfl, rfl⟩)
      · exact Or.inl h
      · exact Or.inr ⟨q, Or.inl hq, rfl⟩
      · exact Or.inr ⟨_, Or.inr ⟨rfl, rfl⟩, rfl⟩
    · rintro (h | ⟨q, hq | ⟨rfl, rfl⟩, rfl⟩)
      · exact Or.inl (Or.inl h)
      · exact Or.inl (Or.inr ⟨q, hq, rfl⟩)
      · exact Or.inr ⟨rfl, rfl⟩

theorem exists_at_of_lt (h : q < extent len xs) :
    ∃ p x, At len xs p x ∧ p ≤ q ∧ q < p + len x := by
  induction xs using List.reverseRecOn with
  | nil => simp at h
  | append_singleton xs y ih =>
    rcases Nat.lt_or_ge q (extent len xs) with hq | hq
    · obtain ⟨p, x, hx, hp⟩ := ih hq
      exact ⟨p, x, at_concat.mpr (Or.inl hx), hp⟩
    · refine ⟨extent len xs, y, at_concat.mpr (Or.inr ⟨rfl, rfl⟩), hq, ?_⟩
      simpa using h

/-- The items with their positions, from `p` on. -/
def place (len : α → ℕ) : ℕ → List α → List (ℕ × α)
  | _, [] => []
  | p, x :: xs => (p, x) :: place len (p + len x) xs

@[simp] theorem place_nil : place len p [] = [] := rfl

@[simp] theorem place_cons : place len p (x :: xs) = (p, x) :: place len (p + len x) xs := rfl

@[simp] theorem map_snd_place : (place len p xs).map Prod.snd = xs := by
  induction xs generalizing p with
  | nil => rfl
  | cons x xs ih => simp [ih]

theorem place_append :
    place len p (xs ++ ys) = place len p xs ++ place len (p + extent len xs) ys := by
  induction xs generalizing p with
  | nil => simp
  | cons x xs ih => simp [ih, add_assoc]

theorem mem_place {c : ℕ × α} : c ∈ place len p xs ↔ ∃ i, At len xs i c.2 ∧ c.1 = p + i := by
  induction xs using List.reverseRecOn with
  | nil => simp [not_at_nil]
  | append_singleton xs y ih =>
    rw [place_append, List.mem_append, ih, place_cons, place_nil, List.mem_singleton]
    simp only [at_concat]
    constructor
    · rintro (⟨i, hi, hc⟩ | rfl)
      · exact ⟨i, Or.inl hi, hc⟩
      · exact ⟨_, Or.inr ⟨rfl, rfl⟩, rfl⟩
    · rintro ⟨i, hi | ⟨rfl, hy⟩, hc⟩
      · exact Or.inl ⟨i, hi, hc⟩
      · exact Or.inr (Prod.ext hc hy)

theorem pairwise_place (h : ∀ x ∈ xs, 0 < len x) :
    (place len p xs).Pairwise fun c d => c.1 < d.1 := by
  induction xs generalizing p with
  | nil => exact .nil
  | cons x xs ih =>
    refine .cons (fun c hc => ?_) (ih fun y hy => h y (List.mem_cons_of_mem x hy))
    obtain ⟨i, -, hi⟩ := mem_place.mp hc
    have := h x List.mem_cons_self
    simp only at hi ⊢
    omega

/-- The items that end past the position `a`. -/
def past (len : α → ℕ) (a : ℕ) (xs : List α) : List (ℕ × α) :=
  (place len 0 xs).filter fun c => a < c.1 + len c.2

theorem mem_past {a : ℕ} {c : ℕ × α} :
    c ∈ past len a xs ↔ At len xs c.1 c.2 ∧ a < c.1 + len c.2 := by
  simp only [past, List.mem_filter, mem_place, decide_eq_true_eq, zero_add]
  constructor
  · rintro ⟨⟨i, hi, rfl⟩, hlt⟩
    exact ⟨hi, hlt⟩
  · rintro ⟨hi, hlt⟩
    exact ⟨⟨_, hi, rfl⟩, hlt⟩

theorem pairwise_past {a : ℕ} (h : ∀ x ∈ xs, 0 < len x) :
    (past len a xs).Pairwise fun c d => c.1 < d.1 := (pairwise_place h).filter _

theorem past_append {a : ℕ} (ha : a ≤ extent len xs) (h : ∀ y ∈ ys, 0 < len y) :
    past len a (xs ++ ys) = past len a xs ++ place len (extent len xs) ys := by
  rw [past, place_append, List.filter_append, zero_add]
  congr 1
  apply List.filter_eq_self.mpr
  intro c hc
  obtain ⟨i, hi, hc⟩ := mem_place.mp hc
  have := h c.2 hi.mem
  simp only [decide_eq_true_eq]
  omega

theorem past_past {a b : ℕ} (h : a ≤ b) :
    (past len a xs).filter (fun c => b < c.1 + len c.2) = past len b xs := by
  rw [past, List.filter_filter, past]
  apply List.filter_congr
  intro c _
  by_cases hc : b < c.1 + len c.2
  · simp [hc, h.trans_lt hc]
  · simp [hc]

theorem past_eq_place (len : α → ℕ) (a : ℕ) (xs : List α) :
    ∃ before after, xs = before ++ after ∧ past len a xs = place len (extent len before) after := by
  have key : ∀ p, ∃ before after, xs = before ++ after ∧
      ((place len p xs).filter fun c => a < c.1 + len c.2) =
        place len (p + extent len before) after := by
    induction xs with
    | nil => exact fun p => ⟨[], [], rfl, rfl⟩
    | cons x xs ih =>
      intro p
      by_cases hx : a < p + len x
      · refine ⟨[], x :: xs, rfl, ?_⟩
        rw [extent_nil, add_zero]
        apply List.filter_eq_self.mpr
        intro c hc
        rcases List.mem_cons.mp hc with rfl | hc
        · simpa using hx
        · obtain ⟨i, -, hi⟩ := mem_place.mp hc
          simp only [decide_eq_true_eq]
          omega
      · obtain ⟨before, after, rfl, hfilter⟩ := ih (p + len x)
        refine ⟨x :: before, after, rfl, ?_⟩
        rw [place_cons, List.filter_cons_of_neg (by simpa using hx), hfilter, extent_cons,
          add_assoc]
  obtain ⟨before, after, hxs, hfilter⟩ := key 0
  exact ⟨before, after, hxs, by rw [past, hfilter, zero_add]⟩

/-- From the lowest item that ends past `a` on, these items fill the rest of the extent. -/
theorem sum_past {a : ℕ} {c : ℕ × α} (hc : c ∈ past len a xs)
    (hlow : ∀ d ∈ past len a xs, c.1 ≤ d.1) :
    c.1 + extent len ((past len a xs).map Prod.snd) = extent len xs := by
  obtain ⟨before, after, rfl, heq⟩ := past_eq_place len a xs
  rw [heq] at hc hlow ⊢
  rw [map_snd_place, extent_append]
  cases after with
  | nil => simp at hc
  | cons x after =>
    have hle := hlow _ List.mem_cons_self
    obtain ⟨i, -, hi⟩ := mem_place.mp hc
    simp only at hle
    omega

end Layout
