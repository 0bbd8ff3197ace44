import Mathlib.Data.List.Basic

/-! # Sequences in pieces

A sequence that is stored in pieces loses its first items piece by piece. A piece that is used up
is dropped, and the last one that is touched is trimmed.
-/

namespace Pieces

variable {π α ε : Type*}

/-- The items of all pieces, in order. -/
def items (content : π → List α) (ps : List π) : List α := ps.flatMap content

/-- Remove `n` items in front. A piece without items is dropped on the way. -/
def removeFront (content : π → List α) (trim : π → ℕ → Except ε π) (e : ε) :
    List π → ℕ → Except ε (List π)
  | [], n => if 0 < n then .error e else .ok []
  | p :: ps, n =>
    if 0 < n then
      if n < (content p).length then do
        let p' ← trim p n
        return p' :: ps
      else removeFront content trim e ps (n - (content p).length)
    else .ok (p :: ps)

/-- Trimming removes the first items of a piece that has as many. -/
def Trims (content : π → List α) (trim : π → ℕ → Except ε π) : Prop :=
  ∀ p n, n ≤ (content p).length → ∃ p', trim p n = .ok p' ∧ content p' = (content p).drop n

variable {content : π → List α} {trim : π → ℕ → Except ε π} {e : ε} {ps : List π} {n : ℕ}

@[simp] theorem items_nil : items content [] = [] := rfl

@[simp] theorem items_cons (p : π) (ps : List π) :
    items content (p :: ps) = content p ++ items content ps := rfl

@[simp] theorem items_append (ps qs : List π) :
    items content (ps ++ qs) = items content ps ++ items content qs := List.flatMap_append

/-- Where the pieces in front have enough items, exactly the first ones are removed, and the other
pieces are not touched. -/
theorem removeFront_append (ht : Trims content trim) (qs : List π)
    (h : n ≤ (items content ps).length) :
    ∃ ps', removeFront content trim e (ps ++ qs) n = .ok (ps' ++ qs) ∧
      items content ps' = (items content ps).drop n ∧ ps'.length ≤ ps.length := by
  induction ps generalizing n with
  | nil =>
    obtain rfl : n = 0 := Nat.le_zero.mp h
    refine ⟨[], ?_, rfl, Nat.le_refl _⟩
    cases qs <;> rfl
  | cons p ps ih =>
    rw [items_cons, List.length_append] at h
    rw [List.cons_append]
    unfold removeFront
    by_cases hn : 0 < n
    · by_cases hfront : n < (content p).length
      · obtain ⟨p', htrim, hcontent⟩ := ht p n (Nat.le_of_lt hfront)
        refine ⟨p' :: ps, ?_, ?_, Nat.le_refl _⟩
        · rw [if_pos hn, if_pos hfront, htrim]
          rfl
        · rw [items_cons, items_cons, hcontent,
            List.drop_append_of_le_length (Nat.le_of_lt hfront)]
      · -- the piece is used up, and the rest is taken from the others
        obtain ⟨ps', hrest, hitems, hlen⟩ := ih (n := n - (content p).length) (by omega)
        refine ⟨ps', ?_, ?_, Nat.le_succ_of_le hlen⟩
        · rw [if_pos hn, if_neg hfront, hrest]
        · rw [items_cons, hitems, List.drop_append,
            List.drop_eq_nil_of_le (Nat.le_of_not_lt hfront), List.nil_append]
    · obtain rfl : n = 0 := Nat.eq_zero_of_not_pos hn
      exact ⟨p :: ps, if_neg hn, rfl, Nat.le_refl _⟩

theorem removeFront_ok (ht : Trims content trim) (h : n ≤ (items content ps).length) :
    ∃ ps', removeFront content trim e ps n = .ok ps' ∧
      items content ps' = (items content ps).drop n := by
  obtain ⟨ps', hok, hitems, -⟩ := removeFront_append (e := e) ht [] h
  rw [List.append_nil, List.append_nil] at hok
  exact ⟨ps', hok, hitems⟩

theorem removeFront_error (h : (items content ps).length < n) :
    removeFront content trim e ps n = .error e := by
  induction ps generalizing n with
  | nil => exact if_pos h
  | cons p ps ih =>
    rw [items_cons, List.length_append] at h
    have hn : 0 < n := by omega
    have hfront : ¬ n < (content p).length := by omega
    rw [removeFront, if_pos hn, if_neg hfront]
    apply ih
    omega

end Pieces
