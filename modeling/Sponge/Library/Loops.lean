import Mathlib.Logic.Relation
import Mathlib.Data.Nat.Notation

/-! # Loops that test at the end

A turn of the loop can fail. After a turn that does not, a condition decides whether there is
another one. A quantity that decreases from turn to turn makes the loop end.
-/

namespace Loops

variable {σ ε : Type*}

/-- Perform turns as long as `again` holds after them, `n` of them at most. -/
def loop (turn : σ → Except ε σ) (again : σ → Bool) : ℕ → σ → Option (Except ε σ)
  | 0, _ => none
  | n + 1, s =>
    match turn s with
    | .error e => some (.error e)
    | .ok s' => if again s' then loop turn again n s' else some (.ok s')

/-- The loop that begins in `s` ends with `r`. -/
def Ends (turn : σ → Except ε σ) (again : σ → Bool) (s : σ) (r : Except ε σ) : Prop :=
  ∃ n, loop turn again n s = some r

/-- The turn in `s` leads to another one, in `s'`. -/
structure Next (turn : σ → Except ε σ) (again : σ → Bool) (s s' : σ) : Prop where
  turn : turn s = .ok s'
  again : again s' = true

/-- The loop that begins in `s` performs a turn in `s'`. -/
def Visits (turn : σ → Except ε σ) (again : σ → Bool) : σ → σ → Prop :=
  Relation.ReflTransGen (Next turn again)

variable {turn : σ → Except ε σ} {again : σ → Bool} {s s' s'' : σ} {r : Except ε σ}

theorem Next.unique (h : Next turn again s s') (h' : Next turn again s s'') : s' = s'' :=
  Except.ok.inj (h.turn.symm.trans h'.turn)

theorem Visits.refl (s : σ) : Visits turn again s s := Relation.ReflTransGen.refl

theorem Visits.eq_or_next (h : Visits turn again s s'') :
    s'' = s ∨ ∃ s', Next turn again s s' ∧ Visits turn again s' s'' := by
  rcases h.cases_head with rfl | ⟨s', hnext, hrest⟩
  · exact Or.inl rfl
  · exact Or.inr ⟨s', hnext, hrest⟩

theorem Next.visits (h : Next turn again s s') (hv : Visits turn again s' s'') :
    Visits turn again s s'' := .head h hv

theorem Visits.invariant {I : σ → Prop} (hstep : ∀ s s', I s → Next turn again s s' → I s')
    (h : Visits turn again s s') (hi : I s) : I s' := by
  induction h with
  | refl => exact hi
  | tail _ hnext ih => exact hstep _ _ ih hnext

theorem ends_of_last (hturn : turn s = .ok s') (ha : again s' = false) :
    Ends turn again s (.ok s') := by
  refine ⟨1, ?_⟩
  rw [loop, hturn]
  simp [ha]

theorem Next.ends (h : Next turn again s s') (he : Ends turn again s' r) :
    Ends turn again s r := by
  obtain ⟨n, hn⟩ := he
  refine ⟨n + 1, ?_⟩
  rw [loop, h.turn]
  simp [h.again, hn]

/-- A loop that ends without an error performs its last turn, or another one that does so. -/
theorem ends_induction {P : σ → Prop} (he : Ends turn again s (.ok s''))
    (hlast : ∀ s, turn s = .ok s'' → again s'' = false → P s)
    (hnext : ∀ s s', Next turn again s s' → P s' → P s) : P s := by
  obtain ⟨n, hn⟩ := he
  induction n generalizing s with
  | zero => simp [loop] at hn
  | succ n ih =>
    rw [loop] at hn
    cases hturn : turn s with
    | error e =>
      rw [hturn] at hn
      cases hn
    | ok s' =>
      rw [hturn] at hn
      by_cases ha : again s' = true
      · simp only [ha, if_true] at hn
        exact hnext s s' ⟨hturn, ha⟩ (ih hn)
      · simp only [ha, Bool.false_eq_true, if_false, Option.some.injEq, Except.ok.injEq] at hn
        subst hn
        exact hlast s hturn (by simpa using ha)

/-- If no turn fails as long as `I` holds, which every turn keeps while `v` decreases, then the loop
ends, and what each last turn brings about holds at its end. -/
theorem ends_of_variant {I Q : σ → Prop} (v : σ → ℕ)
    (hturn : ∀ s, I s → ∃ s', turn s = .ok s' ∧ (again s' = true → I s' ∧ v s' < v s) ∧
      (again s' = false → Q s')) (hi : I s) : ∃ s', Ends turn again s (.ok s') ∧ Q s' := by
  induction hv : v s using Nat.strongRecOn generalizing s with
  | ind k ih =>
    obtain ⟨s', hs', hgo, hstop⟩ := hturn s hi
    cases ha : again s' with
    | false => exact ⟨s', ends_of_last hs' ha, hstop ha⟩
    | true =>
      obtain ⟨hi', hlt⟩ := hgo ha
      obtain ⟨s'', he, hq⟩ := ih (v s') (hv ▸ hlt) hi' rfl
      exact ⟨s'', (Next.mk hs' ha).ends he, hq⟩

end Loops
