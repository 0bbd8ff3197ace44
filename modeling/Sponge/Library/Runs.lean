import Mathlib.Data.List.Infix
import Mathlib.Data.List.Basic

/-! # Runs of a step function

A run applies a list of operations one after another. An operation may be
admitted or not in the state it meets; an invariant or a relation that every
admitted step preserves holds after every admitted run. The same holds where a
step can fail.
-/

namespace Runs

universe u

variable {σ τ ι : Type*} {step : σ → ι → σ} {step' : τ → ι → τ} {ok : σ → ι → Prop}

/-- The state after performing the operations in order. -/
def run (step : σ → ι → σ) (s : σ) (os : List ι) : σ := os.foldl step s

/-- Every operation is admitted in the state it meets. -/
def Admitted (step : σ → ι → σ) (ok : σ → ι → Prop) : σ → List ι → Prop
  | _, [] => True
  | s, o :: os => ok s o ∧ Admitted step ok (step s o) os

instance instDecidableAdmitted [∀ s o, Decidable (ok s o)] :
    ∀ (s : σ) (os : List ι), Decidable (Admitted step ok s os)
  | _, [] => instDecidableTrue
  | s, o :: os =>
    have := instDecidableAdmitted (step s o) os
    inferInstanceAs (Decidable (ok s o ∧ Admitted step ok (step s o) os))

@[simp] theorem run_nil (s : σ) : run step s [] = s := rfl

@[simp] theorem run_cons (s : σ) (o : ι) (os : List ι) :
    run step s (o :: os) = run step (step s o) os := rfl

theorem run_append (s : σ) (os os' : List ι) :
    run step s (os ++ os') = run step (run step s os) os' := List.foldl_append

@[simp] theorem run_concat (s : σ) (os : List ι) (o : ι) :
    run step s (os ++ [o]) = step (run step s os) o := by simp [run_append]

@[simp] theorem admitted_nil (s : σ) : Admitted step ok s [] := trivial

@[simp] theorem admitted_cons (s : σ) (o : ι) (os : List ι) :
    Admitted step ok s (o :: os) ↔ ok s o ∧ Admitted step ok (step s o) os := Iff.rfl

theorem Admitted.mono {ok' : σ → ι → Prop} (h : ∀ s o, ok s o → ok' s o) {s : σ} {os : List ι}
    (ha : Admitted step ok s os) : Admitted step ok' s os := by
  induction os generalizing s with
  | nil => trivial
  | cons o os ih => exact ⟨h _ _ ha.1, ih ha.2⟩

theorem Admitted.of_forall {q : ι → Prop} {s : σ} {os : List ι} (hq : ∀ o ∈ os, q o) :
    Admitted step (fun _ o => q o) s os := by
  induction os generalizing s with
  | nil => trivial
  | cons o os ih =>
    exact ⟨hq o List.mem_cons_self, ih fun o ho => hq o (List.mem_cons_of_mem _ ho)⟩

theorem Admitted.and_forall {q : ι → Prop} {s : σ} {os : List ι} (h : Admitted step ok s os)
    (hq : ∀ o ∈ os, q o) : Admitted step (fun s o => ok s o ∧ q o) s os := by
  induction os generalizing s with
  | nil => trivial
  | cons o os ih =>
    exact ⟨⟨h.1, hq o List.mem_cons_self⟩, ih h.2 fun o ho => hq o (List.mem_cons_of_mem _ ho)⟩

theorem Admitted.and {ok' : σ → ι → Prop} {s : σ} {os : List ι} (h : Admitted step ok s os)
    (h' : Admitted step ok' s os) : Admitted step (fun s o => ok s o ∧ ok' s o) s os := by
  induction os generalizing s with
  | nil => trivial
  | cons o os ih => exact ⟨⟨h.1, h'.1⟩, ih h.2 h'.2⟩

theorem admitted_append {s : σ} {os os' : List ι} :
    Admitted step ok s (os ++ os') ↔
      Admitted step ok s os ∧ Admitted step ok (run step s os) os' := by
  induction os generalizing s with
  | nil => simp
  | cons o os ih => simp [ih, and_assoc]

theorem Admitted.of_isPrefix {s : σ} {os os' : List ι} (h : Admitted step ok s os)
    (hp : os' <+: os) : Admitted step ok s os' := by
  obtain ⟨os'', rfl⟩ := hp
  exact (admitted_append.mp h).1

theorem Admitted.and_of_last {P : σ → Prop} (hback : ∀ s o, P (step s o) → P s) {s : σ}
    {os : List ι} (h : Admitted step ok s os) (hp : P (run step s os)) :
    P s ∧ Admitted step (fun s o => ok s o ∧ P (step s o)) s os := by
  induction os generalizing s with
  | nil => exact ⟨hp, trivial⟩
  | cons o os ih =>
    obtain ⟨hnext, hrest⟩ := ih h.2 hp
    exact ⟨hback _ _ hnext, ⟨h.1, hnext⟩, hrest⟩

theorem Admitted.invariant {I : σ → Prop} (hstep : ∀ s o, I s → ok s o → I (step s o))
    {s : σ} {os : List ι} (h : Admitted step ok s os) (hi : I s) : I (run step s os) := by
  induction os generalizing s with
  | nil => exact hi
  | cons o os ih => exact ih h.2 (hstep _ _ hi h.1)

theorem Admitted.imp {ok' : σ → ι → Prop} {I : σ → Prop}
    (hstep : ∀ s o, I s → ok s o → I (step s o)) (himp : ∀ s o, I s → ok s o → ok' s o)
    {s : σ} {os : List ι} (h : Admitted step ok s os) (hi : I s) : Admitted step ok' s os := by
  induction os generalizing s with
  | nil => trivial
  | cons o os ih => exact ⟨himp _ _ hi h.1, ih h.2 (hstep _ _ hi h.1)⟩

theorem run_invariant {I : σ → Prop} (hstep : ∀ s o, I s → I (step s o)) {s : σ} {os : List ι}
    (hi : I s) : I (run step s os) :=
  (Admitted.of_forall (q := fun _ => True) fun _ _ => trivial).invariant
    (fun s o hs _ => hstep s o hs) hi

/-- A relation that every admitted step preserves relates the states after an admitted run. -/
theorem Admitted.simulation {R : σ → τ → Prop}
    (hstep : ∀ s t o, R s t → ok s o → R (step s o) (step' t o))
    {s : σ} {t : τ} {os : List ι} (h : Admitted step ok s os) (hr : R s t) :
    R (run step s os) (run step' t os) := by
  induction os generalizing s t with
  | nil => exact hr
  | cons o os ih => exact ih h.2 (hstep _ _ _ hr h.1)

/-- If, within an invariant and between good states, the admitted steps are exactly those that
lead to good states, then the admitted runs are exactly those all of whose states are good. -/
theorem forall_prefix_iff_admitted {I P : σ → Prop} {pre : σ → ι → Prop}
    (hi : ∀ s o, I s → pre s o → I (step s o))
    (hp : ∀ s o, I s → P s → pre s o → (P (step s o) ↔ ok s o))
    {s : σ} {os : List ι} (hs : I s) (hg : P s) (h : Admitted step pre s os) :
    (∀ os', os' <+: os → P (run step s os')) ↔ Admitted step ok s os := by
  induction os generalizing s with
  | nil => simpa using hg
  | cons o os ih =>
    have hi' := hi _ _ hs h.1
    constructor
    · intro hall
      have hnext : P (step s o) := hall [o] (by simp)
      refine ⟨(hp _ _ hs hg h.1).mp hnext, (ih hi' hnext h.2).mp ?_⟩
      intro os' hos
      exact hall (o :: os') (by simpa using hos)
    · rintro ⟨ho, hos⟩ os' hpre
      have hnext := (hp _ _ hs hg h.1).mpr ho
      cases os' with
      | nil => exact hg
      | cons o' os' =>
        have hcons := List.cons_prefix_cons.mp hpre
        rw [hcons.1, run_cons]
        exact (ih hi' hnext h.2).mpr hos os' hcons.2

section Fallible

variable {ε α β : Type*} {stepE : σ → ι → Except ε σ}

/-- A run of a step function that can fail. -/
def runE (stepE : σ → ι → Except ε σ) (s : σ) (os : List ι) : Except ε σ := os.foldlM stepE s

/-- Every operation is admitted in the state it meets, as long as none has failed. -/
def AdmittedE (stepE : σ → ι → Except ε σ) (ok : σ → ι → Prop) : σ → List ι → Prop
  | _, [] => True
  | s, o :: os => ok s o ∧
    match stepE s o with
    | .ok s' => AdmittedE stepE ok s' os
    | .error _ => True

instance instDecidableAdmittedE [∀ s o, Decidable (ok s o)] :
    ∀ (s : σ) (os : List ι), Decidable (AdmittedE stepE ok s os)
  | _, [] => instDecidableTrue
  | s, o :: os =>
    match h : stepE s o with
    | .ok s' =>
      have := instDecidableAdmittedE s' os
      decidable_of_iff (ok s o ∧ AdmittedE stepE ok s' os) (by rw [AdmittedE, h])
    | .error _ => decidable_of_iff (ok s o) (by rw [AdmittedE, h, and_true])

/-- If the admitted steps do not fail and preserve an invariant, an admitted run does not fail
and ends with the invariant. -/
theorem AdmittedE.invariant {I : σ → Prop}
    (hstep : ∀ s o, I s → ok s o → ∃ s', stepE s o = .ok s' ∧ I s') {s : σ} {os : List ι}
    (h : AdmittedE stepE ok s os) (hi : I s) : ∃ s', runE stepE s os = .ok s' ∧ I s' := by
  induction os generalizing s with
  | nil => exact ⟨s, rfl, hi⟩
  | cons o os ih =>
    obtain ⟨s', hs', hi'⟩ := hstep s o hi h.1
    have hrest := h.2
    rw [hs'] at hrest
    obtain ⟨s'', hs'', hi''⟩ := ih hrest hi'
    refine ⟨s'', ?_, hi''⟩
    rw [runE, List.foldlM_cons, hs']
    exact hs''

theorem AdmittedE.mono {ok' : σ → ι → Prop} (h : ∀ s o, ok s o → ok' s o) {s : σ} {os : List ι}
    (ha : AdmittedE stepE ok s os) : AdmittedE stepE ok' s os := by
  induction os generalizing s with
  | nil => trivial
  | cons o os ih =>
    refine ⟨h _ _ ha.1, ?_⟩
    have hrest := ha.2
    cases hs : stepE s o with
    | ok s' =>
      rw [hs] at hrest
      exact ih hrest
    | error => trivial

theorem AdmittedE.of_forall {q : ι → Prop} {s : σ} {os : List ι} (hq : ∀ o ∈ os, q o) :
    AdmittedE stepE (fun _ o => q o) s os := by
  induction os generalizing s with
  | nil => trivial
  | cons o os ih =>
    refine ⟨hq o List.mem_cons_self, ?_⟩
    cases stepE s o with
    | ok s' => exact ih fun o ho => hq o (List.mem_cons_of_mem _ ho)
    | error => trivial

theorem AdmittedE.and_forall {q : ι → Prop} {s : σ} {os : List ι} (h : AdmittedE stepE ok s os)
    (hq : ∀ o ∈ os, q o) : AdmittedE stepE (fun s o => ok s o ∧ q o) s os := by
  induction os generalizing s with
  | nil => trivial
  | cons o os ih =>
    refine ⟨⟨h.1, hq o List.mem_cons_self⟩, ?_⟩
    have hrest := h.2
    cases hs : stepE s o with
    | ok s' =>
      rw [hs] at hrest
      exact ih hrest fun o ho => hq o (List.mem_cons_of_mem _ ho)
    | error => trivial

/-- A property of the last state that no step brings about held all along; what the steps between
states with this property preserve holds at the end. -/
theorem AdmittedE.invariant_of_last {I J P : σ → Prop}
    (hback : ∀ s o s', J s → ok s o → stepE s o = .ok s' → J s' ∧ (P s' → P s))
    (hstep : ∀ s o s', J s → I s → P s' → ok s o → stepE s o = .ok s' → I s') {s s' : σ}
    {os : List ι} (h : AdmittedE stepE ok s os) (hrun : runE stepE s os = .ok s') (hj : J s)
    (hp : P s') (hi : P s → I s) : J s' ∧ I s' := by
  induction os generalizing s with
  | nil =>
    obtain rfl := Except.ok.inj hrun
    exact ⟨hj, hi hp⟩
  | cons o os ih =>
    cases hs : stepE s o with
    | error e =>
      rw [runE, List.foldlM_cons, hs] at hrun
      cases hrun
    | ok s₁ =>
      have hrest := h.2
      rw [hs] at hrest
      have hrun' : runE stepE s₁ os = .ok s' := by
        rw [runE, List.foldlM_cons, hs] at hrun
        exact hrun
      obtain ⟨hj₁, hp₁⟩ := hback s o s₁ hj h.1 hs
      exact ih hrest hrun' hj₁ fun hlast => hstep s o s₁ hj (hi (hp₁ hlast)) hlast h.1 hs

theorem bind_ok_iff {γ δ : Type u} {x : Except ε γ} {f : γ → Except ε δ} {b : δ} :
    (x >>= f) = .ok b ↔ ∃ a, x = .ok a ∧ f a = .ok b := by
  cases x with
  | error e => exact iff_of_false (fun h => by cases h) (by rintro ⟨a, h, -⟩; cases h)
  | ok a => exact ⟨fun h => ⟨a, rfl, h⟩, by rintro ⟨a', ⟨⟩, h⟩; exact h⟩

theorem bind_error_iff {γ δ : Type u} {x : Except ε γ} {f : γ → Except ε δ} {e : ε} :
    (x >>= f) = .error e ↔ x = .error e ∨ ∃ a, x = .ok a ∧ f a = .error e := by
  cases x with
  | error e' =>
    constructor
    · intro h
      cases h
      exact Or.inl rfl
    · rintro (h | ⟨a, h, -⟩)
      · cases h
        rfl
      · cases h
  | ok a =>
    constructor
    · exact fun h => Or.inr ⟨a, rfl, h⟩
    · rintro (h | ⟨a', ⟨⟩, h⟩)
      · cases h
      · exact h

theorem map_ok_iff {γ δ : Type u} {x : Except ε γ} {f : γ → δ} {b : δ} :
    x.map f = .ok b ↔ ∃ a, x = .ok a ∧ f a = b := by
  cases x with
  | error e => exact iff_of_false (fun h => by cases h) (by rintro ⟨a, h, -⟩; cases h)
  | ok a => simp [Except.map]

theorem map_throws_iff {γ δ : Type u} {x : Except ε γ} {f : γ → δ} :
    (∃ e, x.map f = .error e) ↔ ∃ e, x = .error e := by
  cases x with
  | error e => exact iff_of_true ⟨e, rfl⟩ ⟨e, rfl⟩
  | ok a => exact iff_of_false (by rintro ⟨e, he⟩; cases he) (by rintro ⟨e, he⟩; cases he)

theorem AdmittedE.invariant_of_ok {I : σ → Prop}
    (hstep : ∀ s o s', I s → ok s o → stepE s o = .ok s' → I s') {s s' : σ} {os : List ι}
    (h : AdmittedE stepE ok s os) (hrun : runE stepE s os = .ok s') (hi : I s) : I s' := by
  have hlast := h.invariant_of_last (I := fun _ => True) (P := fun _ => True)
    (fun s o s' hi ho hs => ⟨hstep s o s' hi ho hs, id⟩) (fun _ _ _ _ _ _ _ _ => trivial) hrun hi
    trivial fun _ => trivial
  exact hlast.1

/-- An admitted run leads from `s` to `s'`. -/
def ReachesE (stepE : σ → ι → Except ε σ) (ok : σ → ι → Prop) (s s' : σ) : Prop :=
  ∃ os, AdmittedE stepE ok s os ∧ runE stepE s os = .ok s'

theorem ReachesE.refl (s : σ) : ReachesE stepE ok s s := ⟨[], trivial, rfl⟩

theorem ReachesE.head {s s₁ s' : σ} {o : ι} (ho : ok s o) (hs : stepE s o = .ok s₁)
    (h : ReachesE stepE ok s₁ s') : ReachesE stepE ok s s' := by
  obtain ⟨os, hadm, hrun⟩ := h
  refine ⟨o :: os, ⟨ho, ?_⟩, ?_⟩
  · rw [hs]
    exact hadm
  · rw [runE, List.foldlM_cons, hs]
    exact hrun

theorem ReachesE.trans {s s₁ s' : σ} (h : ReachesE stepE ok s s₁) (h' : ReachesE stepE ok s₁ s') :
    ReachesE stepE ok s s' := by
  obtain ⟨os, hadm, hrun⟩ := h
  induction os generalizing s with
  | nil =>
    obtain rfl := Except.ok.inj hrun
    exact h'
  | cons o os ih =>
    rw [runE, List.foldlM_cons] at hrun
    obtain ⟨s₂, hs, hrest⟩ := bind_ok_iff.mp hrun
    have hadm' := hadm.2
    rw [hs] at hadm'
    exact .head hadm.1 hs (ih hadm' hrest)

theorem ReachesE.tail {s s₁ s' : σ} {o : ι} (h : ReachesE stepE ok s s₁) (ho : ok s₁ o)
    (hs : stepE s₁ o = .ok s') : ReachesE stepE ok s s' := h.trans (.head ho hs (.refl s'))

theorem exists_ok {r : Except ε α} {P : α → Prop} [DecidablePred P]
    (h : r.toOption.any (fun x => decide (P x)) = true) : ∃ x, r = .ok x ∧ P x := by
  cases r with
  | ok x => exact ⟨x, rfl, of_decide_eq_true h⟩
  | error e => cases h

theorem mapM_ok {f : α → Except ε β} {l : List α} (h : ∀ x ∈ l, ∃ y, f x = .ok y) :
    ∃ ys, l.mapM f = .ok ys ∧ List.Forall₂ (fun x y => f x = .ok y) l ys := by
  induction l with
  | nil => exact ⟨[], rfl, .nil⟩
  | cons x l ih =>
    obtain ⟨y, hy⟩ := h x List.mem_cons_self
    obtain ⟨ys, hys, hall⟩ := ih fun x hx => h x (List.mem_cons_of_mem _ hx)
    refine ⟨y :: ys, ?_, .cons hy hall⟩
    rw [List.mapM_cons, hy, hys]
    rfl

theorem mem_of_mapM_ok {f : α → Except ε β} {l : List α} {ys : List β} (h : l.mapM f = .ok ys) :
    ∀ y ∈ ys, ∃ x ∈ l, f x = .ok y := by
  induction l generalizing ys with
  | nil =>
    obtain rfl := Except.ok.inj h
    simp
  | cons x l ih =>
    rw [List.mapM_cons] at h
    cases hx : f x with
    | error e => simp [hx, bind, Except.bind] at h
    | ok y =>
      cases hl : l.mapM f with
      | error e => simp [hx, hl, bind, Except.bind] at h
      | ok ys' =>
        rw [hx, hl] at h
        obtain rfl := Except.ok.inj h
        intro z hz
        rcases List.mem_cons.mp hz with rfl | hz
        · exact ⟨x, List.mem_cons_self, hx⟩
        · obtain ⟨x', hx', hfx⟩ := ih hl z hz
          exact ⟨x', List.mem_cons_of_mem _ hx', hfx⟩

end Fallible

end Runs
