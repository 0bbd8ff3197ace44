import Mathlib.Data.Nat.Find
import Mathlib.Data.List.Basic
import Mathlib.Tactic

/-! # Partial sequences and their first gap

A partial sequence holds a value for finitely many positions. Everything before
its first gap forms a list; filling empty positions only extends that list.
-/

/-- A value for some positions, none from some position on. -/
structure GapMap (α : Type*) where
  value : ℕ → Option α
  bounded : ∃ n, ∀ p, n ≤ p → value p = none

namespace GapMap

variable {α : Type*} (m : GapMap α)

theorem exists_gap : ∃ n, (m.value n).isNone := by
  obtain ⟨n, hn⟩ := m.bounded
  exact ⟨n, by simp [hn n le_rfl]⟩

/-- The first position without a value. -/
def firstGap : ℕ := Nat.find m.exists_gap

/-- The values before the first gap. -/
def contents : List α := (List.range m.firstGap).filterMap m.value

/-- The sequence without values. -/
def empty (α : Type*) : GapMap α := ⟨fun _ => none, 0, fun _ _ => rfl⟩

/-- Give the empty positions of `w` their value in `src`; filled positions keep theirs. -/
def fill (w : ℕ → Prop) [DecidablePred w] (src : ℕ → Option α)
    (hsrc : ∃ n, ∀ p, n ≤ p → src p = none) : GapMap α where
  value p := if w p then m.value p <|> src p else m.value p
  bounded := by
    obtain ⟨n, hn⟩ := m.bounded
    obtain ⟨k, hk⟩ := hsrc
    refine ⟨max n k, fun p hp => ?_⟩
    simp [hn p (by omega), hk p (by omega)]

@[simp] theorem value_empty (p : ℕ) : (empty α).value p = none := rfl

variable {m}

theorem value_firstGap : m.value m.firstGap = none := by
  exact Option.isNone_iff_eq_none.mp (Nat.find_spec m.exists_gap)

theorem value_isSome_of_lt {p : ℕ} (hp : p < m.firstGap) : (m.value p).isSome := by
  have h := Nat.find_min m.exists_gap hp
  simpa [Option.isNone_iff_eq_none, Option.isSome_iff_ne_none] using h

theorem firstGap_eq {n : ℕ} (hn : m.value n = none) (hlt : ∀ p < n, (m.value p).isSome) :
    m.firstGap = n := by
  apply le_antisymm
  · exact Nat.find_min' m.exists_gap (by simp [hn])
  · by_contra h
    have hs := hlt _ (not_le.mp h)
    simp [value_firstGap] at hs

@[simp] theorem firstGap_empty : (empty α).firstGap = 0 :=
  firstGap_eq rfl (by simp)

theorem filterMap_range_length {f : ℕ → Option α} {n : ℕ} (h : ∀ p < n, (f p).isSome) :
    ((List.range n).filterMap f).length = n := by
  induction n with
  | zero => rfl
  | succ n ih =>
    obtain ⟨a, ha⟩ := Option.isSome_iff_exists.mp (h n (by omega))
    simp [List.range_succ, List.filterMap_append, ha, ih fun p hp => h p (by omega)]

theorem filterMap_range_getElem? {f : ℕ → Option α} {n p : ℕ} (h : ∀ q < n, (f q).isSome)
    (hp : p < n) : ((List.range n).filterMap f)[p]? = f p := by
  induction n with
  | zero => omega
  | succ n ih =>
    obtain ⟨a, ha⟩ := Option.isSome_iff_exists.mp (h n (by omega))
    have hn : ∀ q < n, (f q).isSome := fun q hq => h q (by omega)
    rw [List.range_succ, List.filterMap_append]
    rcases Nat.lt_succ_iff_lt_or_eq.mp hp with hlt | rfl
    · rw [List.getElem?_append_left (by rw [filterMap_range_length hn]; exact hlt), ih hn hlt]
    · rw [List.getElem?_append_right (by rw [filterMap_range_length hn])]
      simp [filterMap_range_length hn, ha]

@[simp] theorem length_contents : m.contents.length = m.firstGap :=
  filterMap_range_length fun _ => value_isSome_of_lt

theorem contents_getElem? {p : ℕ} (hp : p < m.firstGap) : m.contents[p]? = m.value p :=
  filterMap_range_getElem? (fun _ => value_isSome_of_lt) hp

theorem contents_eq {l : List α} (hn : m.value l.length = none)
    (hl : ∀ p < l.length, l[p]? = m.value p) : m.contents = l := by
  have hgap : m.firstGap = l.length := firstGap_eq hn fun p hp => by
    rw [← hl p hp, List.getElem?_eq_getElem hp]
    rfl
  apply List.ext_getElem?
  intro p
  rcases Nat.lt_or_ge p l.length with hp | hp
  · rw [contents_getElem? (hgap ▸ hp), hl p hp]
  · rw [List.getElem?_eq_none hp, List.getElem?_eq_none (by simpa [hgap] using hp)]

/-- A sequence whose values are those of a list has a prefix of it as contents. -/
theorem contents_isPrefix {l : List α} (h : ∀ p a, m.value p = some a → l[p]? = some a) :
    m.contents <+: l := by
  rw [List.prefix_iff_getElem?]
  intro p hp
  rw [length_contents] at hp
  obtain ⟨a, ha⟩ := Option.isSome_iff_exists.mp (value_isSome_of_lt hp)
  have hget := contents_getElem? hp
  rw [ha] at hget
  rw [h p a ha, ← hget, List.getElem?_eq_getElem]

theorem firstGap_le {l : List α} (h : ∀ p a, m.value p = some a → l[p]? = some a) :
    m.firstGap ≤ l.length := by
  rw [← length_contents]
  exact (contents_isPrefix h).length_le

@[simp] theorem contents_empty : (empty α).contents = [] :=
  contents_eq rfl (by simp)

end GapMap
