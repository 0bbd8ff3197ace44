import Mathlib.Data.List.Basic
import Mathlib.Tactic

/-! # Chains of disjoint blocks

A block stores one value for each position of a half-open interval. A chain is a
list of disjoint nonempty blocks in increasing order. An ordered table is
searched with a comparison of keys; when the comparison agrees with the order of
the intervals, storing a disjoint block keeps the chain and adds its values.
-/

namespace Blocks

variable {α β κ : Type*}

/-- Values stored under a half-open interval of positions. -/
abbrev Block (α : Type*) := (ℕ × ℕ) × List α

/-- Disjoint nonempty blocks in increasing order from `lo`, one value for each position. -/
def Chain : ℕ → List (Block α) → Prop
  | _, [] => True
  | lo, c :: t => lo ≤ c.1.1 ∧ c.1.1 < c.1.2 ∧ c.2.length = c.1.2 - c.1.1 ∧ Chain c.1.2 t

/-- The value stored for a position. -/
def valueAt : List (Block α) → ℕ → Option α
  | [], _ => none
  | c :: t, p => if c.1.1 ≤ p ∧ p < c.1.2 then c.2[p - c.1.1]? else valueAt t p

/-- The number of values stored. -/
def total (t : List (Block α)) : ℕ := (t.map fun c => c.2.length).sum

@[simp] theorem valueAt_nil (p : ℕ) : valueAt ([] : List (Block α)) p = none := rfl

theorem valueAt_cons (c : Block α) (t : List (Block α)) (p : ℕ) :
    valueAt (c :: t) p = if c.1.1 ≤ p ∧ p < c.1.2 then c.2[p - c.1.1]? else valueAt t p := rfl

theorem valueAt_cons_of_le {c : Block α} {t : List (Block α)} {p : ℕ} (hp : c.1.2 ≤ p) :
    valueAt (c :: t) p = valueAt t p := by
  rw [valueAt_cons, if_neg (by omega)]

@[simp] theorem total_nil : total ([] : List (Block α)) = 0 := rfl

@[simp] theorem total_cons (c : Block α) (t : List (Block α)) :
    total (c :: t) = c.2.length + total t := by simp [total]

theorem total_append (t t' : List (Block α)) : total (t ++ t') = total t + total t' := by
  simp [total]

variable {lo : ℕ} {t : List (Block α)}

theorem Chain.mono {lo' : ℕ} (h : Chain lo t) (hle : lo' ≤ lo) : Chain lo' t := by
  cases t with
  | nil => trivial
  | cons c t => exact ⟨hle.trans h.1, h.2⟩

theorem Chain.tail {c : Block α} (h : Chain lo (c :: t)) : Chain c.1.2 t := h.2.2.2

theorem Chain.mem {c : Block α} (h : Chain lo t) (hc : c ∈ t) :
    lo ≤ c.1.1 ∧ c.1.1 < c.1.2 ∧ c.2.length = c.1.2 - c.1.1 := by
  induction t generalizing lo with
  | nil => simp at hc
  | cons d t ih =>
    rcases List.mem_cons.mp hc with rfl | hc
    · exact ⟨h.1, h.2.1, h.2.2.1⟩
    · have hd := ih h.tail hc
      exact ⟨h.1.trans (h.2.1.le.trans hd.1), hd.2⟩

theorem Chain.pairwise (h : Chain lo t) : t.Pairwise fun c d => c.1.2 ≤ d.1.1 := by
  induction t generalizing lo with
  | nil => exact .nil
  | cons c t ih => exact .cons (fun d hd => (h.tail.mem hd).1) (ih h.tail)

theorem Chain.valueAt_eq_none (h : Chain lo t) {p : ℕ} (hp : p < lo) : valueAt t p = none := by
  induction t generalizing lo with
  | nil => rfl
  | cons c t ih =>
    rw [valueAt_cons, if_neg (by have := h.1; omega)]
    exact ih h.tail (hp.trans_le (h.1.trans h.2.1.le))

theorem Chain.valueAt_isSome_iff (h : Chain lo t) {p : ℕ} :
    (valueAt t p).isSome ↔ ∃ c ∈ t, c.1.1 ≤ p ∧ p < c.1.2 := by
  induction t generalizing lo with
  | nil => simp
  | cons c t ih =>
    rw [valueAt_cons]
    split_ifs with hp
    · have hlen := h.2.2.1
      simp only [List.mem_cons, exists_eq_or_imp, hp, and_self, true_or, iff_true]
      rw [List.getElem?_eq_getElem (by omega)]
      rfl
    · rw [ih h.tail]
      simp only [List.mem_cons, exists_eq_or_imp]
      constructor
      · exact Or.inr
      · rintro (hc | hc)
        · exact absurd hc hp
        · exact hc

theorem Chain.valueAt_of_mem (h : Chain lo t) {c : Block α} (hc : c ∈ t) {p : ℕ}
    (h₁ : c.1.1 ≤ p) (h₂ : p < c.1.2) : valueAt t p = c.2[p - c.1.1]? := by
  induction t generalizing lo with
  | nil => simp at hc
  | cons d t ih =>
    rw [valueAt_cons]
    rcases List.mem_cons.mp hc with rfl | hc
    · rw [if_pos ⟨h₁, h₂⟩]
    · have hd := (h.tail.mem hc).1
      rw [if_neg (by omega), ih h.tail hc]

theorem Chain.encard_stored (h : Chain lo t) :
    {p | (valueAt t p).isSome}.encard = total t := by
  induction t generalizing lo with
  | nil => simp
  | cons c t ih =>
    obtain ⟨_, hlt, hlen, ht⟩ := h
    have hset : {p | (valueAt (c :: t) p).isSome} =
        (Finset.Ico c.1.1 c.1.2 : Set ℕ) ∪ {p | (valueAt t p).isSome} := by
      ext p
      by_cases hp : c.1.1 ≤ p ∧ p < c.1.2
      · have hi : p - c.1.1 < c.2.length := by omega
        simp [valueAt, hp, hi]
      · simp [valueAt, hp]
    have hdisj : Disjoint (Finset.Ico c.1.1 c.1.2 : Set ℕ) {p | (valueAt t p).isSome} := by
      rw [Set.disjoint_left]
      intro p hp hs
      simp only [Finset.coe_Ico, Set.mem_Ico] at hp
      simp [ht.valueAt_eq_none hp.2] at hs
    rw [hset, Set.encard_union_eq hdisj, ih ht, Set.encard_coe_eq_coe_finsetCard, Nat.card_Ico,
      total_cons, hlen]
    push_cast
    rfl

theorem Chain.total_le (h : Chain lo t) {hi : ℕ} (hle : lo ≤ hi) (ht : ∀ c ∈ t, c.1.2 ≤ hi) :
    lo + total t ≤ hi := by
  induction t generalizing lo with
  | nil => simpa using hle
  | cons c t ih =>
    obtain ⟨hlo, hlt, hlen, htail⟩ := h
    have := ih htail (ht c (by simp)) fun d hd => ht d (by simp [hd])
    rw [total_cons, hlen]
    omega

section Table

/-- Store a value under a key of an ordered table: the first entry whose key is not below `k`
is overwritten when `k` is not below its key either, and otherwise preceded by a new entry. -/
def assign (lt : κ → κ → Bool) (k : κ) (v : β) : List (κ × β) → List (κ × β)
  | [] => [(k, v)]
  | c :: t =>
    if lt c.1 k then c :: assign lt k v t
    else if lt k c.1 then (k, v) :: c :: t
    else (c.1, v) :: t

variable {lt : ℕ × ℕ → ℕ × ℕ → Bool} {k : ℕ × ℕ} {v : List α}

/-- The comparison orders `k` and the keys of the table as disjoint intervals. -/
def Separates (lt : ℕ × ℕ → ℕ × ℕ → Bool) (k : ℕ × ℕ) (t : List (Block α)) : Prop :=
  ∀ c ∈ t, (lt c.1 k = true ∧ c.1.2 ≤ k.1) ∨
    (lt c.1 k = false ∧ lt k c.1 = true ∧ k.2 ≤ c.1.1)

theorem mem_assign (hs : Separates lt k t) {c : Block α} :
    c ∈ assign lt k v t ↔ c = (k, v) ∨ c ∈ t := by
  induction t with
  | nil => simp [assign]
  | cons d t ih =>
    have ht : Separates lt k t := fun c hc => hs c (List.mem_cons_of_mem _ hc)
    rcases hs d List.mem_cons_self with ⟨hd, _⟩ | ⟨hd, hk, _⟩
    · simp only [assign, hd, if_true, List.mem_cons, ih ht]
      tauto
    · simp [assign, hd, hk]

theorem total_assign (hs : Separates lt k t) :
    total (assign lt k v t) = v.length + total t := by
  induction t with
  | nil => simp [assign]
  | cons d t ih =>
    have ht : Separates lt k t := fun c hc => hs c (List.mem_cons_of_mem _ hc)
    rcases hs d List.mem_cons_self with ⟨hd, _⟩ | ⟨hd, hk, _⟩
    · simp only [assign, hd, if_true, total_cons, ih ht]
      omega
    · simp [assign, hd, hk]

theorem total_assign_le (lt : ℕ × ℕ → ℕ × ℕ → Bool) (k : ℕ × ℕ) (v : List α)
    (t : List (Block α)) : total (assign lt k v t) ≤ v.length + total t := by
  induction t with
  | nil => simp [assign]
  | cons d t ih =>
    unfold assign
    split_ifs <;> simp only [total_cons] <;> omega

theorem key_assign {P : ℕ × ℕ → Prop} (hk : P k) (ht : ∀ c ∈ t, P c.1) :
    ∀ c ∈ assign lt k v t, P c.1 := by
  induction t with
  | nil => simpa [assign] using hk
  | cons d t ih =>
    obtain ⟨hd, ht⟩ := List.forall_mem_cons.mp ht
    unfold assign
    split_ifs
    · exact List.forall_mem_cons.mpr ⟨hd, ih ht⟩
    · exact List.forall_mem_cons.mpr ⟨hk, List.forall_mem_cons.mpr ⟨hd, ht⟩⟩
    · exact List.forall_mem_cons.mpr ⟨hd, ht⟩

theorem Chain.assign (h : Chain lo t) (hs : Separates lt k t) (hlo : lo ≤ k.1) (hk : k.1 < k.2)
    (hv : v.length = k.2 - k.1) : Chain lo (assign lt k v t) := by
  induction t generalizing lo with
  | nil => exact ⟨hlo, hk, hv, trivial⟩
  | cons d t ih =>
    have ht : Separates lt k t := fun c hc => hs c (List.mem_cons_of_mem _ hc)
    rcases hs d List.mem_cons_self with ⟨hd, hle⟩ | ⟨hd, hk', hle⟩
    · simp only [Blocks.assign, hd, if_true]
      exact ⟨h.1, h.2.1, h.2.2.1, ih h.tail ht hle⟩
    · simp only [Blocks.assign, hd, hk', if_true]
      exact ⟨hlo, hk, hv, hle, h.2⟩

theorem valueAt_assign (h : Chain lo t) (hs : Separates lt k t) (p : ℕ) :
    valueAt (Blocks.assign lt k v t) p =
      if k.1 ≤ p ∧ p < k.2 then v[p - k.1]? else valueAt t p := by
  induction t generalizing lo with
  | nil => simp [Blocks.assign, valueAt]
  | cons d t ih =>
    have ht : Separates lt k t := fun c hc => hs c (List.mem_cons_of_mem _ hc)
    rcases hs d List.mem_cons_self with ⟨hd, hle⟩ | ⟨hd, hk', hle⟩
    · simp only [Blocks.assign, hd, if_true, valueAt, ih h.tail ht]
      split_ifs <;> first | rfl | omega
    · simp [Blocks.assign, hd, hk', valueAt]

/-- Storing disjoint blocks one after another adds their values to the table. -/
theorem Chain.foldl_assign {g : List (Block α)} {mid : ℕ} (h : Chain lo t) (hg : Chain mid g)
    (hlo : lo ≤ mid) (hs : ∀ c ∈ g, Separates lt c.1 t)
    (hp : g.Pairwise fun c d => lt c.1 d.1 = true) :
    let t' := g.foldl (fun t i => Blocks.assign lt i.1 i.2 t) t
    Chain lo t' ∧ (∀ c, c ∈ t' ↔ c ∈ g ∨ c ∈ t) ∧ total t' = total g + total t ∧
      ∀ p, valueAt t' p = (valueAt g p <|> valueAt t p) := by
  induction g generalizing t mid with
  | nil => simpa using h
  | cons i g ih =>
    obtain ⟨hmid, hlt, hlen, htail⟩ := hg
    obtain ⟨hi, hp⟩ := List.pairwise_cons.mp hp
    have hsi : Separates lt i.1 t := hs i List.mem_cons_self
    have hmem := fun c => mem_assign (v := i.2) hsi (c := c)
    have hrec := ih (h.assign hsi (hlo.trans hmid) hlt hlen) htail ((hlo.trans hmid).trans hlt.le)
      (fun c hc d hd => by
        rcases (hmem d).mp hd with rfl | hd
        · exact Or.inl ⟨hi c hc, (htail.mem hc).1⟩
        · exact hs c (List.mem_cons_of_mem _ hc) d hd) hp
    obtain ⟨hchain, hmem', htotal, hvalue⟩ := hrec
    refine ⟨hchain, fun c => ?_, ?_, fun p => ?_⟩
    · rw [List.foldl_cons, hmem', hmem, List.mem_cons]
      tauto
    · rw [List.foldl_cons, htotal, total_assign hsi, total_cons]
      omega
    · rw [List.foldl_cons, hvalue, valueAt_assign h hsi, valueAt_cons]
      by_cases hp : i.1.1 ≤ p ∧ p < i.1.2
      · rw [if_pos hp, if_pos hp, htail.valueAt_eq_none hp.2,
          List.getElem?_eq_getElem (by omega)]
        rfl
      · rw [if_neg hp, if_neg hp]

end Table

end Blocks
