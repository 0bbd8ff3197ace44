import Mathlib.Data.List.Induction
import Mathlib.Data.List.Nodup

/-! # Lists with keys

An item is put into a list of items with distinct keys: it goes to the end, or is merged into the
item with its key, which keeps its place. When the later of two merged items decides, a
list of items put in one by one leaves for each key its first item, merged with its last.
-/

namespace KeyedList

variable {α κ : Type*} [DecidableEq κ] {key : α → κ} {merge : α → α → α} {xs ys : List α} {x y : α}

/-- Put `x` into the list: merge it into the item with its key, or append it. -/
def upsert (key : α → κ) (merge : α → α → α) : List α → α → List α
  | [], x => [x]
  | y :: ys, x => if key y = key x then merge y x :: ys else y :: upsert key merge ys x

/-- The first item of each key, in their order. -/
def firsts (key : α → κ) : List α → List α
  | [] => []
  | x :: xs => x :: (firsts key xs).filter fun y => key y ≠ key x

/-- The last item of each key, in their order. -/
def lasts (key : α → κ) : List α → List α
  | [] => []
  | x :: xs => if ∃ y ∈ xs, key y = key x then lasts key xs else x :: lasts key xs

/-- The last item with the key of `x`, or `x` itself. -/
def lastLike (key : α → κ) (xs : List α) (x : α) : α :=
  (xs.reverse.find? fun y => key y = key x).getD x

theorem upsert_of_notMem (h : key x ∉ xs.map key) : upsert key merge xs x = xs ++ [x] := by
  induction xs with
  | nil => rfl
  | cons y xs ih =>
    rw [List.map_cons, List.mem_cons, not_or] at h
    rw [upsert, if_neg (Ne.symm h.1), ih h.2, List.cons_append]

theorem upsert_of_mem (hnodup : (xs.map key).Nodup) (h : key x ∈ xs.map key) :
    upsert key merge xs x = xs.map fun y => if key y = key x then merge y x else y := by
  induction xs with
  | nil => simp at h
  | cons y xs ih =>
    rw [List.map_cons, List.nodup_cons] at hnodup
    rw [upsert, List.map_cons]
    by_cases hy : key y = key x
    · -- no other item has the key
      rw [if_pos hy, if_pos hy]
      have hrest : (xs.map fun y => if key y = key x then merge y x else y) = xs.map id := by
        apply List.map_congr_left
        intro z hz
        have hne : key z ≠ key x := fun hzx => hnodup.1 (hy ▸ hzx ▸ List.mem_map_of_mem hz)
        exact if_neg hne
      rw [hrest, List.map_id]
    · rw [if_neg hy, if_neg hy, ih hnodup.2]
      rw [List.map_cons, List.mem_cons] at h
      exact h.resolve_left (Ne.symm hy)

theorem foldl_upsert_of_nodup (h : ((xs ++ ys).map key).Nodup) :
    ys.foldl (upsert key merge) xs = xs ++ ys := by
  induction ys generalizing xs with
  | nil => simp
  | cons y ys ih =>
    have hfresh : key y ∉ xs.map key := by
      rw [List.map_append, List.map_cons, List.nodup_append] at h
      intro hmem
      exact h.2.2 _ hmem _ List.mem_cons_self rfl
    rw [List.foldl_cons, upsert_of_notMem hfresh, ih (by simpa using h), List.append_assoc,
      List.singleton_append]

theorem mem_map_firsts {k : κ} : k ∈ (firsts key xs).map key ↔ k ∈ xs.map key := by
  induction xs with
  | nil => rfl
  | cons x xs ih =>
    simp only [firsts, List.map_cons, List.mem_cons, List.mem_map, List.mem_filter,
      decide_eq_true_eq] at ih ⊢
    constructor
    · rintro (rfl | ⟨y, ⟨hy, -⟩, rfl⟩)
      · exact Or.inl rfl
      · exact Or.inr (ih.mp ⟨y, hy, rfl⟩)
    · rintro (rfl | hk)
      · exact Or.inl rfl
      · by_cases hkx : k = key x
        · exact Or.inl hkx
        · obtain ⟨y, hy, rfl⟩ := ih.mpr hk
          exact Or.inr ⟨y, ⟨hy, hkx⟩, rfl⟩

theorem nodup_firsts : ((firsts key xs).map key).Nodup := by
  induction xs with
  | nil => exact List.nodup_nil
  | cons x xs ih =>
    rw [firsts, List.map_cons, List.nodup_cons]
    constructor
    · intro hmem
      obtain ⟨y, hy, hyx⟩ := List.mem_map.mp hmem
      have hne := (List.mem_filter.mp hy).2
      simp [hyx] at hne
    · exact ih.sublist (List.filter_sublist.map key)

theorem firsts_concat : firsts key (xs ++ [x]) =
    if key x ∈ xs.map key then firsts key xs else firsts key xs ++ [x] := by
  induction xs with
  | nil => simp [firsts]
  | cons y xs ih =>
    have hmem : key x ∈ (y :: xs).map key ↔ key x = key y ∨ key x ∈ xs.map key := by
      rw [List.map_cons, List.mem_cons]
    rw [List.cons_append, firsts, ih, firsts]
    by_cases hx : key x ∈ xs.map key
    · rw [if_pos hx, if_pos (hmem.mpr (Or.inr hx))]
    · rw [if_neg hx, List.filter_append]
      by_cases hy : key x = key y
      · rw [if_pos (hmem.mpr (Or.inl hy))]
        simp [hy]
      · rw [if_neg fun h => (hmem.mp h).elim hy hx]
        simp [hy]

theorem mem_map_lasts {k : κ} : k ∈ (lasts key xs).map key ↔ k ∈ xs.map key := by
  induction xs with
  | nil => rfl
  | cons x xs ih =>
    rw [lasts]
    split_ifs with hlater
    · rw [ih, List.map_cons, List.mem_cons]
      obtain ⟨y, hy, hyx⟩ := hlater
      refine ⟨Or.inr, ?_⟩
      rintro (rfl | hk)
      · exact hyx ▸ List.mem_map_of_mem hy
      · exact hk
    · rw [List.map_cons, List.map_cons, List.mem_cons, List.mem_cons, ih]

theorem nodup_lasts : ((lasts key xs).map key).Nodup := by
  induction xs with
  | nil => exact List.nodup_nil
  | cons x xs ih =>
    rw [lasts]
    split_ifs with hlater
    · exact ih
    · rw [List.map_cons, List.nodup_cons, mem_map_lasts, List.mem_map]
      exact ⟨hlater, ih⟩

theorem mem_of_mem_lasts (h : x ∈ lasts key xs) : x ∈ xs := by
  induction xs with
  | nil => simp [lasts] at h
  | cons y xs ih =>
    rw [lasts] at h
    split_ifs at h
    · exact List.mem_cons_of_mem y (ih h)
    · rcases List.mem_cons.mp h with rfl | h
      · exact List.mem_cons_self
      · exact List.mem_cons_of_mem y (ih h)

theorem lastLike_concat :
    lastLike key (xs ++ [x]) y = if key x = key y then x else lastLike key xs y := by
  rw [lastLike, List.reverse_append, List.reverse_singleton, List.singleton_append, List.find?_cons]
  by_cases hxy : key x = key y
  · simp [hxy]
  · simp [hxy, lastLike]

theorem lastLike_cons : lastLike key (x :: xs) y =
    if ∃ z ∈ xs, key z = key y then lastLike key xs y else if key x = key y then x else y := by
  simp only [lastLike, List.reverse_cons, List.find?_append]
  by_cases hlater : ∃ z ∈ xs, key z = key y
  · obtain ⟨z, hz, hzy⟩ := hlater
    have hsome : ((xs.reverse.find? fun z => key z = key y).isSome) = true :=
      List.find?_isSome.mpr ⟨z, List.mem_reverse.mpr hz, by simpa using hzy⟩
    obtain ⟨w, hw⟩ := Option.isSome_iff_exists.mp hsome
    rw [hw, if_pos ⟨z, hz, hzy⟩]
    rfl
  · have hnone : (xs.reverse.find? fun z => key z = key y) = none := by
      rw [List.find?_eq_none]
      intro z hz
      simpa using fun hzy => hlater ⟨z, List.mem_reverse.mp hz, hzy⟩
    rw [hnone, if_neg hlater, Option.none_or, List.find?_singleton]
    by_cases hxy : key x = key y
    · simp [hxy]
    · simp [hxy]

theorem lastLike_of_mem_lasts (hx : x ∈ lasts key xs) (hxy : key x = key y) :
    lastLike key xs y = x := by
  induction xs with
  | nil => simp [lasts] at hx
  | cons z xs ih =>
    rw [lasts] at hx
    rw [lastLike_cons]
    split_ifs at hx with hlater
    · rw [if_pos ⟨x, mem_of_mem_lasts hx, hxy⟩, ih hx]
    · rcases List.mem_cons.mp hx with rfl | hx
      · rw [hxy] at hlater
        rw [if_neg hlater, if_pos hxy]
      · rw [if_pos ⟨x, mem_of_mem_lasts hx, hxy⟩, ih hx]

/-- Putting items in one by one leaves the first item of each key at its place, merged with the last
one. -/
theorem foldl_upsert (hkey : ∀ x y, key (merge x y) = key x) (hself : ∀ x, merge x x = x)
    (hmerge : ∀ x y z, merge (merge x y) z = merge x z) (xs : List α) :
    xs.foldl (upsert key merge) [] =
      (firsts key xs).map fun x => merge x (lastLike key xs x) := by
  induction xs using List.reverseRecOn with
  | nil => rfl
  | append_singleton xs x ih =>
    have hkeys : ((firsts key xs).map fun y => merge y (lastLike key xs y)).map key =
        (firsts key xs).map key := by
      rw [List.map_map]
      exact List.map_congr_left fun y _ => hkey y _
    rw [List.foldl_append, ih, List.foldl_cons, List.foldl_nil, firsts_concat]
    by_cases hx : key x ∈ xs.map key
    · have hmem : key x ∈ ((firsts key xs).map fun y => merge y (lastLike key xs y)).map key := by
        rw [hkeys]
        exact mem_map_firsts.mpr hx
      rw [upsert_of_mem (hkeys ▸ nodup_firsts) hmem, if_pos hx, List.map_map]
      apply List.map_congr_left
      intro y _
      simp only [Function.comp_apply, hkey, lastLike_concat]
      by_cases hxy : key x = key y
      · rw [if_pos hxy.symm, if_pos hxy, hmerge]
      · rw [if_neg (Ne.symm hxy), if_neg hxy]
    · have hnot : key x ∉ ((firsts key xs).map fun y => merge y (lastLike key xs y)).map key := by
        rw [hkeys]
        exact mt mem_map_firsts.mp hx
      rw [upsert_of_notMem hnot, if_neg hx, List.map_append, List.map_singleton, lastLike_concat,
        if_pos rfl, hself]
      congr 1
      apply List.map_congr_left
      intro y hy
      have hne : key x ≠ key y := fun hxy =>
        hx (hxy ▸ mem_map_firsts.mp (List.mem_map_of_mem hy))
      rw [lastLike_concat, if_neg hne]

end KeyedList
