import Sponge.Stream.Assembly

/-! # The first unassembled position

Whatever the table holds, and however the comparator orders it, a push never takes
back what is assembled: the first unassembled position stays or grows, as long as
64 bits suffice to count the bytes.
-/

namespace Sponge

open Blocks

namespace StreamReassembler

variable {s : StreamReassembler} {data : List UInt8} {index idx endidx : ℕ} {eof : Bool}
  {t g : List (Block UInt8)}

/-- Every key of the table is an interval. -/
def Keyed (s : StreamReassembler) : Prop := ∀ c ∈ s.t, c.1.1 ≤ c.1.2

theorem length_piece_le (data : List UInt8) (index start stop : ℕ) :
    (piece data index start stop).2.length ≤ stop - start := by
  simp only [piece, List.length_take]
  omega

theorem rest_spec (idx : ℕ) :
    (∀ c ∈ rest data index endidx idx, c.1.1 ≤ c.1.2 ∧ c.1.2 ≤ endidx) ∧
      total (rest data index endidx idx) ≤ endidx - idx := by
  unfold rest
  have hlen := length_piece_le data index idx endidx
  split_ifs with hlt
  · exact ⟨by simpa [piece] using hlt.le, by simpa using hlen⟩
  · simp

theorem gaps_spec (data : List UInt8) (index : ℕ) (ht : ∀ c ∈ t, c.1.1 ≤ c.1.2)
    (hlt : idx < endidx) :
    (∀ c ∈ gaps data index endidx idx t, c.1.1 ≤ c.1.2 ∧ c.1.2 ≤ endidx) ∧
      total (gaps data index endidx idx t) ≤ endidx - idx := by
  induction t generalizing idx with
  | nil => exact rest_spec idx
  | cons c t ih =>
    obtain ⟨hc, ht⟩ := List.forall_mem_cons.mp ht
    have hpiece := length_piece_le data index idx (min c.1.1 endidx)
    set before := if idx < c.1.1 then [piece data index idx (min c.1.1 endidx)] else []
      with hbefore
    have hb : (∀ b ∈ before, b.1.1 ≤ b.1.2 ∧ b.1.2 ≤ endidx) ∧
        total before ≤ min c.1.1 endidx - idx := by
      rw [hbefore]
      split_ifs
      · exact ⟨by simp only [List.mem_singleton, forall_eq, piece]; omega, by simpa using hpiece⟩
      · simp
    have htail : ∀ g', (∀ b ∈ g', b.1.1 ≤ b.1.2 ∧ b.1.2 ≤ endidx) →
        total g' ≤ endidx - max idx c.1.2 →
        (∀ b ∈ before ++ g', b.1.1 ≤ b.1.2 ∧ b.1.2 ≤ endidx) ∧
          total (before ++ g') ≤ endidx - idx := by
      intro g' hg htotal
      refine ⟨fun b hmem => ?_, ?_⟩
      · rcases List.mem_append.mp hmem with hmem | hmem
        · exact hb.1 b hmem
        · exact hg b hmem
      · rw [total_append]
        omega
    simp only [gaps, ← hbefore]
    split_ifs with hend
    · exact htail _ (rest_spec _).1 (rest_spec _).2
    · have hroom : max idx c.1.2 < endidx := by omega
      have hrec := ih ht hroom
      exact htail _ hrec.1 hrec.2

theorem store_t (s : StreamReassembler) (g : List (Block UInt8)) :
    (s.store g).t = g.foldl (fun t i => assign comp i.1 i.2 t) s.t := by
  induction g generalizing s with
  | nil => rfl
  | cons i g ih => exact ih _

theorem store_unasb (s : StreamReassembler) (g : List (Block UInt8)) :
    (s.store g).unasb = s.unasb := by
  induction g generalizing s with
  | nil => rfl
  | cons i g ih => exact ih _

theorem store_output (s : StreamReassembler) (g : List (Block UInt8)) :
    (s.store g).output = s.output ∧ (s.store g).capacity = s.capacity := by
  induction g generalizing s with
  | nil => exact ⟨rfl, rfl⟩
  | cons i g ih => exact ih _

theorem store_spec {P : ℕ × ℕ → Prop} (hs : ∀ c ∈ s.t, P c.1) (hg : ∀ c ∈ g, P c.1) :
    (∀ c ∈ (s.store g).t, P c.1) ∧ total (s.store g).t ≤ total g + total s.t := by
  induction g generalizing s with
  | nil => exact ⟨hs, by simp [store]⟩
  | cons i g ih =>
    obtain ⟨hi, hg⟩ := List.forall_mem_cons.mp hg
    set s₁ : StreamReassembler :=
      { s with
        t := assign comp i.1 i.2 s.t
        szUnasb := (s.szUnasb + i.2.length) % 2 ^ 64 } with hs₁
    have hrec := ih (s := s₁) (key_assign hi hs) hg
    have htotal : total s₁.t ≤ i.2.length + total s.t := total_assign_le ..
    refine ⟨hrec.1, hrec.2.trans ?_⟩
    rw [total_cons]
    omega

theorem mem_drainFrom {c : Block UInt8} (hc : c ∈ (s.drainFrom t).t) : c ∈ t := by
  induction t generalizing s with
  | nil => exact hc
  | cons d t ih =>
    rw [drainFrom] at hc
    split_ifs at hc
    · exact List.mem_cons_of_mem _ (ih hc)
    · exact hc

theorem unasb_le_drainFrom (h : s.unasb + total t < 2 ^ 64) :
    s.unasb ≤ (s.drainFrom t).unasb := by
  induction t generalizing s with
  | nil => exact le_rfl
  | cons d t ih =>
    rw [total_cons] at h
    rw [drainFrom]
    split_ifs
    · set s₁ : StreamReassembler :=
        { s with
          output := (s.output.write d.2).1
          unasb := (s.unasb + d.2.length) % 2 ^ 64
          szUnasb := sub64 s.szUnasb d.2.length } with hs₁
      have hunasb : s₁.unasb = s.unasb + d.2.length := Nat.mod_eq_of_lt (by omega)
      have hrec := ih (s := s₁) (by omega)
      omega
    · exact le_rfl

theorem pushSubstring_outside (eof : Bool) (h : s.pushEnd data index ≤ max s.unasb index) :
    (s.pushSubstring data index eof).t = s.t ∧
      (s.pushSubstring data index eof).unasb = s.unasb ∧
      (s.pushSubstring data index eof).szUnasb = s.szUnasb := by
  rw [pushSubstring_eq, if_pos h]
  exact ⟨closeAtEnd_t _, closeAtEnd_unasb _, closeAtEnd_szUnasb _⟩

/-- The keys after a push are old ones or intervals that end in the window. -/
theorem Keyed.keys_pushSubstring {P : ℕ × ℕ → Prop} (hs : s.Keyed) (ht : ∀ c ∈ s.t, P c.1)
    (hp : ∀ k : ℕ × ℕ, k.1 ≤ k.2 → k.2 ≤ s.pushEnd data index → P k) :
    ∀ c ∈ (s.pushSubstring data index eof).t, P c.1 := by
  by_cases h : s.pushEnd data index ≤ max s.unasb index
  · rw [(pushSubstring_outside eof h).1]
    exact ht
  · rw [pushSubstring_eq, if_neg h]
    have hg := (gaps_spec data index hs (not_le.mp h)).1
    intro c hc
    rw [closeAtEnd_t] at hc
    exact (store_spec (s := s.announce data index eof) ht
      fun c hc => hp c.1 (hg c hc).1 (hg c hc).2).1 c (mem_drainFrom hc)

theorem Keyed.pushSubstring (hs : s.Keyed) : (s.pushSubstring data index eof).Keyed :=
  hs.keys_pushSubstring (P := fun k => k.1 ≤ k.2) hs fun _ hk _ => hk

theorem capacity_drainFrom (s : StreamReassembler) (t : List (Block UInt8)) :
    (s.drainFrom t).capacity = s.capacity := by
  induction t generalizing s with
  | nil => rfl
  | cons c t ih =>
    rw [drainFrom]
    split_ifs
    · exact ih _
    · rfl

theorem capacity_pushSubstring (s : StreamReassembler) (data : List UInt8) (index : ℕ)
    (eof : Bool) : (s.pushSubstring data index eof).capacity = s.capacity := by
  rw [pushSubstring_eq]
  split_ifs
  · exact closeAtEnd_capacity _
  · rw [closeAtEnd_capacity, drain, capacity_drainFrom, (store_output _ _).2]
    rfl

theorem totRead_drainFrom (s : StreamReassembler) (t : List (Block UInt8)) :
    (s.drainFrom t).output.totRead = s.output.totRead := by
  induction t generalizing s with
  | nil => rfl
  | cons c t ih =>
    rw [drainFrom]
    split_ifs
    · exact ih _
    · rfl

theorem totRead_pushSubstring (s : StreamReassembler) (data : List UInt8) (index : ℕ)
    (eof : Bool) : (s.pushSubstring data index eof).output.totRead = s.output.totRead := by
  have hclose : ∀ s : StreamReassembler, s.closeAtEnd.output.totRead = s.output.totRead := by
    intro s
    rw [closeAtEnd_output]
    split_ifs <;> rfl
  rw [pushSubstring_eq]
  split_ifs
  · exact hclose _
  · rw [hclose, drain, totRead_drainFrom, (store_output _ _).1]
    rfl

theorem Keyed.unasb_le_pushSubstring (hs : s.Keyed)
    (hsmall : s.unasb + total s.t + data.length < 2 ^ 64) :
    s.unasb ≤ (s.pushSubstring data index eof).unasb := by
  by_cases h : s.pushEnd data index ≤ max s.unasb index
  · exact (pushSubstring_outside eof h).2.1.ge
  · rw [pushSubstring_eq, if_neg h]
    set s₁ := s.announce data index eof
    have hg := gaps_spec data index hs (not_le.mp h)
    set g := gaps data index (s.pushEnd data index) (max s.unasb index) s.t
    have hstore := store_spec (P := fun _ => True) (s := s₁) (by simp) (g := g) (by simp)
    have hend : s.pushEnd data index ≤ index + data.length :=
      (min_le_left _ _).trans (Nat.mod_le _ _)
    have hunasb : (s₁.store g).unasb = s.unasb := store_unasb s₁ g
    have htotal : total (s₁.store g).t ≤ total g + total s.t := hstore.2
    have hfits : (s₁.store g).unasb + total (s₁.store g).t < 2 ^ 64 := by omega
    rw [closeAtEnd_unasb, drain]
    calc s.unasb = (s₁.store g).unasb := hunasb.symm
      _ ≤ ((s₁.store g).drainFrom (s₁.store g).t).unasb := unasb_le_drainFrom hfits

theorem unasb_pushSubstring_front (eof : Bool) (ht : s.t = []) (hi : index ≤ s.unasb)
    (hend : s.unasb < s.pushEnd data index) :
    (s.pushSubstring data index eof).unasb = s.pushEnd data index := by
  have hle : s.pushEnd data index ≤ index + data.length :=
    (min_le_left _ _).trans (Nat.mod_le _ _)
  have hlt : s.pushEnd data index < 2 ^ 64 :=
    (min_le_left _ _).trans_lt (Nat.mod_lt _ (by norm_num))
  have hlen : (piece data index s.unasb (s.pushEnd data index)).2.length =
      s.pushEnd data index - s.unasb := length_piece hi hle
  have hmax : max s.unasb index = s.unasb := max_eq_left hi
  rw [pushSubstring_eq]
  simp only [hmax, if_neg (not_le.mpr hend), ht, gaps, rest, if_pos hend, closeAtEnd_unasb]
  simp only [announce, store, List.foldl_cons, List.foldl_nil, ht, assign, drain, drainFrom]
  rw [if_pos (by rfl)]
  simp only [hlen]
  omega

theorem pushSubstring_behind (eof : Bool) (ht : s.t = []) (hz : s.szUnasb = 0)
    (hi : s.unasb < index)
    (hend : index < s.pushEnd data index) :
    (s.pushSubstring data index eof).unasb = s.unasb ∧
      (s.pushSubstring data index eof).szUnasb = s.pushEnd data index - index := by
  have hle : s.pushEnd data index ≤ index + data.length :=
    (min_le_left _ _).trans (Nat.mod_le _ _)
  have hlt : s.pushEnd data index < 2 ^ 64 :=
    (min_le_left _ _).trans_lt (Nat.mod_lt _ (by norm_num))
  have hlen : (piece data index index (s.pushEnd data index)).2.length =
      s.pushEnd data index - index := length_piece le_rfl hle
  have hmax : max s.unasb index = index := max_eq_right hi.le
  have hgap : (piece data index index (s.pushEnd data index)).1.1 ≠ s.unasb := hi.ne'
  rw [pushSubstring_eq]
  simp only [hmax, if_neg (not_le.mpr hend), ht, gaps, rest, if_pos hend, closeAtEnd_unasb,
    closeAtEnd_szUnasb]
  simp only [announce, store, List.foldl_cons, List.foldl_nil, ht, assign, drain, drainFrom,
    if_neg hgap]
  refine ⟨trivial, ?_⟩
  rw [hz, hlen]
  omega

end StreamReassembler

/-- The stream `s'` has ended, or is in error, if `s` is. -/
structure ByteStream.Later (s s' : ByteStream) : Prop where
  ended : s.inputEnded = true → s'.inputEnded = true
  error : s.error = true → s'.error = true

namespace ByteStream

variable {s s' s'' : ByteStream}

theorem Later.refl (s : ByteStream) : s.Later s := ⟨id, id⟩

theorem Later.trans (h : s.Later s') (h' : s'.Later s'') : s.Later s'' :=
  ⟨fun he => h'.ended (h.ended he), fun he => h'.error (h.error he)⟩

/-- The stream `s'` comes from `s` without reads. -/
structure Appended (s s' : ByteStream) : Prop extends Later s s' where
  buf : s.buf <+: s'.buf
  consistent : s.Consistent → s'.Consistent

theorem Appended.refl (s : ByteStream) : s.Appended s := ⟨.refl s, List.prefix_rfl, id⟩

theorem Appended.trans (h : s.Appended s') (h' : s'.Appended s'') : s.Appended s'' :=
  ⟨h.toLater.trans h'.toLater, h.buf.trans h'.buf, fun hc => h'.consistent (h.consistent hc)⟩

theorem appended_write (s : ByteStream) (data : List UInt8) : s.Appended (s.write data).1 :=
  ⟨⟨id, id⟩, List.prefix_append _ _, Consistent.write⟩

theorem appended_endInput (s : ByteStream) : s.Appended s.endInput :=
  ⟨⟨fun _ => rfl, id⟩, List.prefix_rfl, Consistent.endInput⟩

theorem appended_setError (s : ByteStream) : s.Appended s.setError :=
  ⟨⟨id, fun _ => rfl⟩, List.prefix_rfl, Consistent.setError⟩

end ByteStream

namespace StreamReassembler

variable {s : StreamReassembler}

theorem appended_drainFrom (s : StreamReassembler) (t : List (Block UInt8)) :
    s.output.Appended (s.drainFrom t).output := by
  induction t generalizing s with
  | nil => exact .refl _
  | cons c t ih =>
    rw [drainFrom]
    split_ifs
    · have hrest := ih
        { s with
          output := (s.output.write c.2).1
          unasb := (s.unasb + c.2.length) % 2 ^ 64
          szUnasb := sub64 s.szUnasb c.2.length }
      exact (s.output.appended_write c.2).trans hrest
    · exact .refl _

theorem appended_closeAtEnd (s : StreamReassembler) : s.output.Appended s.closeAtEnd.output := by
  unfold closeAtEnd
  split_ifs
  · exact s.output.appended_endInput
  · exact .refl _

theorem appended_pushSubstring (s : StreamReassembler) (data : List UInt8) (index : ℕ)
    (eof : Bool) : s.output.Appended (s.pushSubstring data index eof).output := by
  rw [pushSubstring_eq]
  split_ifs
  · exact (s.announce data index eof).appended_closeAtEnd
  · set s₁ := (s.announce data index eof).store
      (gaps data index (s.pushEnd data index) (max s.unasb index) s.t) with hs₁
    have hstored : s₁.output = s.output := (store_output _ _).1
    rw [← hstored]
    exact (appended_drainFrom _ _).trans (appended_closeAtEnd _)

end StreamReassembler

end Sponge
