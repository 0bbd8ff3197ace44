import Sponge.Stream.Reassembler

/-! # What one push does

Positions below 2^31 keep their order under the comparator, so the table stays a
chain of disjoint blocks. A push adds a byte at each position of the window that
has none, and hands the bytes that became contiguous to the output.
-/

namespace Sponge

open Blocks

theorem toInt_of_lt {n : ℕ} (h : n < 2 ^ 31) : toInt n = n := by
  unfold toInt Int.bmod
  simp only
  split_ifs <;> omega

theorem comp_iff {a b : ℕ × ℕ} (ha₁ : a.1 < 2 ^ 31) (ha₂ : a.2 < 2 ^ 31)
    (hb₁ : b.1 < 2 ^ 31) (hb₂ : b.2 < 2 ^ 31) :
    comp a b = true ↔ a.1 < b.1 ∧ a.2 < b.2 := by
  simp only [comp, toInt_of_lt ha₁, toInt_of_lt ha₂, toInt_of_lt hb₁, toInt_of_lt hb₂,
    Bool.and_eq_true, decide_eq_true_eq, Nat.cast_lt]

theorem comp_separates {k : ℕ × ℕ} {t : List (Block UInt8)} {lo : ℕ} (h : Chain lo t)
    (ht : ∀ c ∈ t, c.1.2 < 2 ^ 31) (hk : k.1 < k.2) (hk₂ : k.2 < 2 ^ 31)
    (hd : ∀ c ∈ t, c.1.2 ≤ k.1 ∨ k.2 ≤ c.1.1) : Separates comp k t := by
  intro c hc
  have hm := h.mem hc
  have hc₂ := ht c hc
  have hck := comp_iff (a := c.1) (b := k) (by omega) hc₂ (by omega) hk₂
  have hkc := comp_iff (a := k) (b := c.1) (by omega) hk₂ (by omega) hc₂
  rcases hd c hc with hle | hle
  · exact Or.inl ⟨hck.mpr (by omega), hle⟩
  · refine Or.inr ⟨?_, hkc.mpr (by omega), hle⟩
    rw [Bool.eq_false_iff, Ne, hck]
    omega

namespace StreamReassembler

section Gaps

variable {data : List UInt8} {index idx endidx : ℕ} {t g : List (Block UInt8)}

theorem length_piece {start stop : ℕ} (hs : index ≤ start) (he : stop ≤ index + data.length) :
    (piece data index start stop).2.length = stop - start := by
  simp only [piece, List.length_take, List.length_drop]
  omega

theorem getElem?_piece {start stop p : ℕ} (hs : index ≤ start) (hp : start ≤ p)
    (hp' : p < stop) : (piece data index start stop).2[p - start]? = data[p - index]? := by
  rw [piece, List.getElem?_take_of_lt (by omega), List.getElem?_drop]
  congr 1
  omega

/-- The blocks `g` hold the bytes of `data` from `idx` to `endidx` that `t` lacks. -/
structure Missing (data : List UInt8) (index idx endidx : ℕ) (t g : List (Block UInt8)) :
    Prop where
  chain : Chain idx g
  le : ∀ c ∈ g, c.1.2 ≤ endidx
  apart : ∀ c ∈ g, ∀ d ∈ t, d.1.2 ≤ c.1.1 ∨ c.1.2 ≤ d.1.1
  spaced : g.Pairwise fun c d => c.1.2 < d.1.1
  value : ∀ p, valueAt g p =
    if idx ≤ p ∧ p < endidx ∧ valueAt t p = none then data[p - index]? else none

theorem Missing.nil (h : endidx ≤ idx) : Missing data index idx endidx t [] where
  chain := trivial
  le := by simp
  apart := by simp
  spaced := .nil
  value p := by rw [if_neg (by omega)]; rfl

theorem Missing.rest (hi : index ≤ idx) (he : endidx ≤ index + data.length) :
    Missing data index idx endidx [] (rest data index endidx idx) := by
  unfold StreamReassembler.rest
  split_ifs with hlt
  · exact
      { chain := ⟨le_rfl, hlt, length_piece hi he, trivial⟩
        le := by simp [piece]
        apart := by simp
        spaced := List.pairwise_singleton _ _
        value := fun p => by
          simp only [valueAt_cons, valueAt_nil, and_true]
          refine if_ctx_congr Iff.rfl (fun h => ?_) fun _ => rfl
          exact getElem?_piece hi h.1 h.2 }
  · exact .nil (by omega)

theorem Missing.value_cons {c : Block UInt8} {lo p : ℕ} (ht : Chain lo (c :: t))
    (h : Missing data index (max idx c.1.2) endidx t g) (hp : c.1.1 ≤ p) :
    valueAt g p =
      if idx ≤ p ∧ p < endidx ∧ valueAt (c :: t) p = none then data[p - index]? else none := by
  rw [h.value p]
  rcases Nat.lt_or_ge p c.1.2 with hp' | hp'
  · have hstored := ht.valueAt_isSome_iff.mpr ⟨c, List.mem_cons_self, hp, hp'⟩
    rw [if_neg (by omega), if_neg fun hn => by simp [hn.2.2] at hstored]
  · rw [valueAt_cons_of_le hp']
    refine if_congr ?_ rfl rfl
    simp only [max_le_iff]
    tauto

theorem Missing.skip {c : Block UInt8} {lo : ℕ} (ht : Chain lo (c :: t)) (hle : c.1.1 ≤ idx)
    (h : Missing data index (max idx c.1.2) endidx t g) :
    Missing data index idx endidx (c :: t) g where
  chain := h.chain.mono (le_max_left _ _)
  le := h.le
  apart := by
    simp only [List.mem_cons, forall_eq_or_imp]
    exact fun b hb => ⟨Or.inl ((le_max_right _ _).trans (h.chain.mem hb).1), h.apart b hb⟩
  spaced := h.spaced
  value p := by
    rcases Nat.lt_or_ge p c.1.1 with hp | hp
    · rw [h.value p, if_neg (by omega), if_neg (by omega)]
    · exact h.value_cons ht hp

theorem Missing.between {c : Block UInt8} {lo : ℕ} (ht : Chain lo (c :: t)) (hi : index ≤ idx)
    (hgap : idx < c.1.1) (hlt : idx < endidx) (he : endidx ≤ index + data.length)
    (h : Missing data index (max idx c.1.2) endidx t g) :
    Missing data index idx endidx (c :: t) (piece data index idx (min c.1.1 endidx) :: g) := by
  obtain ⟨hlo, hc, hlen, htail⟩ := ht
  have hchain : Chain c.1.1 (c :: t) := ⟨le_rfl, hc, hlen, htail⟩
  have hbehind : ∀ b ∈ g, c.1.2 ≤ b.1.1 := fun b hb =>
    le_trans (le_max_right _ _) (h.chain.mem hb).1
  refine ⟨⟨le_rfl, by simp [piece]; omega, length_piece hi (by simp; omega),
    h.chain.mono (by simp [piece]; omega)⟩, ?_, ?_, ?_, fun p => ?_⟩
  · simp only [List.mem_cons, forall_eq_or_imp]
    exact ⟨by simp [piece], h.le⟩
  · simp only [List.mem_cons, forall_eq_or_imp]
    refine ⟨⟨Or.inr (by simp [piece]), fun d hd => Or.inr ?_⟩, fun b hb =>
      ⟨Or.inl (hbehind b hb), h.apart b hb⟩⟩
    have := (htail.mem hd).1
    simp only [piece]
    omega
  · refine List.pairwise_cons.mpr ⟨fun b hb => ?_, h.spaced⟩
    have := hbehind b hb
    simp only [piece]
    omega
  · rw [valueAt_cons]
    rcases Nat.lt_or_ge p c.1.1 with hp | hp
    · rw [hchain.valueAt_eq_none hp, h.value p, if_neg (c := max idx c.1.2 ≤ p ∧ _) (by omega)]
      refine if_ctx_congr ?_ (fun hp' => ?_) fun _ => rfl
      · simp only [piece, and_true]
        omega
      · exact getElem?_piece hi (by omega) (by omega)
    · rw [if_neg (by simp only [piece]; omega), h.value_cons hchain hp]

theorem Missing.cons {c : Block UInt8} {lo : ℕ} (ht : Chain lo (c :: t)) (hi : index ≤ idx)
    (hlt : idx < endidx) (he : endidx ≤ index + data.length)
    (h : Missing data index (max idx c.1.2) endidx t g) :
    Missing data index idx endidx (c :: t)
      ((if idx < c.1.1 then [piece data index idx (min c.1.1 endidx)] else []) ++ g) := by
  split_ifs with hgap
  · exact h.between ht hi hgap hlt he
  · exact h.skip ht (Nat.not_lt.mp hgap)

theorem missing_gaps {lo : ℕ} (ht : Chain lo t) (hi : index ≤ idx) (hlt : idx < endidx)
    (he : endidx ≤ index + data.length) :
    Missing data index idx endidx t (gaps data index endidx idx t) := by
  induction t generalizing lo idx with
  | nil => exact .rest hi he
  | cons c t ih =>
    have hi' : index ≤ max idx c.1.2 := hi.trans (le_max_left _ _)
    by_cases hend : endidx ≤ c.1.2
    · have hrest : rest data index endidx (max idx c.1.2) = [] := if_neg (by omega)
      simp only [gaps, if_pos hend, hrest]
      exact .cons ht hi hlt he (.nil (by omega))
    · simp only [gaps, if_neg hend]
      exact .cons ht hi hlt he (ih ht.tail hi' (by omega))

end Gaps

section Store

variable {g : List (Block UInt8)}

theorem store_eq (s : StreamReassembler) (g : List (Block UInt8)) (hz : s.szUnasb < 2 ^ 64) :
    s.store g =
      { s with
        t := g.foldl (fun t i => assign comp i.1 i.2 t) s.t
        szUnasb := (s.szUnasb + total g) % 2 ^ 64 } := by
  induction g generalizing s with
  | nil => simp only [store, List.foldl_nil, total_nil, add_zero, Nat.mod_eq_of_lt hz]
  | cons i g ih =>
    have hi := ih { s with
      t := assign comp i.1 i.2 s.t
      szUnasb := (s.szUnasb + i.2.length) % 2 ^ 64 } (Nat.mod_lt _ (by norm_num))
    rw [store] at hi ⊢
    rw [List.foldl_cons, hi]
    simp [add_assoc]

end Store

/-- The table holds disjoint blocks from the first unassembled position to `hi`, and their sizes
are counted. -/
structure SoundTo (hi : ℕ) (s : StreamReassembler) : Prop where
  chain : Chain s.unasb s.t
  gap : valueAt s.t s.unasb = none
  top : ∀ c ∈ s.t, c.1.2 ≤ hi
  size : s.szUnasb = total s.t
  unasb_le : s.unasb ≤ hi

/-- The table holds disjoint blocks past the first unassembled position, and their sizes are
counted. -/
structure Sound (s : StreamReassembler) : Prop where
  chain : Chain s.unasb s.t
  gap : valueAt s.t s.unasb = none
  top : ∀ c ∈ s.t, c.1.2 < 2 ^ 31
  size : s.szUnasb = total s.t
  unasb_lt : s.unasb < 2 ^ 31

theorem sound_iff {s : StreamReassembler} : s.Sound ↔ s.SoundTo (2 ^ 31 - 1) := by
  constructor
  · rintro ⟨hc, hg, ht, hs, hu⟩
    exact ⟨hc, hg, fun c hct => Nat.le_pred_of_lt (ht c hct), hs, Nat.le_pred_of_lt hu⟩
  · rintro ⟨hc, hg, ht, hs, hu⟩
    exact ⟨hc, hg, fun c hct => Nat.lt_of_le_pred (by norm_num) (ht c hct), hs,
      Nat.lt_of_le_pred (by norm_num) hu⟩

theorem SoundTo.new {hi capacity : ℕ} : (new capacity).SoundTo hi :=
  ⟨trivial, rfl, by simp [StreamReassembler.new], rfl, by simp [StreamReassembler.new]⟩

theorem Sound.new {capacity : ℕ} : (new capacity).Sound := sound_iff.mpr .new

theorem SoundTo.size_le {hi : ℕ} {s : StreamReassembler} (h : s.SoundTo hi) :
    s.unasb + s.szUnasb ≤ hi := by
  rw [h.size]
  exact h.chain.total_le h.unasb_le h.top

/-- Draining the blocks `t` hands the strings `ws` to the output and leaves `s'`. -/
structure Drained (hi : ℕ) (s s' : StreamReassembler) (t : List (Block UInt8))
    (ws : List (List UInt8)) : Prop where
  sound : s'.SoundTo hi
  unasb : s'.unasb = s.unasb + ws.flatten.length
  value : ∀ p, valueAt t p =
    if s.unasb ≤ p ∧ p < s'.unasb then ws.flatten[p - s.unasb]? else valueAt s'.t p
  output : s'.output = s.output.writeAll ws
  eof2 : s'.eof2 = s.eof2
  capacity : s'.capacity = s.capacity

theorem drained_drainFrom {hi : ℕ} (hhi : hi < 2 ^ 64) {s : StreamReassembler}
    {t : List (Block UInt8)} (h : Chain s.unasb t) (htop : ∀ c ∈ t, c.1.2 ≤ hi)
    (hsize : s.szUnasb = total t) (hle : s.unasb ≤ hi) :
    ∃ ws, Drained hi s (s.drainFrom t) t ws := by
  induction t generalizing s with
  | nil =>
    exact ⟨[],
      { sound := ⟨trivial, rfl, by simp [drainFrom], by simpa [drainFrom] using hsize, hle⟩
        unasb := by simp [drainFrom]
        value := fun p => by simp [drainFrom]
        output := rfl
        eof2 := rfl
        capacity := rfl }⟩
  | cons c t ih =>
    obtain ⟨hlo, hc, hlen, htail⟩ := h
    have hctop := htop c List.mem_cons_self
    have httop : ∀ d ∈ t, d.1.2 ≤ hi := fun d hd => htop d (List.mem_cons_of_mem _ hd)
    rw [drainFrom]
    split_ifs with hfront
    · -- the front block is contiguous: it is written and the scan goes on behind it
      have hend : (s.unasb + c.2.length) % 2 ^ 64 = c.1.2 := by omega
      have htotal := htail.total_le hctop httop
      rw [total_cons] at hsize
      obtain ⟨ws, hws⟩ := ih
        (s := { s with
          output := (s.output.write c.2).1
          unasb := (s.unasb + c.2.length) % 2 ^ 64
          szUnasb := sub64 s.szUnasb c.2.length })
        (by simpa only [hend] using htail) httop
        (by simp only; rw [sub64_of_le (by omega) (by omega)]; omega) (by simp only; omega)
      have hun := hws.unasb
      simp only [hend] at hun
      refine ⟨c.2 :: ws,
        { sound := hws.sound
          unasb := by rw [hws.unasb]; simp only [hend, List.flatten_cons, List.length_append]; omega
          value := fun p => ?_
          output := hws.output
          eof2 := hws.eof2
          capacity := hws.capacity }⟩
      rw [valueAt_cons, hws.value p]
      simp only [hend, List.flatten_cons]
      by_cases hp : c.1.1 ≤ p ∧ p < c.1.2
      · rw [if_pos hp, if_pos (by omega), List.getElem?_append_left (by omega), hfront]
      · rw [if_neg hp]
        refine if_ctx_congr (by omega) (fun hp' => ?_) fun _ => rfl
        rw [List.getElem?_append_right (by omega)]
        congr 1
        omega
    · -- a gap before the front block: nothing is drained
      refine ⟨[],
        { sound := ⟨⟨hlo, hc, hlen, htail⟩, ?_, htop, hsize, hle⟩
          unasb := by simp
          value := fun p => by simp only; rw [if_neg (by omega)]
          output := rfl
          eof2 := rfl
          capacity := rfl }⟩
      have hgap : s.unasb < c.1.1 := by omega
      exact Chain.valueAt_eq_none (t := c :: t) ⟨le_rfl, hc, hlen, htail⟩ hgap

/-- The end announced once a push is taken into account. -/
def endAfter (s : StreamReassembler) (data : List UInt8) (index : ℕ) (eof : Bool) : ℕ :=
  if eof then (index + data.length) % 2 ^ 64 else s.eof2

/-- The end of the part of a push that lies before the end of the window. -/
def pushEnd (s : StreamReassembler) (data : List UInt8) (index : ℕ) : ℕ :=
  min ((index + data.length) % 2 ^ 64) s.windowEnd

/-- Taking note of the end that a push announces. -/
def announce (s : StreamReassembler) (data : List UInt8) (index : ℕ) (eof : Bool) :
    StreamReassembler :=
  { s with unread := s.output.totRead, eof2 := s.endAfter data index eof }

/-- A push is stored and drained when a part of it lies in the window, at or past the first
unassembled position. -/
theorem pushSubstring_eq (s : StreamReassembler) (data : List UInt8) (index : ℕ) (eof : Bool) :
    s.pushSubstring data index eof =
      if s.pushEnd data index ≤ max s.unasb index then (s.announce data index eof).closeAtEnd
      else (((s.announce data index eof).store
        (gaps data index (s.pushEnd data index) (max s.unasb index) s.t)).drain).closeAtEnd := rfl

/-- What `s` keeps of a push: a byte for each empty position of the window. The strings `ws`
became contiguous and are written out. -/
structure Kept (s s' : StreamReassembler) (data : List UInt8) (index : ℕ) (eof : Bool)
    (ws : List (List UInt8)) : Prop where
  unasb : s'.unasb = s.unasb + ws.flatten.length
  value : ∀ p, s.unasb ≤ p →
    (if p < s'.unasb then ws.flatten[p - s.unasb]? else valueAt s'.t p) =
      if p < s.windowEnd ∧ index ≤ p then valueAt s.t p <|> data[p - index]? else valueAt s.t p
  output : s'.output =
    if s'.unasb = s.endAfter data index eof then (s.output.writeAll ws).endInput
    else s.output.writeAll ws
  eof2 : s'.eof2 =
    if s'.unasb = s.endAfter data index eof then 2 ^ 64 - 1 else s.endAfter data index eof
  capacity : s'.capacity = s.capacity

/-- A push below 2^31 leaves a sound table. -/
structure Pushed (s s' : StreamReassembler) (data : List UInt8) (index : ℕ) (eof : Bool)
    (ws : List (List UInt8)) : Prop extends Kept s s' data index eof ws where
  sound : s'.Sound

theorem closeAtEnd_t (s : StreamReassembler) : s.closeAtEnd.t = s.t := by
  unfold closeAtEnd; split_ifs <;> rfl

theorem closeAtEnd_unasb (s : StreamReassembler) : s.closeAtEnd.unasb = s.unasb := by
  unfold closeAtEnd; split_ifs <;> rfl

theorem closeAtEnd_szUnasb (s : StreamReassembler) : s.closeAtEnd.szUnasb = s.szUnasb := by
  unfold closeAtEnd; split_ifs <;> rfl

theorem closeAtEnd_capacity (s : StreamReassembler) : s.closeAtEnd.capacity = s.capacity := by
  unfold closeAtEnd; split_ifs <;> rfl

theorem closeAtEnd_output (s : StreamReassembler) :
    s.closeAtEnd.output = if s.unasb = s.eof2 then s.output.endInput else s.output := by
  unfold closeAtEnd; split_ifs <;> rfl

theorem closeAtEnd_eof2 (s : StreamReassembler) :
    s.closeAtEnd.eof2 = if s.unasb = s.eof2 then 2 ^ 64 - 1 else s.eof2 := by
  unfold closeAtEnd; split_ifs <;> rfl

theorem SoundTo.closeAtEnd {hi : ℕ} {s : StreamReassembler} (h : s.SoundTo hi) :
    s.closeAtEnd.SoundTo hi where
  chain := by rw [closeAtEnd_t, closeAtEnd_unasb]; exact h.chain
  gap := by rw [closeAtEnd_t, closeAtEnd_unasb]; exact h.gap
  top := by rw [closeAtEnd_t]; exact h.top
  size := by rw [closeAtEnd_t, closeAtEnd_szUnasb]; exact h.size
  unasb_le := by rw [closeAtEnd_unasb]; exact h.unasb_le

variable {s : StreamReassembler} {data : List UInt8} {index hi : ℕ} {eof : Bool}

/-- The pieces that a push enters into the table. -/
def pieces (s : StreamReassembler) (data : List UInt8) (index : ℕ) : List (Block UInt8) :=
  gaps data index (min (index + data.length) s.windowEnd) (max s.unasb index) s.t

theorem Kept.closeAtEnd {s₁ : StreamReassembler} {ws : List (List UInt8)}
    (hunasb : s₁.unasb = s.unasb + ws.flatten.length)
    (hvalue : ∀ p, s.unasb ≤ p →
      (if p < s₁.unasb then ws.flatten[p - s.unasb]? else valueAt s₁.t p) =
        if p < s.windowEnd ∧ index ≤ p then valueAt s.t p <|> data[p - index]? else valueAt s.t p)
    (houtput : s₁.output = s.output.writeAll ws) (heof2 : s₁.eof2 = s.endAfter data index eof)
    (hcap : s₁.capacity = s.capacity) : Kept s s₁.closeAtEnd data index eof ws where
  unasb := by rw [closeAtEnd_unasb, hunasb]
  value p hp := by rw [closeAtEnd_unasb, closeAtEnd_t, hvalue p hp]
  output := by rw [closeAtEnd_output, closeAtEnd_unasb, heof2, houtput]
  eof2 := by rw [closeAtEnd_eof2, closeAtEnd_unasb, heof2]
  capacity := by rw [closeAtEnd_capacity, hcap]

theorem kept_announce (eof : Bool)
    (hempty : min (index + data.length) s.windowEnd ≤ max s.unasb index) :
    Kept s (s.announce data index eof).closeAtEnd data index eof [] := by
  refine .closeAtEnd rfl (fun p hp => ?_) rfl rfl rfl
  rw [if_neg (by simp only [announce]; omega)]
  split_ifs with hw
  · rw [List.getElem?_eq_none (by omega)]
    simp [announce]
  · rfl

theorem Missing.value_or {p : ℕ} (h : Missing data index (max s.unasb index)
    (min (index + data.length) s.windowEnd) s.t (s.pieces data index)) (hp : s.unasb ≤ p) :
    (valueAt (s.pieces data index) p <|> valueAt s.t p) =
      if p < s.windowEnd ∧ index ≤ p then valueAt s.t p <|> data[p - index]?
      else valueAt s.t p := by
  rw [h.value]
  cases hv : valueAt s.t p with
  | some a => simp
  | none =>
    rcases Nat.lt_or_ge p (index + data.length) with hlt | hge
    · have hw : (max s.unasb index ≤ p ∧ p < min (index + data.length) s.windowEnd) ↔
          p < s.windowEnd ∧ index ≤ p := by omega
      simp only [and_true, hw]
      split_ifs <;> simp
    · rw [if_neg (by omega), List.getElem?_eq_none (by omega)]
      simp

/-- A push whose part inside the window is empty or does not pass `hi` fills the empty positions
there, if the comparator orders its pieces and the stored blocks by position. -/
theorem SoundTo.pushSubstring (eof : Bool) (h : s.SoundTo hi) (hhi : hi < 2 ^ 64)
    (hlen : index + data.length < 2 ^ 64)
    (htop : min (index + data.length) s.windowEnd ≤ hi ∨
      min (index + data.length) s.windowEnd ≤ max s.unasb index)
    (hcomp : max s.unasb index < min (index + data.length) s.windowEnd →
      (∀ c ∈ s.pieces data index, Separates comp c.1 s.t) ∧
      (s.pieces data index).Pairwise fun c d => comp c.1 d.1 = true) :
    (s.pushSubstring data index eof).SoundTo hi ∧
      ∃ ws, Kept s (s.pushSubstring data index eof) data index eof ws := by
  have hend : s.pushEnd data index = min (index + data.length) s.windowEnd := by
    rw [pushEnd, Nat.mod_eq_of_lt hlen]
  rw [pushSubstring_eq, hend, ← pieces]
  have hsound : (s.announce data index eof).SoundTo hi :=
    ⟨h.chain, h.gap, h.top, h.size, h.unasb_le⟩
  split_ifs with hempty
  · exact ⟨hsound.closeAtEnd, [], kept_announce eof hempty⟩
  · replace htop := htop.resolve_right hempty
    obtain ⟨hsep, hpair⟩ := hcomp (by omega)
    have hgaps : Missing data index _ _ s.t (s.pieces data index) :=
      missing_gaps h.chain (le_max_right _ _) (by omega) (by omega)
    obtain ⟨hchain, hmem, htotal, hvalue⟩ :=
      h.chain.foldl_assign hgaps.chain (le_max_left _ _) hsep hpair
    set g := s.pieces data index with hg
    set t' := g.foldl (fun t i => assign comp i.1 i.2 t) s.t with ht'
    have htop' : ∀ c ∈ t', c.1.2 ≤ hi := fun c hc => by
      rcases (hmem c).mp hc with hc | hc
      · have := hgaps.le c hc
        omega
      · exact h.top c hc
    have hcount := hchain.total_le h.unasb_le htop'
    have hbefore := h.size_le
    have hstore := store_eq (s.announce data index eof) g (show s.szUnasb < 2 ^ 64 by omega)
    set s₁ := (s.announce data index eof).store g with hs₁
    have hsize : s₁.szUnasb = total t' := by
      have hszs := h.size
      rw [hstore]
      simp only [announce]
      omega
    obtain ⟨ws, hd⟩ := drained_drainFrom hhi (s := s₁) (t := t') (by rw [hstore]; exact hchain)
      htop' hsize (by rw [hstore]; exact h.unasb_le)
    have hdrain : s₁.drain = s₁.drainFrom t' := by rw [drain, hstore]; rfl
    have hunasb : s₁.unasb = s.unasb := by rw [hstore]; rfl
    rw [hdrain]
    refine ⟨hd.sound.closeAtEnd, ws, .closeAtEnd (hunasb ▸ hd.unasb) (fun p hp => ?_)
      (by rw [hd.output, hstore]; rfl) (by rw [hd.eof2, hstore]; rfl)
      (by rw [hd.capacity, hstore]; rfl)⟩
    have hp' := hd.value p
    simp only [hunasb, hp, true_and] at hp'
    rw [← hp', hvalue, hgaps.value_or hp]

/-- A push whose part inside the window is empty or lies below 2^31 fills the empty positions
there. -/
theorem Sound.pushSubstring (eof : Bool) (h : s.Sound) (hlen : index + data.length < 2 ^ 64)
    (htop : min (index + data.length) s.windowEnd < 2 ^ 31 ∨
      min (index + data.length) s.windowEnd ≤ index) :
    ∃ ws, Pushed s (s.pushSubstring data index eof) data index eof ws := by
  obtain ⟨hsound, ws, hk⟩ := (sound_iff.mp h).pushSubstring eof (by norm_num) hlen
    (by omega) fun hlt => by
      have hgaps : Missing data index _ _ s.t (s.pieces data index) :=
        missing_gaps h.chain (le_max_right _ _) hlt (by omega)
      have hgtop : ∀ c ∈ s.pieces data index, c.1.2 < 2 ^ 31 := fun c hc => by
        have := hgaps.le c hc
        omega
      refine ⟨fun c hc => comp_separates h.chain h.top (hgaps.chain.mem hc).2.1 (hgtop c hc)
        (hgaps.apart c hc), ?_⟩
      apply hgaps.spaced.imp_of_mem
      intro c d hc hd hcd
      have hcm := (hgaps.chain.mem hc).2.1
      have hdm := (hgaps.chain.mem hd).2.1
      have hct := hgtop c hc
      have hdt := hgtop d hd
      exact (comp_iff (by omega) hct (by omega) hdt).mpr (by omega)
  exact ⟨ws, hk, sound_iff.mpr hsound⟩

/-- The byte at a position is assembled or stored. -/
def Holds (s : StreamReassembler) (p : ℕ) : Prop := p < s.unasb ∨ (valueAt s.t p).isSome

instance (p : ℕ) : Decidable (s.Holds p) := inferInstanceAs (Decidable (_ ∨ _))

theorem SoundTo.not_holds_unasb (h : s.SoundTo hi) : ¬ s.Holds s.unasb := by
  simp [Holds, h.gap]

theorem SoundTo.unasb_eq_iff (h : s.SoundTo hi) {e : ℕ} :
    s.unasb = e ↔ (∀ p < e, s.Holds p) ∧ ¬ s.Holds e := by
  constructor
  · rintro rfl
    exact ⟨fun p hp => Or.inl hp, h.not_holds_unasb⟩
  · rintro ⟨hbefore, hat⟩
    apply le_antisymm
    · by_contra hlt
      exact hat (Or.inl (by omega))
    · by_contra hlt
      exact h.not_holds_unasb (hbefore _ (by omega))

theorem SoundTo.szUnasb_ne_zero_iff (h : s.SoundTo hi) :
    s.szUnasb ≠ 0 ↔ ∃ q, s.Holds q ∧ ∃ p < q, ¬ s.Holds p := by
  rw [h.size]
  constructor
  · intro hne
    cases ht : s.t with
    | nil => simp [ht] at hne
    | cons c t =>
      have hc : c ∈ s.t := by simp [ht]
      obtain ⟨hlo, hlt, _⟩ := h.chain.mem hc
      have hv : (valueAt s.t c.1.1).isSome := h.chain.valueAt_isSome_iff.mpr ⟨c, hc, le_rfl, hlt⟩
      refine ⟨c.1.1, Or.inr hv, s.unasb, lt_of_le_of_ne hlo fun heq => ?_, h.not_holds_unasb⟩
      rw [← heq, h.gap] at hv
      simp at hv
  · rintro ⟨q, hq, p, hpq, hp⟩ hz
    have hstored : (valueAt s.t q).isSome := hq.resolve_left fun hlt => hp (Or.inl (by omega))
    obtain ⟨c, hc, _, _⟩ := h.chain.valueAt_isSome_iff.mp hstored
    have hpos : c.2.length ≤ total s.t := List.le_sum_of_mem (List.mem_map_of_mem hc)
    have hlen := h.chain.mem hc
    omega

theorem Kept.holds_iff {s' : StreamReassembler} {ws : List (List UInt8)}
    (hp : Kept s s' data index eof ws) (p : ℕ) :
    s'.Holds p ↔ s.Holds p ∨ (p < s.windowEnd ∧ index ≤ p ∧ p < index + data.length) := by
  have hunasb := hp.unasb
  unfold Holds
  rcases Nat.lt_or_ge p s.unasb with hpu | hpu
  · have : p < s'.unasb := by omega
    simp [this, hpu]
  · have hv := congrArg Option.isSome (hp.value p hpu)
    constructor
    · intro hs
      have hsome : (if p < s'.unasb then ws.flatten[p - s.unasb]? else valueAt s'.t p).isSome := by
        split_ifs with hlt
        · rw [List.getElem?_eq_getElem (by omega)]
          rfl
        · exact hs.resolve_left hlt
      rw [hv] at hsome
      split_ifs at hsome with hw
      · cases ht : valueAt s.t p with
        | some a => exact Or.inl (Or.inr rfl)
        | none =>
          have hlt : p - index < data.length := by simpa [ht] using hsome
          exact Or.inr ⟨hw.1, hw.2, by omega⟩
      · exact Or.inl (Or.inr hsome)
    · intro hs
      have hsome : (if p < s.windowEnd ∧ index ≤ p then
          (valueAt s.t p <|> data[p - index]?) else valueAt s.t p).isSome := by
        rcases hs with (hlt | hs) | ⟨hw, hi, hl⟩
        · omega
        · split_ifs <;> simp [hs]
        · rw [if_pos ⟨hw, hi⟩, List.getElem?_eq_getElem (by omega)]
          cases valueAt s.t p <;> rfl
      rw [← hv] at hsome
      split_ifs at hsome with hlt
      · exact Or.inl hlt
      · exact Or.inr hsome

end StreamReassembler

end Sponge
