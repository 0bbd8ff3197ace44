import Sponge.Stream.Growth

/-! # Counting what a push keeps

The number of bytes that a push adds can be seen from outside, whatever the table
holds: it is the growth of what is assembled and what is stored, taken together.
As long as 64 bits suffice to count them, the window that is advertised covers the
one in which bytes are kept.
-/

namespace Sponge

open Blocks

namespace StreamReassembler

variable {s : StreamReassembler} {data : List UInt8} {index idx stop : ℕ} {eof : Bool}
  {t : List (Block UInt8)}

/-- The number of positions from `idx` to `stop` that the table leaves to a push. -/
def spare (stop : ℕ) : ℕ → List (Block UInt8) → ℕ
  | idx, [] => stop - idx
  | idx, c :: t =>
    (min c.1.1 stop - idx) + if stop ≤ c.1.2 then 0 else spare stop (max idx c.1.2) t

/-- The number of bytes that a push adds. -/
def keptCount (s : StreamReassembler) (data : List UInt8) (index : ℕ) : ℕ :=
  spare (s.pushEnd data index) (max s.unasb index) s.t

theorem spare_eq_zero (h : stop ≤ idx) : spare stop idx t = 0 := by
  induction t generalizing idx with
  | nil => exact Nat.sub_eq_zero_of_le h
  | cons c t ih =>
    rw [spare, ih (h.trans (le_max_left _ _)), ite_self]
    omega

theorem spare_succ_le (ht : ∀ c ∈ t, c.1.1 ≤ c.1.2) :
    spare (stop + 1) idx t ≤ spare stop idx t + 1 := by
  induction t generalizing idx with
  | nil => simp only [spare]; omega
  | cons c t ih =>
    obtain ⟨hc, ht⟩ := List.forall_mem_cons.mp ht
    have hrec : spare (stop + 1) (max idx c.1.2) t ≤ spare stop (max idx c.1.2) t + 1 := ih ht
    simp only [spare]
    by_cases hend : stop + 1 ≤ c.1.2
    · rw [if_pos hend, if_pos (by omega)]
      omega
    · rw [if_neg hend]
      rcases Nat.lt_or_ge c.1.2 stop with hlt | hge
      · rw [if_neg (by omega)]
        omega
      · have hzero : spare stop (max idx c.1.2) t = 0 := spare_eq_zero (by omega)
        rw [if_pos hge]
        omega

theorem spare_pos (h : idx < stop) (ht : ∀ c ∈ t, c.1.2 < stop) : 0 < spare stop idx t := by
  induction t generalizing idx with
  | nil => exact Nat.sub_pos_of_lt h
  | cons c t ih =>
    obtain ⟨hc, ht⟩ := List.forall_mem_cons.mp ht
    have hroom : max idx c.1.2 < stop := by omega
    have hrec := ih hroom ht
    rw [spare, if_neg (by omega)]
    omega

/-- The number of bytes that a push of `len` bytes at `x` adds when the window does not cut it. -/
def spareOf (s : StreamReassembler) (x len : ℕ) : ℕ :=
  spare ((x + len) % 2 ^ 64) (max s.unasb x) s.t

theorem spareOf_wrap {x len : ℕ} (hx : x < 2 ^ 64) (hlen : len < 2 ^ 64)
    (hge : 2 ^ 64 ≤ x + len) : s.spareOf x len = 0 :=
  spare_eq_zero (by omega)

theorem total_rest (hi : index ≤ idx) (he : stop ≤ index + data.length) :
    total (rest data index stop idx) = stop - idx := by
  unfold rest
  split_ifs with hlt
  · simpa using length_piece hi he
  · simp only [total_nil]
    omega

theorem total_gaps (hi : index ≤ idx) (he : stop ≤ index + data.length) :
    total (gaps data index stop idx t) = spare stop idx t := by
  induction t generalizing idx with
  | nil => exact total_rest hi he
  | cons c t ih =>
    have hbefore : total (if idx < c.1.1 then [piece data index idx (min c.1.1 stop)] else []) =
        min c.1.1 stop - idx := by
      split_ifs with hgap
      · have hstop : min c.1.1 stop ≤ index + data.length := by omega
        simpa using length_piece hi hstop
      · simp only [total_nil]
        omega
    have hi' : index ≤ max idx c.1.2 := hi.trans (le_max_left _ _)
    simp only [gaps, spare]
    by_cases hend : stop ≤ c.1.2
    · rw [if_pos hend, if_pos hend, total_append, hbefore, total_rest hi' he]
      omega
    · rw [if_neg hend, if_neg hend, total_append, hbefore, ih hi']

theorem store_szUnasb (s : StreamReassembler) (g : List (Block UInt8)) :
    (s.store g).szUnasb % 2 ^ 64 = (s.szUnasb + total g) % 2 ^ 64 := by
  induction g generalizing s with
  | nil => simp [store]
  | cons i g ih =>
    have hrec := ih { s with
      t := assign comp i.1 i.2 s.t
      szUnasb := (s.szUnasb + i.2.length) % 2 ^ 64 }
    change (store _ g).szUnasb % 2 ^ 64 = _
    rw [hrec, total_cons]
    simp only
    omega

theorem drainFrom_sum (h : total t < 2 ^ 64) :
    ((s.drainFrom t).unasb + (s.drainFrom t).szUnasb) % 2 ^ 64 =
      (s.unasb + s.szUnasb) % 2 ^ 64 := by
  induction t generalizing s with
  | nil => rfl
  | cons c t ih =>
    rw [total_cons] at h
    rw [drainFrom]
    split_ifs
    · rw [ih (by omega)]
      simp only [sub64]
      omega
    · rfl

/-- What is assembled and what is stored grow together by the bytes that are kept. -/
theorem pushSubstring_sum (eof : Bool)
    (hsmall : s.keptCount data index + total s.t < 2 ^ 64) :
    ((s.pushSubstring data index eof).unasb + (s.pushSubstring data index eof).szUnasb) % 2 ^ 64 =
      (s.unasb + s.szUnasb + s.keptCount data index) % 2 ^ 64 := by
  by_cases h : s.pushEnd data index ≤ max s.unasb index
  · obtain ⟨_, hunasb, hsize⟩ := pushSubstring_outside eof h
    rw [hunasb, hsize, keptCount, spare_eq_zero h, add_zero]
  · have hend : s.pushEnd data index ≤ index + data.length :=
      (min_le_left _ _).trans (Nat.mod_le _ _)
    have hkept : total (gaps data index (s.pushEnd data index) (max s.unasb index) s.t) =
        s.keptCount data index := total_gaps (le_max_right _ _) hend
    rw [pushSubstring_eq, if_neg h, closeAtEnd_unasb, closeAtEnd_szUnasb, drain]
    set s₁ := s.announce data index eof
    set g := gaps data index (s.pushEnd data index) (max s.unasb index) s.t
    have htotal : total (s₁.store g).t ≤ total g + total s.t :=
      (store_spec (P := fun _ => True) (s := s₁) (by simp) (by simp)).2
    have hunasb : (s₁.store g).unasb = s.unasb := store_unasb s₁ g
    have hsize : (s₁.store g).szUnasb % 2 ^ 64 = (s.szUnasb + total g) % 2 ^ 64 :=
      store_szUnasb s₁ g
    rw [drainFrom_sum (by omega), hunasb]
    omega

/-- No count of bytes has reached the end of its 64 bits. -/
structure Bounded (s : StreamReassembler) : Prop where
  keyed : s.Keyed
  below : ∀ c ∈ s.t, c.1.2 < 2 ^ 64 - 1
  fits : s.unasb + total s.t < 2 ^ 64 - 1
  room : s.output.rem + s.output.totWrite = s.capacity + s.output.totRead
  cap : s.output.cap = s.capacity
  written : s.output.totWrite ≤ s.unasb
  window : s.output.totRead + s.capacity < 2 ^ 64 - 1

namespace Bounded

theorem new {capacity : ℕ} (h : capacity < 2 ^ 64 - 1) : (new capacity).Bounded where
  keyed := by simp [Keyed, StreamReassembler.new]
  below := by simp [StreamReassembler.new]
  fits := by simp [StreamReassembler.new]
  room := rfl
  cap := rfl
  written := le_rfl
  window := by simpa [StreamReassembler.new, ByteStream.new] using h

theorem windowEnd_eq (h : s.Bounded) : s.windowEnd = s.output.totRead + s.capacity :=
  Nat.mod_eq_of_lt (by have := h.window; omega)

theorem windowEnd_le (h : s.Bounded) :
    s.windowEnd ≤ s.unasb + sub64 s.capacity s.output.bufferSize := by
  have hroom := h.room
  have hwritten := h.written
  have hwindow := h.window
  rw [h.windowEnd_eq, ByteStream.bufferSize, h.cap]
  unfold sub64
  omega

theorem read (h : s.Bounded) {len : ℕ}
    (hlen : s.output.bytesRead + len + s.capacity < 2 ^ 64 - 1) : (s.read len).1.Bounded := by
  have hroom := h.room
  unfold ByteStream.bytesRead at hlen
  have htot : (s.output.totRead + len) % 2 ^ 64 = s.output.totRead + len := by omega
  have hrem : (s.output.rem + len) % 2 ^ 64 = s.output.rem + len := by omega
  exact
    { keyed := h.keyed
      below := h.below
      fits := h.fits
      room := by simp only [StreamReassembler.read, ByteStream.read, htot, hrem]; omega
      cap := h.cap
      written := h.written
      window := by simp only [StreamReassembler.read, ByteStream.read, htot]; omega }

theorem drainFrom (h : ({ s with t := t } : StreamReassembler).Bounded) :
    (s.drainFrom t).Bounded := by
  induction t generalizing s with
  | nil => exact h
  | cons c t ih =>
    rw [StreamReassembler.drainFrom]
    split_ifs
    · have hfits := h.fits
      have hroom := h.room
      have hwritten := h.written
      have hwindow := h.window
      have hcap := h.cap
      simp only [total_cons] at hfits hroom hwritten hwindow hcap
      have hunasb : (s.unasb + c.2.length) % 2 ^ 64 = s.unasb + c.2.length := by omega
      have htot : (s.output.totWrite + min c.2.length s.output.rem) % 2 ^ 64 =
          s.output.totWrite + min c.2.length s.output.rem := by omega
      refine ih
        { keyed := fun d hd => h.keyed d (List.mem_cons_of_mem _ hd)
          below := fun d hd => h.below d (List.mem_cons_of_mem _ hd)
          fits := ?_
          room := ?_
          cap := hcap
          written := ?_
          window := hwindow }
      · simp only [hunasb]
        omega
      · simp only [ByteStream.write, htot]
        omega
      · simp only [ByteStream.write, htot, hunasb]
        omega
    · exact h

theorem closeAtEnd (h : s.Bounded) : s.closeAtEnd.Bounded := by
  unfold StreamReassembler.closeAtEnd
  split_ifs
  · exact ⟨h.keyed, h.below, h.fits, h.room, h.cap, h.written, h.window⟩
  · exact h

theorem pushSubstring (h : s.Bounded)
    (hsmall : s.unasb + total s.t + data.length < 2 ^ 64 - 1) :
    (s.pushSubstring data index eof).Bounded := by
  set s₁ := s.announce data index eof with hs₁
  have h₁ : s₁.Bounded := ⟨h.keyed, h.below, h.fits, h.room, h.cap, h.written, h.window⟩
  rw [pushSubstring_eq]
  split_ifs with hout
  · exact h₁.closeAtEnd
  · have hg := gaps_spec data index h.keyed (not_le.mp hout)
    set g := gaps data index (s.pushEnd data index) (max s.unasb index) s.t
    have hend : s.pushEnd data index ≤ index + data.length :=
      (min_le_left _ _).trans (Nat.mod_le _ _)
    have hwindow : s.pushEnd data index ≤ s.windowEnd := min_le_right _ _
    have hw := h.window
    have hwe := h.windowEnd_eq
    have hkeyed := store_spec (P := fun k => k.1 ≤ k.2) (s := s₁) h.keyed fun c hc => (hg.1 c hc).1
    have hbelow := store_spec (P := fun k => k.2 < 2 ^ 64 - 1) (s := s₁) h.below fun c hc => by
      have := (hg.1 c hc).2
      omega
    have hunasb : (s₁.store g).unasb = s.unasb := store_unasb s₁ g
    have htotal : total (s₁.store g).t ≤ total g + total s.t := hkeyed.2
    have houtput : (s₁.store g).output = s.output ∧ (s₁.store g).capacity = s.capacity :=
      store_output s₁ g
    refine (drainFrom (s := s₁.store g) (t := (s₁.store g).t)
      { keyed := hkeyed.1
        below := hbelow.1
        fits := ?_
        room := ?_
        cap := ?_
        written := ?_
        window := ?_ }).closeAtEnd
    · simp only [hunasb]
      omega
    all_goals simp only [houtput, hunasb]
    · exact h.room
    · exact h.cap
    · exact h.written
    · exact h.window

theorem spareOf_pos (h : s.Bounded) {x : ℕ} (hx : x < 2 ^ 64 - 1) :
    0 < s.spareOf x (2 ^ 64 - 1 - x) := by
  have hfits := h.fits
  have hend : (x + (2 ^ 64 - 1 - x)) % 2 ^ 64 = 2 ^ 64 - 1 := by omega
  rw [spareOf, hend]
  exact spare_pos (by omega) h.below

theorem spareOf_le_one (h : s.Bounded) {x len : ℕ} (hx : x < 2 ^ 64) (hlen : len < 2 ^ 64)
    (hzero : ∀ l < len, s.spareOf x l = 0) : s.spareOf x len ≤ 1 := by
  rcases Nat.lt_or_ge (x + len) (2 ^ 64) with hlt | hge
  · rcases Nat.eq_zero_or_pos len with hz | hl
    · have : s.spareOf x len = 0 := spare_eq_zero (by omega)
      omega
    · have hpred := hzero (len - 1) (by omega)
      have hsucc : (x + len) % 2 ^ 64 = (x + (len - 1)) % 2 ^ 64 + 1 := by omega
      have hnext : spare ((x + (len - 1)) % 2 ^ 64 + 1) (max s.unasb x) s.t ≤
          spare ((x + (len - 1)) % 2 ^ 64) (max s.unasb x) s.t + 1 := spare_succ_le h.keyed
      unfold spareOf at hpred ⊢
      rw [hsucc]
      omega
  · rw [spareOf_wrap hx hlen hge]
    omega

/-- Pushed at two different positions, some number of bytes adds one byte for one of them and
none for the other, when the window ends at a suitable position. -/
theorem exists_spare_ne (h : s.Bounded) {c d : ℕ} (hcd : c < d) (hd : d < 2 ^ 64) :
    ∃ len stop, stop < 2 ^ 64 ∧
      let k (x : ℕ) := spare (min ((x + len) % 2 ^ 64) stop) (max s.unasb x) s.t
      k c ≤ 1 ∧ k d ≤ 1 ∧ k c ≠ k d := by
  have hc : 0 < s.spareOf c (2 ^ 64 - 1 - c) := h.spareOf_pos (by omega)
  have hex : ∃ len, 0 < s.spareOf c len + s.spareOf d len := ⟨_, Nat.add_pos_left hc _⟩
  -- the shortest payload of which a byte is kept for one of the positions
  set len := Nat.find hex with hlen
  have hpos : 0 < s.spareOf c len + s.spareOf d len := Nat.find_spec hex
  have hmin : ∀ l < len, s.spareOf c l = 0 ∧ s.spareOf d l = 0 := fun l hl => by
    have := Nat.find_min hex hl
    omega
  have hlen_lt : len < 2 ^ 64 := by
    by_contra hge
    have := hmin (2 ^ 64 - 1 - c) (by omega)
    omega
  have hc1 := h.spareOf_le_one (by omega) hlen_lt fun l hl => (hmin l hl).1
  have hd1 := h.spareOf_le_one hd hlen_lt fun l hl => (hmin l hl).2
  by_cases hboth : s.spareOf c len = s.spareOf d len
  · -- both would keep a byte: the window ends behind the one for the lower position
    have hcl : c + len < 2 ^ 64 := by
      by_contra hge
      have := spareOf_wrap (s := s) (x := c) (by omega) hlen_lt (by omega)
      omega
    have hdl : d + len < 2 ^ 64 := by
      by_contra hge
      have := spareOf_wrap (s := s) hd hlen_lt (by omega)
      omega
    have hcend : min ((c + len) % 2 ^ 64) (c + len) = (c + len) % 2 ^ 64 := by omega
    have hdzero : spare (min ((d + len) % 2 ^ 64) (c + len)) (max s.unasb d) s.t = 0 := by
      rcases Nat.lt_or_ge d (c + len) with hlt | hge
      · have hend : min ((d + len) % 2 ^ 64) (c + len) = (d + (c + len - d)) % 2 ^ 64 := by omega
        rw [hend]
        exact (hmin (c + len - d) (by omega)).2
      · exact spare_eq_zero (by omega)
    refine ⟨len, c + len, hcl, ?_⟩
    simp only [hcend, hdzero]
    change s.spareOf c len ≤ 1 ∧ 0 ≤ 1 ∧ s.spareOf c len ≠ 0
    omega
  · refine ⟨len, 2 ^ 64 - 1, by omega, ?_⟩
    have hend : ∀ x, min ((x + len) % 2 ^ 64) (2 ^ 64 - 1) = (x + len) % 2 ^ 64 := fun x => by
      omega
    simp only [hend]
    exact ⟨hc1, hd1, hboth⟩

end Bounded

end StreamReassembler

end Sponge
