import Sponge.Stream.Refinement

/-! # Streams past 2^31

The comparator of the table sees the ends of an interval as signed 32-bit numbers.
Past position 2^31 it can take disjoint intervals for equal, or order them
backwards. As long as it orders what a push adds by position, the table keeps one
block for each interval and loses no byte.
-/

namespace Sponge

open Blocks Runs

theorem toInt_lt_toInt {a b : ℕ} (h : (a + 2 ^ 31) / 2 ^ 32 = (b + 2 ^ 31) / 2 ^ 32) :
    toInt a < toInt b ↔ a < b := by
  unfold toInt Int.bmod
  simp only
  split_ifs <;> omega

theorem comp_asymm {a b : ℕ × ℕ} (h : comp a b = true) : comp b a = false := by
  simp only [comp, Bool.and_eq_true, decide_eq_true_eq] at h
  simp only [comp, Bool.and_eq_false_iff, decide_eq_false_iff_not]
  omega

namespace StreamReassembler

variable {s : StreamReassembler} {data : List UInt8} {index hi : ℕ}

/-- A push keeps a byte at `p`: `p` lies in the window, and no byte is held there. -/
def Fills (s : StreamReassembler) (data : List UInt8) (index p : ℕ) : Prop :=
  s.unasb ≤ p ∧ p < s.windowEnd ∧ index ≤ p ∧ p < index + data.length ∧ valueAt s.t p = none

/-- A longest interval of positions at which a push keeps a byte. -/
structure Hole (s : StreamReassembler) (data : List UInt8) (index : ℕ) (k : ℕ × ℕ) : Prop where
  nonempty : k.1 < k.2
  fills : ∀ p, k.1 ≤ p → p < k.2 → s.Fills data index p
  before : ∀ p, p + 1 = k.1 → ¬ s.Fills data index p
  behind : ¬ s.Fills data index k.2

/-- The comparator orders the holes that a push fills by position, among one another and with
the keys of the table. -/
def KeysOrdered (s : StreamReassembler) (data : List UInt8) (index : ℕ) : Prop :=
  ∀ k, s.Hole data index k → ∀ c, s.Hole data index c ∨ c ∈ s.t.map Prod.fst →
    (c.2 ≤ k.1 → comp c k = true) ∧ (k.2 ≤ c.1 → comp k c = true)

theorem SoundTo.hole_of_mem_pieces (h : s.SoundTo hi)
    (hlt : max s.unasb index < min (index + data.length) s.windowEnd) {c : Block UInt8}
    (hc : c ∈ s.pieces data index) : s.Hole data index c.1 := by
  have hm : Missing data index _ _ s.t (s.pieces data index) :=
    missing_gaps h.chain (le_max_right _ _) hlt (min_le_left _ _)
  have hfills : ∀ p, s.Fills data index p ↔ (valueAt (s.pieces data index) p).isSome := by
    intro p
    rw [hm.value p]
    split_ifs with hp
    · rw [List.getElem?_eq_getElem (by omega)]
      simp only [Fills, Option.isSome_some, iff_true]
      exact ⟨by omega, by omega, by omega, by omega, hp.2.2⟩
    · simp only [Option.isSome_none, Bool.false_eq_true, iff_false]
      rintro ⟨h₁, h₂, h₃, h₄, h₅⟩
      exact hp ⟨by omega, by omega, h₅⟩
  -- pieces have a stored byte between them, so none touches another
  have hends : ∀ p, (p + 1 = c.1.1 ∨ p = c.1.2) → ¬ s.Fills data index p := by
    intro p hp hf
    obtain ⟨d, hd, hdp⟩ := hm.chain.valueAt_isSome_iff.mp ((hfills p).mp hf)
    have hcm := hm.chain.mem hc
    have hsymm : Std.Symm fun a b : Block UInt8 => a.1.2 < b.1.1 ∨ b.1.2 < a.1.1 :=
      ⟨fun _ _ => Or.symm⟩
    have hapart : (s.pieces data index).Pairwise fun a b => a.1.2 < b.1.1 ∨ b.1.2 < a.1.1 :=
      hm.spaced.imp Or.inl
    rcases eq_or_ne c d with rfl | hcd
    · omega
    · have := hapart.forall hc hd hcd
      omega
  exact
    { nonempty := (hm.chain.mem hc).2.1
      fills := fun p h₁ h₂ => (hfills p).mpr (hm.chain.valueAt_isSome_iff.mpr ⟨c, hc, h₁, h₂⟩)
      before := fun p hp => hends p (Or.inl hp)
      behind := hends _ (Or.inr rfl) }

theorem comp_of_round {j : ℕ} {a b : ℕ × ℕ} (ha : 2 ^ 32 * j ≤ a.1 + 2 ^ 31)
    (hab : a.1 < b.1) (hab' : a.2 < b.2) (hle : a.1 ≤ a.2) (hle' : b.1 ≤ b.2)
    (hb : b.2 + 2 ^ 31 < 2 ^ 32 * (j + 1)) : comp a b = true := by
  simp only [comp, Bool.and_eq_true, decide_eq_true_eq]
  exact ⟨(toInt_lt_toInt (by omega)).mpr hab, (toInt_lt_toInt (by omega)).mpr hab'⟩

/-- The keys are ordered when everything stored and pushed lies in one round. -/
theorem keysOrdered_of_round {j : ℕ}
    (ht : ∀ c ∈ s.t, 2 ^ 32 * j ≤ c.1.1 + 2 ^ 31 ∧ c.1.1 < c.1.2 ∧
      c.1.2 + 2 ^ 31 < 2 ^ 32 * (j + 1))
    (hstart : 2 ^ 32 * j ≤ max s.unasb index + 2 ^ 31)
    (hend : min (index + data.length) s.windowEnd + 2 ^ 31 < 2 ^ 32 * (j + 1)) :
    s.KeysOrdered data index := by
  have hhole : ∀ k, s.Hole data index k →
      2 ^ 32 * j ≤ k.1 + 2 ^ 31 ∧ k.1 < k.2 ∧ k.2 + 2 ^ 31 < 2 ^ 32 * (j + 1) := by
    intro k hk
    have hlt := hk.nonempty
    obtain ⟨hu, _, hi, _⟩ := hk.fills k.1 le_rfl hlt
    obtain ⟨_, hw, _, hd, _⟩ := hk.fills (k.2 - 1) (by omega) (by omega)
    exact ⟨by omega, hlt, by omega⟩
  intro k hk c hc
  obtain ⟨hkl, hkn, hkt⟩ := hhole k hk
  obtain ⟨hcl, hcn, hct⟩ :
      2 ^ 32 * j ≤ c.1 + 2 ^ 31 ∧ c.1 < c.2 ∧ c.2 + 2 ^ 31 < 2 ^ 32 * (j + 1) := by
    rcases hc with hc | hc
    · exact hhole c hc
    · obtain ⟨d, hd, rfl⟩ := List.mem_map.mp hc
      exact ht d hd
  exact ⟨fun hle => comp_of_round (j := j) hcl (by omega) (by omega) hcn.le hkn.le hkt,
    fun hle => comp_of_round (j := j) hkl (by omega) (by omega) hkn.le hcn.le hct⟩

/-- Where the keys are ordered, a push at any 64-bit position fills the empty positions of the
window. -/
theorem SoundTo.pushSubstring_of_keysOrdered (eof : Bool) (h : s.SoundTo hi) (hhi : hi < 2 ^ 64)
    (hlen : index + data.length < 2 ^ 64)
    (htop : min (index + data.length) s.windowEnd ≤ hi) (hk : s.KeysOrdered data index) :
    (s.pushSubstring data index eof).SoundTo hi ∧
      ∃ ws, Kept s (s.pushSubstring data index eof) data index eof ws := by
  apply h.pushSubstring eof hhi hlen (Or.inl htop)
  intro hlt
  have hm : Missing data index _ _ s.t (s.pieces data index) :=
    missing_gaps h.chain (le_max_right _ _) hlt (min_le_left _ _)
  constructor
  · intro c hc d hd
    have hkc := hk c.1 (h.hole_of_mem_pieces hlt hc) d.1 (Or.inr (List.mem_map_of_mem hd))
    rcases hm.apart c hc d hd with hle | hle
    · exact Or.inl ⟨hkc.1 hle, hle⟩
    · exact Or.inr ⟨comp_asymm (hkc.2 hle), hkc.2 hle, hle⟩
  · apply hm.spaced.imp_of_mem
    intro c d hc hd hcd
    exact (hk d.1 (h.hole_of_mem_pieces hlt hd) c.1 (Or.inl (h.hole_of_mem_pieces hlt hc))).1 hcd.le

end StreamReassembler

namespace StreamTrace

/-- Positions do not overflow 64 bits: neither the end of a push nor that of the window. -/
def InRange (s : StreamTrace) : StreamOp → Prop
  | .push data index _ => index + data.length < 2 ^ 64
  | .read len =>
    s.reassembler.output.bytesRead + len + s.reassembler.capacity < 2 ^ 64

instance (s : StreamTrace) : ∀ o, Decidable (s.InRange o)
  | .push .. => inferInstanceAs (Decidable (_ < _))
  | .read _ => inferInstanceAs (Decidable (_ < _))

/-- The comparator orders what the operation enters into the table by position. -/
def KeysOrdered (s : StreamTrace) : StreamOp → Prop
  | .push data index _ => s.reassembler.KeysOrdered data index
  | .read _ => True

end StreamTrace

/-- The table is an increasing list of disjoint intervals, and under each key lie the bytes that
were kept for its positions. -/
structure TableKeeps (s : StreamReassembler) (m : ByteMap) : Prop where
  nonempty : ∀ c ∈ s.t, c.1.1 < c.1.2
  increasing : s.t.Pairwise fun c d => c.1.2 ≤ d.1.1
  length : ∀ c ∈ s.t, c.2.length = c.1.2 - c.1.1
  bytes : ∀ c ∈ s.t, ∀ p, c.1.1 ≤ p → p < c.1.2 → c.2[p - c.1.1]? = m.bytes.value p
  kept : ∀ p, m.bytes.firstGap ≤ p → (m.bytes.value p).isSome → ∃ c ∈ s.t, c.1.1 ≤ p ∧ p < c.1.2
  unassembled : s.unassembledBytes = total s.t

/-- The reassembler stores exactly the bytes of the map behind the first gap. -/
structure Follows (s : StreamTrace) (m : ByteMap) : Prop where
  sound : s.reassembler.SoundTo (2 ^ 64 - 1)
  value : ∀ p, s.reassembler.unasb ≤ p → m.bytes.value p = valueAt s.reassembler.t p
  firstGap : m.bytes.firstGap = s.reassembler.unasb
  capacity : s.reassembler.capacity = m.capacity
  totRead : s.reassembler.output.totRead = m.read
  small : m.read + m.capacity < 2 ^ 64

namespace Follows

variable {s : StreamTrace} {m : ByteMap}

theorem new {capacity : ℕ} (h : capacity < 2 ^ 64) : Follows (.new capacity) (.new capacity) where
  sound := .new
  value _ _ := rfl
  firstGap := GapMap.firstGap_empty
  capacity := rfl
  totRead := rfl
  small := by simpa [ByteMap.new] using h

theorem read (h : Follows s m) {len : ℕ} (ho : s.InRange (.read len)) :
    Follows (s.step (.read len)) (m.step (.read len)) := by
  have htot : s.reassembler.output.totRead = m.read := h.totRead
  simp only [StreamTrace.InRange, ByteStream.bytesRead, h.capacity, htot] at ho
  exact
    { sound := ⟨h.sound.chain, h.sound.gap, h.sound.top, h.sound.size, h.sound.unasb_le⟩
      value := h.value
      firstGap := h.firstGap
      capacity := h.capacity
      totRead := by
        simp only [StreamTrace.step, StreamReassembler.read, ByteStream.read, ByteMap.step, htot]
        omega
      small := by simp only [ByteMap.step]; omega }

theorem mirrors (h : Follows s m) : Mirrors s.reassembler m where
  value := h.value
  firstGap := h.firstGap
  windowEnd := by
    rw [StreamReassembler.windowEnd, h.totRead, h.capacity, Nat.mod_eq_of_lt h.small]

theorem push (h : Follows s m) {data : List UInt8} {index : ℕ} {eof : Bool}
    (ho : s.InRange (.push data index eof)) (hk : s.KeysOrdered (.push data index eof)) :
    Follows (s.step (.push data index eof)) (m.step (.push data index eof)) := by
  obtain ⟨hsound, ws, hp⟩ := h.sound.pushSubstring_of_keysOrdered eof (by norm_num) ho
    (Nat.le_pred_of_lt ((min_le_left _ _).trans_lt ho)) hk
  refine
    { sound := hsound
      value := fun _ hpu => h.mirrors.value_push_stored hp hpu
      firstGap := h.mirrors.firstGap_push hp hsound.gap
      capacity := hp.capacity.trans h.capacity
      totRead := ?_
      small := h.small }
  simp only [StreamTrace.step, ByteMap.step, ByteMap.push, hp.output]
  split_ifs <;> simp [ByteStream.writeAll_totRead, h.totRead]

theorem step (h : Follows s m) (o : StreamOp) (ho : s.InRange o) (hk : s.KeysOrdered o) :
    Follows (s.step o) (m.step o) := by
  cases o with
  | push => exact h.push ho hk
  | read => exact h.read ho

theorem tableKeeps (h : Follows s m) : TableKeeps s.reassembler m where
  nonempty c hc := (h.sound.chain.mem hc).2.1
  increasing := h.sound.chain.pairwise
  length c hc := (h.sound.chain.mem hc).2.2
  bytes c hc p h₁ h₂ := by
    rw [h.value p ((h.sound.chain.mem hc).1.trans h₁), h.sound.chain.valueAt_of_mem hc h₁ h₂]
  kept p hp hs := by
    rw [h.value p (by rw [← h.firstGap]; exact hp)] at hs
    exact h.sound.chain.valueAt_isSome_iff.mp hs
  unassembled := h.sound.size

end Follows

/-- In runs whose pushes meet ordered keys, the table keeps every byte, however long the stream. -/
theorem table_keeps {capacity : ℕ} (hcap : capacity < 2 ^ 64) {ops : List StreamOp}
    (hr : Admitted StreamTrace.step StreamTrace.InRange (.new capacity) ops)
    (hk : Admitted StreamTrace.step StreamTrace.KeysOrdered (.new capacity) ops) :
    ∀ ops', ops' <+: ops →
      TableKeeps (run StreamTrace.step (.new capacity) ops').reassembler
        (run ByteMap.step (.new capacity) ops') := by
  intro ops' hp
  have hf : Follows (run StreamTrace.step (.new capacity) ops')
      (run ByteMap.step (.new capacity) ops') :=
    ((hr.and hk).of_isPrefix hp).simulation (fun s m o hs ho => hs.step o ho.1 ho.2)
      (Follows.new hcap)
  exact hf.tableKeeps

/-- Out-of-order substrings between 2^31 and 2^32, with an overlap, and a read. -/
theorem table_keeps_second_round :
    let ops : List StreamOp := [.push [1, 2] (2 ^ 31 + 10) false, .push [3] (2 ^ 31 + 20) false,
      .read 0, .push [7, 8, 9, 10] (2 ^ 31 + 9) true]
    TableKeeps (run StreamTrace.step (.new (2 ^ 33)) ops).reassembler
      (run ByteMap.step (.new (2 ^ 33)) ops) := by
  intro ops
  set s₁ := StreamTrace.step (.new (2 ^ 33)) (.push [1, 2] (2 ^ 31 + 10) false) with hs₁
  set s₂ := s₁.step (.push [3] (2 ^ 31 + 20) false) with hs₂
  have hk₁ : StreamTrace.KeysOrdered (.new (2 ^ 33)) (.push [1, 2] (2 ^ 31 + 10) false) :=
    StreamReassembler.keysOrdered_of_round (j := 1) (by decide) (by decide) (by decide)
  have hf₁ : Follows s₁ _ := (Follows.new (by norm_num)).step _ (by decide) hk₁
  have hk₂ : s₁.KeysOrdered (.push [3] (2 ^ 31 + 20) false) :=
    StreamReassembler.keysOrdered_of_round (j := 1) (by decide +kernel) (by decide +kernel)
      (by decide +kernel)
  have hf₂ : Follows s₂ _ := hf₁.step _ (by decide) hk₂
  have hf₃ : Follows (s₂.step (.read 0)) _ := hf₂.step _ (by decide +kernel) trivial
  have hk₃ : (s₂.step (.read 0)).KeysOrdered (.push [7, 8, 9, 10] (2 ^ 31 + 9) true) :=
    StreamReassembler.keysOrdered_of_round (j := 1) (by decide +kernel) (by decide +kernel)
      (by decide +kernel)
  have hk : Admitted StreamTrace.step StreamTrace.KeysOrdered (.new (2 ^ 33)) ops :=
    ⟨hk₁, hk₂, trivial, hk₃, trivial⟩
  exact table_keeps (by norm_num) (by decide +kernel) hk ops List.prefix_rfl

/-- Two bytes are stored on either side of 2^31: the second overwrites the first. -/
theorem table_overwrites :
    let ops : List StreamOp := [.push [97] (2 ^ 31 - 1) false, .push [98, 99] (2 ^ 31 + 5) false]
    let s := (run StreamTrace.step (.new (2 ^ 33)) ops).reassembler
    Admitted StreamTrace.step StreamTrace.InRange (.new (2 ^ 33)) ops ∧
      s.t = [((2 ^ 31 - 1, 2 ^ 31), [98, 99])] ∧ s.unassembledBytes = 3 ∧
      ¬ TableKeeps s (run ByteMap.step (.new (2 ^ 33)) ops) := by
  intro ops s
  have ht : s.t = [((2 ^ 31 - 1, 2 ^ 31), [98, 99])] := by decide +kernel
  refine ⟨by decide +kernel, ht, by decide +kernel, fun h => ?_⟩
  have hlen := h.length _ (by rw [ht]; exact List.mem_singleton_self _)
  simp at hlen

end Sponge
