import Sponge.Library.GapMap
import Sponge.Library.Runs
import Sponge.Stream.Assembly

/-! # The reassembler as a byte map

The purpose of the reassembler is to keep one byte for each stream position that
arrived inside the window, first come first kept, and to deliver the longest
prefix without gaps. Every run below position 2^31 computes exactly that.
-/

namespace Sponge

open Blocks Runs

/-- One byte for each position that was kept, and the count of bytes already read. -/
structure ByteMap where
  capacity : ℕ
  read : ℕ
  bytes : GapMap UInt8

namespace ByteMap

def new (capacity : ℕ) : ByteMap := ⟨capacity, 0, .empty _⟩

/-- Keep a pushed byte at each empty position from the first gap to the end of the window. -/
def push (m : ByteMap) (data : List UInt8) (index : ℕ) : ByteMap :=
  { m with
    bytes := m.bytes.fill
      (fun p => m.bytes.firstGap ≤ p ∧ p < m.read + m.capacity ∧ index ≤ p)
      (fun p => data[p - index]?)
      ⟨index + data.length, fun p hp => List.getElem?_eq_none (by omega)⟩ }

theorem value_push (m : ByteMap) (data : List UInt8) (index p : ℕ) :
    (m.push data index).bytes.value p =
      if m.bytes.firstGap ≤ p ∧ p < m.read + m.capacity ∧ index ≤ p then
        m.bytes.value p <|> data[p - index]?
      else m.bytes.value p := rfl

theorem value_push_of_lt {m : ByteMap} {p : ℕ} (h : p < m.bytes.firstGap) (data : List UInt8)
    (index : ℕ) : (m.push data index).bytes.value p = m.bytes.value p := by
  rw [value_push, if_neg (by omega)]

end ByteMap

/-- The table stores the bytes of the map behind the first gap. -/
structure Mirrors (s : StreamReassembler) (m : ByteMap) : Prop where
  value : ∀ p, s.unasb ≤ p → m.bytes.value p = valueAt s.t p
  firstGap : m.bytes.firstGap = s.unasb
  windowEnd : s.windowEnd = m.read + m.capacity

namespace Mirrors

variable {s s' : StreamReassembler} {m : ByteMap} {data : List UInt8} {index p : ℕ} {eof : Bool}
  {ws : List (List UInt8)}

theorem value_push (h : Mirrors s m) (hk : s.Kept s' data index eof ws) (hp : s.unasb ≤ p) :
    (m.push data index).bytes.value p =
      if p < s'.unasb then ws.flatten[p - s.unasb]? else valueAt s'.t p := by
  rw [hk.value p hp, ByteMap.value_push, h.firstGap, h.value p hp, h.windowEnd]
  simp only [hp, true_and]

theorem value_push_stored (h : Mirrors s m) (hk : s.Kept s' data index eof ws)
    (hp : s'.unasb ≤ p) : (m.push data index).bytes.value p = valueAt s'.t p := by
  have hle : s.unasb ≤ p := by have := hk.unasb; omega
  rw [h.value_push hk hle, if_neg (by omega)]

theorem contents_push (h : Mirrors s m) (hk : s.Kept s' data index eof ws)
    (hgap : valueAt s'.t s'.unasb = none) :
    (m.push data index).bytes.contents = m.bytes.contents ++ ws.flatten := by
  have hlen : (m.bytes.contents ++ ws.flatten).length = s'.unasb := by
    rw [List.length_append, GapMap.length_contents, h.firstGap, hk.unasb]
  apply GapMap.contents_eq
  · rw [hlen, h.value_push_stored hk le_rfl, hgap]
  · intro p hp
    rw [hlen] at hp
    rcases Nat.lt_or_ge p s.unasb with hpu | hpu
    · have hpg : p < m.bytes.firstGap := by rw [h.firstGap]; exact hpu
      rw [ByteMap.value_push_of_lt hpg, List.getElem?_append_left (by simpa using hpg),
        GapMap.contents_getElem? hpg]
    · rw [h.value_push hk hpu, if_pos hp, ← h.firstGap, ← GapMap.length_contents,
        List.getElem?_append_right (by rw [GapMap.length_contents, h.firstGap]; exact hpu)]

theorem firstGap_push (h : Mirrors s m) (hk : s.Kept s' data index eof ws)
    (hgap : valueAt s'.t s'.unasb = none) : (m.push data index).bytes.firstGap = s'.unasb := by
  rw [← GapMap.length_contents, h.contents_push hk hgap, List.length_append,
    GapMap.length_contents, h.firstGap, hk.unasb]

end Mirrors

/-- What is done to a reassembler: substrings are pushed and the output is read. -/
inductive StreamOp
  | push (data : List UInt8) (index : ℕ) (eof : Bool)
  | read (len : ℕ)

/-- A reassembler with a record of the bytes read from it and of whether an end was announced. -/
structure StreamTrace where
  reassembler : StreamReassembler
  taken : List UInt8
  eofPushed : Bool

namespace StreamTrace

def new (capacity : ℕ) : StreamTrace := ⟨.new capacity, [], false⟩

def step (s : StreamTrace) : StreamOp → StreamTrace
  | .push data index eof =>
    { s with
      reassembler := s.reassembler.pushSubstring data index eof
      eofPushed := s.eofPushed || eof }
  | .read len =>
    { s with
      reassembler := (s.reassembler.read len).1
      taken := s.taken ++ (s.reassembler.read len).2 }

/-- Pushes and the window stay below 2^31, and no read asks for more than is buffered. -/
def Within (s : StreamTrace) : StreamOp → Prop
  | .push data index _ => index + data.length < 2 ^ 31
  | .read len =>
    len ≤ s.reassembler.output.bufferSize ∧
      s.reassembler.output.bytesRead + len + s.reassembler.capacity < 2 ^ 31

instance (s : StreamTrace) : ∀ o, Decidable (s.Within o)
  | .push .. => inferInstanceAs (Decidable (_ < _))
  | .read _ => inferInstanceAs (Decidable (_ ∧ _))

end StreamTrace

def ByteMap.step (m : ByteMap) : StreamOp → ByteMap
  | .push data index _ => m.push data index
  | .read len => { m with read := m.read + len }

/-- The reassembler holds exactly the bytes of the map. -/
structure Refines (s : StreamTrace) (m : ByteMap) : Prop where
  sound : s.reassembler.Sound
  value : ∀ p, s.reassembler.unasb ≤ p → m.bytes.value p = valueAt s.reassembler.t p
  contents : m.bytes.contents = s.taken ++ s.reassembler.output.buf
  firstGap : m.bytes.firstGap = s.reassembler.unasb
  window : ∀ p, (m.bytes.value p).isSome → p < m.read + m.capacity
  stream : s.reassembler.output.Consistent
  cap : s.reassembler.output.cap = m.capacity
  capacity : s.reassembler.capacity = m.capacity
  totRead : s.reassembler.output.totRead = m.read
  taken : s.taken.length = m.read
  totWrite : s.reassembler.output.totWrite = s.reassembler.unasb
  small : m.read + m.capacity < 2 ^ 31

theorem Refines.unasb_eq {s : StreamTrace} {m : ByteMap} (h : Refines s m) :
    s.reassembler.unasb = m.read + s.reassembler.output.buf.length := by
  rw [← h.firstGap, ← GapMap.length_contents, h.contents, List.length_append, h.taken]

theorem Refines.windowEnd_eq {s : StreamTrace} {m : ByteMap} (h : Refines s m) :
    s.reassembler.windowEnd = m.read + m.capacity := by
  have := h.small
  rw [StreamReassembler.windowEnd, h.totRead, h.capacity, Nat.mod_eq_of_lt (by omega)]

theorem Refines.mirrors {s : StreamTrace} {m : ByteMap} (h : Refines s m) :
    Mirrors s.reassembler m :=
  ⟨h.value, h.firstGap, h.windowEnd_eq⟩

theorem Refines.new {capacity : ℕ} (h : capacity < 2 ^ 31) :
    Refines (.new capacity) (.new capacity) where
  sound := .new
  value _ _ := rfl
  contents := GapMap.contents_empty
  firstGap := GapMap.firstGap_empty
  window p hp := by simp [ByteMap.new] at hp
  stream := .new (by omega)
  cap := rfl
  capacity := rfl
  totRead := rfl
  taken := rfl
  totWrite := rfl
  small := by simpa [ByteMap.new] using h

theorem Refines.read {s : StreamTrace} {m : ByteMap} (h : Refines s m) (len : ℕ)
    (ho : s.Within (.read len)) : Refines (s.step (.read len)) (m.step (.read len)) := by
  obtain ⟨hlen, hsmall⟩ := ho
  rw [h.stream.bufferSize_eq] at hlen
  have htot : s.reassembler.output.totRead = m.read := h.totRead
  simp only [ByteStream.bytesRead, h.capacity, htot] at hsmall
  exact
    { sound := ⟨h.sound.chain, h.sound.gap, h.sound.top, h.sound.size, h.sound.unasb_lt⟩
      value := h.value
      contents := by
        rw [ByteMap.step, h.contents]
        simp [StreamTrace.step, StreamReassembler.read, ByteStream.read]
      firstGap := h.firstGap
      window := fun p hp => (h.window p hp).trans_le (by simp [ByteMap.step])
      stream := h.stream.popOutput hlen
      cap := h.cap
      capacity := h.capacity
      totRead := by
        simp only [StreamTrace.step, StreamReassembler.read, ByteStream.read, ByteMap.step, htot]
        omega
      taken := by
        simp [StreamTrace.step, StreamReassembler.read, ByteStream.read, ByteMap.step, h.taken,
          Nat.min_eq_left hlen]
      totWrite := h.totWrite
      small := by simp only [ByteMap.step]; omega }

theorem Refines.setError {s : StreamTrace} {m : ByteMap} (h : Refines s m) :
    Refines { s with reassembler :=
      { s.reassembler with output := s.reassembler.output.setError } } m where
  sound := ⟨h.sound.chain, h.sound.gap, h.sound.top, h.sound.size, h.sound.unasb_lt⟩
  value := h.value
  contents := h.contents
  firstGap := h.firstGap
  window := h.window
  stream := h.stream.setError
  cap := h.cap
  capacity := h.capacity
  totRead := h.totRead
  taken := h.taken
  totWrite := h.totWrite
  small := h.small

theorem Refines.window_push {s : StreamTrace} {m : ByteMap} (h : Refines s m) (data : List UInt8)
    (index p : ℕ) (hs : ((m.push data index).bytes.value p).isSome) :
    p < m.read + m.capacity := by
  rw [ByteMap.value_push] at hs
  split_ifs at hs with hw
  · exact hw.2.1
  · exact h.window p hs

/-- Wherever the push lies, what is kept of it lies in the window. -/
theorem Refines.push {s : StreamTrace} {m : ByteMap} (h : Refines s m) {data : List UInt8}
    {index : ℕ} (eof : Bool) (hlt : index + data.length < 2 ^ 64) :
    Refines (s.step (.push data index eof)) (m.step (.push data index eof)) := by
  have hsmall := h.small
  have hunasb := h.unasb_eq
  have hroom := h.stream.room
  have hend := h.windowEnd_eq
  obtain ⟨ws, hp⟩ := h.sound.pushSubstring eof (by omega)
    (Or.inl (show min (index + data.length) s.reassembler.windowEnd < 2 ^ 31 by omega))
  set s' := s.reassembler.pushSubstring data index eof with hs'
  have hm := h.mirrors
  have hcontents := hm.contents_push hp.toKept hp.sound.gap
  have hgap := hm.firstGap_push hp.toKept hp.sound.gap
  have hwindow := h.window_push data index
  -- what became contiguous lies in the window, so the output has room for it
  have hfits : ws.flatten.length ≤ s.reassembler.output.rem := by
    rcases Nat.eq_zero_or_pos ws.flatten.length with hz | hpos
    · omega
    · have hlast := hwindow (s'.unasb - 1)
        (GapMap.value_isSome_of_lt (by rw [hgap, hp.unasb]; omega))
      have hcap := h.cap
      have := hp.unasb
      omega
  have houtput := hp.output
  exact
    { sound := hp.sound
      value := fun _ hpu => hm.value_push_stored hp.toKept hpu
      contents := by
        rw [ByteMap.step, hcontents, h.contents, List.append_assoc, ← ByteStream.writeAll_buf hfits]
        simp only [StreamTrace.step, ← hs', houtput]
        split_ifs <;> rfl
      firstGap := hgap
      window := hwindow
      stream := by
        simp only [StreamTrace.step, ← hs', houtput]
        split_ifs
        · exact (h.stream.writeAll ws).endInput
        · exact h.stream.writeAll ws
      cap := by
        simp only [StreamTrace.step, ← hs', houtput, ByteMap.step, ByteMap.push]
        split_ifs <;> simp [ByteStream.writeAll_cap, h.cap]
      capacity := by
        simp only [StreamTrace.step, ← hs', hp.capacity, h.capacity, ByteMap.step, ByteMap.push]
      totRead := by
        simp only [StreamTrace.step, ← hs', houtput, ByteMap.step, ByteMap.push]
        split_ifs <;> simp [ByteStream.writeAll_totRead, h.totRead]
      taken := h.taken
      totWrite := by
        have hw := ByteStream.writeAll_totWrite hfits (by
          have := h.totWrite
          have := h.cap
          omega)
        simp only [StreamTrace.step, ← hs', houtput]
        split_ifs <;> simp [ByteStream.endInput, hw, h.totWrite, hp.unasb]
      small := h.small }

theorem Refines.step {s : StreamTrace} {m : ByteMap} (h : Refines s m) (o : StreamOp)
    (ho : s.Within o) : Refines (s.step o) (m.step o) := by
  cases o with
  | push data index eof =>
    have hlt : index + data.length < 2 ^ 31 := ho
    exact h.push eof (hlt.trans (by norm_num))
  | read len => exact h.read len ho

/-- The end that the operation announces, if any, is `e`, and it pushes nothing past it. -/
def StreamOp.EndsAt (e : ℕ) : StreamOp → Prop
  | .push data index eof => index + data.length ≤ e ∧ (eof = true → index + data.length = e)
  | .read _ => True

/-- Does the operation announce the end of the stream? -/
def StreamOp.announces : StreamOp → Bool
  | .push _ _ eof => eof
  | .read _ => false

/-- With a single announced end `e`, the output is ended exactly when it is complete. -/
structure Ending (e : ℕ) (s : StreamTrace) : Prop where
  sound : s.reassembler.Sound
  unasb_le : s.reassembler.unasb ≤ e
  stored : ∀ p, (valueAt s.reassembler.t p).isSome → p < e
  ended : s.reassembler.output.eof2 = true ↔ s.eofPushed = true ∧ s.reassembler.unasb = e
  pending : s.reassembler.eof2 =
    if s.eofPushed = true ∧ s.reassembler.unasb ≠ e then e else 2 ^ 64 - 1

theorem Ending.new (capacity e : ℕ) : Ending e (.new capacity) where
  sound := .new
  unasb_le := Nat.zero_le _
  stored p hp := by simp [StreamTrace.new, StreamReassembler.new] at hp
  ended := by simp [StreamTrace.new, StreamReassembler.new, ByteStream.new]
  pending := by simp [StreamTrace.new, StreamReassembler.new]

/-- While an announced end is pending, the next end is the announced one again. -/
theorem Ending.endAfter_eq {e : ℕ} {s : StreamTrace} (h : Ending e s) {data : List UInt8}
    {index : ℕ} {eof : Bool} (hlt : index + data.length < 2 ^ 64)
    (heq : eof = true → index + data.length = e) :
    s.reassembler.endAfter data index eof =
      if eof = true ∨ (s.eofPushed = true ∧ s.reassembler.unasb ≠ e) then e
      else 2 ^ 64 - 1 := by
  rw [StreamReassembler.endAfter, h.pending]
  cases eof
  · simp
  · have := heq rfl
    simp only [true_or, if_true]
    omega

theorem Ending.holds_lt {e : ℕ} {s : StreamTrace} (h : Ending e s) {s' : StreamReassembler}
    {data : List UInt8} {index : ℕ} {eof : Bool} {ws : List (List UInt8)}
    (hp : s.reassembler.Pushed s' data index eof ws) (hle : index + data.length ≤ e) {p : ℕ}
    (hs : s'.Holds p) : p < e := by
  rcases (hp.holds_iff p).mp hs with (hpu | hstored) | ⟨_, _, hpe⟩
  · exact hpu.trans_le h.unasb_le
  · exact h.stored p hstored
  · exact hpe.trans_le hle

theorem Ending.push {e : ℕ} {s : StreamTrace} (h : Ending e s) (data : List UInt8) (index : ℕ)
    (eof : Bool) (ho : s.Within (.push data index eof))
    (he : (StreamOp.push data index eof).EndsAt e) :
    Ending e (s.step (.push data index eof)) := by
  have hlt : index + data.length < 2 ^ 31 := ho
  obtain ⟨hle, heq⟩ := he
  obtain ⟨ws, hp⟩ := h.sound.pushSubstring eof (by omega)
    (Or.inl (show min (index + data.length) s.reassembler.windowEnd < 2 ^ 31 by omega))
  set s' := s.reassembler.pushSubstring data index eof with hs'
  have hafter := h.endAfter_eq (by omega) heq
  have hslt := hp.sound.unasb_lt
  have hle' : s'.unasb ≤ e := by
    rcases Nat.eq_zero_or_pos s'.unasb with hz | hpos
    · omega
    · have hlast := h.holds_lt hp hle (p := s'.unasb - 1) (Or.inl (by omega))
      omega
  have hended : s'.output.eof2 = true ↔
      s'.unasb = s.reassembler.endAfter data index eof ∨ s.reassembler.output.eof2 = true := by
    rw [hp.output]
    split_ifs with hc <;> simp [hc, ByteStream.writeAll_eof2]
  have hunasb := hp.unasb
  have hpushed : (s.eofPushed || eof) = true ↔ eof = true ∨ s.eofPushed = true := by
    rw [Bool.or_eq_true, or_comm]
  refine
    { sound := hp.sound
      unasb_le := hle'
      stored := fun p hs => h.holds_lt hp hle (Or.inr hs)
      ended := ?_
      pending := ?_ }
  · change s'.output.eof2 = true ↔ (s.eofPushed || eof) = true ∧ s'.unasb = e
    rw [hended, h.ended, hafter, hpushed]
    split_ifs with hc
    · constructor
      · rintro (h' | ⟨h₁, h₂⟩)
        · exact ⟨hc.imp_right And.left, h'⟩
        · exact ⟨Or.inr h₁, by omega⟩
      · exact fun h' => Or.inl h'.2
    · rw [not_or] at hc
      constructor
      · rintro (h' | h')
        · omega
        · exact ⟨Or.inr h'.1, by omega⟩
      · rintro ⟨h' | h', _⟩
        · exact absurd h' hc.1
        · exact Or.inr ⟨h', by tauto⟩
  · change s'.eof2 = if (s.eofPushed || eof) = true ∧ s'.unasb ≠ e then e else 2 ^ 64 - 1
    rw [hp.eof2, hafter]
    by_cases hc : eof = true ∨ (s.eofPushed = true ∧ s.reassembler.unasb ≠ e)
    · simp only [if_pos hc, hpushed, and_iff_right (hc.imp_right And.left), ne_eq, ite_not]
    · rw [if_neg hc, ite_self, if_neg]
      rw [hpushed]
      rintro ⟨h' | h', hne⟩
      · exact hc (Or.inl h')
      · exact hc (Or.inr ⟨h', by omega⟩)

theorem Ending.read {e : ℕ} {s : StreamTrace} (h : Ending e s) (len : ℕ) (taken : List UInt8) :
    Ending e ⟨(s.reassembler.read len).1, taken, s.eofPushed⟩ where
  sound := ⟨h.sound.chain, h.sound.gap, h.sound.top, h.sound.size, h.sound.unasb_lt⟩
  unasb_le := h.unasb_le
  stored := h.stored
  ended := h.ended
  pending := h.pending

theorem Ending.step {e : ℕ} {s : StreamTrace} (h : Ending e s) (o : StreamOp)
    (ho : s.Within o ∧ o.EndsAt e) : Ending e (s.step o) := by
  cases o with
  | push data index eof => exact h.push data index eof ho.1 ho.2
  | read len => exact h.read len _

theorem eofPushed_run (s : StreamTrace) (ops : List StreamOp) :
    (run StreamTrace.step s ops).eofPushed = (s.eofPushed || ops.any StreamOp.announces) := by
  induction ops generalizing s with
  | nil => simp
  | cons o ops ih =>
    rw [run_cons, ih]
    cases o <;> simp [StreamTrace.step, StreamOp.announces, Bool.or_assoc]

/-- What can be seen of a reassembler agrees with the map, and the end with the announced one. -/
structure Agrees (ops : List StreamOp) (s : StreamTrace) (m : ByteMap) : Prop where
  firstUnasb : s.reassembler.firstUnasb = m.bytes.firstGap
  assembled : s.taken ++ s.reassembler.output.buf = m.bytes.contents
  bytesRead : s.reassembler.output.bytesRead = m.read
  taken : s.taken.length = m.read
  bytesWritten : s.reassembler.output.bytesWritten = m.bytes.firstGap
  bufferSize : s.reassembler.output.bufferSize = m.bytes.firstGap - m.read
  remaining : s.reassembler.output.remainingCapacity =
    m.capacity - s.reassembler.output.bufferSize
  unassembled : s.reassembler.unassembledBytes =
    {p | m.bytes.firstGap ≤ p ∧ (m.bytes.value p).isSome}.encard
  empty : s.reassembler.empty ↔ ∀ p, m.bytes.firstGap ≤ p → m.bytes.value p = none
  room : s.reassembler.output.bufferSize + s.reassembler.unassembledBytes ≤ m.capacity
  ended : ∀ e, (∀ o ∈ ops, o.EndsAt e) → (s.reassembler.output.inputEnded ↔
    (∃ o ∈ ops, o.announces) ∧ s.reassembler.firstUnasb = e)

theorem Refines.stored_eq {s : StreamTrace} {m : ByteMap} (h : Refines s m) :
    {p | m.bytes.firstGap ≤ p ∧ (m.bytes.value p).isSome} =
      {p | (valueAt s.reassembler.t p).isSome} := by
  ext p
  simp only [Set.mem_ofPred_eq, h.firstGap]
  rcases Nat.lt_or_ge p s.reassembler.unasb with hp | hp
  · simp [h.sound.chain.valueAt_eq_none hp, hp]
  · simp [h.value p hp, hp]

theorem Refines.empty_iff {s : StreamTrace} {m : ByteMap} (h : Refines s m) :
    s.reassembler.empty ↔ ∀ p, s.reassembler.unasb ≤ p → m.bytes.value p = none := by
  rw [StreamReassembler.empty, List.isEmpty_iff]
  constructor
  · intro ht p hp
    rw [h.value p hp, ht]
    rfl
  · intro hnone
    by_contra ht
    obtain ⟨c, hc⟩ := List.exists_mem_of_ne_nil _ ht
    obtain ⟨hlo, hlt, _⟩ := h.sound.chain.mem hc
    have hs := h.sound.chain.valueAt_isSome_iff.mpr ⟨c, hc, le_rfl, hlt⟩
    rw [← h.value _ hlo, hnone _ hlo] at hs
    simp at hs

theorem Refines.room {s : StreamTrace} {m : ByteMap} (h : Refines s m) :
    s.reassembler.unasb + s.reassembler.szUnasb ≤ m.read + m.capacity := by
  rw [h.sound.size]
  have hcap := h.cap
  have hroom := h.stream.room
  have hunasb := h.unasb_eq
  apply h.sound.chain.total_le (by omega)
  intro c hc
  obtain ⟨hlo, hlt, hlen⟩ := h.sound.chain.mem hc
  have hs : (m.bytes.value (c.1.2 - 1)).isSome := by
    rw [h.value _ (by omega), h.sound.chain.valueAt_isSome_iff]
    exact ⟨c, hc, by omega, by omega⟩
  have := h.window _ hs
  omega

/-- Every run below 2^31 computes what the byte map says. -/
theorem reassembler_agrees {capacity : ℕ} (hcap : capacity < 2 ^ 31) {ops : List StreamOp}
    (h : Admitted StreamTrace.step StreamTrace.Within (.new capacity) ops) :
    Agrees ops (run StreamTrace.step (.new capacity) ops)
      (run ByteMap.step (.new capacity) ops) := by
  have hr : Refines (run StreamTrace.step (.new capacity) ops)
      (run ByteMap.step (.new capacity) ops) :=
    h.simulation (fun s m o hr ho => hr.step o ho) (Refines.new hcap)
  have hlen : (run ByteMap.step (.new capacity) ops).bytes.contents.length = _ :=
    congrArg List.length hr.contents
  rw [GapMap.length_contents, List.length_append, hr.taken] at hlen
  refine
    { firstUnasb := hr.firstGap.symm
      assembled := hr.contents.symm
      bytesRead := hr.totRead
      taken := hr.taken
      bytesWritten := hr.totWrite.trans hr.firstGap.symm
      bufferSize := by rw [hr.stream.bufferSize_eq]; omega
      remaining := by
        have := hr.stream.room
        have := hr.cap
        rw [hr.stream.bufferSize_eq, ByteStream.remainingCapacity]
        omega
      unassembled := ?_
      empty := ?_
      room := ?_
      ended := ?_ }
  · rw [hr.stored_eq, hr.sound.chain.encard_stored, ← hr.sound.size]
    rfl
  · rw [hr.firstGap]
    exact hr.empty_iff
  · have := hr.room
    have := hr.unasb_eq
    rw [hr.stream.bufferSize_eq]
    simp only [StreamReassembler.unassembledBytes]
    omega
  · intro e he
    have hending : Ending e _ :=
      (h.and_forall he).invariant (fun s o hs ho => hs.step o ho) (Ending.new _ _)
    have hpushed := eofPushed_run (.new capacity) ops
    rw [show (StreamTrace.new capacity).eofPushed = false from rfl, Bool.false_or] at hpushed
    have hi := hending.ended
    rw [hpushed, List.any_eq_true] at hi
    exact hi

/-- Contradictory overlaps around a gap, with the end announced before the gap is filled. -/
theorem reassembler_agrees_overlap :
    let ops : List StreamOp := [.push [1, 2] 1 false, .push [9, 9, 3] 1 true, .read 0,
      .push [0, 7] 0 false, .read 3, .push [8] 2 false]
    Agrees ops (run StreamTrace.step (.new 4) ops) (run ByteMap.step (.new 4) ops) :=
  reassembler_agrees (by decide) (by decide)

end Sponge
