import Mathlib.Tactic

/-! # Integers in network byte order

A parser takes integers off the front of a buffer, and remembers that a read went past
the end. A buffer list stands for the concatenation of its buffers.
-/

namespace Sponge

abbrev Buffer := List UInt8

abbrev BufferList := List Buffer

def BufferList.size (bs : BufferList) : ℕ := (bs.map List.length).sum

def BufferList.concatenate (bs : BufferList) : Buffer := bs.flatten

/-- The result of parsing a packet. -/
inductive ParseResult
  | noError | badChecksum | packetTooShort | wrongIPVersion | headerTooShort | truncatedPacket
  | unsupported
  deriving DecidableEq, Repr

/-- The number that bytes stand for, the most significant one first. -/
def bigEndian (bytes : List UInt8) : ℕ := bytes.foldl (fun ret byte => ret * 2 ^ 8 + byte.toNat) 0

/-- The number in the `n` bytes of `b` from byte `i` on. -/
def field (b : Buffer) (i n : ℕ) : ℕ := bigEndian ((b.drop i).take n)

structure NetParser where
  buffer : Buffer
  error : ParseResult := .noError
  deriving DecidableEq, Repr

namespace NetParser

/-- Check that there is sufficient data to parse the next token. -/
def checkSize (p : NetParser) (size : ℕ) : NetParser :=
  if p.buffer.length < size then { p with error := .packetTooShort } else p

/-- Parse an integer of `len` bytes; it is 0 after an error. -/
def parseInt (p : NetParser) (len : ℕ) : ℕ × NetParser :=
  let p := p.checkSize len
  if p.error = .noError then
    (bigEndian (p.buffer.take len), { p with buffer := p.buffer.drop len })
  else (0, p)

def u8 (p : NetParser) : UInt8 × NetParser := (.ofNat (p.parseInt 1).1, (p.parseInt 1).2)

def u16 (p : NetParser) : UInt16 × NetParser := (.ofNat (p.parseInt 2).1, (p.parseInt 2).2)

def u32 (p : NetParser) : UInt32 × NetParser := (.ofNat (p.parseInt 4).1, (p.parseInt 4).2)

def removePrefix (p : NetParser) (n : ℕ) : NetParser :=
  let p := p.checkSize n
  if p.error = .noError then { p with buffer := p.buffer.drop n } else p

variable {b : Buffer} {i n : ℕ}

theorem parseInt_drop (h : i + n ≤ b.length) :
    parseInt ⟨b.drop i, .noError⟩ n = (field b i n, ⟨b.drop (i + n), .noError⟩) := by
  have hsize : checkSize ⟨b.drop i, .noError⟩ n = ⟨b.drop i, .noError⟩ :=
    if_neg (by simp only [List.length_drop]; omega)
  simp only [parseInt, hsize, if_true, field, List.drop_drop]

theorem u8_drop (h : i + 1 ≤ b.length) :
    u8 ⟨b.drop i, .noError⟩ = (.ofNat (field b i 1), ⟨b.drop (i + 1), .noError⟩) := by
  rw [u8, parseInt_drop h]

theorem u16_drop (h : i + 2 ≤ b.length) :
    u16 ⟨b.drop i, .noError⟩ = (.ofNat (field b i 2), ⟨b.drop (i + 2), .noError⟩) := by
  rw [u16, parseInt_drop h]

theorem u32_drop (h : i + 4 ≤ b.length) :
    u32 ⟨b.drop i, .noError⟩ = (.ofNat (field b i 4), ⟨b.drop (i + 4), .noError⟩) := by
  rw [u32, parseInt_drop h]

theorem removePrefix_drop (h : i + n ≤ b.length) :
    removePrefix ⟨b.drop i, .noError⟩ n = ⟨b.drop (i + n), .noError⟩ := by
  have hsize : checkSize ⟨b.drop i, .noError⟩ n = ⟨b.drop i, .noError⟩ :=
    if_neg (by simp only [List.length_drop]; omega)
  simp only [removePrefix, hsize, if_true, List.drop_drop]

end NetParser

namespace NetUnparser

/-- The `len` bytes that stand for `val`. -/
def unparseInt (len val : ℕ) : List UInt8 :=
  (List.range len).map fun i => .ofNat (val >>> ((len - i - 1) * 8))

def u8 (val : UInt8) : List UInt8 := unparseInt 1 val.toNat

def u16 (val : UInt16) : List UInt8 := unparseInt 2 val.toNat

def u32 (val : UInt32) : List UInt8 := unparseInt 4 val.toNat

end NetUnparser

theorem bigEndian_concat (bytes : List UInt8) (byte : UInt8) :
    bigEndian (bytes ++ [byte]) = bigEndian bytes * 2 ^ 8 + byte.toNat := by
  simp [bigEndian]

theorem bigEndian_lt (bytes : List UInt8) : bigEndian bytes < 2 ^ (8 * bytes.length) := by
  induction bytes using List.reverseRecOn with
  | nil => simp [bigEndian]
  | append_singleton bytes byte ih =>
    have hb := byte.toNat_lt
    have hpow : 2 ^ (8 * (bytes ++ [byte]).length) = 2 ^ (8 * bytes.length) * 2 ^ 8 := by
      rw [List.length_append, List.length_singleton, mul_add, pow_add]
    have hstep := bigEndian_concat bytes byte
    omega

theorem field_lt (b : Buffer) (i n : ℕ) : field b i n < 2 ^ (8 * n) := by
  refine (bigEndian_lt _).trans_le (Nat.pow_le_pow_right (by norm_num) ?_)
  rw [List.length_take]
  omega

namespace NetUnparser

@[simp] theorem length_unparseInt (len val : ℕ) : (unparseInt len val).length = len := by
  simp [unparseInt]

@[simp] theorem length_u8 (val : UInt8) : (u8 val).length = 1 := length_unparseInt ..

@[simp] theorem length_u16 (val : UInt16) : (u16 val).length = 2 := length_unparseInt ..

@[simp] theorem length_u32 (val : UInt32) : (u32 val).length = 4 := length_unparseInt ..

theorem unparseInt_succ (len val : ℕ) :
    unparseInt (len + 1) val = unparseInt len (val / 2 ^ 8) ++ [.ofNat val] := by
  rw [unparseInt, List.range_succ, List.map_append, List.map_singleton]
  congr 1
  · apply List.map_congr_left
    intro i hi
    have hlt := List.mem_range.mp hi
    have hshift : (len + 1 - i - 1) * 8 = 8 + (len - i - 1) * 8 := by omega
    rw [hshift, Nat.shiftRight_add, Nat.shiftRight_eq_div_pow val 8]
  · simp

theorem bigEndian_unparseInt (len val : ℕ) :
    bigEndian (unparseInt len val) = val % 2 ^ (8 * len) := by
  induction len generalizing val with
  | zero => simp [unparseInt, bigEndian, Nat.mod_one]
  | succ len ih =>
    have hpow : 2 ^ (8 * (len + 1)) = 2 ^ 8 * 2 ^ (8 * len) := by ring
    rw [unparseInt_succ, bigEndian_concat, ih, UInt8.toNat_ofNat', hpow, Nat.mod_mul]
    ring

theorem u8_inj {val val' : UInt8} (h : u8 val = u8 val') : val = val' := by
  have hval := congrArg bigEndian h
  rw [u8, u8, bigEndian_unparseInt, bigEndian_unparseInt, Nat.mod_eq_of_lt val.toNat_lt,
    Nat.mod_eq_of_lt val'.toNat_lt] at hval
  exact UInt8.toNat_inj.mp hval

theorem u16_inj {val val' : UInt16} (h : u16 val = u16 val') : val = val' := by
  have hval := congrArg bigEndian h
  rw [u16, u16, bigEndian_unparseInt, bigEndian_unparseInt, Nat.mod_eq_of_lt val.toNat_lt,
    Nat.mod_eq_of_lt val'.toNat_lt] at hval
  exact UInt16.toNat_inj.mp hval

theorem unparseInt_bigEndian (bytes : List UInt8) :
    unparseInt bytes.length (bigEndian bytes) = bytes := by
  induction bytes using List.reverseRecOn with
  | nil => rfl
  | append_singleton bytes byte ih =>
    have hbyte := byte.toNat_lt
    have hrest : (bigEndian bytes * 2 ^ 8 + byte.toNat) / 2 ^ 8 = bigEndian bytes := by omega
    have hlast : UInt8.ofNat (bigEndian bytes * 2 ^ 8 + byte.toNat) = byte := by
      rw [← UInt8.toNat_inj, UInt8.toNat_ofNat']
      omega
    rw [List.length_append, List.length_singleton, unparseInt_succ, bigEndian_concat, hrest, ih,
      hlast]

section Field

variable {b : Buffer} {i n : ℕ}

theorem unparseInt_field (h : i + n ≤ b.length) :
    unparseInt n (field b i n) = (b.drop i).take n := by
  have hlen : ((b.drop i).take n).length = n := by
    rw [List.length_take, List.length_drop]
    omega
  have hbytes := unparseInt_bigEndian ((b.drop i).take n)
  rwa [hlen] at hbytes

theorem u8_field (h : i + 1 ≤ b.length) : u8 (.ofNat (field b i 1)) = (b.drop i).take 1 := by
  rw [u8, UInt8.toNat_ofNat', Nat.mod_eq_of_lt (field_lt b i 1), unparseInt_field h]

theorem u16_field (h : i + 2 ≤ b.length) : u16 (.ofNat (field b i 2)) = (b.drop i).take 2 := by
  rw [u16, UInt16.toNat_ofNat', Nat.mod_eq_of_lt (field_lt b i 2), unparseInt_field h]

theorem u32_field (h : i + 4 ≤ b.length) : u32 (.ofNat (field b i 4)) = (b.drop i).take 4 := by
  rw [u32, UInt32.toNat_ofNat', Nat.mod_eq_of_lt (field_lt b i 4), unparseInt_field h]

end Field

end NetUnparser

namespace NetParser

variable {rest : Buffer} {p : NetParser} {n : ℕ}

theorem parseInt_append (len val : ℕ) (h : val < 2 ^ (8 * len)) :
    parseInt ⟨NetUnparser.unparseInt len val ++ rest, .noError⟩ len = (val, ⟨rest, .noError⟩) := by
  have hlen := NetUnparser.length_unparseInt len val
  have hsize : checkSize ⟨NetUnparser.unparseInt len val ++ rest, .noError⟩ len =
      ⟨NetUnparser.unparseInt len val ++ rest, .noError⟩ :=
    if_neg (by simp only [List.length_append, hlen]; omega)
  simp only [parseInt, hsize, if_true, List.take_left' hlen, List.drop_left' hlen,
    NetUnparser.bigEndian_unparseInt, Nat.mod_eq_of_lt h]

@[simp] theorem u8_append (val : UInt8) :
    u8 ⟨NetUnparser.u8 val ++ rest, .noError⟩ = (val, ⟨rest, .noError⟩) := by
  simp only [u8, NetUnparser.u8, parseInt_append 1 _ val.toNat_lt, UInt8.ofNat_toNat]

@[simp] theorem u16_append (val : UInt16) :
    u16 ⟨NetUnparser.u16 val ++ rest, .noError⟩ = (val, ⟨rest, .noError⟩) := by
  simp only [u16, NetUnparser.u16, parseInt_append 2 _ val.toNat_lt, UInt16.ofNat_toNat]

@[simp] theorem u32_append (val : UInt32) :
    u32 ⟨NetUnparser.u32 val ++ rest, .noError⟩ = (val, ⟨rest, .noError⟩) := by
  simp only [u32, NetUnparser.u32, parseInt_append 4 _ val.toNat_lt, UInt32.ofNat_toNat]

/-- A parser that has read without an error has had the bytes. -/
structure Took (p p' : NetParser) (n : ℕ) : Prop where
  ok : p'.error = .noError → p.error = .noError
  length : p'.error = .noError → p.buffer.length = n + p'.buffer.length

theorem took_removePrefix (p : NetParser) (n : ℕ) : Took p (p.removePrefix n) n := by
  unfold removePrefix
  simp only
  split_ifs with hok
  · have hsize : ¬ p.buffer.length < n := fun hlt => by simp [checkSize, hlt] at hok
    have hcheck : p.checkSize n = p := if_neg hsize
    rw [hcheck] at hok ⊢
    refine ⟨fun _ => hok, fun _ => ?_⟩
    rw [List.length_drop]
    omega
  · exact ⟨fun h => absurd h hok, fun h => absurd h hok⟩

theorem parseInt_snd (p : NetParser) (n : ℕ) : (p.parseInt n).2 = p.removePrefix n := by
  simp only [parseInt, removePrefix]
  split_ifs <;> rfl

theorem took_u8 (p : NetParser) : Took p p.u8.2 1 := p.parseInt_snd 1 ▸ p.took_removePrefix 1

theorem took_u16 (p : NetParser) : Took p p.u16.2 2 := p.parseInt_snd 2 ▸ p.took_removePrefix 2

theorem took_u32 (p : NetParser) : Took p p.u32.2 4 := p.parseInt_snd 4 ▸ p.took_removePrefix 4

theorem Took.trans {p' p'' : NetParser} {m : ℕ} (h : Took p p' n) (h' : Took p' p'' m) :
    Took p p'' (n + m) where
  ok he := h.ok (h'.ok he)
  length he := by
    have hfirst := h.length (h'.ok he)
    have hsecond := h'.length he
    omega

end NetParser

end Sponge
