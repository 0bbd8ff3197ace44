import Sponge.Library.OnesComplement

/-! # The Internet checksum

Bytes are added in pairs to a 32-bit sum, and the carries are folded back into 16 bits.
As long as 32 bits suffice for the sum, the result is the ones' complement of the ones'
complement sum of the 16-bit words.
-/

namespace Sponge

structure InternetChecksum where
  sum : UInt32 := 0
  parity : Bool := false
  deriving DecidableEq, Repr

namespace InternetChecksum

/-- Add a byte, as the upper or the lower half of a pair. -/
def addByte (c : InternetChecksum) (byte : UInt8) : InternetChecksum :=
  let val := if c.parity then byte.toUInt32 else byte.toUInt32 <<< 8
  { sum := c.sum + val, parity := !c.parity }

def add (c : InternetChecksum) (data : List UInt8) : InternetChecksum := data.foldl addByte c

/-- Add the upper half to the lower half as long as the upper one is not zero, `n` times at
most. -/
def foldCarries : ℕ → UInt32 → UInt32
  | 0, ret => ret
  | n + 1, ret =>
    if 0xffff < ret then foldCarries n ((ret >>> 16) + (ret &&& 0xffff)) else ret

def value (c : InternetChecksum) : UInt16 := ~~~ (foldCarries 2 c.sum).toUInt16

theorem toNat_fold (ret : UInt32) :
    ((ret >>> 16) + (ret &&& 0xffff)).toNat = ret.toNat / 2 ^ 16 + ret.toNat % 2 ^ 16 := by
  have hlt := ret.toNat_lt
  have hand : ret.toNat &&& 65535 = ret.toNat % 2 ^ 16 := Nat.and_two_pow_sub_one_eq_mod _ 16
  have hshift : (ret >>> 16).toNat = ret.toNat / 2 ^ 16 := by
    rw [UInt32.toNat_shiftRight, Nat.shiftRight_eq_div_pow]
    rfl
  rw [UInt32.toNat_add, hshift, UInt32.toNat_and]
  simp only [UInt32.reduceToNat, hand]
  omega

theorem foldCarries_le (ret : UInt32) : foldCarries 2 ret ≤ 0xffff := by
  have hlt := ret.toNat_lt
  have hfold := toNat_fold ret
  have hfold' := toNat_fold ((ret >>> 16) + (ret &&& 0xffff))
  rw [UInt32.le_iff_toNat_le]
  simp only [foldCarries, UInt32.lt_iff_toNat_lt, UInt32.reduceToNat]
  split_ifs <;> omega

/-- The folded sum is the digit that is left when all carries are added back. -/
theorem toNat_foldCarries (ret : UInt32) :
    (foldCarries 2 ret).toNat = OnesComplement.digit (2 ^ 16) ret.toNat := by
  have hstep : ∀ n (r : UInt32), OnesComplement.digit (2 ^ 16) (foldCarries n r).toNat =
      OnesComplement.digit (2 ^ 16) r.toNat := by
    intro n
    induction n with
    | zero => exact fun _ => rfl
    | succ n ih =>
      intro r
      rw [foldCarries]
      split_ifs
      · rw [ih, toNat_fold]
        exact OnesComplement.digit_fold (by norm_num) _
      · rfl
  have hle := UInt32.le_iff_toNat_le.mp (foldCarries_le ret)
  rw [← hstep 2, OnesComplement.digit_of_lt (by simp only [UInt32.reduceToNat] at hle; omega)]

end InternetChecksum

/-- The sum of the 16-bit words of the data; a single byte at the end is an upper half. -/
def wordSum : List UInt8 → ℕ
  | [] => 0
  | [byte] => byte.toNat * 2 ^ 8
  | byte :: byte' :: data => byte.toNat * 2 ^ 8 + byte'.toNat + wordSum data

/-- The ones' complement of the ones' complement sum of `initial` and of the words of the data. -/
def internetChecksum (initial : ℕ) (data : List UInt8) : ℕ :=
  2 ^ 16 - 1 - OnesComplement.digit (2 ^ 16) (initial + wordSum data)

theorem wordSum_le (data : List UInt8) :
    wordSum data ≤ (2 ^ 16 - 1) * ((data.length + 1) / 2) := by
  induction data using wordSum.induct with
  | case1 => simp [wordSum]
  | case2 byte =>
    have := byte.toNat_lt
    simp only [wordSum, List.length_singleton]
    omega
  | case3 byte byte' data ih =>
    have := byte.toNat_lt
    have := byte'.toNat_lt
    simp only [wordSum, List.length_cons]
    omega

theorem wordSum_append {data : List UInt8} (h : 2 ∣ data.length) (data' : List UInt8) :
    wordSum (data ++ data') = wordSum data + wordSum data' := by
  induction data using wordSum.induct with
  | case1 => simp [wordSum]
  | case2 byte => simp at h
  | case3 byte byte' data ih =>
    have hrest : 2 ∣ data.length := by
      simp only [List.length_cons] at h
      omega
    rw [List.cons_append, List.cons_append, wordSum, wordSum, ih hrest]
    omega

namespace InternetChecksum

theorem add_append (c : InternetChecksum) (data data' : List UInt8) :
    c.add (data ++ data') = (c.add data).add data' := List.foldl_append

theorem addByte_pair (sum : UInt32) (byte byte' : UInt8) :
    (addByte ⟨sum, false⟩ byte).addByte byte' =
      ⟨sum + (byte.toUInt32 <<< 8 + byte'.toUInt32), false⟩ := by
  simp only [addByte, Bool.false_eq_true, if_false, Bool.not_false, if_true, Bool.not_true]
  rw [UInt32.add_assoc]

theorem toNat_shiftLeft_eight (byte : UInt8) :
    (byte.toUInt32 <<< 8).toNat = byte.toNat * 2 ^ 8 := by
  have := byte.toNat_lt
  rw [UInt32.toNat_shiftLeft, UInt8.toNat_toUInt32, Nat.shiftLeft_eq]
  simp only [UInt32.reduceToNat, Nat.reduceMod]
  omega

theorem toNat_sum_add (sum : UInt32) (data : List UInt8) :
    ((⟨sum, false⟩ : InternetChecksum).add data).sum.toNat =
      (sum.toNat + wordSum data) % 2 ^ 32 := by
  induction data using wordSum.induct generalizing sum with
  | case1 =>
    have := sum.toNat_lt
    simp only [add, List.foldl_nil, wordSum]
    omega
  | case2 byte =>
    simp only [add, List.foldl_cons, List.foldl_nil, addByte, Bool.false_eq_true, if_false, wordSum,
      UInt32.toNat_add, toNat_shiftLeft_eight]
  | case3 byte byte' data ih =>
    have hpair : (⟨sum, false⟩ : InternetChecksum).add (byte :: byte' :: data) =
        (⟨sum + (byte.toUInt32 <<< 8 + byte'.toUInt32), false⟩ : InternetChecksum).add data := by
      rw [← addByte_pair]
      rfl
    rw [hpair, ih, wordSum]
    simp only [UInt32.toNat_add, toNat_shiftLeft_eight, UInt8.toNat_toUInt32]
    omega

/-- Where 32 bits suffice for the sum, the value is the checksum. -/
theorem toNat_value (initial : UInt32) {data : List UInt8}
    (h : initial.toNat + wordSum data < 2 ^ 32) :
    ((⟨initial, false⟩ : InternetChecksum).add data).value.toNat =
      internetChecksum initial.toNat data := by
  have hsum := toNat_sum_add initial data
  rw [Nat.mod_eq_of_lt h] at hsum
  have hlt := OnesComplement.digit_lt (b := 2 ^ 16) (by norm_num) (initial.toNat + wordSum data)
  rw [value, UInt16.toNat_not, UInt32.toNat_toUInt16, toNat_foldCarries, hsum, internetChecksum,
    Nat.mod_eq_of_lt hlt]
  rfl

end InternetChecksum

end Sponge
