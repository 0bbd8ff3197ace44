import Sponge.Packet.RoundTrip

/-! # Checksums in chunks

The parity of the bytes is carried from one chunk to the next, so the checksum is that of
the concatenation. It is the complement of the ones' complement sum of the words, and
written into the data it makes the checksum zero.
-/

namespace Sponge

/-- The words of the data; a single byte at the end is an upper half. -/
def words : List UInt8 → List ℕ
  | [] => []
  | [byte] => [byte.toNat * 2 ^ 8]
  | byte :: byte' :: data => (byte.toNat * 2 ^ 8 + byte'.toNat) :: words data

/-- The ones' complement sum of the two halves of `initial` and of the words of the data. -/
def onesComplementSum (initial : UInt32) (data : List UInt8) : ℕ :=
  (initial.toNat / 2 ^ 16 :: initial.toNat % 2 ^ 16 :: words data).foldl
    (OnesComplement.plus (2 ^ 16)) 0

theorem sum_words (data : List UInt8) : (words data).sum = wordSum data := by
  induction data using words.induct with
  | case1 => rfl
  | case2 byte => rw [words, wordSum, List.sum_singleton]
  | case3 byte byte' data ih => rw [words, wordSum, List.sum_cons, ih]

theorem lt_of_mem_words {data : List UInt8} : ∀ n ∈ words data, n < 2 ^ 16 := by
  induction data using words.induct with
  | case1 =>
    rintro n ⟨⟩
  | case2 byte =>
    intro n hn
    have hbyte := byte.toNat_lt
    rw [words, List.mem_singleton] at hn
    omega
  | case3 byte byte' data ih =>
    intro n hn
    have hbyte := byte.toNat_lt
    have hbyte' := byte'.toNat_lt
    rcases List.mem_cons.mp hn with rfl | hn
    · omega
    · exact ih n hn

theorem internetChecksum_eq (initial : UInt32) (data : List UInt8) :
    internetChecksum initial.toNat data = 2 ^ 16 - 1 - onesComplementSum initial data := by
  have hlt := initial.toNat_lt
  have hhalves := OnesComplement.digit_fold (b := 2 ^ 16) (by norm_num) initial.toNat
  have hwords : ∀ n ∈ initial.toNat / 2 ^ 16 :: initial.toNat % 2 ^ 16 :: words data,
      n < 2 ^ 16 := by
    simp only [List.forall_mem_cons]
    exact ⟨by omega, by omega, lt_of_mem_words⟩
  have hsum := OnesComplement.foldl_plus (by norm_num) hwords 0
  have hzero : OnesComplement.digit (2 ^ 16) 0 = 0 := rfl
  rw [hzero, List.sum_cons, List.sum_cons, sum_words, zero_add, ← add_assoc,
    ← OnesComplement.digit_digit_add, ← OnesComplement.fold, hhalves,
    OnesComplement.digit_digit_add] at hsum
  rw [internetChecksum, onesComplementSum, hsum]

namespace InternetChecksum

variable {c : UInt32}

/-- The chunks are added in order to an initial sum. -/
def ofChunks (initialSum : UInt32) (chunks : List Buffer) : InternetChecksum :=
  chunks.foldl add ⟨initialSum, false⟩

theorem foldl_add (chunks : List Buffer) (check : InternetChecksum) :
    chunks.foldl add check = check.add chunks.flatten := by
  induction chunks generalizing check with
  | nil => rfl
  | cons chunk chunks ih => rw [List.foldl_cons, ih, List.flatten_cons, add_append]

theorem ofChunks_eq (chunks : List Buffer) :
    ofChunks c chunks = (⟨c, false⟩ : InternetChecksum).add chunks.flatten :=
  foldl_add chunks _

theorem toNat_value_ofChunks (hc : FromLowerLayer c) {chunks : List Buffer}
    (hlen : chunks.flatten.length ≤ 65535) :
    (ofChunks c chunks).value.toNat = internetChecksum c.toNat chunks.flatten := by
  rw [ofChunks_eq]
  exact toNat_value c (TCPSegment.sum_lt hlen hc)

theorem u16_zero_append (rest : Buffer) : NetUnparser.u16 0 ++ rest = 0 :: 0 :: rest := rfl

/-- The checksum does not depend on the chunks, is the complement of the ones' complement sum,
and verifies itself at every even offset. -/
theorem chunks_independent_verified (hc : FromLowerLayer c) :
    (∀ chunks chunks' : List Buffer, chunks.flatten = chunks'.flatten →
      (ofChunks c chunks).value = (ofChunks c chunks').value) ∧
    (∀ chunks : List Buffer, chunks.flatten.length ≤ 65535 →
      (ofChunks c chunks).value.toNat = 2 ^ 16 - 1 - onesComplementSum c chunks.flatten) ∧
    ∀ (front rest : Buffer) (chunks chunks' : List Buffer), 2 ∣ front.length →
      chunks.flatten = front ++ 0 :: 0 :: rest → chunks.flatten.length ≤ 65535 →
      chunks'.flatten = front ++ NetUnparser.u16 (ofChunks c chunks).value ++ rest →
      (ofChunks c chunks').value = 0 := by
  refine ⟨?_, ?_, ?_⟩
  · intro chunks chunks' h
    rw [ofChunks_eq, ofChunks_eq, h]
  · intro chunks hlen
    rw [toNat_value_ofChunks hc hlen, internetChecksum_eq]
  · intro front rest chunks chunks' heven hzero hlen hpatched
    have hval := toNat_value_ofChunks hc hlen
    have hlen' : chunks'.flatten.length ≤ 65535 := by
      rw [hzero] at hlen
      rw [hpatched]
      simp only [List.length_append, List.length_cons, NetUnparser.length_u16] at hlen ⊢
      omega
    rw [hzero, ← u16_zero_append] at hval
    rw [← UInt16.toNat_inj, toNat_value_ofChunks hc hlen', hpatched, List.append_assoc]
    exact internetChecksum_patched heven hval

/-- Three chunks, split at odd boundaries, whose checksum is written at the offset 2. -/
theorem chunks_independent_verified_odd :
    let c := ({ src := 0x0a000001 } : IPv4Header).pseudoCksum
    let chunks : List Buffer := [[1], [2, 0], [0, 4, 5]]
    let cksum := (ofChunks c chunks).value
    cksum.toNat = 2 ^ 16 - 1 - onesComplementSum c [1, 2, 0, 0, 4, 5] ∧
      (ofChunks c [[1, 2] ++ NetUnparser.u16 cksum ++ [4, 5]]).value = 0 := by
  intro c chunks cksum
  obtain ⟨-, hvalue, hverified⟩ := chunks_independent_verified (c := c) (Or.inr ⟨_, rfl⟩)
  refine ⟨hvalue chunks (by decide), ?_⟩
  exact hverified [1, 2] [4, 5] chunks _ (by decide) rfl (by decide) (List.append_nil _)

end InternetChecksum

end Sponge
