import Sponge.Sender.Tiling

/-! # Segments as slices of the stream

Behind the SYN, the sequence number of a segment counts the bytes before it. So each
segment of the journal is a slice of the bytes sent, and each byte sent lies in one.
-/

namespace Sponge

open Layout

namespace TCPSender

/-- The bytes that the segments of the journal carry. -/
def sentBytes (journal : List TCPSegment) : List UInt8 := journal.flatMap TCPSegment.payload

variable {s : TCPSender} {journal before : List TCPSegment} {accepted : List UInt8}
  {g : TCPSegment} {p : ℕ}

theorem sentBytes_append (xs ys : List TCPSegment) :
    sentBytes (xs ++ ys) = sentBytes xs ++ sentBytes ys := List.flatMap_append

@[simp] theorem sentBytes_singleton (g : TCPSegment) : sentBytes [g] = g.payload :=
  List.flatMap_singleton _ _

theorem sentBytes_mono {xs ys : List TCPSegment} (h : xs <+: ys) :
    sentBytes xs <+: sentBytes ys := by
  obtain ⟨zs, rfl⟩ := h
  rw [sentBytes_append]
  exact List.prefix_append _ _

theorem len_of_not_syn (hs : g.header.syn = false) :
    len g = g.payload.length + if g.header.fin = true then 1 else 0 := by
  simp [len, TCPSegment.lengthInSequenceSpace, hs]

theorem Laid.fin_before (hl : Laid journal s) (hb : before ++ [g] <+: journal) :
    ∀ z ∈ before, z.header.fin = false := by
  intro z hz
  by_contra hf
  obtain ⟨b, rest, rfl⟩ := List.append_of_mem hz
  have hpre : b ++ [z] <+: journal := by
    refine List.IsPrefix.trans ?_ hb
    exact ⟨rest ++ [g], by simp⟩
  have hall := hl.fin_last hpre (by simpa using hf)
  have hle := hb.length_le
  rw [← hall] at hle
  simp at hle

theorem Tiled.position (ht : Tiled journal accepted s) (hb : before ++ [g] <+: journal)
    (hne : before ≠ []) : extent len before = (sentBytes before).length + 1 := by
  induction before using List.reverseRecOn generalizing g with
  | nil => exact absurd rfl hne
  | append_singleton b z ih =>
    have hz : b ++ [z] <+: journal := (List.prefix_append _ _).trans hb
    have hfin : z.header.fin = false := ht.fin_before hb z (by simp)
    have hsyn := ht.syn _ z ⟨b, hz, rfl⟩
    rw [extent_append, sentBytes_append, List.length_append, sentBytes_singleton, extent_cons,
      extent_nil]
    by_cases hb' : b = []
    · have hs : z.header.syn = true := hsyn.mpr (by simp [hb'])
      have hpay := ht.synPayload z (hz.subset (by simp)) hs
      simp [hb', len, TCPSegment.lengthInSequenceSpace, hs, hfin, hpay, sentBytes]
    · have hpos := extent_pos (fun x hx =>
        ht.len_pos x (((List.prefix_append _ _).trans hz).subset hx)) hb'
      have hs : z.header.syn = false := by
        rw [Bool.eq_false_iff, Ne, hsyn]
        omega
      rw [ih hz hb', len_of_not_syn hs, hfin]
      simp
      omega

theorem Tiled.cut (ht : Tiled journal accepted s) (hb : before ++ [g] <+: journal)
    (hne : before ≠ []) :
    extent len before = 1 + (sentBytes before).length ∧
      g.CutFrom (sentBytes journal) s.isn (sentBytes before).length := by
  have hpos := ht.position hb hne
  have hat : At len journal (extent len before) g := ⟨before, hb, rfl⟩
  have hsyn : g.header.syn = false := by
    rw [Bool.eq_false_iff, Ne, ht.syn _ _ hat]
    omega
  refine ⟨by omega, ?_⟩
  obtain ⟨rest, hrest⟩ := hb
  have hbytes : sentBytes journal = sentBytes before ++ (g.payload ++ sentBytes rest) := by
    rw [← hrest, sentBytes_append, sentBytes_append, sentBytes_singleton, List.append_assoc]
  exact
    { syn := hsyn
      seqno := by rw [ht.seqno _ _ hat, hpos, add_comm]
      payload := by rw [hbytes, List.drop_left, List.take_left]
      le := by
        rw [hbytes, List.length_append, List.length_append]
        omega
      fin := fun hf => by
        have hall := ht.fin_last ⟨rest, hrest⟩ hf
        rw [← hall, sentBytes_append, sentBytes_singleton, List.length_append] }

theorem Tiled.cutFrom (ht : Tiled journal accepted s) (hp : At len journal p g)
    (hs : g.header.syn = false) : ∃ i, p = 1 + i ∧ g.CutFrom (sentBytes journal) s.isn i := by
  have hsyn := ht.syn p g hp
  obtain ⟨before, hb, rfl⟩ := hp
  have hne : before ≠ [] := by
    rintro rfl
    simp [hs] at hsyn
  exact ⟨_, ht.cut hb hne⟩

theorem Tiled.extent_le (ht : Tiled journal accepted s) :
    extent len journal ≤ (sentBytes journal).length + 2 := by
  rcases List.eq_nil_or_concat journal with rfl | ⟨before, g, hj⟩
  · simp
  · have hb : before ++ [g] <+: journal := by rw [hj]; simp
    rw [hj, List.concat_eq_append, extent_append, sentBytes_append, List.length_append,
      sentBytes_singleton, extent_cons, extent_nil]
    by_cases hne : before = []
    · have hs : g.header.syn = true := (ht.syn _ _ ⟨before, hb, rfl⟩).mpr (by simp [hne])
      have hpay := ht.synPayload g (hb.subset (by simp)) hs
      simp only [hne, extent_nil, len, TCPSegment.lengthInSequenceSpace, hs, hpay]
      split_ifs <;> simp
    · have hpos := ht.position hb hne
      rw [hpos, len_of_not_syn (ht.cut hb hne).2.syn]
      split_ifs <;> omega

theorem Tiled.exists_carrier (ht : Tiled journal accepted s)
    (hp : p < (sentBytes journal).length) :
    ∃ i g, At len journal (1 + i) g ∧ g.CutFrom (sentBytes journal) s.isn i ∧ i ≤ p ∧
      p < i + g.payload.length := by
  -- the payloads alone are laid out too, and there the position is the stream index
  have hbytes : ∀ xs : List TCPSegment,
      extent (fun g => g.payload.length) xs = (sentBytes xs).length := fun xs => by
    rw [extent, sentBytes, List.length_flatMap]
  rw [← hbytes] at hp
  obtain ⟨i, g, ⟨before, hb, rfl⟩, hle, hlt⟩ := exists_at_of_lt hp
  have hne : before ≠ [] := by
    rintro rfl
    have hs : g.header.syn = true := (ht.syn _ _ ⟨[], hb, rfl⟩).mpr rfl
    simp [ht.synPayload g (hb.subset (by simp)) hs] at hlt
  obtain ⟨hpos, hcut⟩ := ht.cut hb hne
  rw [hbytes] at hle hlt
  exact ⟨_, g, ⟨before, hb, hpos⟩, hcut, hle, hlt⟩

end TCPSender

end Sponge
