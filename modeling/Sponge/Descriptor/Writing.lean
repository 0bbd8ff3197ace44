import Sponge.Descriptor.Buffers
import Sponge.Library.Loops

/-! # Writing a buffer

The kernel may take fewer bytes than it is offered, and is then offered the rest. What it reports
passes through an `int`, so only fewer than 2^31 bytes at a time are discarded as they
were taken. So does the number of pieces, and only as many are offered.
-/

namespace Sponge

open Loops

namespace BufferViewList

/-- The number of pieces, as the kernel is told. It arrives as an `int`. -/
def iovcnt (views : BufferViewList) : Int32 := .ofNat views.length

/-- The pieces that the kernel is offered. A negative number of pieces offers none. -/
def offered (views : BufferViewList) : BufferViewList :=
  views.take (iovcnt views).toInt.toNat

/-- The other pieces. -/
def unoffered (views : BufferViewList) : BufferViewList :=
  views.drop (iovcnt views).toInt.toNat

end BufferViewList

/-- What a call of `writev` leaves: the value that it returns, and `errno`. -/
structure Answer where
  ret : Int64
  errno : Int32 := 0
  deriving DecidableEq, Repr

/-- A kernel that answers the calls of `writev`, as its state says, by the pieces that it is
offered. -/
structure Kernel (κ : Type) where
  writev : κ → BufferViewList → Answer
  next : κ → BufferViewList → κ

/-- Check the value that a system call returned. It arrives as an `int`. -/
def systemCall (attempt : String) (returnValue errno : Int32) (errnoMask : Int32 := 0) :
    Except Exception ℤ :=
  if 0 ≤ returnValue.toInt ∨ errno = errnoMask then .ok returnValue.toInt
  else .error (.unixError attempt errno)

/-- The conversion of a size, below 2^64, to a signed integer. -/
def ssize (n : ℕ) : ℤ := if n < 2 ^ 63 then n else n - 2 ^ 64

/-- The conversion of a signed integer to a size. -/
def toSize (z : ℤ) : ℕ := (z % 2 ^ 64).toNat

/-- The loop in `FileDescriptor::write`, with the state of the kernel and the bytes that it has
taken so far. -/
structure Writing (κ : Type) where
  kernelState : κ
  buffer : BufferViewList
  totalBytesWritten : ℕ := 0
  writeCount : ℕ := 0
  taken : Buffer := []
  deriving DecidableEq, Repr

namespace Kernel

variable {κ : Type} (kernel : Kernel κ)

/-- What the kernel answers to the offer. -/
def answer (w : Writing κ) : Answer := kernel.writev w.kernelState w.buffer.offered

/-- The state after a turn in which `n` bytes were discarded and `buffer` is left. What the kernel
has taken is not what the code makes of its answer. -/
def after (w : Writing κ) (buffer : BufferViewList) (n : ℕ) : Writing κ where
  kernelState := kernel.next w.kernelState w.buffer.offered
  buffer := buffer
  totalBytesWritten := (w.totalBytesWritten + n) % 2 ^ 64
  writeCount := (w.writeCount + 1) % 2 ^ 32
  taken := w.taken ++ w.buffer.offered.content.take (kernel.answer w).ret.toInt.toNat

/-- Offer the buffer, and discard what was taken of it. -/
def turn (w : Writing κ) : Except Exception (Writing κ) := do
  let bytesWritten ← systemCall "writev" (kernel.answer w).ret.toInt32 (kernel.answer w).errno
  if bytesWritten = 0 ∧ w.buffer.size ≠ 0 then
    .error (.runtimeError "write returned 0 given non-empty input buffer")
  else if ssize w.buffer.size < bytesWritten then
    .error (.runtimeError "write wrote more than length of input buffer")
  else do
    let buffer ← w.buffer.removePrefix (toSize bytesWritten)
    return kernel.after w buffer (toSize bytesWritten)

/-- Is there another turn? -/
def again (writeAll : Bool) (w : Writing κ) : Bool := writeAll && w.buffer.size != 0

/-- `FileDescriptor::write`: the loop begins with the whole buffer. -/
def begin (state : κ) (buffer : BufferViewList) : Writing κ where
  kernelState := state
  buffer := buffer

/-- Offered at least one byte, the kernel takes some of them, and offered none, it takes none. -/
structure Honest : Prop where
  takes : ∀ state views, BufferViewList.content views ≠ [] →
    1 ≤ (kernel.writev state views).ret.toInt ∧
      (kernel.writev state views).ret.toInt ≤ (BufferViewList.content views).length
  idle : ∀ state views, BufferViewList.content views = [] →
    (kernel.writev state views).ret.toInt = 0

/-- The call with `write_all` ends without an error, when the kernel has taken exactly the bytes of
the buffer, and before each offer what it has taken and what is left make up the buffer. -/
structure WritesOnce (state : κ) (views : BufferViewList) : Prop where
  ends : ∃ w, Ends kernel.turn (again true) (begin state views) (.ok w) ∧
    w.taken = BufferViewList.content views
  once : ∀ w, Visits kernel.turn (again true) (begin state views) w →
    w.taken ++ w.buffer.content = BufferViewList.content views

/-- Each offer is answered with less than 2^31. -/
def AnswersShortly (state : κ) (views : BufferViewList) : Prop :=
  ∀ w, Visits kernel.turn (again true) (begin state views) w →
    (kernel.answer w).ret.toInt < 2 ^ 31

end Kernel

/-! ### Conversions of integers -/

theorem toInt32_cases {x : Int64} (h : 0 ≤ x.toInt) :
    (x.toInt < 2 ^ 31 ∧ x.toInt32.toInt = x.toInt) ∨
      (2 ^ 31 ≤ x.toInt ∧ 0 ≤ x.toInt32.toInt ∧ x.toInt32.toInt < 2 ^ 31) ∨
      (2 ^ 31 ≤ x.toInt ∧ -2 ^ 31 ≤ x.toInt32.toInt ∧ x.toInt32.toInt < 0) := by
  rw [Int64.toInt_toInt32, Int.bmod_def]
  split_ifs <;> omega

theorem toNat_toInt_ofNat (n : ℕ) :
    (Int32.ofNat n).toInt.toNat = if n % 2 ^ 32 < 2 ^ 31 then n % 2 ^ 32 else 0 := by
  have hbmod : (Int32.ofNat n).toInt = (n : ℤ).bmod (2 ^ 32) := Int32.toInt_ofNat'
  rw [hbmod, Int.bmod_def]
  split_ifs <;> omega

theorem toSize_of_nonneg {z : ℤ} (h : 0 ≤ z) (hlt : z < 2 ^ 64) : toSize z = z.toNat := by
  rw [toSize, Int.emod_eq_of_lt h hlt]

theorem toSize_of_neg {z : ℤ} (h : z < 0) (hge : -2 ^ 31 ≤ z) : 2 ^ 63 + 2 ^ 31 < toSize z := by
  unfold toSize
  omega

theorem lt_of_toSize_eq {x : Int64} (h : 0 ≤ x.toInt)
    (heq : toSize x.toInt32.toInt = x.toInt.toNat) : x.toInt < 2 ^ 31 := by
  have hlt := x.toInt_lt
  rcases toInt32_cases h with ⟨hshort, -⟩ | ⟨-, hnonneg, hsmall⟩ | ⟨-, hge, hneg⟩
  · exact hshort
  · rw [toSize_of_nonneg hnonneg (by omega)] at heq
    omega
  · have hlong := toSize_of_neg hneg hge
    omega

/-! ### What is offered -/

namespace BufferViewList

variable {views views' : BufferViewList} {n : ℕ}

theorem offered_append_unoffered (views : BufferViewList) :
    offered views ++ unoffered views = views := List.take_append_drop _ _

theorem content_offered_append (views : BufferViewList) :
    (offered views).content ++ (unoffered views).content = content views := by
  rw [content, content, content, ← Pieces.items_append, offered_append_unoffered]

theorem length_offered_add (views : BufferViewList) :
    (offered views).content.length + (unoffered views).content.length =
      (content views).length := by
  rw [← List.length_append, content_offered_append]

theorem take_offered (h : n ≤ (offered views).content.length) :
    (offered views).content.take n = (content views).take n := by
  rw [← content_offered_append views, List.take_append_of_le_length h]

theorem content_offered (h : (unoffered views).content = []) :
    (offered views).content = content views := by
  rw [← content_offered_append views, h, List.append_nil]

theorem offered_eq_nil (h : 2 ^ 32 ∣ views.length) : offered views = [] := by
  rw [offered, iovcnt, toNat_toInt_ofNat, Nat.mod_eq_zero_of_dvd h]
  rfl

theorem iovcnt_append {ps : BufferViewList} (h : ps.length ≤ (offered views).length) :
    (iovcnt (ps ++ unoffered views)).toInt.toNat = ps.length := by
  rw [offered, List.length_take, iovcnt, toNat_toInt_ofNat] at h
  rw [iovcnt, toNat_toInt_ofNat, List.length_append, unoffered, List.length_drop, iovcnt,
    toNat_toInt_ofNat]
  split_ifs at h ⊢ <;> omega

theorem removePrefix_cases (views : BufferViewList) (n : ℕ) :
    ((content views).length < n ∧ ∃ what, removePrefix views n = .error (.outOfRange what)) ∨
    (n ≤ (content views).length ∧
      ∃ views', removePrefix views n = .ok views' ∧
        content views' = (content views).drop n) := by
  rcases Nat.lt_or_ge (content views).length n with h | h
  · exact Or.inl ⟨h, _, Pieces.removeFront_error h⟩
  · exact Or.inr ⟨h, Pieces.removeFront_ok trims_drop h⟩

theorem unoffered_removePrefix (h : n ≤ (offered views).content.length)
    (hok : removePrefix views n = .ok views') : unoffered views' = unoffered views := by
  obtain ⟨ps, hps, -, hlen⟩ := Pieces.removeFront_append trims_drop (unoffered views) h
  rw [offered_append_unoffered] at hps
  obtain rfl := Except.ok.inj (hok.symm.trans hps)
  rw [unoffered, iovcnt_append hlen, List.drop_left]

end BufferViewList

namespace Kernel

variable {κ : Type} {kernel : Kernel κ} {w w' : Writing κ} {state : κ}
  {views : BufferViewList}

theorem again_iff : again true w = true ↔ w.buffer.size ≠ 0 := by
  simp [again]

/-- The turn from `w` to `w'` discards `n` bytes where the kernel took `m`. -/
structure Turned (kernel : Kernel κ) (w w' : Writing κ) (n : ℕ) : Prop where
  fits : n ≤ w.buffer.content.length
  content : w'.buffer.content = w.buffer.content.drop n
  unoffered : n ≤ w.buffer.offered.content.length → w'.buffer.unoffered = w.buffer.unoffered
  taken : w'.taken = w.taken ++ w.buffer.offered.content.take (kernel.answer w).ret.toInt.toNat
  total : w'.totalBytesWritten = (w.totalBytesWritten + n) % 2 ^ 64

theorem turned_after {n : ℕ} (hok : w.buffer.removePrefix n = .ok views) :
    Turned kernel w (kernel.after w views n) n := by
  rcases w.buffer.removePrefix_cases n with ⟨-, _, herror⟩ | ⟨hfits, views', hok', hcontent⟩
  · cases hok.symm.trans herror
  · obtain rfl := Except.ok.inj (hok.symm.trans hok')
    exact ⟨hfits, hcontent, fun hn => BufferViewList.unoffered_removePrefix hn hok, rfl, rfl⟩

theorem turned_of_ok (h : kernel.turn w = .ok w') :
    (kernel.answer w).ret.toInt32.toInt ≤ ssize w.buffer.size ∧
      Turned kernel w w' (toSize (kernel.answer w).ret.toInt32.toInt) := by
  unfold turn systemCall at h
  split_ifs at h with hret
  · simp only [bind, Except.bind] at h
    split_ifs at h with hzero hlong
    cases hremove : w.buffer.removePrefix (toSize (kernel.answer w).ret.toInt32.toInt) with
    | error e =>
      rw [hremove] at h
      cases h
    | ok views =>
      rw [hremove] at h
      cases h
      exact ⟨not_lt.mp hlong, turned_after hremove⟩
  · cases h

theorem size_eq_zero_iff (hlen : w.buffer.content.length < 2 ^ 64) :
    w.buffer.size = 0 ↔ w.buffer.content = [] := by
  rw [BufferViewList.size_eq, Nat.mod_eq_of_lt hlen, List.length_eq_zero_iff]

theorem Honest.bounds (h : kernel.Honest) (w : Writing κ) :
    0 ≤ (kernel.answer w).ret.toInt ∧
      (kernel.answer w).ret.toInt ≤ w.buffer.offered.content.length ∧
      ((kernel.answer w).ret.toInt = 0 → w.buffer.offered.content = []) := by
  by_cases hempty : w.buffer.offered.content = []
  · have hidle : (kernel.answer w).ret.toInt = 0 := h.idle w.kernelState _ hempty
    exact ⟨hidle.ge, by omega, fun _ => hempty⟩
  · obtain ⟨hpos, hle⟩ : 1 ≤ (kernel.answer w).ret.toInt ∧
        (kernel.answer w).ret.toInt ≤ w.buffer.offered.content.length :=
      h.takes w.kernelState _ hempty
    exact ⟨by omega, hle, fun hzero => by omega⟩

theorem turn_of_none_offered (hhonest : kernel.Honest) (hnone : w.buffer.offered.content = [])
    (hsize : w.buffer.size ≠ 0) :
    kernel.turn w = .error (.runtimeError "write returned 0 given non-empty input buffer") := by
  have hret : (kernel.answer w).ret.toInt = 0 := hhonest.idle w.kernelState _ hnone
  have harrives : (kernel.answer w).ret.toInt32.toInt = 0 := by
    rw [Int64.toInt_toInt32, hret]
    rfl
  unfold turn
  rw [systemCall, harrives, if_pos (Or.inl le_rfl)]
  exact if_pos ⟨rfl, hsize⟩

theorem turned_of_arrives {z : ℤ} (hlen : w.buffer.content.length < 2 ^ 63)
    (harrives : (kernel.answer w).ret.toInt32.toInt = z) (hnonneg : 0 ≤ z)
    (hle : z ≤ w.buffer.content.length) (hzero : z = 0 → w.buffer.content = []) :
    ∃ w', kernel.turn w = .ok w' ∧ Turned kernel w w' z.toNat := by
  have hsize : w.buffer.size = w.buffer.content.length := by
    rw [BufferViewList.size_eq, Nat.mod_eq_of_lt (by omega)]
  have hsystem : systemCall "writev" (kernel.answer w).ret.toInt32 (kernel.answer w).errno =
      .ok z := by
    rw [systemCall, harrives, if_pos (Or.inl hnonneg)]
  have hsome : ¬ (z = 0 ∧ w.buffer.size ≠ 0) := by
    rintro ⟨hz, hne⟩
    exact hne (by rw [hsize, hzero hz, List.length_nil])
  have hfits : ¬ ssize w.buffer.size < z := by
    rw [ssize, hsize, if_pos hlen]
    omega
  have hsmall : z.toNat ≤ w.buffer.content.length := by omega
  obtain ⟨-, views', hremove, -⟩ :=
    (w.buffer.removePrefix_cases z.toNat).resolve_left fun h => absurd h.1 (not_lt.mpr hsmall)
  refine ⟨kernel.after w views' z.toNat, ?_, turned_after hremove⟩
  unfold turn
  rw [hsystem]
  simp only [bind, Except.bind, if_neg hsome, if_neg hfits, toSize_of_nonneg hnonneg (by omega),
    hremove]
  rfl

theorem turned_of_short (hhonest : kernel.Honest) (hlen : w.buffer.content.length < 2 ^ 63)
    (hall : w.buffer.unoffered.content = []) (hshort : (kernel.answer w).ret.toInt < 2 ^ 31) :
    ∃ w', kernel.turn w = .ok w' ∧ Turned kernel w w' (kernel.answer w).ret.toInt.toNat := by
  obtain ⟨hnonneg, hle, hzero⟩ := hhonest.bounds w
  rw [BufferViewList.content_offered hall] at hle hzero
  apply turned_of_arrives hlen _ hnonneg hle hzero
  rcases toInt32_cases hnonneg with ⟨-, h⟩ | ⟨h, -⟩ | ⟨h, -⟩
  · exact h
  · omega
  · omega

theorem Turned.pending (h : Turned kernel w w' (kernel.answer w).ret.toInt.toNat)
    (hhonest : kernel.Honest) : w'.taken ++ w'.buffer.content = w.taken ++ w.buffer.content := by
  obtain ⟨-, hle, -⟩ := hhonest.bounds w
  rw [h.taken, h.content, BufferViewList.take_offered (by omega), List.append_assoc,
    List.take_append_drop]

/-- As the loop stands before a turn, as long as the answers are short. -/
structure OnTrack (kernel : Kernel κ) (c : Buffer) (w : Writing κ) : Prop where
  short : ∀ w', Visits kernel.turn (again true) w w' → (kernel.answer w').ret.toInt < 2 ^ 31
  length_lt : c.length < 2 ^ 63
  all : w.buffer.unoffered.content = []
  pending : w.taken ++ w.buffer.content = c
  total : w.totalBytesWritten = w.taken.length

variable {c : Buffer}

theorem OnTrack.length_add (h : OnTrack kernel c w) :
    w.taken.length + w.buffer.content.length = c.length := by
  rw [← h.pending, List.length_append]

/-- On track, a turn takes what it discards, and the loop stays there if it goes on. -/
theorem OnTrack.turn (h : OnTrack kernel c w) (hhonest : kernel.Honest) :
    ∃ w', kernel.turn w = .ok w' ∧
      Turned kernel w w' (kernel.answer w).ret.toInt.toNat ∧
      w'.totalBytesWritten = w'.taken.length ∧
      (again true w' = true → OnTrack kernel c w') := by
  have hadd := h.length_add
  have hlt := h.length_lt
  have hoffered := w.buffer.length_offered_add
  obtain ⟨hnonneg, hle, -⟩ := hhonest.bounds w
  obtain ⟨w', hok, hturned⟩ := turned_of_short hhonest (by omega) h.all (h.short w (.refl w))
  have htotal : w'.totalBytesWritten = w'.taken.length := by
    rw [hturned.total, hturned.taken, h.total, List.length_append, List.length_take]
    omega
  refine ⟨w', hok, hturned, htotal, fun ha => ⟨fun w'' hv => ?_, hlt, ?_, ?_, htotal⟩⟩
  · exact h.short w'' ((Next.mk hok ha).visits hv)
  · rw [hturned.unoffered (by omega), h.all]
  · rw [hturned.pending hhonest, h.pending]

theorem OnTrack.ends (h : OnTrack kernel c w) (hhonest : kernel.Honest) :
    ∃ w', Ends kernel.turn (again true) w (.ok w') ∧
      (w'.taken = c ∧ w'.totalBytesWritten = c.length) := by
  refine ends_of_variant (I := OnTrack kernel c) (fun w => w.buffer.content.length) ?_ h
  intro w h
  obtain ⟨w', hok, hturned, htotal, htrack⟩ := h.turn hhonest
  have hadd := h.length_add
  have hlt := h.length_lt
  have hlen : w'.buffer.content.length ≤ w.buffer.content.length := by
    rw [hturned.content, List.length_drop]
    exact Nat.sub_le _ _
  have hempty := size_eq_zero_iff (w := w') (by omega)
  refine ⟨w', hok, fun ha => ⟨htrack ha, ?_⟩, fun ha => ?_⟩
  · -- something is left, so something was offered, and at least one byte was taken
    have hleft : w'.buffer.content ≠ [] := mt hempty.mpr (again_iff.mp ha)
    have hpos := List.length_pos_iff.mpr hleft
    obtain ⟨hnonneg, -, hzero⟩ := hhonest.bounds w
    have hsome : (kernel.answer w).ret.toInt ≠ 0 := by
      intro hret
      rw [← BufferViewList.content_offered h.all, hzero hret, List.length_nil] at hlen
      omega
    rw [hturned.content, List.length_drop] at hpos ⊢
    omega
  · have hdone : w'.buffer.content = [] := by
      rw [← hempty]
      simpa [again] using ha
    have hpending := hturned.pending hhonest
    rw [hdone, List.append_nil, h.pending] at hpending
    exact ⟨hpending, by rw [htotal, hpending]⟩

theorem onTrack_begin (hlen : (BufferViewList.content views).length < 2 ^ 63)
    (hall : (BufferViewList.unoffered views).content = [])
    (hshort : kernel.AnswersShortly state views) :
    OnTrack kernel (BufferViewList.content views) (begin state views) :=
  ⟨hshort, hlen, hall, rfl, rfl⟩

theorem writesOnce_of_short (hhonest : kernel.Honest)
    (hlen : (BufferViewList.content views).length < 2 ^ 63)
    (hall : (BufferViewList.unoffered views).content = [])
    (hshort : kernel.AnswersShortly state views) : kernel.WritesOnce state views := by
  have hbegin := onTrack_begin hlen hall hshort
  constructor
  · obtain ⟨w, hends, htaken, -⟩ := hbegin.ends hhonest
    exact ⟨w, hends, htaken⟩
  · intro w hv
    have htrack : OnTrack kernel (BufferViewList.content views) w := by
      refine hv.invariant ?_ hbegin
      intro w w' h hnext
      obtain ⟨w'', hok, -, -, htrack⟩ := h.turn hhonest
      obtain rfl := Except.ok.inj (hnext.turn.symm.trans hok)
      exact htrack hnext.again
    exact htrack.pending

/-- Before the turn in `w` the buffer was not too long and all of it was offered, and the answers
from there on are short. -/
structure Short (kernel : Kernel κ) (w : Writing κ) : Prop where
  length_lt : w.buffer.content.length < 2 ^ 63
  all : w.buffer.unoffered.content = []
  answers : ∀ w', Visits kernel.turn (again true) w w' → (kernel.answer w').ret.toInt < 2 ^ 31

theorem short_of_last (hhonest : kernel.Honest) (hok : kernel.turn w = .ok w')
    (ha : again true w' = false) (hpending : w.taken ++ w.buffer.content = c)
    (htaken : w'.taken = c) : Short kernel w := by
  obtain ⟨hnonneg, hle, -⟩ := hhonest.bounds w
  obtain ⟨-, hturned⟩ := turned_of_ok hok
  have hoffered := w.buffer.length_offered_add
  have htake : w.buffer.offered.content.take (kernel.answer w).ret.toInt.toNat =
      w.buffer.content := by
    have happend := hturned.taken
    rw [htaken, ← hpending] at happend
    exact (List.append_cancel_left happend).symm
  have hlen := congrArg List.length htake
  rw [List.length_take] at hlen
  have hlt := (kernel.answer w).ret.toInt_lt
  have hleft : w'.buffer.content.length = 0 := by
    have hsize : w'.buffer.size = 0 := by simpa [again] using ha
    have hdrop := congrArg List.length hturned.content
    rw [List.length_drop] at hdrop
    rw [BufferViewList.size_eq] at hsize
    omega
  rw [hturned.content, List.length_drop] at hleft
  have hfits := hturned.fits
  refine ⟨by omega, List.eq_nil_of_length_eq_zero (by omega), fun w'' hv => ?_⟩
  rcases hv.eq_or_next with rfl | ⟨w₁, hnext, -⟩
  · exact lt_of_toSize_eq hnonneg (by omega)
  · obtain rfl := Except.ok.inj (hnext.turn.symm.trans hok)
    rw [hnext.again] at ha
    cases ha

theorem short_of_next (hhonest : kernel.Honest) (hnext : Next kernel.turn (again true) w w')
    (hpending : w.taken ++ w.buffer.content = c) (hpending' : w'.taken ++ w'.buffer.content = c)
    (h : Short kernel w') : Short kernel w := by
  obtain ⟨hnonneg, hle, -⟩ := hhonest.bounds w
  obtain ⟨hssize, hturned⟩ := turned_of_ok hnext.turn
  have hfits := hturned.fits
  have hoffered := w.buffer.length_offered_add
  have hdiscarded : toSize (kernel.answer w).ret.toInt32.toInt =
      (kernel.answer w).ret.toInt.toNat := by
    have hlen := congrArg List.length (hpending.trans hpending'.symm)
    rw [hturned.taken, hturned.content] at hlen
    simp only [List.length_append, List.length_take, List.length_drop] at hlen
    omega
  have hanswer := lt_of_toSize_eq hnonneg hdiscarded
  refine ⟨?_, ?_, fun w'' hv => ?_⟩
  · by_contra hlong
    have hleft := h.length_lt
    rw [hturned.content, List.length_drop] at hleft
    have harrives : 0 ≤ (kernel.answer w).ret.toInt32.toInt := by
      rcases toInt32_cases hnonneg with ⟨-, h⟩ | ⟨h, -⟩ | ⟨h, -⟩ <;> omega
    rw [BufferViewList.size_eq, Nat.mod_eq_of_lt (by omega), ssize, if_neg hlong] at hssize
    omega
  · rw [← hturned.unoffered (by omega), h.all]
  · rcases hv.eq_or_next with rfl | ⟨w₁, hnext', hv'⟩
    · exact hanswer
    · obtain rfl := hnext'.unique hnext
      exact h.answers w'' hv'

theorem short_of_writesOnce (hhonest : kernel.Honest) (h : kernel.WritesOnce state views) :
    Short kernel (begin state views) := by
  obtain ⟨⟨w, hends, htaken⟩, honce⟩ := h
  refine ends_induction
    (P := fun w => (∀ w', Visits kernel.turn (again true) w w' →
      w'.taken ++ w'.buffer.content = BufferViewList.content views) → Short kernel w)
    hends ?_ ?_ honce
  · intro w₁ hok ha honce
    exact short_of_last hhonest hok ha (honce w₁ (.refl w₁)) htaken
  · intro w₁ w₂ hnext ih honce
    have honce' := fun w' hv => honce w' (hnext.visits hv)
    exact short_of_next hhonest hnext (honce w₁ (.refl w₁)) (honce' w₂ (.refl w₂)) (ih honce')

theorem writesOnce_iff (hhonest : kernel.Honest) : kernel.WritesOnce state views ↔
    (BufferViewList.content views).length < 2 ^ 63 ∧
      (BufferViewList.unoffered views).content = [] ∧ kernel.AnswersShortly state views := by
  constructor
  · intro h
    obtain ⟨hlen, hall, hshort⟩ := short_of_writesOnce hhonest h
    exact ⟨hlen, hall, hshort⟩
  · rintro ⟨hlen, hall, hshort⟩
    exact writesOnce_of_short hhonest hlen hall hshort

theorem WritesOnce.ofBuffers {bs : StoredBufferList}
    (h : kernel.WritesOnce state (.ofBuffers bs)) :
    ∃ w, Ends kernel.turn (again true) (begin state (.ofBuffers bs)) (.ok w) ∧
      w.taken = bs.concatenate := by
  obtain ⟨w, hends, htaken⟩ := h.ends
  exact ⟨w, hends, htaken.trans (BufferViewList.content_ofBuffers bs)⟩

end Kernel

/-- Both lists lose exactly the bytes that they should if the size has not wrapped around or is not
exceeded, and only then; and an honest kernel is handed the bytes of the buffer once, in order,
if its answers are short, the size fits and no piece with bytes stays unoffered, and only then. -/
theorem partial_writes_iff {κ : Type} {kernel : Kernel κ} (hhonest : kernel.Honest) :
    (∀ (bs : StoredBufferList) (n : UInt64),
      RemovesPrefix StoredBuffer.str bs.size bs n.toNat (bs.removePrefix n.toNat) ↔
        bs.concatenate.length < 2 ^ 64 ∨ n.toNat ≤ bs.size) ∧
    (∀ (views : BufferViewList) (n : UInt64),
      RemovesPrefix id views.size views n.toNat (views.removePrefix n.toNat) ↔
        views.content.length < 2 ^ 64 ∨ n.toNat ≤ views.size) ∧
    ∀ (state : κ) (views : BufferViewList), kernel.WritesOnce state views ↔
      views.content.length < 2 ^ 63 ∧ views.unoffered.content = [] ∧
        kernel.AnswersShortly state views := by
  refine ⟨fun bs n => ?_, fun views n => ?_, fun state views => Kernel.writesOnce_iff hhonest⟩
  · rw [StoredBufferList.size_eq]
    exact removesPrefix_iff StoredBuffer.trims_removePrefix n.toNat_lt
  · rw [BufferViewList.size_eq]
    exact removesPrefix_iff BufferViewList.trims_drop n.toNat_lt

/-! ### A kernel with a limit -/

namespace Kernel

/-- A kernel that takes at most `limit` bytes at a time. -/
def upTo (limit : ℕ) : Kernel Unit where
  writev _ views := { ret := .ofNat (min limit (BufferViewList.content views).length) }
  next _ _ := ()

theorem toInt_upTo {limit : ℕ} (h : limit < 2 ^ 63) (views : BufferViewList) :
    ((upTo limit).writev () views).ret.toInt =
      min limit (BufferViewList.content views).length := by
  have hmin : min limit (BufferViewList.content views).length < 2 ^ 63 := by omega
  exact Int64.toInt_ofNat_of_lt hmin

theorem honest_upTo {limit : ℕ} (hpos : 0 < limit) (h : limit < 2 ^ 63) :
    (upTo limit).Honest := by
  constructor
  · rintro ⟨⟩ views hne
    have hlen := List.length_pos_iff.mpr hne
    rw [toInt_upTo h]
    omega
  · rintro ⟨⟩ views hempty
    rw [toInt_upTo h, hempty, List.length_nil, Nat.min_zero]
    rfl

/-- A kernel that takes 2^32 + 1 bytes at once counts as one that took a single byte. -/
theorem turn_upTo_long (bytes : Buffer) (hlen : bytes.length = 2 ^ 32 + 1) :
    ∃ w, (upTo (2 ^ 32 + 1)).turn (begin () [bytes]) = .ok w ∧ again true w = true ∧
      w.taken = bytes ∧ w.buffer.content = bytes.drop 1 := by
  have hcontent : (begin () [bytes]).buffer.content = bytes := List.append_nil bytes
  have hall : (begin () [bytes]).buffer.offered.content = bytes := List.append_nil bytes
  have hret : ((upTo (2 ^ 32 + 1)).answer (begin () [bytes])).ret = .ofNat (2 ^ 32 + 1) := by
    change Int64.ofNat (min (2 ^ 32 + 1) (begin () [bytes]).buffer.offered.content.length) = _
    rw [hall, hlen, Nat.min_self]
  have harrives : ((upTo (2 ^ 32 + 1)).answer (begin () [bytes])).ret.toInt32.toInt = 1 := by
    rw [hret]
    decide
  have htaken : ((upTo (2 ^ 32 + 1)).answer (begin () [bytes])).ret.toInt.toNat =
      bytes.length := by
    rw [hret, hlen]
    decide
  obtain ⟨w, hok, hturned⟩ := turned_of_arrives (by rw [hcontent]; omega) harrives
    (by norm_num) (by rw [hcontent]; omega) (by norm_num)
  have hleft := hturned.content
  rw [hcontent] at hleft
  refine ⟨w, hok, ?_, ?_, hleft⟩
  · rw [again_iff, BufferViewList.size_eq, hleft, List.length_drop, hlen]
    decide
  · rw [hturned.taken, hall, htaken, List.take_length]
    rfl

theorem size_replicate {n : ℕ} (hn : n < 2 ^ 64) (b : UInt8) :
    BufferViewList.size (List.replicate n [b]) = n := by
  have hcontent : BufferViewList.content (List.replicate n [b]) = List.replicate n b := by
    rw [BufferViewList.content, Pieces.items, List.flatMap_replicate, id_eq,
      List.flatten_replicate_singleton]
  rw [BufferViewList.size_eq, hcontent, List.length_replicate, Nat.mod_eq_of_lt hn]

/-- Of 2^32 + 1 bytes that are taken at once all but the first are offered again, and 2^32 pieces
of one byte are not offered at all. -/
theorem writes_again_or_gives_up :
    let kernel := upTo (2 ^ 32 + 1)
    let bytes : Buffer := List.replicate (2 ^ 32 + 1) 0
    let pieces : BufferViewList := List.replicate (2 ^ 32) [0]
    kernel.Honest ∧ ¬ kernel.WritesOnce () [bytes] ∧
      (∃ w, kernel.turn (begin () [bytes]) = .ok w ∧ again true w = true ∧ w.taken = bytes ∧
        w.buffer.content = bytes.drop 1) ∧
      kernel.turn (begin () pieces) =
        .error (.runtimeError "write returned 0 given non-empty input buffer") := by
  intro kernel bytes pieces
  have hhonest : kernel.Honest := honest_upTo (by norm_num) (by norm_num)
  have hturn := turn_upTo_long bytes List.length_replicate
  refine ⟨hhonest, ?_, hturn, ?_⟩
  · rintro ⟨-, honce⟩
    obtain ⟨w, hok, hagain, htaken, hleft⟩ := hturn
    have hpending := congrArg List.length (honce w ((Next.mk hok hagain).visits (.refl w)))
    have hcontent : BufferViewList.content [bytes] = bytes := List.append_nil bytes
    rw [htaken, hleft, hcontent, List.length_append, List.length_drop] at hpending
    have hlen : bytes.length = 2 ^ 32 + 1 := List.length_replicate
    omega
  · have hlen : pieces.length = 2 ^ 32 := List.length_replicate
    have hnone : BufferViewList.offered pieces = [] :=
      BufferViewList.offered_eq_nil (dvd_of_eq hlen.symm)
    have hsize : BufferViewList.size pieces = 2 ^ 32 := size_replicate (by norm_num) 0
    apply turn_of_none_offered hhonest
    · exact congrArg BufferViewList.content hnone
    · exact hsize.trans_ne (by norm_num)

end Kernel

/-- Six bytes in three pieces, one of them empty, are written in two turns of three bytes. -/
theorem partial_writes_iff_three :
    (Kernel.upTo 3).WritesOnce () [[1, 2], [], [3, 4, 5, 6]] := by
  have hlimit : 3 < 2 ^ 63 := by norm_num
  have hhonest : (Kernel.upTo 3).Honest := Kernel.honest_upTo (by norm_num) hlimit
  refine ((partial_writes_iff hhonest).2.2 () [[1, 2], [], [3, 4, 5, 6]]).mpr ⟨by decide, rfl, ?_⟩
  intro w _
  have hret := Kernel.toInt_upTo hlimit w.buffer.offered
  change ((Kernel.upTo 3).writev () w.buffer.offered).ret.toInt < 2 ^ 31
  omega

end Sponge
