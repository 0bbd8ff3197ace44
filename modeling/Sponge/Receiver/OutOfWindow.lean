import Sponge.Receiver.Stray
import Sponge.Stream.Counting

/-! # Segments out of the window

A segment whose bytes all lie out of the window adds nothing to the stream, but its
number becomes the checkpoint near which the next number is unwrapped. Such a
segment stays invisible exactly when it leaves the checkpoint where it is.
-/

namespace Sponge

open Blocks Runs

namespace StreamReassembler

variable {s : StreamReassembler} {data : List UInt8} {index : ℕ} {eof : Bool}

/-- What the placing of bytes depends on: all but the announced end and the flags. -/
def core (s : StreamReassembler) : StreamReassembler :=
  { s with
    unread := 0
    eof2 := 0
    output := { s.output with eof2 := false, error := false } }

theorem core_closeAtEnd (s : StreamReassembler) : s.closeAtEnd.core = s.core := by
  unfold closeAtEnd
  split_ifs <;> rfl

theorem core_store (s : StreamReassembler) (g : List (Block UInt8)) :
    (s.store g).core = s.core.store g := by
  induction g generalizing s with
  | nil => rfl
  | cons i g ih => exact ih _

theorem core_drainFrom (s : StreamReassembler) (t : List (Block UInt8)) :
    (s.drainFrom t).core = s.core.drainFrom t := by
  induction t generalizing s with
  | nil => rfl
  | cons c t ih =>
    have hunasb : s.core.unasb = s.unasb := rfl
    rw [drainFrom, drainFrom, hunasb]
    split_ifs
    · exact ih _
    · rfl

theorem core_pushSubstring (s : StreamReassembler) (data : List UInt8) (index : ℕ) (eof : Bool) :
    (s.pushSubstring data index eof).core = (s.core.pushSubstring data index eof).core := by
  have hend : s.core.pushEnd data index = s.pushEnd data index := rfl
  have hunasb : s.core.unasb = s.unasb := rfl
  have ht : s.core.t = s.t := rfl
  rw [pushSubstring_eq, pushSubstring_eq, hend, hunasb, ht]
  split_ifs
  · rw [core_closeAtEnd, core_closeAtEnd]
    rfl
  · rw [core_closeAtEnd, core_closeAtEnd, drain, drain, store_t, store_t, core_drainFrom,
      core_drainFrom, core_store, core_store]
    rfl

theorem core_pushSubstring_outside (h : s.pushEnd data index ≤ max s.unasb index) :
    (s.pushSubstring data index eof).core = s.core := by
  rw [pushSubstring_eq, if_pos h, core_closeAtEnd]
  rfl

end StreamReassembler

namespace TCPReceiver

/-- No byte of the payload has a number that stands for a position in the window. -/
def OutOfWindow (r : TCPReceiver) (seg : TCPSegment) : Prop :=
  ∀ i < seg.payload.length, ∀ j < r.windowSize,
    wrap i seg.header.seqno ≠ wrap (1 + (r.reassembler.firstUnasb + j)) r.isn

/-- The counts of bytes stay below the end of their 64 bits. -/
def Fits (r : TCPReceiver) : Op → Prop
  | .segment seg =>
    r.reassembler.firstUnasb + total r.reassembler.t + seg.payload.length < 2 ^ 64 - 1
  | .read len => r.streamOut.bytesRead + len + r.capacity < 2 ^ 64 - 1

instance (r : TCPReceiver) (seg : TCPSegment) : Decidable (r.OutOfWindow seg) :=
  inferInstanceAs (Decidable (∀ i < _, ∀ j < _, _))

instance (r : TCPReceiver) : ∀ o, Decidable (r.Fits o)
  | .segment _ => inferInstanceAs (Decidable (_ < _))
  | .read _ => inferInstanceAs (Decidable (_ < _))

def core (r : TCPReceiver) : TCPReceiver := { r with reassembler := r.reassembler.core }

variable {r : TCPReceiver} {seg : TCPSegment}

theorem core_step (r : TCPReceiver) (o : Op) : (r.step o).core = (r.core.step o).core := by
  cases o with
  | read len => rfl
  | segment seg =>
    change (r.segmentReceived seg).core = (r.core.segmentReceived seg).core
    by_cases h : seg.header.syn = true ∨ r.status ≠ .listen
    · have hcore := r.reassembler.core_pushSubstring seg.payload (r.indexOf seg) seg.header.fin
      have hindex : r.core.indexOf seg = r.indexOf seg := rfl
      have hstatus : r.core.statusAfter seg = r.statusAfter seg := rfl
      rw [segmentReceived_eq h, segmentReceived_eq (r := r.core) h, hindex, hstatus]
      simp only [core] at hcore ⊢
      rw [hcore]
    · rw [not_or, Bool.not_eq_true, not_not] at h
      rw [segmentReceived_listen h.1 h.2, segmentReceived_listen (r := r.core) h.1 h.2]
      rfl

theorem core_run (r : TCPReceiver) (os : List Op) :
    (run step r os).core = (run step r.core os).core := by
  induction os generalizing r with
  | nil => rfl
  | cons o os ih => rw [run_cons, run_cons, ih, core_step, ← ih]

theorem view_core (r : TCPReceiver) : r.core.view = r.view := rfl

theorem view_run_core (r : TCPReceiver) (os : List Op) :
    (run step r os).view = (run step r.core os).view := by
  rw [← view_core, core_run, view_core]

/-- The bytes are counted in 64 bits, and so is the checkpoint. -/
structure Counted (r : TCPReceiver) : Prop where
  bounded : r.reassembler.Bounded
  capacity : r.capacity = r.reassembler.capacity
  cp : r.cp < 2 ^ 64

theorem Counted.new {capacity : ℕ} (h : capacity < 2 ^ 64 - 1) : (new capacity).Counted :=
  ⟨.new h, rfl, by simp [TCPReceiver.new]⟩

theorem Counted.step (h : r.Counted) {o : Op} (ho : r.Fits o) : (r.step o).Counted := by
  cases o with
  | read len => exact ⟨h.bounded.read (by rw [← h.capacity]; exact ho), h.capacity, h.cp⟩
  | segment seg =>
    change (r.segmentReceived seg).Counted
    by_cases hl : seg.header.syn = true ∨ r.status ≠ .listen
    · rw [segmentReceived_eq hl]
      exact ⟨h.bounded.pushSubstring ho,
        h.capacity.trans (StreamReassembler.capacity_pushSubstring ..).symm, indexOf_lt seg h.cp⟩
    · rw [not_or, Bool.not_eq_true, not_not] at hl
      rw [segmentReceived_listen hl.1 hl.2]
      exact ⟨h.bounded, h.capacity, indexOf_lt seg h.cp⟩

theorem indexOf_eq_cp_iff (hs : seg.header.syn = false) (hcp : r.cp < 2 ^ 64) :
    r.indexOf seg = r.cp ↔ seg.header.seqno = wrap (r.cp + 1) r.isn := by
  have hu := unwrap_lt seg.header.seqno r.isn hcp
  rw [indexOf, if_neg (by simp [hs]), sub64]
  constructor
  · intro h
    rw [← wrap_unwrap seg.header.seqno r.isn hcp, wrap_eq_wrap_iff]
    omega
  · intro h
    have hi := r.isn.rawValue.toNat_lt
    have hunwrap : unwrap seg.header.seqno r.isn r.cp = (r.cp + 1) % 2 ^ 64 := by
      rw [h]
      simp only [unwrap, wrap_rawValue]
      split_ifs <;> omega
    omega

theorem OutOfWindow.misses (hg : r.OutOfWindow seg) (h : r.Counted)
    (hs : seg.header.syn = false) :
    r.reassembler.pushEnd seg.payload (r.indexOf seg) ≤
      max r.reassembler.unasb (r.indexOf seg) := by
  by_contra hlt
  have hend : r.reassembler.pushEnd seg.payload (r.indexOf seg) ≤
      r.indexOf seg + seg.payload.length := (min_le_left _ _).trans (Nat.mod_le _ _)
  have hwindow : r.reassembler.pushEnd seg.payload (r.indexOf seg) ≤ r.reassembler.windowEnd :=
    min_le_right _ _
  have hadvertised := h.bounded.windowEnd_le
  rw [← h.capacity] at hadvertised
  set q := max r.reassembler.unasb (r.indexOf seg) with hq
  have hi : q - r.indexOf seg < seg.payload.length := by omega
  have hj : q - r.reassembler.unasb < r.windowSize := by
    change _ < sub64 r.capacity r.reassembler.output.bufferSize
    omega
  apply hg _ hi _ hj
  -- the first byte that would be pushed has the number of its position
  have hnumber := wrap_unwrap seg.header.seqno r.isn h.cp
  have hu := unwrap_lt seg.header.seqno r.isn h.cp
  have hindex : r.indexOf seg = sub64 (unwrap seg.header.seqno r.isn r.cp) 1 :=
    if_neg (by simp [hs])
  rw [sub64] at hindex
  apply WrappingInt32.ext_toNat
  have hraw := congrArg (fun w => w.rawValue.toNat) hnumber
  simp only [wrap_rawValue] at hraw
  simp only [wrap_rawValue, StreamReassembler.firstUnasb, ← hraw]
  omega

theorem core_segmentReceived (hg : r.OutOfWindow seg) (h : r.Counted)
    (hl : r.status ≠ .listen) (hs : seg.header.syn = false) (hf : seg.header.fin = false) :
    (r.segmentReceived seg).core = { r.core with cp := r.indexOf seg } := by
  rw [segmentReceived_eq (Or.inr hl)]
  simp only [core, statusAfter, hs, hf, Bool.false_eq_true, if_false]
  rw [StreamReassembler.core_pushSubstring_outside (hg.misses h hs)]

/-- A SYN that carries `len` zero bytes. -/
def synProbe (len : ℕ) : TCPSegment where
  header := { syn := true }
  payload := List.replicate len 0

/-- What a SYN with data shows: the number acknowledged, and the bytes waiting, grow together by
the bytes that were kept. -/
theorem synProbe_view (r : TCPReceiver) (len : ℕ)
    (hsmall : r.reassembler.keptCount (List.replicate len 0) r.cp +
      total r.reassembler.t < 2 ^ 64) :
    ∃ u z, (r.segmentReceived (synProbe len)).view.ackno = some (wrap (1 + u) ⟨0⟩) ∧
      (r.segmentReceived (synProbe len)).view.unassembledBytes = z ∧
      (u + z) % 2 ^ 64 = (r.reassembler.unasb + r.reassembler.szUnasb +
        r.reassembler.keptCount (List.replicate len 0) r.cp) % 2 ^ 64 := by
  have hsyn : (synProbe len).header.syn = true := rfl
  have hindex : r.indexOf (synProbe len) = r.cp := if_pos hsyn
  have hstatus : r.statusAfter (synProbe len) = .synRecv := by simp [statusAfter, synProbe]
  refine ⟨_, _, ?_, rfl, StreamReassembler.pushSubstring_sum false hsmall⟩
  rw [view, segmentReceived_eq (Or.inl hsyn), ackno_eq (by simp [hstatus])]
  simp only [hindex, hstatus, reduceCtorEq, false_and, if_false]
  rfl

/-- Two checkpoints can be told apart: after a read that moves the window, a SYN with data adds
a byte near one of them and none near the other. -/
theorem exists_view_ne (h : r.Counted) {c d : ℕ} (hcd : c < d) (hd : d < 2 ^ 64) :
    ∃ Q, (run step { r with cp := c } Q).view ≠ (run step { r with cp := d } Q).view := by
  obtain ⟨len, stop, hstop, hc1, hd1, hne⟩ := h.bounded.exists_spare_ne hcd hd
  have hfits := h.bounded.fits
  have hwindow := h.bounded.window
  set n := (stop + (2 ^ 64 - (r.reassembler.output.totRead + r.reassembler.capacity))) % 2 ^ 64
    with hn
  -- the read makes the window end at `stop`
  have hend : (r.reassembler.read n).1.windowEnd = stop := by
    simp only [StreamReassembler.windowEnd, StreamReassembler.read, ByteStream.read]
    omega
  have hkept : ∀ x, (r.reassembler.read n).1.keptCount (List.replicate len 0) x =
      StreamReassembler.spare (min ((x + len) % 2 ^ 64) stop) (max r.reassembler.unasb x)
        r.reassembler.t := by
    intro x
    rw [StreamReassembler.keptCount, StreamReassembler.pushEnd, hend, List.length_replicate]
    rfl
  refine ⟨[.read n, .segment (synProbe len)], fun heq => hne ?_⟩
  have hshow := fun x => synProbe_view
    { r with reassembler := (r.reassembler.read n).1, cp := x } len
  simp only [hkept] at hshow
  obtain ⟨u, z, hu, hz, hsum⟩ := hshow c (by
    change _ + total r.reassembler.t < _
    simp only at hc1
    omega)
  obtain ⟨u', z', hu', hz', hsum'⟩ := hshow d (by
    change _ + total r.reassembler.t < _
    simp only at hd1
    omega)
  simp only [run_cons, run_nil, step, read] at heq
  rw [heq] at hu hz
  rw [hu', Option.some_inj, wrap_eq_wrap_iff] at hu
  rw [hz'] at hz
  simp only at hc1 hd1 ⊢
  omega

/-- A segment out of the window is invisible to all that follows exactly when it carries the
number of the checkpoint. -/
theorem out_of_window_invisible_iff {capacity : ℕ} {ops : List Op} {g : TCPSegment}
    (hcap : capacity < 2 ^ 64 - 1) (hops : Admitted step Fits (new capacity) ops)
    (hl : (run step (new capacity) ops).status ≠ .listen)
    (hs : g.header.syn = false) (hf : g.header.fin = false)
    (hg : (run step (new capacity) ops).OutOfWindow g) :
    let r := run step (new capacity) ops
    (∀ Q Q', Q' <+: Q → (run step (r.segmentReceived g) Q').view = (run step r Q').view) ↔
      g.header.seqno = wrap (r.cp + 1) r.isn := by
  intro r
  have hc : r.Counted := hops.invariant (fun r o hr ho => hr.step ho) (.new hcap)
  have hcore : (r.segmentReceived g).core = { r.core with cp := r.indexOf g } :=
    core_segmentReceived hg hc hl hs hf
  have hview : ∀ Q, (run step (r.segmentReceived g) Q).view =
      (run step { r with cp := r.indexOf g } Q).view := by
    intro Q
    rw [view_run_core, hcore, view_run_core { r with cp := r.indexOf g }]
    rfl
  rw [← indexOf_eq_cp_iff hs hc.cp]
  constructor
  · intro hall
    by_contra hne
    have hlt := indexOf_lt g hc.cp
    rcases lt_or_gt_of_ne hne with hlow | hhigh
    · obtain ⟨Q, hQ⟩ := exists_view_ne hc hlow hc.cp
      exact hQ ((hview Q).symm.trans (hall Q Q List.prefix_rfl))
    · obtain ⟨Q, hQ⟩ := exists_view_ne hc hhigh hlt
      exact hQ ((hview Q).symm.trans (hall Q Q List.prefix_rfl)).symm
  · intro heq Q Q' _
    rw [hview, heq]

/-- A late copy of the first byte, with other content. -/
theorem out_of_window_invisible_copy :
    let data (n : UInt32) (byte : UInt8) : TCPSegment :=
      { header := { seqno := ⟨n⟩ }, payload := [byte] }
    let r := run step (new 10)
      [.segment { header := { syn := true } }, .segment (data 1 65), .read 1]
    ∀ Q Q', Q' <+: Q →
      (run step (r.segmentReceived (data 1 66)) Q').view = (run step r Q').view :=
  (out_of_window_invisible_iff (by decide) (by decide) (by decide) rfl rfl (by decide)).mpr
    (by decide)

/-- After a segment far out of the window, the first byte is taken for one a round later. -/
theorem out_of_window_hides_first_byte :
    let g : TCPSegment := { header := { seqno := ⟨3221225472⟩ }, payload := [7] }
    let r := run step (new 10) [.segment { header := { syn := true } }]
    let Q : List Op := [.segment { header := { seqno := ⟨1⟩ }, payload := [65] }]
    r.OutOfWindow g ∧
      (run step (r.segmentReceived g) Q).view = ⟨some ⟨1⟩, 10, 0, []⟩ ∧
      (run step r Q).view = ⟨some ⟨2⟩, 9, 0, [65]⟩ ∧
      (run step (r.segmentReceived g) Q).view ≠ (run step r Q).view := by
  decide

end TCPReceiver

end Sponge
