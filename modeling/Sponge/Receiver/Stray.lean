import Sponge.Library.Runs
import Sponge.Receiver.Basic
import Sponge.Stream.Assembly

/-! # Segments before the SYN

A listening receiver drops a segment without SYN, but only after the segment has
moved the checkpoint, and the SYN leaves the checkpoint where it is. Such segments
stay invisible exactly when they bring the checkpoint back to zero.
-/

namespace Sponge

open Blocks Runs

namespace TCPReceiver

/-- What can be seen of a receiver. -/
structure View where
  ackno : Option WrappingInt32
  windowSize : ℕ
  unassembledBytes : ℕ
  output : List UInt8
  deriving DecidableEq

def view (r : TCPReceiver) : View where
  ackno := r.ackno
  windowSize := r.windowSize
  unassembledBytes := r.unassembledBytes
  output := r.streamOut.buf

/-- Walk from 0 through sequence numbers, each time to the position before the one that the
number unwraps to. -/
def walk (ns : List WrappingInt32) : ℕ := ns.foldl (fun c n => sub64 (unwrap n ⟨0⟩ c) 1) 0

theorem walk_concat (ns : List WrappingInt32) (n : WrappingInt32) :
    walk (ns ++ [n]) = sub64 (unwrap n ⟨0⟩ (walk ns)) 1 := by
  unfold walk
  rw [List.foldl_append, List.foldl_cons, List.foldl_nil]

variable {P : List TCPSegment} {capacity : ℕ}

/-- Segments without SYN do nothing to a listening receiver but walk its checkpoint. -/
theorem run_stray (hP : ∀ seg ∈ P, seg.header.syn = false) :
    run step (new capacity) (P.map .segment) =
      { new capacity with cp := walk (P.map fun seg => seg.header.seqno) } := by
  induction P using List.reverseRecOn with
  | nil => rfl
  | append_singleton P seg ih =>
    have hseg : seg.header.syn = false := hP seg (by simp)
    have hrun := ih fun seg' hs => hP seg' (List.mem_append_left _ hs)
    rw [List.map_append, List.map_singleton, run_concat, hrun, step,
      segmentReceived_listen hseg rfl, indexOf, if_neg (by simp [hseg]), List.map_append,
      List.map_singleton, walk_concat]
    rfl

/-- A SYN that carries one byte. -/
def probe : TCPSegment where
  header := { syn := true }
  payload := [0]

theorem unasb_push_one {s : StreamReassembler} {c : ℕ} (ht : s.t = []) (hu : s.unasb = 0)
    (hw : 0 < s.windowEnd) :
    (s.pushSubstring [0] c false).unasb = if c = 0 then 1 else 0 := by
  unfold StreamReassembler.pushSubstring
  simp only [hu, ht, Nat.zero_max, List.length_singleton, StreamReassembler.gaps,
    StreamReassembler.rest, Bool.false_eq_true, if_false]
  rcases Nat.eq_zero_or_pos c with rfl | hc
  · have hend : min ((0 + 1) % 2 ^ 64) s.windowEnd = 1 := by omega
    rw [hend, if_neg (by omega), if_pos (by omega), StreamReassembler.closeAtEnd_unasb]
    simp [StreamReassembler.store, StreamReassembler.drain, StreamReassembler.drainFrom, assign,
      StreamReassembler.piece]
  · rw [if_neg (c := c = 0) (by omega)]
    by_cases hle : min ((c + 1) % 2 ^ 64) s.windowEnd ≤ c
    · rw [if_pos hle, StreamReassembler.closeAtEnd_unasb]
    · rw [if_neg hle, if_pos (by omega), StreamReassembler.closeAtEnd_unasb]
      simp [StreamReassembler.store, StreamReassembler.drain, StreamReassembler.drainFrom, assign,
        StreamReassembler.piece, hc.ne']

theorem ackno_probe {r : TCPReceiver} (ht : r.reassembler.t = []) (hu : r.reassembler.unasb = 0)
    (hw : 0 < r.reassembler.windowEnd) :
    (r.segmentReceived probe).ackno = some (wrap (if r.cp = 0 then 2 else 1) ⟨0⟩) := by
  have hsyn : probe.header.syn = true := rfl
  have hindex : r.indexOf probe = r.cp := if_pos hsyn
  have hstatus : r.statusAfter probe = .synRecv := by simp [statusAfter, probe]
  have hpush := unasb_push_one (c := r.cp) ht hu hw
  rw [segmentReceived_eq (Or.inl hsyn), ackno_eq (by simp [hstatus])]
  simp only [hindex, hstatus, hsyn, StreamReassembler.firstUnasb, reduceCtorEq, false_and,
    if_false, if_true]
  change some (wrap (1 + (r.reassembler.pushSubstring [0] r.cp false).unasb + 0) ⟨0⟩) = _
  rw [hpush]
  split_ifs <;> rfl

/-- Segments before the SYN are invisible to all that follows exactly when their numbers, walked
through from 0, lead back to 0. -/
theorem stray_invisible_iff (hP : ∀ seg ∈ P, seg.header.syn = false) :
    (∀ Q Q', Q' <+: Q →
      (run step (run step (new capacity) (P.map .segment)) Q').view =
        (run step (new capacity) Q').view) ↔
    walk (P.map fun seg => seg.header.seqno) = 0 := by
  rw [run_stray hP]
  set c := walk (P.map fun seg => seg.header.seqno) with hc
  constructor
  · intro hall
    -- with no capacity at all, an over-long read is needed to open the window
    set n := if capacity % 2 ^ 64 = 0 then 1 else 0 with hn
    have hack := congrArg View.ackno
      (hall [.read n, .segment probe] _ List.prefix_rfl)
    have hopen : 0 < ((new capacity).reassembler.read n).1.windowEnd := by
      simp only [StreamReassembler.windowEnd, StreamReassembler.read, ByteStream.read, new,
        StreamReassembler.new, ByteStream.new, hn]
      split_ifs <;> omega
    simp only [run_cons, run_nil, step, view] at hack
    rw [ackno_probe (by rfl) (by rfl) hopen, ackno_probe (by rfl) (by rfl) hopen] at hack
    by_contra hne
    simp only [read, new, hne, if_false, if_true, Option.some_inj, wrap_eq_wrap_iff] at hack
    omega
  · intro hz Q Q' _
    rw [hz]
    rfl

/-- A FIN and an old number, and then one that leads back to 0. -/
theorem stray_invisible_returning :
    let P : List TCPSegment := [{ header := { seqno := ⟨1⟩, fin := true } },
      { header := { seqno := ⟨4000⟩ }, payload := [7] }, { header := { seqno := ⟨1⟩ } }]
    ∀ Q Q', Q' <+: Q →
      (run step (run step (new 10) (P.map .segment)) Q').view =
        (run step (new 10) Q').view :=
  (stray_invisible_iff (by decide)).mpr (by decide)

/-- After an old segment, the first byte behind the SYN is taken for one a round later. -/
theorem stray_hides_first_byte :
    let P : List TCPSegment := [{ header := { seqno := ⟨3221225472⟩ } }]
    let Q : List Op := [.segment { header := { syn := true } },
      .segment { header := { seqno := ⟨1⟩ }, payload := [65] }]
    (∀ seg ∈ P, seg.header.syn = false) ∧
      (run step (run step (new 10) (P.map .segment)) Q).view = ⟨some ⟨1⟩, 10, 0, []⟩ ∧
      (run step (new 10) Q).view = ⟨some ⟨2⟩, 9, 0, [65]⟩ ∧
      (run step (run step (new 10) (P.map .segment)) Q).view ≠ (run step (new 10) Q).view := by
  decide

end TCPReceiver

end Sponge
