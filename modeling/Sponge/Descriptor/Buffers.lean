import Sponge.Library.Pieces
import Sponge.Packet.Parser

/-! # Buffers that lose bytes in front

A buffer keeps its string and counts the bytes that are discarded. Lists of buffers and of views
are discarded from piece by piece, by the same loop. Their sizes are 64-bit sums, so they are
right for less than 2^64 bytes only.
-/

namespace Sponge

/-- What is thrown. -/
inductive Exception
  | outOfRange (what : String)
  | runtimeError (what : String)
  | unixError (attempt : String) (errno : Int32)
  deriving DecidableEq, Repr

/-- A buffer as it is stored: a string that may have been given up, and how many of its bytes are
discarded. -/
structure StoredBuffer where
  storage : Option Buffer := none
  startingOffset : ℕ := 0
  offset_le : ∀ s ∈ storage, startingOffset ≤ s.length := by simp

namespace StoredBuffer

def str (b : StoredBuffer) : Buffer :=
  match b.storage with
  | none => []
  | some s => s.drop b.startingOffset

def size (b : StoredBuffer) : ℕ := b.str.length

theorem offset_add_le (b : StoredBuffer) {n : ℕ} (hn : ¬ b.size < n) {s : Buffer}
    (hs : s ∈ b.storage) : b.startingOffset + n ≤ s.length := by
  have hoffset := b.offset_le s hs
  rw [size, str, Option.mem_def.mp hs, List.length_drop] at hn
  omega

/-- Discard the first `n` bytes; the string is given up when all are discarded. -/
def removePrefix (b : StoredBuffer) (n : ℕ) : Except Exception StoredBuffer :=
  if hn : b.size < n then .error (.outOfRange "Buffer::remove_prefix")
  else .ok
    { storage := b.storage.filter fun s => b.startingOffset + n ≠ s.length
      startingOffset := b.startingOffset + n
      offset_le := fun _ hs => b.offset_add_le hn (Option.mem_filter_iff.mp hs).1 }

theorem trims_removePrefix : Pieces.Trims str removePrefix := by
  rintro ⟨storage, offset, hoffset⟩ n hn
  refine ⟨_, dif_neg (not_lt.mpr hn), ?_⟩
  cases storage with
  | none => simp [str]
  | some s =>
    by_cases hall : offset + n = s.length
    · simp [str, Option.filter, hall]
    · simp [str, Option.filter, hall]

end StoredBuffer

abbrev StoredBufferList := List StoredBuffer

/-- Views of strings, which are not owned. -/
abbrev BufferViewList := List Buffer

/-- Add up sizes as 64-bit unsigned integers. -/
def totalSize (sizes : List ℕ) : ℕ := sizes.foldl (fun ret size => (ret + size) % 2 ^ 64) 0

theorem foldl_totalSize (sizes : List ℕ) {ret : ℕ} (hret : ret < 2 ^ 64) :
    sizes.foldl (fun ret size => (ret + size) % 2 ^ 64) ret = (ret + sizes.sum) % 2 ^ 64 := by
  induction sizes generalizing ret with
  | nil => exact (Nat.mod_eq_of_lt hret).symm
  | cons size sizes ih =>
    rw [List.foldl_cons, ih (Nat.mod_lt _ (by norm_num)), List.sum_cons, Nat.mod_add_mod,
      add_assoc]

theorem totalSize_eq (sizes : List ℕ) : totalSize sizes = sizes.sum % 2 ^ 64 := by
  rw [totalSize, foldl_totalSize sizes (by norm_num), zero_add]

namespace StoredBufferList

def size (bs : StoredBufferList) : ℕ := totalSize (bs.map StoredBuffer.size)

def concatenate (bs : StoredBufferList) : Buffer := Pieces.items StoredBuffer.str bs

def removePrefix (bs : StoredBufferList) (n : ℕ) : Except Exception StoredBufferList :=
  Pieces.removeFront StoredBuffer.str StoredBuffer.removePrefix
    (.outOfRange "BufferList::remove_prefix") bs n

theorem size_eq (bs : StoredBufferList) :
    StoredBufferList.size bs = (StoredBufferList.concatenate bs).length % 2 ^ 64 := by
  rw [size, totalSize_eq, concatenate, Pieces.items, List.length_flatMap]
  rfl

end StoredBufferList

namespace BufferViewList

/-- The views of the buffers. -/
def ofBuffers (bs : StoredBufferList) : BufferViewList := bs.map StoredBuffer.str

def size (views : BufferViewList) : ℕ := totalSize (views.map List.length)

/-- All bytes that are viewed, in order. -/
def content (views : BufferViewList) : Buffer := Pieces.items id views

def removePrefix (views : BufferViewList) (n : ℕ) : Except Exception BufferViewList :=
  Pieces.removeFront id (fun view n => .ok (view.drop n))
    (.outOfRange "BufferListView::remove_prefix") views n

theorem trims_drop :
    Pieces.Trims id (fun (view : Buffer) n => (.ok (view.drop n) : Except Exception Buffer)) :=
  fun view n _ => ⟨view.drop n, rfl, rfl⟩

theorem size_eq (views : BufferViewList) :
    BufferViewList.size views = (BufferViewList.content views).length % 2 ^ 64 := by
  rw [size, totalSize_eq, content, Pieces.items, List.length_flatMap]
  rfl

theorem content_ofBuffers (bs : StoredBufferList) :
    content (ofBuffers bs) = StoredBufferList.concatenate bs := by
  rw [content, Pieces.items, ofBuffers, List.flatMap_map]
  rfl

end BufferViewList

/-- The removal of `n` bytes fails exactly when there are fewer by the size, and removes the first
`n` bytes otherwise. -/
structure RemovesPrefix {π : Type} (content : π → Buffer) (size : ℕ) (ps : List π) (n : ℕ)
    (result : Except Exception (List π)) : Prop where
  throws : (∃ what, result = .error (.outOfRange what)) ↔ size < n
  removes : ¬ size < n → ∃ ps', result = .ok ps' ∧
    Pieces.items content ps' = (Pieces.items content ps).drop n

/-- The loop does this exactly when the size has not wrapped around, or is not exceeded. -/
theorem removesPrefix_iff {π : Type} {content : π → Buffer}
    {trim : π → ℕ → Except Exception π} (ht : Pieces.Trims content trim) {what : String}
    {ps : List π} {n : ℕ} (hn : n < 2 ^ 64) :
    RemovesPrefix content ((Pieces.items content ps).length % 2 ^ 64) ps n
        (Pieces.removeFront content trim (.outOfRange what) ps n) ↔
      (Pieces.items content ps).length < 2 ^ 64 ∨
        n ≤ (Pieces.items content ps).length % 2 ^ 64 := by
  by_cases hlen : n ≤ (Pieces.items content ps).length
  · obtain ⟨ps', hok, hitems⟩ := Pieces.removeFront_ok (e := .outOfRange what) ht hlen
    rw [hok]
    constructor
    · rintro ⟨hthrows, -⟩
      have hsize : ¬ (Pieces.items content ps).length % 2 ^ 64 < n := by
        intro hlt
        obtain ⟨_, hthrown⟩ := hthrows.mpr hlt
        cases hthrown
      exact Or.inr (not_lt.mp hsize)
    · intro h
      have hsize : ¬ (Pieces.items content ps).length % 2 ^ 64 < n := by omega
      refine ⟨iff_of_false ?_ hsize, fun _ => ⟨ps', rfl, hitems⟩⟩
      rintro ⟨_, hthrown⟩
      cases hthrown
  · have hsmall : (Pieces.items content ps).length < n := not_le.mp hlen
    have hsize : (Pieces.items content ps).length % 2 ^ 64 < n := by omega
    rw [Pieces.removeFront_error hsmall]
    exact iff_of_true ⟨iff_of_true ⟨what, rfl⟩ hsize, fun h => absurd hsize h⟩
      (Or.inl (by omega))

/-- Nothing is dropped any more once enough bytes are removed, not even an empty piece. -/
example : BufferViewList.removePrefix [[1], [], [2, 3], [], [4]] 3 = .ok [[], [4]] := rfl

end Sponge
