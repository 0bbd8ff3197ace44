import Sponge.Library.Blocks
import Sponge.Stream.ByteStream

/-! # Stream reassembly

Substrings arrive out of order, with overlaps and gaps. The parts that lie in the
window and are not stored yet are kept as blocks of a table; blocks that reach
the first unassembled position are written to the output.
-/

namespace Sponge

open Blocks

/-- The conversion of an unsigned key component to the comparator's 32-bit signed one. -/
def toInt (n : ℕ) : ℤ := Int.bmod n (2 ^ 32)

/-- The comparator of the table: both ends of the interval lie before those of the other. -/
def comp (a b : ℕ × ℕ) : Bool :=
  decide (toInt a.1 < toInt b.1) && decide (toInt a.2 < toInt b.2)

structure StreamReassembler where
  output : ByteStream
  capacity : ℕ
  szUnasb : ℕ
  unread : ℕ
  unasb : ℕ
  eof2 : ℕ
  t : List (Block UInt8)
  deriving DecidableEq, Repr

namespace StreamReassembler

def new (capacity : ℕ) : StreamReassembler where
  output := .new capacity
  capacity := capacity
  szUnasb := 0
  unread := 0
  unasb := 0
  eof2 := 2 ^ 64 - 1
  t := []

/-- The part of `data` from position `start` to `stop`, as a block. -/
def piece (data : List UInt8) (index start stop : ℕ) : Block UInt8 :=
  ((start, stop), (data.drop (start - index)).take (stop - start))

/-- The part of `data` that remains after the stored blocks have been passed. -/
def rest (data : List UInt8) (index endidx idx : ℕ) : List (Block UInt8) :=
  if idx < endidx then [piece data index idx endidx] else []

/-- The parts of `data` between `idx` and `endidx` that no stored block covers. -/
def gaps (data : List UInt8) (index endidx : ℕ) : ℕ → List (Block UInt8) → List (Block UInt8)
  | idx, [] => rest data index endidx idx
  | idx, c :: t =>
    let before := if idx < c.1.1 then [piece data index idx (min c.1.1 endidx)] else []
    let idx := max idx c.1.2
    if endidx ≤ c.1.2 then before ++ rest data index endidx idx
    else before ++ gaps data index endidx idx t

/-- Enter the pieces into the table. -/
def store (s : StreamReassembler) (toInsert : List (Block UInt8)) : StreamReassembler :=
  toInsert.foldl
    (fun s i =>
      { s with
        t := assign comp i.1 i.2 s.t
        szUnasb := (s.szUnasb + i.2.length) % 2 ^ 64 }) s

/-- Write the front blocks out as long as they start at the first unassembled position. -/
def drainFrom (s : StreamReassembler) : List (Block UInt8) → StreamReassembler
  | [] => { s with t := [] }
  | c :: t =>
    if c.1.1 = s.unasb then
      drainFrom
        { s with
          output := (s.output.write c.2).1
          unasb := (s.unasb + c.2.length) % 2 ^ 64
          szUnasb := sub64 s.szUnasb c.2.length } t
    else { s with t := c :: t }

def drain (s : StreamReassembler) : StreamReassembler := s.drainFrom s.t

/-- End the output once everything up to the announced end is assembled. -/
def closeAtEnd (s : StreamReassembler) : StreamReassembler :=
  if s.unasb = s.eof2 then
    { s with eof2 := 2 ^ 64 - 1, output := s.output.endInput }
  else s

/-- The first position past the window. -/
def windowEnd (s : StreamReassembler) : ℕ := (s.output.totRead + s.capacity) % 2 ^ 64

/-- Receive a substring and write any newly contiguous bytes into the stream. -/
def pushSubstring (s : StreamReassembler) (data : List UInt8) (index : ℕ) (eof : Bool) :
    StreamReassembler :=
  let idx := max s.unasb index
  let endidx := min ((index + data.length) % 2 ^ 64) s.windowEnd
  let s :=
    { s with
      unread := s.output.totRead
      eof2 := if eof then (index + data.length) % 2 ^ 64 else s.eof2 }
  if endidx ≤ idx then s.closeAtEnd
  else ((s.store (gaps data index endidx idx s.t)).drain).closeAtEnd

def unassembledBytes (s : StreamReassembler) : ℕ := s.szUnasb

def empty (s : StreamReassembler) : Bool := s.t.isEmpty

def firstUnasb (s : StreamReassembler) : ℕ := s.unasb

/-- Read bytes from the assembled stream. -/
def read (s : StreamReassembler) (len : ℕ) : StreamReassembler × List UInt8 :=
  ({ s with output := (s.output.read len).1 }, (s.output.read len).2)

end StreamReassembler

end Sponge
