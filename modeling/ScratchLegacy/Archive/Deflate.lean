import ScratchLegacy.Archive.Deflate.Block

/-!
# Deflating

`deflate` makes bytes shorter: it takes them apart into literals and
repetitions, divides these into blocks, and writes the blocks. What it writes
is what `Inflate.inflate?` reads.

A block ends when it has taken up its share of memory (`Draft.isFull`), or
when it is not small any more and its items do not pay.
-/

namespace ScratchLegacy.Archive.Deflate

/-- **A block that is still open.** -/
structure Draft where
  items : Array Item := #[]
  start : Nat := 0
  /-- How many bytes its items stand for. -/
  size : Nat := 0
  /-- How much memory its items take up, one byte for a literal and three for a
  repetition. -/
  memory : Nat := 0
deriving Inhabited

namespace Draft

/-- A draft with one more item. -/
def add (d : Draft) (item : Item) : Draft :=
  { d with
    items := d.items.push item
    size := d.size + item.size
    memory := d.memory + match item with
      | .literal _ => 1
      | .repetition _ _ => 3 }

/-- The memory that a draft takes up: that of its items, and a byte for every
eight of them. -/
def used (d : Draft) : Nat := 1 + d.memory + d.items.size / 8

/-- Whether a draft is to be written: its memory is used up, or there are many
bytes that take up almost as much memory. -/
def isFull (d : Draft) : Bool := 65528 < d.used ∨ (31744 < d.size ∧ d.size ≤ d.used * 115 / 128)

/-- The draft as a block that ends before the position of the next step. It may
be stored if it lies in the window there. -/
def close (d : Draft) (position window : Nat) (isLast : Bool) : Block :=
  { items := d.items
    start := d.start
    size := d.size
    mayStore := position - d.start ≤ window
    isLast := isLast }

end Draft

/-- **How far deflating has come.** -/
structure Deflating where
  /-- Where the next step begins. -/
  position : Nat := 0
  /-- How many bytes before it may be repeated. -/
  window : Nat := 0
  waiting : Option Waiting := none
  draft : Draft := {}
  written : BitWriter := {}
deriving Inhabited

namespace Deflating

/-- One step further, and the draft written if it is full. The bytes that a
repetition may have are part of the window, and leave less of it before
them. -/
def next (data : ByteArray) (links : Array Nat) (d : Deflating) : Deflating :=
  let ahead := min maxLength (data.size - d.position)
  let window := min (windowSize - ahead) d.window
  let s := step data links d.position window d.waiting
  let position := d.position + s.moved
  let window := min windowSize (window + s.moved)
  let draft := s.items.foldl Draft.add d.draft
  if draft.isFull then
    { position := position
      window := window
      waiting := s.waiting
      draft := { start := draft.start + draft.size }
      written := (draft.close position window false).write data d.written }
  else
    { position := position, window := window, waiting := s.waiting, draft := draft
      written := d.written }

/-- All steps, and the last block written. Every step moves on, so there are no
more of them than bytes. -/
def finish (data : ByteArray) (links : Array Nat) : Nat → Deflating → BitWriter
  | 0, d => ((d.draft.close d.position d.window true).write data d.written).pad
  | fuel + 1, d =>
    if d.position < data.size then finish data links fuel (d.next data links)
    else ((d.draft.close d.position d.window true).write data d.written).pad

end Deflating

/-- **Shorter bytes that stand for bytes.** -/
def deflate (data : ByteArray) : ByteArray :=
  (Deflating.finish data (links data) data.size {}).bytes

end ScratchLegacy.Archive.Deflate
