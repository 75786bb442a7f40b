import ScratchLegacy.Archive.Deflate.Format

/-!
# Inflating

`inflate?` reads compressed bytes, block by block.

A prefix code is given by the length of each symbol's code word. The words of
one length are consecutive numbers, so a word is decoded bit by bit from how
many words there are of each length (`Code.decode`).

A repetition may reach back behind the beginning of what was written: there
are zeros. Bytes behind the last block do not matter, but bytes that end
before it does are damaged.

Every symbol takes at least one bit, so the number of bits bounds the number
of symbols.
-/

namespace ScratchLegacy.Archive.Inflate

open Deflate (endSymbol lengthBases distanceBases fixedLiterals fixedDistances lengthOrder)

/-- **A reading position**, in bits from the beginning of the bytes. -/
structure Bits where
  data : ByteArray
  position : Nat
deriving Inhabited

namespace Bits

/-- The next bit. -/
def bit (b : Bits) : Option (Nat × Bits) :=
  let byte := b.position / 8
  if h : byte < b.data.size then
    some ((b.data[byte].toNat >>> (b.position % 8)) % 2, ⟨b.data, b.position + 1⟩)
  else none

/-- The next `n` bits as a number, the lowest first. -/
def take (b : Bits) : Nat → Option (Nat × Bits)
  | 0 => some (0, b)
  | n + 1 =>
    match b.bit with
    | none => none
    | some (low, b) => (take b n).map (fun r => (low + 2 * r.1, r.2))

/-- The position moved to the next whole byte. -/
def align (b : Bits) : Bits := ⟨b.data, (b.position + 7) / 8 * 8⟩

end Bits

/-- **A prefix code**: how many code words there are of each length, and the
symbols in the order of their words. -/
structure Code where
  counts : Array Nat
  symbols : Array Nat
deriving Inhabited

namespace Code

/-- The longest a code word can be. -/
def maxLength : Nat := 15

/-- The number of words of the greatest length. -/
def space : Nat := 32768

/-- The code with these lengths of code words, where length zero means that
the symbol has none. -/
def ofLengths (lengths : List Nat) : Code :=
  let of (length : Nat) : List Nat :=
    (lengths.zipIdx.filter (fun e => e.1 = length)).map Prod.snd
  let groups := (List.range maxLength).map (fun n => of (n + 1))
  ⟨(groups.map List.length).toArray, groups.flatten.toArray⟩

/-- How much of the code space the words use up. -/
def used (code : Code) : Nat :=
  code.counts.toList.zipIdx.foldl (fun n e => n + e.1 * Nat.pow 2 (maxLength - 1 - e.2)) 0

/-- Whether the words use up the code space. -/
def isComplete (code : Code) : Bool := code.used = space

/-- Whether the only symbol, if there is one, has a word of one bit. -/
def isSparse (code : Code) : Bool :=
  code.symbols.size = 0 ∨ (code.symbols.size = 1 ∧ code.counts[0]? = some 1)

/-- The code with these lengths of code words, if it is complete. -/
def complete? (lengths : List Nat) : Option Code :=
  let code := ofLengths lengths
  if code.isComplete then some code else none

/-- The code with these lengths of code words, if it is complete or has next to
no words. -/
def completeOrSparse? (lengths : List Nat) : Option Code :=
  let code := ofLengths lengths
  if code.isComplete ∨ code.isSparse then some code else none

/-- The next symbol: `word` is the code word read so far, `first` the first
word of its length and `index` the place of that word among all. -/
def decodeFrom (code : Code) : Nat → Nat → Nat → Nat → Nat → Bits → Option (Nat × Bits)
  | 0, _, _, _, _, _ => none
  | left + 1, length, word, first, index, bits =>
    match bits.bit with
    | none => none
    | some (b, bits) =>
      let word := 2 * word + b
      let first := 2 * first
      let count := code.counts.getD length 0
      if word < first + count then (code.symbols[index + (word - first)]?).map (fun s => (s, bits))
      else code.decodeFrom left (length + 1) word (first + count) (index + count) bits

/-- **The next symbol.** -/
def decode (code : Code) (bits : Bits) : Option (Nat × Bits) :=
  code.decodeFrom maxLength 0 0 0 0 bits

end Code

/-- A base with its additional bits read. -/
def extended (bases : Array (Nat × Nat)) (symbol : Nat) (bits : Bits) : Option (Nat × Bits) :=
  match bases[symbol]? with
  | none => none
  | some (base, extra) => (bits.take extra).map (fun r => (base + r.1, r.2))

/-- The byte that is `distance` back in some bytes. -/
def lookBack (distance : Nat) (out : ByteArray) : UInt8 :=
  if distance ≤ out.size then out[out.size - distance]?.getD 0 else 0

/-- Bytes followed by a repetition of what is `distance` back in them. -/
def copy (distance : Nat) : Nat → ByteArray → ByteArray
  | 0, out => out
  | n + 1, out => copy distance n (out.push (lookBack distance out))

/-- The length and the distance of a repetition, whose length symbol is
read. -/
def repetition (distances : Code) (symbol : Nat) (bits : Bits) : Option (Nat × Nat × Bits) := do
  let (length, bits) ← extended lengthBases (symbol - endSymbol - 1) bits
  let (symbol, bits) ← distances.decode bits
  let (distance, bits) ← extended distanceBases symbol bits
  pure (length, distance, bits)

/-- The symbols of a block, up to its end. -/
def readSymbols (literals distances : Code) : Nat → Bits → ByteArray → Option (Bits × ByteArray)
  | 0, _, _ => none
  | fuel + 1, bits, out =>
    match literals.decode bits with
    | none => none
    | some (symbol, bits) =>
      if symbol < endSymbol then readSymbols literals distances fuel bits (out.push symbol.toUInt8)
      else if symbol = endSymbol then some (bits, out)
      else
        match repetition distances symbol bits with
        | none => none
        | some (length, distance, bits) =>
          readSymbols literals distances fuel bits (copy distance length out)

/-- A stored block: a length, its complement, and as many bytes. -/
def readStored (bits : Bits) (out : ByteArray) : Option (Bits × ByteArray) := do
  let (length, bits) ← bits.align.take 16
  let (complement, bits) ← bits.take 16
  let start := bits.position / 8
  if length + complement = 0xffff ∧ start + length ≤ bits.data.size then
    pure (⟨bits.data, bits.position + 8 * length⟩,
      out ++ bits.data.extract start (start + length))
  else none

/-- Several numbers of `width` bits. -/
def takeMany (width : Nat) : Nat → Bits → Option (List Nat × Bits)
  | 0, bits => some ([], bits)
  | n + 1, bits => do
    let (x, bits) ← bits.take width
    let (xs, bits) ← takeMany width n bits
    pure (x :: xs, bits)

/-- Code lengths, up to a number of them, those read so far in reverse. The
symbols 16, 17 and 18 repeat the last length or a zero. -/
def readLengths (code : Code) (total : Nat) : Nat → List Nat → Bits → Option (List Nat × Bits)
  | 0, _, _ => none
  | fuel + 1, done, bits =>
    if done.length = total then some (done.reverse, bits)
    else if total < done.length then none
    else
      match code.decode bits with
      | none => none
      | some (symbol, bits) =>
        let repeated (value width least : Nat) : Option (List Nat × Bits) :=
          match bits.take width with
          | none => none
          | some (n, bits) =>
            readLengths code total fuel (List.replicate (least + n) value ++ done) bits
        if symbol < 16 then readLengths code total fuel (symbol :: done) bits
        else if symbol = 16 then
          match done with
          | [] => none
          | last :: _ => repeated last 2 3
        else if symbol = 17 then repeated 0 3 3
        else repeated 0 7 11

/-- **The codes of a block**: of literals and lengths, and of distances. -/
structure Codes where
  literals : Code
  distances : Code
deriving Inhabited

/-- The codes with these lengths of code words. -/
def Codes.ofLengths? (literals distances : List Nat) : Option Codes := do
  let literals ← Code.completeOrSparse? literals
  let distances ← Code.completeOrSparse? distances
  pure ⟨literals, distances⟩

/-- The codes that a block describes before its symbols. -/
def readCodes (bits : Bits) : Option (Codes × Bits) := do
  let (literalCount, bits) ← bits.take 5
  let (distanceCount, bits) ← bits.take 5
  let (lengthCount, bits) ← bits.take 4
  let literalCount := literalCount + 257
  let distanceCount := distanceCount + 1
  if 286 < literalCount ∨ 30 < distanceCount then none
  else
    let (given, bits) ← takeMany 3 (lengthCount + 4) bits
    let ordered := lengthOrder.zip given
    let lengths := (List.range 19).map (fun s => (ordered.lookup s).getD 0)
    let code ← Code.complete? lengths
    let total := literalCount + distanceCount
    let (all, bits) ← readLengths code total (total + 1) [] bits
    let codes ← Codes.ofLengths? (all.take literalCount) (all.drop literalCount)
    pure (codes, bits)

/-- The codes of a block of a kind, read from before its symbols if the kind
says so. -/
def codesOf (kind : Nat) (bits : Bits) : Option (Codes × Bits) :=
  match kind with
  | 1 => (Codes.ofLengths? fixedLiterals fixedDistances).map (fun codes => (codes, bits))
  | 2 => readCodes bits
  | _ => none

/-- A block of a kind. -/
def readBlock (kind : Nat) (bits : Bits) (out : ByteArray) : Option (Bits × ByteArray) :=
  match kind with
  | 0 => readStored bits out
  | _ =>
    match codesOf kind bits with
    | none => none
    | some (codes, bits) =>
      readSymbols codes.literals codes.distances (8 * bits.data.size + 1) bits out

/-- The blocks from the next one on, up to the last one. -/
def readBlocks : Nat → Bits → ByteArray → Option ByteArray
  | 0, _, _ => none
  | fuel + 1, bits, out => do
    let (last, bits) ← bits.take 1
    let (kind, bits) ← bits.take 2
    let (bits, out) ← readBlock kind bits out
    if last = 1 then some out else readBlocks fuel bits out

/-- **The bytes that compressed bytes stand for**, absent when they are
damaged. -/
def inflate? (data : ByteArray) : Option ByteArray :=
  readBlocks (8 * data.size + 1) ⟨data, 0⟩ ByteArray.empty

end ScratchLegacy.Archive.Inflate
