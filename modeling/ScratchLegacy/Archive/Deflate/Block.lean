import ScratchLegacy.Archive.Deflate.BitWriter
import ScratchLegacy.Archive.Deflate.CodeLengths
import ScratchLegacy.Archive.Deflate.Format
import ScratchLegacy.Archive.Deflate.Item

/-!
# Writing blocks

The items of a block are written in code words. A small block uses the codes
that need no description, a larger one codes of its own, whose lengths of
words precede it (`CodePair.describe`). Where this makes a block no shorter,
its bytes are stored instead (`Block.write`).
-/

namespace ScratchLegacy.Archive.Deflate

/-! ## Symbols -/

/-- **A symbol with the bits added to it.** -/
structure ExtendedSymbol where
  symbol : Nat
  extra : Nat
  width : Nat
deriving DecidableEq, Inhabited

/-- The last of some bases that is not above a number, as a symbol. -/
def classify (bases : Array (Nat × Nat)) (n : Nat) : ExtendedSymbol :=
  (bases.foldl
    (fun (next, (e : ExtendedSymbol)) base =>
      (next + 1, if base.1 ≤ n then ⟨next, n - base.1, base.2⟩ else e))
    (0, ⟨0, 0, 0⟩)).2

/-- The symbol of a length. -/
def lengthSymbol (length : Nat) : ExtendedSymbol :=
  let e := classify lengthBases length
  { e with symbol := endSymbol + 1 + e.symbol }

/-- The symbol of a distance. -/
def distanceSymbol (distance : Nat) : ExtendedSymbol := classify distanceBases distance

/-! ## Codes -/

/-- **How often each symbol occurs**: literals and lengths, and distances. -/
structure Occurrences where
  literals : Array Nat
  distances : Array Nat
deriving Inhabited

/-- One more occurrence of a symbol. -/
def increment (counts : Array Nat) (symbol : Nat) : Array Nat := counts.modify symbol (· + 1)

namespace Occurrences

/-- The end of a block occurs in any. -/
def initial : Occurrences := ⟨increment (Array.replicate 288 0) endSymbol, Array.replicate 32 0⟩

/-- The occurrences with those of an item. -/
def add (o : Occurrences) : Item → Occurrences
  | .literal byte => { o with literals := increment o.literals byte.toNat }
  | .repetition length distance =>
    ⟨increment o.literals (lengthSymbol length).symbol,
      increment o.distances (distanceSymbol distance).symbol⟩

end Occurrences

/-- **The lengths of the words of a code of literals and lengths, and of a code
of distances.** -/
structure CodePair where
  literals : Array Nat
  distances : Array Nat
deriving Inhabited

/-- A number of a description of code lengths: a length, or a repetition of
lengths with the bits added to it. -/
abbrev PackedLength := ExtendedSymbol

/-- A length that stands for itself. -/
def plainLength (length : Nat) : PackedLength := ⟨length, 0, 0⟩

/-- Zeros in a row. -/
def packZeros (n : Nat) : List PackedLength :=
  let rest := n % 138
  List.replicate (n / 138) ⟨18, 127, 7⟩ ++
    (if rest < 3 then List.replicate rest (plainLength 0)
    else if rest ≤ 10 then [⟨17, rest - 3, 3⟩]
    else [⟨18, rest - 11, 7⟩])

/-- A length that occurs again some more times in a row. -/
def packRepeated (length n : Nat) : List PackedLength :=
  let rest := n % 6
  List.replicate (n / 6) ⟨16, 3, 2⟩ ++
    (if rest < 3 then List.replicate rest (plainLength length) else [⟨16, rest - 3, 2⟩])

/-- A length that occurs a number of times in a row. -/
def packRun (length n : Nat) : List PackedLength :=
  if length = 0 then packZeros n else plainLength length :: packRepeated length (n - 1)

/-- Equal numbers in a row, with how many there are. -/
def runs : List Nat → List (Nat × Nat)
  | [] => []
  | x :: xs =>
    match runs xs with
    | (y, n) :: rest => if x = y then (y, n + 1) :: rest else (x, 1) :: (y, n) :: rest
    | [] => [(x, 1)]

/-- **Lengths of words, packed.** -/
def packLengths (lengths : List Nat) : List PackedLength :=
  (runs lengths).flatMap (fun run => packRun run.1 run.2)

/-- A list without the zeros at its end, but not shorter than some length. -/
def trimmed (least : Nat) (numbers : List Nat) : List Nat :=
  numbers.take least ++ ((numbers.drop least).reverse.dropWhile (· = 0)).reverse

/-- The word of a symbol written. -/
def BitWriter.putWord (w : BitWriter) (words : Array Word) (symbol : Nat) : BitWriter :=
  match words[symbol]? with
  | some word => w.put word.bits word.length
  | none => w

/-- The word of a symbol written, with the bits added to it. -/
def BitWriter.putSymbol (w : BitWriter) (words : Array Word) (e : ExtendedSymbol) : BitWriter :=
  (w.putWord words e.symbol).put e.extra e.width

namespace CodePair

/-- The codes that need no description. -/
def fixed : CodePair := ⟨fixedLiterals.toArray, fixedDistances.toArray⟩

/-- The codes for symbols that occur this often. -/
def ofOccurrences (o : Occurrences) : CodePair :=
  ⟨codeLengths 15 o.literals, codeLengths 15 o.distances⟩

/-- The description of codes written: the lengths of the words, in a code of
their own, whose lengths precede them. -/
def describe (c : CodePair) (w : BitWriter) : BitWriter :=
  let literals := trimmed 257 (c.literals.toList.take 286)
  let distances := trimmed 1 (c.distances.toList.take 30)
  let packed := packLengths (literals ++ distances)
  let lengths := codeLengths 7
    (packed.foldl (fun counts e => increment counts e.symbol) (Array.replicate 19 0))
  let ordered := trimmed 4 (lengthOrder.map (fun symbol => lengths.getD symbol 0))
  let own := words lengths
  let w := ((w.put (literals.length - 257) 5).put (distances.length - 1) 5).put
    (ordered.length - 4) 4
  let w := ordered.foldl (fun w length => w.put length 3) w
  packed.foldl (fun w e => w.putSymbol own e) w

end CodePair

/-! ## Blocks -/

/-- **A block**: its items, and where the bytes are that they stand for. -/
structure Block where
  items : Array Item
  start : Nat
  size : Nat
  /-- Whether the bytes may be stored. -/
  mayStore : Bool
  isLast : Bool
deriving Inhabited

namespace Block

/-- The kind of a stored block, of one with fixed codes, and of one with codes
of its own. -/
def storedKind : Nat := 0

@[inherit_doc storedKind]
def fixedKind : Nat := 1

@[inherit_doc storedKind]
def ownKind : Nat := 2

/-- A block with fewer bytes uses the fixed codes. -/
def leastOwnSize : Nat := 48

/-- A block with no more bytes is never stored. -/
def leastStoredSize : Nat := 32

/-- An item written. -/
def writeItem (literals distances : Array Word) (w : BitWriter) : Item → BitWriter
  | .literal byte => w.putWord literals byte.toNat
  | .repetition length distance =>
    (w.putSymbol literals (lengthSymbol length)).putSymbol distances (distanceSymbol distance)

/-- Items written in some codes, with the end of the block. -/
def writeItems (items : Array Item) (c : CodePair) (w : BitWriter) : BitWriter :=
  let literals := words c.literals
  let distances := words c.distances
  (items.foldl (writeItem literals distances) w).putWord literals endSymbol

/-- The items of a block written, in the codes for them. -/
def writeCoded (b : Block) (w : BitWriter) : BitWriter :=
  if b.size < leastOwnSize then writeItems b.items .fixed (w.put fixedKind 2)
  else
    let codes := CodePair.ofOccurrences (b.items.foldl Occurrences.add .initial)
    writeItems b.items codes (codes.describe (w.put ownKind 2))

/-- The bytes of a block written as they are. -/
def writeStored (b : Block) (data : ByteArray) (w : BitWriter) : BitWriter :=
  let size := b.size % 65536
  (((w.put storedKind 2).pad.put size 16).put (65535 - size) 16).append
    (data.extract b.start (b.start + b.size))

/-- **A block written**, stored where it becomes no shorter in code words. -/
def write (data : ByteArray) (w : BitWriter) (b : Block) : BitWriter :=
  let w := w.put (if b.isLast then 1 else 0) 1
  let coded := b.writeCoded { w with bytes := ByteArray.empty }
  if b.mayStore ∧ leastStoredSize < b.size ∧ b.size ≤ coded.bytes.size + 1 then b.writeStored data w
  else { coded with bytes := w.bytes ++ coded.bytes }

end Block

end ScratchLegacy.Archive.Deflate
