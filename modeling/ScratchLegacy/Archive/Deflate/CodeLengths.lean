/-!
# The lengths of code words

A prefix code is short where symbols that occur often have short words.
`codeLengths` finds such lengths from how often each symbol occurs: the two
trees of symbols that occur least are joined until one is left, and the depth
of a symbol in it is the length of its word. Words that would be too long are
made shorter at the cost of others (`limited`).

For a tree it matters only how many symbols it has at each depth: the deepest
places go to the symbols that occur least.
-/

namespace ScratchLegacy.Archive.Deflate

/-- **A tree of symbols**: how often they occur together, and how many there
are at each depth. -/
structure SymbolTree where
  weight : Nat
  depths : List Nat
deriving Inhabited

namespace SymbolTree

/-- A single symbol. -/
def leaf (count : Nat) : SymbolTree := ⟨count, [1]⟩

/-- The sums of two lists of numbers, of which the shorter one continues with
zeros. -/
def sums : List Nat → List Nat → List Nat
  | [], ys => ys
  | xs, [] => xs
  | x :: xs, y :: ys => (x + y) :: sums xs ys

/-- Two trees under a new root. -/
def join (a b : SymbolTree) : SymbolTree := ⟨a.weight + b.weight, 0 :: sums a.depths b.depths⟩

/-- The lightest of two ascending lists of trees, and what is left of them. Of
two trees that weigh the same, the one from the first list is taken. -/
def lightest? : List SymbolTree → List SymbolTree →
    Option (SymbolTree × List SymbolTree × List SymbolTree)
  | [], [] => none
  | a :: as, [] => some (a, as, [])
  | [], b :: bs => some (b, [], bs)
  | a :: as, b :: bs => if b.weight < a.weight then some (b, a :: as, bs) else some (a, as, b :: bs)

/-- Single symbols, ascending, and trees joined so far, joined into one tree.
A tree that is joined later is no lighter, so those joined so far ascend as
well. Each time there is one tree less. -/
def joinAll : Nat → List SymbolTree → List SymbolTree → Option SymbolTree
  | 0, _, _ => none
  | fuel + 1, leaves, joined =>
    match lightest? leaves joined with
    | none => none
    | some (a, leaves, joined) =>
      match lightest? leaves joined with
      | none => some a
      | some (b, leaves, joined) => joinAll fuel leaves (joined ++ [a.join b])

end SymbolTree

/-- Numbers of words by length, the longest first, with one of the longest
less: the longest of the others is made longer, to share its place with
it. -/
def shareLonger : List Nat → List Nat
  | a :: b :: rest => if b = 0 then a :: shareLonger (b :: rest) else (a + 2) :: (b - 1) :: rest
  | counts => counts

/-- One of the longest words given up for a place beside another. -/
def shorten : List Nat → List Nat
  | a :: rest => shareLonger ((a - 1) :: rest)
  | [] => []

/-- How much of a code space of `limit` bits words use up, by their numbers for
each length from one on. -/
def spaceUsed (counts : List Nat) : Nat := counts.foldl (fun used n => 2 * used + n) 0

/-- The numbers of words for each length up to a limit, the longest first, from
those for each length from one on. Words that are too long get the greatest
length, and are then shortened until they fit. -/
def limited (limit : Nat) (counts : List Nat) : List Nat :=
  let padded := counts ++ List.replicate limit 0
  let fitting := padded.take (limit - 1)
  let longest := (padded.drop (limit - 1)).foldl (· + ·) 0
  let counts := fitting ++ [longest]
  Nat.repeat shorten (spaceUsed counts - Nat.pow 2 limit) counts.reverse

/-- **The lengths of the code words of symbols**, zero for those that do not
occur, from how often each occurs. A single symbol has a word of one bit. -/
def codeLengths (limit : Nat) (occurrences : Array Nat) : Array Nat :=
  let used := (occurrences.toList.zipIdx.filter (fun e => e.1 ≠ 0)).mergeSort
    (fun a b => a.1 ≤ b.1)
  let zeros := Array.replicate occurrences.size 0
  match used with
  | [] => zeros
  | [(_, symbol)] => zeros.setIfInBounds symbol 1
  | _ =>
    match SymbolTree.joinAll used.length (used.map (fun e => SymbolTree.leaf e.1)) [] with
    | none => zeros
    | some tree =>
      let lengths := (limited limit tree.depths.tail).zipIdx.flatMap
        (fun e => List.replicate e.1 (limit - e.2))
      (used.zip lengths).foldl (fun all e => all.setIfInBounds e.1.2 e.2) zeros

/-! ## Words -/

/-- The lowest `width` bits of a number in reverse order. -/
def reversed : Nat → Nat → Nat
  | 0, _ => 0
  | width + 1, n => reversed width (n / 2) + (n % 2) <<< width

/-- **A code word**, its first bit the lowest. -/
structure Word where
  bits : Nat
  length : Nat
deriving Inhabited

/-- The words of the symbols of one length, with the next word. -/
def wordsOfLength (length : Nat) (symbols : List Nat) (first : Nat) (words : Array Word) :
    Nat × Array Word :=
  symbols.foldl
    (fun (next, words) symbol =>
      (next + 1, words.setIfInBounds symbol ⟨reversed length next, length⟩))
    (first, words)

/-- **The words of a code**, from the lengths of its words. Those of one length
are consecutive numbers, and begin behind those that are shorter. -/
def words (lengths : Array Nat) : Array Word :=
  let indexed := lengths.toList.zipIdx
  ((List.range 15).foldl
    (fun (first, words) n =>
      let symbols := (indexed.filter (fun e => e.1 = n + 1)).map Prod.snd
      let (next, words) := wordsOfLength (n + 1) symbols first words
      (2 * next, words))
    (0, Array.replicate lengths.size ⟨0, 0⟩)).2

end ScratchLegacy.Archive.Deflate
