/-!
# The format of compressed bytes

Compressed bytes are a sequence of blocks of bits. A block is stored, or it is
a sequence of symbols of a prefix code: a literal byte, the end of the block,
or a length, which the symbol of a distance follows in a code of its own. What
reading and writing have in common is here: how symbols stand for lengths and
distances, the codes that need no description, and the order in which a
description gives the lengths of its own code.
-/

namespace ScratchLegacy.Archive.Deflate

/-- The symbol for the end of a block. Those below it are the literals, those
above it the lengths. -/
def endSymbol : Nat := 256

/-- The least length that a length symbol stands for, and how many more bits
are added to it; the symbols count from 257. -/
def lengthBases : Array (Nat × Nat) :=
  #[(3, 0), (4, 0), (5, 0), (6, 0), (7, 0), (8, 0), (9, 0), (10, 0), (11, 1), (13, 1), (15, 1),
    (17, 1), (19, 2), (23, 2), (27, 2), (31, 2), (35, 3), (43, 3), (51, 3), (59, 3), (67, 4),
    (83, 4), (99, 4), (115, 4), (131, 5), (163, 5), (195, 5), (227, 5), (258, 0)]

/-- The least distance that a distance symbol stands for, and how many more
bits are added to it. -/
def distanceBases : Array (Nat × Nat) :=
  #[(1, 0), (2, 0), (3, 0), (4, 0), (5, 1), (7, 1), (9, 2), (13, 2), (17, 3), (25, 3), (33, 4),
    (49, 4), (65, 5), (97, 5), (129, 6), (193, 6), (257, 7), (385, 7), (513, 8), (769, 8),
    (1025, 9), (1537, 9), (2049, 10), (3073, 10), (4097, 11), (6145, 11), (8193, 12),
    (12289, 12), (16385, 13), (24577, 13)]

/-- The code of literals and lengths that needs no description. -/
def fixedLiterals : List Nat :=
  List.replicate 144 8 ++ List.replicate 112 9 ++ List.replicate 24 7 ++ List.replicate 8 8

/-- The code of distances that needs no description. -/
def fixedDistances : List Nat := List.replicate 32 5

/-- The order in which the lengths of the code for code lengths are given. -/
def lengthOrder : List Nat := [16, 17, 18, 0, 8, 7, 9, 6, 10, 5, 11, 4, 12, 3, 13, 2, 14, 1, 15]

end ScratchLegacy.Archive.Deflate
