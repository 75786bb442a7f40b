/-!
# Blank characters

A character is *blank* when it has the Unicode property `White_Space`. There
are twenty-five such characters, and text typed into a project can hold any
of them, so trimming by the ASCII blanks alone would keep a no-break space
that the editor treats as padding.

Texts are read as lists of characters here.
-/

namespace ScratchLegacy.Text

/-- The characters with the property `White_Space`, as ranges of code points
in ascending order. -/
def blankRanges : List (Nat × Nat) :=
  [(0x09, 0x0d), (0x20, 0x20), (0x85, 0x85), (0xa0, 0xa0), (0x1680, 0x1680),
   (0x2000, 0x200a), (0x2028, 0x2029), (0x202f, 0x202f), (0x205f, 0x205f),
   (0x3000, 0x3000)]

/-- Whether a character has the property `White_Space`. -/
def isBlank (c : Char) : Bool :=
  blankRanges.any (fun r => r.1 ≤ c.toNat && c.toNat ≤ r.2)

/-- A text without the blanks at its beginning. -/
def trimLeft (cs : List Char) : List Char := cs.dropWhile isBlank

/-- A text without the blanks at its end. -/
def trimRight (cs : List Char) : List Char := (trimLeft cs.reverse).reverse

/-- **A text without its outer blanks.** -/
def trim (cs : List Char) : List Char := trimRight (trimLeft cs)

/-- Every character the core library calls whitespace is blank. -/
theorem isBlank_of_isWhitespace {c : Char} (h : c.isWhitespace = true) :
    isBlank c = true := by
  simp only [Char.isWhitespace, Bool.or_eq_true, decide_eq_true_eq] at h
  rcases h with ((h | h) | h) | h <;> subst h <;> decide

/-- The table holds twenty-five characters. -/
example : (blankRanges.map (fun r => r.2 - r.1 + 1)).sum = 25 := by decide

end ScratchLegacy.Text
