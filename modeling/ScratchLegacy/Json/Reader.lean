import ScratchLegacy.Json.Basic

/-!
# Reading JSON

A strict reader: no comments, no trailing commas, no text after the value, no
raw control characters in strings, no lone surrogates, no number beyond the
finite doubles, and at most `Json.maxDepth` arrays and objects inside one
another.

Each scanner takes a list of characters and returns what it read with the
rest. The readers of nested values carry a fuel that `Json.read?` computes
from the length of the text; two units per character are enough, because a
value costs one unit, its brackets another, and each takes a character.
-/

namespace ScratchLegacy.Json

/-- How many arrays and objects may be open at once. -/
def maxDepth : Nat := 127

/-- The four blanks JSON allows between tokens. -/
def isGap (c : Char) : Bool := c == ' ' || c == '\t' || c == '\n' || c == '\r'

/-- A text without the blanks at its beginning. -/
def skipGap (cs : List Char) : List Char := cs.dropWhile isGap

/-- The natural number a list of decimal digits denotes. -/
def decimalValue (digits : List Char) : Nat :=
  digits.foldl (fun n c => 10 * n + (c.toNat - '0'.toNat)) 0

/-- The value of a hexadecimal digit. -/
def hexDigit? (c : Char) : Option Nat :=
  if c.isDigit then some (c.toNat - '0'.toNat)
  else if 'a' ≤ c ∧ c ≤ 'f' then some (c.toNat - 'a'.toNat + 10)
  else if 'A' ≤ c ∧ c ≤ 'F' then some (c.toNat - 'A'.toNat + 10)
  else none

/-- The code unit four hexadecimal digits denote. -/
def codeUnit? (a b c d : Char) : Option Nat := do
  let a ← hexDigit? a
  let b ← hexDigit? b
  let c ← hexDigit? c
  let d ← hexDigit? d
  pure (((a * 16 + b) * 16 + c) * 16 + d)

/-- Whether a code unit is one half of a pair. -/
def isSurrogate (unit : Nat) : Bool := 0xd800 ≤ unit && unit ≤ 0xdfff

/-- The character that a high and a low surrogate denote together. -/
def surrogatePair? (high low : Nat) : Option Char :=
  if high ≤ 0xdbff ∧ 0xdc00 ≤ low ∧ low ≤ 0xdfff then
    some (Char.ofNat (0x10000 + (high - 0xd800) * 0x400 + (low - 0xdc00)))
  else none

/-- The character that a one-letter escape denotes. -/
def shortEscape? : Char → Option Char
  | '"' => some '"'
  | '\\' => some '\\'
  | '/' => some '/'
  | 'b' => some '\x08'
  | 'f' => some '\x0c'
  | 'n' => some '\n'
  | 'r' => some '\r'
  | 't' => some '\t'
  | _ => none

/-- A string up to its closing quote, the opening one already read. The
characters read so far are kept in reverse. A high surrogate needs a low one
right after it; every other surrogate is refused. -/
def readString? (done : List Char) : List Char → Option (String × List Char)
  | [] => none
  | '"' :: rest => some (String.ofList done.reverse, rest)
  | '\\' :: 'u' :: a :: b :: c :: d :: rest =>
    match codeUnit? a b c d with
    | none => none
    | some unit =>
      if isSurrogate unit then
        match rest with
        | '\\' :: 'u' :: a :: b :: c :: d :: rest =>
          match (codeUnit? a b c d).bind (surrogatePair? unit) with
          | some c => readString? (c :: done) rest
          | none => none
        | _ => none
      else readString? (Char.ofNat unit :: done) rest
  | '\\' :: e :: rest =>
    match shortEscape? e with
    | some c => readString? (c :: done) rest
    | none => none
  | c :: rest => if c.toNat < 0x20 ∨ c = '\\' then none else readString? (c :: done) rest

/-- The exponent of a number literal: absent, or `e` with an optional sign and
at least one digit. -/
def readExponent? (cs : List Char) : Option (Option Int × List Char) :=
  let digits (negative : Bool) (cs : List Char) : Option (Option Int × List Char) :=
    match cs.takeWhile Char.isDigit with
    | [] => none
    | ds =>
      let n : Int := decimalValue ds
      some (some (if negative then -n else n), cs.dropWhile Char.isDigit)
  match cs with
  | e :: rest =>
    if e = 'e' ∨ e = 'E' then
      match rest with
      | '+' :: rest => digits false rest
      | '-' :: rest => digits true rest
      | _ => digits false rest
    else some (none, cs)
  | [] => some (none, cs)

/-- The fraction of a number literal: absent, or a point with at least one
digit. -/
def readFraction? (cs : List Char) : Option (Option (List Char) × List Char) :=
  match cs with
  | '.' :: rest =>
    match rest.takeWhile Char.isDigit with
    | [] => none
    | ds => some (some ds, rest.dropWhile Char.isDigit)
  | _ => some (none, cs)

/-- The number that a literal denotes. It is an integer when it has neither
fraction nor exponent, is not `-0` and fits 64 bits; a double beyond the
finite range is refused. -/
def numberOf? (negative : Bool) (whole : List Char) (fraction : Option (List Char))
    (exponent : Option Int) : Option JsonNumber :=
  let integer : Int := if negative then -(decimalValue whole : Int) else decimalValue whole
  if fraction.isNone ∧ exponent.isNone ∧ -Number.signedBound ≤ integer
      ∧ integer < Number.unsignedBound ∧ ¬ (negative ∧ integer = 0) then
    some (.integer integer)
  else
    let decimals := fraction.getD []
    let x := Number.ofDecimal negative (decimalValue (whole ++ decimals))
      (exponent.getD 0 - decimals.length)
    if Number.isFinite x then some (.double x) else none

/-- A number literal. A leading zero stands alone. -/
def readNumber? (cs : List Char) : Option (JsonNumber × List Char) :=
  let unsigned (negative : Bool) (cs : List Char) : Option (JsonNumber × List Char) := do
    let whole := cs.takeWhile Char.isDigit
    let wellFormed : Bool :=
      match whole with
      | [] => false
      | ['0'] => true
      | '0' :: _ => false
      | _ => true
    if wellFormed then
      let (fraction, rest) ← readFraction? (cs.dropWhile Char.isDigit)
      let (exponent, rest) ← readExponent? rest
      let n ← numberOf? negative whole fraction exponent
      pure (n, rest)
    else none
  match cs with
  | '-' :: rest => unsigned true rest
  | _ => unsigned false cs

mutual

/-- A value, the blanks before it included; `depth` more arrays and objects
may be opened. -/
def readValue? : Nat → Nat → List Char → Option (Json × List Char)
  | 0, _, _ => none
  | fuel + 1, depth, cs =>
    match skipGap cs with
    | 'n' :: 'u' :: 'l' :: 'l' :: rest => some (.null, rest)
    | 't' :: 'r' :: 'u' :: 'e' :: rest => some (.bool true, rest)
    | 'f' :: 'a' :: 'l' :: 's' :: 'e' :: rest => some (.bool false, rest)
    | '"' :: rest => (readString? [] rest).map (fun r => (.text r.1, r.2))
    | '[' :: rest =>
      match depth with
      | 0 => none
      | depth + 1 =>
        match skipGap rest with
        | ']' :: rest => some (.array [], rest)
        | rest => readItems? fuel depth [] rest
    | '{' :: rest =>
      match depth with
      | 0 => none
      | depth + 1 =>
        match skipGap rest with
        | '}' :: rest => some (.object [], rest)
        | rest => readEntries? fuel depth [] rest
    | rest => (readNumber? rest).map (fun r => (.number r.1, r.2))

/-- The items of an array from the next one on, up to its closing bracket. The
items read so far are kept in reverse. -/
def readItems? : Nat → Nat → List Json → List Char → Option (Json × List Char)
  | 0, _, _, _ => none
  | fuel + 1, depth, done, cs =>
    match readValue? fuel depth cs with
    | none => none
    | some (item, rest) =>
      match skipGap rest with
      | ',' :: rest => readItems? fuel depth (item :: done) rest
      | ']' :: rest => some (.array (item :: done).reverse, rest)
      | _ => none

/-- The entries of an object from the next one on, up to its closing brace.
The entries read so far are kept in reverse. -/
def readEntries? : Nat → Nat → List (String × Json) → List Char → Option (Json × List Char)
  | 0, _, _, _ => none
  | fuel + 1, depth, done, cs =>
    match skipGap cs with
    | '"' :: rest =>
      match readString? [] rest with
      | none => none
      | some (key, rest) =>
        match skipGap rest with
        | ':' :: rest =>
          match readValue? fuel depth rest with
          | none => none
          | some (value, rest) =>
            match skipGap rest with
            | ',' :: rest => readEntries? fuel depth ((key, value) :: done) rest
            | '}' :: rest =>
              some (.object (Entries.ofWritings ((key, value) :: done).reverse), rest)
            | _ => none
        | _ => none
    | _ => none

end

/-- **The value that a text denotes**, absent when the text is not JSON. -/
def read? (text : String) : Option Json :=
  let cs := text.toList
  match readValue? (2 * cs.length + 2) maxDepth cs with
  | some (v, rest) => if skipGap rest = [] then some v else none
  | none => none

end ScratchLegacy.Json
