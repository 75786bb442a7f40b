import ScratchLegacy.Number.Exact
import ScratchLegacy.Text.Blank

/-!
# Numerals

Text typed into a number slot is stored as text, and read as a number where
it denotes one. A numeral is, blanks around it aside,

* an optional sign and `Infinity`,
* `0x` or `0X` and a 64-bit number in base sixteen, or
* an optional sign and a decimal literal: digits with at most one point and
  at least one digit, then optionally `e` or `E`, an optional sign and at
  least one digit.

`Numeral.read?` reads one; blank text and all other text is no number.
-/

namespace ScratchLegacy.Numeral

/-- The value of a digit in a base up to sixteen. -/
def digit? (base : Nat) (c : Char) : Option Nat :=
  let value? : Option Nat :=
    if '0' ≤ c ∧ c ≤ '9' then some (c.toNat - '0'.toNat)
    else if 'a' ≤ c ∧ c ≤ 'f' then some (c.toNat - 'a'.toNat + 10)
    else if 'A' ≤ c ∧ c ≤ 'F' then some (c.toNat - 'A'.toNat + 10)
    else none
  value?.bind (fun n => if n < base then some n else none)

/-- The number that a non-empty list of digits denotes. -/
def digits? (base : Nat) (cs : List Char) : Option Nat :=
  match cs with
  | [] => none
  | cs => cs.foldl (fun n? c => n?.bind fun n => (digit? base c).map (base * n + ·)) (some 0)

/-- **An unsigned number within bounds**: digits, with an optional plus sign
before them, whose value is below `bound`. -/
def unsigned? (base bound : Nat) (cs : List Char) : Option Nat :=
  let body :=
    match cs with
    | '+' :: rest => rest
    | _ => cs
  (digits? base body).bind (fun n => if n < bound then some n else none)

/-- A sign. -/
def isSign (c : Char) : Bool := c == '+' || c == '-'

/-- The characters that occur in a decimal literal. -/
def isDecimalChar (c : Char) : Bool :=
  c.isDigit || c == '.' || c == 'e' || c == 'E' || isSign c

/-- The exponent at the end of a decimal literal: nothing, or `e` with an
optional sign and at least one digit. -/
def exponent? (cs : List Char) : Option Int :=
  match cs with
  | [] => some 0
  | e :: rest =>
    if e = 'e' ∨ e = 'E' then
      match rest with
      | '-' :: ds => (digits? 10 ds).map (fun n => -(n : Int))
      | '+' :: ds => (digits? 10 ds).map (fun n => (n : Int))
      | ds => (digits? 10 ds).map (fun n => (n : Int))
    else none

/-- The double that an unsigned decimal literal denotes. -/
def magnitude? (negative : Bool) (cs : List Char) : Option Float :=
  let whole := cs.takeWhile Char.isDigit
  let rest := cs.dropWhile Char.isDigit
  let (decimals, rest) :=
    match rest with
    | '.' :: rest => (rest.takeWhile Char.isDigit, rest.dropWhile Char.isDigit)
    | _ => ([], rest)
  match digits? 10 (whole ++ decimals), exponent? rest with
  | some mantissa, some exponent =>
    some (Number.ofDecimal negative mantissa (exponent - decimals.length))
  | _, _ => none

/-- The double that a decimal literal denotes, its sign included. -/
def decimal? (cs : List Char) : Option Float :=
  match cs with
  | '-' :: rest => magnitude? true rest
  | '+' :: rest => magnitude? false rest
  | _ => magnitude? false cs

/-- The double that a trimmed text denotes. -/
def readTrimmed? (cs : List Char) : Option Float :=
  let body := cs.dropWhile isSign
  if cs = [] then none
  else if body.length + 1 < cs.length then none
  else if body = "Infinity".toList then
    some (if cs.head? = some '-' then -(1 / 0) else 1 / 0)
  else
    match cs with
    | '0' :: 'x' :: hex => (unsigned? 16 Number.unsignedBound hex).map (fun n => Number.ofInt n)
    | '0' :: 'X' :: hex => (unsigned? 16 Number.unsignedBound hex).map (fun n => Number.ofInt n)
    | _ => if body.all isDecimalChar then decimal? cs else none

/-- **The number that a text denotes**, if it is a numeral. -/
def read? (text : String) : Option Float := readTrimmed? (Text.trim text.toList)

end ScratchLegacy.Numeral
