import ScratchLegacy.Json.Writer
import ScratchLegacy.Numeral

/-!
# Scalars

A variable, a list entry and the literal in a number slot hold a number, a
text or a truth value. Reading one from JSON never fails: `null` is the empty
text, and an array or an object is kept as its own JSON text.
-/

namespace ScratchLegacy

/-- **A stored value.** -/
inductive Scalar where
  | number (x : Float)
  | text (s : String)
  | boolean (b : Bool)
deriving DecidableEq, Inhabited

namespace Scalar

/-- The scalar that a stored JSON value holds. -/
def ofJson : Json → Scalar
  | .number n => number n.toFloat
  | .bool b => boolean b
  | .text s => text s
  | .null => text ""
  | v => text v.compact

/-- The JSON value of a scalar, numbers as the legacy format writes them. -/
def toJson : Scalar → Json
  | number x => Json.ofFloat x
  | text s => .text s
  | boolean b => .bool b

/-- The text of a scalar that is one. -/
def asText? : Scalar → Option String
  | text s => some s
  | _ => none

/-- A text as the number it denotes, or as it is. -/
def ofNumeral (s : String) : Scalar :=
  match Numeral.read? s with
  | some x => number x
  | none => text s

/-- **The literal of a number slot**: text is read as a numeral where it is
one, and a value that is no scalar is the empty text. -/
def ofLiteral : Option Json → Scalar
  | some (.number n) => number n.toFloat
  | some (.text s) => ofNumeral s
  | some (.bool b) => boolean b
  | _ => text ""

end Scalar

end ScratchLegacy
