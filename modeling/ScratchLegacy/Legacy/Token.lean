import ScratchLegacy.Json.Basic

/-!
# Legacy tokens

The legacy format writes a block as an array: the name of an operation and
its arguments, which may be such arrays themselves. A stack of statements is
an array of these arrays, and in JSON nothing but its contents tells the two
apart. `Token` keeps them apart, and `Token.toJson` writes them.
-/

namespace ScratchLegacy.Legacy

/-- **A token of a legacy script.** -/
inductive Token where
  /-- A literal. -/
  | value (v : Json)
  /-- Several literals or expressions. -/
  | list (items : List Token)
  /-- Statements, from the first to the last. -/
  | stack (statements : List Token)
  /-- An operation and its arguments. -/
  | op (name : String) (arguments : List Token)
deriving Inhabited

namespace Token

/-- The literal `null`. -/
def null : Token := value .null

/-- A text literal. -/
def text (s : String) : Token := value (.text s)

/-- A truth value. -/
def bool (b : Bool) : Token := value (.bool b)

/-- A number literal. -/
def number (x : Float) : Token := value (Json.ofFloat x)

/-- A natural number. -/
def nat (n : Nat) : Token := value (Json.ofNat n)

mutual

/-- **The JSON value of a token.** -/
def toJson : Token → Json
  | .value v => v
  | .list items => .array (toJsonAll items)
  | .stack statements => .array (toJsonAll statements)
  | .op name arguments => .array (.text name :: toJsonAll arguments)

/-- The JSON values of several tokens. -/
def toJsonAll : List Token → List Json
  | [] => []
  | t :: rest => toJson t :: toJsonAll rest

end

mutual

/-- **The tokens that a token is made of**, itself first. -/
def parts : Token → List Token
  | .value v => [.value v]
  | .list items => .list items :: partsAll items
  | .stack statements => .stack statements :: partsAll statements
  | .op name arguments => .op name arguments :: partsAll arguments

/-- The tokens that several tokens are made of. -/
def partsAll : List Token → List Token
  | [] => []
  | t :: rest => parts t ++ partsAll rest

end

/-- Several tokens are written one by one. -/
theorem toJsonAll_eq_map (ts : List Token) : toJsonAll ts = ts.map toJson := by
  induction ts with
  | nil => rfl
  | cons t rest ih => simp [toJsonAll, ih]

end Token

/-- **A legacy script** at its place. -/
structure Script where
  x : Float
  y : Float
  statements : List Token
deriving Inhabited

/-- The JSON value of a script. -/
def Script.toJson (s : Script) : Json :=
  .array [Json.ofFloat s.x, Json.ofFloat s.y, (Token.stack s.statements).toJson]

end ScratchLegacy.Legacy
