import ScratchLegacy.Block
import ScratchLegacy.Text.Blank

/-!
# Proccodes

The label of a procedure is written with a *marker* `%n`, `%s` or `%b` in the
place of each parameter, as in `letter %n of %s`. A marker after a backslash
is no marker and stays in the label.

`Proccode.cut` splits a proccode at its markers into a first stretch of text
and, for each marker, its letter and the stretch after it. A stretch becomes
a label without its outer blanks, unless it is blank (`Proccode.tokens`).
-/

namespace ScratchLegacy.Proccode

/-- **A piece of a proccode**: the text of a label, or the letter of a
marker. -/
inductive Token where
  | label (text : List Char)
  | placeholder (letter : Char)
deriving DecidableEq, Inhabited

/-- The letters that make a marker. -/
def isLetter (c : Char) : Bool := c == 'n' || c == 's' || c == 'b'

/-- A text cut at markers: the stretch before the first marker, and the
letter of each marker with the stretch after it. -/
abbrev Cut := List Char × List (Char × List Char)

/-- A cut with a character put before its first stretch. -/
def Cut.cons (c : Char) (cut : Cut) : Cut := (c :: cut.1, cut.2)

/-- **A text cut at its markers.** -/
def cut : List Char → Cut
  | [] => ([], [])
  | '\\' :: '%' :: k :: rest =>
    if isLetter k then Cut.cons '\\' (Cut.cons '%' (Cut.cons k (cut rest)))
    else Cut.cons '\\' (cut ('%' :: k :: rest))
  | '%' :: k :: rest =>
    if isLetter k then
      let after := cut rest
      ([], (k, after.1) :: after.2)
    else Cut.cons '%' (cut (k :: rest))
  | c :: rest => Cut.cons c (cut rest)

/-- The label of a stretch, none when the stretch is blank. -/
def label (stretch : List Char) : List Token :=
  match Text.trim stretch with
  | [] => []
  | text => [.label text]

/-- **The pieces of a proccode**, in order. -/
def tokens (proccode : List Char) : List Token :=
  let pieces := cut proccode
  label pieces.1 ++ pieces.2.flatMap (fun m => .placeholder m.1 :: label m.2)

/-- The truth value of a default or of a flag: a boolean, or the text
`true`. -/
def truth : Option Json → Bool
  | some (.bool b) => b
  | some (.text s) => s = "true"
  | _ => false

/-- **The parameters of a signature**: the pieces of the proccode, where each
marker takes the next name and the next default. A missing name is empty. -/
def parameters : List Token → List String → List Json → List Parameter
  | [], _, _ => []
  | .label text :: rest, names, defaults =>
    .label (String.ofList text) :: parameters rest names defaults
  | .placeholder letter :: rest, names, defaults =>
    let name := names.headD ""
    let parameter : Parameter :=
      if letter = 'b' then .boolean name (truth defaults.head?)
      else .value name (Scalar.ofLiteral defaults.head?)
    parameter :: parameters rest names.tail defaults.tail

/-- The legacy spec of a piece: every parameter that is no boolean is written
`%s`. -/
def specWord : Parameter → String
  | .label text => text
  | .value .. => "%s"
  | .boolean .. => "%b"

/-- **The legacy spec of a signature**, such as `jump %s times %b`. -/
def spec (parameters : List Parameter) : String :=
  " ".intercalate (parameters.map specWord)

end ScratchLegacy.Proccode
