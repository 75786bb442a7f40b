import ScratchLegacy.Json.Basic

/-!
# Writing JSON

Two layouts of the same tokens: the compact one has no blanks at all, the
pretty one puts every item and entry on a line of its own, indented by two
spaces per level, with empty containers kept together.

The writers take the text written so far and return it extended, so that a
large document is built in one pass.
-/

namespace ScratchLegacy.Json

/-- A hexadecimal digit, in lower case. -/
def hexChar (n : Nat) : Char := (Nat.toDigits 16 n).headD '0'

/-- A character inside a string literal: the quote, the backslash and the
control characters are escaped, everything else stands for itself. -/
def escape (c : Char) : List Char :=
  if c = '"' then ['\\', '"']
  else if c = '\\' then ['\\', '\\']
  else if c = '\x08' then ['\\', 'b']
  else if c = '\x0c' then ['\\', 'f']
  else if c = '\n' then ['\\', 'n']
  else if c = '\r' then ['\\', 'r']
  else if c = '\t' then ['\\', 't']
  else if c.toNat < 0x20 then
    ['\\', 'u', '0', '0', hexChar (c.toNat / 16), hexChar (c.toNat % 16)]
  else [c]

/-- A text followed by the string literal of another. -/
def writeString (out s : String) : String :=
  (s.toList.foldl (fun out c => (escape c).foldl String.push out) (out.push '"')).push '"'

mutual

/-- A text followed by a value, without blanks. -/
def writeCompact (out : String) : Json → String
  | .null => out ++ "null"
  | .bool b => out ++ (if b then "true" else "false")
  | .number n => out ++ n.render
  | .text s => writeString out s
  | .array items => (writeItems (out.push '[') items).push ']'
  | .object entries => (writeEntries (out.push '\x7b') entries).push '\x7d'

/-- The items of an array, separated by commas. -/
def writeItems (out : String) : List Json → String
  | [] => out
  | [v] => writeCompact out v
  | v :: rest => writeItems ((writeCompact out v).push ',') rest

/-- The entries of an object, separated by commas. -/
def writeEntries (out : String) : List (String × Json) → String
  | [] => out
  | [(k, v)] => writeCompact ((writeString out k).push ':') v
  | (k, v) :: rest =>
    writeEntries ((writeCompact ((writeString out k).push ':') v).push ',') rest

end

/-- A line break and the indentation of a level. -/
def newLine (out : String) (level : Nat) : String :=
  (List.replicate (2 * level) ' ').foldl String.push (out.push '\n')

mutual

/-- A text followed by a value laid out on several lines, at a level. -/
def writePretty (out : String) (level : Nat) : Json → String
  | .null => out ++ "null"
  | .bool b => out ++ (if b then "true" else "false")
  | .number n => out ++ n.render
  | .text s => writeString out s
  | .array [] => out ++ "[]"
  | .array items =>
    (newLine (writeItemLines (out.push '[') (level + 1) items) level).push ']'
  | .object [] => (out.push '\x7b').push '\x7d'
  | .object entries =>
    (newLine (writeEntryLines (out.push '\x7b') (level + 1) entries) level).push '\x7d'

/-- The items of an array, each on its line. -/
def writeItemLines (out : String) (level : Nat) : List Json → String
  | [] => out
  | [v] => writePretty (newLine out level) level v
  | v :: rest =>
    writeItemLines ((writePretty (newLine out level) level v).push ',') level rest

/-- The entries of an object, each on its line. -/
def writeEntryLines (out : String) (level : Nat) : List (String × Json) → String
  | [] => out
  | [(k, v)] => writePretty (writeString (newLine out level) k ++ ": ") level v
  | (k, v) :: rest =>
    writeEntryLines ((writePretty (writeString (newLine out level) k ++ ": ") level v).push ',')
      level rest

end

/-- **The compact text of a value.** -/
def compact (v : Json) : String := writeCompact "" v

/-- **The pretty text of a value.** -/
def pretty (v : Json) : String := writePretty "" 0 v

end ScratchLegacy.Json
