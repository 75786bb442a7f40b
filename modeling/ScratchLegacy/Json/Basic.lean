import ScratchLegacy.Number.Shortest

/-!
# JSON values

A JSON object keeps its entries in the order in which they were written: the
order of the scripts, variables and lists of a project is the order of the
entries of some object. A key occurs once in an object that was read from a
text; a key that is written again keeps its place and takes the new value
(`Entries.put`).

A number is an integer or a double, and the two stay apart: `1` is an
integer, `1.0` is not.
-/

namespace ScratchLegacy

/-- **A JSON number**: an integer literal within 64 bits, or any other
literal read as a double. -/
inductive JsonNumber where
  /-- An integer between `-2 ^ 63` and `2 ^ 64 - 1`. -/
  | integer (n : Int)
  /-- A double. -/
  | double (x : Float)
deriving DecidableEq, Inhabited

/-- **A JSON value.** -/
inductive Json where
  | null
  | bool (b : Bool)
  | number (n : JsonNumber)
  | text (s : String)
  | array (items : List Json)
  | object (entries : List (String × Json))
deriving Inhabited

namespace Entries

variable {α : Type}

/-- The value under a key. -/
def find? (key : String) : List (String × α) → Option α
  | [] => none
  | (k, v) :: rest => if k = key then some v else find? key rest

/-- **Writing a key**: a known key keeps its place and takes the new value, a
new key goes to the end. -/
def put (key : String) (value : α) : List (String × α) → List (String × α)
  | [] => [(key, value)]
  | (k, v) :: rest => if k = key then (k, value) :: rest else (k, v) :: put key value rest

/-- The entries that remain of a sequence of writings. -/
def ofWritings (writings : List (String × α)) : List (String × α) :=
  writings.foldl (fun entries w => put w.1 w.2 entries) []

/-- Reading after writing: the written key has the new value, every other
key its old one. -/
theorem find?_put (key k : String) (value : α) (entries : List (String × α)) :
    find? k (put key value entries) = if key = k then some value else find? k entries := by
  induction entries with
  | nil => simp [put, find?]
  | cons e rest ih =>
    by_cases h : e.1 = key <;> by_cases hk : e.1 = k <;> by_cases hkk : key = k <;>
      simp_all [put, find?]

/-- A value that is found under a key is one of the entries. -/
theorem mem_of_find? {key : String} {value : α} {entries : List (String × α)}
    (h : find? key entries = some value) : (key, value) ∈ entries := by
  induction entries with
  | nil => cases h
  | cons e rest ih =>
    unfold find? at h
    split at h
    · next heq =>
      cases h
      exact heq ▸ List.mem_cons_self
    · exact List.mem_cons_of_mem _ (ih h)

/-- Writing a known key changes no key, a new key is added at the end. -/
theorem map_fst_put (key : String) (value : α) (entries : List (String × α)) :
    (put key value entries).map Prod.fst
      = if key ∈ entries.map Prod.fst then entries.map Prod.fst
        else entries.map Prod.fst ++ [key] := by
  induction entries with
  | nil => simp [put]
  | cons e rest ih =>
    by_cases h : e.1 = key
    · simp [put, h]
    · by_cases hm : key ∈ rest.map Prod.fst <;> simp [put, h, Ne.symm h, ih, hm]

end Entries

namespace JsonNumber

/-- The double a number stands for. -/
def toFloat : JsonNumber → Float
  | integer n => Number.ofInt n
  | double x => x

/-- The number as an unsigned 64-bit integer; a double is none. -/
def toNat? : JsonNumber → Option Nat
  | integer n => if 0 ≤ n ∧ n < Number.unsignedBound then some n.toNat else none
  | double _ => none

/-- The number as a signed 64-bit integer; a double is none. -/
def toInt? : JsonNumber → Option Int
  | integer n => if -Number.signedBound ≤ n ∧ n < Number.signedBound then some n else none
  | double _ => none

/-- The text of a number. JSON has no infinity and no NaN, so these are
written as `null`. -/
def render : JsonNumber → String
  | integer n => if n < 0 then "-" ++ String.ofList (Nat.toDigits 10 n.natAbs)
      else String.ofList (Nat.toDigits 10 n.natAbs)
  | double x => (Number.text? x).getD "null"

end JsonNumber

namespace Json

/-- The value under a key of an object, absent for every other value. -/
def get? : Json → String → Option Json
  | object entries, key => Entries.find? key entries
  | _, _ => none

/-- The text of a string value. -/
def asText? : Json → Option String
  | text s => some s
  | _ => none

/-- The truth value of a boolean. -/
def asBool? : Json → Option Bool
  | bool b => some b
  | _ => none

/-- The items of an array. -/
def asArray? : Json → Option (List Json)
  | array items => some items
  | _ => none

/-- The entries of an object. -/
def asObject? : Json → Option (List (String × Json))
  | object entries => some entries
  | _ => none

/-- The double a number stands for. -/
def asFloat? : Json → Option Float
  | number n => some n.toFloat
  | _ => none

/-- The unsigned 64-bit integer a number is. -/
def asNat? : Json → Option Nat
  | number n => n.toNat?
  | _ => none

/-- The signed 64-bit integer a number is. -/
def asInt? : Json → Option Int
  | number n => n.toInt?
  | _ => none

/-- The value of a double: infinities and NaN have no number and are `null`. -/
def ofDouble (x : Float) : Json :=
  if Number.isFinite x then .number (.double x) else .null

/-- The value of a natural number. -/
def ofNat (n : Nat) : Json := .number (.integer n)

/-- **A double as the legacy format writes it**: an integral value below
`2 ^ 53` as an integer, so that `10.0` is written `10`; any other finite
value as a double; an infinity or NaN as `null`. -/
def ofFloat (x : Float) : Json :=
  match Number.toInt? x with
  | some n => if n.natAbs < Number.exactBound then .number (.integer n) else ofDouble x
  | none => ofDouble x

/-- The value of an optional part, `null` when it is absent. -/
def ofOption {α : Type} (f : α → Json) : Option α → Json
  | some a => f a
  | none => .null

/-- The flag under a key, `false` when it is absent or not a boolean. -/
def flag (v : Json) (key : String) : Bool := ((v.get? key).bind asBool?).getD false

/-- The number under a key, or a default. -/
def floatOr (v : Json) (key : String) (default : Float) : Float :=
  ((v.get? key).bind asFloat?).getD default

/-- **The text of a scalar**: a string as it is, a number and a boolean as
they are written, and the empty text for everything else. -/
def scalarText : Json → String
  | text s => s
  | number n => n.render
  | bool b => if b then "true" else "false"
  | _ => ""

/-- The text of an optional scalar, empty when it is absent. -/
def scalarText? (v? : Option Json) : String := (v?.map scalarText).getD ""

/-- The items of an optional array, none when it is absent or no array. -/
def items (v? : Option Json) : List Json := (v?.bind asArray?).getD []

/-- The entries of an optional object, none when it is absent or no object. -/
def entries (v? : Option Json) : List (String × Json) := (v?.bind asObject?).getD []

end Json

end ScratchLegacy
