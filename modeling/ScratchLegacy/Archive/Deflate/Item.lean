/-!
# Literals and repetitions

Before bytes are written in code words, they are taken apart into items: bytes
that stand for themselves, and repetitions of bytes that came before.

A repetition is searched for along a chain of earlier places (`links`): three
bytes lead to the last place where bytes with the same mark (`mark`) were, and
that place leads to the one before it. The search gives up after some number
of places (`Search.tries`), or when a place is out of the window.

A repetition that is found is not taken at once: where a longer one begins at
the next byte, the byte is a literal and the longer one is looked at instead
(`advance`).
-/

namespace ScratchLegacy.Archive.Deflate

/-- **What bytes are taken apart into.** -/
inductive Item where
  | literal (byte : UInt8)
  | repetition (length distance : Nat)
deriving DecidableEq, Inhabited

/-- The number of bytes that an item stands for. -/
def Item.size : Item → Nat
  | literal _ => 1
  | repetition length _ => length

/-- The least number of bytes worth a repetition. -/
def minLength : Nat := 3

/-- The greatest number of bytes of a repetition. -/
def maxLength : Nat := 258

/-- How far a repetition reaches back at most. -/
def windowSize : Nat := 32768

/-- A byte, zero where there is none. -/
def byteAt (data : ByteArray) (position : Nat) : UInt8 :=
  if h : position < data.size then data[position] else 0

/-! ## Chains -/

/-- The number of marks. -/
def markCount : Nat := 32768

/-- The mark of three bytes. Places with different marks differ. -/
def mark (a b c : UInt8) : Nat :=
  ((a.toNat <<< 10) ^^^ (b.toNat <<< 5) ^^^ c.toNat) % markCount

/-- The links from some place on: `heads` holds the last place of each mark. -/
def linksFrom (data : ByteArray) : Nat → Nat → Array Nat → Array Nat → Array Nat
  | 0, _, _, links => links
  | n + 1, position, heads, links =>
    let m := mark (byteAt data position) (byteAt data (position + 1)) (byteAt data (position + 2))
    let earlier := heads.getD m 0
    linksFrom data n (position + 1) (heads.setIfInBounds m position) (links.push earlier)

/-- **For each place, the last one before it with the same mark.** Zero is the
end of a chain, so the very first place is never found. -/
def links (data : ByteArray) : Array Nat :=
  linksFrom data (data.size - 2) 0 (Array.replicate markCount 0)
    (Array.emptyWithCapacity data.size)

/-! ## Searching -/

/-- **A repetition that has been found**; without one, the distance is zero,
and the length the one that is to be exceeded. -/
structure Found where
  length : Nat
  distance : Nat
deriving DecidableEq, Inhabited

/-- **What is searched**: the bytes with their links, the place that a
repetition is searched for, and how far back and how long it may be. -/
structure Search where
  data : ByteArray
  links : Array Nat
  position : Nat
  maxDistance : Nat
  room : Nat
deriving Inhabited

/-- **Where a few links lead.** -/
inductive Probe where
  /-- To the end of the chain. -/
  | ended
  /-- To a place where no longer repetition can begin. -/
  | missed (place : Nat)
  /-- To a place this far back where one may begin. -/
  | hit (distance : Nat)
deriving DecidableEq, Inhabited

namespace Search

/-- How many times three links are tried: fewer when a long repetition is known
already. -/
def tries (found : Found) : Nat := if 32 ≤ found.length then 11 else 43

/-- Whether the bytes at a place agree with those searched for where it matters
for a longer repetition: in the last byte of the known one and the byte
behind it. -/
def agrees (s : Search) (found : Found) (place : Nat) : Bool :=
  byteAt s.data (place + found.length) = byteAt s.data (s.position + found.length) &&
    byteAt s.data (place + found.length - 1) = byteAt s.data (s.position + found.length - 1)

/-- The next links from a place. Distances are known up to twice the window, so
that a place much further back seems to be nearer; what is there is compared
in any case. -/
def probe (s : Search) (found : Found) : Nat → Nat → Probe
  | 0, place => .missed place
  | n + 1, place =>
    let next := s.links.getD place 0
    let distance := (s.position + 2 * windowSize - next % (2 * windowSize)) % (2 * windowSize)
    if next % (2 * windowSize) = 0 ∨ s.maxDistance < distance then .ended
    else
      let place := s.position - distance
      if s.agrees found place then .hit distance else s.probe found n place

/-- How many bytes, from the `length`-th on, agree at a place and at the
position, in addition to that length. -/
def agreement (s : Search) (place : Nat) : Nat → Nat → Nat
  | 0, length => length
  | n + 1, length =>
    if byteAt s.data (place + length) = byteAt s.data (s.position + length) then
      s.agreement place n (length + 1)
    else length

/-- The longest repetition along a chain from a place. -/
def along (s : Search) : Nat → Nat → Found → Found
  | 0, _, found => found
  | n + 1, place, found =>
    match s.probe found 3 place with
    | .ended => found
    | .missed place => s.along n place found
    | .hit distance =>
      if distance = 0 then found
      else
        let place := s.position - distance
        let length := s.agreement place s.room 0
        if length ≤ found.length then s.along n place found
        else if length = s.room then ⟨length, distance⟩
        else s.along n place ⟨length, distance⟩

/-- **The longest repetition**, if it is longer than a known one. -/
def longest (s : Search) (known : Nat) : Found :=
  let found : Found := ⟨known, 0⟩
  if s.room ≤ known then found else s.along (tries found) s.position found

end Search

/-! ## Taking bytes apart -/

/-- **A repetition that waits for the next byte**, which may begin a longer
one. -/
structure Waiting where
  /-- The byte at its beginning. -/
  byte : UInt8
  found : Found
deriving DecidableEq, Inhabited

/-- **A step**: the items that it adds, how many bytes further the next step
begins, and what waits for it. -/
structure Step where
  items : List Item
  moved : Nat
  waiting : Option Waiting
deriving Inhabited

/-- A repetition of this length is taken without looking for a longer one. -/
def longEnough : Nat := 128

/-- Whether a repetition is not worth its distance: three bytes from far
away. One that would reach back to a multiple of the window is left out as
well. -/
def isPoor (position : Nat) (found : Found) : Bool :=
  (found.length = minLength ∧ 8192 ≤ found.distance) ∨ position % windowSize = found.distance

/-- What a repetition found at a position adds, with one waiting from the byte
before. -/
def advance (byte : UInt8) (waiting : Option Waiting) (found : Found) : Step :=
  let wait : Option Waiting := some ⟨byte, found⟩
  match waiting with
  | none =>
    if found.distance = 0 then ⟨[.literal byte], 1, none⟩
    else if longEnough ≤ found.length then
      ⟨[.repetition found.length found.distance], found.length, none⟩
    else ⟨[], 1, wait⟩
  | some w =>
    if found.length ≤ w.found.length then
      ⟨[.repetition w.found.length w.found.distance], w.found.length - 1, none⟩
    else if longEnough ≤ found.length then
      ⟨[.literal w.byte, .repetition found.length found.distance], found.length, none⟩
    else ⟨[.literal w.byte], 1, wait⟩

/-- The step at a position. `window` is how many bytes before it may be
repeated. -/
def step (data : ByteArray) (links : Array Nat) (position window : Nat)
    (waiting : Option Waiting) : Step :=
  let room := min maxLength (data.size - position)
  let known := (waiting.map (fun w => w.found.length)).getD (minLength - 1)
  let found := Search.longest ⟨data, links, position, window, room⟩ known
  advance (byteAt data position) waiting (if isPoor position found then ⟨0, 0⟩ else found)

end ScratchLegacy.Archive.Deflate
