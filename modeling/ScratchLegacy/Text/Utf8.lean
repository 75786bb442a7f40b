/-!
# Reading Unicode text leniently

A character is written in one to four bytes. The first byte tells how many
more there are and in which range the next one lies; the others lie between
`0x80` and `0xbf`. `Utf8.decode` reads any bytes: where no character is
written, the longest beginning of one stands for a single replacement
character, and so does a byte that begins none.

On bytes that hold text, this is the text; on others it is the text with the
damaged places marked.
-/

namespace ScratchLegacy.Text.Utf8

/-- **What a first byte tells**: its share of the number of the character, and
the ranges of the bytes behind it. -/
structure Lead where
  share : Nat
  ranges : List (Nat × Nat)
deriving DecidableEq, Inhabited

/-- The range of a byte behind the first two. -/
def tail : Nat × Nat := (0x80, 0xbf)

/-- What a first byte tells, absent when no character begins with it. -/
def lead? (byte : Nat) : Option Lead :=
  if byte < 0x80 then some ⟨byte, []⟩
  else if byte < 0xc2 then none
  else if byte < 0xe0 then some ⟨byte - 0xc0, [tail]⟩
  else if byte = 0xe0 then some ⟨0, [(0xa0, 0xbf), tail]⟩
  else if byte = 0xed then some ⟨0xd, [(0x80, 0x9f), tail]⟩
  else if byte < 0xf0 then some ⟨byte - 0xe0, [tail, tail]⟩
  else if byte = 0xf0 then some ⟨0, [(0x90, 0xbf), tail, tail]⟩
  else if byte < 0xf4 then some ⟨byte - 0xf0, [tail, tail, tail]⟩
  else if byte = 0xf4 then some ⟨4, [(0x80, 0x8f), tail, tail]⟩
  else none

/-- The longest beginning of some bytes that lies in some ranges, one byte in
each, and the rest. -/
def fitting : List (Nat × Nat) → List UInt8 → List UInt8 × List UInt8
  | (low, high) :: ranges, byte :: bytes =>
    if low ≤ byte.toNat ∧ byte.toNat ≤ high then
      let (taken, rest) := fitting ranges bytes
      (byte :: taken, rest)
    else ([], byte :: bytes)
  | _, bytes => ([], bytes)

theorem fitting_append (ranges : List (Nat × Nat)) (bytes : List UInt8) :
    (fitting ranges bytes).1 ++ (fitting ranges bytes).2 = bytes := by
  fun_induction fitting ranges bytes <;> simp_all

theorem length_fitting_snd (ranges : List (Nat × Nat)) (bytes : List UInt8) :
    (fitting ranges bytes).2.length ≤ bytes.length := by
  have h := congrArg List.length (fitting_append ranges bytes)
  rw [List.length_append] at h
  omega

/-- The character that stands where none is written. -/
def replacement : Char := '\ufffd'

/-- The character with a first share and some more bytes of six bits each. -/
def char (share : Nat) (bytes : List UInt8) : Char :=
  Char.ofNat (bytes.foldl (fun n byte => 64 * n + (byte.toNat - 0x80)) share)

/-- The characters that bytes hold. -/
def chars : List UInt8 → List Char
  | [] => []
  | byte :: bytes =>
    match lead? byte.toNat with
    | none => replacement :: chars bytes
    | some lead =>
      let split := fitting lead.ranges bytes
      let first := if split.1.length = lead.ranges.length then char lead.share split.1 else replacement
      first :: chars split.2
termination_by bytes => bytes.length
decreasing_by
  · simp
  · exact Nat.lt_succ_of_le (length_fitting_snd lead.ranges bytes)

/-- **The text that bytes hold**, with a replacement character at each place
where they hold none. -/
def decode (bytes : ByteArray) : String := String.ofList (chars bytes.data.toList)

end ScratchLegacy.Text.Utf8
