/-!
# MD5

The digest that names an asset by its content.
-/

namespace ScratchLegacy.Archive.Md5

/-- **The four registers.** -/
structure State where
  a : UInt32 := 0x67452301
  b : UInt32 := 0xefcdab89
  c : UInt32 := 0x98badcfe
  d : UInt32 := 0x10325476
deriving DecidableEq, Inhabited

/-- The constant of each of the 64 steps. -/
def constants : Array UInt32 :=
  #[0xd76aa478, 0xe8c7b756, 0x242070db, 0xc1bdceee, 0xf57c0faf, 0x4787c62a, 0xa8304613, 0xfd469501,
    0x698098d8, 0x8b44f7af, 0xffff5bb1, 0x895cd7be, 0x6b901122, 0xfd987193, 0xa679438e, 0x49b40821,
    0xf61e2562, 0xc040b340, 0x265e5a51, 0xe9b6c7aa, 0xd62f105d, 0x02441453, 0xd8a1e681, 0xe7d3fbc8,
    0x21e1cde6, 0xc33707d6, 0xf4d50d87, 0x455a14ed, 0xa9e3e905, 0xfcefa3f8, 0x676f02d9, 0x8d2a4c8a,
    0xfffa3942, 0x8771f681, 0x6d9d6122, 0xfde5380c, 0xa4beea44, 0x4bdecfa9, 0xf6bb4b60, 0xbebfbc70,
    0x289b7ec6, 0xeaa127fa, 0xd4ef3085, 0x04881d05, 0xd9d4d039, 0xe6db99e5, 0x1fa27cf8, 0xc4ac5665,
    0xf4292244, 0x432aff97, 0xab9423a7, 0xfc93a039, 0x655b59c3, 0x8f0ccc92, 0xffeff47d, 0x85845dd1,
    0x6fa87e4f, 0xfe2ce6e0, 0xa3014314, 0x4e0811a1, 0xf7537e82, 0xbd3af235, 0x2ad7d2bb, 0xeb86d391]

/-- How far each step rotates, by its round and its place in a group of
four. -/
def rotations : Array UInt32 := #[7, 12, 17, 22, 5, 9, 14, 20, 4, 11, 16, 23, 6, 10, 15, 21]

/-- A word rotated to the left. -/
def rotate (x n : UInt32) : UInt32 := (x <<< n) ||| (x >>> (32 - n))

/-- The registers after one step on a block of sixteen words. -/
def step (block : Array UInt32) (s : State) (i : Nat) : State :=
  let (mixed, word) : UInt32 × Nat :=
    match i / 16 with
    | 0 => ((s.b &&& s.c) ||| (~~~s.b &&& s.d), i)
    | 1 => ((s.d &&& s.b) ||| (~~~s.d &&& s.c), (5 * i + 1) % 16)
    | 2 => (s.b ^^^ s.c ^^^ s.d, (3 * i + 5) % 16)
    | _ => (s.c ^^^ (s.b ||| ~~~s.d), (7 * i) % 16)
  let sum := s.a + mixed + constants.getD i 0 + block.getD word 0
  ⟨s.d, s.b + rotate sum (rotations.getD (i / 16 * 4 + i % 4) 0), s.b, s.c⟩

/-- The registers after a block. -/
def absorb (s : State) (block : Array UInt32) : State :=
  let t := (List.range 64).foldl (step block) s
  ⟨s.a + t.a, s.b + t.b, s.c + t.c, s.d + t.d⟩

/-- The bytes with their padding: a one bit, zeros up to eight bytes before
the end of a block, and the number of bits. -/
def padded (bytes : ByteArray) : ByteArray :=
  let zeros := (119 - bytes.size % 64) % 64
  let bits := 8 * bytes.size
  let length := (List.range 8).map (fun i => (bits >>> (8 * i)).toUInt8)
  bytes.push 0x80 ++ ⟨(List.replicate zeros 0 ++ length).toArray⟩

/-- The word at a byte position, the lowest byte first. -/
def wordAt (bytes : ByteArray) (start : Nat) : UInt32 :=
  let byte (i : Nat) : UInt32 := (bytes[start + i]?.getD 0).toUInt32
  byte 0 ||| (byte 1 <<< 8) ||| (byte 2 <<< 16) ||| (byte 3 <<< 24)

/-- The registers after all blocks. -/
def run (bytes : ByteArray) : State :=
  let data := padded bytes
  (List.range (data.size / 64)).foldl
    (fun s i => absorb s ((Array.range 16).map (fun j => wordAt data (64 * i + 4 * j)))) {}

/-- Two hexadecimal digits. -/
def hexByte (n : Nat) : List Char :=
  [(Nat.toDigits 16 (n / 16 % 16)).headD '0', (Nat.toDigits 16 (n % 16)).headD '0']

/-- The hexadecimal digits of a word, the lowest byte first. -/
def hexWord (w : UInt32) : List Char :=
  (List.range 4).flatMap (fun i => hexByte (w.toNat >>> (8 * i) % 256))

/-- **The digest of bytes**, in hexadecimal. -/
def digest (bytes : ByteArray) : String :=
  let s := run bytes
  String.ofList ([s.a, s.b, s.c, s.d].flatMap hexWord)

end ScratchLegacy.Archive.Md5
