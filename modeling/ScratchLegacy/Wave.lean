import ScratchLegacy.Project

/-!
# Wave files

A wave file is a header and a sequence of chunks, each with an id of four
bytes, a size and as many bytes, padded to an even number. The chunk `fmt `
begins with the tag of the encoding. The legacy player has to be told when
that is the compressed encoding `0x11`, and `Wave.format` finds out by
walking from chunk to chunk.

The walk is on the list of the bytes, so it cannot leave the file: dropping
more bytes than there are leaves none.
-/

namespace ScratchLegacy

/-- **The encoding of a sound**, as far as the legacy player has to know. -/
inductive SoundFormat where
  | uncompressed
  | adpcm
  | squeak
deriving DecidableEq, Inhabited

namespace SoundFormat

/-- The tag that the legacy document carries. -/
def tag : SoundFormat → String
  | uncompressed => ""
  | adpcm => "adpcm"
  | squeak => "squeak"

/-- The name of a format. -/
def name : SoundFormat → String
  | uncompressed => "uncompressed"
  | adpcm => "adpcm"
  | squeak => "squeak"

end SoundFormat

namespace Wave

/-- The number that bytes denote, the lowest byte first. -/
def littleEndian : List UInt8 → Nat
  | [] => 0
  | b :: rest => b.toNat + 256 * littleEndian rest

/-- The four bytes of a chunk id. -/
def chunkId (name : String) : List UInt8 := name.toUTF8.data.toList

/-- The format that the body of a format chunk declares. -/
def bodyFormat (body : List UInt8) : SoundFormat :=
  if body.take 2 = [0x11, 0x00] then .adpcm else .uncompressed

/-- **The format that the first format chunk declares**, uncompressed when
there is none. -/
def chunkFormat (bytes : List UInt8) : SoundFormat :=
  if bytes.length < 8 then .uncompressed
  else
    let rest := bytes.drop 8
    if bytes.take 4 = chunkId "fmt " then bodyFormat rest
    else
      let size := littleEndian ((bytes.drop 4).take 4)
      chunkFormat (rest.drop (size + size % 2))
termination_by bytes.length
decreasing_by
  simp only [List.length_drop]
  omega

/-- **The format of a sound file**: only a wave file declares one. -/
def formatOf (ext : String) (bytes : List UInt8) : SoundFormat :=
  if ext = "wav" ∧ 12 ≤ bytes.length ∧ bytes.take 4 = chunkId "RIFF"
      ∧ (bytes.drop 8).take 4 = chunkId "WAVE" then
    chunkFormat (bytes.drop 12)
  else .uncompressed

/-- **The format of a sound.** -/
def format (sound : Sound) : SoundFormat := formatOf sound.ext sound.asset.data.toList

end Wave

end ScratchLegacy
