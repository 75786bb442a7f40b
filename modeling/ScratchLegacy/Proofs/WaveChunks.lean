import Mathlib.Data.Nat.Digits.Defs
import Mathlib.Tactic.SplitIfs
import ScratchLegacy.Archive.LittleEndian
import ScratchLegacy.Wave

/-!
# The chunks of a wave file

`Wave.format` walks on lists that get shorter, where nothing can be read that is not
there. A player that has the file in memory walks on offsets instead: it reads bytes at
places that it has computed from sizes in the file, and a place may lie behind the end or
may not fit the type of an offset. This walk is written out here step by step, and a step
has no result where one of these things would happen (`Wave.step?`). It ends on every
file without that, with the format that `Wave.format` gives (`Wave.finishes_formatOf`).

What the walk finds is said about files as they are written, chunk by chunk
(`Wave.Chunk.bytes`): the tag in the first format chunk, whatever is before and behind it
(`Wave.format_of_layout`).
-/

namespace ScratchLegacy.Wave

/-! ## Numbers in bytes -/

/-- A number of so many bytes is below that power. -/
theorem littleEndian_lt (bs : List UInt8) : littleEndian bs < 256 ^ bs.length := by
  induction bs with
  | nil => exact Nat.one_pos
  | cons b bs ih =>
    have hb := b.toNat_lt
    rw [littleEndian, List.length_cons, Nat.pow_succ]
    omega

/-- **What is written lowest byte first is read back**, when it fits. -/
theorem littleEndian_bytes {width n : Nat} (h : n < 256 ^ width) :
    littleEndian (Archive.LittleEndian.bytes width n) = n := by
  induction width generalizing n with
  | zero => exact (Nat.lt_one_iff.mp h).symm
  | succ width ih =>
    have hhigh : n / 256 < 256 ^ width := Nat.div_lt_of_lt_mul (by rwa [Nat.mul_comm])
    have hlow : n.toUInt8.toNat = n % 256 := rfl
    rw [Archive.LittleEndian.bytes, littleEndian, ih hhigh, hlow]
    omega

/-! ## The walk on offsets -/

section Offsets

variable (data : List UInt8) (offset : Nat)

/-- The bytes between two offsets, absent when not all of them are there. -/
def slice? (start stop : Nat) : Option (List UInt8) :=
  if start ≤ stop ∧ stop ≤ data.length then some ((data.drop start).take (stop - start)) else none

/-- An offset of 64 bits, absent when the number does not fit. -/
def offset? (n : Nat) : Option Nat := if n < 2 ^ 64 then some n else none

/-- **Where the walk on offsets stands**: before the header or before a chunk. -/
inductive Position where
  | header
  | chunk (offset : Nat)

/-- **One step of the walk on offsets**, which finds the format or moves on. There is no
result when an offset does not fit or a byte is read that is not there. -/
def step? (ext : String) : Position → Option (SoundFormat ⊕ Position)
  | .header =>
    if ext ≠ "wav" ∨ data.length < 12 then some (.inl .uncompressed)
    else do
      let riff ← slice? data 0 4
      let wave ← slice? data 8 12
      if riff = chunkId "RIFF" ∧ wave = chunkId "WAVE" then some (.inr (.chunk 12))
      else some (.inl .uncompressed)
  | .chunk offset => do
    let body ← offset? (offset + 8)
    if data.length < body then some (.inl .uncompressed)
    else
      let id ← slice? data offset (offset + 4)
      let size ← slice? data (offset + 4) body
      if id = chunkId "fmt " then
        let tagEnd ← offset? (body + 2)
        if data.length < tagEnd then some (.inl .uncompressed)
        else
          let tag ← slice? data body tagEnd
          some (.inl (if littleEndian tag = 0x11 then .adpcm else .uncompressed))
      else
        let next ← offset? (body + littleEndian size + littleEndian size % 2)
        some (.inr (.chunk next))

/-- **The walk on offsets ends with a format**: after finitely many steps, all of which
have a result. -/
inductive Finishes (ext : String) : Position → SoundFormat → Prop
  | found {position : Position} {format : SoundFormat}
      (step : step? data ext position = some (.inl format)) : Finishes ext position format
  | moved {position next : Position} {format : SoundFormat}
      (step : step? data ext position = some (.inr next)) (rest : Finishes ext next format) :
      Finishes ext position format

/-- The id of the chunk at an offset. -/
def idAt : List UInt8 := (data.drop offset).take 4

/-- The size that the chunk at an offset declares. -/
def sizeAt : Nat := littleEndian ((data.drop (offset + 4)).take 4)

/-- Where the chunk behind the one at an offset is. -/
def nextOffset : Nat := offset + 8 + sizeAt data offset + sizeAt data offset % 2

/-- **An offset that the walk reaches**: it goes on behind each chunk that is no format
chunk and has its id and its size within the file. -/
inductive Reaches : Nat → Prop
  | first : Reaches 12
  | next {offset : Nat} (reached : Reaches offset) (inside : offset + 8 ≤ data.length)
      (other : idAt data offset ≠ chunkId "fmt ") : Reaches (nextOffset data offset)

variable {data offset}

/-- Bytes that are there are read. -/
theorem slice?_eq_some (start width : Nat) (h : start + width ≤ data.length) :
    slice? data start (start + width) = some ((data.drop start).take width) := by
  rw [slice?, if_pos ⟨Nat.le_add_right _ _, h⟩, Nat.add_sub_cancel_left]

/-- A declared size fits 32 bits. -/
theorem sizeAt_lt (data : List UInt8) (offset : Nat) : sizeAt data offset < 2 ^ 32 := by
  have hwidth : ((data.drop (offset + 4)).take 4).length ≤ 4 := List.length_take_le _ _
  exact Nat.lt_of_lt_of_le (littleEndian_lt _) (Nat.pow_le_pow_right (by decide) hwidth)

/-- The next chunk is further on. -/
theorem lt_nextOffset (data : List UInt8) (offset : Nat) : offset < nextOffset data offset := by
  rw [nextOffset]
  omega

/-- The first chunk is behind the twelve bytes of the header. -/
theorem Reaches.twelve_le (h : Reaches data offset) : 12 ≤ offset := by
  induction h with
  | first => exact Nat.le_refl 12
  | next _ _ _ ih => exact Nat.le_trans ih (Nat.le_of_lt (lt_nextOffset data _))

/-- **The walk on the list, at an offset**: behind the end there is no format, a format
chunk declares it, and every other chunk is passed over. -/
theorem chunkFormat_drop :
    chunkFormat (data.drop offset)
      = if data.length < offset + 8 then .uncompressed
        else if idAt data offset = chunkId "fmt " then bodyFormat (data.drop (offset + 8))
        else chunkFormat (data.drop (nextOffset data offset)) := by
  have hshort : (data.drop offset).length < 8 ↔ data.length < offset + 8 := by
    rw [List.length_drop]
    omega
  rw [chunkFormat, if_congr hshort rfl rfl]
  simp only [List.drop_drop, idAt, nextOffset, sizeAt, Nat.add_assoc]

/-- A body declares the compressed format with its first two bytes. -/
theorem bodyFormat_eq_adpcm_iff {body : List UInt8} :
    bodyFormat body = .adpcm ↔ body.take 2 = [0x11, 0x00] := by
  unfold bodyFormat
  split
  · next htag => exact iff_of_true rfl htag
  · next htag => exact iff_of_false (by decide) htag

/-- The tag of a format chunk, as a number. -/
theorem bodyFormat_drop (h : offset + 2 ≤ data.length) :
    bodyFormat (data.drop offset)
      = if littleEndian ((data.drop offset).take 2) = 0x11 then .adpcm else .uncompressed := by
  have htag : littleEndian ((data.drop offset).take 2) = 0x11
      ↔ (data.drop offset).take 2 = [0x11, 0x00] := by
    have hlength : ((data.drop offset).take 2).length = 2 := by
      rw [List.length_take, List.length_drop]
      omega
    match (data.drop offset).take 2, hlength with
    | [low, high], _ =>
      have hlow := low.toNat_lt
      rw [List.cons.injEq, List.cons.injEq, ← UInt8.toNat_inj, ← UInt8.toNat_inj,
        and_iff_left rfl]
      show low.toNat + 256 * (high.toNat + 256 * 0) = 17 ↔ low.toNat = 17 ∧ high.toNat = 0
      omega
  rw [bodyFormat, if_congr htag rfl rfl]

/-- A format chunk without room for a tag declares nothing. -/
theorem bodyFormat_drop_of_lt (h : data.length < offset + 2) :
    bodyFormat (data.drop offset) = .uncompressed := by
  refine if_neg (fun htag => ?_)
  have hlength := congrArg List.length htag
  rw [List.length_take, List.length_drop, List.length_cons, List.length_singleton] at hlength
  omega

variable {ext : String}

/-- **What the walk on offsets does at a chunk**, where no offset overflows. -/
theorem step?_chunk (hoffset : offset < 2 ^ 63 + 2 ^ 33) :
    step? data ext (.chunk offset)
      = some (if data.length < offset + 8 then .inl .uncompressed
        else if idAt data offset = chunkId "fmt " then .inl (bodyFormat (data.drop (offset + 8)))
        else .inr (.chunk (nextOffset data offset))) := by
  have hfits : ∀ {n : Nat}, n < 2 ^ 64 → offset? n = some n := fun h => if_pos h
  have hnext : offset? (nextOffset data offset) = some (nextOffset data offset) := by
    have hsize := sizeAt_lt data offset
    refine hfits ?_
    rw [nextOffset]
    omega
  have hbody : offset? (offset + 8) = some (offset + 8) := hfits (by omega)
  have htagEnd : offset? (offset + 8 + 2) = some (offset + 8 + 2) := hfits (by omega)
  simp only [step?, hbody, htagEnd, Option.bind_eq_bind, Option.bind_some]
  by_cases hshort : data.length < offset + 8
  · rw [if_pos hshort, if_pos hshort]
  have hid : slice? data offset (offset + 4) = some (idAt data offset) :=
    slice?_eq_some offset 4 (by omega)
  have hsize : slice? data (offset + 4) (offset + 8) = some ((data.drop (offset + 4)).take 4) :=
    slice?_eq_some (offset + 4) 4 (by omega)
  rw [if_neg hshort, if_neg hshort, hid, hsize, Option.bind_some, Option.bind_some]
  by_cases hfmt : idAt data offset = chunkId "fmt "
  · rw [if_pos hfmt, if_pos hfmt]
    by_cases htag : data.length < offset + 8 + 2
    · rw [if_pos htag, bodyFormat_drop_of_lt htag]
    · rw [if_neg htag, slice?_eq_some _ 2 (Nat.not_lt.mp htag), Option.bind_some,
        bodyFormat_drop (Nat.not_lt.mp htag)]
  · rw [if_neg hfmt, if_neg hfmt]
    show (offset? (nextOffset data offset)).bind _ = _
    rw [hnext, Option.bind_some]

/-- From a chunk on, the walk on offsets ends with what the walk on the list finds. The
induction is on what is left of the file. -/
theorem finishes_chunk (hdata : data.length < 2 ^ 63) (hoffset : offset < 2 ^ 63 + 2 ^ 33) :
    Finishes data ext (.chunk offset) (chunkFormat (data.drop offset)) := by
  induction hleft : data.length - offset using Nat.strongRecOn generalizing offset with
  | ind left ih =>
    have hstep : step? data ext (.chunk offset) = _ := step?_chunk hoffset
    rw [chunkFormat_drop]
    split_ifs at hstep ⊢ with hshort hfmt
    · exact .found hstep
    · exact .found hstep
    · have hforward := lt_nextOffset data offset
      -- a chunk begins within the file, and its size is below `2 ^ 32`
      have hbound : nextOffset data offset < 2 ^ 63 + 2 ^ 33 := by
        have hsize := sizeAt_lt data offset
        rw [nextOffset]
        omega
      exact .moved hstep (ih _ (by omega) hbound rfl)

/-- Without a format chunk that the walk reaches, no format is found. -/
theorem chunkFormat_of_reaches
    (hnone : ∀ o, Reaches data o → o + 8 ≤ data.length → idAt data o ≠ chunkId "fmt ")
    (h : Reaches data offset) : chunkFormat (data.drop offset) = .uncompressed := by
  induction hleft : data.length - offset using Nat.strongRecOn generalizing offset with
  | ind left ih =>
    rw [chunkFormat_drop]
    by_cases hshort : data.length < offset + 8
    · rw [if_pos hshort]
    · have hother := hnone offset h (Nat.not_lt.mp hshort)
      have hforward := lt_nextOffset data offset
      rw [if_neg hshort, if_neg hother]
      exact ih _ (by omega) (h.next (Nat.not_lt.mp hshort) hother) rfl

end Offsets

/-! ## Files as they are written -/

/-- **A chunk of a file**: an id of four bytes and a body whose size fits 32 bits. -/
structure Chunk where
  id : List UInt8
  body : List UInt8
  /-- The byte behind a body of odd size. -/
  pad : UInt8
  id_length : id.length = 4
  body_length : body.length < 2 ^ 32

/-- What is behind the body: the pad byte, if the size is odd. -/
def Chunk.padding (c : Chunk) : List UInt8 := if c.body.length % 2 = 1 then [c.pad] else []

/-- **A chunk as it is written**: the id, the size, the body and the padding. -/
def Chunk.bytes (c : Chunk) : List UInt8 :=
  c.id ++ (Archive.LittleEndian.bytes 4 c.body.length ++ (c.body ++ c.padding))

/-- The header of a wave file, with four bytes for its size. -/
def header (size : List UInt8) : List UInt8 := chunkId "RIFF" ++ (size ++ chunkId "WAVE")

/-- **A wave file**: the extension says so, and the bytes begin with the header. -/
def IsWave (ext : String) (data : List UInt8) : Prop :=
  ext = "wav" ∧ ∃ size rest, size.length = 4 ∧ data = header size ++ rest

variable {data rest size : List UInt8} {ext : String} {c : Chunk} {chunks : List Chunk}

/-- The padding is one byte behind a body of odd size, and none otherwise. -/
theorem Chunk.length_padding (c : Chunk) : c.padding.length = c.body.length % 2 := by
  unfold padding
  split
  · next hodd => exact hodd.symm
  · next heven => exact (Nat.mod_two_ne_one.mp heven).symm

/-- **The walk on a chunk as it is written**: it is read, or passed over with its
padding. -/
theorem chunkFormat_bytes_append :
    chunkFormat (c.bytes ++ rest)
      = if c.id = chunkId "fmt " then bodyFormat (c.body ++ (c.padding ++ rest))
        else chunkFormat rest := by
  have hbytes : c.bytes ++ rest = c.id ++ (Archive.LittleEndian.bytes 4 c.body.length
      ++ (c.body ++ (c.padding ++ rest))) := by
    simp only [Chunk.bytes, List.append_assoc]
  have hsize : (Archive.LittleEndian.bytes 4 c.body.length).length = 4 :=
    Archive.LittleEndian.length_bytes _ _
  have hid : (c.bytes ++ rest).take 4 = c.id := by
    rw [hbytes]
    exact List.take_left' c.id_length
  have hafter : (c.bytes ++ rest).drop 4
      = Archive.LittleEndian.bytes 4 c.body.length ++ (c.body ++ (c.padding ++ rest)) := by
    rw [hbytes]
    exact List.drop_left' c.id_length
  have hcount : littleEndian (((c.bytes ++ rest).drop 4).take 4) = c.body.length := by
    rw [hafter, List.take_left' hsize]
    exact littleEndian_bytes c.body_length
  have hbody : (c.bytes ++ rest).drop 8 = c.body ++ (c.padding ++ rest) := by
    rw [← List.drop_drop (i := 4) (j := 4), hafter]
    exact List.drop_left' hsize
  have hnext : (c.body ++ (c.padding ++ rest)).drop (c.body.length + c.body.length % 2)
      = rest := by
    rw [← List.drop_drop, List.drop_left]
    exact List.drop_left' c.length_padding
  have hlong : ¬ (c.bytes ++ rest).length < 8 := by
    rw [hbytes, List.length_append, List.length_append, c.id_length, hsize]
    omega
  rw [chunkFormat, if_neg hlong]
  dsimp only
  rw [hid, hcount, hbody, hnext]

/-- **The first format chunk is found in every sequence of chunks**, and what is behind it
does not matter. -/
theorem chunkFormat_flatMap (hc : chunks.find? (fun c => c.id = chunkId "fmt ") = some c)
    (hbody : 2 ≤ c.body.length) :
    chunkFormat (chunks.flatMap Chunk.bytes ++ rest) = bodyFormat c.body := by
  induction chunks with
  | nil => cases hc
  | cons c' chunks ih =>
    rw [List.flatMap_cons, List.append_assoc, chunkFormat_bytes_append]
    by_cases hfmt : c'.id = chunkId "fmt "
    · rw [List.find?_cons_of_pos (by exact decide_eq_true hfmt), Option.some_inj] at hc
      subst hc
      rw [if_pos hfmt, bodyFormat, bodyFormat, List.take_append_of_le_length hbody]
    · rw [List.find?_cons_of_neg (by simpa using hfmt)] at hc
      rw [if_neg hfmt, ih hc]

/-- The header takes up twelve bytes. -/
theorem length_header (hsize : size.length = 4) : (header size).length = 12 := by
  rw [header, List.length_append, List.length_append, hsize]
  rfl

/-- **A file is a wave file** by its extension, its length and the two names in the
header. -/
theorem isWave_iff :
    IsWave ext data ↔ ext = "wav" ∧ 12 ≤ data.length ∧ data.take 4 = chunkId "RIFF"
      ∧ (data.drop 8).take 4 = chunkId "WAVE" := by
  refine and_congr_right fun _ => ?_
  constructor
  · rintro ⟨size, rest, hsize, rfl⟩
    have hnames : header size ++ rest
        = chunkId "RIFF" ++ (size ++ (chunkId "WAVE" ++ rest)) := by
      simp only [header, List.append_assoc]
    refine ⟨?_, ?_, ?_⟩
    · rw [List.length_append, length_header hsize]
      exact Nat.le_add_right _ _
    · rw [hnames]
      exact List.take_left' rfl
    · rw [hnames, ← List.drop_drop (i := 4) (j := 4), List.drop_left' (i := 4) rfl,
        List.drop_left' hsize]
      exact List.take_left' rfl
  · rintro ⟨hlength, hriff, hwave⟩
    refine ⟨(data.drop 4).take 4, data.drop 12, ?_, ?_⟩
    · rw [List.length_take, List.length_drop]
      omega
    · rw [header, ← hriff, ← hwave, List.append_assoc, List.append_assoc,
        ← List.drop_drop (i := 4) (j := 8), List.take_append_drop,
        ← List.drop_drop (i := 4) (j := 4), List.take_append_drop, List.take_append_drop]

/-- The format of a wave file is the one found behind the header. -/
theorem formatOf_of_isWave (h : IsWave ext data) :
    formatOf ext data = chunkFormat (data.drop 12) := if_pos (isWave_iff.mp h)

/-- Any other file has no format. -/
theorem formatOf_of_not_isWave (h : ¬ IsWave ext data) : formatOf ext data = .uncompressed :=
  if_neg (fun hwave => h (isWave_iff.mpr hwave))

/-- **What the walk on offsets does at a header** that is long enough. -/
theorem step?_header (hext : ext = "wav") (hlength : 12 ≤ data.length) :
    step? data ext .header
      = some (if data.take 4 = chunkId "RIFF" ∧ (data.drop 8).take 4 = chunkId "WAVE" then
          .inr (.chunk 12) else .inl .uncompressed) := by
  have hriff : slice? data 0 4 = some (data.take 4) := slice?_eq_some 0 4 (by omega)
  have hwave : slice? data 8 12 = some ((data.drop 8).take 4) := slice?_eq_some 8 4 hlength
  rw [step?, if_neg (not_or.mpr ⟨not_not.mpr hext, Nat.not_lt.mpr hlength⟩), hriff, hwave]
  exact (apply_ite some _ _ _).symm

/-- The walk on offsets goes on behind the header of a wave file. -/
theorem step?_header_of_isWave (h : IsWave ext data) :
    step? data ext .header = some (.inr (.chunk 12)) := by
  obtain ⟨hext, hlength, hnames⟩ := isWave_iff.mp h
  rw [step?_header hext hlength, if_pos hnames]

/-- The walk on offsets ends at the header of any other file. -/
theorem step?_header_of_not_isWave (h : ¬ IsWave ext data) :
    step? data ext .header = some (.inl .uncompressed) := by
  by_cases hshort : ext ≠ "wav" ∨ data.length < 12
  · exact if_pos hshort
  · obtain ⟨hext, hlength⟩ := not_or.mp hshort
    rw [not_not] at hext
    rw [Nat.not_lt] at hlength
    rw [step?_header hext hlength]
    exact congrArg some (if_neg (fun hnames => h (isWave_iff.mpr ⟨hext, hlength, hnames⟩)))

/-- **The walk on offsets ends on every file that fits a memory of 64 bits**: no offset
overflows and no byte outside of the file is read. It finds what `Wave.formatOf` does. -/
theorem finishes_formatOf (hdata : data.length < 2 ^ 63) :
    Finishes data ext .header (formatOf ext data) := by
  by_cases h : IsWave ext data
  · rw [formatOf_of_isWave h]
    exact .moved (step?_header_of_isWave h) (finishes_chunk hdata (by decide))
  · rw [formatOf_of_not_isWave h]
    exact .found (step?_header_of_not_isWave h)

/-- **The format is read from the first format chunk, in every layout.** The walk on
offsets ends with the format on every file that fits a memory of 64 bits. Of a file that
is written chunk by chunk, with whatever behind them, the format is compressed exactly
when the body of the first format chunk begins with the tag `0x11`. Where the walk reaches
no format chunk, and of what is no wave file, it is uncompressed. -/
theorem format_of_layout (sound : Sound) :
    (sound.asset.size < 2 ^ 63 →
        Finishes sound.asset.data.toList sound.ext .header (format sound))
      ∧ (∀ (size : List UInt8) (chunks : List Chunk) (rest : List UInt8) (c : Chunk),
        sound.ext = "wav" → size.length = 4 →
          sound.asset.data.toList = header size ++ (chunks.flatMap Chunk.bytes ++ rest) →
            chunks.find? (fun c => c.id = chunkId "fmt ") = some c → 16 ≤ c.body.length →
              (format sound = .adpcm ↔ c.body.take 2 = [0x11, 0x00]))
      ∧ ((∀ o, Reaches sound.asset.data.toList o → o + 8 ≤ sound.asset.size →
          idAt sound.asset.data.toList o ≠ chunkId "fmt ") → format sound = .uncompressed)
      ∧ (¬ IsWave sound.ext sound.asset.data.toList → format sound = .uncompressed) := by
  refine ⟨finishes_formatOf, ?_, ?_, formatOf_of_not_isWave⟩
  · intro size chunks rest c hext hsize hdata hc hbody
    have hwave : IsWave sound.ext sound.asset.data.toList := ⟨hext, size, _, hsize, hdata⟩
    have hdrop : (header size ++ (chunks.flatMap Chunk.bytes ++ rest)).drop 12
        = chunks.flatMap Chunk.bytes ++ rest := List.drop_left' (length_header hsize)
    rw [format, formatOf_of_isWave hwave, hdata, hdrop,
      chunkFormat_flatMap hc (Nat.le_trans (by decide) hbody)]
    exact bodyFormat_eq_adpcm_iff
  · intro hnone
    by_cases hwave : IsWave sound.ext sound.asset.data.toList
    · exact (formatOf_of_isWave hwave).trans (chunkFormat_of_reaches hnone .first)
    · exact formatOf_of_not_isWave hwave

/-- A format chunk is found behind a chunk of odd size; a header alone and a file with
another extension have no format. -/
theorem compressed_behind_odd_chunk :
    ∃ (list fmt : Chunk) (sound : Sound), list.body.length = 3
      ∧ sound.asset.data.toList = header [0, 0, 0, 0] ++ ([list, fmt].flatMap Chunk.bytes ++ [7])
      ∧ Finishes sound.asset.data.toList sound.ext .header (format sound)
      ∧ format sound = .adpcm
      ∧ format { ext := "wav", asset := ⟨⟨header [0, 0, 0, 0]⟩⟩ } = .uncompressed
      ∧ format { ext := "mp3", asset := sound.asset } = .uncompressed := by
  let list : Chunk := ⟨chunkId "LIST", [1, 2, 3], 0, rfl, by decide⟩
  let fmt : Chunk := ⟨chunkId "fmt ", 0x11 :: List.replicate 19 0, 0, rfl, by decide⟩
  let sound : Sound :=
    { ext := "wav"
      asset := ⟨⟨header [0, 0, 0, 0] ++ ([list, fmt].flatMap Chunk.bytes ++ [7])⟩⟩ }
  have hspec := format_of_layout sound
  refine ⟨list, fmt, sound, rfl, rfl, hspec.1 (by decide), ?_, ?_, ?_⟩
  · exact (hspec.2.1 [0, 0, 0, 0] [list, fmt] [7] fmt rfl rfl rfl rfl (by decide)).mpr rfl
  · refine (format_of_layout { ext := "wav", asset := ⟨⟨header [0, 0, 0, 0]⟩⟩ }).2.2.1 ?_
    intro o ho hinside
    have hstart := ho.twelve_le
    have hsize : o + 8 ≤ 12 := hinside
    omega
  · exact (format_of_layout { ext := "mp3", asset := sound.asset }).2.2.2
      (fun hwave => absurd hwave.1 (by decide))

end ScratchLegacy.Wave
