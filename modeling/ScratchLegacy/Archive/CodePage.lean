/-!
# Code page 437

The name of an archive entry that is not marked as Unicode is written in code
page 437. Its lower half is ASCII; this is its upper half.
-/

namespace ScratchLegacy.Archive.CodePage

/-- The characters of the bytes from `0x80` on. -/
def upperHalf : Array Char :=
  "ÇüéâäàåçêëèïîìÄÅÉæÆôöòûùÿÖÜ¢£¥₧ƒáíóúñÑªº¿⌐¬½¼¡«»░▒▓│┤╡╢╖╕╣║╗╝╜╛┐└┴┬├─┼╞╟╚╔╩╦╠═╬╧╨╤╥╙╘╒╓╫╪┘┌█▄▌▐▀αßΓπΣσµτΦΘΩδ∞φε∩≡±≥≤⌠⌡÷≈°∙·√ⁿ²■\u00a0".toList.toArray

/-- The character of a byte. -/
def char (byte : UInt8) : Char :=
  if byte < 0x80 then Char.ofNat byte.toNat
  else upperHalf.getD (byte.toNat - 0x80) '\ufffd'

/-- **The text that bytes denote.** -/
def decode (bytes : ByteArray) : String := String.ofList (bytes.data.toList.map char)

end ScratchLegacy.Archive.CodePage
