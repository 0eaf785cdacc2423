import CApiUpgrade.Text.Quoted

/-!
# Encodings of source files

A source file is read as UTF-8 if its bytes are valid UTF-8, and otherwise as Latin-1, where each
byte is the character of that number.  It is written back in the encoding in which it was read,
so that every sequence of bytes survives being read and written.
-/

namespace CApiUpgrade

/-- How the bytes of a file were read. -/
inductive Encoding where
  /-- As UTF-8. -/
  | utf8
  /-- One character for each byte. -/
  | latin1
  deriving DecidableEq, Repr

/-- Why a text cannot be written. -/
inductive EncodeError where
  /-- The character has no byte in Latin-1. -/
  | notLatin1 (c : Char)
  deriving DecidableEq, Repr

/-- What an encoding error says. -/
def EncodeError.message : EncodeError → String
  | .notLatin1 c => "Character " ++ Text.quotedChar c ++ " cannot be written back as Latin-1"

namespace Encoding

/-- The text of a file, and the encoding in which it was read. -/
def decode (bytes : ByteArray) : List Char × Encoding :=
  match String.fromUTF8? bytes with
  | some text => (text.toList, utf8)
  | none => (bytes.data.toList.map fun b => Char.ofNat b.toNat, latin1)

/-- The byte of a character in Latin-1. -/
def latin1Byte (c : Char) : Except EncodeError UInt8 :=
  if c.toNat < 256 then .ok c.toNat.toUInt8 else .error (.notLatin1 c)

/-- The bytes of a text in an encoding. -/
def encode (text : List Char) : Encoding → Except EncodeError ByteArray
  | utf8 => .ok (String.ofList text).toUTF8
  | latin1 => (fun bytes => ⟨bytes.toArray⟩) <$> text.mapM latin1Byte

end Encoding

end CApiUpgrade
