import BytecodeSearch.Binary.Codec
import BytecodeSearch.Program.Basic
import BytecodeSearch.Text.Hex

/-!
# Program images

An image is the portable form of a program: its words and their number. As bytes it is the magic
word `EVO_PG`, the version of the format and the fields of the image. Reading an image checks
all of these and the code, so every image that is read gives a program.

The fingerprint of an image names the program in it: words past the length do not count.
-/

set_option autoImplicit false

namespace BytecodeSearch

/-- Words and the number of them that form the program. -/
structure Image where
  /-- The words. -/
  words : Array Word
  /-- How many words form the program. -/
  length : UInt32
  deriving DecidableEq, Repr

instance : Codec Image where
  writes image := Codec.writes image.words ++ Codec.writes image.length
  decode := do
    let words : Array Word ← Codec.decode
    let length : UInt32 ← Codec.decode
    return ⟨words, length⟩

/-- The version of an image's format. -/
structure Version where
  /-- Changes with the format. -/
  major : UInt8
  /-- Changes with additions. -/
  minor : UInt8
  /-- Changes with corrections. -/
  patch : UInt8
  deriving DecidableEq, Repr

instance : Codec Version where
  writes v := Codec.writes v.major ++ Codec.writes v.minor ++ Codec.writes v.patch
  decode := do
    let major : UInt8 ← Codec.decode
    let minor : UInt8 ← Codec.decode
    let patch : UInt8 ← Codec.decode
    return ⟨major, minor, patch⟩

/-- Why bytes are not a program image. -/
inductive ImageError where
  /-- There is not even room for the magic word. -/
  | truncated
  /-- The bytes do not start with the magic word. -/
  | badMagic
  /-- The image is of another version of the format. -/
  | unsupportedVersion
  /-- Bytes follow the image. -/
  | trailingBytes
  /-- A part of the image does not decode. -/
  | malformed (cause : DecodeError)
  /-- The image holds no valid program. -/
  | code (cause : CodeError)
  deriving DecidableEq, Repr

/-- The text of an image error. -/
def ImageError.message : ImageError → String
  | .truncated => "decoding error: truncated"
  | .badMagic => "decoding error: bad magic"
  | .unsupportedVersion => "decoding error: unsupported version"
  | .trailingBytes => "decoding error: trailing bytes"
  | .malformed cause => s!"decoding error: {cause.message}"
  | .code cause => cause.message

namespace Image

/-- The bytes every image starts with: `EVO_PG`. -/
def magic : Vector UInt8 6 := #v[0x45, 0x56, 0x4f, 0x5f, 0x50, 0x47]

/-- The version this library writes and reads. -/
def currentVersion : Version := ⟨0, 3, 0⟩

/-- The bytes of an image. -/
def toBytes (image : Image) : List UInt8 :=
  Codec.toBytes magic ++ Codec.toBytes currentVersion ++ Codec.toBytes image

/-- Reads the next part of an image. -/
def part {α : Type} [Codec α] (input : List UInt8) : Except ImageError (α × List UInt8) :=
  match Codec.decode (α := α) input with
  | .ok v rest => .ok (v, rest)
  | .error e _ => .error (.malformed e)

/-- Reads an image, all of whose bytes have to be used, and checks the program in it. -/
def ofBytes (bytes : List UInt8) : Except ImageError Image := do
  if bytes.length < 6 then throw .truncated
  let (found, rest) ← part (α := Vector UInt8 6) bytes
  if found ≠ magic then throw .badMagic
  let (version, rest) ← part (α := Version) rest
  if version ≠ currentVersion then throw .unsupportedVersion
  let (image, rest) ← part (α := Image) rest
  if !rest.isEmpty then throw .trailingBytes
  match Code.validate image.words image.length.toNat with
  | .ok () => return image
  | .error e => throw (.code e)

/-- The words of the image that form its program. -/
def programWords (image : Image) : Array Word := image.words.take image.length.toNat

/-- The program in an image, checked. -/
def toProgram (image : Image) : Except CodeError Program :=
  if image.words.size < image.length.toNat then
    .error (.badLength image.length.toNat image.words.size)
  else Program.ofWords image.programWords

/-- The SHA3-256 digest of the program's words, in hexadecimal. -/
def fingerprint (image : Image) : String := Hex.bytes (Codec.digest image.programWords)

end Image

/-- The image of a program. -/
def Program.image (p : Program) : Image := ⟨p.words, UInt32.ofNat p.length⟩

end BytecodeSearch
