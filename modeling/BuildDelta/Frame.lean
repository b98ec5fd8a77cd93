import BuildDelta.ContentHash.Format
import BuildDelta.Wire.Text
/-!
# State frames

A state file is four magic bytes, the header's length in four bytes, the header, and the payload.
The header holds a format version, a tag for the kind of state, and a checksum of the payload.
Anything that does not fit is reported as a `CorruptState`, so that an old or damaged file counts as
no state instead of being misread.

The checksum is a parameter of both directions: what is said about frames holds for any function of
the payload. So is the length of the longest buffer that there is room for. The frame itself stands in
one; it is the length of a text that is not there for which there may be no room, and then the program
ends.
-/

namespace BuildDelta

/-- Why there is no state of the expected kind. All but the last say why the bytes cannot be trusted. -/
inductive CorruptState where
  | truncated (length : Nat)
  | badMagic
  | wrongVersion (actual : Nat)
  | wrongKind (expected actual : String)
  | checksumMismatch (expected actual : ContentHash)
  | badHeader (cause : Wire.Error)
  | badPayload (cause : Wire.Error)
  | trailingBytes (count : Nat)
  | duplicateKey (key : String)
  /-- Nothing was found out about the bytes. -/
  | outOfMemory (crash : OutOfMemory)
deriving DecidableEq

namespace CorruptState

/-- The length of a text that is not there. -/
def missingText? : CorruptState → Option Nat
  | .badHeader cause => cause.missingText?
  | .badPayload cause => cause.missingText?
  | _ => none

/-- What an error comes to where no buffer is longer than `memory`. A text that is not there is missed
only after a buffer has been made for it. -/
def within (memory : Nat) (e : CorruptState) : CorruptState :=
  match e.missingText? with
  | some length => if memory < length then .outOfMemory ⟨length⟩ else e
  | none => e

end CorruptState

namespace Frame

def magic : Bytes := [0x49, 0x4E, 0x43, 0x52]

def version : Nat := 1

/-- A tag for the kind of state in a frame. It is short enough for every header's length to fit in
four bytes. -/
structure Kind where
  name : String
  fits : (Utf8.encode name).length < 0x80000000

def Kind.ofString? (name : String) : Option Kind :=
  if fits : (Utf8.encode name).length < 0x80000000 then some ⟨name, fits⟩ else none

structure Header where
  version : Nat
  kind : String
  checksum : ContentHash

instance : Wire.Format Header where
  write h := Wire.writeUnsigned h.version ++ Wire.write h.kind ++ Wire.write h.checksum
  read := do
    let version ← Wire.readUnsigned .word32
    let kind ← Wire.read
    let checksum ← Wire.read
    pure ⟨version, kind, checksum⟩

/-- A function that hashes a payload. -/
abbrev Checksum := Bytes → ContentHash

def encode (kind : Kind) (payload : Bytes) (checksum : Checksum := ContentHash.ofBytes) : Bytes :=
  let header := Wire.write (⟨version, kind.name, checksum payload⟩ : Header)
  magic ++ Bytes.littleEndian 4 header.length ++ header ++ payload

variable {α : Type}

/-- Checks a frame from front to back and reads its payload, with room for whatever that takes. What
follows the checksum inside the header's length is skipped. -/
def parse (kind : Kind) (payload : Wire.Reader α) (bytes : Bytes) (checksum : Checksum) :
    Except CorruptState α := do
  if bytes.length < 8 then throw (.truncated bytes.length)
  if bytes.take 4 ≠ magic then throw .badMagic
  let headerLength := Bytes.toNat ((bytes.drop 4).take 4)
  let body := bytes.drop 8
  if body.length < headerLength then throw (.truncated bytes.length)
  let header ← match (Wire.read : Wire.Reader Header) (body.take headerLength) with
    | .ok (header, _) => pure header
    | .error e => throw (.badHeader e)
  if header.version ≠ version then throw (.wrongVersion header.version)
  if header.kind ≠ kind.name then throw (.wrongKind kind.name header.kind)
  let data := body.drop headerLength
  if checksum data ≠ header.checksum then
    throw (.checksumMismatch header.checksum (checksum data))
  match payload data with
  | .ok (value, []) => pure value
  | .ok (_, rest) => throw (.trailingBytes rest.length)
  | .error e => throw (.badPayload e)

/-- Decodes a frame in this much memory. -/
def decode (kind : Kind) (payload : Wire.Reader α) (bytes : Bytes)
    (checksum : Checksum := ContentHash.ofBytes) (memory : Nat := Bytes.addressable) :
    Except CorruptState α :=
  (parse kind payload bytes checksum).mapError (.within memory)

end Frame

namespace CorruptState

def message : CorruptState → String
  | .truncated n => "persisted state is truncated (" ++ toString n ++ " bytes)"
  | .badMagic => "persisted state has bad magic bytes"
  | .wrongVersion v =>
    "persisted state format version mismatch: expected " ++ toString Frame.version ++ ", got " ++
      toString v
  | .wrongKind expected actual =>
    "persisted state kind mismatch: expected '" ++ expected ++ "', got '" ++ actual ++ "'"
  | .checksumMismatch expected actual =>
    "persisted state checksum mismatch: expected " ++ expected.hex ++ ", got " ++ actual.hex
  | .badHeader e => "failed to decode persisted state: header: " ++ e.message
  | .badPayload e => "failed to decode persisted state: " ++ e.message
  | .trailingBytes n => "persisted state has " ++ toString n ++ " trailing bytes"
  | .duplicateKey key => Wire.repeatedKeyMessage key
  | .outOfMemory crash => crash.message

end CorruptState

end BuildDelta
