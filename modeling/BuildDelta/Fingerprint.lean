import BuildDelta.ContentHash.Format
import BuildDelta.Json.Reader
import BuildDelta.Wire.Text
/-!
# Fingerprints of files

What is remembered of a file, so that a change can be noticed later: either its time and length, or
a hash of its contents. Fingerprints of different sorts are never equal.
-/

namespace BuildDelta

inductive FingerprintMode where
  | metadata
  | content
deriving DecidableEq, Repr

inductive FileFingerprint where
  /-- Time of the last change, in nanoseconds since 1970, and length. -/
  | metadata (modifiedNs len : UInt64)
  | content (hash : ContentHash) (len : UInt64)
deriving DecidableEq

namespace FileFingerprint

def len : FileFingerprint → UInt64
  | .metadata _ len | .content _ len => len

/-- The number of the sort, then the parts. -/
instance : Wire.Format FileFingerprint where
  write
    | .metadata modifiedNs len =>
      Wire.writeUnsigned 0 ++ Wire.write modifiedNs ++ Wire.write len
    | .content hash len =>
      Wire.writeUnsigned 1 ++ Wire.write hash ++ Wire.write len
  read := do
    match ← Wire.readUnsigned .word32 with
    | 0 =>
      let modifiedNs ← Wire.read
      let len ← Wire.read
      pure (.metadata modifiedNs len)
    | 1 =>
      let hash ← Wire.read
      let len ← Wire.read
      pure (.content hash len)
    | n => .fail (.unknownVariant n 2)

end FileFingerprint

namespace ContentHash

/-- A byte, as a number below 256. -/
def readByte : Json.Reader UInt8 := do
  let n ← Json.Reader.below 256
  pure (UInt8.ofNatLT n.val n.property)

instance : Json.Format ContentHash where
  tokens h := Json.array (h.toBytes.map fun b => [.natural b.toNat])
  read := do
    let bytes ← Json.Reader.list readByte
    if h : bytes.length = 16 then pure ⟨bytes, h⟩ else .fail .malformed

end ContentHash

namespace FileFingerprint

/-- The parts of a fingerprint as far as its text has been read: a time or a hash, and a length. -/
structure Draft (α : Type) where
  mark : Option α := none
  len : Option UInt64 := none

def Draft.build {α : Type} (combine : α → UInt64 → FileFingerprint) (d : Draft α) :
    Option FileFingerprint := do
  some (combine (← d.mark) (← d.len))

/-- A mark under this name, and the length. -/
def readParts {α : Type} [Json.Format α] (name : String)
    (combine : α → UInt64 → FileFingerprint) : Json.Reader FileFingerprint :=
  .record [
    .of name Draft.mark (fun d a => { d with mark := some a }) Json.Format.read,
    .of "len" Draft.len (fun d n => { d with len := some n }) .word]
    {} (Draft.build combine)

/-- An object with one field, named for the sort. -/
instance : Json.Format FileFingerprint where
  tokens
    | .metadata modifiedNs len => Json.object [("Metadata", Json.object [
        ("modified_ns", Json.Format.tokens modifiedNs), ("len", Json.Format.tokens len)])]
    | .content hash len => Json.object [("Content", Json.object [
        ("hash", Json.Format.tokens hash), ("len", Json.Format.tokens len)])]
  read := do
    .expect .openObject
    let sort ← .text
    .expect .colon
    let fingerprint ←
      if sort = "Metadata" then readParts "modified_ns" .metadata
      else if sort = "Content" then readParts "hash" .content
      else .fail .malformed
    .expect .closeObject
    pure fingerprint

end FileFingerprint

end BuildDelta
