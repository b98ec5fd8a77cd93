import BuildDelta.Bytes
import BuildDelta.ContentHash.Xxh3
/-!
# Content hashes

Sixteen bytes that stand for a byte string. Files with equal hashes are taken to have equal
contents, and every state file carries the hash of its payload as a checksum.
-/

namespace BuildDelta

structure ContentHash where
  toBytes : Bytes
  length_toBytes : toBytes.length = 16
deriving DecidableEq

namespace ContentHash

@[ext] theorem ext {a b : ContentHash} (h : a.toBytes = b.toBytes) : a = b := by
  obtain ⟨as, _⟩ := a
  obtain ⟨bs, _⟩ := b
  simpa using h

/-- The hash of a byte string, low word first. -/
def ofBytes (data : Bytes) : ContentHash :=
  let h := Xxh3.hash data.toByteArray
  ⟨Bytes.littleEndian 8 h.low.toNat ++ Bytes.littleEndian 8 h.high.toNat, by simp⟩

def hex (h : ContentHash) : String :=
  Bytes.hex h.toBytes

/-- The first two bytes, for messages where the whole hash would be noise. -/
def brief (h : ContentHash) : String :=
  "ContentHash(" ++ Bytes.hex (h.toBytes.take 2) ++ "..)"

end ContentHash

end BuildDelta
