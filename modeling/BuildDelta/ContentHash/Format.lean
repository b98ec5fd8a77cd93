import BuildDelta.ContentHash
import BuildDelta.Wire.Basic
/-!
# Hashes on the wire

The sixteen bytes of a hash follow each other with no length in front. They are read one by one, so
a hash that is cut short is always one byte short.
-/

namespace BuildDelta.ContentHash

/-- Reads `n` single bytes. -/
def readBytes : (n : Nat) → Wire.Reader { bs : Bytes // bs.length = n }
  | 0 => pure ⟨[], rfl⟩
  | n + 1 => do
    let b ← Wire.Reader.take 1
    let bs ← readBytes n
    pure ⟨b.headD 0 :: bs.val, by simp [bs.property]⟩

instance : Wire.Format ContentHash where
  write h := h.toBytes
  read := do
    let bs ← readBytes 16
    pure ⟨bs.val, bs.property⟩

end BuildDelta.ContentHash
