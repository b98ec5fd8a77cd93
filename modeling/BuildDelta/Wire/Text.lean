import BuildDelta.Wire.Integer
/-!
# Texts and lists on the wire

A text is the number of its bytes and then its UTF-8 form. It is copied into a buffer of that length,
which is made before anybody knows whether the bytes are there. A list is the number of its elements
and then the elements.
-/

namespace BuildDelta.Wire

instance : Format String where
  write s := writeUnsigned (Utf8.encode s).length ++ Utf8.encode s
  read := do
    let n ← readUnsigned .word64
    let bs ← Reader.take n (.shortText n)
    match Utf8.decode bs with
    | .ok s => pure s
    | .error flaw => .fail (.notUtf8 flaw)

variable {α : Type}

def writeList (write : α → Bytes) (xs : List α) : Bytes :=
  writeUnsigned xs.length ++ xs.flatMap write

def readList (read : Reader α) : Reader (List α) := do
  let n ← readUnsigned .count
  read.times n

instance [Format α] : Format (List α) where
  write := writeList write
  read := readList read

end BuildDelta.Wire
