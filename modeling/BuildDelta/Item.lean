import BuildDelta.Fingerprint
import BuildDelta.Frame
import BuildDelta.Table.Basic
/-!
# Items

What a snapshot is made of. An item names its key, which identifies it from one scan to the next,
and can be compared with an item of the same key. Two sorts are defined here: files with a
fingerprint, and bare keys, which never change.
-/

namespace BuildDelta

/-- The items that snapshots, differences and states are built from. -/
class Item (τ : Type) extends Keyed τ where
  /-- The tag of a state that holds such items. -/
  kind : String
  kind_fits : (Utf8.encode kind).length < 0x40000000
  /-- Whether an item is the same as an earlier one with its key. -/
  unchanged : τ → τ → Bool

/-- A file by its path below the root of a scan, with slashes between the names. -/
structure FileItem where
  relativePath : String
  fingerprint : FileFingerprint
deriving DecidableEq

namespace FileItem

instance : Item FileItem where
  key i := i.relativePath
  kind := "file"
  kind_fits := by decide +kernel
  unchanged a b := a.fingerprint = b.fingerprint

instance : Wire.Format FileItem where
  write i := Wire.write i.relativePath ++ Wire.write i.fingerprint
  read := do
    let relativePath ← Wire.read
    let fingerprint ← Wire.read
    pure ⟨relativePath, fingerprint⟩

/-- An item as far as its text has been read. -/
structure Draft where
  relativePath : Option String := none
  fingerprint : Option FileFingerprint := none

def Draft.build (d : Draft) : Option FileItem := do
  some ⟨← d.relativePath, ← d.fingerprint⟩

instance : Json.Format FileItem where
  tokens i := Json.object [
    ("relative_path", Json.Format.tokens i.relativePath),
    ("fingerprint", Json.Format.tokens i.fingerprint)]
  read := Json.Reader.record [
    .of "relative_path" Draft.relativePath (fun d s => { d with relativePath := some s }) .text,
    .of "fingerprint" Draft.fingerprint (fun d f => { d with fingerprint := some f })
      Json.Format.read]
    {} Draft.build

end FileItem

structure KeyItem where
  name : String
deriving DecidableEq

namespace KeyItem

instance : Item KeyItem where
  key i := i.name
  kind := "key"
  kind_fits := by decide +kernel
  unchanged _ _ := true

instance : Wire.Format KeyItem where
  write i := Wire.write i.name
  read := KeyItem.mk <$> Wire.read

instance : Json.Format KeyItem where
  tokens i := Json.Format.tokens i.name
  read := KeyItem.mk <$> Json.Reader.text

end KeyItem

end BuildDelta
