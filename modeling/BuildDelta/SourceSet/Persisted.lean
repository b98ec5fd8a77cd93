import BuildDelta.Snapshot.Persisted
import BuildDelta.SourceSet.Basic
/-!
# Source sets as states and as JSON

The project's root, the snapshot of the names, and the snapshots in order of names. When a name
occurs twice in what is read, the later snapshot is taken.
-/

namespace BuildDelta

/-- A name and what is under it follow each other. -/
instance {α : Type} [Wire.Format α] : Wire.Format (String × α) where
  write p := Wire.write p.1 ++ Wire.write p.2
  read := do
    let name ← Wire.read
    let a ← Wire.read
    pure (name, a)

namespace SourceSet

theorem kind_fits {name : String} (h : (Utf8.encode name).length < 0x40000000) :
    (Utf8.encode ("source-set:" ++ name)).length < 0x80000000 := by
  have happ : Utf8.encode ("source-set:" ++ name) =
      Utf8.encode "source-set:" ++ Utf8.encode name := by
    simp [Utf8.encode, Utf8.encodeChars]
  have hlen : (Utf8.encode "source-set:").length = 11 := by decide +kernel
  rw [happ, List.length_append, hlen]
  omega

def frameKind (τ : Type) [Item τ] : Frame.Kind where
  name := "source-set:" ++ Item.kind τ
  fits := kind_fits Item.kind_fits

variable {τ : Type} [Item τ]

instance [Wire.Format τ] : Wire.Format (SourceSet τ) where
  write s := Wire.write s.projectRoot ++ Wire.write s.directories ++ Wire.write s.sets.toList
  read := do
    let projectRoot ← Wire.read
    let directories ← Wire.read
    let sets ← Wire.read
    pure ⟨projectRoot, directories, .ofList sets⟩

/-- The state file of a source set. -/
def serialize [Wire.Format τ] (s : SourceSet τ)
    (checksum : Frame.Checksum := ContentHash.ofBytes) : Bytes :=
  Frame.encode (frameKind τ) (Wire.write s) checksum

def deserialize [Wire.Format τ] (bytes : Bytes)
    (checksum : Frame.Checksum := ContentHash.ofBytes) (memory : Nat := Bytes.addressable) :
    Except CorruptState (SourceSet τ) :=
  Frame.decode (frameKind τ) Wire.read bytes checksum memory

/-- A source set as far as its text has been read. -/
structure Draft (τ : Type) [Item τ] where
  projectRoot : Option String := none
  directories : Option (Snapshot KeyItem) := none
  sets : Option (List (String × Snapshot τ)) := none

def Draft.build (d : Draft τ) : Option (SourceSet τ) := do
  some ⟨← d.projectRoot, ← d.directories, .ofList (← d.sets)⟩

instance [Json.Format τ] : Json.Format (SourceSet τ) where
  tokens s := Json.object [
    ("project_root", Json.Format.tokens s.projectRoot),
    ("directories", Json.Format.tokens s.directories),
    ("sets", Json.object (s.sets.toList.map fun (name, set) => (name, Json.Format.tokens set)))]
  read := Json.Reader.record [
    .of "project_root" Draft.projectRoot (fun d s => { d with projectRoot := some s }) .text,
    .of "directories" Draft.directories (fun d s => { d with directories := some s })
      Json.Format.read,
    .of "sets" Draft.sets (fun d s => { d with sets := some s }) (.entries Json.Format.read)]
    {} Draft.build

end SourceSet

end BuildDelta
