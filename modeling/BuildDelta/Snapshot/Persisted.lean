import BuildDelta.Snapshot.Basic
/-!
# Snapshots as states and as JSON

Both forms hold the root and the list of items in order of keys. Reading takes the items in any
order, but refuses a list in which a key occurs twice: a state written here never holds one.
-/

namespace BuildDelta.Snapshot

variable {τ : Type} [Item τ]

/-- The root and the items, before any look at the keys. -/
def readParts [Wire.Format τ] : Wire.Reader (String × List τ) := do
  let root ← Wire.read
  let items ← Wire.read
  pure (root, items)

/-- A snapshot inside a larger state. -/
instance [Wire.Format τ] : Wire.Format (Snapshot τ) where
  write s := Wire.write s.root ++ Wire.write s.items.toList
  read := do
    let (root, items) ← readParts
    match ofItems root items with
    | .ok s => pure s
    | .error e => .fail (.repeatedKey e.key)

def frameKind (τ : Type) [Item τ] : Frame.Kind where
  name := Item.kind τ
  fits := Nat.lt_trans (Item.kind_fits (τ := τ)) (by decide)

/-- The state file of a snapshot. -/
def serialize [Wire.Format τ] (s : Snapshot τ)
    (checksum : Frame.Checksum := ContentHash.ofBytes) : Bytes :=
  Frame.encode (frameKind τ) (Wire.write s) checksum

def deserialize [Wire.Format τ] (bytes : Bytes)
    (checksum : Frame.Checksum := ContentHash.ofBytes) (memory : Nat := Bytes.addressable) :
    Except CorruptState (Snapshot τ) := do
  let (root, items) ← Frame.decode (frameKind τ) readParts bytes checksum memory
  match ofItems root items with
  | .ok s => pure s
  | .error e => throw (.duplicateKey e.key)

/-- A snapshot as far as its text has been read. -/
structure Draft (τ : Type) where
  root : Option String := none
  items : Option (List τ) := none

def Draft.build (d : Draft τ) : Option (String × List τ) := do
  some (← d.root, ← d.items)

instance [Json.Format τ] : Json.Format (Snapshot τ) where
  tokens s := Json.object [
    ("root", Json.Format.tokens s.root),
    ("items", Json.Format.tokens s.items.toList)]
  read := do
    let (root, items) ← Json.Reader.record [
      .of "root" Draft.root (fun d s => { d with root := some s }) .text,
      .of "items" Draft.items (fun d is => { d with items := some is }) Json.Format.read]
      {} Draft.build
    match ofItems root items with
    | .ok s => pure s
    | .error e => .fail (.repeatedKey e.key)

end BuildDelta.Snapshot
