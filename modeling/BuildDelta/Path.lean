import BuildDelta.Text.Quoted
/-!
# Paths

A path is a byte string with slashes between its names; it need not be text. What a path means is
seen through `components`, in which doubled slashes and most single dots have disappeared, while its
bytes are kept as they were given, for messages and for joining.
-/

namespace BuildDelta

structure Path where
  bytes : Bytes
deriving DecidableEq

namespace Path

def slash : UInt8 := 0x2F

def dot : UInt8 := 0x2E

def ofString (s : String) : Path := ⟨Utf8.encode s⟩

/-- For people and for keys: what is no text is replaced. -/
def text (p : Path) : String := Utf8.decodeLossy p.bytes

def quoted (p : Path) : String := Text.quotedBytes p.bytes

def isAbsolute (p : Path) : Bool := p.bytes.head? = some slash

/-- A path as seen from another one. -/
def join (p q : Path) : Path :=
  if q.isAbsolute || p.bytes.isEmpty then q
  else if p.bytes.getLast? = some slash then ⟨p.bytes ++ q.bytes⟩
  else ⟨p.bytes ++ slash :: q.bytes⟩

/-- The pieces between slashes, with empty ones. -/
def split : Bytes → List Bytes
  | [] => [[]]
  | b :: bs =>
    if b = slash then [] :: split bs
    else match split bs with
      | piece :: pieces => (b :: piece) :: pieces
      | [] => [[b]]

inductive Component where
  | root
  | here
  | above
  | name (bytes : Bytes)
deriving DecidableEq

namespace Component

def ofPiece (piece : Bytes) : Component :=
  if piece = [dot] then .here
  else if piece = [dot, dot] then .above
  else .name piece

def bytes : Component → Bytes
  | .root => [slash]
  | .here => [dot]
  | .above => [dot, dot]
  | .name n => n

end Component

def firstComponent (p : Path) (piece : Bytes) : List Component :=
  if p.isAbsolute then [.root]
  else if piece = [] then []
  else [.ofPiece piece]

/-- A single dot counts only at the very start. -/
def components (p : Path) : List Component :=
  match split p.bytes with
  | [] => []
  | first :: pieces =>
    firstComponent p first ++
      ((pieces.filter (· ≠ [])).map Component.ofPiece).filter (· ≠ .here)

def ofComponents : List Component → Path
  | [] => ⟨[]⟩
  | c :: cs => cs.foldl (fun p c => p.join ⟨c.bytes⟩) ⟨c.bytes⟩

def fileName? (p : Path) : Option Bytes :=
  match p.components.getLast? with
  | some (.name n) => some n
  | _ => none

/-- What stands before and after the last dot of a name. A dot at the very start separates
nothing. -/
def splitExtension (name : Bytes) : Bytes × Option Bytes :=
  match name.reverse.dropWhile (· ≠ dot) with
  | [] | [_] => (name, none)
  | _ :: stem => (stem.reverse, some (name.reverse.takeWhile (· ≠ dot)).reverse)

def extension? (p : Path) : Option Bytes := do
  (splitExtension (← p.fileName?)).2

/-- A name with its extension exchanged. It is cut back to the dot first and gets the new extension
after that, unless what is left means the directory above. -/
def renamed (name extension : Bytes) : Bytes :=
  match splitExtension name with
  | (_, none) => name ++ dot :: extension
  | (stem, some _) => if stem = [dot] then [dot, dot] else stem ++ dot :: extension

/-- Exchanges the extension of a path that ends in a name. -/
def withExtension (p : Path) (extension : String) : Path :=
  let reversed := p.bytes.reverse
  let name := (reversed.takeWhile (· ≠ slash)).reverse
  let directory := (reversed.dropWhile (· ≠ slash)).reverse
  ⟨directory ++ renamed name (Utf8.encode extension)⟩

end Path

end BuildDelta
