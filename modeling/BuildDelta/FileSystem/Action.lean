import BuildDelta.FileSystem.Resolve
/-!
# Changing a file tree

An action may change the tree and may fail; what it changed before it failed stays changed.
-/

namespace BuildDelta.FileSystem

/-- Something that is done to a file tree. -/
abbrev Action (ε α : Type) := ExceptT ε (StateM FileSystem) α

namespace Action

variable {ε ε' α : Type}

/-- A look at the tree. -/
def ask (f : FileSystem → Except ε α) : Action ε α := fun fs => (f fs, fs)

/-- A change that cannot fail. -/
def update (f : FileSystem → FileSystem) : Action ε PUnit := fun fs => (.ok ⟨⟩, f fs)

/-- What an action does, with its failure as a result. -/
def attempt (a : Action ε α) : Action ε' (Except ε α) := fun fs =>
  let (r, fs) := a.run fs
  (.ok r, fs)

/-- The same action, with another word for its failure. -/
def withError (f : ε → ε') (a : Action ε α) : Action ε' α := fun fs =>
  let (r, fs) := a.run fs
  (r.mapError f, fs)

end Action

/-- Sets or removes a name in the directory at a place. -/
def put (parent : Place) (name : Name) (node? : Option Node) : Action Error PUnit :=
  .update fun fs => { fs with top := fs.top.set name node? parent }

/-- A place as its parent and its last name; the top of the tree has neither. -/
def splitLast? (place : Place) : Option (Place × Name) :=
  place.getLast?.map (place.dropLast, ·)

/-- Exchanges the node at a place that is not the top. -/
def replace (place : Place) (node? : Option Node) : Action Error PUnit := do
  match splitLast? place with
  | some (parent, name) => put parent name node?
  | none => throw .isDirectory

/-- Without the slashes at its end. -/
def trimSlashes (p : Path) : Path :=
  ⟨(p.bytes.reverse.dropWhile (· = Path.slash)).reverse⟩

/-- Makes one directory in an existing one. -/
def makeDirectory (p : Path) : Action Error PUnit := do
  .ask fun _ => checkPath p
  match ← .ask fun fs => fs.resolve .entry (if trimSlashes p = ⟨[]⟩ then p else trimSlashes p) with
  | .node .. => throw .exists
  | .missing parent name => put parent name (some .emptyDirectory)

/-- Goes on if there is a directory by now, whatever was in the way of making one. -/
def orExisting (p : Path) (e : Error) : Action Error PUnit := do
  unless ← .ask fun fs => .ok (fs.isDirectory p) do throw e

/-- Makes a directory; if the one above is missing, `makeParent` makes that first. -/
def makeWith (makeParent : Action Error PUnit) (p : Path) : Action Error PUnit := do
  match ← (makeDirectory p).attempt with
  | .ok _ => pure ⟨⟩
  | .error .notFound =>
    makeParent
    match ← (makeDirectory p).attempt with
    | .ok _ => pure ⟨⟩
    | .error e => orExisting p e
  | .error e => orExisting p e

/-- Makes the directory of these components, last one first, and all above it. -/
def makeAll : List Path.Component → Action Error PUnit
  | [] => pure ⟨⟩
  | c :: above => makeWith (makeAll above) (.ofComponents (c :: above).reverse)

/-- Makes a directory and those above it, as far as they are missing. The empty path needs none. -/
def makeDirectories (p : Path) : Action Error PUnit :=
  if p.bytes.isEmpty then pure ⟨⟩
  else makeWith (makeAll p.components.dropLast.reverse) p

/-- Writes a file, in place of the content that was there. -/
def writeFile (p : Path) (content : Bytes) : Action Error PUnit := do
  let file : File := ⟨content, (← get).clock, true⟩
  match ← .ask fun fs => fs.resolve .output p with
  | .node place (.file old) => replace place (some (.file { file with readable := old.readable }))
  | .node _ .special => throw .noDevice
  | .node .. => throw .isDirectory
  | .missing parent name => put parent name (some (.file file))

/-- Gives a file or a link another name, in place of a file that has the name so far. -/
def renameFile (source target : Path) : Action Error PUnit := do
  match ← .ask fun fs => fs.resolve .entry source with
  | .missing .. => throw .notFound
  | .node place n =>
    match ← .ask fun fs => fs.resolve .entry target with
    | .node _ (.directory ..) => throw .isDirectory
    | .node place' _ =>
      replace place none
      replace place' (some n)
    | .missing parent name =>
      replace place none
      put parent name (some n)

/-- Removes a file or a link, but no directory. -/
def removeFile (p : Path) : Action Error PUnit := do
  match ← .ask fun fs => fs.resolve .entry p with
  | .missing .. => throw .notFound
  | .node _ (.directory ..) => throw .isDirectory
  | .node place _ => replace place none

/-- Gives a file another time of its last change. -/
def setModified (p : Path) (modified : Int) : Action Error PUnit := do
  match ← .ask fun fs => fs.resolve .target p with
  | .node place (.file f) => replace place (some (.file { f with modified }))
  | .node .. => pure ⟨⟩
  | .missing .. => throw .notFound

def makeLink (p : Path) (target : Bytes) : Action Error PUnit := do
  match ← .ask fun fs => fs.resolve .entry p with
  | .node .. => throw .exists
  | .missing parent name => put parent name (some (.link target))

/-- Removes whatever a path names, with all that is in it. -/
def removeTree (p : Path) : Action Error PUnit := do
  match ← .ask fun fs => fs.resolve .entry p with
  | .node place _ => replace place none
  | .missing .. => throw .notFound

/-- Puts a whole tree into an existing directory, however long the paths in it become. -/
def graft (p : Path) (name : Name) (n : Node) : Action Error PUnit := do
  match ← .ask fun fs => fs.resolve .target p with
  | .node place (.directory ..) => put place name (some n)
  | .node .. => throw .notDirectory
  | .missing .. => throw .notFound

end BuildDelta.FileSystem
