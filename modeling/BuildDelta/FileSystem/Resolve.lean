import BuildDelta.FileSystem.Error
import BuildDelta.FileSystem.Node
/-!
# Finding what a path names

A path is followed name by name, from the top of the tree or from the working directory. A link on
the way is replaced by its target; whether one at the end is, depends on what the path is followed
for. At most forty links are followed.
-/

namespace BuildDelta

/-- A file tree as a program sees it. -/
structure FileSystem where
  top : FileSystem.Node
  workingDirectory : FileSystem.Place
  /-- The time that is put on a file when it is written. -/
  clock : Int

namespace FileSystem

inductive Found where
  | node (place : Place) (node : Node)
  /-- A directory that does not hold the last name. -/
  | missing (parent : Place) (name : Name)

/-- What a path is followed for. -/
inductive Purpose where
  /-- What is under the last name, be it a link. -/
  | entry
  /-- What is behind any link. -/
  | target
  /-- A file behind any link, to be written, and to be made if it is missing. -/
  | output
deriving DecidableEq, Repr

inductive Step where
  | component (c : Path.Component)
  /-- A slash at the end asks for a directory. -/
  | slash
deriving DecidableEq

/-- The names and dots of a path in order. -/
def steps (p : Bytes) : List Step :=
  ((Path.split p).filter (· ≠ [])).map (fun piece => .component (.ofPiece piece)) ++
    (if p.getLast? = some Path.slash then [.slash] else [])

def maxLinks : Nat := 40

def maxNameLength : Nat := 255

/-- The length from which on a path is refused. -/
def pathLimit : Nat := 4096

/-- Follows steps from a directory. `jump` goes on after a link has been replaced. A slash behind the
last name of an output is refused before the name is looked up. -/
def walk (top : Node) (purpose : Purpose) (jump : Place → List Step → Except Error Found) :
    Place → List Step → Except Error Found
  | place, [] =>
    match top.get? place with
    | some n => .ok (.node place n)
    | none => .error .notFound
  | place, .slash :: rest => walk top purpose jump place rest
  | place, .component .here :: rest => walk top purpose jump place rest
  | _, .component .root :: rest => walk top purpose jump [] rest
  | place, .component .above :: rest => walk top purpose jump place.dropLast rest
  | place, .component (.name name) :: rest =>
    if purpose = .output ∧ rest = [.slash] then .error .isDirectory
    else if maxNameLength < name.length then .error .nameTooLong
    else match top.get? (place ++ [name]) with
      | none => if rest.isEmpty then .ok (.missing place name) else .error .notFound
      | some (.directory ..) => walk top purpose jump (place ++ [name]) rest
      | some (.file f) =>
        if rest.isEmpty then .ok (.node (place ++ [name]) (.file f)) else .error .notDirectory
      | some .special =>
        if rest.isEmpty then .ok (.node (place ++ [name]) .special) else .error .notDirectory
      | some (.link target) =>
        if rest.isEmpty ∧ purpose = .entry then .ok (.node (place ++ [name]) (.link target))
        else jump (if target.head? = some Path.slash then [] else place) (steps target ++ rest)

/-- Follows steps and at most so many links. -/
def walkLinks (top : Node) (purpose : Purpose) :
    (links : Nat) → Place → List Step → Except Error Found
  | 0 => walk top purpose fun _ _ => .error .tooManyLinks
  | links + 1 => walk top purpose (walkLinks top purpose links)

/-- What the system refuses by the look of a path alone. -/
def checkPath (p : Path) : Except Error Unit :=
  if p.bytes.contains 0 then .error .nulInPath
  else if pathLimit ≤ p.bytes.length then .error .nameTooLong
  else if p.bytes.isEmpty then .error .notFound
  else .ok ⟨⟩

def resolve (fs : FileSystem) (purpose : Purpose) (p : Path) : Except Error Found := do
  checkPath p
  walkLinks fs.top purpose maxLinks (if p.isAbsolute then [] else fs.workingDirectory)
    (steps p.bytes)

/-- What a path names, behind all links. -/
def stat (fs : FileSystem) (p : Path) : Except Error Node := do
  match ← fs.resolve .target p with
  | .node _ n => pure n
  | .missing .. => throw .notFound

def isDirectory (fs : FileSystem) (p : Path) : Bool :=
  match fs.stat p with
  | .ok n => n.isDirectory
  | .error _ => false

def contentAt (fs : FileSystem) (p : Path) : Except Error Bytes := do
  match ← fs.stat p with
  | .file f => if f.readable then pure f.content else throw .accessDenied
  | .special => throw .noDevice
  | _ => throw .isDirectory

end FileSystem

end BuildDelta
