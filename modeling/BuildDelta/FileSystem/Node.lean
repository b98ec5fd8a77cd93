import BuildDelta.Path
/-!
# File trees

A tree of directories, files, symbolic links and special entries. Names in a directory are byte
strings without slashes; a place in the tree is the list of names on the way to it.
-/

namespace BuildDelta.FileSystem

abbrev Name := Bytes

structure File where
  content : Bytes
  /-- Time of the last change, in nanoseconds since 1970. -/
  modified : Int
  readable : Bool := true

inductive Node where
  | file (f : File)
  | link (target : Bytes)
  | directory (readable : Bool) (entries : List (Name × Node))
  /-- None of these, but a socket or the like, which cannot be opened. -/
  | special

/-- A place, from the top of the tree. -/
abbrev Place := List Name

namespace Node

def emptyDirectory : Node := .directory true []

def isDirectory : Node → Bool
  | .directory .. => true
  | _ => false

def entry? (name : Name) : Node → Option Node
  | .directory _ entries => entries.lookup name
  | _ => none

def get? : Place → Node → Option Node
  | [], n => some n
  | name :: names, n => (n.entry? name).bind (get? names)

/-- The entries with one set, or without it. -/
def setIn (name : Name) (node? : Option Node) : List (Name × Node) → List (Name × Node)
  | [] => (node?.map (name, ·)).toList
  | (other, n) :: rest =>
    if other = name then (node?.map (name, ·)).toList ++ rest
    else (other, n) :: setIn name node? rest

/-- Sets or removes what a directory holds under a name. -/
def setEntry (name : Name) (node? : Option Node) : Node → Node
  | .directory readable entries => .directory readable (setIn name node? entries)
  | n => n

/-- Sets or removes a name in the directory at a place. -/
def set (name : Name) (node? : Option Node) : Place → Node → Node
  | [], n => n.setEntry name node?
  | next :: place, n =>
    match n.entry? next with
    | some inner => n.setEntry next (some (set name node? place inner))
    | none => n

/-- Directories of the same name inside each other, and in the last one this. -/
def nested (name : Name) : (depth : Nat) → Node → Node
  | 0, inner => inner
  | depth + 1, inner => .directory true [(name, nested name depth inner)]

/-- What a listing shows of an entry. A special one is shown as a file. -/
inductive Shown where
  | file (regular : Bool)
  | link (target : Bytes)
  | directory (readable : Bool)

def shown : Node → Shown
  | .file _ => .file true
  | .link target => .link target
  | .directory readable _ => .directory readable
  | .special => .file false

mutual

/-- Everything below a node: its path, and what is there. Links are not followed. -/
def listing (path : Path) : Node → List (Path × Shown)
  | .directory _ entries => listingOf path entries
  | _ => []

def listingOf (path : Path) : List (Name × Node) → List (Path × Shown)
  | [] => []
  | (name, n) :: rest =>
    let inner := path.join ⟨name⟩
    (inner, n.shown) :: listing inner n ++ listingOf path rest

end

end Node

end BuildDelta.FileSystem
