import BuildDelta.FileSystem.Resolve
/-!
# Walking a tree

A walk lists what a scan has to look at, in the order in which it is met: files, and places that
could not be entered. Links to files count as the files behind them; special entries, and links to
anything else or to nothing, are passed over, so a walk never leaves the real directories below its
root.
-/

namespace BuildDelta.Scan

open FileSystem

inductive Event where
  /-- A file by its whole path and its path below the root. Whether a link led to it matters, for a
  link has been followed by its path already. -/
  | file (path relative : Path) (linked : Bool) (f : File)
  /-- A place that could not be entered, or not even looked at. -/
  | blocked (path : Path) (cause : FileSystem.Error)

def tooLong (p : Path) : Bool := pathLimit ≤ p.bytes.length

mutual

def visit (fs : FileSystem) (path relative : Path) : Node → List Event
  | .file f => [.file path relative false f]
  | .link _ =>
    match fs.stat path with
    | .ok (.file f) => [.file path relative true f]
    | _ => []
  | .directory readable entries =>
    if tooLong path then [.blocked path .nameTooLong]
    else if readable then visitEntries fs path relative entries
    else [.blocked path .accessDenied]
  | .special => []

def visitEntries (fs : FileSystem) (path relative : Path) : List (Name × Node) → List Event
  | [] => []
  | (name, n) :: rest =>
    visit fs (path.join ⟨name⟩) (relative.join ⟨name⟩) n ++ visitEntries fs path relative rest

end

/-- A walk that starts at an entry looks at the entry itself first. -/
def visitAlone (fs : FileSystem) (root : Path) (entry : Name × Node) : List Event :=
  let path := root.join ⟨entry.1⟩
  if tooLong path then [.blocked path .nameTooLong]
  else visit fs path ⟨entry.1⟩ entry.2

end BuildDelta.Scan
