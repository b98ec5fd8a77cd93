import BuildDelta.Path
import BuildDelta.Settings.Basic
/-!
# Path filters

Which files of a tree count: those with one of some extensions, letters being the same in both cases
of ASCII, and, if so wished, only those with no name that starts with a dot anywhere in their path.
-/

namespace BuildDelta

/-- Decides on a file by its path below the root of a scan. -/
abbrev Filter := Path → Bool

structure PathFilter where
  /-- Without dots in front; none means that all files count. -/
  extensions : List String
  skipHidden : Bool
deriving DecidableEq, Repr

namespace PathFilter

def new (extensions : List String) (skipHidden : Bool) : PathFilter :=
  ⟨extensions.map Text.dropDots, skipHidden⟩

def ofSettings (s : SnapshotSettings) : PathFilter :=
  new s.extensions s.skipHidden

def sameLetters (s t : String) : Bool :=
  s.toList.map Char.toLower = t.toList.map Char.toLower

def isHidden (p : Path) : Bool :=
  p.components.any fun c => c.bytes.head? = some Path.dot

/-- A path without an extension, or with one that is no text, has none of the extensions. -/
def hasExtension (extensions : List String) (p : Path) : Bool :=
  match p.extension?.bind Utf8.decode? with
  | some e => extensions.any (sameLetters · e)
  | none => false

def accepts (f : PathFilter) : Filter := fun p =>
  !(f.skipHidden && isHidden p) && (f.extensions.isEmpty || hasExtension f.extensions p)

end PathFilter

end BuildDelta
