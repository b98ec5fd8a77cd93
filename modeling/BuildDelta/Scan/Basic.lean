import BuildDelta.PathFilter
import BuildDelta.Scan.Tree
import BuildDelta.Snapshot.Basic
/-!
# Scanning a directory

A scan makes an item of every file below a directory that a filter accepts. It gives everything or
nothing: the first thing that goes wrong ends it. The entries of the root can be walked one by one
or each on its own; files are found either way.
-/

namespace BuildDelta

structure ScanOptions where
  fingerprint : FingerprintMode := .metadata
  /-- Whether each entry of the root is walked on its own. -/
  parallel : Bool := false
deriving DecidableEq, Repr

def ScanOptions.ofSettings (s : SnapshotSettings) : ScanOptions :=
  ⟨s.fingerprint, s.parallel⟩

inductive ScanError where
  | missingRoot (root : Path)
  | notADirectory (root : Path)
  | walk (path : Path) (cause : FileSystem.Error)
  | io (path : Path) (cause : FileSystem.Error)
  /-- A name that is no text could share its key with another file. -/
  | notUtf8 (path : Path)
  | duplicateKey (e : DuplicateKey)
  /-- What a scan is compared with could not be read, and there was no going on without it. -/
  | outOfMemory (crash : OutOfMemory)
deriving DecidableEq

def ScanError.message : ScanError → String
  | .missingRoot root => "scan root " ++ root.text ++ " does not exist"
  | .notADirectory root => "scan root " ++ root.text ++ " is not a directory"
  | .walk path cause =>
    "failed to walk " ++ path.text ++ ": IO error for operation on " ++ path.text ++ ": " ++
      cause.message
  | .io path cause => "failed to read " ++ path.text ++ ": " ++ cause.message
  | .notUtf8 path => "path " ++ path.quoted ++ " is not valid UTF-8"
  | .duplicateKey e => e.message
  | .outOfMemory crash => crash.message

/-- Items that can be made of files. -/
class Scannable (τ : Type) extends Item τ where
  ofFile : FingerprintMode → (key : String) → FileSystem.File → Except FileSystem.Error τ

/-- A time before 1970 counts as 1970, and one that does not fit as the last that does. -/
def clampTime (modified : Int) : UInt64 :=
  if modified < 0 then 0
  else if modified < 0x10000000000000000 then UInt64.ofNat modified.toNat
  else 0xFFFFFFFFFFFFFFFF

/-- Only a fingerprint of the content needs the file to be read. -/
def FileFingerprint.ofFile (mode : FingerprintMode) (f : FileSystem.File) :
    Except FileSystem.Error FileFingerprint :=
  let len := UInt64.ofNat f.content.length
  match mode with
  | .metadata => .ok (.metadata (clampTime f.modified) len)
  | .content =>
    if f.readable then .ok (.content (ContentHash.ofBytes f.content) len)
    else .error .accessDenied

instance : Scannable FileItem where
  ofFile mode key f := (FileFingerprint.ofFile mode f).map fun p => ⟨key, p⟩

instance : Scannable KeyItem where
  ofFile _ key _ := .ok ⟨key⟩

namespace Scan

variable {τ : Type} [Scannable τ]

/-- The names of a path with slashes between them, if they all are text. -/
def keyOf? (relative : Path) : Option String := do
  let names ← relative.components.mapM fun c => Utf8.decode? c.bytes
  some ("/".intercalate names)

/-- The item of a file, or nothing if the filter does not accept the file. -/
def examine (filter : Filter) (mode : FingerprintMode) : Event → Except ScanError (Option τ)
  | .blocked path cause => .error (.walk path cause)
  | .file path relative linked f =>
    if filter relative then
      match keyOf? relative with
      | none => .error (.notUtf8 path)
      | some key =>
        if !linked && tooLong path then .error (.walk path .nameTooLong)
        else ((Scannable.ofFile mode key f).mapError (.io path)).map some
    else .ok none

/-- What there is to look at below a root. -/
def events (fs : FileSystem) (root : Path) (parallel : Bool) : Except ScanError (List Event) :=
  match fs.stat root with
  | .ok (.directory readable entries) =>
    if parallel then
      if readable then .ok (entries.flatMap (visitAlone fs root))
      else .error (.io root .accessDenied)
    else .ok (visit fs root ⟨[]⟩ (.directory readable entries))
  | .ok _ => .error (.notADirectory root)
  | .error .notFound => .error (.missingRoot root)
  | .error e => .error (.io root e)

end Scan

namespace Snapshot

variable {τ : Type} [Scannable τ]

def scan (fs : FileSystem) (root : Path) (filter : Filter) (options : ScanOptions) :
    Except ScanError (Snapshot τ) := do
  let events ← Scan.events fs root options.parallel
  let items ← events.mapM (Scan.examine filter options.fingerprint)
  (ofItems root.text items.reduceOption).mapError .duplicateKey

/-- Where the file of an item is. -/
def absolutePath (s : Snapshot FileItem) (i : FileItem) : Path :=
  (Path.ofString s.root).join (.ofString i.relativePath)

end Snapshot

end BuildDelta
