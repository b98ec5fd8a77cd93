import BuildDelta.FileSystem.Resolve
import BuildDelta.Settings.Reader
/-!
# A project's settings file

The settings of a project are in a file of a fixed name in the project's directory. A project without
the file can have the default settings; a file that is there has to be in order.
-/

namespace BuildDelta.Settings

inductive LoadError where
  | unreadable (cause : FileSystem.Error)
  | notUtf8
  | rejected (cause : Error)
deriving DecidableEq

def LoadError.message? : LoadError → Option String
  | .unreadable cause => some ("failed to read configuration: " ++ cause.message)
  | .notUtf8 => some "failed to read configuration: stream did not contain valid UTF-8"
  | .rejected (.invalid violation) => some violation.message
  | .rejected .malformed => none

def fileName : String := "incre.toml"

def load (project : Path) (fs : FileSystem) : Except LoadError Settings := do
  let bytes ← (fs.contentAt (project.join (.ofString fileName))).mapError .unreadable
  match Utf8.decode? bytes with
  | some s => (ofText s).mapError .rejected
  | none => throw .notUtf8

def loadOrDefault (project : Path) (fs : FileSystem) : Except LoadError Settings :=
  match load project fs with
  | .error (.unreadable .notFound) => .ok {}
  | r => r

end BuildDelta.Settings
