import BuildDelta.Diff.Report
import BuildDelta.FileSystem.Action
import BuildDelta.Settings.Basic
import BuildDelta.SourceSet.Persisted
/-!
# Stores

A store keeps named states as files in one directory, and reports beside them. A file is written
under another name first and renamed when it is complete, so that a save that fails never damages
the state that was there. The calls that write are a parameter: what is said about saves can also be
said for calls that fail halfway. A state that cannot be used counts as none, unless reading it ends
the program.
-/

namespace BuildDelta

open FileSystem

/-- What can be kept in a store. -/
class Persisted (σ : Type) where
  toState : σ → Bytes
  ofState : Bytes → (memory : Nat) → Except CorruptState σ

instance {τ : Type} [Item τ] [Wire.Format τ] : Persisted (Snapshot τ) where
  toState s := s.serialize
  ofState bytes memory := Snapshot.deserialize bytes .ofBytes memory

instance {τ : Type} [Item τ] [Wire.Format τ] : Persisted (SourceSet τ) where
  toState s := s.serialize
  ofState bytes memory := SourceSet.deserialize bytes .ofBytes memory

inductive StoreError where
  | io (path : Path) (cause : FileSystem.Error)
  | corrupt (cause : CorruptState)
deriving DecidableEq

def StoreError.message : StoreError → String
  | .io path cause => "state I/O error at " ++ path.text ++ ": " ++ cause.message
  | .corrupt cause => cause.message

/-- The calls that a save is made of. -/
structure WriteCalls where
  makeDirectories : Path → Action FileSystem.Error PUnit
  writeFile : Path → Bytes → Action FileSystem.Error PUnit
  renameFile : (source target : Path) → Action FileSystem.Error PUnit

/-- The calls as they are when nothing gets in their way. -/
def WriteCalls.plain : WriteCalls :=
  ⟨FileSystem.makeDirectories, FileSystem.writeFile, FileSystem.renameFile⟩

structure Store where
  directory : Path

namespace Store

def statePath (store : Store) (name : String) : Path :=
  store.directory.join (.ofString (name ++ ".snapshot"))

def reportPath (store : Store) (name : String) : Path :=
  store.directory.join (.ofString (name ++ ".diff.json"))

/-- Where a file is written before it gets its name. -/
def draftPath (path : Path) : Path :=
  path.withExtension "tmp"

/-- Puts a complete file at a path, or leaves what is there. -/
def writeWhole (store : Store) (path : Path) (content : Bytes) (calls : WriteCalls := .plain) :
    Action StoreError PUnit := do
  (calls.makeDirectories store.directory).withError (.io store.directory)
  (calls.writeFile (draftPath path) content).withError (.io (draftPath path))
  (calls.renameFile (draftPath path) path).withError (.io path)

variable {σ τ : Type}

def save [Persisted σ] (store : Store) (name : String) (s : σ) (calls : WriteCalls := .plain) :
    Action StoreError PUnit :=
  store.writeWhole (store.statePath name) (Persisted.toState s) calls

/-- The state of this name, or nothing if there is no file for it. -/
def load [Persisted σ] (store : Store) (name : String) (fs : FileSystem)
    (memory : Nat := Bytes.addressable) : Except StoreError (Option σ) :=
  match fs.contentAt (store.statePath name) with
  | .ok bytes => ((Persisted.ofState bytes memory).mapError .corrupt).map some
  | .error .notFound => .ok none
  | .error e => .error (.io (store.statePath name) e)

/-- The state of this name, if it can be used. -/
def loadUsable [Persisted σ] (store : Store) (name : String) (fs : FileSystem)
    (memory : Nat := Bytes.addressable) : Except OutOfMemory (Option σ) :=
  match store.load name fs memory with
  | .ok s => .ok s
  | .error (.corrupt (.outOfMemory crash)) => .error crash
  | .error _ => .ok none

def loadOrEmpty [Item τ] [Wire.Format τ] (store : Store) (name root : String) (fs : FileSystem)
    (memory : Nat := Bytes.addressable) : Except OutOfMemory (Snapshot τ) :=
  (store.loadUsable name fs memory).map (·.getD (.empty root))

/-- Removes a state, and says whether there was one. -/
def remove (store : Store) (name : String) : Action StoreError Bool := do
  let path := store.statePath name
  match ← (removeFile path).attempt with
  | .ok _ => pure true
  | .error .notFound => pure false
  | .error e => throw (.io path e)

/-- Writes a report, and says where. -/
def saveReport [Item τ] [Json.Format τ] (store : Store) (name : String) (d : Diff τ)
    (calls : WriteCalls := .plain) : Action StoreError Path := do
  store.writeWhole (store.reportPath name) (Utf8.encode d.reportIndented) calls
  pure (store.reportPath name)

/-- The store that a project's settings name. -/
def ofSettings (projectRoot : Path) (s : SnapshotSettings) : Store :=
  ⟨projectRoot.join (.ofString s.stateDirectory)⟩

end Store

end BuildDelta
