import BuildDelta.Fingerprint
import BuildDelta.Packing.Pool
import BuildDelta.Text.Blank
import BuildDelta.Text.Extension
/-!
# Settings

What a project may choose: where its states are kept, which files count and how they are told apart,
and how much a packed group may hold. Everything has a default. `firstViolation?` checks the choices
that no later stage could work with.
-/

namespace BuildDelta

structure SnapshotSettings where
  /-- The directory for states, seen from the project. -/
  stateDirectory : String := ".incre"
  fingerprint : FingerprintMode := .metadata
  /-- The extensions of files that count, as written; none means that all files count. -/
  extensions : List String := []
  /-- Whether names that start with a dot are left out. -/
  skipHidden : Bool := true
  parallel : Bool := false
deriving DecidableEq, Repr

structure Settings where
  snapshot : SnapshotSettings := {}
  capacity : Packing.Capacity := .default
deriving DecidableEq, Repr

namespace Settings

/-- What settings must not be. -/
inductive Violation where
  | blankStateDirectory
  | emptyExtension
  | zeroFieldCapacity
  | zeroMethodCapacity
deriving DecidableEq, Repr

def Violation.message : Violation → String
  | .blankStateDirectory => "validation error: snapshot.state_dir must not be empty"
  | .emptyExtension => "validation error: snapshot.extensions must not contain empty entries"
  | .zeroFieldCapacity => "validation error: merge.field_capacity must be greater than zero"
  | .zeroMethodCapacity => "validation error: merge.method_capacity must be greater than zero"

def firstViolation? (s : Settings) : Option Violation :=
  if Text.isBlank s.snapshot.stateDirectory then some .blankStateDirectory
  else if s.snapshot.extensions.any (Text.dropDots · = "") then some .emptyExtension
  else if s.capacity.fields = 0 then some .zeroFieldCapacity
  else if s.capacity.methods = 0 then some .zeroMethodCapacity
  else none

end Settings

end BuildDelta
