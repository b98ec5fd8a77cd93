import BuildDelta.Scan.Basic
import BuildDelta.Store
/-!
# Incremental scans

An incremental scan compares a directory with the last scan that was committed. Committing is up to
the caller, who does it when the changes have been dealt with; until then every scan reports them
again. A state that cannot be used counts as none, and then everything is new. A state that cannot
even be read to its end, for want of memory, is the end of the scan.
-/

namespace BuildDelta

structure IncrementalScanner where
  store : Store
  name : String
  filter : Filter
  options : ScanOptions

/-- What an incremental scan found. -/
structure ScanOutcome (τ : Type) [Item τ] where
  current : Snapshot τ
  diff : Diff τ
  /-- Whether there was a usable state to compare with. -/
  hadPrevious : Bool

namespace ScanOutcome

variable {τ : Type} [Item τ]

def isFullPass (o : ScanOutcome τ) : Bool := !o.hadPrevious

/-- Compares a scan with the state before it, if there is one. -/
def compare (current : Snapshot τ) (previous? : Option (Snapshot τ)) : ScanOutcome τ where
  current
  diff := current.diff (previous?.getD (.empty current.root))
  hadPrevious := previous?.isSome

end ScanOutcome

namespace IncrementalScanner

def ofSettings (projectRoot : Path) (name : String) (s : SnapshotSettings) : IncrementalScanner where
  store := .ofSettings projectRoot s
  name
  filter := (PathFilter.ofSettings s).accepts
  options := .ofSettings s

variable {τ : Type} [Wire.Format τ]

def scan [Scannable τ] (scanner : IncrementalScanner) (root : Path) (fs : FileSystem)
    (memory : Nat := Bytes.addressable) : Except ScanError (ScanOutcome τ) := do
  let current ← Snapshot.scan fs root scanner.filter scanner.options
  let previous? ← (scanner.store.loadUsable scanner.name fs memory).mapError .outOfMemory
  pure (.compare current previous?)

/-- Keeps a scan as the one that later scans are compared with. -/
def commit [Item τ] (scanner : IncrementalScanner) (o : ScanOutcome τ) :
    FileSystem.Action StoreError PUnit :=
  scanner.store.save scanner.name o.current

end IncrementalScanner

end BuildDelta
