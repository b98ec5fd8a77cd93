import BuildDelta.Scan.Basic
import BuildDelta.SourceSet.Basic
/-!
# Scanning source directories

Directories go by the names they are given, and are looked for from the project's root. One that does
not exist yet is an empty one; anything else that goes wrong ends the scan. Only when all directories
have been scanned does a name that was given twice count as a fault.
-/

namespace BuildDelta.SourceSet

variable {τ : Type} [Scannable τ]

def scanDirectory (fs : FileSystem) (projectRoot : Path) (filter : Filter) (options : ScanOptions)
    (directory : Path) : Except ScanError (String × Snapshot τ) :=
  let path := projectRoot.join directory
  match Snapshot.scan fs path filter options with
  | .ok s => .ok (directory.text, s)
  | .error (.missingRoot _) => .ok (directory.text, .empty path.text)
  | .error e => .error e

def scan (fs : FileSystem) (projectRoot : Path) (directories : List Path) (filter : Filter)
    (options : ScanOptions) : Except ScanError (SourceSet τ) := do
  let sets ← directories.mapM (scanDirectory fs projectRoot filter options)
  let names ← (Snapshot.ofNames projectRoot.text (sets.map Prod.fst)).mapError .duplicateKey
  pure ⟨projectRoot.text, names, .ofList sets⟩

end BuildDelta.SourceSet
