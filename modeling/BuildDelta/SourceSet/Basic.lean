import BuildDelta.Diff.Stale
/-!
# Source sets

A project may have several source directories. A source set holds a snapshot of their names and,
under each name, a snapshot of what is in the directory. A directory that appears or disappears
counts all of its items as added or removed.
-/

namespace BuildDelta

structure SourceSet (τ : Type) [Item τ] where
  projectRoot : String
  /-- The names of the directories. -/
  directories : Snapshot KeyItem
  /-- What is in each of them. -/
  sets : Table (String × Snapshot τ)

/-- The changes in all directories of a project; a directory without any is absent. -/
structure SourceSetDiff (τ : Type) [Item τ] where
  directories : Diff KeyItem
  files : Table (String × Diff τ)

variable {τ : Type} [Item τ]

/-- Adds the changes in one directory, if there are any. -/
def SourceSetDiff.addFiles (files : Table (String × Diff τ)) (directory : String)
    (changes : Diff τ) : Table (String × Diff τ) :=
  if changes.isEmpty then files else files.insert (directory, changes)

namespace SourceSet

instance [DecidableEq τ] : DecidableEq (SourceSet τ) := fun s t =>
  decidable_of_iff (s.projectRoot = t.projectRoot ∧ s.directories = t.directories ∧
      s.sets = t.sets) (by
    cases s
    cases t
    simp)

def set? (s : SourceSet τ) (directory : String) : Option (Snapshot τ) :=
  (s.sets.get? directory).map Prod.snd

/-- Compares directory by directory. One that is not there on a side counts as empty there. -/
def diff (current previous : SourceSet τ) : SourceSetDiff τ :=
  let directories := current.directories.diff previous.directories
  let present := current.sets.toList.foldl (fun files (name, now) =>
    let before := (previous.set? name).getD (.empty now.root)
    SourceSetDiff.addFiles files name (now.diff before)) .empty
  let files := (directories.keysWithStatus .removed).foldl (fun files name =>
    match previous.set? name with
    | some before => SourceSetDiff.addFiles files name (Snapshot.diff (.empty before.root) before)
    | none => files) present
  ⟨directories, files⟩

end SourceSet

namespace SourceSetDiff

def isEmpty (d : SourceSetDiff τ) : Bool :=
  d.directories.isEmpty && d.files.isEmpty

def fileChangeCount (d : SourceSetDiff τ) : Nat :=
  d.files.toList.foldl (fun n (_, changes) => n + changes.size) 0

def filesIn (d : SourceSetDiff τ) (directory : String) : Option (Diff τ) :=
  (d.files.get? directory).map Prod.snd

def stalePatterns (d : SourceSetDiff τ) (sourceExt outputExt : String) : Table String :=
  .ofList (d.files.toList.flatMap fun (_, changes) =>
    (changes.stalePatterns sourceExt outputExt).toList)

end SourceSetDiff

end BuildDelta
