import BuildDelta.Proofs.Scan.Again
import BuildDelta.Proofs.Scan.Content
import BuildDelta.Proofs.Snapshot.Canonical
/-!
# Directories that are missing, and directories without files

Where a directory is missing, nothing is found, and nothing is found in one that is empty either. Of two
trees that differ in just this (`MissingAt`), scans see a difference only by paths that go through the
directory and on to something else, upwards again or by a link to it: these lead nowhere while the
directory is missing. Every other path leads to the same in both trees (`MissingAt.face_of_found`,
`MissingAt.face_of_not_looked`), so what is found of a directory is the same, if it is not such a path that
leads to it or to a file in it (`Scan.isFound_unique`).
-/

namespace BuildDelta

namespace FileSystem

/-- Two trees with the same everywhere but at one place, where the first has nothing and the second has a
directory without entries. -/
structure MissingAt (q : Place) (fs fs' : FileSystem) : Prop where
  workingDirectory : fs'.workingDirectory = fs.workingDirectory
  missing : fs.top.get? q = none
  empty : ∃ readable, fs'.top.get? q = some (.directory readable [])
  same : ∀ place, place ≠ q → fs'.top.face? place = fs.top.face? place

/-- A path that is looked up at a place leads there, if it leads anywhere. -/
def EndsAt (fs : FileSystem) (q : Place) (p : Path) : Prop :=
  q ∈ fs.looked p → ∀ place n, fs.resolve .target p = .ok (.node place n) → place = q

namespace MissingAt

variable {fs fs' : FileSystem} {q place : Place} {p : Path} {n n' m : Node} {names : List Name}
  (h : MissingAt q fs fs')
include h

/-- What is found without the directory is found with it. -/
theorem face_of_found (hresolve : fs.resolve .target p = .ok (.node place n)) :
    (fs'.resolve .target p).map Found.face = (fs.resolve .target p).map Found.face := by
  apply resolve_face h.workingDirectory
  intro looked hlooked
  apply h.same
  rintro rfl
  obtain ⟨m, hm⟩ := exists_of_mem_looked hresolve looked hlooked
  cases h.missing.symm.trans hm

/-- What is not looked up at the directory is found, or not found, without it. -/
theorem face_of_not_looked (hlooked : q ∉ fs'.looked p) :
    (fs.resolve .target p).map Found.face = (fs'.resolve .target p).map Found.face := by
  apply resolve_face h.workingDirectory.symm
  intro looked hmem
  exact (h.same looked fun heq => hlooked (heq ▸ hmem)).symm

theorem stat_file {f : File} (hstat : fs.stat p = .ok (.file f)) : fs'.stat p = .ok (.file f) := by
  obtain ⟨place, hresolve⟩ := stat_eq_ok_iff.1 hstat
  exact stat_file_of_face (h.face_of_found hresolve) hstat

theorem stat_file_of_not_looked {f : File} (hlooked : q ∉ fs'.looked p)
    (hstat' : fs'.stat p = .ok (.file f)) : fs.stat p = .ok (.file f) :=
  stat_file_of_face (h.face_of_not_looked hlooked) hstat'

/-- Both trees have the same files and links. -/
theorem get?_leaf_iff (hplace : fs.top.get? place = some n) (hplace' : fs'.top.get? place = some n')
    (hm : m.isDirectory = false) : n'.get? names = some m ↔ n.get? names = some m := by
  rw [← Scan.get?_below hplace, ← Scan.get?_below hplace']
  by_cases hq : place ++ names = q
  · obtain ⟨readable, hempty⟩ := h.empty
    rw [hq, h.missing, hempty]
    constructor
    · rintro ⟨⟩
      cases hm
    · exact nofun
  · have hface := h.same _ hq
    exact ⟨fun hleaf => Node.get?_of_face? hface.symm hleaf hm,
      fun hleaf => Node.get?_of_face? hface hleaf hm⟩

end MissingAt

/-- A tree, and the same with a new directory in it. -/
theorem missingAt_set {fs : FileSystem} {place : Place} {name : Name}
    (hplace : fs.top.DirectoryAt place) (hnone : fs.top.get? (place ++ [name]) = none) :
    MissingAt (place ++ [name]) fs
      { fs with top := fs.top.set name (some .emptyDirectory) place } where
  workingDirectory := rfl
  missing := hnone
  empty := ⟨true, Node.get?_set_self hplace _⟩
  same q hq := by
    by_cases hbelow : place ++ [name] <+: q
    · obtain ⟨rest, rfl⟩ := hbelow
      have hnew : (fs.top.set name (some .emptyDirectory) place).get? (place ++ [name]) = _ :=
        Node.get?_set_self hplace .emptyDirectory
      rw [Node.face?, Node.face?, Node.get?_append (place ++ [name]), Node.get?_append (place ++ [name]),
        hnone, hnew]
      cases rest with
      | nil => exact absurd (List.append_nil _) hq
      | cons => rfl
    · exact Node.face?_set hbelow _ _

end FileSystem

open FileSystem

namespace Scan

variable {τ : Type} [Scannable τ] {fs fs' : FileSystem} {root : Path} {filter : Filter}
  {mode : FingerprintMode} {options : ScanOptions} {q place : Place} {n n' : Node} {s s' : Snapshot τ}
  {names : List Name} {linked : Bool} {f : File}

/-- The directory at a place is not gone through to anything that a scan finds: not to the root of it, and
not to a file behind an accepted link. -/
structure NotBeyond (fs : FileSystem) (q : Place) (filter : Filter) (root : Path) : Prop where
  itself : fs.EndsAt q root
  links : ∀ n names target f, fs.stat root = .ok n → n.get? names = some (.link target) →
    filter (relative names) = true → fs.stat (root.below names) = .ok (.file f) →
      q ∉ fs.looked (root.below names)

/-- What lies beyond a directory can be seen from the places below the root. -/
theorem notBeyond_of_places (hstat : fs.stat root = .ok n) (hdirectory : n.isDirectory = true)
    (hroot : fs.EndsAt q root)
    (hbelow : ∀ names ∈ n.places, names ≠ [] → q ∉ fs.looked (root.below names)) :
    NotBeyond fs q filter root where
  itself := hroot
  links := by
    intro m names target f hm hlink _ _
    cases hm.symm.trans hstat
    refine hbelow names (Node.mem_places_of_get? hlink) ?_
    rintro rfl
    cases hlink
    cases hdirectory

theorem meets_iff_of_missingAt (h : MissingAt q fs fs') (hbeyond : NotBeyond fs' q filter root)
    (hplace : fs.top.get? place = some n) (hplace' : fs'.top.get? place = some n')
    (hstat' : fs'.stat root = .ok n') (hfilter : filter (relative names) = true) :
    Meets fs' root n' names linked f ↔ Meets fs root n names linked f := by
  constructor
  · intro hmeets
    refine hmeets.imp (fun m hm => (h.get?_leaf_iff hplace hplace' hm).1) fun target hlink hfile => ?_
    exact h.stat_file_of_not_looked (hbeyond.links n' names target f hstat' hlink hfilter hfile) hfile
  · intro hmeets
    exact hmeets.imp (fun m hm => (h.get?_leaf_iff hplace hplace' hm).2) fun _ _ => h.stat_file

/-- A scan is told by its root and by what it has of the accepted ways. -/
theorem Scanned.eq_of_meets_iff [Scannable.Faithful τ] (hn : n.WellNamed) (hn' : n'.WellNamed)
    (hscanned : Scanned fs root n filter mode s) (hscanned' : Scanned fs' root n' filter mode s')
    (hiff : ∀ names linked f, filter (relative names) = true →
      (Meets fs' root n' names linked f ↔ Meets fs root n names linked f)) : s = s' := by
  apply Snapshot.eq_of_parts (hscanned.root_eq.trans hscanned'.root_eq.symm)
  apply Table.ext_mem
  intro a
  rw [hscanned.mem_iff, hscanned'.mem_iff]
  constructor
  · rintro ⟨names, linked, f, hmeets, hexamine⟩
    have hfilter := (isItemOf_of_examine (hmeets.valid hn) hexamine).1
    exact ⟨names, linked, f, (hiff names linked f hfilter).2 hmeets, hexamine⟩
  · rintro ⟨names, linked, f, hmeets, hexamine⟩
    have hfilter := (isItemOf_of_examine (hmeets.valid hn') hexamine).1
    exact ⟨names, linked, f, (hiff names linked f hfilter).1 hmeets, hexamine⟩

theorem Scanned.eq_empty {readable : Bool}
    (h : Scanned fs root (.directory readable []) filter mode s) : s = .empty root.text := by
  apply Snapshot.eq_of_parts h.root_eq
  apply Table.ext_mem
  intro a
  rw [h.mem_iff]
  constructor
  · rintro ⟨names, linked, f, hmeets, -⟩
    obtain ⟨m, hm, hleaf⟩ := hmeets.exists_node
    cases names with
    | nil =>
      cases hm
      cases hleaf
    | cons => cases hm
  · intro ha
    cases ha

/-- What there is to say of a directory that may be missing: what a scan finds in it, or nothing. -/
def IsFound (fs : FileSystem) (root : Path) (filter : Filter) (options : ScanOptions)
    (s : Snapshot τ) : Prop :=
  Snapshot.scan fs root filter options = .ok s ∨ fs.stat root = .error .notFound ∧ s = .empty root.text

theorem isFound_unique [Scannable.Faithful τ] (h : MissingAt q fs fs') (hn : fs.top.WellNamed)
    (hn' : fs'.top.WellNamed) (hbeyond : NotBeyond fs' q filter root)
    (hs : IsFound fs root filter options s) (hs' : IsFound fs' root filter options s') : s = s' := by
  rcases hs with hscan | ⟨hmissing, rfl⟩
  · obtain ⟨n, hstat, hnamed, hscanned⟩ := exists_scanned_of_scan hn hscan
    obtain ⟨place, hresolve⟩ := stat_eq_ok_iff.1 hstat
    obtain ⟨n', hresolve', -⟩ := exists_node_of_face (h.face_of_found hresolve) hresolve
    have hstat' := stat_eq_ok_iff.2 ⟨place, hresolve'⟩
    rcases hs' with hscan' | ⟨hmissing', -⟩
    · obtain ⟨m, hm, hnamed', hscanned'⟩ := exists_scanned_of_scan hn' hscan'
      cases hm.symm.trans hstat'
      refine hscanned.eq_of_meets_iff hnamed hnamed' hscanned' fun names linked f hfilter => ?_
      exact meets_iff_of_missingAt h hbeyond (resolve_eq_ok.1 hresolve).2.describes
        (resolve_eq_ok.1 hresolve').2.describes hstat' hfilter
    · cases hmissing'.symm.trans hstat'
  · rcases hs' with hscan' | ⟨-, rfl⟩
    · obtain ⟨n', hstat', -, hscanned'⟩ := exists_scanned_of_scan hn' hscan'
      obtain ⟨place, hresolve'⟩ := stat_eq_ok_iff.1 hstat'
      by_cases hlooked : q ∈ fs'.looked root
      · -- it was the directory itself that was scanned, and there is nothing in it
        obtain rfl := hbeyond.itself hlooked place n' hresolve'
        obtain ⟨readable, hempty⟩ := h.empty
        cases (resolve_eq_ok.1 hresolve').2.describes.symm.trans hempty
        exact hscanned'.eq_empty.symm
      · obtain ⟨n, hresolve, -⟩ := exists_node_of_face (h.face_of_not_looked hlooked) hresolve'
        cases hmissing.symm.trans (stat_eq_ok_iff.2 ⟨place, hresolve⟩)
    · rfl

end Scan

end BuildDelta
