import BuildDelta.Proofs.Snapshot.Canonical
import BuildDelta.Proofs.SourceSet.Exact
/-!
# One form for each source set

A source set is written as one state, whatever the order in which directories were supplied and found
(`SourceSet.Canonical`), and different ones are written differently. The names of the directories are a
snapshot with a root of its own, which is the project's in every set that was scanned, but is read from a
state as it stands there (`root_of_names_is_written`).
-/

namespace BuildDelta

open Wire

namespace SourceSet

section Contents

variable {τ : Type} [Item τ] {s t : SourceSet τ}

/-- The same names, and under each name the same root and the same items. -/
structure SameDirectories (s t : SourceSet τ) : Prop where
  names : ∀ d, d ∈ s.directories.items.keys ↔ d ∈ t.directories.items.keys
  roots : ∀ d, (s.set? d).map Snapshot.root = (t.set? d).map Snapshot.root
  items : ∀ d k, s.item? d k = t.item? d k

theorem SameDirectories.names_eq (h : SameDirectories s t) :
    s.directories.items = t.directories.items := by
  have hkey : Function.Injective (key : KeyItem → String) := fun _ _ => congrArg KeyItem.mk
  apply Table.ext_mem
  intro a
  have hnames : key a ∈ s.directories.items.toList.map key ↔
      key a ∈ t.directories.items.toList.map key := h.names (key a)
  rwa [List.mem_map_of_injective hkey, List.mem_map_of_injective hkey] at hnames

theorem SameDirectories.set?_eq (h : SameDirectories s t) (d : String) : s.set? d = t.set? d := by
  have hroot := h.roots d
  have hitems := h.items d
  unfold item? at hitems
  cases hs : s.set? d with
  | none =>
    rw [hs] at hroot
    exact (Option.map_eq_none_iff.1 hroot.symm).symm
  | some x =>
    rw [hs] at hroot hitems
    obtain ⟨y, hy, hxy⟩ := Option.map_eq_some_iff.1 hroot.symm
    rw [hy] at hitems
    rw [hy, Option.some_inj]
    exact Snapshot.eq_of_parts hxy.symm (Table.ext_get? hitems)

theorem SameDirectories.sets_eq (h : SameDirectories s t) : s.sets = t.sets := by
  apply Table.ext_mem
  intro p
  rw [← set?_eq_some_iff, ← set?_eq_some_iff, h.set?_eq]

/-- What there is to tell about a source set. -/
theorem eq_iff : s = t ↔ s.projectRoot = t.projectRoot ∧ s.directories.root = t.directories.root ∧
    SameDirectories s t := by
  constructor
  · rintro rfl
    exact ⟨rfl, rfl, fun _ => Iff.rfl, fun _ => rfl, fun _ _ => rfl⟩
  · rintro ⟨hproject, hroot, hsame⟩
    have hdirectories : s.directories = t.directories := Snapshot.eq_of_parts hroot hsame.names_eq
    have hsets := hsame.sets_eq
    cases s
    cases t
    simp only [mk.injEq]
    exact ⟨hproject, hdirectories, hsets⟩

variable [Format τ] [Lawful τ]

theorem serialize_inj (hs : Fits s) (ht : Fits t) (checksum : Frame.Checksum) :
    s.serialize checksum = t.serialize checksum ↔ s = t :=
  eq_iff_of_read_back (serialize · checksum) (deserialize · checksum)
    (deserialize_serialize hs checksum) (deserialize_serialize ht checksum)

end Contents

variable {τ : Type} [Scannable τ] {fs : FileSystem} {root : Path} {directories directories' : List Path}
  {filter : Filter} {options : ScanOptions} {s t : SourceSet τ}

theorem scan_of_perm (h : directories.Perm directories')
    (hs : scan fs root directories filter options = .ok s) :
    scan fs root directories' filter options = .ok s := by
  rw [scan_eq, bind_eq_ok] at hs ⊢
  obtain ⟨sets, hsets, hassemble⟩ := hs
  obtain ⟨sets', hsets', hperm⟩ := mapM_of_perm h hsets
  exact ⟨sets', hsets', assemble_of_perm hperm hassemble⟩

/-- Whether a source set is the result of a scan. -/
def IsScanned (s : SourceSet τ) : Prop :=
  ∃ fs root directories filter options, scan fs root directories filter options = .ok s

theorem IsScanned.root_eq (h : IsScanned s) : s.directories.root = s.projectRoot := by
  obtain ⟨fs, root, directories, filter, options, hscan⟩ := h
  rw [scan_eq, bind_eq_ok] at hscan
  obtain ⟨sets, -, hassemble⟩ := hscan
  obtain ⟨hproject, hroot, -, -⟩ := assemble_eq_ok_iff.1 hassemble
  rw [hproject, hroot]

/-- All that makes the form of source sets over one sort of items canonical. -/
structure Canonical (τ : Type) [Scannable τ] [Format τ] [Lawful τ] : Prop where
  bytes_iff : ∀ s t : SourceSet τ, Fits s → Fits t → ∀ checksum,
    s.serialize checksum = t.serialize checksum ↔
      s.projectRoot = t.projectRoot ∧ s.directories.root = t.directories.root ∧ SameDirectories s t
  /-- Of scanned sets, nothing needs to be said about the root of the names. -/
  scanned_iff : ∀ s t : SourceSet τ, IsScanned s → IsScanned t → Fits s → Fits t → ∀ checksum,
    s.serialize checksum = t.serialize checksum ↔
      s.projectRoot = t.projectRoot ∧ SameDirectories s t
  /-- The order in which the snapshots were put together does not show. -/
  assembled_iff : ∀ (root root' : Path) (sets sets' : List (String × Snapshot τ)) (s t : SourceSet τ),
    assemble root sets = .ok s → assemble root' sets' = .ok t → Fits s → Fits t → ∀ checksum,
    s.serialize checksum = t.serialize checksum ↔ root.text = root'.text ∧ sets.Perm sets'
  /-- Nor does the order in which the directories were named. -/
  reordered : ∀ (fs : FileSystem) (root : Path) (directories directories' : List Path) (filter : Filter)
    (options : ScanOptions) (s : SourceSet τ), directories.Perm directories' →
    scan fs root directories filter options = .ok s → ∃ t : SourceSet τ,
      scan fs root directories' filter options = .ok t ∧
        ∀ checksum, t.serialize checksum = s.serialize checksum

theorem canonical [Format τ] [Lawful τ] : Canonical τ where
  bytes_iff _ _ hs ht checksum := (serialize_inj hs ht checksum).trans eq_iff
  scanned_iff s t hscanned hscanned' hs ht _ := by
    rw [serialize_inj hs ht, eq_iff, hscanned.root_eq, hscanned'.root_eq]
    constructor
    · rintro ⟨hproject, -, hsame⟩
      exact ⟨hproject, hsame⟩
    · rintro ⟨hproject, hsame⟩
      exact ⟨hproject, hproject, hsame⟩
  assembled_iff _ _ _ _ _ _ hassemble hassemble' hs ht checksum :=
    (serialize_inj hs ht checksum).trans (eq_iff_of_assemble hassemble hassemble')
  reordered _ _ _ _ _ _ s hperm hscan := ⟨s, scan_of_perm hperm hscan, fun _ => rfl⟩

end SourceSet

/-- Snapshots and source sets are kept in one form each, and different ones in different forms. -/
theorem kept_forms_are_canonical :
    Snapshot.Canonical FileItem ∧ Snapshot.Canonical KeyItem ∧
      SourceSet.Canonical FileItem ∧ SourceSet.Canonical KeyItem :=
  ⟨Snapshot.canonical, Snapshot.canonical, SourceSet.canonical, SourceSet.canonical⟩

/-- One directory with two files. -/
def SourceSet.sources : FileSystem :=
  ⟨.directory true [([109], .directory true [([98], .file ⟨[1], 5, true⟩),
    ([100], .file ⟨[2], 6, true⟩)])], [], 9⟩

/-- What is found in it. -/
def SourceSet.alone : SourceSet KeyItem where
  projectRoot := "."
  directories := ⟨".", ⟨[⟨"m"⟩], by decide +kernel⟩⟩
  sets := ⟨[("m", ⟨"./m", ⟨[⟨"b"⟩, ⟨"d"⟩], by decide +kernel⟩⟩)], by decide +kernel⟩

/-- What is found in it and in one that does not exist. -/
def SourceSet.found : SourceSet KeyItem where
  projectRoot := "."
  directories := ⟨".", ⟨[⟨"m"⟩, ⟨"n"⟩], by decide +kernel⟩⟩
  sets := ⟨[("m", ⟨"./m", ⟨[⟨"b"⟩, ⟨"d"⟩], by decide +kernel⟩⟩), ("n", .empty "./n")],
    by decide +kernel⟩

theorem SourceSet.scan_alone :
    scan sources (.ofString ".") [.ofString "m"] (fun _ => true) {} = .ok alone := by
  decide +kernel

theorem SourceSet.scan_found :
    scan sources (.ofString ".") [.ofString "n", .ofString "m"] (fun _ => true) {} = .ok found := by
  decide +kernel

theorem SourceSet.fits_alone : Fits alone := by
  simp only [fits_iff, Snapshot.fits_iff, KeyItem.fits_iff, fits_text, fits_list, fits_pair]
  decide +kernel

theorem SourceSet.fits_found : Fits found := by
  simp only [fits_iff, Snapshot.fits_iff, KeyItem.fits_iff, fits_text, fits_list, fits_pair]
  decide +kernel

theorem SourceSet.fits_edited : Fits edited := by
  simp only [fits_iff, Snapshot.fits_iff, FileItem.fits_iff, KeyItem.fits_iff, fits_text, fits_list,
    fits_pair]
  decide +kernel

theorem kept_forms_are_canonical_reordered :
    (∃ s t : Snapshot FileItem,
      Snapshot.ofItems "/p" Snapshot.widths.items.toList = .ok s ∧
      Snapshot.ofItems "/p" Snapshot.widths.items.toList.reverse = .ok t ∧
      Fits s ∧ Fits t ∧ s.serialize = t.serialize ∧ Json.write s = Json.write t) ∧
    (∃ s t : Snapshot KeyItem, Snapshot.ofItems "r" [⟨"y"⟩, ⟨"x"⟩] = .ok s ∧
      Snapshot.ofItems "r" [⟨"x"⟩] = .ok t ∧ Fits s ∧ Fits t ∧ s.serialize ≠ t.serialize ∧
      Json.write s ≠ Json.write t) ∧
    (Fits SourceSet.widths ∧ Fits SourceSet.edited ∧
      SourceSet.widths.serialize ≠ SourceSet.edited.serialize ∧
      SourceSet.assemble (.ofString "") [("ü", .empty "😀"), ("a", .widths)] = .ok SourceSet.widths ∧
      SourceSet.assemble (.ofString "") [("a", .widths), ("ü", .empty "😀")] = .ok SourceSet.widths) ∧
    (SourceSet.IsScanned SourceSet.alone ∧ SourceSet.IsScanned SourceSet.found ∧
      Fits SourceSet.alone ∧ Fits SourceSet.found ∧
      SourceSet.alone.serialize ≠ SourceSet.found.serialize) ∧
    SourceSet.scan SourceSet.sources (.ofString ".") [.ofString "n", .ofString "m"]
      (fun _ => true) {} = .ok SourceSet.found ∧
    ∃ t : SourceSet KeyItem, SourceSet.scan SourceSet.sources (.ofString ".")
        [.ofString "m", .ofString "n"] (fun _ => true) {} = .ok t ∧
      t.serialize = SourceSet.found.serialize := by
  obtain ⟨hfiles, hnames, hfileSets, hnameSets⟩ := kept_forms_are_canonical
  refine ⟨?_, ?_, ?_, ?_, ?_⟩
  · have hs : Snapshot.ofItems "/p" Snapshot.widths.items.toList = .ok Snapshot.widths := by
      decide +kernel
    have ht : Snapshot.ofItems "/p" Snapshot.widths.items.toList.reverse = .ok Snapshot.widths := by
      decide +kernel
    have hperm := (List.reverse_perm Snapshot.widths.items.toList).symm
    have hfits := Snapshot.fits_widths
    exact ⟨_, _, hs, ht, hfits, hfits,
      (hfiles.bytes_iff _ _ _ _ _ _ hs ht hfits hfits _).2 ⟨rfl, hperm⟩,
      (hfiles.text_iff _ _ _ _ _ _ hs ht).2 ⟨rfl, hperm⟩⟩
  · have hs : Snapshot.ofItems "r" [⟨"y"⟩, ⟨"x"⟩] =
        .ok (⟨"r", ⟨[⟨"x"⟩, ⟨"y"⟩], by decide +kernel⟩⟩ : Snapshot KeyItem) := by
      decide +kernel
    have ht : Snapshot.ofItems "r" [⟨"x"⟩] =
        .ok (⟨"r", ⟨[⟨"x"⟩], by decide +kernel⟩⟩ : Snapshot KeyItem) := by
      decide +kernel
    have hfits : Fits (⟨"r", ⟨[⟨"x"⟩, ⟨"y"⟩], by decide +kernel⟩⟩ : Snapshot KeyItem) := by
      simp only [Snapshot.fits_iff, KeyItem.fits_iff, fits_text, fits_list]
      decide +kernel
    have hfits' : Fits (⟨"r", ⟨[⟨"x"⟩], by decide +kernel⟩⟩ : Snapshot KeyItem) := by
      simp only [Snapshot.fits_iff, KeyItem.fits_iff, fits_text, fits_list]
      decide +kernel
    refine ⟨_, _, hs, ht, hfits, hfits', ?_, ?_⟩
    · rw [Ne, hnames.bytes_iff _ _ _ _ _ _ hs ht hfits hfits']
      exact fun h => absurd h.2.length_eq (by decide)
    · rw [Ne, hnames.text_iff _ _ _ _ _ _ hs ht]
      exact fun h => absurd h.2.length_eq (by decide)
  · refine ⟨SourceSet.fits_widths, SourceSet.fits_edited, ?_, by decide +kernel, by decide +kernel⟩
    rw [Ne, hfileSets.bytes_iff _ _ SourceSet.fits_widths SourceSet.fits_edited]
    exact fun h => absurd h.1 (by decide)
  · have halone : SourceSet.IsScanned SourceSet.alone := ⟨_, _, _, _, _, SourceSet.scan_alone⟩
    have hfound : SourceSet.IsScanned SourceSet.found := ⟨_, _, _, _, _, SourceSet.scan_found⟩
    refine ⟨halone, hfound, SourceSet.fits_alone, SourceSet.fits_found, ?_⟩
    rw [Ne, hnameSets.scanned_iff _ _ halone hfound SourceSet.fits_alone SourceSet.fits_found]
    exact fun h => absurd ((h.2.names "n").2 (by decide)) (by decide)
  · obtain ⟨t, ht, hbytes⟩ :=
      hnameSets.reordered _ _ _ _ _ _ _ (List.Perm.swap _ _ _) SourceSet.scan_found
    exact ⟨SourceSet.scan_found, t, ht, hbytes _⟩

/-- The names of `SourceSet.bare` under another root. -/
def SourceSet.misplaced : SourceSet KeyItem :=
  { SourceSet.bare with directories := ⟨"/q", SourceSet.bare.directories.items⟩ }

/-- The root of the names is written, so that sets can differ in it alone. Both of these are read from
their states. -/
theorem root_of_names_is_written :
    SourceSet.deserialize SourceSet.bare.serialize = .ok SourceSet.bare ∧
      SourceSet.deserialize SourceSet.misplaced.serialize = .ok SourceSet.misplaced ∧
      SourceSet.bare.projectRoot = SourceSet.misplaced.projectRoot ∧
      SourceSet.SameDirectories SourceSet.bare SourceSet.misplaced ∧
      SourceSet.bare.serialize ≠ SourceSet.misplaced.serialize := by
  have hfits : Fits SourceSet.misplaced := by
    simp only [SourceSet.fits_iff, Snapshot.fits_iff, KeyItem.fits_iff, fits_text, fits_list, fits_pair]
    decide +kernel
  refine ⟨SourceSet.deserialize_serialize SourceSet.fits_bare _,
    SourceSet.deserialize_serialize hfits _, rfl, ⟨fun _ => Iff.rfl, fun _ => rfl, fun _ _ => rfl⟩, ?_⟩
  rw [Ne, SourceSet.serialize_inj SourceSet.fits_bare hfits, SourceSet.eq_iff]
  exact fun h => absurd h.2.1 (by decide)

end BuildDelta
