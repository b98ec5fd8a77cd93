import BuildDelta.Proofs.Diff.Exact
import BuildDelta.Proofs.Scan.Missing
import BuildDelta.Proofs.Snapshot.Building
import BuildDelta.Proofs.SourceSet.Exact
/-!
# Scans of source directories are faithful

A scan of several directories asks of each what a scan of it alone gives, and takes a missing one for an
empty one (`SourceSet.scanDirectory_eq_ok_iff`). The first other error ends it; without one, only a name that
was given twice makes it fail (`SourceSet.error_of_scan`). So it does not matter whether a directory is
missing or empty, as long as no path that is followed leads through it to something else
(`SourceSet.eq_of_missingAt`). There are such paths: of a name, two dots and another name, the first has to
be there (`missing_and_empty_directories_are_told_apart`).
-/

namespace BuildDelta

open FileSystem Scan

namespace Scan

variable {τ : Type} [Scannable τ] {fs : FileSystem} {root p : Path} {filter : Filter}
  {mode : FingerprintMode} {options : ScanOptions}

theorem examine_ne_missingRoot (e : Event) :
    examine filter mode e ≠ (.error (.missingRoot p) : Except ScanError (Option τ)) := by
  intro h
  cases e with
  | blocked => cases h
  | file path relative linked f =>
    rw [examine] at h
    split at h
    · split at h
      · cases h
      split at h
      · cases h
      cases hmade : (Scannable.ofFile mode _ f : Except FileSystem.Error τ) with
      | error cause =>
        rw [hmade] at h
        cases h
      | ok a =>
        rw [hmade] at h
        cases h
    · cases h

theorem stat_of_events {parallel : Bool} (h : events fs root parallel = .error (.missingRoot p)) :
    fs.stat root = .error .notFound ∧ p = root := by
  unfold events at h
  split at h
  · repeat' split at h
    all_goals cases h
  · cases h
  · rename_i hstat
    cases h
    exact ⟨hstat, rfl⟩
  · cases h

/-- Only of a root that does not exist is it said that it is missing. -/
theorem scan_eq_missingRoot_iff :
    Snapshot.scan fs root filter options = (.error (.missingRoot p) : Except ScanError (Snapshot τ)) ↔
      fs.stat root = .error .notFound ∧ p = root := by
  constructor
  · intro h
    rw [Snapshot.scan, bind_eq_error] at h
    rcases h with hevents | ⟨es, -, h⟩
    · exact stat_of_events hevents
    rcases bind_eq_error.1 h with hitems | ⟨items, -, h⟩
    · obtain ⟨event, -, hevent⟩ := exists_of_mapM_eq_error hitems
      exact absurd hevent (examine_ne_missingRoot event)
    · obtain ⟨_, -, ⟨⟩⟩ := mapError_eq_error.1 h
  · rintro ⟨hstat, rfl⟩
    rw [Snapshot.scan, events, hstat]
    rfl

end Scan

theorem Table.FirstRepeated.of_keyItems {names : List String} {k : String}
    (h : Table.FirstRepeated (names.map KeyItem.mk) k) : Table.FirstRepeated names k := by
  obtain ⟨front, a, back, heq, rfl, hnodup, hmem⟩ := h
  have hkeys : ∀ texts : List String, texts.map key = texts := List.map_id
  have hnames := congrArg (List.map key) heq
  rw [List.map_map, List.map_append, List.map_cons] at hnames
  refine ⟨front.map key, key a, back.map key, (List.map_id names).symm.trans hnames, rfl, ?_, ?_⟩
  · rwa [hkeys]
  · rwa [hkeys]

namespace SourceSet

variable {τ : Type} [Scannable τ] {fs fs' : FileSystem} {root : Path} {filter : Filter}
  {options : ScanOptions} {d k : String} {names : List String} {x : Snapshot τ}
  {sets : List (String × Snapshot τ)} {s t : SourceSet τ} {e : ScanError}

theorem scanDirectory_of_isFound (h : IsFound fs (root.join (.ofString d)) filter options x) :
    scanDirectory fs root filter options (.ofString d) = .ok (d, x) := by
  rw [scanDirectory, Path.text_ofString]
  rcases h with hscan | ⟨hmissing, rfl⟩
  · rw [hscan]
  · rw [scan_eq_missingRoot_iff.2 ⟨hmissing, rfl⟩]

theorem scanDirectory_cases (fs : FileSystem) (root : Path) (filter : Filter) (options : ScanOptions)
    (d : String) :
    (∃ x : Snapshot τ, IsFound fs (root.join (.ofString d)) filter options x) ∨
      ∃ e, Snapshot.scan fs (root.join (.ofString d)) filter options =
          (.error e : Except ScanError (Snapshot τ)) ∧ (∀ p, e ≠ .missingRoot p) ∧
        scanDirectory fs root filter options (.ofString d) =
          (.error e : Except ScanError (String × Snapshot τ)) := by
  cases hscan : (Snapshot.scan fs (root.join (.ofString d)) filter options :
      Except ScanError (Snapshot τ)) with
  | ok x => exact .inl ⟨x, .inl hscan⟩
  | error e =>
    by_cases hmissing : ∃ p, e = .missingRoot p
    · obtain ⟨p, rfl⟩ := hmissing
      exact .inl ⟨_, .inr ⟨(scan_eq_missingRoot_iff.1 hscan).1, rfl⟩⟩
    · rw [not_exists] at hmissing
      refine .inr ⟨e, rfl, hmissing, ?_⟩
      rw [scanDirectory, hscan]
      cases e with
      | missingRoot p => exact absurd rfl (hmissing p)
      | _ => rfl

theorem scanDirectory_eq_ok_iff : scanDirectory fs root filter options (.ofString d) = .ok (k, x) ↔
    k = d ∧ IsFound fs (root.join (.ofString d)) filter options x := by
  constructor
  · intro h
    rcases scanDirectory_cases (τ := τ) fs root filter options d with ⟨y, hy⟩ | ⟨e, -, -, he⟩
    · rw [scanDirectory_of_isFound hy] at h
      cases h
      exact ⟨rfl, hy⟩
    · cases he.symm.trans h
  · rintro ⟨rfl, hx⟩
    exact scanDirectory_of_isFound hx

theorem exists_isFound_iff {path : Path} : (∃ x : Snapshot τ, IsFound fs path filter options x) ↔
    fs.stat path = .error .notFound ∨
      ∃ x : Snapshot τ, Snapshot.scan fs path filter options = .ok x := by
  constructor
  · rintro ⟨x, hscan | ⟨hmissing, -⟩⟩
    · exact .inr ⟨x, hscan⟩
    · exact .inl hmissing
  · rintro (hmissing | ⟨x, hscan⟩)
    · exact ⟨_, .inr ⟨hmissing, rfl⟩⟩
    · exact ⟨x, .inl hscan⟩

theorem keys_of_mapM (h : (names.map .ofString).mapM (scanDirectory fs root filter options) = .ok sets) :
    sets.map Prod.fst = names := by
  induction names generalizing sets with
  | nil =>
    cases h
    rfl
  | cons d names ih =>
    rw [List.map_cons, List.mapM_cons] at h
    obtain ⟨⟨k, x⟩, hfirst, h⟩ := bind_eq_ok.1 h
    obtain ⟨rest, hrest, h⟩ := bind_eq_ok.1 h
    cases h
    rw [List.map_cons, ih hrest, (scanDirectory_eq_ok_iff.1 hfirst).1]

theorem exists_isFound_of_mapM
    (h : (names.map .ofString).mapM (scanDirectory fs root filter options) = .ok sets) (hd : d ∈ names) :
    ∃ x, (d, x) ∈ sets ∧ IsFound fs (root.join (.ofString d)) filter options x := by
  have hpath : Path.ofString d ∈ names.map .ofString := List.mem_map_of_mem hd
  obtain ⟨⟨k, x⟩, hx⟩ := exists_of_mapM_eq_ok h _ hpath
  obtain ⟨rfl, hfound⟩ := scanDirectory_eq_ok_iff.1 hx
  exact ⟨x, (mem_of_mapM h _).2 ⟨_, hpath, hx⟩, hfound⟩

theorem exists_assemble (root : Path) (h : (sets.map Prod.fst).Nodup) :
    ∃ s, assemble root sets = .ok s := by
  have hkeys : ((sets.map Prod.fst).map KeyItem.mk).map key = sets.map Prod.fst := by
    rw [List.map_map]
    exact List.map_id _
  obtain ⟨names, hnames⟩ := Snapshot.exists_ofItems (τ := KeyItem) root.text (hkeys ▸ h)
  exact ⟨_, bind_eq_ok.2 ⟨names, mapError_eq_ok.2 hnames, rfl⟩⟩

/-- Only a repeated name keeps from being put together what was found. -/
theorem exists_firstRepeated_of_assemble (h : assemble root sets = .error e) :
    ∃ k, Table.FirstRepeated (sets.map Prod.fst) k ∧ e = .duplicateKey ⟨k, root.text⟩ := by
  rcases bind_eq_error.1 h with h | ⟨_, -, ⟨⟩⟩
  obtain ⟨e', hnames, rfl⟩ := mapError_eq_error.1 h
  by_cases hnodup : (((sets.map Prod.fst).map KeyItem.mk).map key).Nodup
  · obtain ⟨names, hok⟩ := Snapshot.exists_ofItems (τ := KeyItem) root.text hnodup
    cases hok.symm.trans hnames
  · obtain ⟨k, hfirst, hk⟩ := Snapshot.exists_ofItems_error (τ := KeyItem) root.text hnodup
    cases hk.symm.trans hnames
    exact ⟨k, hfirst.of_keyItems, rfl⟩

theorem scan_eq_ok_iff : scan fs root (names.map .ofString) filter options = .ok s ↔
    ∃ sets, (names.map .ofString).mapM (scanDirectory fs root filter options) = .ok sets ∧
      assemble root sets = .ok s := by
  rw [scan_eq, bind_eq_ok]

theorem diff_self_isEmpty [LawfulItem τ] (h : s.Coherent) : (s.diff s).isEmpty = true := by
  rw [(diffExact_of_coherent (fun _ _ => Iff.rfl) h h).isEmpty_iff]
  refine ⟨rfl, fun d k => ?_⟩
  unfold Differs
  cases s.item? d k with
  | none => exact id
  | some a =>
    rw [not_not]
    exact (LawfulItem.unchanged_iff a a rfl).2 rfl

/-- Directory by directory, the same is found. -/
theorem eq_of_missingAt [Scannable.Faithful τ] {q : Place} (h : MissingAt q fs fs')
    (hn : fs.top.WellNamed) (hn' : fs'.top.WellNamed)
    (hbeyond : ∀ d ∈ names, NotBeyond fs' q filter (root.join (.ofString d)))
    (hs : scan fs root (names.map .ofString) filter options = .ok s)
    (ht : scan fs' root (names.map .ofString) filter options = .ok t) : s = t := by
  obtain ⟨sets, hsets, hs⟩ := scan_eq_ok_iff.1 hs
  obtain ⟨sets', hsets', ht⟩ := scan_eq_ok_iff.1 ht
  have hsame : (names.map .ofString).map (scanDirectory fs' root filter options) =
      (names.map .ofString).map (scanDirectory (τ := τ) fs root filter options) := by
    apply List.map_congr_left
    intro path hpath
    obtain ⟨⟨k, x⟩, hx⟩ := exists_of_mapM_eq_ok hsets path hpath
    obtain ⟨⟨k', x'⟩, hx'⟩ := exists_of_mapM_eq_ok hsets' path hpath
    obtain ⟨d, hd, rfl⟩ := List.mem_map.1 hpath
    rw [hx, hx']
    obtain ⟨rfl, hfound⟩ := scanDirectory_eq_ok_iff.1 hx
    obtain ⟨rfl, hfound'⟩ := scanDirectory_eq_ok_iff.1 hx'
    rw [isFound_unique h hn hn' (hbeyond _ hd) hfound hfound']
  rw [mapM_eq_ok_iff.1 hsets, mapM_eq_ok_iff.1 hsets'] at hsame
  obtain rfl := List.map_injective_iff.2 (fun _ _ => Except.ok.inj) hsame
  exact Except.ok.inj (hs.symm.trans ht)

section Faithful

variable (hs : scan fs root (names.map .ofString) filter options = .ok s)
include hs

theorem set?_of_scan (hd : d ∈ names) :
    ∃ x, s.set? d = some x ∧ IsFound fs (root.join (.ofString d)) filter options x := by
  obtain ⟨sets, hsets, hassemble⟩ := scan_eq_ok_iff.1 hs
  obtain ⟨x, hmem, hx⟩ := exists_isFound_of_mapM hsets hd
  have hperm := (assemble_eq_ok_iff.1 hassemble).2.2.2
  exact ⟨x, set?_eq_some_iff.2 (hperm.mem_iff.1 hmem), hx⟩

theorem keys_of_scan : names.Perm s.directories.items.keys ∧ names.Perm s.sets.keys := by
  obtain ⟨sets, hsets, hassemble⟩ := scan_eq_ok_iff.1 hs
  obtain ⟨-, -, hnames, hperm⟩ := assemble_eq_ok_iff.1 hassemble
  have hkeys := hperm.map Prod.fst
  rw [keys_of_mapM hsets] at hnames hkeys
  exact ⟨hnames, hkeys⟩

end Faithful

theorem exists_scan_iff :
    (∃ s : SourceSet τ, scan fs root (names.map .ofString) filter options = .ok s) ↔
      (∀ d ∈ names, ∃ x : Snapshot τ, IsFound fs (root.join (.ofString d)) filter options x) ∧
        names.Nodup := by
  constructor
  · rintro ⟨s, hs⟩
    refine ⟨fun d hd => ?_, (keys_of_scan hs).1.nodup_iff.2 s.directories.items.nodup_keys⟩
    obtain ⟨x, -, hx⟩ := set?_of_scan hs hd
    exact ⟨x, hx⟩
  · rintro ⟨hall, hnodup⟩
    obtain ⟨sets, hsets⟩ : ∃ sets : List (String × Snapshot τ),
        (names.map .ofString).mapM (scanDirectory fs root filter options) = .ok sets := by
      apply exists_mapM_eq_ok
      intro path hpath
      obtain ⟨d, hd, rfl⟩ := List.mem_map.1 hpath
      obtain ⟨x, hx⟩ := hall d hd
      exact ⟨_, scanDirectory_of_isFound hx⟩
    obtain ⟨s, hs⟩ := exists_assemble root ((keys_of_mapM hsets).symm ▸ hnodup)
    exact ⟨s, scan_eq_ok_iff.2 ⟨sets, hsets, hs⟩⟩

/-- The first directory that is neither scanned nor missing. -/
def FirstFails (τ : Type) [Scannable τ] (fs : FileSystem) (root : Path) (names : List String)
    (filter : Filter) (options : ScanOptions) (e : ScanError) : Prop :=
  ∃ front d back, names = front ++ d :: back ∧
    (∀ d' ∈ front, ∃ x : Snapshot τ, IsFound fs (root.join (.ofString d')) filter options x) ∧
    Snapshot.scan fs (root.join (.ofString d)) filter options =
      (.error e : Except ScanError (Snapshot τ)) ∧
    ∀ p, e ≠ .missingRoot p

theorem firstFails_of_mapM (h : (names.map .ofString).mapM (scanDirectory fs root filter options) =
    (.error e : Except ScanError (List (String × Snapshot τ)))) :
    FirstFails τ fs root names filter options e := by
  obtain ⟨front, path, back, hnames, hfront, herror⟩ := exists_first_of_mapM_eq_error h
  obtain ⟨front, rest, rfl, rfl, hrest⟩ := List.map_eq_append_iff.1 hnames
  obtain ⟨d, back, rfl, rfl, rfl⟩ := List.map_eq_cons_iff.1 hrest
  refine ⟨front, d, back, rfl, fun d' hd' => ?_, ?_⟩
  · obtain ⟨⟨k, x⟩, hx⟩ := hfront _ (List.mem_map_of_mem hd')
    exact ⟨x, (scanDirectory_eq_ok_iff.1 hx).2⟩
  · rcases scanDirectory_cases (τ := τ) fs root filter options d with ⟨x, hx⟩ | ⟨e', hscan, hne, he'⟩
    · cases (scanDirectory_of_isFound hx).symm.trans herror
    · cases he'.symm.trans herror
      exact ⟨hscan, hne⟩

theorem error_of_scan (h : scan fs root (names.map .ofString) filter options =
    (.error e : Except ScanError (SourceSet τ))) :
    FirstFails τ fs root names filter options e ∨
      (∀ d ∈ names, ∃ x : Snapshot τ, IsFound fs (root.join (.ofString d)) filter options x) ∧
        ∃ k, Table.FirstRepeated names k ∧ e = .duplicateKey ⟨k, root.text⟩ := by
  rw [scan_eq, bind_eq_error] at h
  rcases h with hdirectory | ⟨sets, hsets, hassemble⟩
  · exact .inl (firstFails_of_mapM hdirectory)
  · right
    obtain ⟨k, hfirst, he⟩ := exists_firstRepeated_of_assemble hassemble
    rw [keys_of_mapM hsets] at hfirst
    refine ⟨fun d hd => ?_, k, hfirst, he⟩
    obtain ⟨x, -, hx⟩ := exists_isFound_of_mapM hsets hd
    exact ⟨x, hx⟩

/-- All that is asked of the scans of source directories by these names. -/
structure ScansFaithfully (τ : Type) [Scannable τ] (fs : FileSystem) (root : Path)
    (names : List String) (filter : Filter) (options : ScanOptions) : Prop where
  succeeds_iff : (∃ s : SourceSet τ, scan fs root (names.map .ofString) filter options = .ok s) ↔
    (∀ d ∈ names, fs.stat (root.join (.ofString d)) = .error .notFound ∨
      ∃ x : Snapshot τ, Snapshot.scan fs (root.join (.ofString d)) filter options = .ok x) ∧
    names.Nodup
  keys : ∀ s : SourceSet τ, scan fs root (names.map .ofString) filter options = .ok s →
    names.Perm s.directories.items.keys ∧ names.Perm s.sets.keys
  set : ∀ s : SourceSet τ, scan fs root (names.map .ofString) filter options = .ok s →
    ∀ d ∈ names, ∃ x, s.set? d = some x ∧ IsFound fs (root.join (.ofString d)) filter options x
  /-- A repeated name has the last say. -/
  fails : ∀ e, scan fs root (names.map .ofString) filter options =
      (.error e : Except ScanError (SourceSet τ)) →
    FirstFails τ fs root names filter options e ∨
      (∀ d ∈ names, ∃ x : Snapshot τ, IsFound fs (root.join (.ofString d)) filter options x) ∧
        ∃ k, Table.FirstRepeated names k ∧ e = .duplicateKey ⟨k, root.text⟩
  /-- A directory may as well be missing as empty, if nothing is looked for beyond it. -/
  missing_or_empty : ∀ fs' q, MissingAt q fs fs' → fs.top.WellNamed → fs'.top.WellNamed →
    (∀ d ∈ names, NotBeyond fs' q filter (root.join (.ofString d))) →
    ∀ s t : SourceSet τ, scan fs root (names.map .ofString) filter options = .ok s →
      scan fs' root (names.map .ofString) filter options = .ok t →
        s = t ∧ (t.diff s).isEmpty = true ∧ (s.diff t).isEmpty = true

theorem scansFaithfully [Scannable.Faithful τ] [LawfulItem τ] (fs : FileSystem) (root : Path)
    (names : List String) (filter : Filter) (options : ScanOptions) :
    ScansFaithfully τ fs root names filter options where
  succeeds_iff := by
    simp only [← exists_isFound_iff]
    exact exists_scan_iff
  keys := fun _ => keys_of_scan
  set := fun _ hs _ => set?_of_scan hs
  fails := fun _ => error_of_scan
  missing_or_empty := by
    intro fs' q h hn hn' hbeyond s t hs ht
    obtain rfl := eq_of_missingAt h hn hn' hbeyond hs ht
    have hempty := diff_self_isEmpty (coherent_of_scan hs)
    exact ⟨rfl, hempty, hempty⟩

end SourceSet

/-- A scan of source directories finds in each what a scan of it alone finds, under the names that were
given and no others. It fails for the first directory that does not scan, and else for a repeated name, and
sees no difference between a missing directory and an empty one, unless a path leads through it. -/
theorem source_set_scans_are_faithful (fs : FileSystem) (root : Path) (names : List String)
    (filter : Filter) (options : ScanOptions) :
    SourceSet.ScansFaithfully FileItem fs root names filter options ∧
      SourceSet.ScansFaithfully KeyItem fs root names filter options :=
  ⟨SourceSet.scansFaithfully fs root names filter options,
    SourceSet.scansFaithfully fs root names filter options⟩

namespace SourceSet

/-- A project with one source directory, and a link in it. -/
def startedProject : FileSystem where
  top := .directory true [(Utf8.encode "p", .directory true [(Utf8.encode "b", .directory true [
    (Utf8.encode "x", .file ⟨[1], 8, true⟩), (Utf8.encode "y", .link (Utf8.encode "x"))])])]
  workingDirectory := []
  clock := 0

/-- The same with a second directory, in which there is nothing yet. -/
def preparedProject : FileSystem :=
  { startedProject with
    top := startedProject.top.set (Utf8.encode "a") (some .emptyDirectory) [Utf8.encode "p"] }

theorem missingAt_startedProject :
    MissingAt [Utf8.encode "p", Utf8.encode "a"] startedProject preparedProject := by
  have hplace : startedProject.top.DirectoryAt [Utf8.encode "p"] := ⟨_, rfl, rfl⟩
  have hnone : startedProject.top.get? ([Utf8.encode "p"] ++ [Utf8.encode "a"]) = none := rfl
  exact missingAt_set hplace hnone

theorem wellNamed_startedProject : startedProject.top.WellNamed := by
  simp only [startedProject, Node.wellNamed_directory_iff, List.forall_mem_cons, List.not_mem_nil,
    Node.wellNamed_file, Node.wellNamed_link, IsEmpty.forall_iff, implies_true]
  decide +kernel

theorem wellNamed_preparedProject : preparedProject.top.WellNamed := by
  apply wellNamed_startedProject.set
  · decide +kernel
  · rintro _ ⟨⟩
    exact Node.wellNamed_directory_iff.2 ⟨List.nodup_nil, List.forall_mem_nil _⟩

/-- What is in the directory that is there. -/
def startedFiles : Table FileItem :=
  ⟨[⟨"x", .metadata 8 1⟩, ⟨"y", .metadata 8 1⟩], by decide +kernel⟩

/-- What is found of both directories in both projects. -/
def foundInProject : SourceSet FileItem where
  projectRoot := "p"
  directories := ⟨"p", ⟨[⟨"a"⟩, ⟨"b"⟩], by decide +kernel⟩⟩
  sets := ⟨[("a", .empty "p/a"), ("b", ⟨"p/b", startedFiles⟩)], by decide +kernel⟩

end SourceSet

open SourceSet

theorem source_set_scans_are_faithful_prepared :
    let root := Path.ofString "p"
    let scanned (fs : FileSystem) : Except ScanError (SourceSet FileItem) :=
      SourceSet.scan fs root (["b", "a"].map .ofString) (fun _ => true) ⟨.metadata, true⟩
    startedProject.stat (root.join (.ofString "a")) = .error .notFound ∧
      preparedProject.stat (root.join (.ofString "a")) = .ok .emptyDirectory ∧
      scanned startedProject = .ok foundInProject ∧ scanned preparedProject = .ok foundInProject ∧
      foundInProject.set? "a" = some (.empty "p/a") ∧
      (foundInProject.diff foundInProject).isEmpty = true := by
  intro root scanned
  have hs : scanned startedProject = .ok foundInProject := by decide +kernel
  have ht : scanned preparedProject = .ok foundInProject := by decide +kernel
  have hbeyond : ∀ d ∈ ["b", "a"], NotBeyond preparedProject [Utf8.encode "p", Utf8.encode "a"]
      (fun _ => true) (root.join (.ofString d)) := by
    simp only [List.forall_mem_cons, List.not_mem_nil, IsEmpty.forall_iff, implies_true, and_true]
    constructor
    · refine notBeyond_of_places rfl rfl (fun hlooked => ?_) ?_
      · exact absurd hlooked (by decide +kernel)
      · decide +kernel
    · refine notBeyond_of_places rfl rfl (fun _ place n hresolve => ?_) ?_
      · have hplace : preparedProject.resolve .target (root.join (.ofString "a")) =
            .ok (.node [Utf8.encode "p", Utf8.encode "a"] .emptyDirectory) := rfl
        cases hplace.symm.trans hresolve
        rfl
      · decide +kernel
  have hempty := (source_set_scans_are_faithful startedProject root ["b", "a"] (fun _ => true)
    ⟨.metadata, true⟩).1.missing_or_empty _ _ missingAt_startedProject wellNamed_startedProject
    wellNamed_preparedProject hbeyond foundInProject foundInProject hs ht
  exact ⟨rfl, rfl, hs, ht, by decide +kernel, hempty.2.1⟩

/-- Two dots lead out of the directory only when it is there. -/
theorem missing_and_empty_directories_are_told_apart :
    let root := Path.ofString "p"
    let scanned (fs : FileSystem) : Except ScanError (SourceSet FileItem) :=
      SourceSet.scan fs root (["a", "a/../b"].map .ofString) (fun _ => true) {}
    MissingAt [Utf8.encode "p", Utf8.encode "a"] startedProject preparedProject ∧
      startedProject.stat (root.join (.ofString "a")) = .error .notFound ∧
      preparedProject.stat (root.join (.ofString "a")) = .ok .emptyDirectory ∧
      ∃ s t, scanned startedProject = .ok s ∧ scanned preparedProject = .ok t ∧
        (t.diff s).isEmpty = false ∧ (s.diff t).isEmpty = false := by
  intro root scanned
  have hs : scanned startedProject = .ok
      ⟨"p", ⟨"p", ⟨[⟨"a"⟩, ⟨"a/../b"⟩], by decide +kernel⟩⟩,
        ⟨[("a", .empty "p/a"), ("a/../b", .empty "p/a/../b")], by decide +kernel⟩⟩ := by
    decide +kernel
  have ht : scanned preparedProject = .ok
      ⟨"p", ⟨"p", ⟨[⟨"a"⟩, ⟨"a/../b"⟩], by decide +kernel⟩⟩,
        ⟨[("a", .empty "p/a"), ("a/../b", ⟨"p/a/../b", startedFiles⟩)], by decide +kernel⟩⟩ := by
    decide +kernel
  exact ⟨missingAt_startedProject, rfl, rfl, _, _, hs, ht, by decide +kernel, by decide +kernel⟩

end BuildDelta
