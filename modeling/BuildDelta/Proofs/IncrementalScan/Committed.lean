import BuildDelta.Proofs.IncrementalScan.History
import BuildDelta.Proofs.PathFilter
import BuildDelta.Proofs.Scan.Again
import BuildDelta.Proofs.Store.Footprint
import BuildDelta.Settings.Reader
/-!
# Scanning right after a commit

A commit writes into the tree that is scanned next. What it leaves there is the state file, and no draft
beside it any more; a scan that follows a commit reports nothing but these two, and them only if the filter
lets them through (`committed_scan_is_fixpoint`). No filter leaves them out by itself: it takes settings
that do.
-/

namespace BuildDelta

open FileSystem Scan

/-- Extensions are listed, and those of states and drafts are not among them. -/
def PathFilter.OmitsStates (filter : PathFilter) : Prop :=
  filter.extensions ≠ [] ∧ ∀ e ∈ filter.extensions,
    sameLetters e "snapshot" = false ∧ sameLetters e "tmp" = false

namespace Store

variable {store : Store} {name : String} {fs : FileSystem} {place q : Place}

/-- No state and no draft has a listed extension. -/
theorem not_accepts_own {filter : PathFilter} (hname : Path.slash ∉ Utf8.encode name)
    (hfilter : filter.OmitsStates) {names : List Name} (hvalid : ∀ name ∈ names, name.Valid)
    (hown : place ++ names ∈ store.ownPlaces name fs) : filter.accepts (relative names) = false := by
  refine PathFilter.not_accepts_of_extension hfilter.1 hvalid ?_
  intro file extension hlast hextension e he
  obtain ⟨parent, hplace⟩ := exists_of_mem_ownPlaces hname hown
  have hfile : file = stateName name ∨ file = draftName (stateName name) := by
    have hwhole : (place ++ names).getLast? = some file := by
      rw [List.getLast?_append, hlast]
      rfl
    obtain hstate | hdraft := hplace
    · rw [hstate, List.getLast?_concat] at hwhole
      exact .inl (Option.some.inj hwhole).symm
    · rw [hdraft, List.getLast?_concat] at hwhole
      exact .inr (Option.some.inj hwhole).symm
  obtain hsnapshot | htmp :=
    extension_of_own (hvalid file (List.mem_of_getLast? hlast)) hfile hextension
  · rw [Utf8.encode_injective hsnapshot]
    exact (hfilter.2 e he).1
  · rw [Utf8.encode_injective htmp]
    exact (hfilter.2 e he).2

end Store

namespace IncrementalScanner

/-- The places of a scanner's state file and its draft. -/
def ownPlaces (scanner : IncrementalScanner) (fs : FileSystem) : List Place :=
  scanner.store.ownPlaces scanner.name fs

/-- What a scan right after a commit finds, where the project is at this place. -/
structure SeesOwnFilesOnly {τ : Type} [Item τ] (own : List Place) (settings : SnapshotSettings)
    (place : Place) (found : ScanOutcome τ) : Prop where
  had_previous : found.hadPrevious = true
  own_file : ∀ c ∈ found.diff.toList, ∃ names,
    OwnFile own (PathFilter.ofSettings settings).accepts place names ∧
      Utf8.encode (Keyed.key c) = (relative names).bytes
  empty_of_outside : (∀ names, place ++ names ∉ own) → found.diff.toList = []
  empty_of_hidden : settings.skipHidden = true → (∀ names, place ++ names ∈ own →
    ∃ name ∈ names, name.head? = some Path.dot) → found.diff.toList = []
  empty_of_extensions : (PathFilter.ofSettings settings).OmitsStates → found.diff.toList = []

/-- A commit after which a scan is as good as the one that was committed, in however little memory. Its
items are counted in a machine word. -/
def Settles (τ : Type) [Scannable τ] [Wire.Format τ] (scanner : IncrementalScanner)
    (settings : SnapshotSettings) (root : Path) (place : Place) (fs fs' : FileSystem) : Prop :=
  ∀ (first : ScanOutcome τ) (memory : Nat), scanner.scan root fs memory = .ok first →
    first.current.items.size < 2 ^ 64 → (scanner.commit first).run fs = (.ok ⟨⟩, fs') →
    ∃ second : ScanOutcome τ, scanner.scan root fs' memory = .ok second ∧
      SeesOwnFilesOnly (scanner.ownPlaces fs') settings place second

section Settles

variable {τ : Type} [Scannable τ] [Wire.Format τ] {scanner : IncrementalScanner}
  {settings : SnapshotSettings} {root : Path} {place : Place} {fs fs' : FileSystem} {n : Node}

omit [Wire.Format τ] in
/-- What is left to show once all differences are files of the scanner's own. -/
theorem seesOwnFilesOnly {found : ScanOutcome τ} (hname : Path.slash ∉ Utf8.encode scanner.name)
    (hprevious : found.hadPrevious = true) (hown : ∀ c ∈ found.diff.toList, ∃ names,
      OwnFile (scanner.ownPlaces fs') (PathFilter.ofSettings settings).accepts place names ∧
        Utf8.encode (Keyed.key c) = (relative names).bytes) :
    SeesOwnFilesOnly (scanner.ownPlaces fs') settings place found := by
  have hempty : (∀ names, ¬OwnFile (scanner.ownPlaces fs') (PathFilter.ofSettings settings).accepts
      place names) → found.diff.toList = [] := by
    intro hnone
    refine List.eq_nil_iff_forall_not_mem.2 fun c hc => ?_
    obtain ⟨names, hnames, -⟩ := hown c hc
    exact hnone names hnames
  refine ⟨hprevious, hown, ?_, ?_, ?_⟩
  · intro houtside
    exact hempty fun names hnames => houtside names hnames.mem
  · intro hskip hhidden
    refine hempty fun names hnames => ?_
    have hrejected : (PathFilter.ofSettings settings).accepts (relative names) = false :=
      PathFilter.not_accepts_of_hidden hskip hnames.valid (hhidden names hnames.mem)
    cases hrejected.symm.trans hnames.accepted
  · intro homits
    refine hempty fun names hnames => ?_
    cases (Store.not_accepts_own hname homits hnames.valid hnames.mem).symm.trans hnames.accepted

theorem settles [Wire.Lawful τ] [Scannable.Faithful τ] [LawfulItem τ]
    (hitem : ∀ mode key f (a : τ), Scannable.ofFile mode key f = .ok a → Wire.Fits key → Wire.Fits a)
    (hfilter : scanner.filter = (PathFilter.ofSettings settings).accepts)
    (hname : Path.slash ∉ Utf8.encode scanner.name) (hn : fs.top.WellNamed)
    (hresolve : fs.resolve .target root = .ok (.node place n))
    (hclear : Store.isClear scanner.statePath
      ((makeDirectories scanner.store.directory).run fs).2 = true)
    (hundisturbed : Undisturbed (scanner.ownPlaces fs') scanner.filter root place fs fs') :
    Settles τ scanner settings root place fs fs' := by
  intro first memory hscan hsize hcommit
  have hready := Store.clearToWrite_of_isClear hclear
  have hchange : Footprint (scanner.ownPlaces fs') fs fs' :=
    Store.footprint_of_writeWhole hname hn hready hcommit
  obtain ⟨hfirst, -⟩ := scan_eq_ok.1 hscan
  obtain ⟨current, hsecond, hsame⟩ := exists_scan_again hchange hundisturbed hn hresolve hfirst
  -- the state is read back as the scan that was committed
  have hbound : 2 ^ 64 = Wire.Width.count.bound := by decide
  have hfits : Wire.Fits first.current :=
    Snapshot.fits_of_scan hitem hfirst (Nat.lt_of_lt_of_eq hsize hbound)
  obtain ⟨way, name, last, hbeside⟩ := Store.draft_beside_state scanner.store scanner.name
  have hload : scanner.store.loadUsable scanner.name fs' memory = .ok (some first.current) :=
    loadUsable_of_contentAt hfits (Store.contentAt_of_writeWhole hbeside hready hcommit)
  refine ⟨.compare current (some first.current), ?_, seesOwnFilesOnly hname rfl ?_⟩
  · exact scan_eq_ok.2 ⟨hsecond, _, hload, rfl⟩
  · intro c hc
    have hdiff : (current.diff first.current).get? (Keyed.key c) = some c :=
      Table.get?_key_of_mem hc
    have hne : current.get? (Keyed.key c) ≠ first.current.get? (Keyed.key c) := by
      intro heq
      rw [Snapshot.get?_diff_eq_none_iff.2 heq] at hdiff
      cases hdiff
    rw [← hfilter]
    exact hsame _ hne

end Settles

/-- A scan right after a commit has the committed scan before it and reports nothing but the state file and
its draft, whatever the settings. It reports nothing at all where these are outside the project, below a
hidden name that is skipped, or left out by the extensions. -/
theorem committed_scan_is_fixpoint (settings : SnapshotSettings) (projectRoot : Path) (name : String)
    (fs fs' : FileSystem) (place : Place) (n : Node) (hname : Path.slash ∉ Utf8.encode name)
    (hn : fs.top.WellNamed) (hresolve : fs.resolve .target projectRoot = .ok (.node place n))
    (hclear : Store.isClear (statePath (.ofSettings projectRoot name settings))
      ((makeDirectories (Store.ofSettings projectRoot settings).directory).run fs).2 = true)
    (hundisturbed : Undisturbed ((ofSettings projectRoot name settings).ownPlaces fs')
      (PathFilter.ofSettings settings).accepts projectRoot place fs fs') :
    Settles FileItem (.ofSettings projectRoot name settings) settings projectRoot place fs fs' ∧
      Settles KeyItem (.ofSettings projectRoot name settings) settings projectRoot place fs fs' := by
  exact ⟨settles FileItem.fits_of_ofFile rfl hname hn hresolve hclear hundisturbed,
    settles KeyItem.fits_of_ofFile rfl hname hn hresolve hclear hundisturbed⟩

/-- A project with a link to one of its files, and what a scan of it finds. -/
def sampleTree : Node := .directory true [
  (Utf8.encode "a.txt", .file ⟨[1, 2], 5, true⟩),
  (Utf8.encode "link", .link (Utf8.encode "a.txt"))]

def sample : FileSystem where
  top := .directory true [(Utf8.encode "p", sampleTree)]
  workingDirectory := []
  clock := 9

def sampleScan : ScanOutcome FileItem :=
  .compare ⟨"p", ⟨[⟨"a.txt", .metadata 5 2⟩, ⟨"link", .metadata 5 2⟩], by decide +kernel⟩⟩ none

theorem wellNamed_sample : sample.top.WellNamed := by
  simp only [sample, sampleTree, Node.wellNamed_directory_iff, List.forall_mem_cons,
    List.not_mem_nil, Node.wellNamed_file, Node.wellNamed_link, IsEmpty.forall_iff, implies_true]
  decide +kernel

theorem committed_scan_is_fixpoint_default :
    let root := Path.ofString "p"
    let place : Place := [Utf8.encode "p"]
    let scanner := ofSettings root "main" {}
    let fs' := ((scanner.commit sampleScan).run sample).2
    Path.slash ∉ Utf8.encode "main" ∧ sample.top.WellNamed ∧
      sample.resolve .target root = .ok (.node place sampleTree) ∧
      Store.isClear scanner.statePath
        ((makeDirectories scanner.store.directory).run sample).2 = true ∧
      Undisturbed (scanner.ownPlaces fs') scanner.filter root place sample fs' ∧
      scanner.scan root sample = .ok sampleScan ∧
      (scanner.commit sampleScan).run sample = (.ok ⟨⟩, fs') ∧
      ∃ second : ScanOutcome FileItem, scanner.scan root fs' = .ok second ∧
        second.hadPrevious = true ∧ second.diff.toList = [] := by
  intro root place scanner fs'
  have hname : Path.slash ∉ Utf8.encode "main" := by decide +kernel
  have hresolve : sample.resolve .target root = .ok (.node place sampleTree) := rfl
  have hclear : Store.isClear scanner.statePath
      ((makeDirectories scanner.store.directory).run sample).2 = true := by decide +kernel
  have hown : scanner.ownPlaces fs' = [place ++ [Utf8.encode ".incre", Utf8.encode "main.snapshot"],
      place ++ [Utf8.encode ".incre", Utf8.encode "main.tmp"]] := by decide +kernel
  have hundisturbed : Undisturbed (scanner.ownPlaces fs') scanner.filter root place sample fs' := by
    rw [hown]
    apply undisturbed_of_places
    all_goals decide +kernel
  have hplain : Snapshot.scan sample root scanner.filter scanner.options = .ok sampleScan.current := by
    decide +kernel
  have hnone : scanner.store.loadUsable "main" sample = .ok (none : Option (Snapshot FileItem)) := by
    decide +kernel
  have hscan : scanner.scan root sample = .ok sampleScan :=
    scan_eq_ok.2 ⟨hplain, none, hnone, rfl⟩
  have hok : ((scanner.commit sampleScan).run sample).1 = .ok ⟨⟩ := by decide +kernel
  have hcommit : (scanner.commit sampleScan).run sample = (.ok ⟨⟩, fs') := by
    rw [← Prod.eta ((scanner.commit sampleScan).run sample), hok]
  obtain ⟨hfiles, -⟩ := committed_scan_is_fixpoint {} root "main" sample fs' place sampleTree hname
    wellNamed_sample hresolve hclear hundisturbed
  obtain ⟨second, hsecond, hsees⟩ := hfiles sampleScan Bytes.addressable hscan (by decide) hcommit
  have hempty : second.diff.toList = [] := by
    refine hsees.empty_of_hidden rfl fun names hnames => ?_
    rw [hown] at hnames
    simp only [List.mem_cons, List.append_cancel_left_eq, List.not_mem_nil, or_false] at hnames
    refine ⟨Utf8.encode ".incre", ?_, by decide +kernel⟩
    obtain rfl | rfl := hnames
    · exact List.mem_cons_self
    · exact List.mem_cons_self
  exact ⟨hname, wellNamed_sample, hresolve, hclear, hundisturbed, hscan, hcommit, second, hsecond,
    hsees.had_previous, hempty⟩

/-- What a scan right after a commit comes to, where the working directory holds nothing but a project `p`,
with settings from a text: whether there was a scan before it, and the keys that it reports. It comes to
nothing if the settings, the first scan or the commit fail. -/
def afterCommit? (projectRoot : Path) (text : String) (entries : List (Name × Node)) :
    Option (Except ScanError (Bool × List String)) :=
  match Settings.ofText text with
  | .error _ => none
  | .ok settings =>
    let scanner := ofSettings projectRoot "main" settings.snapshot
    let fs : FileSystem := ⟨.directory true [(Utf8.encode "p", .directory true entries)], [], 9⟩
    match (scanner.scan projectRoot fs : Except ScanError (ScanOutcome FileItem)) with
    | .error _ => none
    | .ok first => match (scanner.commit first).run fs with
      | (.error _, _) => none
      | (.ok _, fs') => some <|
        (scanner.scan projectRoot fs' : Except ScanError (ScanOutcome FileItem)).map fun second =>
          (second.hadPrevious, second.diff.toList.map Keyed.key)

/-- A scan right after a commit reports the state file where settings do not keep it out of sight, and a link
that leads to it. A link in the place of the draft becomes the state, here one to itself. Through a link
the state file can get a path that is no text, and behind a long root the new directory one that is too
long. -/
theorem commits_are_not_always_settled :
    afterCommit? (.ofString "p")
        "[snapshot]\nstate_dir = \"state\"\nfingerprint = \"content\"\n"
        [(Utf8.encode "a.txt", .file ⟨[1], 5, true⟩)] =
      some (.ok (true, ["state/main.snapshot"])) ∧
    afterCommit? (.ofString "p") "" [(Utf8.encode "a.txt", .file ⟨[1], 5, true⟩),
        (Utf8.encode "last", .link (Utf8.encode ".incre/main.snapshot"))] =
      some (.ok (true, ["last"])) ∧
    afterCommit? (.ofString "p") "" [(Utf8.encode "a.txt", .file ⟨[1], 5, true⟩),
        (Utf8.encode ".incre", .directory true [
          (Utf8.encode "main.tmp", .link (Utf8.encode "main.snapshot"))])] =
      some (.ok (false, ["a.txt"])) ∧
    afterCommit? (.ofString "p") "[snapshot]\nstate_dir = \"link\"\n"
        [(Utf8.encode "link", .link [0xFF]), ([0xFF], .emptyDirectory)] =
      some (.error (.notUtf8 ⟨Utf8.encode "p/" ++ 0xFF :: Utf8.encode "/main.snapshot"⟩)) ∧
    (afterCommit? (.behindDots 2044 (Utf8.encode "p")) "[snapshot]\nstate_dir = \"/p/.incre\"\n"
      []).map Except.isOk = some false := by
  refine ⟨?_, ?_, ?_, ?_, ?_⟩
  all_goals decide +kernel

end IncrementalScanner

end BuildDelta
