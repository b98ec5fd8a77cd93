import BuildDelta.Proofs.FileSystem.Looked
import BuildDelta.Proofs.Scan.Parallel
/-!
# Scanning again after a change

A change with a footprint can be scanned around: as long as no path that a scan follows is looked up where
something has changed, a scan that succeeded before succeeds again (`exists_scan_again`), and whatever it
finds or misses then is one of the files that have come or gone (`exists_own_of_get?_ne`).
-/

namespace BuildDelta

open FileSystem

namespace Scan

/-- A way to one of the files that have come or gone, if it is accepted. -/
structure OwnFile (own : List Place) (filter : Filter) (place : Place) (names : List Name) : Prop where
  valid : ∀ name ∈ names, name.Valid
  mem : place ++ names ∈ own
  accepted : filter (relative names) = true

/-- A scan of the directory at a place does not follow paths to where something has changed, and can
enter and name what is new. -/
structure Undisturbed (own : List Place) (filter : Filter) (root : Path) (place : Place)
    (fs fs' : FileSystem) : Prop where
  root_kept : ∀ q ∈ fs.looked root, ¬Touched own fs fs' q
  links_kept : ∀ names target, fs.top.get? (place ++ names) = some (.link target) → place ++ names ∉ own →
    filter (relative names) = true → ∀ q ∈ fs.looked (root.below names), ¬Touched own fs fs' q
  short : ∀ names, Touched own fs fs' (place ++ names) → tooLong (root.below names) = false
  text : ∀ names, OwnFile own filter place names → Utf8.IsText (relative names).bytes

theorem get?_below {fs : FileSystem} {place : Place} {n : Node} (hplace : fs.top.get? place = some n)
    (names : List Name) : fs.top.get? (place ++ names) = n.get? names := by
  rw [Node.get?_append, hplace, Option.bind_some]

/-- Whether a change that the filter leaves out disturbs a scan can be seen from the places of the two
trees. -/
theorem undisturbed_of_places {own : List Place} {filter : Filter} {root : Path} {place : Place}
    {fs fs' : FileSystem} (hroot : ∀ q ∈ fs.looked root, ¬Touched own fs fs' q)
    (hbelow : ∀ q ∈ fs.top.places, place <+: q → filter (relative (q.drop place.length)) = true →
      ∀ q' ∈ fs.looked (root.below (q.drop place.length)), ¬Touched own fs fs' q')
    (hshort : ∀ q ∈ own ++ fs'.top.places, place <+: q →
      tooLong (root.below (q.drop place.length)) = false)
    (hrejected : ∀ q ∈ own, place <+: q → filter (relative (q.drop place.length)) = false) :
    Undisturbed own filter root place fs fs' := by
  have hnames : ∀ names, (place ++ names).drop place.length = names := fun _ => List.drop_left
  constructor
  · exact hroot
  · intro names target hlink _ hfilter
    have hq := hbelow _ (Node.mem_places_of_get? hlink) (List.prefix_append _ _)
    rw [hnames] at hq
    exact hq hfilter
  · intro names htouched
    have hmem : place ++ names ∈ own ++ fs'.top.places := by
      rw [List.mem_append]
      obtain hown | ⟨-, d, hd, -⟩ := htouched
      · exact .inl hown
      · exact .inr (Node.mem_places_of_get? hd)
    have hq := hshort _ hmem (List.prefix_append _ _)
    rwa [hnames] at hq
  · intro names hown
    have hq := hrejected _ hown.mem (List.prefix_append _ _)
    rw [hnames] at hq
    cases hq.symm.trans hown.accepted

section Again

variable {τ : Type} [Scannable τ] {own : List Place} {filter : Filter} {mode : FingerprintMode}
  {root : Path} {place : Place} {fs fs' : FileSystem} {n n' : Node} {names : List Name} {linked : Bool}
  {f : File} {s s' : Snapshot τ} (hchange : Footprint own fs fs')
  (hundisturbed : Undisturbed own filter root place fs fs') (hplace : fs.top.get? place = some n)
  (hplace' : fs'.top.get? place = some n')

include hchange hundisturbed hplace hplace'

/-- An accepted way that does not end at a file that has come or gone is a way before and after. -/
theorem meets_iff_of_untouched (hown : place ++ names ∉ own) (hfilter : filter (relative names) = true) :
    Meets fs' root n' names linked f ↔ Meets fs root n names linked f := by
  have hleaf : ∀ m, m.isDirectory = false → (n'.get? names = some m ↔ n.get? names = some m) := by
    intro m hm
    rw [← get?_below hplace, ← get?_below hplace']
    constructor
    · intro hafter
      have hface := hchange.untouched (place ++ names) <| by
        rintro (hmem | ⟨-, d, hd, hdirectory⟩)
        · exact hown hmem
        · cases hd.symm.trans hafter
          cases hm.symm.trans hdirectory
      exact Node.get?_of_face? hface.symm hafter hm
    · intro hbefore
      have hface := hchange.untouched (place ++ names) <| by
        rintro (hmem | ⟨hnone, -⟩)
        · exact hown hmem
        · cases hnone.symm.trans hbefore
      exact Node.get?_of_face? hface hbefore hm
  have hstat : ∀ target, n.get? names = some (.link target) →
      (fs'.stat (root.below names) = .ok (.file f) ↔ fs.stat (root.below names) = .ok (.file f)) := by
    intro target hlink
    rw [← get?_below hplace] at hlink
    exact stat_file_iff hchange.workingDirectory fun q hq =>
      hchange.untouched q (hundisturbed.links_kept names target hlink hown hfilter q hq)
  constructor
  · intro h
    exact h.imp (fun m hm => (hleaf m hm).1) fun target hlink => (hstat target ((hleaf _ rfl).1 hlink)).1
  · intro h
    exact h.imp (fun m hm => (hleaf m hm).2) fun target hlink => (hstat target hlink).2

theorem open_again (h : Open root n) : Open root n' := by
  intro names readable entries hnames
  rw [← get?_below hplace'] at hnames
  by_cases htouched : Touched own fs fs' (place ++ names)
  · refine ⟨hundisturbed.short names htouched, ?_⟩
    obtain hown | ⟨hnone, -⟩ := htouched
    · obtain ⟨f, hf, -⟩ := hchange.own_file _ hown _ hnames
      cases hf
    · exact hchange.made_readable _ readable entries hnone hnames
  · obtain ⟨m, hm, hface⟩ := Node.exists_of_face? (hchange.untouched _ htouched).symm hnames
    obtain ⟨entries', rfl⟩ := Node.exists_directory_of_face hface
    rw [get?_below hplace] at hm
    exact h names readable entries' hm

theorem entriesShort_again (h : EntriesShort root n) : EntriesShort root n' := by
  intro name m hm
  rw [← get?_below hplace'] at hm
  by_cases htouched : Touched own fs fs' (place ++ [name])
  · exact hundisturbed.short [name] htouched
  · obtain ⟨m', hm', -⟩ := Node.exists_of_face? (hchange.untouched _ htouched).symm hm
    rw [get?_below hplace] at hm'
    exact h name m' hm'

variable [Scannable.Faithful τ] (hn' : n'.WellNamed)
include hn'

theorem examined_again (h : Scanned fs root n filter mode s) (hmeets : Meets fs' root n' names linked f) :
    ∃ item? : Option τ, examine filter mode (meeting root names linked f) = .ok item? := by
  cases hfilter : filter (relative names) with
  | false => exact ⟨none, examine_of_rejected hfilter⟩
  | true =>
    by_cases hown : place ++ names ∈ own
    · obtain ⟨m, hm, -⟩ := hmeets.exists_node
      rw [← get?_below hplace'] at hm
      obtain ⟨g, rfl, hreadable⟩ := hchange.own_file _ hown m hm
      have hfile : g = f := by
        rw [get?_below hplace'] at hm
        cases hmeets with
        | file h => cases h.symm.trans hm; rfl
        | link h => cases h.symm.trans hm
      subst hfile
      have hvalid := hmeets.valid hn'
      obtain ⟨a, ha⟩ : ∃ a : τ, examine filter mode (meeting root names linked g) = .ok (some a) :=
        exists_item hvalid hfilter (fun _ => hundisturbed.short names (.inl hown))
          (fun _ => hreadable) (hundisturbed.text names ⟨hvalid, hown, hfilter⟩)
      exact ⟨some a, ha⟩
    · exact h.examined names linked f
        ((meets_iff_of_untouched hchange hundisturbed hplace hplace' hown hfilter).1 hmeets)

theorem exists_scanned_again (h : Scanned fs root n filter mode s) :
    ∃ s' : Snapshot τ, Scanned fs' root n' filter mode s' :=
  exists_scanned hn' (open_again hchange hundisturbed hplace hplace' h.entered) fun _ _ _ =>
    examined_again hchange hundisturbed hplace hplace' hn' h

variable (hn : n.WellNamed)
include hn

/-- What is found under a key is what was found before, unless a file of that key has come or gone. -/
theorem exists_own_of_get?_ne (h : Scanned fs root n filter mode s)
    (h' : Scanned fs' root n' filter mode s') {k : String} (hne : s'.get? k ≠ s.get? k) :
    ∃ names, OwnFile own filter place names ∧ Utf8.encode k = (relative names).bytes := by
  by_contra hnone
  simp only [not_exists, not_and] at hnone
  refine hne (Option.ext fun a => ?_)
  rw [Snapshot.get?, Snapshot.get?, Table.get?_eq_some_iff, Table.get?_eq_some_iff, h.mem_iff, h'.mem_iff]
  refine and_congr_left fun hkey => exists_congr fun names => exists_congr fun linked =>
    exists_congr fun f => and_congr_left fun hexamine => ?_
  have hiff : (∀ name ∈ names, name.Valid) →
      (Meets fs' root n' names linked f ↔ Meets fs root n names linked f) := by
    intro hvalid
    obtain ⟨hfilter, hitem⟩ := isItemOf_of_examine hvalid hexamine
    have hown : place ++ names ∉ own := fun hown =>
      hnone names ⟨hvalid, hown, hfilter⟩ (hkey ▸ hitem.key)
    exact meets_iff_of_untouched hchange hundisturbed hplace hplace' hown hfilter
  exact ⟨fun h => (hiff (h.valid hn')).1 h, fun h => (hiff (h.valid hn)).2 h⟩

end Again

/-- A scan that succeeded before a change succeeds after it, and finds the same but for the files that have
come or gone. -/
theorem exists_scan_again {τ : Type} [Scannable τ] [Scannable.Faithful τ] {own : List Place}
    {filter : Filter} {options : ScanOptions} {root : Path} {place : Place} {fs fs' : FileSystem}
    {n : Node} {s : Snapshot τ} (hchange : Footprint own fs fs')
    (hundisturbed : Undisturbed own filter root place fs fs') (hn : fs.top.WellNamed)
    (hresolve : fs.resolve .target root = .ok (.node place n))
    (hscan : Snapshot.scan fs root filter options = .ok s) :
    ∃ s' : Snapshot τ, Snapshot.scan fs' root filter options = .ok s' ∧
      ∀ k, s'.get? k ≠ s.get? k →
        ∃ names, OwnFile own filter place names ∧ Utf8.encode k = (relative names).bytes := by
  obtain ⟨m, hstat, hdirectory⟩ := exists_directory_of_scan hscan
  obtain rfl : m = n := by
    obtain ⟨q, hq⟩ := stat_eq_ok_iff.1 hstat
    cases hq.symm.trans hresolve
    rfl
  have hface := resolve_face hchange.workingDirectory fun q hq =>
    hchange.untouched q (hundisturbed.root_kept q hq)
  obtain ⟨n', hresolve', hsame⟩ := exists_node_of_face hface hresolve
  have hstat' := stat_eq_ok_iff.2 ⟨place, hresolve'⟩
  have hdirectory' : n'.isDirectory = true := (Node.isDirectory_eq_of_face hsame).trans hdirectory
  have hplace := (resolve_eq_ok.1 hresolve).2.describes
  have hplace' := (resolve_eq_ok.1 hresolve').2.describes
  have hnamed := wellNamed_of_stat hn hstat
  have hnamed' := wellNamed_of_stat hchange.wellNamed hstat'
  obtain ⟨hscanned, hshort⟩ := (scan_eq_ok_iff hstat hdirectory hnamed).1 hscan
  obtain ⟨s', hscanned'⟩ :=
    exists_scanned_again hchange hundisturbed hplace hplace' hnamed' hscanned
  refine ⟨s', (scan_eq_ok_iff hstat' hdirectory' hnamed').2 ⟨hscanned', fun hparallel => ?_⟩, ?_⟩
  · exact entriesShort_again hchange hundisturbed hplace hplace' (hshort hparallel)
  · intro k
    exact exists_own_of_get?_ne hchange hundisturbed hplace hplace' hnamed' hnamed hscanned hscanned'

end Scan

end BuildDelta
