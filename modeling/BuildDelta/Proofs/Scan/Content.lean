import BuildDelta.Proofs.Scan.Parallel
import BuildDelta.Proofs.SourceSet.Exact
import Mathlib.Data.Set.Function
/-!
# Scans by content see contents

What a scan by content has under a key is the mark of a file with that path, made of its bytes alone
(`Scan.get?_eq_some_iff`), and it has nothing under any other key. So of two scans, of
whatever trees, the difference tells where a file has come or gone or has another mark
(`content_scans_see_contents`): times, and whether it is the file or a link to one that is there, are not
seen in it.
-/

namespace BuildDelta

open FileSystem

namespace Scan

variable {fs fs' : FileSystem} {root root' : Path} {filter : Filter} {f f' : File} {k : String}
  {parallel parallel' : Bool} {s t : Snapshot FileItem}

/-- Whether a file, or a link to it, has this path below a root, through real directories. -/
def FileAt (fs : FileSystem) (root : Path) (k : String) (f : File) : Prop :=
  ∃ n names linked, fs.stat root = .ok n ∧ Meets fs root n names linked f ∧
    relative names = .ofString k

/-- All that a scan by content keeps of a file: the hash and the number of its bytes. -/
def mark (f : File) : ContentHash × UInt64 :=
  (ContentHash.ofBytes f.content, UInt64.ofNat f.content.length)

def contentItem (k : String) (f : File) : FileItem := ⟨k, .content (mark f).1 (mark f).2⟩

theorem contentItem_inj : contentItem k f = contentItem k f' ↔ mark f = mark f' := by
  simp [contentItem, Prod.ext_iff]

theorem mark_eq_of_content_eq (h : f.content = f'.content) : mark f = mark f' := by
  rw [mark, mark, h]

theorem eq_contentItem_of_ofFile {a : FileItem} (h : Scannable.ofFile .content k f = .ok a) :
    a = contentItem k f := by
  obtain ⟨print, hprint, rfl⟩ := map_eq_ok.1 h
  cases FileFingerprint.ofFile_eq_ok_iff.1 hprint
  rfl

theorem exists_scanned_of_scan {τ : Type} [Scannable τ] [Scannable.Faithful τ] {options : ScanOptions}
    {s : Snapshot τ} (hn : fs.top.WellNamed) (h : Snapshot.scan fs root filter options = .ok s) :
    ∃ n, fs.stat root = .ok n ∧ n.WellNamed ∧ Scanned fs root n filter options.fingerprint s := by
  obtain ⟨n, hstat, hdirectory⟩ := exists_directory_of_scan h
  have hnamed := wellNamed_of_stat hn hstat
  exact ⟨n, hstat, hnamed, ((scan_eq_ok_iff hstat hdirectory hnamed).1 h).1⟩

section Entry

variable (hn : fs.top.WellNamed)
  (hscan : Snapshot.scan fs root filter ⟨.content, parallel⟩ = .ok s)
include hn hscan

theorem get?_of_fileAt (hfilter : filter (.ofString k) = true) (h : FileAt fs root k f) :
    s.get? k = some (contentItem k f) := by
  obtain ⟨n, hstat, hnamed, hscanned⟩ := exists_scanned_of_scan hn hscan
  obtain ⟨m, names, linked, hm, hmeets, hkey⟩ := h
  cases hm.symm.trans hstat
  rw [← hkey] at hfilter
  obtain ⟨item?, hitem⟩ := hscanned.examined names linked f hmeets
  have hexamine := hitem
  rw [examine_of_text (hmeets.valid hnamed) hfilter (congrArg Path.bytes hkey).symm] at hitem
  split at hitem
  · cases hitem
  obtain ⟨a, hmade, rfl⟩ := map_eq_ok.1 hitem
  obtain rfl := eq_contentItem_of_ofFile (mapError_eq_ok.1 hmade)
  exact Table.get?_eq_some_iff.2 ⟨(hscanned.mem_iff _).2 ⟨names, linked, f, hmeets, hexamine⟩, rfl⟩

theorem exists_fileAt_of_get? {a : FileItem} (h : s.get? k = some a) :
    filter (.ofString k) = true ∧ ∃ f, FileAt fs root k f := by
  obtain ⟨n, hstat, hnamed, hscanned⟩ := exists_scanned_of_scan hn hscan
  obtain ⟨hmem, rfl⟩ := Table.mem_of_get? h
  obtain ⟨names, linked, f, hmeets, hexamine⟩ := (hscanned.mem_iff a).1 hmem
  obtain ⟨hfilter, hitem⟩ := isItemOf_of_examine (hmeets.valid hnamed) hexamine
  have hkey : relative names = .ofString (Keyed.key a) := congrArg Path.mk hitem.key.symm
  exact ⟨hkey ▸ hfilter, f, n, names, linked, hstat, hmeets, hkey⟩

/-- An entry of a scan by content is all there is to say about a file, and nothing more. -/
theorem get?_eq_some_iff {a : FileItem} : s.get? k = some a ↔
    filter (.ofString k) = true ∧ ∃ f, FileAt fs root k f ∧ a = contentItem k f := by
  constructor
  · intro h
    obtain ⟨hfilter, f, hf⟩ := exists_fileAt_of_get? hn hscan h
    rw [get?_of_fileAt hn hscan hfilter hf] at h
    exact ⟨hfilter, f, hf, (Option.some.inj h).symm⟩
  · rintro ⟨hfilter, f, hf, rfl⟩
    exact get?_of_fileAt hn hscan hfilter hf

theorem get?_eq_none_iff : s.get? k = none ↔
    ¬(filter (.ofString k) = true ∧ ∃ f, FileAt fs root k f) := by
  constructor
  · rintro hnone ⟨hfilter, f, hf⟩
    cases hnone.symm.trans (get?_of_fileAt hn hscan hfilter hf)
  · intro h
    by_contra hsome
    obtain ⟨a, ha⟩ := Option.ne_none_iff_exists'.1 hsome
    exact h (exists_fileAt_of_get? hn hscan ha)

end Entry

/-- A file on one side only, or files with different marks. -/
def DiffersAt (fs fs' : FileSystem) (root root' : Path) (k : String) : Prop :=
  Xor (∃ f, FileAt fs root k f) (∃ f', FileAt fs' root' k f') ∨
    ∃ f f', FileAt fs root k f ∧ FileAt fs' root' k f' ∧ mark f ≠ mark f'

/-- The bytes under an accepted path. -/
def HasContent (fs : FileSystem) (root : Path) (filter : Filter) (k : String) (bytes : Bytes) : Prop :=
  filter (.ofString k) = true ∧ ∃ f, FileAt fs root k f ∧ f.content = bytes

/-- The same accepted paths, with the same bytes. -/
def SameContents (fs fs' : FileSystem) (root root' : Path) (filter : Filter) : Prop :=
  ∀ k bytes, HasContent fs root filter k bytes ↔ HasContent fs' root' filter k bytes

/-- The contents that are looked at on either side. -/
def contents (fs fs' : FileSystem) (root root' : Path) (filter : Filter) : Set Bytes :=
  {bytes | ∃ k, HasContent fs root filter k bytes ∨ HasContent fs' root' filter k bytes}

/-- All that the difference of two scans by content tells. -/
structure SeesContents (fs fs' : FileSystem) (root root' : Path) (filter : Filter) (d : Diff FileItem) :
    Prop where
  entry_iff : ∀ k, (d.get? k).isSome ↔ filter (.ofString k) = true ∧ DiffersAt fs fs' root root' k
  /-- Where the bytes are the same, it does not matter when they were written and whether a link leads to
  them. -/
  no_entry : ∀ k f f', FileAt fs root k f → FileAt fs' root' k f' → f.content = f'.content →
    d.get? k = none
  empty_of_same : SameContents fs fs' root root' filter → d.isEmpty = true
  /-- Different contents can only be missed if they have one hash. -/
  empty_iff : Set.InjOn ContentHash.ofBytes (contents fs fs' root root' filter) →
    (d.isEmpty = true ↔ SameContents fs fs' root root' filter)

section Diff

variable (hn : fs.top.WellNamed) (hn' : fs'.top.WellNamed)
  (hs : Snapshot.scan fs root filter ⟨.content, parallel⟩ = .ok s)
  (ht : Snapshot.scan fs' root' filter ⟨.content, parallel'⟩ = .ok t)
include hn hn' hs ht

theorem get?_ne_iff : t.get? k ≠ s.get? k ↔
    filter (.ofString k) = true ∧ DiffersAt fs fs' root root' k := by
  constructor
  · intro hne
    cases hget : s.get? k with
    | none =>
      obtain ⟨b, hget'⟩ := Option.ne_none_iff_exists'.1 (hget ▸ hne)
      obtain ⟨hfilter, hfile'⟩ := exists_fileAt_of_get? hn' ht hget'
      have hnone := (get?_eq_none_iff hn hs).1 hget
      exact ⟨hfilter, .inl (.inr ⟨hfile', fun hfile => hnone ⟨hfilter, hfile⟩⟩)⟩
    | some a =>
      obtain ⟨hfilter, f, hf⟩ := exists_fileAt_of_get? hn hs hget
      refine ⟨hfilter, ?_⟩
      by_cases hfile' : ∃ f', FileAt fs' root' k f'
      · obtain ⟨f', hf'⟩ := hfile'
        rw [get?_of_fileAt hn hs hfilter hf, get?_of_fileAt hn' ht hfilter hf', Ne, Option.some_inj,
          contentItem_inj] at hne
        exact .inr ⟨f, f', hf, hf', fun heq => hne heq.symm⟩
      · exact .inl (.inl ⟨⟨f, hf⟩, hfile'⟩)
  · rintro ⟨hfilter, (⟨⟨f, hf⟩, hnone⟩ | ⟨⟨f', hf'⟩, hnone⟩) | ⟨f, f', hf, hf', hne⟩⟩
    · rw [get?_of_fileAt hn hs hfilter hf, (get?_eq_none_iff hn' ht).2 fun h => hnone h.2]
      exact nofun
    · rw [get?_of_fileAt hn' ht hfilter hf', (get?_eq_none_iff hn hs).2 fun h => hnone h.2]
      exact nofun
    · rw [get?_of_fileAt hn hs hfilter hf, get?_of_fileAt hn' ht hfilter hf', Ne, Option.some_inj,
        contentItem_inj]
      exact hne.symm

/-- What has the same bytes on the other side is there with the same entry. -/
theorem get?_of_hasContent {a : FileItem} (h : s.get? k = some a)
    (hsame : ∀ bytes, HasContent fs root filter k bytes → HasContent fs' root' filter k bytes) :
    t.get? k = some a := by
  obtain ⟨hfilter, f, hf, rfl⟩ := (get?_eq_some_iff hn hs).1 h
  obtain ⟨-, f', hf', hcontent⟩ := hsame f.content ⟨hfilter, f, hf, rfl⟩
  rw [get?_of_fileAt hn' ht hfilter hf', contentItem_inj.2 (mark_eq_of_content_eq hcontent)]

/-- What has the same entry on the other side has the same bytes there. -/
theorem hasContent_of_get?_eq (heq : t.get? k = s.get? k) {bytes : Bytes}
    (hinj : ∀ bytes', HasContent fs' root' filter k bytes' →
      ContentHash.ofBytes bytes = ContentHash.ofBytes bytes' → bytes = bytes')
    (h : HasContent fs root filter k bytes) : HasContent fs' root' filter k bytes := by
  obtain ⟨hfilter, f, hf, rfl⟩ := h
  rw [get?_of_fileAt hn hs hfilter hf, get?_eq_some_iff hn' ht] at heq
  obtain ⟨-, f', hf', hmark⟩ := heq
  have hhash : ContentHash.ofBytes f.content = ContentHash.ofBytes f'.content :=
    congrArg Prod.fst (contentItem_inj.1 hmark)
  exact ⟨hfilter, f', hf', (hinj _ ⟨hfilter, f', hf', rfl⟩ hhash).symm⟩

theorem seesContents : SeesContents fs fs' root root' filter (t.diff s) := by
  have hempty : (t.diff s).isEmpty = true ↔ ∀ k, t.get? k = s.get? k := by
    rw [Table.isEmpty_iff_get?]
    simp only [Snapshot.get?_diff_eq_none_iff]
  have hsame : SameContents fs fs' root root' filter → (t.diff s).isEmpty = true := by
    intro hsame
    rw [hempty]
    intro k
    ext a
    constructor
    · intro ha
      exact get?_of_hasContent hn' hn ht hs ha fun bytes => (hsame k bytes).2
    · intro ha
      exact get?_of_hasContent hn hn' hs ht ha fun bytes => (hsame k bytes).1
  constructor
  case entry_iff =>
    intro k
    rw [Option.isSome_iff_ne_none, Ne, Snapshot.get?_diff_eq_none_iff]
    exact get?_ne_iff hn hn' hs ht
  case no_entry =>
    intro k f f' hf hf' hcontent
    rw [Snapshot.get?_diff_eq_none_iff]
    by_contra hne
    have hfilter := ((get?_ne_iff hn hn' hs ht).1 hne).1
    apply hne
    rw [get?_of_fileAt hn hs hfilter hf, get?_of_fileAt hn' ht hfilter hf',
      contentItem_inj.2 (mark_eq_of_content_eq hcontent)]
  case empty_of_same => exact hsame
  case empty_iff =>
    intro hinj
    refine ⟨fun h k bytes => ?_, hsame⟩
    have heq := hempty.1 h k
    constructor
    · intro hcontent
      exact hasContent_of_get?_eq hn hn' hs ht heq
        (fun _ hcontent' => hinj ⟨k, .inl hcontent⟩ ⟨k, .inr hcontent'⟩) hcontent
    · intro hcontent
      exact hasContent_of_get?_eq hn' hn ht hs heq.symm
        (fun _ hcontent' => hinj ⟨k, .inr hcontent⟩ ⟨k, .inl hcontent'⟩) hcontent

end Diff

end Scan

open Scan

/-- Between two scans by content, of any two trees and in either way of walking them, the difference tells
which accepted paths have come or gone or have other bytes, as far as hashes tell these apart. -/
theorem content_scans_see_contents (fs fs' : FileSystem) (root root' : Path) (filter : Filter)
    (parallel parallel' : Bool) (s t : Snapshot FileItem) (hn : fs.top.WellNamed)
    (hn' : fs'.top.WellNamed) (hs : Snapshot.scan fs root filter ⟨.content, parallel⟩ = .ok s)
    (ht : Snapshot.scan fs' root' filter ⟨.content, parallel'⟩ = .ok t) :
    SeesContents fs fs' root root' filter (t.diff s) :=
  seesContents hn hn' hs ht

namespace Scan

/-- Three files, of which two have the same bytes. -/
def writtenTree : FileSystem where
  top := .directory true [
    (Utf8.encode "a", .file ⟨[1, 2], 5, true⟩),
    (Utf8.encode "b", .file ⟨[1, 2], 6, true⟩),
    (Utf8.encode "d", .directory true [(Utf8.encode "c", .file ⟨[3], 7, true⟩)])]
  workingDirectory := []
  clock := 0

/-- The same at another time, with a link in the place of one of the two. -/
def linkedTree : FileSystem where
  top := .directory true [
    (Utf8.encode "b", .link (Utf8.encode "a")),
    (Utf8.encode "a", .file ⟨[1, 2], 99, true⟩),
    (Utf8.encode "d", .directory true [(Utf8.encode "c", .file ⟨[3], 8, true⟩)])]
  workingDirectory := []
  clock := 9

/-- One file with other bytes. -/
def rewrittenTree : FileSystem where
  top := .directory true [(Utf8.encode "d", .directory true [(Utf8.encode "c", .file ⟨[4], 7, true⟩)])]
  workingDirectory := []
  clock := 9

theorem wellNamed_writtenTree : writtenTree.top.WellNamed := by
  simp only [writtenTree, Node.wellNamed_directory_iff, List.forall_mem_cons, List.not_mem_nil,
    Node.wellNamed_file, IsEmpty.forall_iff, implies_true]
  decide +kernel

theorem wellNamed_linkedTree : linkedTree.top.WellNamed := by
  simp only [linkedTree, Node.wellNamed_directory_iff, List.forall_mem_cons, List.not_mem_nil,
    Node.wellNamed_file, Node.wellNamed_link, IsEmpty.forall_iff, implies_true]
  decide +kernel

theorem wellNamed_rewrittenTree : rewrittenTree.top.WellNamed := by
  simp only [rewrittenTree, Node.wellNamed_directory_iff, List.forall_mem_cons, List.not_mem_nil,
    Node.wellNamed_file, IsEmpty.forall_iff, implies_true]
  decide +kernel

def Event.hasContentIn (contents : List Bytes) : Event → Bool
  | .blocked .. => false
  | .file _ _ _ f => contents.contains f.content

/-- The contents below a root can be seen from what a walk lists, if it gets everywhere. -/
theorem mem_of_hasContent {contents : List Bytes} {n : Node} (hstat : fs.stat root = .ok n)
    (hn : n.WellNamed) (hall : (visit fs root ⟨[]⟩ n).all (Event.hasContentIn contents) = true)
    {bytes : Bytes} (h : HasContent fs root filter k bytes) : bytes ∈ contents := by
  rw [List.all_eq_true] at hall
  have hopen : Open root n := (open_iff hn).2 fun p cause he => Bool.false_ne_true (hall _ he)
  obtain ⟨-, f, ⟨m, names, linked, hm, hmeets, -⟩, rfl⟩ := h
  cases hm.symm.trans hstat
  have hlisted := hall _ (meeting_mem_events hn hopen hmeets)
  rwa [meeting, Event.hasContentIn, List.contains_iff_mem] at hlisted

/-- What is found in the first two trees. -/
def foundContents : Snapshot FileItem where
  root := "."
  items := ⟨[⟨"a", .content (.ofBytes [1, 2]) 2⟩, ⟨"b", .content (.ofBytes [1, 2]) 2⟩,
    ⟨"d/c", .content (.ofBytes [3]) 1⟩], by decide +kernel⟩

theorem injOn_contents : Set.InjOn ContentHash.ofBytes
    (contents writtenTree linkedTree (.ofString ".") (.ofString ".") fun _ => true) := by
  have hapart : ∀ bytes ∈ [[1, 2], [3]], ∀ bytes' ∈ [[1, 2], [3]],
      ContentHash.ofBytes bytes = ContentHash.ofBytes bytes' → bytes = bytes' := by
    decide +kernel
  have hlisted : ∀ bytes ∈ contents writtenTree linkedTree (.ofString ".") (.ofString ".") fun _ => true,
      bytes ∈ [[1, 2], [3]] := by
    rintro bytes ⟨k, h | h⟩
    · exact mem_of_hasContent rfl wellNamed_writtenTree (by decide +kernel) h
    · exact mem_of_hasContent rfl wellNamed_linkedTree (by decide +kernel) h
  intro bytes h bytes' h'
  exact hapart bytes (hlisted bytes h) bytes' (hlisted bytes' h')

end Scan

theorem content_scans_see_contents_linked :
    let root := Path.ofString "."
    let all : Filter := fun _ => true
    writtenTree.top.WellNamed ∧ linkedTree.top.WellNamed ∧ rewrittenTree.top.WellNamed ∧
      ∃ s t u : Snapshot FileItem,
        Snapshot.scan writtenTree root all ⟨.content, false⟩ = .ok s ∧
        Snapshot.scan linkedTree root all ⟨.content, true⟩ = .ok t ∧
        Snapshot.scan rewrittenTree root all ⟨.content, true⟩ = .ok u ∧
        (t.diff s).isEmpty = true ∧ SameContents writtenTree linkedTree root root all ∧
        DiffersAt writtenTree rewrittenTree root root "d/c" := by
  intro root all
  have hs : Snapshot.scan writtenTree root all ⟨.content, false⟩ = .ok foundContents := by
    decide +kernel
  have ht : Snapshot.scan linkedTree root all ⟨.content, true⟩ = .ok foundContents := by
    decide +kernel
  have hu : Snapshot.scan rewrittenTree root all ⟨.content, true⟩ =
      .ok (⟨".", ⟨[⟨"d/c", .content (.ofBytes [4]) 1⟩], by decide +kernel⟩⟩ : Snapshot FileItem) := by
    decide +kernel
  have hlinked := content_scans_see_contents _ _ _ _ _ _ _ _ _ wellNamed_writtenTree
    wellNamed_linkedTree hs ht
  have hrewritten := content_scans_see_contents _ _ _ _ _ _ _ _ _ wellNamed_writtenTree
    wellNamed_rewrittenTree hs hu
  have hempty : (foundContents.diff foundContents).isEmpty = true := by decide +kernel
  exact ⟨wellNamed_writtenTree, wellNamed_linkedTree, wellNamed_rewrittenTree, _, _, _, hs, ht, hu,
    hempty, (hlinked.empty_iff injOn_contents).1 hempty,
    ((hrewritten.entry_iff "d/c").1 (by decide +kernel)).2⟩

end BuildDelta
