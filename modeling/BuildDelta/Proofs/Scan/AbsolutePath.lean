import BuildDelta.Proofs.FileSystem.Below
import BuildDelta.Proofs.Scan.Content
/-!
# Where the items of a scan lead

A snapshot keeps the root of its scan as a text, and an item keeps the names below it. What is joined
from the two is the path by which the walk met the file, to the byte, if the root is a text; if it is none,
already the components of the root are others (`Path.components_ofString_text_iff`), and so no item leads
back to where it was read (`Scan.ResolvesBack.components_iff`). The paths of different items are different
in any case, since they differ behind the root.
-/

namespace BuildDelta

open FileSystem

namespace Path

variable {p : Path} {c : Component} {bs piece : Bytes}

theorem intercalate_split (bs : Bytes) : [slash].intercalate (split bs) = bs := by
  induction bs with
  | nil => rfl
  | cons b bs ih =>
    rw [split]
    cases hsplit : split bs with
    | nil => exact absurd hsplit (split_ne_nil bs)
    | cons piece pieces =>
      rw [hsplit] at ih
      split_ifs with hb
      · rw [List.intercalate_cons_cons, ih, hb]
        rfl
      · rw [intercalate_cons] at ih ⊢
        exact congrArg (b :: ·) ih

theorem isText_iff_split : Utf8.IsText bs ↔ ∀ piece ∈ split bs, Utf8.IsText piece := by
  constructor
  · rintro ⟨text, rfl⟩
    exact Utf8.isText_of_mem_split text.toList
  · intro h
    obtain ⟨texts, htexts⟩ := Utf8.exists_map_encode h
    refine ⟨"/".intercalate texts, ?_⟩
    rw [Utf8.encode_intercalate, htexts, intercalate_split]

theorem of_mem_components (h : c ∈ p.components) :
    c = .root ∨ ∃ piece ∈ split p.bytes, .ofPiece piece = c := by
  rw [components] at h
  cases hsplit : split p.bytes with
  | nil => exact absurd hsplit (split_ne_nil p.bytes)
  | cons first pieces =>
    rw [hsplit, List.mem_append] at h
    rcases h with hfirst | hrest
    · rw [firstComponent] at hfirst
      split_ifs at hfirst
      · exact .inl (List.mem_singleton.1 hfirst)
      · cases hfirst
      · exact .inr ⟨first, List.mem_cons_self, (List.mem_singleton.1 hfirst).symm⟩
    · obtain ⟨piece, hpiece, hc⟩ := List.mem_map.1 (List.mem_of_mem_filter hrest)
      exact .inr ⟨piece, List.mem_cons_of_mem first (List.mem_of_mem_filter hpiece), hc⟩

/-- Of the pieces of a path, only empty ones and single dots are no components. -/
theorem ofPiece_mem_components (h : piece ∈ split p.bytes) (hne : piece ≠ []) (hdot : piece ≠ [dot]) :
    Component.ofPiece piece ∈ p.components := by
  have hhere : Component.ofPiece piece ≠ .here := by
    intro hhere
    rw [Component.ofPiece, if_neg hdot] at hhere
    split_ifs at hhere
  rw [components]
  cases hsplit : split p.bytes with
  | nil => exact absurd hsplit (split_ne_nil p.bytes)
  | cons first pieces =>
    rw [hsplit] at h
    apply List.mem_append.2
    rcases List.mem_cons.1 h with rfl | hrest
    · left
      have hrelative : ¬p.isAbsolute = true := by
        intro habsolute
        rw [isAbsolute, decide_eq_true_iff] at habsolute
        obtain ⟨rest, hrest⟩ := List.head?_eq_some_iff.1 habsolute
        rw [hrest, split, if_pos rfl] at hsplit
        exact hne (List.cons.inj hsplit).1.symm
      rw [firstComponent, if_neg hrelative, if_neg hne]
      exact List.mem_singleton_self _
    · right
      refine List.mem_filter.2 ⟨List.mem_map_of_mem ?_, decide_eq_true hhere⟩
      exact List.mem_filter.2 ⟨hrest, decide_eq_true hne⟩

theorem isText_iff_components : Utf8.IsText p.bytes ↔ ∀ c ∈ p.components, Utf8.IsText c.bytes := by
  rw [isText_iff_split]
  constructor
  · intro h c hc
    rcases of_mem_components hc with rfl | ⟨piece, hpiece, rfl⟩
    · exact ⟨"/", rfl⟩
    · rw [bytes_ofPiece]
      exact h piece hpiece
  · intro h piece hpiece
    by_cases hne : piece = []
    · exact ⟨"", by rw [hne]; rfl⟩
    by_cases hdot : piece = [dot]
    · exact ⟨".", by rw [hdot]; rfl⟩
    rw [← bytes_ofPiece piece]
    exact h _ (ofPiece_mem_components hpiece hne hdot)

/-- A path that is no text has another component where it is no text. -/
theorem components_ofString_text_iff :
    (ofString p.text).components = p.components ↔ Utf8.IsText p.bytes := by
  constructor
  · intro h
    rw [isText_iff_components, ← h, ← isText_iff_components]
    exact ⟨p.text, rfl⟩
  · intro h
    rw [ofString_text h]

end Path

namespace Scan

/-- What is known of the places that the items of a scan lead to. -/
structure ResolvesBack (fs : FileSystem) (root : Path) (n : Node) (filter : Filter)
    (mode : FingerprintMode) (s : Snapshot FileItem) : Prop where
  /-- Each item was read from a file that a way leads to. -/
  source : ∀ a ∈ s.items.toList, ∃ names f, Accepted fs root n filter names f ∧
    IsItemOf mode names f a
  /-- The path of an item has the components of the way to its file, if the root is a text, and only
  then. -/
  components_iff : ∀ a ∈ s.items.toList, ∀ names f, Accepted fs root n filter names f →
    IsItemOf mode names f a →
      ((s.absolutePath a).components = (root.below names).components ↔ Utf8.IsText root.bytes)
  path_eq : ∀ a ∈ s.items.toList, ∀ names f, Accepted fs root n filter names f →
    IsItemOf mode names f a → Utf8.IsText root.bytes → s.absolutePath a = root.below names
  /-- The path can be followed, on a system that takes all names that are in its tree. -/
  reaches : ∀ a ∈ s.items.toList, ∀ names f, Accepted fs root n filter names f →
    IsItemOf mode names f a → Utf8.IsText root.bytes → fs.top.Nameable →
      fs.stat (s.absolutePath a) = .ok (.file f)
  /-- Whatever the root is, items do not share their places. -/
  apart : ∀ a ∈ s.items.toList, ∀ b ∈ s.items.toList, a ≠ b →
    (s.absolutePath a).components ≠ (s.absolutePath b).components

variable {fs : FileSystem} {root : Path} {n : Node} {filter : Filter} {mode : FingerprintMode}
  {s : Snapshot FileItem} {a b : FileItem} {names names' : List Name} {linked : Bool} {f f' : File}

theorem Meets.ne_nil (hdirectory : n.isDirectory = true) (h : Meets fs root n names linked f) :
    names ≠ [] := by
  rintro rfl
  obtain ⟨m, hm, hleaf⟩ := h.exists_node
  cases hm
  exact Bool.false_ne_true (hleaf.symm.trans hdirectory)

theorem IsItemOf.absolutePath_eq (h : IsItemOf mode names f a) :
    s.absolutePath a = (Path.ofString s.root).join (relative names) :=
  congrArg ((Path.ofString s.root).join) (congrArg Path.mk h.key)

namespace Scanned

variable (hn : n.WellNamed) (h : Scanned fs root n filter mode s)
include hn h

theorem components_absolutePath (haccepted : Accepted fs root n filter names f)
    (hitem : IsItemOf mode names f a) :
    (s.absolutePath a).components = (Path.ofString root.text).components ++ names.map .name := by
  obtain ⟨⟨linked, hmeets⟩, -⟩ := haccepted
  rw [hitem.absolutePath_eq, h.root_eq, Path.components_join _ (hmeets.valid hn)]

theorem components_iff (hdirectory : n.isDirectory = true)
    (haccepted : Accepted fs root n filter names f) (hitem : IsItemOf mode names f a) :
    (s.absolutePath a).components = (root.below names).components ↔ Utf8.IsText root.bytes := by
  have hcomponents := h.components_absolutePath hn haccepted hitem
  obtain ⟨⟨linked, hmeets⟩, -⟩ := haccepted
  have hvalid := hmeets.valid hn
  rw [hcomponents, ← Path.join_relative root (hmeets.ne_nil hdirectory) hvalid,
    Path.components_join root hvalid, List.append_left_inj, Path.components_ofString_text_iff]

theorem absolutePath_eq (hdirectory : n.isDirectory = true)
    (haccepted : Accepted fs root n filter names f) (hitem : IsItemOf mode names f a)
    (htext : Utf8.IsText root.bytes) : s.absolutePath a = root.below names := by
  obtain ⟨⟨linked, hmeets⟩, -⟩ := haccepted
  rw [hitem.absolutePath_eq, h.root_eq, Path.ofString_text htext,
    Path.join_relative root (hmeets.ne_nil hdirectory) (hmeets.valid hn)]

/-- What was met as a link was followed by its path already, and what was met as a file has a path that
is not too long, or it would not have an item. -/
theorem stat_eq (hstat : fs.stat root = .ok n) (hdirectory : n.isDirectory = true)
    (hnameable : fs.top.Nameable) (haccepted : Accepted fs root n filter names f) :
    fs.stat (root.below names) = .ok (.file f) := by
  obtain ⟨key, hkey⟩ := h.isText hn haccepted
  obtain ⟨⟨linked, hmeets⟩, hfilter⟩ := haccepted
  have hvalid := hmeets.valid hn
  cases hmeets with
  | link hlink hstat => exact hstat
  | file hfile =>
    obtain ⟨item?, hitem⟩ := h.examined names false f (.file hfile)
    rw [examine_of_text hvalid hfilter hkey] at hitem
    cases hshort : tooLong (root.below names) with
    | true =>
      rw [hshort] at hitem
      cases hitem
    | false => exact stat_below hstat hdirectory hnameable hvalid hshort hfile fun _ => nofun

theorem apart (ha : a ∈ s.items.toList) (hb : b ∈ s.items.toList) (hne : a ≠ b) :
    (s.absolutePath a).components ≠ (s.absolutePath b).components := by
  intro heq
  obtain ⟨names, f, haccepted, hitem⟩ := h.only hn ha
  obtain ⟨names', f', haccepted', hitem'⟩ := h.only hn hb
  rw [h.components_absolutePath hn haccepted hitem, h.components_absolutePath hn haccepted' hitem',
    List.append_right_inj] at heq
  obtain rfl := List.map_injective_iff.2 (fun _ _ => Path.Component.name.inj) heq
  have hkeys : Keyed.key a = Keyed.key b := Utf8.encode_injective (hitem.key.trans hitem'.key.symm)
  have hget := Table.get?_key_of_mem ha
  rw [hkeys, Table.get?_key_of_mem hb] at hget
  exact hne (Option.some.inj hget).symm

theorem resolvesBack (hstat : fs.stat root = .ok n) (hdirectory : n.isDirectory = true) :
    ResolvesBack fs root n filter mode s where
  source := fun a ha => h.only hn ha
  components_iff := fun a _ names f => h.components_iff hn hdirectory
  path_eq := fun a _ names f => h.absolutePath_eq hn hdirectory
  reaches := by
    intro a _ names f haccepted hitem htext hnameable
    rw [h.absolutePath_eq hn hdirectory haccepted hitem htext]
    exact h.stat_eq hn hstat hdirectory hnameable haccepted
  apart := fun a ha b hb => h.apart hn ha hb

end Scanned

end Scan

open Scan

/-- The items of a scan lead back to the files that they were read from, each to its own, if the root of
the scan is a text, and do not if it is none. -/
theorem scanned_items_resolve_back (fs : FileSystem) (root : Path) (filter : Filter)
    (options : ScanOptions) (s : Snapshot FileItem) (hn : fs.top.WellNamed)
    (hscan : Snapshot.scan fs root filter options = .ok s) :
    ∃ n, fs.stat root = .ok n ∧ n.isDirectory = true ∧
      ResolvesBack fs root n filter options.fingerprint s := by
  obtain ⟨n, hstat, hdirectory⟩ := exists_directory_of_scan hscan
  have hnamed := wellNamed_of_stat hn hstat
  have hscanned := ((scan_eq_ok_iff hstat hdirectory hnamed).1 hscan).1
  exact ⟨n, hstat, hdirectory, hscanned.resolvesBack hnamed hstat hdirectory⟩

namespace Scan

/-- A directory with a file in it and a link to that, under a name and behind a link. -/
def aliasedTree : FileSystem where
  top := .directory true [
    (Utf8.encode "p", .directory true [
      (Utf8.encode "x", .file ⟨[1], 5, true⟩),
      (Utf8.encode "y", .link (Utf8.encode "x"))]),
    (Utf8.encode "q", .link (Utf8.encode "p"))]
  workingDirectory := []
  clock := 0

theorem wellNamed_aliasedTree : aliasedTree.top.WellNamed := by
  simp only [aliasedTree, Node.wellNamed_directory_iff, List.forall_mem_cons, List.not_mem_nil,
    Node.wellNamed_file, Node.wellNamed_link, IsEmpty.forall_iff, implies_true]
  decide +kernel

theorem nameable_aliasedTree : aliasedTree.top.Nameable := by
  refine Node.nameable_directory ?_
  simp only [List.forall_mem_cons, List.not_mem_nil, IsEmpty.forall_iff, implies_true, and_true]
  refine ⟨⟨by decide, Node.nameable_directory ?_⟩, by decide, Node.nameable_of_leaf rfl⟩
  simp only [List.forall_mem_cons, List.not_mem_nil, IsEmpty.forall_iff, implies_true, and_true]
  exact ⟨⟨by decide, Node.nameable_of_leaf rfl⟩, by decide, Node.nameable_of_leaf rfl⟩

/-- What is found behind the link, by a path with a dot in front and slashes behind. -/
def foundBehindLink : Snapshot FileItem where
  root := "./q//"
  items := ⟨[⟨"x", .metadata 5 1⟩, ⟨"y", .metadata 5 1⟩], by decide +kernel⟩

end Scan

theorem scanned_items_resolve_back_aliased :
    let root := Path.ofString "./q//"
    let all : Filter := fun _ => true
    aliasedTree.top.WellNamed ∧
      Snapshot.scan aliasedTree root all ⟨.metadata, true⟩ = .ok foundBehindLink ∧
        ∀ a ∈ foundBehindLink.items.toList,
          ∃ f, aliasedTree.stat (foundBehindLink.absolutePath a) = .ok (.file f) := by
  intro root all
  have hscan : Snapshot.scan aliasedTree root all ⟨.metadata, true⟩ = .ok foundBehindLink := by
    decide +kernel
  refine ⟨wellNamed_aliasedTree, hscan, fun a ha => ?_⟩
  obtain ⟨n, -, -, hresolves⟩ :=
    scanned_items_resolve_back aliasedTree root all _ _ wellNamed_aliasedTree hscan
  obtain ⟨names, f, haccepted, hitem⟩ := hresolves.source a ha
  exact ⟨f, hresolves.reaches a ha names f haccepted hitem ⟨"./q//", rfl⟩ nameable_aliasedTree⟩

namespace Scan

/-- A file in a directory whose name is no text. -/
def unspeakableTree : FileSystem where
  top := .directory true [([0xFF], .directory true [(Utf8.encode "x", .file ⟨[1], 5, true⟩)])]
  workingDirectory := []
  clock := 0

/-- What is found in that directory. -/
def foundUnspeakable : Snapshot FileItem where
  root := "\ufffd"
  items := ⟨[⟨"x", .metadata 5 1⟩], by decide +kernel⟩

end Scan

/-- The one item of this scan leads nowhere. -/
theorem items_below_other_bytes_are_lost :
    let root : Path := ⟨[0xFF]⟩
    let a : FileItem := ⟨"x", .metadata 5 1⟩
    Snapshot.scan unspeakableTree root (fun _ => true) ⟨.metadata, false⟩ = .ok foundUnspeakable ∧
      a ∈ foundUnspeakable.items.toList ∧
      unspeakableTree.stat (root.below [Utf8.encode "x"]) = .ok (.file ⟨[1], 5, true⟩) ∧
      (foundUnspeakable.absolutePath a).components ≠ (root.below [Utf8.encode "x"]).components ∧
      unspeakableTree.stat (foundUnspeakable.absolutePath a) = .error .notFound := by
  intro root a
  have hscan : Snapshot.scan unspeakableTree root (fun _ => true) ⟨.metadata, false⟩ =
      .ok foundUnspeakable := by
    decide +kernel
  have hpath : foundUnspeakable.absolutePath a = ⟨[0xEF, 0xBF, 0xBD, 0x2F, 0x78]⟩ := by
    decide +kernel
  rw [hpath]
  exact ⟨hscan, List.mem_singleton_self a, rfl, by decide +kernel, rfl⟩

end BuildDelta
