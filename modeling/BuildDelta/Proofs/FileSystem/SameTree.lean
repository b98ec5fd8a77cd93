import BuildDelta.Proofs.FileSystem.Action
import BuildDelta.Proofs.FileSystem.WellNamed
/-!
# Trees that differ in the order of their listings

The names of a directory stand in no particular order. Two trees with the same at every place
(`Node.SameAs`) are alike to whoever follows paths (`SameTree.stat`), and a listing in another order
leaves a tree the same (`Node.sameAs_of_perm`).
-/

namespace BuildDelta.FileSystem

/-- Two trees have the same everywhere, so their listings differ in their order at most. -/
structure Node.SameAs (n n' : Node) : Prop where
  leaf : ∀ place m, m.isDirectory = false → (n.get? place = some m ↔ n'.get? place = some m)
  directory : ∀ place readable, (∃ entries, n.get? place = some (.directory readable entries)) ↔
    ∃ entries, n'.get? place = some (.directory readable entries)

namespace Node

variable {n n' m top top' : Node} {place : Place} {readable : Bool}
  {entries entries' : List (Name × Node)}

theorem SameAs.symm (h : n.SameAs n') : n'.SameAs n where
  leaf place m hm := (h.leaf place m hm).symm
  directory place readable := (h.directory place readable).symm

theorem SameAs.exists_node (h : top.SameAs top') (hn : top.get? place = some n) :
    ∃ n', top'.get? place = some n' ∧ n.SameAs n' := by
  have hbelow : ∀ {n'}, top'.get? place = some n' → n.SameAs n' := by
    intro n' hn'
    constructor
    · intro rest m hm
      have hleaf := h.leaf (place ++ rest) m hm
      rwa [get?_append, get?_append, hn, hn'] at hleaf
    · intro rest readable
      have hdirectory := h.directory (place ++ rest) readable
      rwa [get?_append, get?_append, hn, hn'] at hdirectory
  cases hleaf : n.isDirectory with
  | false =>
    have hn' := (h.leaf place n hleaf).1 hn
    exact ⟨n, hn', hbelow hn'⟩
  | true =>
    obtain ⟨readable, entries, rfl⟩ := exists_eq_directory hleaf
    obtain ⟨entries', hn'⟩ := (h.directory place readable).1 ⟨entries, hn⟩
    exact ⟨_, hn', hbelow hn'⟩

theorem SameAs.isDirectory_eq (h : n.SameAs n') : n'.isDirectory = n.isDirectory := by
  cases hn : n.isDirectory with
  | false => rw [Option.some.inj ((h.leaf [] n hn).1 rfl), hn]
  | true =>
    obtain ⟨readable, entries, rfl⟩ := exists_eq_directory hn
    obtain ⟨entries', hn'⟩ := (h.directory [] readable).1 ⟨entries, rfl⟩
    rw [Option.some.inj hn']
    rfl

theorem SameAs.directoryAt (h : n.SameAs n') (hplace : n.DirectoryAt place) : n'.DirectoryAt place := by
  obtain ⟨d, hd, hdirectory⟩ := hplace
  obtain ⟨d', hd', hsame⟩ := h.exists_node hd
  exact ⟨d', hd', hsame.isDirectory_eq.trans hdirectory⟩

theorem sameAs_of_perm (hnames : (entries.map Prod.fst).Nodup) (h : entries.Perm entries') :
    (directory readable entries).SameAs (directory readable entries') := by
  have hget : ∀ name rest, (directory readable entries').get? (name :: rest) =
      (directory readable entries).get? (name :: rest) := by
    intro name rest
    have hlookup : entries'.lookup name = entries.lookup name := by
      ext m
      rw [lookup_eq_some_iff hnames, lookup_eq_some_iff ((h.map Prod.fst).nodup_iff.1 hnames),
        h.mem_iff]
    rw [get?, get?, entry?, entry?, hlookup]
  constructor
  · intro place m hm
    cases place with
    | nil =>
      constructor
      · intro heq
        cases heq
        cases hm
      · intro heq
        cases heq
        cases hm
    | cons name rest => rw [hget]
  · intro place readable'
    cases place with
    | nil =>
      constructor
      · rintro ⟨_, ⟨⟩⟩
        exact ⟨_, rfl⟩
      · rintro ⟨_, ⟨⟩⟩
        exact ⟨_, rfl⟩
    | cons name rest => rw [hget]

theorem wellNamed_of_perm (hn : (directory readable entries).WellNamed)
    (h : entries.Perm entries') : (directory readable entries').WellNamed := by
  rw [wellNamed_directory_iff] at hn ⊢
  exact ⟨(h.map Prod.fst).nodup_iff.1 hn.1, fun entry hentry => hn.2 entry (h.mem_iff.2 hentry)⟩

end Node

/-- Two file systems with the same tree. -/
structure SameTree (fs fs' : FileSystem) : Prop where
  top : fs.top.SameAs fs'.top
  workingDirectory : fs.workingDirectory = fs'.workingDirectory

variable {fs fs' : FileSystem} {top top' n : Node} {purpose : Purpose} {links : Nat}
  {place q : Place} {way : List Step} {p : Path}

theorem SameTree.symm (h : SameTree fs fs') : SameTree fs' fs where
  top := h.top.symm
  workingDirectory := h.workingDirectory.symm

/-- What is found is found in the other tree, at the same place. -/
theorem Follows.same {n' : Node} (hsame : top.SameAs top') (hn' : top'.get? q = some n')
    (h : Follows top purpose links place way (.node q n)) :
    Follows top' purpose links place way (.node q n') := by
  generalize hfound : Found.node q n = found at h
  induction h with
  | stop hplace =>
    cases hfound
    exact .stop hn'
  | slash _ ih => exact .slash (ih hfound)
  | here _ ih => exact .here (ih hfound)
  | root _ ih => exact .root (ih hfound)
  | above _ ih => exact .above (ih hfound)
  | missing => cases hfound
  | leaf hname hplace hn hlink =>
    cases hfound
    cases ((hsame.leaf _ _ hn).1 hplace).symm.trans hn'
    exact .leaf hname hn' hn hlink
  | directory hname hslash hplace _ ih =>
    exact .directory hname hslash (hsame.directoryAt hplace) (ih hfound)
  | link hname hslash hentry hplace _ ih =>
    exact .link hname hslash hentry ((hsame.leaf _ _ rfl).1 hplace) (ih hfound)

theorem stat_eq_ok_iff : fs.stat p = .ok n ↔ ∃ q, fs.resolve .target p = .ok (.node q n) := by
  unfold stat
  rw [bind_eq_ok]
  constructor
  · rintro ⟨found, hresolve, hnode⟩
    cases found with
    | missing => cases hnode
    | node q m =>
      cases hnode
      exact ⟨q, hresolve⟩
  · rintro ⟨q, hresolve⟩
    exact ⟨_, hresolve, rfl⟩

theorem SameTree.stat (h : SameTree fs fs') (hstat : fs.stat p = .ok n) :
    ∃ n', fs'.stat p = .ok n' ∧ n.SameAs n' := by
  obtain ⟨q, hresolve⟩ := stat_eq_ok_iff.1 hstat
  obtain ⟨hcheck, hfollows⟩ := resolve_eq_ok.1 hresolve
  obtain ⟨n', hn', hbelow⟩ := h.top.exists_node hfollows.describes
  have hfollows' := hfollows.same h.top hn'
  rw [start, h.workingDirectory] at hfollows'
  exact ⟨n', stat_eq_ok_iff.2 ⟨q, resolve_eq_ok.2 ⟨hcheck, hfollows'⟩⟩, hbelow⟩

theorem wellNamed_of_stat (h : fs.top.WellNamed) (hstat : fs.stat p = .ok n) : n.WellNamed := by
  obtain ⟨q, hresolve⟩ := stat_eq_ok_iff.1 hstat
  exact h.below (resolve_eq_ok.1 hresolve).2.describes

end BuildDelta.FileSystem
