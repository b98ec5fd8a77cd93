import BuildDelta.Proofs.FileSystem.Existing
import BuildDelta.Proofs.FileSystem.SameTree
import BuildDelta.Proofs.Scan.Short
import BuildDelta.Proofs.Scan.Names
/-!
# What is found below a path

The path to a place below a root is the root with all the names joined at once (`Path.join_relative`),
and it has the components of the root and then the names (`Path.components_join`), however the root is
written. To look it up is to go the way of the root first. A root that names a directory has a way there,
through the link that may be its last name and whatever slashes stand behind it (`Follows.reaches`), and
from there the names go on through the tree (`FileSystem.stat_below`).
-/

namespace BuildDelta

open FileSystem Scan

namespace Path

variable {names : List Name} {p : Path}

theorem bytes_join_append {name : Bytes} (hne : name ≠ []) (rest : Bytes) :
    (p.join ⟨name ++ rest⟩).bytes = (p.join ⟨name⟩).bytes ++ rest := by
  have habsolute : isAbsolute ⟨name ++ rest⟩ = isAbsolute ⟨name⟩ := by
    rw [isAbsolute, isAbsolute, List.head?_append_of_ne_nil _ hne]
  rw [join, join, habsolute]
  split_ifs <;> simp

theorem join_relative (root : Path) (hne : names ≠ []) (h : ∀ name ∈ names, name.Valid) :
    root.join (relative names) = root.below names := by
  cases names with
  | nil => exact absurd rfl hne
  | cons name names =>
    rw [List.forall_mem_cons] at h
    obtain ⟨b, hlast, hb⟩ := h.1.exists_last
    have hlast' : (root.join ⟨name⟩).bytes.getLast? = some b := by
      obtain ⟨before, hbefore⟩ := suffix_join root ⟨name⟩
      rw [← hbefore, List.getLast?_append, hlast]
      rfl
    have hbelow := bytes_below hlast' hb h.2
    have hjoin := bytes_join_append (p := root) h.1.ne_nil (names.flatMap (slash :: ·))
    rw [← intercalate_cons, ← hbelow] at hjoin
    exact congrArg Path.mk hjoin

theorem isAbsolute_join {q : Path} (hne : p.bytes ≠ []) (hq : q.isAbsolute = false) :
    (p.join q).isAbsolute = p.isAbsolute := by
  have hempty : p.bytes.isEmpty = false := by simpa using hne
  rw [join, hq, hempty, if_neg (by decide), isAbsolute, isAbsolute]
  split <;> rw [List.head?_append_of_ne_nil _ hne]

theorem mem_join {q : Path} {b : UInt8} (h : b ∈ (p.join q).bytes) :
    b ∈ p.bytes ∨ b = slash ∨ b ∈ q.bytes := by
  unfold join at h
  split at h
  · exact .inr (.inr h)
  split at h
  · exact (List.mem_append.1 h).imp_right .inr
  · simpa using h

theorem mem_below {b : UInt8} (h : b ∈ (p.below names).bytes) :
    b ∈ p.bytes ∨ b = slash ∨ ∃ name ∈ names, b ∈ name := by
  induction names generalizing p with
  | nil => exact .inl h
  | cons name names ih =>
    rcases ih h with hjoin | hslash | ⟨inner, hinner, hmem⟩
    · rcases mem_join hjoin with hp | hslash | hname
      · exact .inl hp
      · exact .inr (.inl hslash)
      · exact .inr (.inr ⟨name, List.mem_cons_self, hname⟩)
    · exact .inr (.inl hslash)
    · exact .inr (.inr ⟨inner, List.mem_cons_of_mem name hinner, hmem⟩)

theorem exists_last_below (root : Path) (hne : names ≠ []) (h : ∀ name ∈ names, name.Valid) :
    ∃ b, (root.below names).bytes.getLast? = some b ∧ b ≠ slash := by
  obtain ⟨init, last, rfl⟩ := (List.eq_nil_or_concat' names).resolve_left hne
  obtain ⟨b, hlast, hb⟩ := (h last (by simp)).exists_last
  obtain ⟨before, hbefore⟩ := suffix_join (root.below init) ⟨last⟩
  refine ⟨b, ?_, hb⟩
  rw [below_append]
  show ((root.below init).join ⟨last⟩).bytes.getLast? = some b
  rw [← hbefore, List.getLast?_append, hlast]
  rfl

/-- What is joined to a path stands behind a slash, and does not change the way in front of it. -/
theorem exists_join_eq {q : Path} (hne : p.bytes ≠ []) (hq : q.isAbsolute = false) :
    ∃ before, (p.join q).bytes = before ++ slash :: q.bytes ∧
      (p.bytes = before ∨ p.bytes = before ++ [slash]) := by
  have hempty : p.bytes.isEmpty = false := by simpa using hne
  rw [join, hq, hempty, if_neg (by decide)]
  split
  · rename_i hlast
    obtain ⟨before, hbefore⟩ := List.getLast?_eq_some_iff.1 hlast
    exact ⟨before, by simp [hbefore], .inr hbefore⟩
  · exact ⟨p.bytes, rfl, .inl rfl⟩

/-- The components that pieces behind the first one stand for. -/
def innerComponents (bs : Bytes) : List Component :=
  (((split bs).filter (· ≠ [])).map Component.ofPiece).filter (· ≠ .here)

theorem components_append_slash {before : Bytes} (hne : before ≠ []) (rest : Bytes) :
    components ⟨before ++ slash :: rest⟩ = components ⟨before⟩ ++ innerComponents rest := by
  have habsolute : isAbsolute ⟨before ++ slash :: rest⟩ = isAbsolute ⟨before⟩ := by
    rw [isAbsolute, isAbsolute, List.head?_append_of_ne_nil _ hne]
  rw [components, components, split_append_slash]
  cases hsplit : split before with
  | nil => exact absurd hsplit (split_ne_nil before)
  | cons first pieces =>
    simp only [List.cons_append, firstComponent, habsolute, List.filter_append, List.map_append,
      List.append_assoc, innerComponents]

theorem filter_split_relative (h : ∀ name ∈ names, name.Valid) :
    (split (relative names).bytes).filter (· ≠ []) = names := by
  cases names with
  | nil => rfl
  | cons name names =>
    rw [relative, split_intercalate (List.cons_ne_nil _ _) fun n hn => (h n hn).no_slash]
    exact List.filter_eq_self.2 fun n hn => decide_eq_true (h n hn).ne_nil

theorem innerComponents_relative (h : ∀ name ∈ names, name.Valid) :
    innerComponents (relative names).bytes = names.map .name := by
  have hnames : names.map Component.ofPiece = names.map .name :=
    List.map_congr_left fun n hn => ofPiece_of_valid (h n hn)
  rw [innerComponents, filter_split_relative h, hnames, List.filter_eq_self]
  intro c hc
  obtain ⟨n, -, rfl⟩ := List.mem_map.1 hc
  rfl

theorem isAbsolute_relative (h : ∀ name ∈ names, name.Valid) : (relative names).isAbsolute = false := by
  cases names with
  | nil => rfl
  | cons name names =>
    rw [List.forall_mem_cons] at h
    have hname := h.1.isAbsolute
    rw [isAbsolute] at hname ⊢
    rwa [relative, intercalate_cons, List.head?_append_of_ne_nil _ h.1.ne_nil]

/-- The names come behind the components of the root, whether a slash stands at its end or not. -/
theorem components_join (root : Path) (h : ∀ name ∈ names, name.Valid) :
    (root.join (relative names)).components = root.components ++ names.map .name := by
  by_cases hroot : root.bytes = []
  · have hempty : root = ⟨[]⟩ := congrArg Path.mk hroot
    rw [hempty, join, List.isEmpty_nil, Bool.or_true, if_pos rfl]
    exact components_intercalate h
  obtain ⟨before, hjoin, hbefore⟩ := exists_join_eq hroot (isAbsolute_relative h)
  have hinner := innerComponents_relative h
  have hpath : root.join (relative names) = ⟨before ++ slash :: (relative names).bytes⟩ :=
    congrArg Path.mk hjoin
  rw [hpath, ← hinner]
  by_cases hne : before = []
  · subst hne
    obtain rfl : root = ⟨[slash]⟩ := congrArg Path.mk (hbefore.resolve_left hroot)
    rfl
  rw [components_append_slash hne]
  rcases hbefore with hbefore | hbefore
  · rw [← hbefore]
  · have hslash : root = ⟨before ++ slash :: []⟩ := congrArg Path.mk hbefore
    rw [hslash, components_append_slash hne, List.append_assoc]
    rfl

end Path

namespace FileSystem

variable {top : Node} {links : Nat} {place q : Place} {way tail : List Step} {n : Node} {fs : FileSystem}
  {root : Path} {names : List Name}

/-- A path that names a directory has a way to it, with or without a slash at its end. -/
theorem Follows.reaches (h : Follows top .target links place (way ++ tail) (.node q n))
    (htail : tail = [] ∨ tail = [.slash]) (hn : n.isDirectory = true) :
    ∃ links', Reaches top links place way links' q := by
  have hname : ∀ c rest, tail ≠ .component c :: rest := by
    rintro c rest rfl
    rcases htail with h | h <;> cases h
  generalize hway : way ++ tail = whole at h
  generalize hfound : Found.node q n = found at h
  induction h generalizing way with
  | stop =>
    cases hfound
    obtain ⟨rfl, -⟩ := List.append_eq_nil_iff.1 hway
    exact ⟨_, .stay _ _⟩
  | slash h ih =>
    cases way with
    | nil =>
      -- nothing comes behind the slash at the end
      rcases htail with rfl | rfl
      · cases hway
      cases hway
      cases hfound
      cases h
      exact ⟨_, .stay _ _⟩
    | cons _ way =>
      cases hway
      obtain ⟨links', hreaches⟩ := ih rfl hfound
      exact ⟨links', .slash hreaches⟩
  | here _ ih =>
    cases way with
    | nil => exact absurd hway (hname _ _)
    | cons _ way =>
      cases hway
      obtain ⟨links', hreaches⟩ := ih rfl hfound
      exact ⟨links', .here hreaches⟩
  | root _ ih =>
    cases way with
    | nil => exact absurd hway (hname _ _)
    | cons _ way =>
      cases hway
      obtain ⟨links', hreaches⟩ := ih rfl hfound
      exact ⟨links', .root hreaches⟩
  | above _ ih =>
    cases way with
    | nil => exact absurd hway (hname _ _)
    | cons _ way =>
      cases hway
      obtain ⟨links', hreaches⟩ := ih rfl hfound
      exact ⟨links', .above hreaches⟩
  | missing => cases hfound
  | leaf _ _ hleaf =>
    cases hfound
    exact Bool.noConfusion (hleaf.symm.trans hn)
  | directory hlength _ hplace _ ih =>
    cases way with
    | nil => exact absurd hway (hname _ _)
    | cons _ way =>
      cases hway
      obtain ⟨links', hreaches⟩ := ih rfl hfound
      exact ⟨links', .directory hlength hplace hreaches⟩
  | link hlength _ _ hplace _ ih =>
    cases way with
    | nil => exact absurd hway (hname _ _)
    | cons _ way =>
      cases hway
      obtain ⟨links', hreaches⟩ := ih (List.append_assoc ..) hfound
      exact ⟨links', .link hlength hplace hreaches⟩

/-- Names lead down through directories. -/
theorem reaches_names (h : top.DirectoryAt (q ++ names))
    (hlength : ∀ name ∈ names, name.length ≤ maxNameLength) :
    Reaches top links q (names.map fun name => .component (.name name)) links (q ++ names) := by
  induction names generalizing q with
  | nil =>
    rw [List.append_nil]
    exact .stay _ _
  | cons name names ih =>
    rw [List.forall_mem_cons] at hlength
    rw [← List.singleton_append, ← List.append_assoc] at h ⊢
    exact .directory hlength.1 h.of_append (ih h hlength.2)

/-- The system takes all names of a tree: none is too long, and none has a zero byte in it. -/
def Node.Nameable (top : Node) : Prop :=
  ∀ place n, top.get? place = some n → ∀ name ∈ place, name.length ≤ maxNameLength ∧ 0 ∉ name

namespace Node

theorem nameable_of_leaf (h : n.isDirectory = false) : n.Nameable := by
  intro place m hplace name hname
  cases place with
  | nil => cases hname
  | cons =>
    cases n with
    | directory => cases h
    | file => cases hplace
    | link => cases hplace
    | special => cases hplace

theorem nameable_directory {readable : Bool} {entries : List (Name × Node)}
    (h : ∀ entry ∈ entries,
      (entry.1.length ≤ maxNameLength ∧ 0 ∉ entry.1) ∧ entry.2.Nameable) :
    (directory readable entries).Nameable := by
  intro place m hplace name hname
  cases place with
  | nil => cases hname
  | cons first place =>
    obtain ⟨inner, hlookup, hrest⟩ := Option.bind_eq_some_iff.1 hplace
    obtain ⟨before, after, hentries, -⟩ := List.lookup_eq_some_iff.1 hlookup
    have hentry := h (first, inner) (by rw [hentries]; simp)
    rcases List.mem_cons.1 hname with rfl | hname
    · exact hentry.1
    · exact hentry.2 place m hrest name hname

end Node

theorem way_relative (h : ∀ name ∈ names, name.Valid) :
    FileSystem.way (relative names).bytes = names.map fun name => .component (.name name) := by
  rw [FileSystem.way, Path.filter_split_relative h]
  apply List.map_congr_left
  intro name hname
  rw [Path.ofPiece_of_valid (h name hname)]

theorem steps_below (hroot : root.bytes ≠ []) (hne : names ≠ []) (h : ∀ name ∈ names, name.Valid) :
    steps (root.below names).bytes =
      FileSystem.way root.bytes ++ names.map fun name => .component (.name name) := by
  have hlast : (root.below names).bytes.getLast? ≠ some Path.slash := by
    obtain ⟨b, hlast, hb⟩ := Path.exists_last_below root hne h
    rw [hlast]
    exact fun heq => hb (Option.some.inj heq)
  obtain ⟨before, hjoin, hbefore⟩ := Path.exists_join_eq hroot (Path.isAbsolute_relative h)
  have hway : FileSystem.way root.bytes = FileSystem.way before := by
    rcases hbefore with hbefore | hbefore
    · rw [hbefore]
    · rw [hbefore, way_append_slash]
      exact List.append_nil _
  have hsteps : steps (root.below names).bytes = FileSystem.way (root.below names).bytes := by
    rw [steps, if_neg hlast, List.append_nil]
    rfl
  rw [hsteps, ← Path.join_relative root hne h, hjoin, way_append_slash, way_relative h, hway]

theorem checkPath_below (hroot : checkPath root = .ok ()) (hshort : tooLong (root.below names) = false)
    (hne : names ≠ []) (h : ∀ name ∈ names, name.Valid) (hnul : ∀ name ∈ names, 0 ∉ name) :
    checkPath (root.below names) = .ok () := by
  obtain ⟨hnuls, -, -⟩ := checkPath_eq_ok_iff.1 hroot
  have hlength : (root.below names).bytes.length < pathLimit := by
    simpa [tooLong] using hshort
  refine checkPath_eq_ok_iff.2 ⟨fun hmem => ?_, hlength, fun hempty => ?_⟩
  · rcases Path.mem_below hmem with hroot | hslash | ⟨name, hname, hzero⟩
    · exact hnuls hroot
    · exact absurd hslash (by decide)
    · exact hnul name hname hzero
  · obtain ⟨b, hlast, -⟩ := Path.exists_last_below root hne h
    rw [hempty] at hlast
    cases hlast

/-- Below a root that names a directory, names lead to what they lead to in the directory, unless it is a
link or the system does not take the path. -/
theorem stat_below (hstat : fs.stat root = .ok n) (hdirectory : n.isDirectory = true)
    (hnameable : fs.top.Nameable) (h : ∀ name ∈ names, name.Valid)
    (hshort : tooLong (root.below names) = false) {m : Node} (hm : n.get? names = some m)
    (hlink : ∀ target, m ≠ .link target) : fs.stat (root.below names) = .ok m := by
  rcases List.eq_nil_or_concat' names with rfl | ⟨init, last, rfl⟩
  · cases hm
    exact hstat
  obtain ⟨q, hresolve⟩ := stat_eq_ok_iff.1 hstat
  obtain ⟨hcheck, hfollows⟩ := resolve_eq_ok.1 hresolve
  have hroot : root.bytes ≠ [] := (checkPath_eq_ok_iff.1 hcheck).2.2
  have hplace : fs.top.get? (q ++ (init ++ [last])) = some m := by
    rw [Node.get?_append, hfollows.describes]
    exact hm
  have htaken : ∀ name ∈ init ++ [last], name.length ≤ maxNameLength ∧ 0 ∉ name := fun name hname =>
    hnameable _ m hplace name (List.mem_append_right q hname)
  rw [← List.append_assoc] at hplace
  obtain ⟨links', hreaches⟩ :
      ∃ links', Reaches fs.top maxLinks (start fs root) (FileSystem.way root.bytes) links' q := by
    refine hfollows.reaches ?_ hdirectory
    split <;> simp
  have hinit : Reaches fs.top links' q (init.map fun name => .component (.name name)) links' (q ++ init) :=
    reaches_names (Node.directoryAt_of_get? hplace (List.cons_ne_nil _ _))
      fun name hname => (htaken name (List.mem_append_left _ hname)).1
  have hsteps := steps_below hroot (by simp) h
  rw [List.map_append, ← List.append_assoc] at hsteps
  have hstart : start fs (root.below (init ++ [last])) = start fs root := by
    rw [start, start, ← Path.join_relative root (by simp) h,
      Path.isAbsolute_join hroot (Path.isAbsolute_relative h)]
  have hwhole := hreaches.append hinit
  rw [← hstart] at hwhole
  have htaken' := checkPath_below hcheck hshort (by simp) h fun name hname => (htaken name hname).2
  refine stat_eq_ok_iff.2 ⟨_, resolve_last hsteps htaken' (htaken last (by simp)).1 hwhole hplace ?_⟩
  exact fun target htarget => absurd htarget (hlink target)

end FileSystem

end BuildDelta
