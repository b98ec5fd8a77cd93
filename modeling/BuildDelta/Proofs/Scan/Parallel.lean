import BuildDelta.Proofs.FileSystem.SameTree
import BuildDelta.Proofs.Scan.Exact
import Mathlib.Data.List.Perm.Basic
/-!
# Scans that walk each entry on its own

A walk that starts at an entry of the root looks at the entry first, whatever it is; one that starts at
the root looks only at files that are accepted. So a scan of the first sort fails for every entry whose
path is too long (`long_entry_fails_parallel_scan`). But for that the two give the same, in whatever
order directories are listed and walks come to their ends (`parallel_scans_agree`).
-/

namespace BuildDelta

open FileSystem

namespace Scan

variable {τ : Type} [Scannable τ] {fs fs' : FileSystem} {root : Path} {n n' : Node}
  {filter : Filter} {mode : FingerprintMode} {names : List Name} {linked : Bool} {f : File}
  {s : Snapshot τ} {es es' : List Event}

theorem Meets.same (htree : SameTree fs fs') (hn : n.SameAs n')
    (h : Meets fs root n names linked f) : Meets fs' root n' names linked f := by
  refine h.imp (fun m hm => (hn.leaf names m hm).1) fun target _ hstat => ?_
  obtain ⟨m, hm, hsame⟩ := htree.stat hstat
  cases (hsame.leaf [] _ rfl).1 rfl
  exact hm

theorem meets_same_iff (htree : SameTree fs fs') (hn : n.SameAs n') :
    Meets fs root n names linked f ↔ Meets fs' root n' names linked f :=
  ⟨.same htree hn, .same htree.symm hn.symm⟩

theorem Open.same (hn : n.SameAs n') (h : Open root n) : Open root n' := by
  intro names readable entries hnames
  obtain ⟨entries', hnames'⟩ := (hn.directory names readable).2 ⟨entries, hnames⟩
  exact h names readable entries' hnames'

theorem EntriesShort.same (hn : n.SameAs n') (h : EntriesShort root n) : EntriesShort root n' := by
  intro name m hm
  obtain ⟨m', hm', -⟩ := hn.symm.exists_node hm
  exact h name m' hm'

theorem Scanned.same (htree : SameTree fs fs') (hn : n.SameAs n')
    (h : Scanned fs root n filter mode s) : Scanned fs' root n' filter mode s where
  root_eq := h.root_eq
  entered := h.entered.same hn
  examined names linked f hmeets := h.examined names linked f (hmeets.same htree.symm hn.symm)
  mem_iff a := by
    rw [h.mem_iff]
    simp only [meets_same_iff htree hn]

/-- A scan can only succeed if there is a directory. -/
theorem exists_directory_of_scan {options : ScanOptions}
    (h : Snapshot.scan fs root filter options = .ok s) :
    ∃ n, fs.stat root = .ok n ∧ n.isDirectory = true := by
  obtain ⟨es, -, hevents, -⟩ := Snapshot.exists_of_scan h
  unfold events at hevents
  split at hevents
  · rename_i hstat
    exact ⟨_, hstat, rfl⟩
  · cases hevents
  · cases hevents
  · cases hevents

/-- A walk that starts at an entry is stopped by it if the path is too long. -/
theorem short_of_not_blocked {entries : List (Name × Node)}
    (h : ∀ p cause, Event.blocked p cause ∉ entries.flatMap (visitAlone fs root)) :
    ∀ entry ∈ entries, tooLong (root.join ⟨entry.1⟩) = false := by
  intro entry hentry
  by_contra hlong
  refine h (root.join ⟨entry.1⟩) .nameTooLong (List.mem_flatMap.2 ⟨entry, hentry, ?_⟩)
  rw [visitAlone, if_pos (eq_true_of_ne_false hlong)]
  exact List.mem_singleton_self _

section Directory

variable (hstat : fs.stat root = .ok n) (hdirectory : n.isDirectory = true) (hn : n.WellNamed)
include hstat hdirectory hn

/-- A walk that was stopped nowhere has entered the root and looked at each of its entries. -/
theorem entered_of_parallel (h : Snapshot.scan fs root filter ⟨mode, true⟩ = .ok s) :
    Open root n ∧ EntriesShort root n := by
  obtain ⟨es, items, hevents, hitems, -⟩ := Snapshot.exists_of_scan h
  have hunblocked := not_blocked_of_mapM hitems
  obtain ⟨readable, entries, rfl⟩ := Node.exists_eq_directory hdirectory
  simp only [events, hstat, if_true] at hevents
  split at hevents
  case isFalse => cases hevents
  rename_i hreadable
  cases hevents
  have hshort := short_of_not_blocked hunblocked
  have hroot : tooLong root = false := by
    have hlength := length_lt_of_stat hstat
    simp only [tooLong, decide_eq_false_iff_not]
    omega
  have hvisit : visit fs root ⟨[]⟩ (.directory readable entries) =
      entries.flatMap (visitAlone fs root) := by
    rw [flatMap_visitAlone hshort, visit, hroot, hreadable]
    rfl
  rw [← hvisit] at hunblocked
  exact ⟨(open_iff hn).2 hunblocked, (entriesShort_iff hn).2 hshort⟩

variable [Scannable.Faithful τ]

theorem scan_sequential_iff :
    Snapshot.scan fs root filter ⟨mode, false⟩ = .ok s ↔ Scanned fs root n filter mode s := by
  rw [← collect_visit_eq_ok_iff hn]
  have hevents : events fs root false = _ := events_sequential hstat hdirectory
  rw [Snapshot.scan, hevents]
  rfl

theorem scan_parallel_iff : Snapshot.scan fs root filter ⟨mode, true⟩ = .ok s ↔
    Scanned fs root n filter mode s ∧ EntriesShort root n := by
  constructor
  · intro h
    obtain ⟨hopen, hshort⟩ := entered_of_parallel hstat hdirectory hn h
    rw [scan_eq_collect hstat hdirectory hn hopen fun _ => hshort] at h
    exact ⟨(collect_visit_eq_ok_iff hn).1 h, hshort⟩
  · rintro ⟨hscanned, hshort⟩
    rw [scan_eq_collect hstat hdirectory hn hscanned.entered fun _ => hshort]
    exact (collect_visit_eq_ok_iff hn).2 hscanned

theorem scan_eq_ok_iff {options : ScanOptions} : Snapshot.scan fs root filter options = .ok s ↔
    Scanned fs root n filter options.fingerprint s ∧
      (options.parallel = true → EntriesShort root n) := by
  obtain ⟨mode, parallel⟩ := options
  cases parallel with
  | false => simp [scan_sequential_iff hstat hdirectory hn]
  | true => simp [scan_parallel_iff hstat hdirectory hn]

end Directory

theorem collect_of_perm (hperm : es.Perm es') (h : collect root filter mode es = .ok s) :
    collect root filter mode es' = .ok s := by
  obtain ⟨items, hitems, hbuilt⟩ := collect_eq_ok_iff.1 h
  obtain ⟨hroot, hkeys, hsame⟩ := Snapshot.ofItems_eq_ok_iff.1 hbuilt
  obtain ⟨items', hitems', hitemsPerm⟩ := mapM_of_perm hperm hitems
  have hreduced : items.reduceOption.Perm items'.reduceOption := hitemsPerm.filterMap id
  refine collect_eq_ok_iff.2 ⟨items', hitems', Snapshot.ofItems_eq_ok_iff.2 ⟨hroot, ?_, ?_⟩⟩
  · exact (hreduced.map Keyed.key).nodup_iff.1 hkeys
  · exact hreduced.symm.trans hsame

/-- All that is asked of the two sorts of scans, of the same tree with its listings in any order. -/
structure ScansAgree (τ : Type) [Scannable τ] (fs fs' : FileSystem) (root : Path) (filter : Filter)
    (mode : FingerprintMode) : Prop where
  sequential_iff : ∀ s : Snapshot τ, Snapshot.scan fs' root filter ⟨mode, false⟩ = .ok s ↔
    Snapshot.scan fs root filter ⟨mode, false⟩ = .ok s
  parallel_iff : ∀ s : Snapshot τ, Snapshot.scan fs' root filter ⟨mode, true⟩ = .ok s ↔
    Snapshot.scan fs root filter ⟨mode, false⟩ = .ok s ∧
      ∀ n, fs.stat root = .ok n → EntriesShort root n
  any_order : ∀ es es', events fs' root true = .ok es → es.Perm es' → ∀ s : Snapshot τ,
    collect root filter mode es' = .ok s ↔ Snapshot.scan fs' root filter ⟨mode, true⟩ = .ok s

section Agree

variable [Scannable.Faithful τ] (htree : SameTree fs fs') (hn : fs.top.WellNamed)
  (hn' : fs'.top.WellNamed)
include htree hn hn'

theorem sequential_of_same (h : Snapshot.scan fs root filter ⟨mode, false⟩ = .ok s) :
    Snapshot.scan fs' root filter ⟨mode, false⟩ = .ok s := by
  obtain ⟨n, hstat, hdirectory⟩ := exists_directory_of_scan h
  obtain ⟨n', hstat', hsame⟩ := htree.stat hstat
  rw [scan_sequential_iff hstat hdirectory (wellNamed_of_stat hn hstat)] at h
  rw [scan_sequential_iff hstat' (hsame.isDirectory_eq.trans hdirectory)
    (wellNamed_of_stat hn' hstat')]
  exact h.same htree hsame

theorem scansAgree : ScansAgree τ fs fs' root filter mode where
  sequential_iff s := ⟨sequential_of_same htree.symm hn' hn, sequential_of_same htree hn hn'⟩
  parallel_iff s := by
    constructor
    · intro h
      obtain ⟨n', hstat', hdirectory'⟩ := exists_directory_of_scan h
      obtain ⟨n, hstat, hsame⟩ := htree.symm.stat hstat'
      rw [scan_parallel_iff hstat' hdirectory' (wellNamed_of_stat hn' hstat')] at h
      rw [scan_sequential_iff hstat (hsame.isDirectory_eq.trans hdirectory')
        (wellNamed_of_stat hn hstat)]
      refine ⟨h.1.same htree.symm hsame, fun m hm => ?_⟩
      cases hm.symm.trans hstat
      exact h.2.same hsame
    · rintro ⟨h, hshort⟩
      obtain ⟨n, hstat, hdirectory⟩ := exists_directory_of_scan h
      obtain ⟨n', hstat', hsame⟩ := htree.stat hstat
      rw [scan_sequential_iff hstat hdirectory (wellNamed_of_stat hn hstat)] at h
      rw [scan_parallel_iff hstat' (hsame.isDirectory_eq.trans hdirectory)
        (wellNamed_of_stat hn' hstat')]
      exact ⟨h.same htree hsame, (hshort n hstat).same hsame⟩
  any_order es es' hevents hperm s := by
    have hscan : (Snapshot.scan fs' root filter ⟨mode, true⟩ : Except ScanError (Snapshot τ)) =
        collect root filter mode es := by
      rw [Snapshot.scan, hevents]
      rfl
    rw [hscan]
    exact ⟨collect_of_perm hperm.symm, collect_of_perm hperm⟩

end Agree

end Scan

open Scan

/-- Whether each entry of the root is walked on its own, in which order directories are listed and in
which order walks come to their ends makes no difference to what a scan gives, as long as the entries
of the root can be looked at. -/
theorem parallel_scans_agree (fs fs' : FileSystem) (root : Path) (filter : Filter)
    (mode : FingerprintMode) (htree : SameTree fs fs') (hn : fs.top.WellNamed)
    (hn' : fs'.top.WellNamed) :
    ScansAgree FileItem fs fs' root filter mode ∧ ScansAgree KeyItem fs fs' root filter mode :=
  ⟨scansAgree htree hn hn', scansAgree htree hn hn'⟩

theorem parallel_scans_agree_reversed :
    let fs : FileSystem := ⟨sampleTree, [], 0⟩
    let fs' : FileSystem := ⟨.directory true sampleEntries.reverse, [], 0⟩
    SameTree fs fs' ∧ fs.top.WellNamed ∧ fs'.top.WellNamed ∧
      ∃ s : Snapshot FileItem, s.items.toList.map (·.relativePath) = ["a.txt", "d/b.txt", "link"] ∧
        Snapshot.scan fs (.ofString ".") isAscii ⟨.content, false⟩ = .ok s ∧
        Snapshot.scan fs' (.ofString ".") isAscii ⟨.content, true⟩ = .ok s := by
  intro fs fs'
  have hn : fs.top.WellNamed := wellNamed_sampleTree
  have hreverse := (List.reverse_perm sampleEntries).symm
  have htree : SameTree fs fs' := ⟨Node.sameAs_of_perm hn.nodup hreverse, rfl⟩
  have hn' : fs'.top.WellNamed := Node.wellNamed_of_perm hn hreverse
  have hscan : Snapshot.scan fs (.ofString ".") isAscii ⟨.content, false⟩ = .ok (⟨".",
      ⟨[⟨"a.txt", .content (.ofBytes [1, 2]) 2⟩, ⟨"d/b.txt", .content (.ofBytes []) 0⟩,
        ⟨"link", .content (.ofBytes []) 0⟩], by decide +kernel⟩⟩ : Snapshot FileItem) := by
    decide +kernel
  have hshort : ∀ n, fs.stat (.ofString ".") = .ok n → EntriesShort (.ofString ".") n := by
    intro n hstat
    cases (show fs.stat (.ofString ".") = .ok sampleTree from rfl).symm.trans hstat
    exact (entriesShort_iff wellNamed_sampleTree).2 (by decide +kernel)
  obtain ⟨hfiles, -⟩ := parallel_scans_agree fs fs' (.ofString ".") isAscii .content htree hn hn'
  exact ⟨htree, hn, hn', _, rfl, hscan, (hfiles.parallel_iff _).2 ⟨hscan, hshort⟩⟩

/-- A name behind so many dots, each of which is a step to where one is. -/
def Path.behindDots (k : Nat) (name : Name) : Path :=
  ⟨(List.replicate k [Path.dot, Path.slash]).flatten ++ name⟩

namespace FileSystem

variable {fs : FileSystem} {n top : Node} {name : Name} {links : Nat} {place : Place}

theorem closed_dots (k : Nat) : Path.Closed (List.replicate k [Path.dot, Path.slash]).flatten := by
  cases k with
  | zero => exact .inl rfl
  | succ k =>
    refine .inr ⟨(List.replicate k [Path.dot, Path.slash]).flatten ++ [Path.dot], ?_⟩
    rw [List.replicate_succ', List.flatten_append, List.flatten_singleton, List.append_assoc]
    rfl

theorem way_dots (k : Nat) : way (List.replicate k [Path.dot, Path.slash]).flatten =
    List.replicate k (.component .here) := by
  induction k with
  | zero => rfl
  | succ k ih =>
    rw [List.replicate_succ, List.replicate_succ, ← ih]
    rfl

theorem reaches_dots (k : Nat) :
    Reaches top links place (List.replicate k (.component .here)) links place := by
  induction k with
  | zero => exact .stay links place
  | succ k ih => exact .here ih

theorem length_behindDots (k : Nat) (name : Name) :
    (Path.behindDots k name).bytes.length = 2 * k + name.length := by
  simp [Path.behindDots, Nat.mul_comm]

/-- Such a path names what is in the working directory, as long as it is not refused. -/
theorem stat_behindDots {k : Nat} (hname : name.Valid) (hnul : 0 ∉ name)
    (hlength : name.length ≤ maxNameLength) (hshort : 2 * k + name.length < pathLimit)
    (hn : fs.top.get? (fs.workingDirectory ++ [name]) = some n) (hlink : ∀ target, n ≠ .link target) :
    fs.stat (.behindDots k name) = .ok n := by
  have hnuls : 0 ∉ (Path.behindDots k name).bytes := by
    intro hmem
    obtain hdots | hmem := List.mem_append.1 hmem
    · obtain ⟨piece, hpiece, hzero⟩ := List.mem_flatten.1 hdots
      rw [List.eq_of_mem_replicate hpiece] at hzero
      exact absurd hzero (by decide)
    · exact hnul hmem
  have hsteps : steps (Path.behindDots k name).bytes =
      List.replicate k (.component .here) ++ [.component (.name name)] := by
    rw [Path.behindDots, steps_append (closed_dots k) hname.no_slash hname.ne_nil, way_dots,
      Path.Component.ofPiece, if_neg hname.ne_here, if_neg hname.ne_above]
  have hstart : start fs (Path.behindDots k name) = fs.workingDirectory := by
    rw [start, Path.behindDots, isAbsolute_append hname.no_slash]
    cases k <;> rfl
  have hcheck : checkPath (Path.behindDots k name) = .ok () := by
    refine checkPath_eq_ok_iff.2 ⟨hnuls, ?_, List.append_ne_nil_of_right_ne_nil _ hname.ne_nil⟩
    rwa [length_behindDots]
  refine stat_eq_ok_iff.2 ⟨_, resolve_last hsteps hcheck hlength (reaches_dots k) ?_ ?_⟩
  · rwa [hstart]
  · exact fun target h => absurd h (hlink target)

end FileSystem

namespace Scan

/-- A root that can be looked at, with no room behind it for the name of a file. -/
def longRoot : Path := .behindDots 2044 (Utf8.encode "d")

def notes : Name := Utf8.encode "notes.txt"

def notesTree : FileSystem where
  top := .directory true [(Utf8.encode "d", .directory true [(notes, .file ⟨[0x78], 0, true⟩)])]
  workingDirectory := []
  clock := 0

theorem stat_longRoot : notesTree.stat longRoot =
    .ok (.directory true [(notes, .file ⟨[0x78], 0, true⟩)]) :=
  stat_behindDots (by decide) (by decide) (by decide) (by decide) rfl nofun

theorem join_longRoot : longRoot.join ⟨notes⟩ = ⟨longRoot.bytes ++ Path.slash :: notes⟩ := by
  have hlast : longRoot.bytes.getLast? = some 0x64 := by
    rw [longRoot, Path.behindDots, List.getLast?_append]
    rfl
  exact Path.join_name (by decide) hlast (by decide)

theorem tooLong_longRoot : tooLong longRoot = false := by
  rw [tooLong, longRoot, length_behindDots]
  decide

theorem tooLong_notes : tooLong (longRoot.join ⟨notes⟩) = true := by
  rw [tooLong, join_longRoot, List.length_append, longRoot, length_behindDots]
  decide

end Scan

open Scan

/-- A file that no scan has anything to do with makes the one fail and not the other. -/
theorem long_entry_fails_parallel_scan :
    let filter := (PathFilter.new ["java"] false).accepts
    Snapshot.scan notesTree longRoot filter ⟨.metadata, false⟩ =
        .ok (.empty longRoot.text : Snapshot FileItem) ∧
      (Snapshot.scan notesTree longRoot filter ⟨.metadata, true⟩ : Except _ (Snapshot FileItem)) =
        .error (.walk (longRoot.join ⟨notes⟩) .nameTooLong) := by
  intro filter
  have hrejected : filter ⟨notes⟩ = false := by decide +kernel
  have hrelative : (⟨[]⟩ : Path).join ⟨notes⟩ = ⟨notes⟩ := by decide
  constructor
  · have hevents : events notesTree longRoot false =
        .ok [.file (longRoot.join ⟨notes⟩) ⟨notes⟩ false ⟨[0x78], 0, true⟩] := by
      rw [events_sequential stat_longRoot rfl, visit, tooLong_longRoot]
      simp only [visitEntries, visit, hrelative, if_true, Bool.false_eq_true, if_false,
        List.append_nil]
    rw [Snapshot.scan, hevents]
    change (List.mapM (examine filter .metadata) [_] >>= _) = _
    rw [List.mapM_cons, examine, hrejected]
    rfl
  · have hevents : events notesTree longRoot true =
        .ok [.blocked (longRoot.join ⟨notes⟩) .nameTooLong] := by
      simp only [events, stat_longRoot, if_true, List.flatMap_cons, List.flatMap_nil, visitAlone,
        tooLong_notes, List.append_nil]
    rw [Snapshot.scan, hevents]
    rfl

end BuildDelta
