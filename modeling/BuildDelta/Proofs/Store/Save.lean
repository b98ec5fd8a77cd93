import BuildDelta.Proofs.FileSystem.Action
import BuildDelta.Proofs.Path
import BuildDelta.Proofs.Text.Utf8
import BuildDelta.Store
/-!
# A state is replaced as a whole

A file that is written whole is found under its name with the new content (`contentAt_of_writeWhole`),
and when any step of that fails, what could be read under the name before is still read
(`contentAt_of_writeWhole_error`). The first needs the name of the draft to be free of links: the
content would be written behind the link, and the link would get the name. A link under the name
itself gives way to the file, and the file is found unless the way to it led through that link.
-/

namespace BuildDelta

open FileSystem FileSystem.Node

namespace Store

/-- A link in the place of a file that is about to be written is not on the way to that place, and
nobody else has put a link in the place of the draft, or left a draft there that cannot be read. -/
structure ClearToWrite (path : Path) (fs : FileSystem) : Prop where
  rooted : fs.top.DirectoryAt fs.workingDirectory
  link_passed : ∀ place target, fs.resolve .entry path = .ok (.node place (.link target)) →
    ∃ parent name, place = parent ++ [name] ∧
      (fs.withNode parent name none).resolve .entry path = .ok (.missing parent name)
  no_link_draft : ∀ place target,
    fs.resolve .entry (draftPath path) ≠ .ok (.node place (.link target))
  readable_draft : ∀ place f, fs.resolve .entry (draftPath path) = .ok (.node place (.file f)) →
    f.readable = true

/-- Whether a path leads to the same place when there is nothing there. -/
def isPassed (path : Path) (fs : FileSystem) (place : Place) : Bool :=
  match ((replace place none).run fs).2.resolve .entry path with
  | .ok (.missing parent name) => parent ++ [name] = place
  | _ => false

/-- Whether a file can be written as a whole, as far as that can be seen beforehand. -/
def isClear (path : Path) (fs : FileSystem) : Bool :=
  (fs.top.get? fs.workingDirectory).any Node.isDirectory &&
  (match fs.resolve .entry path with
    | .ok (.node place (.link _)) => isPassed path fs place
    | _ => true) &&
  match fs.resolve .entry (draftPath path) with
  | .ok (.node _ (.link _)) => false
  | .ok (.node _ (.file f)) => f.readable
  | _ => true

theorem exists_missing_of_isPassed {path : Path} {fs : FileSystem} {place : Place}
    (h : isPassed path fs place = true) : ∃ parent name, place = parent ++ [name] ∧
      (fs.withNode parent name none).resolve .entry path = .ok (.missing parent name) := by
  unfold isPassed at h
  split at h
  · rename_i parent name hmissing
    have hplace : parent ++ [name] = place := by simpa using h
    subst hplace
    rw [replace_concat] at hmissing
    exact ⟨parent, name, rfl, hmissing⟩
  · cases h

theorem clearToWrite_of_isClear {path : Path} {fs : FileSystem} (h : isClear path fs = true) :
    ClearToWrite path fs := by
  unfold isClear at h
  simp only [Bool.and_eq_true] at h
  obtain ⟨⟨hrooted, hpath⟩, hdraft⟩ := h
  constructor
  · cases hd : fs.top.get? fs.workingDirectory with
    | none => simp [hd] at hrooted
    | some d => exact ⟨d, hd, by simpa [hd] using hrooted⟩
  · intro place target heq
    rw [heq] at hpath
    exact exists_missing_of_isPassed hpath
  · intro place target heq
    rw [heq] at hdraft
    cases hdraft
  · intro place f heq
    rw [heq] at hdraft
    exact hdraft

theorem exists_statePath_bytes (store : Store) (name : String) :
    ∃ before, (store.statePath name).bytes = before ++ Path.dot :: Utf8.encode "snapshot" := by
  have hencode : Utf8.encode (name ++ ".snapshot") =
      Utf8.encode name ++ Path.dot :: Utf8.encode "snapshot" := by
    rw [Utf8.encode_append]
    rfl
  rw [statePath, Path.join, Path.ofString, hencode]
  split
  · exact ⟨_, rfl⟩
  split
  · exact ⟨_, (List.append_assoc ..).symm⟩
  · exact ⟨_, (List.append_assoc _ (Path.slash :: Utf8.encode name) _).symm⟩

theorem draft_beside_state (store : Store) (name : String) :
    ∃ way n last, Beside (store.statePath name) (draftPath (store.statePath name)) way n last := by
  obtain ⟨before, hbytes⟩ := exists_statePath_bytes store name
  apply Path.exists_beside_withExtension hbytes
  all_goals decide +kernel

section Write

variable {path : Path} {content : Bytes} {fs fs' : FileSystem} {way : List Step} {name : Name}
  {last : Path.Component}

theorem directoryAt_start (h : fs.top.DirectoryAt fs.workingDirectory) (p : Path) :
    fs.top.DirectoryAt (start fs p) := by
  have htop : fs.top.DirectoryAt ([] ++ fs.workingDirectory) := h
  unfold start
  split
  · exact htop.of_append
  · exact h

theorem start_beside {p q : Path} (h : Beside p q way name last) (fs : FileSystem) :
    start fs q = start fs p := by
  rw [start, start, h.isAbsolute_beside]

theorem not_takes_above {top : Node} {purpose : Purpose} {links : Nat} {place parent : Place}
    {written : Name} {readable : Bool} {found : Found} (hplace : top.DirectoryAt place)
    (h : Follows top purpose links place [.component .above] found) :
    ¬found.Takes parent written readable := by
  intro htakes
  obtain ⟨d, hd, hdirectory⟩ := hplace.dropLast
  cases h with
  | above h =>
    cases h with
    | stop hn =>
      cases hd.symm.trans hn
      rw [htakes.isDirectory_eq_false] at hdirectory
      cases hdirectory

/-- Where a draft goes: into the directory at the end of the way, in place of no link. -/
theorem draft_written (hbeside : Beside path (draftPath path) way name last)
    (hclear : ClearToWrite path fs)
    (h : (writeFile (draftPath path) content).run fs = (.ok ⟨⟩, fs')) :
    ∃ links place draft, draft ≠ name ∧ last = .name draft ∧ fs.top.DirectoryAt place ∧
      Reaches fs.top maxLinks (start fs path) way links place ∧
      fs.top.PlainAt (place ++ [draft]) ∧
      fs' = fs.withNode place draft (some (.file ⟨content, fs.clock, true⟩)) := by
  have hstart := start_beside hbeside fs
  obtain ⟨found, parent, written, readable, hresolve, htakes, rfl⟩ := writeFile_ok h
  obtain ⟨hcheck, hfollows⟩ := resolve_eq_ok.1 hresolve
  rw [hbeside.steps_beside, hstart] at hfollows
  obtain ⟨links, place, hreaches⟩ := hfollows.exists_reaches
  rw [hreaches.follows_append_iff] at hfollows
  have hplace := hreaches.directoryAt (directoryAt_start hclear.rooted path)
  obtain rfl | ⟨draft, rfl, hdraft⟩ := hbeside.last_cases
  · exact absurd htakes (not_takes_above hplace hfollows)
  have hplain := htakes.plainAt hfollows.describes
  have hname := hfollows.length_name_le
  have hentry : ∀ n, fs.top.get? (place ++ [draft]) = some n →
      fs.resolve .entry (draftPath path) = .ok (.node (place ++ [draft]) n) := by
    intro n hn
    exact resolve_last hbeside.steps_beside hcheck hname (hstart ▸ hreaches) hn fun _ _ => rfl
  have hlink : ∀ target, fs.top.get? (place ++ [draft]) = some (.link target) →
      Purpose.output = .entry := by
    intro target hn
    exact absurd (hentry _ hn) (hclear.no_link_draft _ target)
  obtain ⟨-, ⟨-, rfl⟩ | ⟨n, hn, rfl⟩⟩ := hfollows.last hlink
  · obtain ⟨rfl, rfl, rfl⟩ := takes_missing.1 htakes
    exact ⟨links, place, draft, hdraft, rfl, hplace, hreaches, hplain, rfl⟩
  · obtain ⟨rfl, rfl, old, rfl, hreadable⟩ := takes_node.1 htakes
    rw [hclear.readable_draft _ old (hentry _ hn)] at hreadable
    subst hreadable
    exact ⟨links, place, draft, hdraft, rfl, hplace, hreaches, hplain, rfl⟩

/-- What a rename that succeeds has done, where the way and the draft are known. -/
theorem renamed_beside {links : Nat} {place : Place} {draft : Name} {n : Node}
    (hbeside : Beside path (draftPath path) way name (.name draft))
    (hreaches : Reaches fs.top maxLinks (start fs path) way links place)
    (hn : fs.top.get? (place ++ [draft]) = some n)
    (h : (renameFile (draftPath path) path).run fs = (.ok ⟨⟩, fs')) :
    checkPath path = .ok () ∧ name.length ≤ maxNameLength ∧
      (∀ m, fs.top.get? (place ++ [name]) = some m → m.isDirectory = false) ∧
      fs' = (fs.withNode place draft none).withNode place name (some n) := by
  have hstart := start_beside hbeside fs
  obtain ⟨parent, taken, n', found, parent', put, hsource, htarget, hplaced, rfl⟩ :=
    renameFile_ok h
  obtain ⟨rfl, rfl, rfl⟩ : place = parent ∧ draft = taken ∧ n = n' := by
    obtain ⟨-, -, ⟨hnone, -⟩ | ⟨m, hm, heq⟩⟩ :=
      resolve_entry_cases hbeside.steps_beside (hstart ▸ hreaches) hsource
    · cases hn.symm.trans hnone
    · cases hn.symm.trans hm
      obtain ⟨happend, hsame⟩ := Found.node.inj heq
      obtain ⟨hparent, hdraft⟩ := List.append_inj' happend rfl
      exact ⟨hparent.symm, (List.cons.inj hdraft).1.symm, hsame.symm⟩
  obtain ⟨hcheck, hlength, hcases⟩ := resolve_entry_cases hbeside.steps hreaches htarget
  refine ⟨hcheck, hlength, ?_⟩
  obtain ⟨hnone, rfl⟩ | ⟨m, hm, rfl⟩ := hcases
  · obtain heq | ⟨old, -, heq⟩ := hplaced
    · cases heq
      refine ⟨?_, rfl⟩
      intro m hm
      cases hnone.symm.trans hm
    · cases heq
  · obtain heq | ⟨old, hold, heq⟩ := hplaced
    · cases heq
    · obtain ⟨happend, rfl⟩ := Found.node.inj heq
      obtain ⟨rfl, hput⟩ := List.append_inj' happend rfl
      cases hput
      refine ⟨?_, rfl⟩
      intro m' hm'
      cases hm.symm.trans hm'
      exact hold

/-- The way to a link is open without the link. -/
theorem reaches_past {links : Nat} {place : Place} {target : Bytes}
    (hsteps : steps path.bytes = way ++ [.component (.name name)]) (hclear : ClearToWrite path fs)
    (hcheck : checkPath path = .ok ()) (hlength : name.length ≤ maxNameLength)
    (hreaches : Reaches fs.top maxLinks (start fs path) way links place)
    (hlink : fs.top.get? (place ++ [name]) = some (.link target)) :
    ∃ links', Reaches (fs.top.set name none place) maxLinks (start fs path) way links' place ∧
      (fs.top.set name none place).get? (place ++ [name]) = none := by
  have hentry := resolve_last hsteps hcheck hlength hreaches hlink fun _ _ => rfl
  obtain ⟨parent, name', hplace, hmissing⟩ := hclear.link_passed _ _ hentry
  obtain ⟨rfl, hname⟩ := List.append_inj' hplace rfl
  cases hname
  obtain ⟨-, hfollows⟩ := resolve_eq_ok.1 hmissing
  rw [hsteps] at hfollows
  obtain ⟨links', place', hpast⟩ := hfollows.exists_reaches
  rw [hpast.follows_append_iff] at hfollows
  obtain ⟨-, ⟨hnone, heq⟩ | ⟨n, -, heq⟩⟩ := hfollows.last fun _ _ => rfl
  · cases heq
    exact ⟨links', hpast, hnone⟩
  · cases heq

/-- The way to a file or link stays open when another file is put there. -/
theorem exists_reaches_put {links : Nat} {place : Place} {top : Node}
    (hsteps : steps path.bytes = way ++ [.component (.name name)]) (hclear : ClearToWrite path fs)
    (hcheck : checkPath path = .ok ()) (hlength : name.length ≤ maxNameLength)
    (hreaches : Reaches fs.top maxLinks (start fs path) way links place)
    (hkeeps : KeepsWays fs.top top) (hsame : top.get? (place ++ [name]) = fs.top.get? (place ++ [name]))
    (hold : ∀ n, fs.top.get? (place ++ [name]) = some n → n.isDirectory = false) (file : File) :
    ∃ links', Reaches (top.set name (some (.file file)) place) maxLinks (start fs path) way
      links' place := by
  cases hname : fs.top.get? (place ++ [name]) with
  | none =>
    have hgrows := grows_set (hsame.trans hname) (some (.file file))
    exact ⟨links, hreaches.mono (hkeeps.trans hgrows.toKeepsWays)⟩
  | some n =>
    cases n with
    | directory readable entries => cases hold _ hname
    | file f =>
      have hput := (plainAt_of_file (hsame.trans hname)).keepsWays_set (some (.file file))
      exact ⟨links, hreaches.mono (hkeeps.trans hput)⟩
    | special =>
      have hput := (plainAt_of_special (hsame.trans hname)).keepsWays_set (some (.file file))
      exact ⟨links, hreaches.mono (hkeeps.trans hput)⟩
    | link target =>
      obtain ⟨links', hpast, hmissing⟩ :=
        reaches_past hsteps hclear hcheck hlength hreaches hname
      exact ⟨links', hpast.mono (hkeeps.set_of_missing hmissing _)⟩

/-- What writing a file as a whole does to a tree: at the end of the way the draft comes and goes, and
the file takes its name. -/
structure Written (path : Path) (way : List Step) (name draft : Name) (file : File)
    (fs fs' : FileSystem) (links : Nat) (place : Place) : Prop where
  draft_ne : draft ≠ name
  check : checkPath path = .ok ()
  short : name.length ≤ maxNameLength
  directory : fs.top.DirectoryAt place
  draft_plain : fs.top.PlainAt (place ++ [draft])
  no_directory : ∀ n, fs.top.get? (place ++ [name]) = some n → n.isDirectory = false
  tree_eq : fs' = ((fs.withNode place draft (some (.file file))).withNode place draft none).withNode
    place name (some (.file file))
  reaches : Reaches fs'.top maxLinks (start fs' path) way links place

/-- The draft takes the name. -/
theorem written_of_renamed {drafted : FileSystem}
    (hbeside : Beside path (draftPath path) way name last) (hclear : ClearToWrite path fs)
    (hwrite : (writeFile (draftPath path) content).run fs = (.ok ⟨⟩, drafted))
    (hrename : (renameFile (draftPath path) path).run drafted = (.ok ⟨⟩, fs')) :
    ∃ draft links place, last = .name draft ∧
      Written path way name draft ⟨content, fs.clock, true⟩ fs fs' links place := by
  obtain ⟨links, place, draft, hdraft, rfl, hplace, hreaches, hplain, rfl⟩ :=
    draft_written hbeside hclear hwrite
  generalize (⟨content, fs.clock, true⟩ : File) = file at hrename ⊢
  have hself : (fs.withNode place draft (some (.file file))).top.get? (place ++ [draft]) =
      some (.file file) := get?_set_self hplace _
  have hother : (fs.withNode place draft (some (.file file))).top.get? (place ++ [name]) =
      fs.top.get? (place ++ [name]) := get?_set_other (Ne.symm hdraft) _ _
  have hwritten : KeepsWays fs.top (fs.withNode place draft (some (.file file))).top :=
    hplain.keepsWays_set _
  obtain ⟨hcheck, hlength, hold, rfl⟩ :=
    renamed_beside hbeside (hreaches.mono hwritten) hself hrename
  have htaken := hwritten.trans ((plainAt_of_file hself).keepsWays_set none)
  have hsame := (get?_set_other (Ne.symm hdraft) none _).trans hother
  rw [hother] at hold
  obtain ⟨links', hput⟩ := exists_reaches_put hbeside.steps hclear hcheck hlength hreaches htaken
    hsame hold file
  exact ⟨draft, links', place, rfl, hdraft, hcheck, hlength, hplace, hplain, hold, rfl, hput⟩

namespace Written

variable {draft : Name} {file : File} {links : Nat} {place : Place}
  (h : Written path way name draft file fs fs' links place)
include h

theorem get?_state : fs'.top.get? (place ++ [name]) = some (.file file) := by
  have hpast := not_concat_within place draft
  rw [h.tree_eq]
  exact get?_set_self ((h.directory.set hpast _).set hpast none) _

theorem resolve_eq (hsteps : steps path.bytes = way ++ [.component (.name name)])
    (purpose : Purpose) : fs'.resolve purpose path = .ok (.node (place ++ [name]) (.file file)) :=
  resolve_last hsteps h.check h.short h.reaches h.get?_state (by simp)

theorem contentAt_eq (hsteps : steps path.bytes = way ++ [.component (.name name)])
    (hreadable : file.readable = true) : fs'.contentAt path = .ok file.content :=
  contentAt_eq_ok.2 ⟨_, file, h.resolve_eq hsteps .target, hreadable, rfl⟩

end Written

theorem exists_written_of_writeWhole {store : Store}
    (hbeside : Beside path (draftPath path) way name last)
    (hclear : ClearToWrite path ((makeDirectories store.directory).run fs).2)
    (h : (store.writeWhole path content).run fs = (.ok ⟨⟩, fs')) :
    ∃ draft file links place, last = .name draft ∧ file.content = content ∧ file.readable = true ∧
      Written path way name draft file ((makeDirectories store.directory).run fs).2 fs' links
        place := by
  unfold writeWhole at h
  obtain ⟨⟨⟩, made, hmake, h⟩ := Action.run_bind_ok.1 h
  obtain ⟨⟨⟩, drafted, hwrite, hrename⟩ := Action.run_bind_ok.1 h
  have hmade : (makeDirectories store.directory).run fs = (.ok ⟨⟩, made) :=
    Action.run_withError_ok.1 hmake
  rw [hmade] at hclear ⊢
  obtain ⟨draft, links, place, hlast, hwritten⟩ := written_of_renamed hbeside hclear
    (Action.run_withError_ok.1 hwrite) (Action.run_withError_ok.1 hrename)
  exact ⟨draft, _, links, place, hlast, rfl, rfl, hwritten⟩

theorem contentAt_of_writeWhole {store : Store}
    (hbeside : Beside path (draftPath path) way name last)
    (hclear : ClearToWrite path ((makeDirectories store.directory).run fs).2)
    (h : (store.writeWhole path content).run fs = (.ok ⟨⟩, fs')) :
    fs'.contentAt path = .ok content := by
  obtain ⟨draft, file, links, place, -, rfl, hreadable, hwritten⟩ :=
    exists_written_of_writeWhole hbeside hclear h
  exact hwritten.contentAt_eq hbeside.steps hreadable

theorem exists_leaf_of_follows {top : Node} {purpose : Purpose} {links : Nat} {place q : Place}
    {file : File}
    (h : Follows top purpose links place [.component (.name name)] (.node q (.file file))) :
    ∃ n, top.get? (place ++ [name]) = some n ∧ n.isDirectory = false := by
  cases h with
  | leaf _ hplace hn => exact ⟨_, hplace, hn⟩
  | link _ _ _ hplace => exact ⟨_, hplace, rfl⟩
  | directory _ _ hplace h =>
    obtain ⟨d, hd, hdirectory⟩ := hplace
    cases h with
    | stop hfile =>
      cases hd.symm.trans hfile
      cases hdirectory

/-- A name that a draft has been written to is there, as a file or as a link to it. -/
theorem exists_written {top : Node} {links : Nat} {place parent : Place} {draft written : Name}
    {readable : Bool} {found : Found} (hplace : top.DirectoryAt place)
    (h : Follows top .output links place [.component (.name draft)] found)
    (htakes : found.Takes parent written readable) (file : File) :
    ∃ n, (top.set written (some (.file file)) parent).get? (place ++ [draft]) = some n := by
  have hleaf : ∀ m, top.get? (place ++ [draft]) = some m → m.isDirectory = false →
      ∃ n, (top.set written (some (.file file)) parent).get? (place ++ [draft]) = some n := by
    intro m hm hmleaf
    obtain ⟨n, hn, -⟩ := (htakes.plainAt h.describes).exists_leaf hm hmleaf file
    exact ⟨n, hn⟩
  cases h with
  | missing =>
    obtain ⟨rfl, rfl, -⟩ := takes_missing.1 htakes
    exact ⟨_, get?_set_self hplace _⟩
  | leaf _ hdraft hn => exact hleaf _ hdraft hn
  | link _ _ _ hdraft => exact hleaf _ hdraft rfl
  | directory _ _ hdraft h =>
    obtain ⟨d, hd, hdirectory⟩ := hdraft
    cases h with
    | stop hfile =>
      cases hd.symm.trans hfile
      rw [htakes.isDirectory_eq_false] at hdirectory
      cases hdirectory

/-- Once the draft is written, nothing is in the way of its taking the name of a file. -/
theorem exists_renamed {drafted : FileSystem} {before : Bytes}
    (hbeside : Beside path (draftPath path) way name last)
    (hbefore : fs.contentAt path = .ok before)
    (hwrite : (writeFile (draftPath path) content).run fs = (.ok ⟨⟩, drafted)) :
    ∃ fs', (renameFile (draftPath path) path).run drafted = (.ok ⟨⟩, fs') := by
  obtain ⟨q, file, hresolve, -, -⟩ := contentAt_eq_ok.1 hbefore
  obtain ⟨hcheck, hfollows⟩ := resolve_eq_ok.1 hresolve
  rw [hbeside.steps] at hfollows
  obtain ⟨links, place, hreaches⟩ := hfollows.exists_reaches
  rw [hreaches.follows_append_iff] at hfollows
  obtain ⟨m, hm, hleaf⟩ := exists_leaf_of_follows hfollows
  have hplace := directoryAt_of_get? hm (List.cons_ne_nil name [])
  obtain ⟨found, parent, written, readable, hdraft, htakes, hdrafted⟩ := writeFile_ok hwrite
  obtain ⟨hcheck', hfollows'⟩ := resolve_eq_ok.1 hdraft
  rw [hbeside.steps_beside, start_beside hbeside, hreaches.follows_append_iff] at hfollows'
  obtain rfl | ⟨draft, rfl, -⟩ := hbeside.last_cases
  · exact absurd htakes (not_takes_above hplace hfollows')
  have hplain := htakes.plainAt hfollows'.describes
  generalize (⟨content, fs.clock, readable⟩ : File) = file at hdrafted
  have htop : drafted.top = fs.top.set written (some (.file file)) parent := by
    rw [hdrafted]
    rfl
  have hreaches' : Reaches drafted.top maxLinks (start drafted path) way links place := by
    rw [htop, hdrafted]
    exact hreaches.mono (hplain.keepsWays_set _)
  have hstart := start_beside hbeside drafted
  obtain ⟨n, hn⟩ : ∃ n, drafted.top.get? (place ++ [draft]) = some n :=
    htop ▸ exists_written hplace hfollows' htakes file
  obtain ⟨m', hm', hleaf'⟩ : ∃ m', drafted.top.get? (place ++ [name]) = some m' ∧
      m'.isDirectory = false := htop ▸ hplain.exists_leaf hm hleaf file
  have hsource := resolve_last hbeside.steps_beside hcheck' hfollows'.length_name_le
    (hstart ▸ hreaches') hn fun _ _ => rfl
  have htarget := resolve_last hbeside.steps hcheck hfollows.length_name_le hreaches' hm'
    fun _ _ => rfl
  exact ⟨_, renameFile_run hsource htarget hleaf'⟩

/-- When a file cannot be written whole, the one that was there can be read as before. -/
theorem contentAt_of_writeWhole_error {store : Store} {before : Bytes} {e : StoreError}
    (hbeside : Beside path (draftPath path) way name last)
    (hbefore : fs.contentAt path = .ok before)
    (h : (store.writeWhole path content).run fs = (.error e, fs')) :
    fs'.contentAt path = .ok before := by
  have hadds := (makeDirectories_adds store.directory fs).contentAt hbefore
  unfold writeWhole at h
  obtain hmake | ⟨⟨⟩, made, hmake, h⟩ := Action.run_bind_error.1 h
  · obtain ⟨cause, hmake, -⟩ := Action.run_withError_error.1 hmake
    have hrun : (makeDirectories store.directory).run fs = (.error cause, fs') := hmake
    rwa [hrun] at hadds
  have hrun : (makeDirectories store.directory).run fs = (.ok ⟨⟩, made) :=
    Action.run_withError_ok.1 hmake
  rw [hrun] at hadds
  obtain hwrite | ⟨⟨⟩, drafted, hwrite, hrename⟩ := Action.run_bind_error.1 h
  · obtain ⟨cause, hwrite, -⟩ := Action.run_withError_error.1 hwrite
    rw [writeFile_error hwrite]
    exact hadds
  · obtain ⟨cause, hrename, -⟩ := Action.run_withError_error.1 hrename
    obtain ⟨renamed, hrenamed⟩ := exists_renamed hbeside hadds (Action.run_withError_ok.1 hwrite)
    cases hrenamed.symm.trans hrename

end Write

end Store

end BuildDelta
