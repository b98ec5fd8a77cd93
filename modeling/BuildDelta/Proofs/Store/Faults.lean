import BuildDelta.Proofs.Store.Kept
/-!
# Saves whose calls may fail

Any call that a save or a report is made of may fail, and leave directories half made or a draft half
written (`WriteCalls.Faulty`). A store that starts in a directory without files of its own, or without
that directory, keeps what was written last under each name through all of that (`Tracks`): a file that
is written whole is kept, and one that is not changes nothing (`Tracks.writeWhole`).
-/

namespace BuildDelta

open FileSystem FileSystem.Node

/-- Calls that may fail. One that fails has done nothing, or has made the directories above only, or
has written the beginning of a file; a rename happens or does not. -/
structure WriteCalls.Faulty (calls : WriteCalls) : Prop where
  makeDirectories : ∀ p fs,
    (calls.makeDirectories p).run fs = (FileSystem.makeDirectories p).run fs ∨
      ∃ e, (calls.makeDirectories p).run fs = (.error e, fs) ∨ ∃ above : Path, above.Above p ∧
        (calls.makeDirectories p).run fs = (.error e, ((FileSystem.makeDirectories above).run fs).2)
  writeFile : ∀ p content fs,
    (calls.writeFile p content).run fs = (FileSystem.writeFile p content).run fs ∨
      ∃ e, (calls.writeFile p content).run fs = (.error e, fs) ∨ ∃ part, part <+: content ∧
        (calls.writeFile p content).run fs = (.error e, ((FileSystem.writeFile p part).run fs).2)
  renameFile : ∀ source target fs,
    (calls.renameFile source target).run fs = (FileSystem.renameFile source target).run fs ∨
      ∃ e, (calls.renameFile source target).run fs = (.error e, fs)

theorem WriteCalls.plain_faulty : WriteCalls.plain.Faulty where
  makeDirectories _ _ := .inl rfl
  writeFile _ _ _ := .inl rfl
  renameFile _ _ _ := .inl rfl

namespace Store

/-- How far a directory may have been made. -/
inductive Prepared (directory : Path) (fs : FileSystem) : FileSystem → Prop
  | refl : Prepared directory fs fs
  | make {fs' : FileSystem} {above : Path} (h : Prepared directory fs fs')
    (habove : above.Above directory) :
    Prepared directory fs ((makeDirectories above).run fs').2

/-- The paths of all files that belong to a name. -/
def paths (store : Store) (name : String) : List Path :=
  [store.statePath name, store.reportPath name, draftPath (store.statePath name),
    draftPath (store.reportPath name)]

/-- A store that has not been used: as far as its directory is there, or comes to be there, it has no
file of the store. -/
structure Unused (store : Store) (fs : FileSystem) : Prop where
  rooted : fs.top.DirectoryAt fs.workingDirectory
  no_state : ∀ fs', Prepared store.directory fs fs' → ∀ name, store.Takes name →
    fs'.contentAt (store.statePath name) = .error .notFound
  no_file : ∀ fs', Prepared store.directory fs fs' → ∀ name, Path.slash ∉ Utf8.encode name →
    ∀ path ∈ store.paths name, ∀ place n, fs'.resolve .entry path = .ok (.node place n) →
    n.isDirectory = true

variable {store : Store} {kept kept' : Name → Option Bytes} {before fs fs' : FileSystem} {links : Nat}
  {place : Place} {file : Name} {name : String}

/-- Where the way to the directory is open, there is nothing left to make. -/
theorem makeDirectories_above_idle {above : Path} (hrooted : fs.top.DirectoryAt fs.workingDirectory)
    (hreaches : Reaches fs.top maxLinks (start fs store.directory) (way store.directory.bytes)
      links place) (habove : above.Above store.directory) :
    ((makeDirectories above).run fs).2 = fs := by
  obtain hnil | ⟨links, place, hreaches⟩ := exists_reaches_above habove hreaches
  · rw [makeDirectories, if_pos (List.isEmpty_iff.2 hnil)]
    rfl
  · exact makeDirectories_idle hreaches (hreaches.directoryAt (directoryAt_start hrooted _))

theorem Prepared.grown (h : Prepared store.directory before fs) : Grown before fs := by
  induction h with
  | refl => exact .refl before
  | make _ _ ih => exact ih.trans (makeDirectories_adds _ _)

/-- Where the way to the directory ends, nothing is kept yet. -/
theorem keeps_of_reaches (hunused : store.Unused before) (h : Prepared store.directory before fs)
    (hreaches : Reaches fs.top maxLinks (start fs store.directory) (way store.directory.bytes)
      links place) : store.Keeps (fun _ => none) fs links place := by
  have hrooted : fs.top.DirectoryAt fs.workingDirectory := by
    rw [h.grown.workingDirectory]
    exact h.grown.top.directory _ hunused.rooted
  have hentry : ∀ {file name}, Path.slash ∉ Utf8.encode name →
      ⟨store.folder ++ file⟩ ∈ store.paths name → store.Accepts file → ∀ {n},
      fs.top.get? (place ++ [file]) = some n → n.isDirectory = true := by
    intro file name hname hpath haccepts n hn
    exact hunused.no_file fs h name hname _ hpath _ n
      (haccepts.resolve_eq hreaches hn fun _ _ => rfl)
  have hharmless : ∀ {file name}, Path.slash ∉ Utf8.encode name →
      ⟨store.folder ++ file⟩ ∈ store.paths name → store.Accepts file →
      fs.top.Harmless place file := by
    intro file name hname hpath haccepts
    cases hn : fs.top.get? (place ++ [file]) with
    | none => exact .inr ⟨none, holds_none.2 hn⟩
    | some n => exact .inl ⟨n, hn, hentry hname hpath haccepts hn⟩
  refine ⟨hreaches, hrooted, ?_, ?_⟩
  · intro name hname haccepts
    rw [holds_none]
    cases hn : fs.top.get? (place ++ [stateName name]) with
    | none => rfl
    | some n =>
      have hpath : store.statePath name = _ := statePath_eq hname
      have hcheck := hpath ▸ haccepts.check
      have hcontent := hunused.no_state fs h name ⟨hname, haccepts.short, hcheck⟩
      have hdirectory := hentry hname (hpath ▸ List.mem_cons_self) haccepts hn
      cases n with
      | file => cases hdirectory
      | link => cases hdirectory
      | special => cases hdirectory
      -- a look at a directory fails, but not because nothing is there
      | directory =>
        rw [hpath, contentAt_eq, haccepts.resolve_eq hreaches hn nofun] at hcontent
        cases hcontent
  · intro file hfile haccepts
    cases hfile with
    | report name hname =>
      refine hharmless hname ?_ haccepts
      simp [paths, reportPath_eq hname]
    | draft hfinal =>
      have hslash := hfinal.no_slash
      cases hfinal with
      | state name hname =>
        refine hharmless hname ?_ haccepts
        simp [paths, statePath_eq hname, draftPath_file hslash]
      | report name hname =>
        refine hharmless hname ?_ haccepts
        simp [paths, reportPath_eq hname, draftPath_file hslash]

/-- From an unused store on, either nothing can be kept yet, for there is no way to the directory, or
the directory keeps what it should. -/
inductive Tracks (store : Store) (before : FileSystem) (kept : Name → Option Bytes) :
    FileSystem → Prop
  | unmade {fs : FileSystem} (h : Prepared store.directory before fs)
    (hkept : ∀ name, Path.slash ∉ Utf8.encode name → kept (stateName name) = none)
    (hrefused : Refused fs.top maxLinks (start fs store.directory) (way store.directory.bytes)) :
    Tracks store before kept fs
  | made {fs : FileSystem} {links : Nat} {place : Place} (h : store.Keeps kept fs links place) :
    Tracks store before kept fs

namespace Tracks

theorem of_prepared (hunused : store.Unused before) (h : Prepared store.directory before fs)
    (hkept : ∀ name, Path.slash ∉ Utf8.encode name → kept (stateName name) = none) :
    store.Tracks before kept fs := by
  obtain ⟨links, place, hreaches⟩ | hrefused := reaches_or_refused fs.top maxLinks
    (start fs store.directory) (way store.directory.bytes)
  · exact .made ((keeps_of_reaches hunused h hreaches).congr hkept)
  · exact .unmade h hkept hrefused

theorem congr (h : store.Tracks before kept fs)
    (hkept : ∀ name, Path.slash ∉ Utf8.encode name → kept' (stateName name) = kept (stateName name)) :
    store.Tracks before kept' fs := by
  cases h with
  | unmade h hnone hrefused =>
    refine .unmade h ?_ hrefused
    intro name hname
    rw [hkept name hname, hnone name hname]
  | made h => exact .made (h.congr hkept)

theorem contentAt (hunused : store.Unused before) (h : store.Tracks before kept fs)
    (htakes : store.Takes name) :
    fs.contentAt (store.statePath name) = match kept (stateName name) with
      | none => .error .notFound
      | some content => .ok content := by
  cases h with
  | unmade h hnone _ =>
    rw [hnone name htakes.no_slash]
    exact hunused.no_state fs h name htakes
  | made h => exact h.contentAt htakes

/-- Without a way to it, a file is missing for a removal as it is for a look. -/
theorem removeFile_refused (htakes : store.Takes name)
    (hrefused : Refused fs.top maxLinks (start fs store.directory) (way store.directory.bytes))
    (hcontent : fs.contentAt (store.statePath name) = .error .notFound) :
    (FileSystem.removeFile (store.statePath name)).run fs = (.error .notFound, fs) := by
  obtain ⟨e, hrefused⟩ := hrefused
  have haccepts := Keeps.accepts_of_takes htakes
  have hresolve : ∀ purpose, fs.resolve purpose (store.statePath name) = .error e := by
    intro purpose
    have hwalk := hrefused purpose (.name (stateName name))
    rw [← haccepts.steps_eq, ← start_file haccepts.no_slash] at hwalk
    rw [statePath_eq htakes.no_slash, FileSystem.resolve, haccepts.check]
    exact hwalk
  rw [contentAt_eq, hresolve .target] at hcontent
  rw [removeFile_eq, hresolve .entry]
  cases hcontent
  rfl

theorem removeFile (hunused : store.Unused before) (h : store.Tracks before kept fs)
    (htakes : store.Takes name) :
    ∃ fs', (FileSystem.removeFile (store.statePath name)).run fs =
        (if (kept (stateName name)).isSome then .ok ⟨⟩ else .error .notFound, fs') ∧
      store.Tracks before (Function.update kept (stateName name) none) fs' := by
  have hupdate : kept (stateName name) = none →
      Function.update kept (stateName name) none = kept := by
    intro hnone
    rw [← hnone, Function.update_eq_self]
  cases h with
  | unmade h hnone hrefused =>
    have hkept := hnone name htakes.no_slash
    refine ⟨fs, ?_, (hupdate hkept).symm ▸ .unmade h hnone hrefused⟩
    rw [hkept]
    exact removeFile_refused htakes hrefused (hunused.no_state fs h name htakes)
  | made h =>
    have hremove := h.removeFile htakes
    have hholds := h.states name htakes.no_slash (Keeps.accepts_of_takes htakes)
    cases hkept : kept (stateName name) with
    | none =>
      rw [hkept] at hremove
      exact ⟨fs, hremove, (hupdate hkept).symm ▸ .made h⟩
    | some content =>
      rw [hkept] at hremove
      exact ⟨_, hremove, .made (h.set hholds (hholds.erase h.directory))⟩

section Write

variable {calls : WriteCalls} {content : Bytes} {r : Except FileSystem.Error PUnit}

theorem makeDirectories (hunused : store.Unused before) (hcalls : calls.Faulty)
    (h : store.Tracks before kept fs)
    (hrun : (calls.makeDirectories store.directory).run fs = (r, fs')) :
    store.Tracks before kept fs' := by
  have hmade : ∀ above : Path, above.Above store.directory →
      store.Tracks before kept ((FileSystem.makeDirectories above).run fs).2 := by
    intro above habove
    cases h with
    | unmade h hnone _ => exact .of_prepared hunused (h.make habove) hnone
    | made h =>
      rw [makeDirectories_above_idle h.rooted h.reaches habove]
      exact .made h
  obtain hplain | ⟨e, hnothing | ⟨above, habove, hpartly⟩⟩ :=
    hcalls.makeDirectories store.directory fs
  · have hwhole := hmade _ (.inl rfl)
    rwa [← hplain, hrun] at hwhole
  · cases hnothing.symm.trans hrun
    exact h
  · cases hpartly.symm.trans hrun
    exact hmade above habove

/-- A draft can only be written where the directory is. -/
theorem writeFile_ok (h : store.Tracks before kept fs) (hfile : Final file)
    (hrun : (FileSystem.writeFile ⟨store.folder ++ draftName file⟩ content).run fs =
      (.ok ⟨⟩, fs')) : store.Accepts (draftName file) ∧ ∃ links place,
      store.Keeps kept fs' links place ∧
      fs'.top.Holds place (draftName file) (some content) := by
  cases h with
  | unmade _ _ hrefused =>
    obtain ⟨hslash, hne, -⟩ := hfile.draftName_spec
    obtain ⟨found, -, -, -, hresolve, -, -⟩ := FileSystem.writeFile_ok hrun
    obtain ⟨-, hfollows⟩ := resolve_eq_ok.1 hresolve
    rw [steps_file hslash hne, start_file hslash] at hfollows
    obtain ⟨e, hrefused⟩ := hrefused
    cases (hrefused _ _).symm.trans hfollows.walkLinks
  | made h =>
    obtain ⟨haccepts, ⟨old?, hold⟩, rfl⟩ := h.writeFile_ok hfile hrun
    generalize hf : (⟨content, fs.clock, true⟩ : File) = f
    have hput := hold.put h.directory (f := f) (by rw [← hf])
    subst hf
    refine ⟨haccepts, _, _, (h.set hold hput).congr ?_, hput⟩
    intro name hname
    rw [Function.update_of_ne ((Final.state name hname).ne_draftName hfile)]

theorem writeFile (hcalls : calls.Faulty) (h : store.Tracks before kept fs) (hfile : Final file)
    (hrun : (calls.writeFile ⟨store.folder ++ draftName file⟩ content).run fs = (r, fs')) :
    store.Tracks before kept fs' ∧ (r = .ok ⟨⟩ → store.Accepts (draftName file) ∧
      ∃ links place, store.Keeps kept fs' links place ∧
        fs'.top.Holds place (draftName file) (some content)) := by
  have hwritten : ∀ {part : Bytes} {r fs'},
      (FileSystem.writeFile ⟨store.folder ++ draftName file⟩ part).run fs = (r, fs') →
      store.Tracks before kept fs' := by
    intro part r fs' hrun
    cases r with
    | ok =>
      obtain ⟨-, links, place, hkeeps, -⟩ := h.writeFile_ok hfile hrun
      exact .made hkeeps
    | error e => exact writeFile_error hrun ▸ h
  obtain hplain | ⟨e, hnothing | ⟨part, -, hpartly⟩⟩ :=
    hcalls.writeFile ⟨store.folder ++ draftName file⟩ content fs
  · have hrun := hplain.symm.trans hrun
    refine ⟨hwritten hrun, ?_⟩
    rintro rfl
    exact h.writeFile_ok hfile hrun
  · cases hnothing.symm.trans hrun
    exact ⟨h, nofun⟩
  · cases hpartly.symm.trans hrun
    exact ⟨hwritten rfl, nofun⟩

/-- A draft takes the final name as a whole or not at all. -/
theorem renameFile (hcalls : calls.Faulty) (h : store.Keeps kept fs links place)
    (hfile : Final file) (hdraft : store.Accepts (draftName file))
    (hholds : fs.top.Holds place (draftName file) (some content))
    (hrun : (calls.renameFile ⟨store.folder ++ draftName file⟩ ⟨store.folder ++ file⟩).run fs =
      (r, fs')) :
    (∃ e, r = .error e) ∧ store.Tracks before kept fs' ∨
      r = .ok ⟨⟩ ∧ store.Tracks before (Function.update kept file (some content)) fs' := by
  obtain hplain | ⟨e, hnothing⟩ :=
    hcalls.renameFile ⟨store.folder ++ draftName file⟩ ⟨store.folder ++ file⟩ fs
  · obtain ⟨f, hf, hreadable, rfl⟩ := hholds.get?_eq_some
    have hne : file ≠ draftName file := hfile.ne_draftName hfile
    obtain ⟨e, hfailed⟩ | ⟨⟨old?, hold⟩, hmoved⟩ := h.renameFile_cases hfile hdraft hf
    · cases (hplain.trans hfailed).symm.trans hrun
      exact .inl ⟨⟨e, rfl⟩, .made h⟩
    -- the draft is taken from its place first, and then put into the other one
    · cases (hplain.trans hmoved).symm.trans hrun
      have htaken := h.set hholds (hholds.erase h.directory)
      have hold' := hold.set_other hne none
      have hput := htaken.set hold' (hold'.put htaken.directory hreadable)
      refine .inr ⟨rfl, .made (hput.congr ?_)⟩
      intro name hname
      have hdraft := (Final.state name hname).ne_draftName hfile
      by_cases heq : stateName name = file
      · rw [heq, Function.update_self, Function.update_self]
      · rw [Function.update_of_ne heq, Function.update_of_ne heq, Function.update_of_ne hdraft]
  · cases hnothing.symm.trans hrun
    exact .inl ⟨⟨e, rfl⟩, .made h⟩

/-- A file that is written whole is kept under its name, and one that is not changes nothing. -/
theorem writeWhole (hunused : store.Unused before) (hcalls : calls.Faulty)
    (h : store.Tracks before kept fs) (hfile : Final file) {r : Except StoreError PUnit}
    (hrun : (store.writeWhole ⟨store.folder ++ file⟩ content calls).run fs = (r, fs')) :
    (∃ e, r = .error e) ∧ store.Tracks before kept fs' ∨
      r = .ok ⟨⟩ ∧ store.Tracks before (Function.update kept file (some content)) fs' := by
  unfold Store.writeWhole at hrun
  rw [draftPath_file hfile.no_slash] at hrun
  cases r with
  | ok =>
    obtain ⟨⟨⟩, made, hmake, hrun⟩ := Action.run_bind_ok.1 hrun
    obtain ⟨⟨⟩, drafted, hwrite, hrename⟩ := Action.run_bind_ok.1 hrun
    have hmade := h.makeDirectories hunused hcalls (Action.run_withError_ok.1 hmake)
    obtain ⟨-, hwritten⟩ := hmade.writeFile hcalls hfile (Action.run_withError_ok.1 hwrite)
    obtain ⟨haccepts, links, place, hkeeps, hholds⟩ := hwritten rfl
    obtain ⟨⟨e, he⟩, -⟩ | ⟨-, htracks⟩ :=
      renameFile hcalls hkeeps hfile haccepts hholds (Action.run_withError_ok.1 hrename)
    · cases he
    · exact .inr ⟨rfl, htracks⟩
  | error e =>
    refine .inl ⟨⟨e, rfl⟩, ?_⟩
    obtain hmake | ⟨⟨⟩, made, hmake, hrun⟩ := Action.run_bind_error.1 hrun
    · obtain ⟨cause, hmake, -⟩ := Action.run_withError_error.1 hmake
      exact h.makeDirectories hunused hcalls hmake
    have hmade := h.makeDirectories hunused hcalls (Action.run_withError_ok.1 hmake)
    obtain hwrite | ⟨⟨⟩, drafted, hwrite, hrename⟩ := Action.run_bind_error.1 hrun
    · obtain ⟨cause, hwrite, -⟩ := Action.run_withError_error.1 hwrite
      exact (hmade.writeFile hcalls hfile hwrite).1
    obtain ⟨-, hwritten⟩ := hmade.writeFile hcalls hfile (Action.run_withError_ok.1 hwrite)
    obtain ⟨haccepts, links, place, hkeeps, hholds⟩ := hwritten rfl
    obtain ⟨cause, hrename, -⟩ := Action.run_withError_error.1 hrename
    obtain ⟨-, htracks⟩ | ⟨he, -⟩ := renameFile hcalls hkeeps hfile haccepts hholds hrename
    · exact htracks
    · cases he

end Write

end Tracks

end Store

end BuildDelta
