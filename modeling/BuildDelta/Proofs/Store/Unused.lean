import BuildDelta.Proofs.Store.Faults
/-!
# Stores that have not been used

A store is unused when its directory is there and has no files of the store (`unused_of_vacant`), and
also when the directory is missing in one that is there (`unused_of_missing`).
-/

namespace BuildDelta

open FileSystem FileSystem.Node

namespace Store

variable {store : Store} {fs fs' : FileSystem} {links : Nat} {place : Place} {name : String}

/-- The names of all files that belong to a name. -/
def fileNames (name : String) : List Name :=
  [stateName name, reportName name, draftName (stateName name), draftName (reportName name)]

theorem exists_file_of_mem_paths {path : Path} (hname : Path.slash ∉ Utf8.encode name)
    (hpath : path ∈ store.paths name) : ∃ file ∈ fileNames name,
      path = ⟨store.folder ++ file⟩ ∧ Path.slash ∉ file ∧ file ≠ [] ∧
      (Path.Component.ofPiece file = .above ∨ Path.Component.ofPiece file = .name file) := by
  have hstate := Final.state name hname
  have hreport := Final.report name hname
  have hdraft : ∀ {file}, Final file → Path.slash ∉ draftName file ∧ draftName file ≠ [] ∧
      (Path.Component.ofPiece (draftName file) = .above ∨
        Path.Component.ofPiece (draftName file) = .name (draftName file)) := fun h =>
    ⟨h.draftName_spec.1, h.draftName_spec.2.1, h.ofPiece_draftName⟩
  simp only [paths, List.mem_cons, List.not_mem_nil, or_false] at hpath
  rw [statePath_eq hname, reportPath_eq hname, draftPath_file hstate.no_slash,
    draftPath_file hreport.no_slash] at hpath
  obtain rfl | rfl | rfl | rfl := hpath
  · exact ⟨_, by simp [fileNames], rfl, hstate.no_slash, hstate.ne_nil, .inr hstate.ofPiece_eq⟩
  · exact ⟨_, by simp [fileNames], rfl, hreport.no_slash, hreport.ne_nil, .inr hreport.ofPiece_eq⟩
  · exact ⟨_, by simp [fileNames], rfl, hdraft hstate⟩
  · exact ⟨_, by simp [fileNames], rfl, hdraft hreport⟩

/-- The directory of a store is there, and has no files of the store. -/
structure Vacant (store : Store) (fs : FileSystem) (links : Nat) (place : Place) : Prop where
  rooted : fs.top.DirectoryAt fs.workingDirectory
  reaches : Reaches fs.top maxLinks (start fs store.directory) (way store.directory.bytes) links place
  none : ∀ name, Path.slash ∉ Utf8.encode name → ∀ file ∈ fileNames name,
    fs.top.get? (place ++ [file]) = none

namespace Vacant

theorem contentAt (h : store.Vacant fs links place) (htakes : store.Takes name) :
    fs.contentAt (store.statePath name) = .error .notFound := by
  have haccepts := Keeps.accepts_of_takes htakes
  have hnone := h.none name htakes.no_slash (stateName name) List.mem_cons_self
  rw [statePath_eq htakes.no_slash, contentAt_eq, resolve_last_missing haccepts.steps_eq
    haccepts.check haccepts.short (start_file haccepts.no_slash fs ▸ h.reaches) hnone]

theorem isDirectory_of_entry (h : store.Vacant fs links place)
    (hname : Path.slash ∉ Utf8.encode name) {path : Path} (hpath : path ∈ store.paths name)
    {q : Place} {n : Node} (hresolve : fs.resolve .entry path = .ok (.node q n)) :
    n.isDirectory = true := by
  obtain ⟨file, hfile, rfl, hslash, hne, hpiece⟩ := exists_file_of_mem_paths hname hpath
  obtain ⟨-, hfollows⟩ := resolve_eq_ok.1 hresolve
  rw [steps_file hslash hne, start_file hslash, h.reaches.follows_append_iff] at hfollows
  obtain habove | hpiece := hpiece
  · have hplace := h.reaches.directoryAt (directoryAt_start h.rooted _)
    obtain ⟨d, hd, hdirectory⟩ := hplace.dropLast
    rw [habove] at hfollows
    cases hfollows with
    | above hstop =>
      cases hstop with
      | stop hn =>
        cases hd.symm.trans hn
        exact hdirectory
  · rw [hpiece] at hfollows
    obtain ⟨-, ⟨-, hmissing⟩ | ⟨m, hm, -⟩⟩ := hfollows.last fun _ _ => rfl
    · cases hmissing
    · cases (h.none name hname file hfile).symm.trans hm

end Vacant

theorem unused_of_vacant (h : store.Vacant fs links place) : store.Unused fs := by
  have hprepared : ∀ fs', Prepared store.directory fs fs' → fs' = fs := by
    intro fs' hprepared
    induction hprepared with
    | refl => rfl
    | make _ habove ih =>
      rw [ih]
      exact makeDirectories_above_idle h.rooted h.reaches habove
  refine ⟨h.rooted, ?_, ?_⟩
  · intro fs' hfs' name htakes
    cases hprepared fs' hfs'
    exact h.contentAt htakes
  · intro fs' hfs' name hname path hpath q n hresolve
    cases hprepared fs' hfs'
    exact h.isDirectory_of_entry hname hpath hresolve

section Missing

variable {parent : Place} {way : List Step} {n : Name}

/-- A directory that is missing in one that is there is made there, or nothing is. -/
theorem makeDirectories_missing {p : Path}
    (hway : FileSystem.way p.bytes = way ++ [.component (.name n)]) (hn : n.length ≤ maxNameLength)
    (hreaches : Reaches fs.top maxLinks (start fs p) way links parent)
    (hmissing : fs.top.get? (parent ++ [n]) = none) :
    ((makeDirectories p).run fs).2 = fs ∨
      ((makeDirectories p).run fs).2 = fs.withNode parent n (some .emptyDirectory) := by
  have hne : trimSlashes p ≠ ⟨[]⟩ := by
    intro hnil
    have hsteps := steps_trimSlashes p
    rw [hnil, hway] at hsteps
    cases way <;> cases hsteps
  have hbytes : p.bytes ≠ [] := by
    intro hnil
    rw [hnil] at hway
    cases way <;> cases hway
  have htrimmed : (trimSlashes p).bytes ≠ [] := fun hnil => hne (congrArg Path.mk hnil)
  have hstart : start fs (trimSlashes p) = start fs p := by
    rw [start, start, isAbsolute_trimSlashes hne]
  have hmake : (∃ e, (makeDirectory p).run fs = (.error e, fs) ∧ e ≠ .notFound) ∨
      (makeDirectory p).run fs = (.ok ⟨⟩, fs.withNode parent n (some .emptyDirectory)) := by
    unfold makeDirectory
    rw [Action.run_bind, Action.run_ask]
    cases hcheck : checkPath p with
    | error e => exact .inl ⟨e, rfl, ne_notFound_of_checkPath hbytes hcheck⟩
    | ok =>
      simp only
      rw [Action.run_bind, Action.run_ask, if_neg hne]
      cases hcheck' : checkPath (trimSlashes p) with
      | error e =>
        refine .inl ⟨e, ?_, ne_notFound_of_checkPath htrimmed hcheck'⟩
        rw [FileSystem.resolve, hcheck']
        rfl
      | ok =>
        rw [resolve_last_missing ((steps_trimSlashes p).trans hway) hcheck' hn
          (hstart.symm ▸ hreaches) hmissing]
        exact .inr rfl
  obtain ⟨e, hmake, he⟩ | hmake := hmake
  · exact .inl (makeDirectories_of_error hmake he)
  · refine .inr ?_
    rw [makeDirectories, if_neg (by simpa using hbytes), makeWith, Action.run_bind,
      Action.run_attempt, hmake]
    rfl

/-- Making a missing directory, or one above it, makes that one directory or nothing. -/
theorem makeDirectories_above_missing {above : Path}
    (hrooted : fs.top.DirectoryAt fs.workingDirectory)
    (hway : FileSystem.way store.directory.bytes = way ++ [.component (.name n)])
    (hn : n.length ≤ maxNameLength)
    (hreaches : Reaches fs.top maxLinks (start fs store.directory) way links parent)
    (hmissing : fs.top.get? (parent ++ [n]) = none) (habove : above.Above store.directory) :
    ((makeDirectories above).run fs).2 = fs ∨
      ((makeDirectories above).run fs).2 = fs.withNode parent n (some .emptyDirectory) := by
  by_cases hempty : above.bytes = []
  · rw [makeDirectories, if_pos (List.isEmpty_iff.2 hempty)]
    exact .inl rfl
  have hstart := start_above habove hempty fs
  -- either this is the missing directory itself, or its way is a part of the one that is open
  obtain ⟨rest, hrest⟩ : ∃ rest, FileSystem.way store.directory.bytes =
      FileSystem.way above.bytes ++ rest := by
    obtain rfl | ⟨rest, hrest⟩ := habove
    · exact ⟨[], (List.append_nil _).symm⟩
    · exact ⟨FileSystem.way rest, by rw [hrest, way_append_slash]⟩
  cases List.eq_nil_or_concat rest with
  | inl hnil =>
    rw [hnil, List.append_nil] at hrest
    exact makeDirectories_missing (hrest.symm.trans hway) hn (hstart.symm ▸ hreaches) hmissing
  | inr hconcat =>
    obtain ⟨rest', last, rfl⟩ := hconcat
    rw [hway, List.concat_eq_append, ← List.append_assoc] at hrest
    obtain ⟨hbefore, -⟩ := List.append_inj' hrest rfl
    rw [hbefore] at hreaches
    obtain ⟨links', place, hreaches⟩ := hreaches.of_append
    rw [← hstart] at hreaches
    exact .inl (makeDirectories_idle hreaches
      (hreaches.directoryAt (Store.directoryAt_start hrooted above)))

/-- Until the directory is made, every path in it is refused as missing. -/
theorem resolve_missing (hway : FileSystem.way store.directory.bytes = way ++ [.component (.name n)])
    (hn : n.length ≤ maxNameLength)
    (hreaches : Reaches fs.top maxLinks (start fs store.directory) way links parent)
    (hmissing : fs.top.get? (parent ++ [n]) = none) {file : Name} (hslash : Path.slash ∉ file)
    (hne : file ≠ []) {purpose : Purpose} :
    (∀ found, fs.resolve purpose ⟨store.folder ++ file⟩ ≠ .ok found) ∧
      (checkPath ⟨store.folder ++ file⟩ = .ok () →
        fs.resolve purpose ⟨store.folder ++ file⟩ = .error .notFound) := by
  have hwalk : walkLinks fs.top purpose maxLinks (start fs ⟨store.folder ++ file⟩)
      (steps (store.folder ++ file)) = .error .notFound := by
    rw [steps_file hslash hne, start_file hslash, hway, List.append_assoc,
      hreaches.walkLinks_append_steps, walkLinks_eq, List.singleton_append, walk,
      if_neg (by simp), if_neg (Nat.not_lt.2 hn), hmissing]
    rfl
  unfold FileSystem.resolve
  cases checkPath ⟨store.folder ++ file⟩ with
  | error e =>
    refine ⟨?_, ?_⟩
    · intro found hfound
      cases hfound
    · intro hok
      cases hok
  | ok =>
    refine ⟨?_, fun _ => hwalk⟩
    intro found hfound
    cases hwalk.symm.trans hfound

theorem unused_of_missing (hrooted : fs.top.DirectoryAt fs.workingDirectory)
    (hway : FileSystem.way store.directory.bytes = way ++ [.component (.name n)])
    (hn : n.length ≤ maxNameLength)
    (hreaches : Reaches fs.top maxLinks (start fs store.directory) way links parent)
    (hmissing : fs.top.get? (parent ++ [n]) = none) : store.Unused fs := by
  have hparent := hreaches.directoryAt (directoryAt_start hrooted store.directory)
  have hgrows := grows_set hmissing (some .emptyDirectory)
  have hmade : (fs.top.set n (some .emptyDirectory) parent).get? (parent ++ [n]) =
      some .emptyDirectory := get?_set_self hparent _
  have hvacant : store.Vacant (fs.withNode parent n (some .emptyDirectory)) links (parent ++ [n]) := by
    refine ⟨hgrows.directory _ hrooted, ?_, ?_⟩
    · rw [hway]
      have hstep : Reaches (fs.top.set n (some .emptyDirectory) parent) links (parent ++ [n]) []
          links (parent ++ [n]) := .stay _ _
      exact (hreaches.mono hgrows.toKeepsWays).append (.directory hn ⟨_, hmade, rfl⟩ hstep)
    · intro name _ file _
      refine (get?_append (parent ++ [n]) [file] _).trans ?_
      rw [withNode, hmade]
      rfl
  have hprepared : ∀ fs', Prepared store.directory fs fs' →
      fs' = fs ∨ fs' = fs.withNode parent n (some .emptyDirectory) := by
    intro fs' hprepared
    induction hprepared with
    | refl => exact .inl rfl
    | make _ habove ih =>
      obtain rfl | rfl := ih
      · exact makeDirectories_above_missing hrooted hway hn hreaches hmissing habove
      · exact .inr (makeDirectories_above_idle hvacant.rooted hvacant.reaches habove)
  refine ⟨hrooted, ?_, ?_⟩
  · intro fs' hfs' name htakes
    obtain rfl | rfl := hprepared fs' hfs'
    · have hfinal := Final.state name htakes.no_slash
      have hcheck := htakes.check
      rw [statePath_eq htakes.no_slash] at hcheck ⊢
      rw [contentAt_eq, (resolve_missing hway hn hreaches hmissing hfinal.no_slash
        hfinal.ne_nil).2 hcheck]
    · exact hvacant.contentAt htakes
  · intro fs' hfs' name hname path hpath q m hresolve
    obtain rfl | rfl := hprepared fs' hfs'
    · obtain ⟨file, -, rfl, hslash, hne, -⟩ := exists_file_of_mem_paths hname hpath
      exact absurd hresolve ((resolve_missing hway hn hreaches hmissing hslash hne).1 _)
    · exact hvacant.isDirectory_of_entry hname hpath hresolve

end Missing

end Store

end BuildDelta
