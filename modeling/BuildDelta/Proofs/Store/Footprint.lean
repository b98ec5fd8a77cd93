import BuildDelta.Proofs.FileSystem.Looked
import BuildDelta.Proofs.FileSystem.Making
import BuildDelta.Proofs.PathFilter
import BuildDelta.Proofs.Store.Folder
import BuildDelta.Proofs.Store.Save
/-!
# What a save leaves behind

A save that succeeds changes the state and its draft, which have places of their own
(`Store.ownPlaces`), and it may have made directories for them. At every other place the tree looks as
it did before (`footprint_of_writeWhole`).
-/

namespace BuildDelta

open FileSystem FileSystem.Node

namespace Store

/-- The places of a state that is there and of its draft. -/
def ownPlaces (store : Store) (name : String) (fs : FileSystem) : List Place :=
  match fs.resolve .entry (store.statePath name) with
  | .ok (.node place _) => [place, place.dropLast ++ [draftName (stateName name)]]
  | _ => []

variable {store : Store} {fs fs' : FileSystem} {file : Name} {name : String}

/-- A draft is looked up where its file is. -/
theorem Final.exists_beside (h : Final file) (store : Store) : ∃ last, last = .ofPiece (draftName file) ∧
    Beside ⟨store.folder ++ file⟩ (draftPath ⟨store.folder ++ file⟩) (way store.directory.bytes) file
      last := by
  obtain ⟨hslash, hne, last, hlast, hcases⟩ := h.draftName_spec
  refine ⟨last, hlast.symm, ?_, ?_, ?_, hcases⟩
  · rw [steps_file h.no_slash h.ne_nil, h.ofPiece_eq]
  · rw [draftPath_file h.no_slash, steps_file hslash hne, hlast]
  · rw [draftPath_file h.no_slash, isAbsolute_append hslash, isAbsolute_append h.no_slash]

theorem Final.draft_eq (h : Final file) {draft : Name}
    (hdraft : .name draft = Path.Component.ofPiece (draftName file)) : draft = draftName file := by
  obtain habove | hname := h.ofPiece_draftName
  · cases hdraft.trans habove
  · exact Path.Component.name.inj (hdraft.trans hname)

namespace Written

variable {path : Path} {way : List Step} {state draft : Name} {f : File} {links : Nat} {place q : Place}
  (h : Written path way state draft f fs fs' links place)
include h

theorem get?_draft (hn : fs.top.WellNamed) (hdraft : draft.Valid) :
    fs'.top.get? (place ++ [draft]) = none := by
  have hdrafted : (fs.top.set draft (some (.file f)) place).WellNamed := by
    refine hn.set hdraft ?_
    rintro _ ⟨⟩
    exact wellNamed_file f
  rw [h.tree_eq]
  exact (get?_set_other h.draft_ne _ _).trans hdrafted.get?_removed

theorem wellNamed (hn : fs.top.WellNamed) (hdraft : draft.Valid) (hstate : state.Valid) :
    fs'.top.WellNamed := by
  have hfile : ∀ n, some (Node.file f) = some n → n.WellNamed := by
    rintro _ ⟨⟩
    exact wellNamed_file f
  have hnone : ∀ n : Node, none = some n → n.WellNamed := by
    rintro _ ⟨⟩
  rw [h.tree_eq]
  exact ((hn.set hdraft hfile).set hdraft hnone).set hstate hfile

/-- Apart from the draft and the state, everything looks as before. -/
theorem face?_eq (hn : fs.top.WellNamed) (hdraft : draft.Valid) (hstate : q ≠ place ++ [state])
    (hq : q ≠ place ++ [draft]) : fs'.top.face? q = fs.top.face? q := by
  have hbelow : ∀ other, (∀ n, fs.top.get? (place ++ [other]) = some n → n.isDirectory = false) →
      (∀ n, fs'.top.get? (place ++ [other]) = some n → n.isDirectory = false) →
      place ++ [other] <+: q → q ≠ place ++ [other] → fs'.top.face? q = fs.top.face? q := by
    intro other hbefore hafter hprefix hne
    rw [face?, face?, get?_eq_none_of_leaf hbefore hprefix hne,
      get?_eq_none_of_leaf hafter hprefix hne]
  by_cases hbelowState : place ++ [state] <+: q
  · refine hbelow state h.no_directory ?_ hbelowState hstate
    intro n hn
    cases h.get?_state.symm.trans hn
    rfl
  by_cases hbelowDraft : place ++ [draft] <+: q
  · refine hbelow draft (fun n => h.draft_plain.isDirectory_eq_false) ?_ hbelowDraft hq
    intro n hn'
    cases (h.get?_draft hn hdraft).symm.trans hn'
  rw [h.tree_eq]
  exact (face?_set hbelowState _ _).trans
    ((face?_set hbelowDraft _ _).trans (face?_set hbelowDraft _ _))

end Written

theorem ownPlaces_eq {links : Nat} {place : Place} {f : File} {way : List Step} {draft : Name}
    (hsteps : steps (store.statePath name).bytes = way ++ [.component (.name (stateName name))])
    (h : Written (store.statePath name) way (stateName name) draft f fs fs' links place) :
    store.ownPlaces name fs' =
      [place ++ [stateName name], place ++ [draftName (stateName name)]] := by
  rw [ownPlaces, h.resolve_eq hsteps .entry]
  simp only [List.dropLast_concat]

/-- A state and its draft have names of their own. -/
theorem exists_of_mem_ownPlaces {q : Place} (hname : Path.slash ∉ Utf8.encode name)
    (h : q ∈ store.ownPlaces name fs) : ∃ parent,
      q = parent ++ [stateName name] ∨ q = parent ++ [draftName (stateName name)] := by
  have hfinal : Final (stateName name) := .state name hname
  obtain ⟨last, -, hbeside⟩ := hfinal.exists_beside store
  rw [← statePath_eq hname] at hbeside
  unfold ownPlaces at h
  split at h
  · rename_i place n hresolve
    obtain ⟨-, hfollows⟩ := resolve_eq_ok.1 hresolve
    rw [hbeside.steps] at hfollows
    obtain ⟨links, parent, hreaches⟩ := hfollows.exists_reaches
    obtain ⟨-, -, ⟨-, hmissing⟩ | ⟨m, -, hnode⟩⟩ :=
      resolve_entry_cases hbeside.steps hreaches hresolve
    · cases hmissing
    · obtain ⟨rfl, -⟩ := Found.node.inj hnode
      rw [List.dropLast_concat] at h
      simp only [List.mem_cons, List.not_mem_nil, or_false] at h
      exact ⟨parent, h⟩
  · cases h

/-- The extension of a state or a draft, if it has one. -/
theorem extension_of_own {extension : Bytes} (hfile : file.Valid)
    (h : file = stateName name ∨ file = draftName (stateName name))
    (hextension : (Path.splitExtension file).2 = some extension) :
    extension = Utf8.encode "snapshot" ∨ extension = Utf8.encode "tmp" := by
  have hsnapshot : Path.dot ∉ Utf8.encode "snapshot" := by decide +kernel
  have htmp : Path.dot ∉ Utf8.encode "tmp" := by decide +kernel
  have hcases : ∀ stem last, Path.dot ∉ last → file = stem ++ Path.dot :: last → extension = last := by
    rintro stem last hlast rfl
    obtain hnone | hsome := Path.splitExtension_append_dot hlast stem
    · cases hnone.symm.trans hextension
    · exact Option.some.inj (hextension.symm.trans hsome)
  obtain hstate | hdraft := h
  · exact .inl (hcases _ _ hsnapshot (hstate.trans (stateName_eq name)))
  · rw [draftName, stateName_eq] at hdraft
    obtain habove | ⟨stem, hstem, -⟩ :=
      @Path.renamed_cases (Utf8.encode name) _ hsnapshot (Utf8.encode "tmp")
    · exact absurd (hdraft.trans habove) hfile.ne_above
    · exact .inr (hcases _ _ htmp (hdraft.trans hstem))

/-- A save that succeeds has changed nothing but what is its own. -/
theorem footprint_of_writeWhole {content : Bytes} (hname : Path.slash ∉ Utf8.encode name)
    (hn : fs.top.WellNamed)
    (hclear : ClearToWrite (store.statePath name) ((makeDirectories store.directory).run fs).2)
    (h : (store.writeWhole (store.statePath name) content).run fs = (.ok ⟨⟩, fs')) :
    Footprint (store.ownPlaces name fs') fs fs' := by
  have hfinal : Final (stateName name) := .state name hname
  obtain ⟨last, hlast, hbeside⟩ := hfinal.exists_beside store
  rw [← statePath_eq hname] at hbeside
  obtain ⟨draft, f, links, place, rfl, -, hreadable, hwritten⟩ :=
    exists_written_of_writeWhole hbeside hclear h
  obtain rfl := hfinal.draft_eq hlast
  have hown := ownPlaces_eq hbeside.steps hwritten
  have hmade := makeDirectories_made store.directory fs
  have hnamed := hmade.wellNamed hn
  have hdraft : (draftName (stateName name)).Valid :=
    validNames_steps (draftPath (store.statePath name)).bytes _ (by simp [hbeside.steps_beside])
  have hstate : (stateName name).Valid :=
    validNames_steps (store.statePath name).bytes _ (by simp [hbeside.steps])
  have howned : ∀ q ∈ store.ownPlaces name fs', ∀ n, fs'.top.get? q = some n →
      ∃ f, n = .file f ∧ f.readable = true := by
    intro q hq n hn
    simp only [hown, List.mem_cons, List.not_mem_nil, or_false] at hq
    obtain rfl | rfl := hq
    · cases hwritten.get?_state.symm.trans hn
      exact ⟨f, rfl, hreadable⟩
    · cases (hwritten.get?_draft hnamed hdraft).symm.trans hn
  have helsewhere : ∀ q, q ∉ store.ownPlaces name fs' → fs'.top.face? q = fs.top.face? q ∨
      fs.top.get? q = none ∧ fs'.top.face? q = some .emptyDirectory := by
    intro q hq
    simp only [hown, List.mem_cons, List.not_mem_nil, or_false, not_or] at hq
    rw [hwritten.face?_eq hnamed hdraft hq.1 hq.2]
    exact hmade.face?_cases q
  refine ⟨?_, hwritten.wellNamed hnamed hdraft hstate, howned, ?_, ?_⟩
  · rw [hwritten.tree_eq]
    exact hmade.workingDirectory
  · intro q readable entries hnone hdirectory
    have hq : q ∉ store.ownPlaces name fs' := by
      intro hq
      obtain ⟨f, hf, -⟩ := howned q hq _ hdirectory
      cases hf
    obtain hsame | ⟨-, hempty⟩ := helsewhere q hq
    · cases (get?_of_face?_none hsame hnone).symm.trans hdirectory
    · rw [face?, hdirectory] at hempty
      exact (Node.directory.inj (Option.some.inj hempty)).1
  · intro q hq
    rw [Touched, not_or] at hq
    obtain hsame | ⟨hnone, hempty⟩ := helsewhere q hq.1
    · exact hsame
    · refine absurd ⟨hnone, ?_⟩ hq.2
      obtain ⟨d, hd, hface⟩ := Option.map_eq_some_iff.1 hempty
      exact ⟨d, hd, by rw [← isDirectory_face, hface]; rfl⟩

end Store

end BuildDelta
