import BuildDelta.Proofs.FileSystem.Existing
import BuildDelta.Proofs.Text.Utf8
import BuildDelta.Store
/-!
# The names in a store's directory

States, reports and drafts are all in one directory, and every path of theirs is the directory part
followed by a name (`join_file`, `draftPath_file`). A draft may share its name with the draft of
another file, but never with a state or a report: it is the directory above or ends in an extension of
its own (`Final.ne_draftName`).
-/

namespace BuildDelta

open FileSystem

namespace Store

/-- The directory part of the paths in a store. -/
def folder (store : Store) : Bytes :=
  if store.directory.bytes = [] then []
  else if store.directory.bytes.getLast? = some Path.slash then store.directory.bytes
  else store.directory.bytes ++ [Path.slash]

variable {store : Store} {file : Name}

theorem closed_folder (store : Store) : Path.Closed store.folder := by
  unfold folder
  split
  · exact .inl rfl
  split
  · rename_i hlast
    exact .inr (List.getLast?_eq_some_iff.1 hlast)
  · exact .inr ⟨store.directory.bytes, rfl⟩

theorem isAbsolute_of_no_slash (h : Path.slash ∉ file) : Path.isAbsolute ⟨file⟩ = false := by
  cases file with
  | nil => rfl
  | cons b file =>
    have hb : b ≠ Path.slash := fun heq => h (heq ▸ List.mem_cons_self)
    simp [Path.isAbsolute, hb]

theorem join_file (h : Path.slash ∉ file) :
    store.directory.join ⟨file⟩ = ⟨store.folder ++ file⟩ := by
  unfold Path.join folder
  rw [isAbsolute_of_no_slash h, Bool.false_or]
  by_cases hempty : store.directory.bytes = []
  · simp [hempty]
  by_cases hlast : store.directory.bytes.getLast? = some Path.slash
  · simp [hempty, hlast]
  · simp [hempty, hlast]

theorem way_folder (store : Store) : way store.folder = way store.directory.bytes := by
  unfold folder
  split
  · rename_i hempty
    rw [hempty]
  split
  · rfl
  · exact way_append_slashes store.directory.bytes 1

theorem steps_file (h : Path.slash ∉ file) (hne : file ≠ []) :
    steps (store.folder ++ file) =
      way store.directory.bytes ++ [.component (.ofPiece file)] := by
  rw [steps_append store.closed_folder h hne, way_folder]

theorem start_file (h : Path.slash ∉ file) (fs : FileSystem) :
    start fs ⟨store.folder ++ file⟩ = start fs store.directory := by
  have habsolute : Path.isAbsolute ⟨store.folder⟩ = store.directory.isAbsolute := by
    unfold folder
    split
    · rename_i hempty
      rw [Path.isAbsolute, Path.isAbsolute, hempty]
    split
    · rfl
    · rename_i hempty _
      rw [Path.isAbsolute, Path.isAbsolute, List.head?_append, List.head?_eq_some_head hempty]
      rfl
  rw [start, start, isAbsolute_append h, habsolute]

theorem getLast?_append_dot {extension : Bytes} {b : UInt8} (h : extension.getLast? = some b)
    (stem : Bytes) : (stem ++ Path.dot :: extension).getLast? = some b := by
  rw [List.getLast?_append, List.getLast?_cons, h]
  rfl

def stateName (name : String) : Name := Utf8.encode (name ++ ".snapshot")

def reportName (name : String) : Name := Utf8.encode (name ++ ".diff.json")

def draftName (file : Name) : Name := Path.renamed file (Utf8.encode "tmp")

theorem draftPath_file (h : Path.slash ∉ file) :
    draftPath ⟨store.folder ++ file⟩ = ⟨store.folder ++ draftName file⟩ := by
  have hfile : ∀ b ∈ file.reverse, decide (b ≠ Path.slash) = true := by
    intro b hb
    rw [List.mem_reverse] at hb
    exact decide_eq_true fun heq => h (heq ▸ hb)
  unfold draftPath Path.withExtension
  simp only [List.reverse_append]
  rw [List.takeWhile_append_of_pos hfile, List.dropWhile_append_of_pos hfile]
  obtain hnil | ⟨before, hbefore⟩ := store.closed_folder
  · simp [hnil, draftName]
  · simp [hbefore, draftName]

/-- The names under which the system takes states: without a slash, and short enough, with the path to
the state, for a file. -/
structure Takes (store : Store) (name : String) : Prop where
  no_slash : Path.slash ∉ Utf8.encode name
  short : (Utf8.encode (name ++ ".snapshot")).length ≤ maxNameLength
  check : checkPath (store.statePath name) = .ok ()

/-- The names of states and reports, whose names have no slash. -/
inductive Final : Name → Prop
  | state (name : String) (h : Path.slash ∉ Utf8.encode name) : Final (stateName name)
  | report (name : String) (h : Path.slash ∉ Utf8.encode name) : Final (reportName name)

theorem stateName_eq (name : String) :
    stateName name = Utf8.encode name ++ Path.dot :: Utf8.encode "snapshot" :=
  Utf8.encode_append name ".snapshot"

theorem reportName_eq (name : String) : reportName name =
    (Utf8.encode name ++ Utf8.encode ".diff") ++ Path.dot :: Utf8.encode "json" := by
  rw [List.append_assoc]
  exact Utf8.encode_append name ".diff.json"

theorem stateName_ne_reportName (name other : String) : stateName name ≠ reportName other := by
  intro heq
  have hstate : (stateName name).getLast? = some 0x74 :=
    stateName_eq name ▸ getLast?_append_dot (by decide +kernel) _
  have hreport : (reportName other).getLast? = some 0x6E :=
    reportName_eq other ▸ getLast?_append_dot (by decide +kernel) _
  rw [heq] at hstate
  cases hstate.symm.trans hreport

theorem stateName_injective {name other : String} (h : stateName name = stateName other) :
    name = other := by
  rw [stateName_eq, stateName_eq] at h
  exact Utf8.encode_injective (List.append_cancel_right h)

theorem Final.exists_extension (h : Final file) : ∃ stem extension, file =
    stem ++ Path.dot :: extension ∧ Path.slash ∉ stem ++ Path.dot :: extension ∧
      (extension = Utf8.encode "snapshot" ∨ extension = Utf8.encode "json") := by
  have hsnapshot : Path.slash ∉ Path.dot :: Utf8.encode "snapshot" := by decide +kernel
  have hdiff : Path.slash ∉ Utf8.encode ".diff" := by decide +kernel
  have hjson : Path.slash ∉ Path.dot :: Utf8.encode "json" := by decide +kernel
  cases h with
  | state name h =>
    refine ⟨_, _, stateName_eq name, ?_, .inl rfl⟩
    rw [List.mem_append, not_or]
    exact ⟨h, hsnapshot⟩
  | report name h =>
    refine ⟨_, _, reportName_eq name, ?_, .inr rfl⟩
    rw [List.mem_append, List.mem_append, not_or, not_or]
    exact ⟨⟨h, hdiff⟩, hjson⟩

theorem Final.no_slash (h : Final file) : Path.slash ∉ file := by
  obtain ⟨stem, extension, rfl, hslash, -⟩ := h.exists_extension
  exact hslash

theorem statePath_eq {name : String} (h : Path.slash ∉ Utf8.encode name) :
    store.statePath name = ⟨store.folder ++ stateName name⟩ :=
  join_file (Final.state name h).no_slash

theorem reportPath_eq {name : String} (h : Path.slash ∉ Utf8.encode name) :
    store.reportPath name = ⟨store.folder ++ reportName name⟩ :=
  join_file (Final.report name h).no_slash

theorem Final.ne_nil (h : Final file) : file ≠ [] := by
  obtain ⟨stem, extension, rfl, -, -⟩ := h.exists_extension
  exact List.append_ne_nil_of_right_ne_nil stem (List.cons_ne_nil _ _)

theorem Final.ofPiece_eq (h : Final file) : Path.Component.ofPiece file = .name file := by
  obtain ⟨stem, extension, rfl, -, rfl | rfl⟩ := h.exists_extension
  · exact Path.ofPiece_append_dot (by decide +kernel) stem
  · exact Path.ofPiece_append_dot (by decide +kernel) stem

theorem Final.draftName_spec (h : Final file) : Path.slash ∉ draftName file ∧ draftName file ≠ [] ∧
    ∃ last, Path.Component.ofPiece (draftName file) = last ∧
      (last = .above ∨ ∃ n, last = .name n ∧ n ≠ file) := by
  obtain ⟨stem, extension, rfl, hslash, rfl | rfl⟩ := h.exists_extension
  · apply Path.ofPiece_renamed ?_ hslash
    all_goals decide +kernel
  · apply Path.ofPiece_renamed ?_ hslash
    all_goals decide +kernel

/-- A draft is beside its file, or is no file at all. -/
theorem Final.ofPiece_draftName (h : Final file) :
    Path.Component.ofPiece (draftName file) = .above ∨
      Path.Component.ofPiece (draftName file) = .name (draftName file) := by
  obtain ⟨-, -, last, hpiece, rfl | ⟨n, rfl, -⟩⟩ := h.draftName_spec
  · exact .inl hpiece
  · refine .inr ?_
    unfold Path.Component.ofPiece at hpiece ⊢
    split at hpiece
    · cases hpiece
    split at hpiece
    · cases hpiece
    rename_i hhere habove
    rw [if_neg hhere, if_neg habove]

theorem Final.ne_draftName {other : Name} (h : Final file) (hother : Final other) :
    file ≠ draftName other := by
  have hfile : file.getLast? = some 0x74 ∨ file.getLast? = some 0x6E := by
    obtain ⟨stem, extension, rfl, -, rfl | rfl⟩ := h.exists_extension
    · exact .inl (getLast?_append_dot (by decide +kernel) stem)
    · exact .inr (getLast?_append_dot (by decide +kernel) stem)
  have hdraft : (draftName other).getLast? = some 0x2E ∨ (draftName other).getLast? = some 0x70 := by
    obtain ⟨stem, extension, rfl, -, hextension⟩ := hother.exists_extension
    have hdot : Path.dot ∉ extension := by
      obtain rfl | rfl := hextension
      all_goals decide +kernel
    obtain habove | ⟨stem', hstem, -⟩ := Path.renamed_cases hdot (Utf8.encode "tmp")
    · exact .inl (congrArg List.getLast? habove)
    · exact .inr ((congrArg List.getLast? hstem).trans
        (getLast?_append_dot (by decide +kernel) stem'))
  intro heq
  rw [heq] at hfile
  obtain hfile | hfile := hfile <;> obtain hdraft | hdraft := hdraft <;>
    cases hfile.symm.trans hdraft

end Store

end BuildDelta
