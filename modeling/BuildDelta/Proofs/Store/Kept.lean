import BuildDelta.Proofs.FileSystem.Directory
import BuildDelta.Proofs.Store.Folder
import BuildDelta.Proofs.Store.Save
import Mathlib.Logic.Function.Basic
/-!
# What a store's directory keeps

While a store is used, its directory holds under the name of each state one readable file or nothing,
and under the names of reports and drafts nothing that a write could go astray by (`Keeps`). One
exchange of a file in the directory keeps that up (`Keeps.set`), and every call that a store makes comes
down to such exchanges: a draft is written in its own place (`Keeps.writeFile_ok`), a rename takes it
from there and puts it under the final name (`Keeps.renameFile_cases`), and a removal clears a name
(`Keeps.removeFile`). What is read under a name is what is kept there (`Keeps.contentAt`).
-/

namespace BuildDelta

open FileSystem FileSystem.Node

namespace FileSystem.Node

variable {top : Node} {place : Place} {name other : Name} {content? : Option Bytes}

/-- A directory has this content under a name, in a single file that can be read, or it has nothing
there. -/
def Holds (top : Node) (place : Place) (name : Name) : Option Bytes → Prop
  | none => top.under place name = []
  | some content =>
    ∃ f, top.under place name = [.file f] ∧ f.readable = true ∧ f.content = content

/-- Nothing can be written through this name to another place. -/
def Harmless (top : Node) (place : Place) (name : Name) : Prop :=
  (∃ d, top.get? (place ++ [name]) = some d ∧ d.isDirectory = true) ∨
    ∃ content?, top.Holds place name content?

theorem holds_none : top.Holds place name none ↔ top.get? (place ++ [name]) = none :=
  under_eq_nil_iff

theorem Holds.get?_eq_some {content : Bytes} (h : top.Holds place name (some content)) :
    ∃ f, top.get? (place ++ [name]) = some (.file f) ∧ f.readable = true ∧ f.content = content := by
  obtain ⟨f, hunder, hf⟩ := h
  exact ⟨f, by rw [get?_concat, hunder, List.head?_cons], hf⟩

theorem Holds.plainAt (h : top.Holds place name content?) : top.PlainAt (place ++ [name]) := by
  cases content? with
  | none =>
    intro n hn
    cases (holds_none.1 h).symm.trans hn
  | some content =>
    obtain ⟨f, hf, -⟩ := h.get?_eq_some
    exact plainAt_of_file hf

theorem Holds.erase (h : top.Holds place name content?) (hplace : top.DirectoryAt place) :
    (top.set name none place).Holds place name none := by
  have hset : (top.set name none place).under place name = (top.under place name).tail :=
    under_set_self hplace none
  cases content? with
  | none => exact hset.trans (congrArg List.tail h)
  | some content =>
    obtain ⟨f, hunder, -⟩ := h
    exact hset.trans (congrArg List.tail hunder)

theorem Holds.put (h : top.Holds place name content?) (hplace : top.DirectoryAt place) {f : File}
    (hf : f.readable = true) :
    (top.set name (some (.file f)) place).Holds place name (some f.content) := by
  have hset : (top.set name (some (.file f)) place).under place name =
      .file f :: (top.under place name).tail := under_set_self hplace _
  refine ⟨f, hset.trans ?_, hf, rfl⟩
  cases content? with
  | none => rw [h]; rfl
  | some content =>
    obtain ⟨f, hunder, -⟩ := h
    rw [hunder]
    rfl

theorem Holds.set_other (h : top.Holds place other content?) (hne : other ≠ name)
    (n? : Option Node) : (top.set name n? place).Holds place other content? := by
  cases content? with
  | none => exact (under_set_other hne n? top).trans h
  | some content =>
    obtain ⟨f, hunder, hf⟩ := h
    exact ⟨f, (under_set_other hne n? top).trans hunder, hf⟩

theorem Harmless.set_other (h : top.Harmless place other) (hne : other ≠ name)
    (n? : Option Node) : (top.set name n? place).Harmless place other := by
  obtain ⟨d, hd, hdirectory⟩ | ⟨content?, hholds⟩ := h
  · exact .inl ⟨d, (get?_set_other hne n? top).trans hd, hdirectory⟩
  · exact .inr ⟨content?, hholds.set_other hne n?⟩

end FileSystem.Node

namespace Store

/-- The names of reports and drafts. -/
inductive Aside : Name → Prop
  | report (name : String) (h : Path.slash ∉ Utf8.encode name) : Aside (reportName name)
  | draft {file : Name} (h : Final file) : Aside (draftName file)

/-- What the system takes as the name of a file in a store's directory. -/
structure Accepts (store : Store) (file : Name) : Prop where
  no_slash : Path.slash ∉ file
  ne_nil : file ≠ []
  piece : Path.Component.ofPiece file = .name file
  short : file.length ≤ maxNameLength
  check : checkPath ⟨store.folder ++ file⟩ = .ok ()

theorem Accepts.steps_eq {store : Store} {file : Name} (h : store.Accepts file) :
    steps (store.folder ++ file) = way store.directory.bytes ++ [.component (.name file)] := by
  rw [steps_file h.no_slash h.ne_nil, h.piece]

theorem Accepts.resolve_eq {store : Store} {file : Name} {fs : FileSystem} {links : Nat}
    {place : Place} {purpose : Purpose} {n : Node} (h : store.Accepts file)
    (hreaches : Reaches fs.top maxLinks (start fs store.directory) (way store.directory.bytes)
      links place) (hn : fs.top.get? (place ++ [file]) = some n)
    (hlink : ∀ target, n = .link target → purpose = .entry) :
    fs.resolve purpose ⟨store.folder ++ file⟩ = .ok (.node (place ++ [file]) n) :=
  resolve_last h.steps_eq h.check h.short (start_file h.no_slash fs ▸ hreaches) hn hlink

/-- The way to a store's directory ends in this place, and the states there are those. -/
structure Keeps (store : Store) (kept : Name → Option Bytes) (fs : FileSystem) (links : Nat)
    (place : Place) : Prop where
  reaches : Reaches fs.top maxLinks (start fs store.directory) (way store.directory.bytes) links place
  rooted : fs.top.DirectoryAt fs.workingDirectory
  states : ∀ name, Path.slash ∉ Utf8.encode name → store.Accepts (stateName name) →
    fs.top.Holds place (stateName name) (kept (stateName name))
  aside : ∀ file, Aside file → store.Accepts file → fs.top.Harmless place file

variable {store : Store} {kept kept' : Name → Option Bytes} {fs fs' : FileSystem} {links : Nat}
  {place : Place} {file : Name} {content? : Option Bytes}

namespace Keeps

theorem directory (h : store.Keeps kept fs links place) : fs.top.DirectoryAt place :=
  h.reaches.directoryAt (directoryAt_start h.rooted _)

theorem congr (h : store.Keeps kept fs links place)
    (hkept : ∀ name, Path.slash ∉ Utf8.encode name → kept' (stateName name) = kept (stateName name)) :
    store.Keeps kept' fs links place where
  reaches := h.reaches
  rooted := h.rooted
  states name hname haccepts := hkept name hname ▸ h.states name hname haccepts
  aside := h.aside

theorem set {old? : Option Bytes} {n? : Option Node} (h : store.Keeps kept fs links place)
    (hold : fs.top.Holds place file old?)
    (hnew : (fs.top.set file n? place).Holds place file content?) :
    store.Keeps (Function.update kept file content?) (fs.withNode place file n?) links place where
  reaches := h.reaches.mono (hold.plainAt.keepsWays_set n?)
  rooted := (hold.plainAt.keepsWays_set n?).directory _ h.rooted
  states name hname haccepts := by
    by_cases heq : stateName name = file
    · rw [heq, Function.update_self]
      exact hnew
    · rw [Function.update_of_ne heq]
      exact (h.states name hname haccepts).set_other heq n?
  aside other hother haccepts := by
    by_cases heq : other = file
    · rw [heq]
      exact .inr ⟨content?, hnew⟩
    · exact (h.aside other hother haccepts).set_other heq n?

theorem harmless (h : store.Keeps kept fs links place) (hfile : Final file)
    (haccepts : store.Accepts file) : fs.top.Harmless place file := by
  cases hfile with
  | state name hname => exact .inr ⟨_, h.states name hname haccepts⟩
  | report name hname => exact h.aside _ (.report name hname) haccepts

/-- Only the place of the draft is written to, and nothing is if the draft is no file. -/
theorem writeFile_ok {content : Bytes} (h : store.Keeps kept fs links place) (hfile : Final file)
    (hrun : (writeFile ⟨store.folder ++ draftName file⟩ content).run fs = (.ok ⟨⟩, fs')) :
    store.Accepts (draftName file) ∧ (∃ old?, fs.top.Holds place (draftName file) old?) ∧
      fs' = fs.withNode place (draftName file) (some (.file ⟨content, fs.clock, true⟩)) := by
  obtain ⟨hslash, hne, -⟩ := hfile.draftName_spec
  obtain ⟨found, parent, written, readable, hresolve, htakes, rfl⟩ := FileSystem.writeFile_ok hrun
  obtain ⟨hcheck, hfollows⟩ := resolve_eq_ok.1 hresolve
  rw [steps_file hslash hne, start_file hslash, h.reaches.follows_append_iff] at hfollows
  obtain habove | hpiece := hfile.ofPiece_draftName
  · rw [habove] at hfollows
    exact absurd htakes (not_takes_above h.directory hfollows)
  rw [hpiece] at hfollows
  have haccepts : store.Accepts (draftName file) :=
    ⟨hslash, hne, hpiece, hfollows.length_name_le, hcheck⟩
  have hharmless := h.aside _ (.draft hfile) haccepts
  -- a link would be written through, to a file that need not be in the directory
  have hlink : ∀ target, fs.top.get? (place ++ [draftName file]) = some (.link target) →
      Purpose.output = .entry := by
    intro target hn
    obtain ⟨d, hd, hdirectory⟩ | ⟨old?, hold⟩ := hharmless
    · cases hd.symm.trans hn
      cases hdirectory
    · exact absurd hn hold.plainAt.ne_link
  obtain ⟨-, ⟨hnone, rfl⟩ | ⟨n, hn, rfl⟩⟩ := hfollows.last hlink
  · obtain ⟨rfl, rfl, rfl⟩ := takes_missing.1 htakes
    exact ⟨haccepts, ⟨none, holds_none.2 hnone⟩, rfl⟩
  obtain ⟨rfl, rfl, old, rfl, rfl⟩ := takes_node.1 htakes
  obtain ⟨d, hd, hdirectory⟩ | ⟨old?, hold⟩ := hharmless
  · cases hd.symm.trans hn
    cases hdirectory
  refine ⟨haccepts, ⟨old?, hold⟩, ?_⟩
  cases old? with
  | none => cases (holds_none.1 hold).symm.trans hn
  | some content' =>
    obtain ⟨f, hf, hreadable, -⟩ := hold.get?_eq_some
    cases hf.symm.trans hn
    rw [hreadable]

theorem resolve_entry_cases {found : Found} (h : store.Keeps kept fs links place)
    (hslash : Path.slash ∉ file) (hne : file ≠ []) (hpiece : Path.Component.ofPiece file = .name file)
    (hresolve : fs.resolve .entry ⟨store.folder ++ file⟩ = .ok found) : store.Accepts file ∧
      ((fs.top.get? (place ++ [file]) = none ∧ found = .missing place file) ∨
        ∃ n, fs.top.get? (place ++ [file]) = some n ∧ found = .node (place ++ [file]) n) := by
  have hsteps : steps (store.folder ++ file) = _ := steps_file hslash hne
  rw [hpiece] at hsteps
  have hreaches := h.reaches
  rw [← start_file hslash] at hreaches
  obtain ⟨hcheck, hshort, hcases⟩ := FileSystem.resolve_entry_cases hsteps hreaches hresolve
  exact ⟨⟨hslash, hne, hpiece, hshort, hcheck⟩, hcases⟩

/-- A draft that is there takes its final name, or everything stays as it is. -/
theorem renameFile_cases {f : File} (h : store.Keeps kept fs links place) (hfile : Final file)
    (hdraft : store.Accepts (draftName file))
    (hf : fs.top.get? (place ++ [draftName file]) = some (.file f)) :
    (∃ e, (renameFile ⟨store.folder ++ draftName file⟩ ⟨store.folder ++ file⟩).run fs =
        (.error e, fs)) ∨
      (∃ old?, fs.top.Holds place file old?) ∧
        (renameFile ⟨store.folder ++ draftName file⟩ ⟨store.folder ++ file⟩).run fs =
          (.ok ⟨⟩, (fs.withNode place (draftName file) none).withNode place file
            (some (.file f))) := by
  obtain ⟨hslash, hne, -⟩ := hfile.draftName_spec
  rw [renameFile_eq]
  cases hsource : fs.resolve .entry ⟨store.folder ++ draftName file⟩ with
  | error e => exact .inl ⟨e, rfl⟩
  | ok found =>
    obtain ⟨-, ⟨hnone, -⟩ | ⟨n, hn, rfl⟩⟩ := h.resolve_entry_cases hslash hne hdraft.piece hsource
    · cases hnone.symm.trans hf
    cases hf.symm.trans hn
    cases htarget : fs.resolve .entry ⟨store.folder ++ file⟩ with
    | error e => exact .inl ⟨e, rfl⟩
    | ok found =>
      obtain ⟨haccepts, hcases⟩ :=
        h.resolve_entry_cases hfile.no_slash hfile.ne_nil hfile.ofPiece_eq htarget
      obtain ⟨hnone, rfl⟩ | ⟨n, hn, rfl⟩ := hcases
      · refine .inr ⟨⟨none, holds_none.2 hnone⟩, ?_⟩
        simp only
        rw [Action.run_bind, replace_concat]
        rfl
      · simp only
        obtain ⟨d, hd, hdirectory⟩ | ⟨old?, hold⟩ := h.harmless hfile haccepts
        · cases hd.symm.trans hn
          exact .inl ⟨.isDirectory, if_pos hdirectory⟩
        · refine .inr ⟨⟨old?, hold⟩, ?_⟩
          rw [hold.plainAt.isDirectory_eq_false hn, if_neg Bool.false_ne_true, Action.run_bind,
            replace_concat]
          exact replace_concat place file (some (.file f)) _

/-- What is found under a name that the system accepts. -/
theorem resolve (h : store.Keeps kept fs links place) (purpose : Purpose)
    (haccepts : store.Accepts file) (hholds : fs.top.Holds place file content?) :
    fs.resolve purpose ⟨store.folder ++ file⟩ = .ok (match fs.top.get? (place ++ [file]) with
      | some n => .node (place ++ [file]) n
      | none => .missing place file) := by
  cases hn : fs.top.get? (place ++ [file]) with
  | none =>
    exact resolve_last_missing haccepts.steps_eq haccepts.check haccepts.short
      (start_file haccepts.no_slash fs ▸ h.reaches) hn
  | some n =>
    refine haccepts.resolve_eq h.reaches hn ?_
    intro target hlink
    exact absurd (hlink ▸ hn) hholds.plainAt.ne_link

variable {name : String}

theorem accepts_of_takes (h : store.Takes name) : store.Accepts (stateName name) where
  no_slash := (Final.state name h.no_slash).no_slash
  ne_nil := (Final.state name h.no_slash).ne_nil
  piece := (Final.state name h.no_slash).ofPiece_eq
  short := h.short
  check := statePath_eq h.no_slash ▸ h.check

theorem contentAt (h : store.Keeps kept fs links place) (htakes : store.Takes name) :
    fs.contentAt (store.statePath name) = match kept (stateName name) with
      | none => .error .notFound
      | some content => .ok content := by
  have haccepts := accepts_of_takes htakes
  have hholds := h.states name htakes.no_slash haccepts
  have hresolve := h.resolve .target haccepts hholds
  rw [statePath_eq htakes.no_slash, contentAt_eq, hresolve]
  generalize kept (stateName name) = content? at hholds
  cases content? with
  | none => rw [holds_none.1 hholds]
  | some content =>
    obtain ⟨f, hf, hreadable, rfl⟩ := hholds.get?_eq_some
    simp only [hf, hreadable, if_true]

theorem removeFile (h : store.Keeps kept fs links place) (htakes : store.Takes name) :
    (FileSystem.removeFile (store.statePath name)).run fs = match kept (stateName name) with
      | none => (.error .notFound, fs)
      | some _ => (.ok ⟨⟩, fs.withNode place (stateName name) none) := by
  have haccepts := accepts_of_takes htakes
  have hholds := h.states name htakes.no_slash haccepts
  have hresolve := h.resolve .entry haccepts hholds
  rw [statePath_eq htakes.no_slash, removeFile_eq, hresolve]
  generalize kept (stateName name) = content? at hholds
  cases content? with
  | none => rw [holds_none.1 hholds]
  | some content =>
    obtain ⟨f, hf, -⟩ := hholds.get?_eq_some
    rw [hf]
    exact replace_concat place (stateName name) none fs

end Keeps

end Store

end BuildDelta
