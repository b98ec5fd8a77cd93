import BuildDelta.FileSystem.Action
import BuildDelta.Proofs.Except
import BuildDelta.Proofs.FileSystem.Way
/-!
# What the calls do to a file tree

Each call is described by what it finds and what it sets. Making directories only adds to a tree
(`makeDirectories_adds`), and a file that could be read before is read the same afterwards
(`Grown.contentAt`). A write that fails, or a rename that fails, changes nothing.
-/

namespace BuildDelta.FileSystem

open Node

variable {ε ε' α β : Type}

namespace Action

theorem run_bind (a : Action ε α) (f : α → Action ε β) (fs : FileSystem) :
    (a >>= f).run fs = match a.run fs with
      | (.ok x, fs') => (f x).run fs'
      | (.error e, fs') => (.error e, fs') := by
  have hbind : (a >>= f).run fs = (ExceptT.bindCont f) (a.run fs).1 (a.run fs).2 := rfl
  rw [hbind]
  obtain ⟨r, fs'⟩ := a.run fs
  cases r <;> rfl

@[simp] theorem run_pure (x : α) (fs : FileSystem) :
    (pure x : Action ε α).run fs = (.ok x, fs) := rfl

@[simp] theorem run_throw (e : ε) (fs : FileSystem) :
    (throw e : Action ε α).run fs = (.error e, fs) := rfl

@[simp] theorem run_ask (f : FileSystem → Except ε α) (fs : FileSystem) :
    (ask f).run fs = (f fs, fs) := rfl

@[simp] theorem run_attempt (a : Action ε α) (fs : FileSystem) :
    (attempt a : Action ε' (Except ε α)).run fs = (.ok (a.run fs).1, (a.run fs).2) := rfl

@[simp] theorem run_withError (f : ε → ε') (a : Action ε α) (fs : FileSystem) :
    (a.withError f).run fs = ((a.run fs).1.mapError f, (a.run fs).2) := rfl

theorem run_withError_ok {f : ε → ε'} {a : Action ε α} {fs fs' : FileSystem} {x : α} :
    (a.withError f).run fs = (.ok x, fs') ↔ a.run fs = (.ok x, fs') := by
  rw [run_withError]
  cases a.run fs with
  | mk r between =>
    cases r with
    | ok y =>
      constructor
      · intro h
        cases h
        rfl
      · intro h
        cases h
        rfl
    | error e =>
      constructor
      · intro h
        cases h
      · intro h
        cases h

theorem run_withError_error {f : ε → ε'} {a : Action ε α} {fs fs' : FileSystem} {e' : ε'} :
    (a.withError f).run fs = (.error e', fs') ↔ ∃ e, a.run fs = (.error e, fs') ∧ f e = e' := by
  rw [run_withError]
  cases a.run fs with
  | mk r between =>
    cases r with
    | ok y =>
      constructor
      · intro h
        cases h
      · intro h
        obtain ⟨_, ⟨⟩, _⟩ := h
    | error e =>
      constructor
      · intro h
        cases h
        exact ⟨e, rfl, rfl⟩
      · intro h
        obtain ⟨_, ⟨⟩, rfl⟩ := h
        rfl

theorem run_bind_ok {a : Action ε α} {f : α → Action ε β} {fs fs' : FileSystem} {y : β} :
    (a >>= f).run fs = (.ok y, fs') ↔
      ∃ x between, a.run fs = (.ok x, between) ∧ (f x).run between = (.ok y, fs') := by
  rw [run_bind]
  cases hrun : a.run fs with
  | mk r between =>
    cases r with
    | ok x =>
      refine ⟨fun h => ⟨x, between, rfl, h⟩, ?_⟩
      intro h
      obtain ⟨_, _, ⟨⟩, h⟩ := h
      exact h
    | error e =>
      refine ⟨nofun, ?_⟩
      intro h
      obtain ⟨_, _, ⟨⟩, _⟩ := h

theorem run_bind_error {a : Action ε α} {f : α → Action ε β} {fs fs' : FileSystem} {e : ε} :
    (a >>= f).run fs = (.error e, fs') ↔ a.run fs = (.error e, fs') ∨
      ∃ x between, a.run fs = (.ok x, between) ∧ (f x).run between = (.error e, fs') := by
  rw [run_bind]
  cases hrun : a.run fs with
  | mk r between =>
    cases r with
    | ok x =>
      refine ⟨fun h => .inr ⟨x, between, rfl, h⟩, ?_⟩
      intro h
      obtain ⟨⟨⟩⟩ | ⟨_, _, ⟨⟩, h⟩ := h
      exact h
    | error e' =>
      constructor
      · intro h
        cases h
        exact .inl rfl
      · intro h
        obtain ⟨⟨⟩⟩ | ⟨_, _, ⟨⟩, _⟩ := h
        rfl

end Action

/-- A tree to which things were added, as seen by the same program. -/
structure Grown (fs fs' : FileSystem) : Prop where
  top : Grows fs.top fs'.top
  workingDirectory : fs'.workingDirectory = fs.workingDirectory

theorem Grown.refl (fs : FileSystem) : Grown fs fs :=
  ⟨.refl fs.top, rfl⟩

theorem Grown.trans {first second third : FileSystem} (h : Grown first second)
    (h' : Grown second third) : Grown first third :=
  ⟨h.top.trans h'.top, h'.workingDirectory.trans h.workingDirectory⟩

/-- Whatever comes of an action, the tree before it and the one after it are related like this. -/
def Action.Does (R : FileSystem → FileSystem → Prop) (a : Action ε α) : Prop :=
  ∀ fs, R fs (a.run fs).2

/-- Whatever comes of an action, it has only added to the tree. -/
def Action.Adds (a : Action ε α) : Prop :=
  ∀ fs, Grown fs (a.run fs).2

section Does

variable {R : FileSystem → FileSystem → Prop} (hrefl : ∀ fs, R fs fs)

namespace Action.Does

include hrefl in
theorem pure (x : α) : Does R (Pure.pure x : Action ε α) := fun fs => hrefl fs

include hrefl in
theorem throw (e : ε) : Does R (MonadExcept.throw e : Action ε α) := fun fs => hrefl fs

include hrefl in
theorem ask (f : FileSystem → Except ε α) : Does R (Action.ask f) := fun fs => hrefl fs

theorem attempt {a : Action ε α} (ha : a.Does R) :
    Does R (a.attempt : Action ε' (Except ε α)) := ha

theorem bind (htrans : ∀ fs fs' fs'', R fs fs' → R fs' fs'' → R fs fs'') {a : Action ε α}
    {f : α → Action ε β} (ha : a.Does R) (hf : ∀ x, (f x).Does R) : (a >>= f).Does R := by
  intro fs
  have hfirst := ha fs
  rw [run_bind]
  cases hrun : a.run fs with
  | mk r between =>
    rw [hrun] at hfirst
    cases r with
    | ok x => exact htrans _ _ _ hfirst (hf x between)
    | error e => exact hfirst

end Action.Does

variable (htrans : ∀ fs fs' fs'', R fs fs' → R fs' fs'' → R fs fs'')
include hrefl htrans

theorem orExisting_does (p : Path) (e : Error) : (orExisting p e).Does R := by
  refine .bind htrans (.ask hrefl _) ?_
  intro found
  cases found with
  | true => exact .pure hrefl _
  | false => exact .throw hrefl e

theorem makeWith_does {makeParent : Action Error PUnit} {p : Path} (hmake : (makeDirectory p).Does R)
    (hparent : makeParent.Does R) : (makeWith makeParent p).Does R := by
  refine .bind htrans hmake.attempt ?_
  intro result
  cases result with
  | ok => exact .pure hrefl _
  | error e =>
    cases e with
    | notFound =>
      refine .bind htrans hparent fun _ => .bind htrans hmake.attempt fun result => ?_
      cases result with
      | ok => exact .pure hrefl _
      | error e => exact orExisting_does hrefl htrans p e
    | _ => exact orExisting_does hrefl htrans p _

/-- What is true of making one directory is true of making all that are missing. -/
theorem makeDirectories_does (hmake : ∀ p, (makeDirectory p).Does R) (p : Path) :
    (makeDirectories p).Does R := by
  have hall : ∀ cs, (makeAll cs).Does R := by
    intro cs
    induction cs with
    | nil => exact .pure hrefl _
    | cons c cs ih => exact makeWith_does hrefl htrans (hmake _) ih
  unfold makeDirectories
  split
  · exact .pure hrefl _
  · exact makeWith_does hrefl htrans (hmake p) (hall _)

end Does

/-- Where the steps of a path begin. -/
def start (fs : FileSystem) (p : Path) : Place :=
  if p.isAbsolute then [] else fs.workingDirectory

theorem resolve_eq_ok {fs : FileSystem} {purpose : Purpose} {p : Path} {found : Found} :
    fs.resolve purpose p = .ok found ↔ checkPath p = .ok ⟨⟩ ∧
      Follows fs.top purpose maxLinks (start fs p) (steps p.bytes) found := by
  unfold resolve
  rw [bind_eq_ok]
  constructor
  · intro h
    obtain ⟨⟨⟩, hcheck, h⟩ := h
    exact ⟨hcheck, .of_walkLinks h⟩
  · intro h
    obtain ⟨hcheck, h⟩ := h
    exact ⟨⟨⟩, hcheck, h.walkLinks⟩

section Last

variable {fs : FileSystem} {purpose : Purpose} {p : Path} {way : List Step} {name : Name}
  {links : Nat} {place : Place}

theorem checkPath_eq_ok_iff :
    checkPath p = .ok () ↔ 0 ∉ p.bytes ∧ p.bytes.length < pathLimit ∧ p.bytes ≠ [] := by
  unfold checkPath
  split_ifs with hnul hlong hempty
  · simp_all
  · rw [false_iff]
    omega
  · simp_all
  · simp_all

/-- What is under the last name of a path is found, at the end of the way to it. -/
theorem resolve_last {n : Node} (hsteps : steps p.bytes = way ++ [.component (.name name)])
    (hcheck : checkPath p = .ok ()) (hname : name.length ≤ maxNameLength)
    (hreaches : Reaches fs.top maxLinks (start fs p) way links place)
    (hn : fs.top.get? (place ++ [name]) = some n) (hlink : ∀ target, n = .link target →
      purpose = .entry) : fs.resolve purpose p = .ok (.node (place ++ [name]) n) := by
  refine resolve_eq_ok.2 ⟨hcheck, ?_⟩
  rw [hsteps, hreaches.follows_append_iff]
  exact follows_last links hname hn hlink

theorem resolve_last_missing (hsteps : steps p.bytes = way ++ [.component (.name name)])
    (hcheck : checkPath p = .ok ()) (hname : name.length ≤ maxNameLength)
    (hreaches : Reaches fs.top maxLinks (start fs p) way links place)
    (hn : fs.top.get? (place ++ [name]) = none) : fs.resolve purpose p = .ok (.missing place name) := by
  refine resolve_eq_ok.2 ⟨hcheck, ?_⟩
  rw [hsteps, hreaches.follows_append_iff]
  exact .missing hname hn

theorem resolve_entry_cases {found : Found}
    (hsteps : steps p.bytes = way ++ [.component (.name name)])
    (hreaches : Reaches fs.top maxLinks (start fs p) way links place)
    (h : fs.resolve .entry p = .ok found) :
    checkPath p = .ok () ∧ name.length ≤ maxNameLength ∧
      ((fs.top.get? (place ++ [name]) = none ∧ found = .missing place name) ∨
        ∃ n, fs.top.get? (place ++ [name]) = some n ∧ found = .node (place ++ [name]) n) := by
  obtain ⟨hcheck, hfollows⟩ := resolve_eq_ok.1 h
  rw [hsteps, hreaches.follows_append_iff] at hfollows
  exact ⟨hcheck, hfollows.last fun _ _ => rfl⟩

end Last

theorem contentAt_eq_ok {fs : FileSystem} {p : Path} {content : Bytes} :
    fs.contentAt p = .ok content ↔ ∃ place f, fs.resolve .target p = .ok (.node place (.file f)) ∧
      f.readable = true ∧ f.content = content := by
  unfold contentAt
  rw [bind_eq_ok]
  constructor
  · intro h
    obtain ⟨n, hstat, h⟩ := h
    obtain ⟨found, hresolve, hnode⟩ := bind_eq_ok.1 hstat
    cases found with
    | missing parent name => cases hnode
    | node place m =>
      cases hnode
      cases n with
      | link target => cases h
      | directory readable entries => cases h
      | special => cases h
      | file f =>
        simp only at h
        split at h
        · rename_i hreadable
          cases h
          exact ⟨place, f, hresolve, hreadable, rfl⟩
        · cases h
  · intro h
    obtain ⟨place, f, hresolve, hreadable, rfl⟩ := h
    exact ⟨.file f, bind_eq_ok.2 ⟨_, hresolve, rfl⟩, if_pos hreadable⟩

theorem contentAt_eq (p : Path) (fs : FileSystem) :
    fs.contentAt p = match fs.resolve .target p with
      | .error e => .error e
      | .ok (.missing ..) => .error .notFound
      | .ok (.node _ n) => match n with
        | .file f => if f.readable then .ok f.content else .error .accessDenied
        | .special => .error .noDevice
        | _ => .error .isDirectory := by
  unfold contentAt stat
  cases fs.resolve .target p with
  | error e => rfl
  | ok found =>
    cases found with
    | missing => rfl
    | node place n => cases n <;> rfl

theorem Grown.contentAt {fs fs' : FileSystem} {p : Path} {content : Bytes} (h : Grown fs fs')
    (hcontent : fs.contentAt p = .ok content) : fs'.contentAt p = .ok content := by
  obtain ⟨place, f, hresolve, hfile⟩ := contentAt_eq_ok.1 hcontent
  obtain ⟨hcheck, hfollows⟩ := resolve_eq_ok.1 hresolve
  have hstart : start fs' p = start fs p := by rw [start, start, h.workingDirectory]
  refine contentAt_eq_ok.2 ⟨place, f, resolve_eq_ok.2 ⟨hcheck, ?_⟩, hfile⟩
  rw [hstart]
  exact hfollows.file_mono h.top

/-- The file system with a name set in one of its directories. -/
def withNode (fs : FileSystem) (parent : Place) (name : Name) (n? : Option Node) : FileSystem :=
  { fs with top := fs.top.set name n? parent }

theorem makeDirectory_eq (p : Path) (fs : FileSystem) : ((makeDirectory p).run fs).2 = fs ∨
    ∃ parent name q, fs.resolve .entry q = .ok (.missing parent name) ∧
      ((makeDirectory p).run fs).2 = fs.withNode parent name (some .emptyDirectory) := by
  unfold makeDirectory
  rw [Action.run_bind, Action.run_ask]
  cases checkPath p with
  | error e => exact .inl rfl
  | ok =>
    simp only
    rw [Action.run_bind, Action.run_ask]
    cases hresolve : fs.resolve .entry (if trimSlashes p = ⟨[]⟩ then p else trimSlashes p) with
    | error e => exact .inl rfl
    | ok found =>
      cases found with
      | node place n => exact .inl rfl
      | missing parent name => exact .inr ⟨parent, name, _, hresolve, rfl⟩

theorem makeDirectory_adds (p : Path) : (makeDirectory p).Adds := by
  intro fs
  obtain hidle | ⟨parent, name, q, hresolve, hmade⟩ := makeDirectory_eq p fs
  · rw [hidle]
    exact .refl fs
  · rw [hmade]
    exact ⟨grows_set (resolve_eq_ok.1 hresolve).2.describes _, rfl⟩

theorem makeDirectories_adds (p : Path) : (makeDirectories p).Adds :=
  makeDirectories_does Grown.refl (fun _ _ _ => Grown.trans) makeDirectory_adds p

theorem replace_concat (place : Place) (name : Name) (n? : Option Node) (fs : FileSystem) :
    (replace (place ++ [name]) n?).run fs = (.ok ⟨⟩, fs.withNode place name n?) := by
  have hsplit : splitLast? (place ++ [name]) = some (place, name) := by
    simp [splitLast?]
  rw [replace, hsplit]
  rfl

/-- The top of the tree is not exchanged. -/
theorem replace_cases (place : Place) (n? : Option Node) (fs : FileSystem) :
    (replace place n?).run fs = (.error .isDirectory, fs) ∨ ∃ parent name,
      place = parent ++ [name] ∧ (replace place n?).run fs = (.ok ⟨⟩, fs.withNode parent name n?) := by
  cases List.eq_nil_or_concat place with
  | inl hnil =>
    subst hnil
    exact .inl rfl
  | inr hconcat =>
    obtain ⟨parent, name, rfl⟩ := hconcat
    rw [List.concat_eq_append]
    exact .inr ⟨parent, name, rfl, replace_concat parent name n? fs⟩

/-- The name under which a file that is written to what was found is put, and whether it can be read. -/
def Found.Takes (found : Found) (place : Place) (name : Name) (readable : Bool) : Prop :=
  (found = .missing place name ∧ readable = true) ∨
    ∃ old, found = .node (place ++ [name]) (.file old) ∧ readable = old.readable

theorem takes_missing {place parent : Place} {name written : Name} {readable : Bool} :
    (Found.missing place name).Takes parent written readable ↔
      place = parent ∧ name = written ∧ readable = true := by
  constructor
  · intro h
    obtain ⟨heq, hreadable⟩ | ⟨old, heq, -⟩ := h
    · cases heq
      exact ⟨rfl, rfl, hreadable⟩
    · cases heq
  · intro h
    obtain ⟨rfl, rfl, hreadable⟩ := h
    exact .inl ⟨rfl, hreadable⟩

theorem takes_node {place parent : Place} {name written : Name} {readable : Bool} {n : Node} :
    (Found.node (place ++ [name]) n).Takes parent written readable ↔
      place = parent ∧ name = written ∧ ∃ old, n = .file old ∧ readable = old.readable := by
  constructor
  · intro h
    obtain ⟨heq, -⟩ | ⟨old, heq, hreadable⟩ := h
    · cases heq
    · obtain ⟨happend, rfl⟩ := Found.node.inj heq
      obtain ⟨rfl, hwritten⟩ := List.append_inj' happend rfl
      exact ⟨rfl, (List.cons.inj hwritten).1, old, rfl, hreadable⟩
  · intro h
    obtain ⟨rfl, rfl, old, rfl, hreadable⟩ := h
    exact .inr ⟨old, rfl, hreadable⟩

/-- Only a file takes what is written. -/
theorem Found.Takes.isDirectory_eq_false {place parent : Place} {written : Name} {readable : Bool}
    {n : Node} (h : (Found.node place n).Takes parent written readable) :
    n.isDirectory = false := by
  obtain ⟨heq, -⟩ | ⟨old, heq, -⟩ := h
  · cases heq
  · rw [(Found.node.inj heq).2]
    rfl

theorem Found.Takes.plainAt {top : Node} {found : Found} {parent : Place} {written : Name}
    {readable : Bool} (htakes : found.Takes parent written readable)
    (hdescribes : found.Describes top) : top.PlainAt (parent ++ [written]) := by
  obtain ⟨rfl, -⟩ | ⟨old, rfl, -⟩ := htakes
  · intro n hn
    cases hdescribes.symm.trans hn
  · exact plainAt_of_file hdescribes

theorem writeFile_eq (p : Path) (content : Bytes) (fs : FileSystem) :
    (writeFile p content).run fs = match fs.resolve .output p with
      | .error e => (.error e, fs)
      | .ok (.missing parent name) =>
        (.ok ⟨⟩, fs.withNode parent name (some (.file ⟨content, fs.clock, true⟩)))
      | .ok (.node place n) => match n with
        | .file old => (replace place (some (.file ⟨content, fs.clock, old.readable⟩))).run fs
        | .special => (.error .noDevice, fs)
        | _ => (.error .isDirectory, fs) := by
  have hget : (get : Action Error FileSystem).run fs = (.ok fs, fs) := rfl
  unfold writeFile
  rw [Action.run_bind, hget]
  simp only
  rw [Action.run_bind, Action.run_ask]
  cases fs.resolve .output p with
  | error e => rfl
  | ok found =>
    cases found with
    | missing => rfl
    | node place n => cases n <;> rfl

theorem writeFile_cases (p : Path) (content : Bytes) (fs : FileSystem) :
    (∃ e, (writeFile p content).run fs = (.error e, fs)) ∨ ∃ found place name readable,
      fs.resolve .output p = .ok found ∧ found.Takes place name readable ∧
      (writeFile p content).run fs =
        (.ok ⟨⟩, fs.withNode place name (some (.file ⟨content, fs.clock, readable⟩))) := by
  rw [writeFile_eq]
  cases fs.resolve .output p with
  | error e => exact .inl ⟨e, rfl⟩
  | ok found =>
    cases found with
    | missing place name => exact .inr ⟨_, place, name, true, rfl, .inl ⟨rfl, rfl⟩, rfl⟩
    | node place n =>
      cases n with
      | directory => exact .inl ⟨_, rfl⟩
      | link => exact .inl ⟨_, rfl⟩
      | special => exact .inl ⟨_, rfl⟩
      | file old =>
        cases replace_cases place (some (.file ⟨content, fs.clock, old.readable⟩)) fs with
        | inl hnil => exact .inl ⟨_, hnil⟩
        | inr hconcat =>
          obtain ⟨parent, name, rfl, hok⟩ := hconcat
          exact .inr ⟨_, parent, name, old.readable, rfl, .inr ⟨old, rfl, rfl⟩, hok⟩

theorem writeFile_ok {p : Path} {content : Bytes} {fs fs' : FileSystem}
    (h : (writeFile p content).run fs = (.ok ⟨⟩, fs')) : ∃ found place name readable,
      fs.resolve .output p = .ok found ∧ found.Takes place name readable ∧
      fs' = fs.withNode place name (some (.file ⟨content, fs.clock, readable⟩)) := by
  obtain ⟨e, hfail⟩ | ⟨found, place, name, readable, hresolve, htakes, hok⟩ :=
    writeFile_cases p content fs
  · cases hfail.symm.trans h
  · exact ⟨found, place, name, readable, hresolve, htakes, congrArg Prod.snd (h.symm.trans hok)⟩

theorem writeFile_error {p : Path} {content : Bytes} {fs fs' : FileSystem} {e : Error}
    (h : (writeFile p content).run fs = (.error e, fs')) : fs' = fs := by
  obtain ⟨e', hfail⟩ | ⟨_, _, _, _, -, -, hok⟩ := writeFile_cases p content fs
  · exact congrArg Prod.snd (h.symm.trans hfail)
  · cases hok.symm.trans h

theorem replace_ok {place : Place} {n? : Option Node} {fs fs' : FileSystem}
    (h : (replace place n?).run fs = (.ok ⟨⟩, fs')) :
    ∃ parent name, place = parent ++ [name] ∧ fs' = fs.withNode parent name n? := by
  cases replace_cases place n? fs with
  | inl hnil => cases hnil.symm.trans h
  | inr hconcat =>
    obtain ⟨parent, name, hplace, hok⟩ := hconcat
    exact ⟨parent, name, hplace, congrArg Prod.snd (h.symm.trans hok)⟩

/-- What is left to do after a node was taken from its place. -/
theorem move_ok {place : Place} {a : Action Error PUnit} {fs fs' : FileSystem}
    (h : (do replace place none; a).run fs = (.ok ⟨⟩, fs')) : ∃ parent name,
      place = parent ++ [name] ∧ a.run (fs.withNode parent name none) = (.ok ⟨⟩, fs') := by
  obtain ⟨⟨⟩, between, hreplace, h⟩ := Action.run_bind_ok.1 h
  obtain ⟨parent, name, hplace, rfl⟩ := replace_ok hreplace
  exact ⟨parent, name, hplace, h⟩

theorem renameFile_eq (source target : Path) (fs : FileSystem) :
    (renameFile source target).run fs = match fs.resolve .entry source with
      | .error e => (.error e, fs)
      | .ok (.missing ..) => (.error .notFound, fs)
      | .ok (.node place n) => match fs.resolve .entry target with
        | .error e => (.error e, fs)
        | .ok (.missing parent name) => (do replace place none; put parent name (some n)).run fs
        | .ok (.node place' old) =>
          if old.isDirectory then (.error .isDirectory, fs)
          else (do replace place none; replace place' (some n)).run fs := by
  unfold renameFile
  rw [Action.run_bind, Action.run_ask]
  cases fs.resolve .entry source with
  | error e => rfl
  | ok found =>
    cases found with
    | missing => rfl
    | node place n =>
      simp only
      rw [Action.run_bind, Action.run_ask]
      cases fs.resolve .entry target with
      | error e => rfl
      | ok found' =>
        cases found' with
        | missing => rfl
        | node place' old => cases old <;> rfl

theorem renameFile_ok {source target : Path} {fs fs' : FileSystem}
    (h : (renameFile source target).run fs = (.ok ⟨⟩, fs')) :
    ∃ place name n found place' name', fs.resolve .entry source = .ok (.node (place ++ [name]) n) ∧
      fs.resolve .entry target = .ok found ∧ (found = .missing place' name' ∨
        ∃ old, old.isDirectory = false ∧ found = .node (place' ++ [name']) old) ∧
      fs' = (fs.withNode place name none).withNode place' name' (some n) := by
  rw [renameFile_eq] at h
  cases hsource : fs.resolve .entry source with
  | error e => rw [hsource] at h; cases h
  | ok found =>
    rw [hsource] at h
    cases found with
    | missing => cases h
    | node place n =>
      cases htarget : fs.resolve .entry target with
      | error e => simp only [htarget] at h; cases h
      | ok found' =>
        simp only [htarget] at h
        cases found' with
        | missing parent name' =>
          obtain ⟨place, name, rfl, hput⟩ := move_ok h
          exact ⟨place, name, n, _, parent, name', rfl, rfl, .inl rfl, congrArg Prod.snd hput.symm⟩
        | node place' old =>
          simp only at h
          split at h
          · cases h
          rename_i hold
          obtain ⟨place, name, rfl, hput⟩ := move_ok h
          obtain ⟨parent, name', rfl, rfl⟩ := replace_ok hput
          exact ⟨place, name, n, _, parent, name', rfl, rfl,
            .inr ⟨old, Bool.eq_false_iff.2 hold, rfl⟩, rfl⟩

theorem renameFile_run {source target : Path} {fs : FileSystem} {place place' : Place}
    {name name' : Name} {n old : Node}
    (hsource : fs.resolve .entry source = .ok (.node (place ++ [name]) n))
    (htarget : fs.resolve .entry target = .ok (.node (place' ++ [name']) old))
    (hold : old.isDirectory = false) : (renameFile source target).run fs =
      (.ok ⟨⟩, (fs.withNode place name none).withNode place' name' (some n)) := by
  rw [renameFile_eq, hsource]
  simp only [htarget, hold]
  rw [if_neg (by simp), Action.run_bind, replace_concat]
  exact replace_concat place' name' (some n) _

theorem removeFile_eq (p : Path) (fs : FileSystem) :
    (removeFile p).run fs = match fs.resolve .entry p with
      | .error e => (.error e, fs)
      | .ok (.missing ..) => (.error .notFound, fs)
      | .ok (.node place n) =>
        if n.isDirectory then (.error .isDirectory, fs) else (replace place none).run fs := by
  unfold removeFile
  rw [Action.run_bind, Action.run_ask]
  cases fs.resolve .entry p with
  | error e => rfl
  | ok found =>
    cases found with
    | missing => rfl
    | node place n => cases n <;> rfl

end BuildDelta.FileSystem
