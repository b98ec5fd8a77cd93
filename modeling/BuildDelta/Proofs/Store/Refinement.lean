import BuildDelta.Proofs.SourceSet.RoundTrip
import BuildDelta.Proofs.Store.Loading
import BuildDelta.Proofs.Store.Unused
/-!
# A store is a map

Seen through its operations, a store is a map from names to values of four types. The invariant is that
the states in its directory are the bytes of the values in the map (`World.Backed`). Every operation
keeps that, whatever calls fail in it (`World.Backed.step`), so after any run a load gives what was
saved last under its name (`refines_map`), in however little memory.
-/

namespace BuildDelta

open FileSystem

theorem Snapshot.ofState_toState {τ : Type} [Item τ] [Wire.Format τ] [Wire.Lawful τ]
    {s : Snapshot τ} (h : Wire.Fits s) (memory : Nat) :
    (Persisted.ofState (Persisted.toState s) memory : Except CorruptState (Snapshot τ)) = .ok s :=
  deserialize_serialize h ContentHash.ofBytes

theorem Snapshot.ofState_wrongKind {τ : Type} [Item τ] [Wire.Format τ] {kind : Frame.Kind}
    (h : kind.name ≠ (frameKind τ).name) (payload : Bytes) (memory : Nat) :
    (Persisted.ofState (Frame.encode kind payload) memory : Except CorruptState (Snapshot τ)) =
      .error (.wrongKind (frameKind τ).name kind.name) :=
  deserialize_wrongKind h payload ContentHash.ofBytes

theorem SourceSet.ofState_toState {τ : Type} [Item τ] [Wire.Format τ] [Wire.Lawful τ]
    {s : SourceSet τ} (h : Wire.Fits s) (memory : Nat) :
    (Persisted.ofState (Persisted.toState s) memory : Except CorruptState (SourceSet τ)) = .ok s :=
  deserialize_serialize h ContentHash.ofBytes

theorem SourceSet.ofState_wrongKind {τ : Type} [Item τ] [Wire.Format τ] {kind : Frame.Kind}
    (h : kind.name ≠ (frameKind τ).name) (payload : Bytes) (memory : Nat) :
    (Persisted.ofState (Frame.encode kind payload) memory : Except CorruptState (SourceSet τ)) =
      .error (.wrongKind (frameKind τ).name kind.name) :=
  deserialize_wrongKind h payload ContentHash.ofBytes

namespace Store

/-- The types of states that are kept. -/
inductive StateType where
  | files
  | names
  | fileSets
  | nameSets
deriving DecidableEq

namespace StateType

def Value : StateType → Type
  | files => Snapshot FileItem
  | names => Snapshot KeyItem
  | fileSets => SourceSet FileItem
  | nameSets => SourceSet KeyItem

instance : (t : StateType) → Persisted t.Value
  | files => inferInstanceAs (Persisted (Snapshot FileItem))
  | names => inferInstanceAs (Persisted (Snapshot KeyItem))
  | fileSets => inferInstanceAs (Persisted (SourceSet FileItem))
  | nameSets => inferInstanceAs (Persisted (SourceSet KeyItem))

/-- The values that fit the widths of the counts in a state file. -/
def Fits : (t : StateType) → t.Value → Prop
  | files => fun s => Wire.Fits (α := Snapshot FileItem) s
  | names => fun s => Wire.Fits (α := Snapshot KeyItem) s
  | fileSets => fun s => Wire.Fits (α := SourceSet FileItem) s
  | nameSets => fun s => Wire.Fits (α := SourceSet KeyItem) s

def kind : StateType → Frame.Kind
  | files => Snapshot.frameKind FileItem
  | names => Snapshot.frameKind KeyItem
  | fileSets => SourceSet.frameKind FileItem
  | nameSets => SourceSet.frameKind KeyItem

variable {t u : StateType}

theorem exists_payload (v : t.Value) :
    ∃ payload, Persisted.toState v = Frame.encode t.kind payload := by
  cases t with
  | files => exact ⟨Wire.write (α := Snapshot FileItem) v, rfl⟩
  | names => exact ⟨Wire.write (α := Snapshot KeyItem) v, rfl⟩
  | fileSets => exact ⟨Wire.write (α := SourceSet FileItem) v, rfl⟩
  | nameSets => exact ⟨Wire.write (α := SourceSet KeyItem) v, rfl⟩

theorem ofState_toState {v : t.Value} (h : t.Fits v) (memory : Nat) :
    (Persisted.ofState (Persisted.toState v) memory : Except CorruptState t.Value) = .ok v := by
  cases t with
  | files => exact Snapshot.ofState_toState (τ := FileItem) h memory
  | names => exact Snapshot.ofState_toState (τ := KeyItem) h memory
  | fileSets => exact SourceSet.ofState_toState (τ := FileItem) h memory
  | nameSets => exact SourceSet.ofState_toState (τ := KeyItem) h memory

theorem ofState_wrongKind {kind : Frame.Kind} (h : kind.name ≠ t.kind.name) (payload : Bytes)
    (memory : Nat) : (Persisted.ofState (Frame.encode kind payload) memory : Except CorruptState t.Value) =
      .error (.wrongKind t.kind.name kind.name) := by
  cases t with
  | files => exact Snapshot.ofState_wrongKind (τ := FileItem) h payload memory
  | names => exact Snapshot.ofState_wrongKind (τ := KeyItem) h payload memory
  | fileSets => exact SourceSet.ofState_wrongKind (τ := FileItem) h payload memory
  | nameSets => exact SourceSet.ofState_wrongKind (τ := KeyItem) h payload memory

theorem kind_injective (h : t.kind.name = u.kind.name) : t = u := by
  revert h
  cases t <;> cases u <;> decide +kernel

end StateType

/-- A value of one of the types. -/
structure State where
  type : StateType
  value : type.Value

namespace State

def bytes (s : State) : Bytes := Persisted.toState s.value

/-- What comes of reading a state as one of a type. -/
def readAs (s : State) (t : StateType) : Except CorruptState t.Value :=
  if h : s.type = t then .ok (h ▸ s.value) else .error (.wrongKind t.kind.name s.type.kind.name)

theorem ofState_bytes {s : State} (h : s.type.Fits s.value) (t : StateType) (memory : Nat) :
    (Persisted.ofState s.bytes memory : Except CorruptState t.Value) = s.readAs t := by
  obtain ⟨u, v⟩ := s
  by_cases heq : u = t
  · subst heq
    rw [readAs, dif_pos rfl]
    exact StateType.ofState_toState h memory
  · obtain ⟨payload, hpayload⟩ := StateType.exists_payload v
    have hkind : u.kind.name ≠ t.kind.name := fun hname => heq (StateType.kind_injective hname)
    rw [bytes, hpayload, StateType.ofState_wrongKind hkind, readAs, dif_neg heq]

theorem readAs_self (t : StateType) (v : t.Value) : (State.mk t v).readAs t = .ok v :=
  dif_pos rfl

theorem readAs_other {s : State} {t : StateType} (h : s.type ≠ t) :
    s.readAs t = .error (.wrongKind t.kind.name s.type.kind.name) :=
  dif_neg h

end State

/-- What is done with a store. -/
inductive Operation where
  | save (name : String) (s : State) (calls : WriteCalls)
  | saveReport (name : String) {Items : Type} [Item Items] [Json.Format Items]
    (changes : Diff Items) (calls : WriteCalls)
  | load (name : String) (type : StateType)
  | loadOrEmpty (name root : String)
  | remove (name : String)

/-- The operations on names that the system takes, with values that can be written. -/
def Operation.Allowed (store : Store) : Operation → Prop
  | .save name s calls => store.Takes name ∧ s.type.Fits s.value ∧ calls.Faulty
  | @Operation.saveReport name _ _ _ _ calls => store.Takes name ∧ calls.Faulty
  | .load name _ => store.Takes name
  | .loadOrEmpty name _ => store.Takes name
  | .remove name => store.Takes name

/-- Whether an operation changes what is kept under a name: a save that succeeds, or a removal. -/
def Operation.Changes (store : Store) (fs : FileSystem) (name : String) : Operation → Prop
  | .save other s calls => other = name ∧ ((store.save other s.value calls).run fs).1 = .ok ⟨⟩
  | .remove other => other = name
  | _ => False

/-- A file tree, and the map that a store on it should be. -/
structure World where
  fs : FileSystem
  held : String → Option State

namespace World

def start (fs : FileSystem) : World := ⟨fs, fun _ => none⟩

/-- The tree is changed by what is really done. The map has a value set when a save succeeds, and
loses one when a removal does. -/
def step (store : Store) (w : World) : Operation → World
  | .save name s calls =>
    match (store.save name s.value calls).run w.fs with
    | (.ok _, fs) => ⟨fs, Function.update w.held name (some s)⟩
    | (.error _, fs) => { w with fs }
  | @Operation.saveReport name _ _ _ changes calls =>
    { w with fs := ((store.saveReport name changes calls).run w.fs).2 }
  | .load .. => w
  | .loadOrEmpty .. => w
  | .remove name =>
    match (store.remove name).run w.fs with
    | (.ok _, fs) => ⟨fs, Function.update w.held name none⟩
    | (.error _, fs) => { w with fs }

def run (store : Store) (w : World) (ops : List Operation) : World :=
  ops.foldl (step store) w

/-- The states in the store's directory are the values of the map. -/
structure Backed (store : Store) (before : FileSystem) (w : World) : Prop where
  tracks : ∃ kept, store.Tracks before kept w.fs ∧ ∀ name, Path.slash ∉ Utf8.encode name →
    kept (stateName name) = (w.held name).map State.bytes
  fits : ∀ name s, w.held name = some s → s.type.Fits s.value

variable {store : Store} {before fs : FileSystem} {w : World} {name : String}

theorem backed_start (hunused : store.Unused before) : (start before).Backed store before where
  tracks := ⟨fun _ => none, .of_prepared hunused .refl fun _ _ => rfl, fun _ _ => rfl⟩
  fits _ _ h := by cases h

/-- The map and the states change together. -/
theorem Backed.update {kept : Name → Option Bytes} (h : w.Backed store before)
    (hkept : ∀ name, Path.slash ∉ Utf8.encode name →
      kept (stateName name) = (w.held name).map State.bytes) (s? : Option State)
    (hfits : ∀ s, s? = some s → s.type.Fits s.value)
    (htracks : store.Tracks before
      (Function.update kept (stateName name) (s?.map State.bytes)) fs) :
    (World.mk fs (Function.update w.held name s?)).Backed store before where
  tracks := by
    refine ⟨_, htracks, ?_⟩
    intro other hother
    dsimp only
    by_cases heq : other = name
    · rw [heq, Function.update_self, Function.update_self]
    · have hne : stateName other ≠ stateName name := fun hname => heq (stateName_injective hname)
      rw [Function.update_of_ne heq, Function.update_of_ne hne, hkept other hother]
  fits other s hs := by
    dsimp only at hs
    by_cases heq : other = name
    · rw [heq, Function.update_self] at hs
      exact hfits s hs
    · rw [Function.update_of_ne heq] at hs
      exact h.fits other s hs

theorem run_saveReport {Items : Type} [Item Items] [Json.Format Items] (changes : Diff Items)
    (calls : WriteCalls) (fs : FileSystem) :
    ((store.saveReport name changes calls).run fs).2 = ((store.writeWhole (store.reportPath name)
      (Utf8.encode changes.reportIndented) calls).run fs).2 := by
  unfold saveReport
  rw [Action.run_bind]
  cases (store.writeWhole (store.reportPath name) (Utf8.encode changes.reportIndented) calls).run fs with
  | mk r fs' => cases r <;> rfl

theorem run_remove {found : Bool} {fs' : FileSystem}
    (h : (removeFile (store.statePath name)).run fs =
      (if found then .ok ⟨⟩ else .error .notFound, fs')) :
    (store.remove name).run fs = (.ok found, fs') := by
  unfold remove
  rw [Action.run_bind, Action.run_attempt, h]
  cases found <;> rfl

theorem Backed.removed (hunused : store.Unused before) (h : w.Backed store before)
    (htakes : store.Takes name) : ∃ fs, (store.remove name).run w.fs = (.ok (w.held name).isSome, fs) ∧
      (World.mk fs (Function.update w.held name none)).Backed store before := by
  obtain ⟨kept, htracks, hkept⟩ := h.tracks
  obtain ⟨fs, hremove, htracks⟩ := htracks.removeFile hunused htakes
  rw [hkept name htakes.no_slash, Option.isSome_map] at hremove
  exact ⟨fs, run_remove hremove, h.update hkept none nofun htracks⟩

theorem Backed.step (hunused : store.Unused before) (h : w.Backed store before) {op : Operation}
    (hop : op.Allowed store) : (w.step store op).Backed store before := by
  obtain ⟨kept, htracks, hkept⟩ := h.tracks
  cases op with
  | save name s calls =>
    obtain ⟨htakes, hfits, hcalls⟩ := hop
    simp only [World.step]
    cases hrun : (store.save name s.value calls).run w.fs with
    | mk r fs =>
      rw [save, statePath_eq htakes.no_slash] at hrun
      obtain ⟨⟨e, rfl⟩, htracks⟩ | ⟨rfl, htracks⟩ :=
        htracks.writeWhole hunused hcalls (.state name htakes.no_slash) hrun
      · exact ⟨⟨kept, htracks, hkept⟩, h.fits⟩
      · refine h.update hkept (some s) ?_ htracks
        rintro _ ⟨⟩
        exact hfits
  | saveReport name changes calls =>
    obtain ⟨htakes, hcalls⟩ := hop
    simp only [World.step, run_saveReport]
    rw [reportPath_eq htakes.no_slash]
    refine ⟨?_, h.fits⟩
    cases hrun : (store.writeWhole ⟨store.folder ++ reportName name⟩
        (Utf8.encode changes.reportIndented) calls).run w.fs with
    | mk r fs =>
      obtain ⟨-, htracks⟩ | ⟨-, htracks⟩ :=
        htracks.writeWhole hunused hcalls (.report name htakes.no_slash) hrun
      · exact ⟨kept, htracks, hkept⟩
      · refine ⟨kept, htracks.congr ?_, hkept⟩
        intro other _
        rw [Function.update_of_ne (stateName_ne_reportName other name)]
  | load => exact h
  | loadOrEmpty => exact h
  | remove name =>
    obtain ⟨fs, hremove, hbacked⟩ := h.removed hunused hop
    simp only [World.step, hremove]
    exact hbacked

theorem Backed.run (hunused : store.Unused before) (h : w.Backed store before) {ops : List Operation}
    (hops : ∀ op ∈ ops, op.Allowed store) : (w.run store ops).Backed store before := by
  induction ops generalizing w with
  | nil => exact h
  | cons op ops ih =>
    rw [List.forall_mem_cons] at hops
    exact ih (h.step hunused hops.1) hops.2

theorem Backed.load_eq (hunused : store.Unused before) (h : w.Backed store before)
    (htakes : store.Takes name) (t : StateType) (memory : Nat) :
    (store.load name w.fs memory : Except StoreError (Option t.Value)) = match w.held name with
      | none => .ok none
      | some s => ((s.readAs t).mapError .corrupt).map some := by
  obtain ⟨kept, htracks, hkept⟩ := h.tracks
  unfold load
  rw [htracks.contentAt hunused htakes, hkept name htakes.no_slash]
  cases hheld : w.held name with
  | none => rfl
  | some s =>
    have hread := State.ofState_bytes (h.fits name s hheld) t memory
    simp only [Option.map_some, hread]

/-- What a load gives, by what is held. -/
theorem Backed.load_cases (hunused : store.Unused before) (h : w.Backed store before)
    (htakes : store.Takes name) (t : StateType) (memory : Nat) :
    (w.held name = none ∧
      (store.load name w.fs memory : Except StoreError (Option t.Value)) = .ok none) ∨
    (∃ v : t.Value, w.held name = some ⟨t, v⟩ ∧ store.load name w.fs memory = .ok (some v)) ∨
    ∃ s, w.held name = some s ∧ s.type ≠ t ∧
      (store.load name w.fs memory : Except StoreError (Option t.Value)) =
        .error (.corrupt (.wrongKind t.kind.name s.type.kind.name)) := by
  rw [h.load_eq hunused htakes t memory]
  cases w.held name with
  | none => exact .inl ⟨rfl, rfl⟩
  | some s =>
    by_cases heq : s.type = t
    · obtain ⟨u, v⟩ := s
      subst heq
      refine .inr (.inl ⟨v, rfl, ?_⟩)
      simp only [State.readAs_self]
      rfl
    · refine .inr (.inr ⟨s, rfl, heq, ?_⟩)
      simp only [State.readAs_other heq]
      rfl

end World

/-- All that a store is asked to do for the names that the system takes, after some operations. -/
structure Refines (store : Store) (w : World) (memory : Nat) : Prop where
  load_none_iff : ∀ name, store.Takes name → ∀ t : StateType,
    (store.load name w.fs memory : Except StoreError (Option t.Value)) = .ok none ↔ w.held name = none
  load_some_iff : ∀ name, store.Takes name → ∀ (t : StateType) (v : t.Value),
    store.load name w.fs memory = .ok (some v) ↔ w.held name = some ⟨t, v⟩
  load_wrongKind_iff : ∀ name, store.Takes name → ∀ t : StateType,
    (∃ expected actual, (store.load name w.fs memory : Except StoreError (Option t.Value)) =
      .error (.corrupt (.wrongKind expected actual))) ↔
      ∃ s, w.held name = some s ∧ s.type ≠ t
  remove_eq : ∀ name, store.Takes name →
    ((store.remove name).run w.fs).1 = .ok (w.held name).isSome
  loadOrEmpty_files : ∀ name, store.Takes name → ∀ root,
    (∀ s : Snapshot FileItem, w.held name = some ⟨.files, s⟩ →
      store.loadOrEmpty name root w.fs memory = .ok s) ∧
    ((∀ s : Snapshot FileItem, w.held name ≠ some ⟨.files, s⟩) →
      (store.loadOrEmpty name root w.fs memory : Except OutOfMemory (Snapshot FileItem)) =
        .ok (.empty root))
  loadOrEmpty_names : ∀ name, store.Takes name → ∀ root,
    (∀ s : Snapshot KeyItem, w.held name = some ⟨.names, s⟩ →
      store.loadOrEmpty name root w.fs memory = .ok s) ∧
    ((∀ s : Snapshot KeyItem, w.held name ≠ some ⟨.names, s⟩) →
      (store.loadOrEmpty name root w.fs memory : Except OutOfMemory (Snapshot KeyItem)) =
        .ok (.empty root))
  unchanged : ∀ name, store.Takes name → ∀ op : Operation, op.Allowed store →
    ¬op.Changes store w.fs name → ∀ t : StateType, (store.load name (w.step store op).fs memory :
      Except StoreError (Option t.Value)) = store.load name w.fs memory

variable {store : Store} {before : FileSystem} {w : World} {name : String}

/-- What an operation does not change stays in the map. -/
theorem World.held_step {op : Operation} (h : ¬op.Changes store w.fs name) :
    (w.step store op).held name = w.held name := by
  cases op with
  | save other s calls =>
    simp only [step]
    split
    · rename_i hrun
      refine Function.update_of_ne ?_ _ _
      rintro rfl
      exact h ⟨rfl, congrArg Prod.fst hrun⟩
    · rfl
  | saveReport => rfl
  | load => rfl
  | loadOrEmpty => rfl
  | remove other =>
    simp only [step]
    split
    · refine Function.update_of_ne ?_ _ _
      rintro rfl
      exact h rfl
    · rfl

theorem World.Backed.load_some_iff (hunused : store.Unused before) (h : w.Backed store before)
    (htakes : store.Takes name) (memory : Nat) (t : StateType) (v : t.Value) :
    store.load name w.fs memory = .ok (some v) ↔ w.held name = some ⟨t, v⟩ := by
  obtain ⟨hheld, hload⟩ | ⟨v', hheld, hload⟩ | ⟨s, hheld, htype, hload⟩ :=
    h.load_cases hunused htakes t memory
  · simp [hheld, hload]
  · simp [hheld, hload]
  · rw [hload, hheld]
    refine ⟨nofun, ?_⟩
    rintro ⟨⟩
    exact absurd rfl htype

/-- What is held as something else, or not at all, counts as none. -/
theorem World.Backed.loadUsable_eq_none (hunused : store.Unused before) (h : w.Backed store before)
    (htakes : store.Takes name) (memory : Nat) (t : StateType)
    (hheld : ∀ v : t.Value, w.held name ≠ some ⟨t, v⟩) :
    store.loadUsable name w.fs memory = .ok (none : Option t.Value) := by
  obtain ⟨-, hload⟩ | ⟨v, hheld', -⟩ | ⟨s, -, -, hload⟩ := h.load_cases hunused htakes t memory
  · exact loadUsable_of_load hload
  · exact absurd hheld' (hheld v)
  · exact loadUsable_of_error hload nofun

theorem World.Backed.refines (hunused : store.Unused before) (h : w.Backed store before)
    (memory : Nat) : Refines store w memory where
  load_none_iff name htakes t := by
    obtain ⟨hheld, hload⟩ | ⟨v, hheld, hload⟩ | ⟨s, hheld, -, hload⟩ :=
      h.load_cases hunused htakes t memory <;> simp [hheld, hload]
  load_some_iff name htakes := h.load_some_iff hunused htakes memory
  load_wrongKind_iff name htakes t := by
    obtain ⟨hheld, hload⟩ | ⟨v', hheld, hload⟩ | ⟨s, hheld, htype, hload⟩ :=
      h.load_cases hunused htakes t memory
    · simp [hheld, hload]
    · simp [hheld, hload]
    · rw [hload, hheld]
      exact ⟨fun _ => ⟨s, rfl, htype⟩, fun _ => ⟨_, _, rfl⟩⟩
  remove_eq name htakes := by
    obtain ⟨fs, hremove, -⟩ := h.removed hunused htakes
    rw [hremove]
  loadOrEmpty_files name htakes root := by
    have hsome := h.load_some_iff hunused htakes memory .files
    have hnone := h.loadUsable_eq_none hunused htakes memory .files
    exact ⟨fun s hheld => loadOrEmpty_of_load ((hsome s).2 hheld),
      fun hheld => loadOrEmpty_of_none (hnone hheld)⟩
  loadOrEmpty_names name htakes root := by
    have hsome := h.load_some_iff hunused htakes memory .names
    have hnone := h.loadUsable_eq_none hunused htakes memory .names
    exact ⟨fun s hheld => loadOrEmpty_of_load ((hsome s).2 hheld),
      fun hheld => loadOrEmpty_of_none (hnone hheld)⟩
  unchanged name htakes op hop hchanges t := by
    rw [h.load_eq hunused htakes t memory, (h.step hunused hop).load_eq hunused htakes t memory,
      held_step hchanges]

/-- A store that starts without files of its own is a map from names to values through all operations
on it, whatever calls fail in a save: a state is what the last save that succeeded has put there, and
nothing else touches it. -/
theorem refines_map (hunused : store.Unused before) (ops : List Operation)
    (hops : ∀ op ∈ ops, op.Allowed store) (memory : Nat) :
    Refines store ((World.start before).run store ops) memory :=
  ((World.backed_start hunused).run hunused hops).refines hunused memory

/-- Calls of which every write breaks off halfway. -/
def torn : WriteCalls where
  makeDirectories := makeDirectories
  writeFile p content fs :=
    (.error .accessDenied, ((writeFile p (content.take (content.length / 2))).run fs).2)
  renameFile := renameFile

theorem torn_faulty : torn.Faulty where
  makeDirectories _ _ := .inl rfl
  writeFile _ content _ := .inr ⟨_, .inr ⟨_, List.take_prefix (content.length / 2) content, rfl⟩⟩
  renameFile _ _ _ := .inl rfl

/-- Saves, one of them torn, reports and a removal under names whose drafts coincide, and a save under
a name that has no draft. -/
def sampleOperations : List Operation :=
  [.save "a" ⟨.files, Snapshot.widths⟩ .plain, .saveReport "a" (.empty : Diff FileItem) torn,
    .save "a.diff" ⟨.nameSets, SourceSet.bare⟩ torn, .save "a.diff" ⟨.nameSets, SourceSet.bare⟩ .plain,
    .load "a" .names, .loadOrEmpty "a.diff" "/p", .save "." ⟨.fileSets, SourceSet.widths⟩ .plain,
    .remove "a"]

theorem allowed_sampleOperations :
    ∀ op ∈ sampleOperations, op.Allowed ⟨.ofString ".build"⟩ := by
  have ha : Takes ⟨.ofString ".build"⟩ "a" :=
    ⟨by decide +kernel, by decide +kernel, by decide +kernel⟩
  have hdiff : Takes ⟨.ofString ".build"⟩ "a.diff" :=
    ⟨by decide +kernel, by decide +kernel, by decide +kernel⟩
  have hdot : Takes ⟨.ofString ".build"⟩ "." :=
    ⟨by decide +kernel, by decide +kernel, by decide +kernel⟩
  simp only [sampleOperations, List.forall_mem_cons]
  exact ⟨⟨ha, Snapshot.fits_widths, WriteCalls.plain_faulty⟩, ⟨ha, torn_faulty⟩,
    ⟨hdiff, SourceSet.fits_bare, torn_faulty⟩, ⟨hdiff, SourceSet.fits_bare, WriteCalls.plain_faulty⟩,
    ha, hdiff, ⟨hdot, SourceSet.fits_widths, WriteCalls.plain_faulty⟩, ha, nofun⟩

/-- A project without the directory of its states. -/
def cleanProject : FileSystem := ⟨.emptyDirectory, [], 0⟩

/-- A project in which the directory has been made. -/
def preparedProject : FileSystem :=
  ⟨.directory true [(Utf8.encode ".build", .emptyDirectory)], [], 0⟩

theorem way_build : way (Path.ofString ".build").bytes = [.component (.name (Utf8.encode ".build"))] := by
  decide +kernel

theorem unused_cleanProject : Unused ⟨.ofString ".build"⟩ cleanProject :=
  unused_of_missing ⟨_, rfl, rfl⟩ way_build (by decide +kernel) (.stay _ _) rfl

theorem unused_preparedProject : Unused ⟨.ofString ".build"⟩ preparedProject := by
  have hbuild : preparedProject.top.get? [Utf8.encode ".build"] = some .emptyDirectory := by
    simp [preparedProject, Node.get?, Node.entry?]
  have hreaches : Reaches preparedProject.top maxLinks [] [.component (.name (Utf8.encode ".build"))]
      maxLinks [Utf8.encode ".build"] :=
    .directory (by decide +kernel) ⟨_, hbuild, rfl⟩ (.stay _ _)
  refine unused_of_vacant ⟨⟨_, rfl, rfl⟩, way_build ▸ hreaches, ?_⟩
  · intro name _ file _
    refine (Node.get?_append [Utf8.encode ".build"] [file] _).trans ?_
    rw [hbuild]
    rfl

/-- What comes of the sample operations. -/
def sampleWorld (before : FileSystem) : World :=
  (World.start before).run ⟨.ofString ".build"⟩ sampleOperations

theorem refines_map_build :
    (Unused ⟨.ofString ".build"⟩ cleanProject ∧
      (∀ op ∈ sampleOperations, op.Allowed ⟨.ofString ".build"⟩) ∧
      (∀ memory, Refines ⟨.ofString ".build"⟩ (sampleWorld cleanProject) memory) ∧
      ((sampleWorld cleanProject).held "a.diff").map State.type = some .nameSets ∧
      ((sampleWorld cleanProject).held "a").map State.type = none) ∧
    Unused ⟨.ofString ".build"⟩ preparedProject ∧
      (∀ memory, Refines ⟨.ofString ".build"⟩ (sampleWorld preparedProject) memory) ∧
      ((sampleWorld preparedProject).held "a.diff").map State.type = some .nameSets ∧
      ((sampleWorld preparedProject).held ".").map State.type = none :=
  ⟨⟨unused_cleanProject, allowed_sampleOperations,
      refines_map unused_cleanProject _ allowed_sampleOperations,
      by decide +kernel, by decide +kernel⟩,
    unused_preparedProject, refines_map unused_preparedProject _ allowed_sampleOperations,
    by decide +kernel, by decide +kernel⟩

end Store

end BuildDelta
