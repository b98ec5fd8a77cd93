import BuildDelta.Proofs.Except
import BuildDelta.Store
/-!
# What is loaded from a store

A state that cannot be loaded counts as none, whatever is the matter with it
(`loadUsable_of_error`). There is one exception: where there is no room for what the bytes ask for, the
program ends in the middle of loading, and nobody is left to go on without a state
(`loadUsable_eq_error_iff`). `CountsAsNone` and `EndsProgram` say which of the two it is for a state that
was not read.
-/

namespace BuildDelta.Store

/-- A state that is there, but that nothing is taken from. -/
structure CountsAsNone (σ : Type) [Persisted σ] (store : Store) (name : String) (fs : FileSystem)
    (memory : Nat) : Prop where
  load : ∃ cause, (store.load name fs memory : Except StoreError (Option σ)) = .error (.corrupt cause)
  loadUsable : (store.loadUsable name fs memory : Except OutOfMemory (Option σ)) = .ok none

/-- A state that is the end of the program that loads it. -/
structure EndsProgram (σ : Type) [Persisted σ] (store : Store) (name : String) (fs : FileSystem)
    (memory : Nat) (crash : OutOfMemory) : Prop where
  load : (store.load name fs memory : Except StoreError (Option σ)) =
    .error (.corrupt (.outOfMemory crash))
  loadUsable : (store.loadUsable name fs memory : Except OutOfMemory (Option σ)) = .error crash

variable {σ : Type} [Persisted σ] {store : Store} {name : String} {fs : FileSystem} {memory : Nat}
  {bytes : Bytes} {s? : Option σ} {s : σ} {e : StoreError} {crash : OutOfMemory}

theorem load_eq_some_iff : store.load name fs memory = .ok (some s) ↔
    ∃ bytes, fs.contentAt (store.statePath name) = .ok bytes ∧
      Persisted.ofState bytes memory = .ok s := by
  unfold load
  cases fs.contentAt (store.statePath name) with
  | error e =>
    constructor
    · intro h
      cases e <;> cases h
    · rintro ⟨_, ⟨⟩, -⟩
  | ok bytes =>
    constructor
    · intro h
      obtain ⟨s', hstate, ⟨⟩⟩ := map_eq_ok.1 h
      exact ⟨bytes, rfl, mapError_eq_ok.1 hstate⟩
    · rintro ⟨_, ⟨⟩, hstate⟩
      simp only [hstate]
      rfl

theorem load_of_error {cause : CorruptState} (hcontent : fs.contentAt (store.statePath name) = .ok bytes)
    (h : (Persisted.ofState bytes memory : Except CorruptState σ) = .error cause) :
    (store.load name fs memory : Except StoreError (Option σ)) = .error (.corrupt cause) := by
  unfold load
  rw [hcontent]
  simp only [h]
  rfl

theorem loadUsable_of_load (h : store.load name fs memory = .ok s?) :
    store.loadUsable name fs memory = .ok s? := by
  unfold loadUsable
  rw [h]

theorem loadUsable_of_error
    (h : (store.load name fs memory : Except StoreError (Option σ)) = .error e)
    (he : ∀ crash, e ≠ .corrupt (.outOfMemory crash)) :
    (store.loadUsable name fs memory : Except OutOfMemory (Option σ)) = .ok none := by
  unfold loadUsable
  rw [h]
  cases e with
  | io path cause => rfl
  | corrupt cause =>
    cases cause with
    | outOfMemory crash => exact absurd rfl (he crash)
    | _ => rfl

theorem loadUsable_of_outOfMemory (h : (store.load name fs memory : Except StoreError (Option σ)) =
    .error (.corrupt (.outOfMemory crash))) :
    (store.loadUsable name fs memory : Except OutOfMemory (Option σ)) = .error crash := by
  unfold loadUsable
  rw [h]

/-- All that can come of loading a state that need not be there. -/
theorem loadUsable_cases (store : Store) (name : String) (fs : FileSystem) (memory : Nat) :
    (∃ s? : Option σ, store.load name fs memory = .ok s? ∧
      store.loadUsable name fs memory = .ok s?) ∨
    (∃ crash, (store.load name fs memory : Except StoreError (Option σ)) =
        .error (.corrupt (.outOfMemory crash)) ∧
      (store.loadUsable name fs memory : Except OutOfMemory (Option σ)) = .error crash) ∨
    ∃ e, (store.load name fs memory : Except StoreError (Option σ)) = .error e ∧
      (∀ crash, e ≠ .corrupt (.outOfMemory crash)) ∧
      (store.loadUsable name fs memory : Except OutOfMemory (Option σ)) = .ok none := by
  cases h : (store.load name fs memory : Except StoreError (Option σ)) with
  | ok s? => exact .inl ⟨s?, rfl, loadUsable_of_load h⟩
  | error e =>
    by_cases hend : ∃ crash, e = .corrupt (.outOfMemory crash)
    · obtain ⟨crash, rfl⟩ := hend
      exact .inr (.inl ⟨crash, rfl, loadUsable_of_outOfMemory h⟩)
    · rw [not_exists] at hend
      exact .inr (.inr ⟨e, rfl, hend, loadUsable_of_error h hend⟩)

theorem loadUsable_eq_some_iff :
    store.loadUsable name fs memory = .ok (some s) ↔ store.load name fs memory = .ok (some s) := by
  refine ⟨fun h => ?_, loadUsable_of_load⟩
  obtain ⟨s?, hload, husable⟩ | ⟨crash, -, husable⟩ | ⟨e, -, -, husable⟩ :=
    loadUsable_cases (σ := σ) store name fs memory
  · cases husable.symm.trans h
    exact hload
  · cases husable.symm.trans h
  · cases husable.symm.trans h

theorem loadUsable_eq_error_iff :
    (store.loadUsable name fs memory : Except OutOfMemory (Option σ)) = .error crash ↔
      (store.load name fs memory : Except StoreError (Option σ)) =
        .error (.corrupt (.outOfMemory crash)) := by
  refine ⟨fun h => ?_, loadUsable_of_outOfMemory⟩
  obtain ⟨s?, -, husable⟩ | ⟨crash', hload, husable⟩ | ⟨e, -, -, husable⟩ :=
    loadUsable_cases (σ := σ) store name fs memory
  · cases husable.symm.trans h
  · cases husable.symm.trans h
    exact hload
  · cases husable.symm.trans h

/-- What is loaded was read from the state file. -/
theorem loadUsable_eq_none (h : ∀ bytes, fs.contentAt (store.statePath name) = .ok bytes →
    ∀ s : σ, Persisted.ofState bytes memory ≠ .ok s)
    (hload : store.loadUsable name fs memory = .ok s?) : s? = none := by
  cases s? with
  | none => rfl
  | some s =>
    obtain ⟨bytes, hcontent, hstate⟩ := load_eq_some_iff.1 (loadUsable_eq_some_iff.1 hload)
    exact absurd hstate (h bytes hcontent s)

section LoadOrEmpty

variable {τ : Type} [Item τ] [Wire.Format τ] {root : String}

theorem loadOrEmpty_of_load {s : Snapshot τ} (h : store.load name fs memory = .ok (some s)) :
    store.loadOrEmpty name root fs memory = .ok s := by
  rw [loadOrEmpty, loadUsable_of_load h]
  rfl

theorem loadOrEmpty_of_none (h : store.loadUsable name fs memory = .ok (none : Option (Snapshot τ))) :
    store.loadOrEmpty name root fs memory = .ok (.empty root : Snapshot τ) := by
  rw [loadOrEmpty, h]
  rfl

end LoadOrEmpty

/-- Bytes that no state is read from count as none, or they end the program. -/
theorem countsAsNone_or_endsProgram {cause : CorruptState}
    (hcontent : fs.contentAt (store.statePath name) = .ok bytes)
    (h : (Persisted.ofState bytes memory : Except CorruptState σ) = .error cause) :
    store.CountsAsNone σ name fs memory ∨
      ∃ crash, cause = .outOfMemory crash ∧ store.EndsProgram σ name fs memory crash := by
  have hload := load_of_error hcontent h
  by_cases hend : ∃ crash, cause = .outOfMemory crash
  · obtain ⟨crash, rfl⟩ := hend
    exact .inr ⟨crash, rfl, hload, loadUsable_of_outOfMemory hload⟩
  · refine .inl ⟨⟨cause, hload⟩, loadUsable_of_error hload ?_⟩
    rintro crash ⟨⟩
    exact hend ⟨crash, rfl⟩

end BuildDelta.Store
