import Mathlib.Data.List.Perm.Basic
/-!
# Calculations that did not fail

What must have succeeded for a calculation in several steps to give a result.
-/

namespace BuildDelta

variable {α β ε ε' : Type}

theorem bind_eq_ok {x : Except ε α} {f : α → Except ε β} {b : β} :
    x >>= f = .ok b ↔ ∃ a, x = .ok a ∧ f a = .ok b := by
  cases x with
  | error e => exact ⟨nofun, nofun⟩
  | ok a =>
    constructor
    · intro h
      exact ⟨a, rfl, h⟩
    · intro h
      obtain ⟨_, ⟨⟩, h⟩ := h
      exact h

/-- The first step that fails fails for the whole. -/
theorem bind_eq_error {x : Except ε α} {f : α → Except ε β} {e : ε} :
    x >>= f = .error e ↔ x = .error e ∨ ∃ a, x = .ok a ∧ f a = .error e := by
  cases x with
  | error e' =>
    constructor
    · intro h
      cases h
      exact .inl rfl
    · rintro (h | ⟨_, ⟨⟩, -⟩)
      cases h
      rfl
  | ok a =>
    constructor
    · intro h
      exact .inr ⟨a, rfl, h⟩
    · rintro (h | ⟨_, ⟨⟩, h⟩)
      · cases h
      · exact h

theorem map_eq_ok {x : Except ε α} {f : α → β} {b : β} :
    x.map f = .ok b ↔ ∃ a, x = .ok a ∧ f a = b := by
  cases x with
  | error e => exact ⟨nofun, nofun⟩
  | ok a =>
    constructor
    · intro h
      cases h
      exact ⟨a, rfl, rfl⟩
    · intro h
      obtain ⟨_, ⟨⟩, rfl⟩ := h
      rfl

theorem mapError_eq_ok {x : Except ε α} {f : ε → ε'} {a : α} :
    x.mapError f = .ok a ↔ x = .ok a := by
  cases x with
  | error e => exact ⟨nofun, nofun⟩
  | ok b =>
    constructor
    · intro h
      cases h
      rfl
    · intro h
      cases h
      rfl

theorem mapError_eq_error {x : Except ε α} {f : ε → ε'} {e : ε'} :
    x.mapError f = .error e ↔ ∃ e', x = .error e' ∧ f e' = e := by
  cases x with
  | error e' =>
    constructor
    · intro h
      cases h
      exact ⟨e', rfl, rfl⟩
    · rintro ⟨_, ⟨⟩, rfl⟩
      rfl
  | ok a => exact ⟨nofun, nofun⟩

/-- A list of results is what each element gave. -/
theorem mapM_eq_ok_iff {f : α → Except ε β} {as : List α} {bs : List β} :
    as.mapM f = .ok bs ↔ as.map f = bs.map .ok := by
  induction as generalizing bs with
  | nil =>
    cases bs with
    | nil => exact ⟨fun _ => rfl, fun _ => rfl⟩
    | cons => exact ⟨nofun, nofun⟩
  | cons a as ih =>
    rw [List.mapM_cons, bind_eq_ok]
    constructor
    · rintro ⟨b, ha, h⟩
      obtain ⟨rest, has, h⟩ := bind_eq_ok.1 h
      cases h
      rw [List.map_cons, List.map_cons, ha, ih.1 has]
    · intro h
      cases bs with
      | nil => cases h
      | cons b bs =>
        rw [List.map_cons, List.map_cons, List.cons.injEq] at h
        exact ⟨b, h.1, bind_eq_ok.2 ⟨bs, ih.2 h.2, rfl⟩⟩

theorem exists_of_mapM_eq_ok {f : α → Except ε β} {as : List α} {bs : List β}
    (h : as.mapM f = .ok bs) : ∀ a ∈ as, ∃ b, f a = .ok b := by
  intro a ha
  have hmem : f a ∈ as.map f := List.mem_map_of_mem ha
  rw [mapM_eq_ok_iff.1 h] at hmem
  obtain ⟨b, -, heq⟩ := List.mem_map.1 hmem
  exact ⟨b, heq.symm⟩

theorem exists_mapM_eq_ok {f : α → Except ε β} {as : List α} (h : ∀ a ∈ as, ∃ b, f a = .ok b) :
    ∃ bs, as.mapM f = .ok bs := by
  induction as with
  | nil => exact ⟨[], rfl⟩
  | cons a as ih =>
    rw [List.forall_mem_cons] at h
    obtain ⟨⟨b, ha⟩, hrest⟩ := h
    obtain ⟨bs, has⟩ := ih hrest
    exact ⟨b :: bs, mapM_eq_ok_iff.2 (by rw [List.map_cons, List.map_cons, ha, mapM_eq_ok_iff.1 has])⟩

/-- What fails on the whole list fails on the first element on which it fails. -/
theorem exists_first_of_mapM_eq_error {f : α → Except ε β} {as : List α} {e : ε}
    (h : as.mapM f = .error e) :
    ∃ front a back, as = front ++ a :: back ∧ (∀ a' ∈ front, ∃ b, f a' = .ok b) ∧ f a = .error e := by
  induction as with
  | nil => cases h
  | cons a as ih =>
    rw [List.mapM_cons, bind_eq_error] at h
    rcases h with ha | ⟨b, hb, h⟩
    · exact ⟨[], a, as, rfl, List.forall_mem_nil _, ha⟩
    · rcases bind_eq_error.1 h with has | ⟨_, -, ⟨⟩⟩
      obtain ⟨front, a', back, rfl, hfront, ha'⟩ := ih has
      exact ⟨a :: front, a', back, rfl, List.forall_mem_cons.2 ⟨⟨b, hb⟩, hfront⟩, ha'⟩

theorem exists_of_mapM_eq_error {f : α → Except ε β} {as : List α} {e : ε}
    (h : as.mapM f = .error e) : ∃ a ∈ as, f a = .error e := by
  obtain ⟨front, a, back, rfl, -, ha⟩ := exists_first_of_mapM_eq_error h
  exact ⟨a, List.mem_append_right front List.mem_cons_self, ha⟩

theorem mem_of_mapM {f : α → Except ε β} {as : List α} {bs : List β} (h : as.mapM f = .ok bs) (b : β) :
    b ∈ bs ↔ ∃ a ∈ as, f a = .ok b := by
  have hmap := mapM_eq_ok_iff.1 h
  rw [← List.mem_map, hmap, List.mem_map]
  constructor
  · intro hb
    exact ⟨b, hb, rfl⟩
  · rintro ⟨b', hb', heq⟩
    cases heq
    exact hb'

/-- The order of the elements is that of the results, and has nothing to do with which there are. -/
theorem mapM_of_perm {f : α → Except ε β} {as as' : List α} {bs : List β} (h : as.Perm as')
    (hbs : as.mapM f = .ok bs) : ∃ bs', as'.mapM f = .ok bs' ∧ bs.Perm bs' := by
  obtain ⟨bs', hbs'⟩ : ∃ bs', as'.mapM f = .ok bs' := by
    apply exists_mapM_eq_ok
    intro a ha
    exact exists_of_mapM_eq_ok hbs a (h.mem_iff.2 ha)
  refine ⟨bs', hbs', ?_⟩
  have hresults := h.map f
  rw [mapM_eq_ok_iff.1 hbs, mapM_eq_ok_iff.1 hbs'] at hresults
  exact (List.map_perm_map_iff fun _ _ => Except.ok.inj).1 hresults

/-- What can be read back tells apart what it was written for. -/
theorem eq_iff_of_read_back (write : α → β) (read : β → Except ε α) {a a' : α}
    (h : read (write a) = .ok a) (h' : read (write a') = .ok a') : write a = write a' ↔ a = a' := by
  constructor
  · intro heq
    rw [heq, h'] at h
    exact (Except.ok.inj h).symm
  · rintro rfl
    rfl

end BuildDelta
