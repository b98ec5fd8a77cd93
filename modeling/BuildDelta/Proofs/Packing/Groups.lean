import BuildDelta.Proofs.Packing.Driver
/-!
# The groups that a packer makes

What packing does to a packer can be told by its groups alone. `GroupedBy s us groups` says that the
packer, starting from the state `s`, took the units `us` group by group: it accepted each group's units
one after the other, and refused the unit that begins the next one in the state just after. Whatever a
lawful packer keeps in its states, the driver ends in no other way (`pack_groupedBy`): a packing that
succeeds has grouped all units, one that meets a unit too large has grouped the units before it, and one
that finds the open group in use has done nothing.
-/

namespace BuildDelta.Packing

variable {σ υ : Type} [Packer σ υ]

/-- The state after units have been offered one after the other. -/
def offerAll (s : σ) (us : List υ) : σ := us.foldl (fun s u => (tryAdd s u).2) s

/-- Whether each of the units is accepted, in the state that the ones before it leave. -/
def Accepts : σ → List υ → Prop
  | _, [] => True
  | s, u :: us => (tryAdd s u).1 = true ∧ Accepts (tryAdd s u).2 us

/-- The state after groups have been offered and sealed one after the other. -/
def sealedAll (s : σ) (groups : List (List υ)) : σ :=
  groups.foldl (fun s g => startNewGroup (offerAll s g)) s

/-- Units in the groups that a packer makes of them. A group ends where the packer refuses a unit. -/
structure GroupedBy (s : σ) (us : List υ) (groups : List (List υ)) : Prop where
  flatten_eq : groups.flatten = us
  ne_nil : ∀ g ∈ groups, g ≠ []
  accepted : ∀ before g after, groups = before ++ g :: after → Accepts (sealedAll s before) g
  refused : ∀ before g u next after, groups = before ++ g :: (u :: next) :: after →
    (tryAdd (offerAll (sealedAll s before) g) u).1 = false

theorem offerAll_append_singleton (s : σ) (us : List υ) (u : υ) :
    offerAll s (us ++ [u]) = (tryAdd (offerAll s us) u).2 := by
  rw [offerAll, List.foldl_append]
  rfl

theorem Accepts.append_singleton {s : σ} {us : List υ} {u : υ} (h : Accepts s us)
    (hu : (tryAdd (offerAll s us) u).1 = true) : Accepts s (us ++ [u]) := by
  induction us generalizing s with
  | nil => exact ⟨hu, trivial⟩
  | cons v us ih => exact ⟨h.1, ih h.2 hu⟩

/-- The open group gains exactly what is accepted. -/
theorem Accepts.batch_offerAll [HasReferences υ] [LawfulPacker σ υ] {s : σ} {us : List υ}
    (h : Accepts s us) : batch (offerAll s us) = batch s ++ us := by
  induction us generalizing s with
  | nil => exact (List.append_nil _).symm
  | cons u us ih =>
    have hrest : batch (offerAll (tryAdd s u).2 us) = batch (tryAdd s u).2 ++ us := ih h.2
    rw [batch_of_accepted s u h.1, List.append_assoc] at hrest
    exact hrest

namespace GroupedBy

variable {s : σ} {us g : List υ} {groups : List (List υ)}

theorem nil : GroupedBy s [] [] where
  flatten_eq := rfl
  ne_nil := by simp
  accepted before g after h := by simp at h
  refused before g u next after h := by simp at h

theorem cons (hne : g ≠ []) (haccepts : Accepts s g)
    (hstop : ∀ u ∈ us.head?, (tryAdd (offerAll s g) u).1 = false)
    (h : GroupedBy (startNewGroup (offerAll s g)) us groups) :
    GroupedBy s (g ++ us) (g :: groups) where
  flatten_eq := by rw [List.flatten_cons, h.flatten_eq]
  ne_nil := List.forall_mem_cons.2 ⟨hne, h.ne_nil⟩
  accepted before g' after heq := by
    obtain ⟨rfl, hrest⟩ | ⟨before', rfl, hrest⟩ := List.cons_eq_append_iff.1 heq
    · obtain ⟨rfl, -⟩ := List.cons.inj hrest
      exact haccepts
    · exact h.accepted before' g' after hrest
  refused before g' u next after heq := by
    obtain ⟨rfl, hrest⟩ | ⟨before', rfl, hrest⟩ := List.cons_eq_append_iff.1 heq
    · obtain ⟨rfl, hnext⟩ := List.cons.inj hrest
      have hhead := head?_of_mem_head? h.ne_nil (u :: next) (by rw [← hnext]; rfl)
      rw [h.flatten_eq] at hhead
      exact hstop u hhead.symm
    · exact h.refused before' g' u next after hrest

theorem singleton (hne : g ≠ []) (haccepts : Accepts s g) : GroupedBy s g [g] := by
  have hcons : GroupedBy s (g ++ []) [g] := nil.cons hne haccepts (by simp)
  rwa [List.append_nil] at hcons

end GroupedBy

variable [HasReferences υ]

/-- The ways in which packing can end when the open group holds the units `held`, the units `us` from
place `i` on are still to come, and the group was opened in the state `o`. -/
def EndsAs (i : Nat) (o : σ) (held us : List υ) (s' : σ) : Except PackError (List (List υ)) → Prop
  | .ok groups => GroupedBy o (held ++ us) groups ∧ batch s' = []
  | .error e => ∃ k u groups, us[k]? = some u ∧ e = tooLarge (i + k) u ∧
      GroupedBy o (held ++ us.take k) groups ∧ batch (sealedAll o groups) = [] ∧
      (tryAdd (sealedAll o groups) u).1 = false ∧ batch s' = []

section EndsAs

variable {i : Nat} {o s' : σ} {held us : List υ} {u : υ} {r : Except PackError (List (List υ))}

/-- A unit that was accepted might as well have been held before. -/
theorem EndsAs.of_held (h : EndsAs (i + 1) o (held ++ [u]) us s' r) : EndsAs i o held (u :: us) s' r := by
  cases r with
  | ok groups =>
    rw [EndsAs, List.append_assoc] at h
    exact h
  | error e =>
    obtain ⟨k, v, groups, hv, he, hgroups, hrest⟩ := h
    rw [List.append_assoc] at hgroups
    rw [Nat.add_right_comm] at he
    exact ⟨k + 1, v, groups, hv, he, hgroups, hrest⟩

/-- What is still to come begins a group of its own if its first unit was refused. -/
theorem EndsAs.cons (hne : held ≠ []) (haccepts : Accepts o held)
    (hrefused : (tryAdd (offerAll o held) u).1 = false)
    (h : EndsAs (i + 1) (startNewGroup (offerAll o held)) [u] us s' r) :
    EndsAs i o held (u :: us) s' (r.map (held :: ·)) := by
  have hstop (vs : List υ) : ∀ v ∈ (u :: vs).head?, (tryAdd (offerAll o held) v).1 = false := by
    intro v hv
    obtain rfl : u = v := Option.some.inj hv
    exact hrefused
  cases r with
  | ok groups =>
    obtain ⟨hgroups, hempty⟩ := h
    exact ⟨hgroups.cons hne haccepts (hstop us), hempty⟩
  | error e =>
    obtain ⟨k, v, groups, hv, he, hgroups, hrest⟩ := h
    rw [Nat.add_right_comm] at he
    exact ⟨k + 1, v, held :: groups, hv, he, hgroups.cons hne haccepts (hstop (us.take k)), hrest⟩

end EndsAs

variable [LawfulPacker σ υ]

/-- The induction carries the state in which the open group was opened, for that is where the group's
units were accepted. -/
theorem Drives.endsAs {i : Nat} {s s' o : σ} {held us : List υ}
    {r : Except PackError (List (List υ))} (h : Drives i s us r s') (ho : batch o = [])
    (haccepts : Accepts o held) (hs : s = offerAll o held) : EndsAs i o held us s' r := by
  have hheld : batch s = held := by rw [hs, haccepts.batch_offerAll, ho, List.nil_append]
  induction h generalizing o held with
  | done hempty =>
    rw [hempty] at hheld
    subst hheld
    exact ⟨.nil, hempty⟩
  | flush hopen =>
    rw [hheld] at hopen ⊢
    refine ⟨?_, batch_startNewGroup _⟩
    rw [List.append_nil]
    exact .singleton hopen haccepts
  | @accept i s s' u us r haccepted _ ih =>
    subst hs
    refine EndsAs.of_held (ih ho (haccepts.append_singleton haccepted) ?_ ?_)
    · exact (offerAll_append_singleton o held u).symm
    · rw [batch_of_accepted _ u haccepted, hheld]
  | @renew i s s' u us r hrefused hopen haccepted _ ih =>
    rw [hheld] at hopen ⊢
    subst hs
    refine EndsAs.cons hopen haccepts hrefused (ih (batch_startNewGroup _) ⟨haccepted, trivial⟩ rfl ?_)
    rw [batch_of_accepted _ u haccepted, batch_startNewGroup, List.nil_append]
  | @giveUp i s u us hrefused hempty =>
    rw [hempty] at hheld
    subst hheld hs
    exact ⟨0, u, [], rfl, rfl, .nil, ho, hrefused, batch_startNewGroup _⟩
  | @giveUpAgain i s u us hrefused hopen hagain =>
    rw [hheld] at hopen
    subst hs
    refine ⟨0, u, [held], rfl, rfl, ?_, batch_startNewGroup _, hagain, batch_startNewGroup _⟩
    rw [List.take_zero, List.append_nil]
    exact .singleton hopen haccepts

/-- Packing neither loses nor repeats a unit, whatever the packer. If it succeeds, all units are in
groups as the packer made them, in their order; if a unit is too large, the packer refused it with an
empty group, after it had accepted all units before; either way it is left without an open group. If it
starts with an open group, nothing happens. -/
theorem pack_groupedBy (s : σ) (us : List υ) :
    (∀ groups, (pack s us).1 = .ok groups →
      GroupedBy s us groups ∧ batch s = [] ∧ batch (pack s us).2 = []) ∧
    (∀ i f m, (pack s us).1 = .error (.unitTooLarge i f m) →
      ∃ u groups, us[i]? = some u ∧ f = distinct (HasReferences.fields u) ∧
        m = distinct (HasReferences.methods u) ∧ GroupedBy s (us.take i) groups ∧
        batch (sealedAll s groups) = [] ∧ (tryAdd (sealedAll s groups) u).1 = false ∧
        batch (pack s us).2 = []) ∧
    (∀ n, (pack s us).1 = .error (.groupNotEmpty n) →
      (pack s us).2 = s ∧ n = (batch s).length ∧ batch s ≠ []) := by
  by_cases hempty : batch s = []
  · have hends : EndsAs 0 s [] us (pack s us).2 (pack s us).1 := by
      rw [pack_of_empty hempty]
      exact (drives_packFrom 0 s us).endsAs hempty trivial rfl
    refine ⟨fun groups hok => ?_, fun i f m herror => ?_, fun n herror => ?_⟩
    · rw [hok] at hends
      exact ⟨hends.1, hempty, hends.2⟩
    · rw [herror] at hends
      obtain ⟨k, u, groups, hu, he, hgroups, hsealed, hrefused, hlast⟩ := hends
      obtain ⟨rfl, rfl, rfl⟩ := PackError.unitTooLarge.inj he
      rw [Nat.zero_add]
      exact ⟨u, groups, hu, rfl, rfl, hgroups, hsealed, hrefused, hlast⟩
    · rw [herror] at hends
      obtain ⟨k, u, groups, -, he, -⟩ := hends
      exact PackError.noConfusion he
  · rw [pack_of_open hempty]
    refine ⟨fun groups hok => ?_, fun i f m herror => ?_, fun n herror => ?_⟩
    · simp at hok
    · simp at herror
    · obtain rfl := PackError.groupNotEmpty.inj (Except.error.inj herror)
      exact ⟨rfl, rfl, hempty⟩

/-- A packer whose groups get smaller: each new group has room for one unit less. -/
structure Dwindling where
  room : Nat
  batch : List CompilationUnit

instance : Packer Dwindling CompilationUnit where
  tryAdd s u := if s.batch.length < s.room then (true, ⟨s.room, s.batch ++ [u]⟩) else (false, s)
  startNewGroup s := ⟨s.room - 1, []⟩
  batch s := s.batch

instance : LawfulPacker Dwindling CompilationUnit where
  batch_of_accepted s u haccepted := by
    by_cases hroom : s.batch.length < s.room
    · simp only [tryAdd, if_pos hroom, batch]
    · simp [tryAdd, hroom] at haccepted
  state_of_refused s u hrefused := by
    by_cases hroom : s.batch.length < s.room
    · simp [tryAdd, hroom] at hrefused
    · simp only [tryAdd, if_neg hroom]
  batch_startNewGroup _ := rfl
  sealGroup_eq _ := rfl

private def bare (name : String) : CompilationUnit := ⟨name, [], []⟩

/-- Room for two units, then for one: three units make two groups, and the fourth is too large. -/
theorem pack_groupedBy_dwindling :
    let s : Dwindling := ⟨2, []⟩
    let us := ["a", "b", "c", "d"].map bare
    let groups := [["a", "b"].map bare, ["c"].map bare]
    LawfulPacker Dwindling CompilationUnit ∧
      ((pack s (us.take 3)).1 = .ok groups ∧ GroupedBy s (us.take 3) groups ∧
        batch (pack s (us.take 3)).2 = []) ∧
      ((pack s us).1 = .error (.unitTooLarge 3 0 0) ∧
        ∃ made, GroupedBy s (us.take 3) made ∧ (tryAdd (sealedAll s made) (bare "d")).1 = false ∧
          batch (pack s us).2 = []) ∧
      (pack (offerAll s (us.take 1)) us).2 = offerAll s (us.take 1) := by
  intro s us groups
  have hok := (pack_groupedBy s (us.take 3)).1 groups rfl
  obtain ⟨u, made, hu, -, -, hmade, -, hrefused, hlast⟩ := (pack_groupedBy s us).2.1 3 0 0 (by cbv)
  obtain rfl : bare "d" = u := Option.some.inj hu
  have hopen := (pack_groupedBy (offerAll s (us.take 1)) us).2.2 1 rfl
  exact ⟨inferInstance, ⟨rfl, hok.1, hok.2.2⟩, ⟨by cbv, made, hmade, hrefused, hlast⟩, hopen.1⟩

end BuildDelta.Packing
