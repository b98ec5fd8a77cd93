import BuildDelta.Proofs.Packing.Accounting
import BuildDelta.Proofs.Packing.Greedy
/-!
# How packing ends

A counter refuses a unit for one of two reasons, that the open group is full or that no group could
hold the unit, and packing tells them apart by offering the unit again to a fresh group. That this is
right rests on the pool being empty whenever the group is: then a refusal by an empty group speaks of
the unit alone, so that packing fails exactly when a unit is too large by itself, and names the first
one (`Drives.explains`), and then the counter is as new however packing ends (`Drives.eq_new`).
-/

namespace BuildDelta.Packing

variable {υ : Type} [HasReferences υ] {capacity : Capacity}

theorem fits_iff_card {us : List υ} :
    Fits capacity us ↔
      (fieldsOf us).toFinset.card ≤ capacity.fields ∧ (methodsOf us).toFinset.card ≤ capacity.methods := by
  rw [Fits, distinct_eq_card, distinct_eq_card]

/-- Whether a unit has more different references of one sort than a group may hold. -/
def Oversized (capacity : Capacity) (u : υ) : Prop :=
  capacity.fields < (HasReferences.fields u).toFinset.card ∨
    capacity.methods < (HasReferences.methods u).toFinset.card

instance (capacity : Capacity) (u : υ) : Decidable (Oversized capacity u) :=
  inferInstanceAs (Decidable (_ ∨ _))

theorem fits_singleton_iff {u : υ} : Fits capacity [u] ↔ ¬Oversized capacity u := by
  rw [fits_iff_card, fieldsOf_singleton, methodsOf_singleton, Oversized, not_or, Nat.not_lt, Nat.not_lt]

theorem tooLarge_eq (i : Nat) (u : υ) :
    tooLarge i u = .unitTooLarge i (HasReferences.fields u).toFinset.card
      (HasReferences.methods u).toFinset.card := by
  rw [tooLarge, distinct_eq_card, distinct_eq_card]

/-- Whether the unit `u` at place `i` is the first of the units that is too large by itself. -/
structure FirstOversized (capacity : Capacity) (us : List υ) (i : Nat) (u : υ) : Prop where
  getElem?_eq : us[i]? = some u
  oversized : Oversized capacity u
  before : ∀ v ∈ us.take i, ¬Oversized capacity v

namespace FirstOversized

variable {us : List υ} {i j : Nat} {u v : υ}

theorem head (h : Oversized capacity u) : FirstOversized capacity (u :: us) 0 u :=
  ⟨rfl, h, by simp⟩

theorem cons (hu : ¬Oversized capacity u) (h : FirstOversized capacity us i v) :
    FirstOversized capacity (u :: us) (i + 1) v :=
  ⟨h.getElem?_eq, h.oversized, List.forall_mem_cons.2 ⟨hu, h.before⟩⟩

theorem of_cons (h : FirstOversized capacity (v :: us) (i + 1) u) :
    ¬Oversized capacity v ∧ FirstOversized capacity us i u := by
  have hbefore := List.forall_mem_cons.1 h.before
  exact ⟨hbefore.1, h.getElem?_eq, h.oversized, hbefore.2⟩

theorem mem (h : FirstOversized capacity us i u) : u ∈ us :=
  List.mem_of_getElem? h.getElem?_eq

theorem le (h : FirstOversized capacity us i u) (h' : FirstOversized capacity us j v) : i ≤ j := by
  apply Nat.le_of_not_lt
  intro hlt
  have hmem : v ∈ us.take i := by
    refine List.mem_of_getElem? (i := j) ?_
    rw [List.getElem?_take_of_lt hlt, h'.getElem?_eq]
  exact h.before v hmem h'.oversized

theorem unique (h : FirstOversized capacity us i u) (h' : FirstOversized capacity us j v) :
    i = j ∧ u = v := by
  obtain rfl : i = j := Nat.le_antisymm (h.le h') (h'.le h)
  exact ⟨rfl, Option.some.inj (h.getElem?_eq.symm.trans h'.getElem?_eq)⟩

end FirstOversized

namespace ReferenceCounter

variable {s : ReferenceCounter υ}

theorem Accounts.startNewGroup_eq (h : Accounts capacity s) : Packer.startNewGroup s = new capacity := by
  rw [← h.capacity_eq]
  rfl

/-- No references are left behind where there are no units. -/
theorem Accounts.eq_new (h : Accounts capacity s) (hempty : Packer.batch s = []) : s = new capacity := by
  obtain ⟨⟨held, fields, methods, _, _⟩, units⟩ := s
  obtain rfl : units = [] := hempty
  obtain rfl : held = capacity := h.capacity_eq
  obtain rfl : fields = ∅ := h.fields_eq
  obtain rfl : methods = ∅ := h.methods_eq
  rfl

theorem Accounts.not_oversized {u : υ} (h : Accounts capacity s)
    (haccepted : (Packer.tryAdd s u).1 = true) : ¬Oversized capacity u := by
  have hfits : Fits capacity (Packer.batch s ++ [u]) := (h.accepts_iff u).1 haccepted
  exact fits_singleton_iff.1 (hfits.of_subset (List.subset_append_right _ _))

theorem Accounts.oversized {u : υ} (h : Accounts capacity s) (hempty : Packer.batch s = [])
    (hrefused : (Packer.tryAdd s u).1 = false) : Oversized capacity u := by
  by_contra hsmall
  have haccepted : (Packer.tryAdd s u).1 = true := by
    rw [h.accepts_iff, hempty, List.nil_append]
    exact fits_singleton_iff.2 hsmall
  exact Bool.false_ne_true (hrefused.symm.trans haccepted)

end ReferenceCounter

/-- What a result says about the units that were packed from place `i` on. -/
def Explains (capacity : Capacity) (i : Nat) (us : List υ) : Except PackError (List (List υ)) → Prop
  | .ok _ => ∀ u ∈ us, ¬Oversized capacity u
  | .error e => ∃ k u, FirstOversized capacity us k u ∧ e = tooLarge (i + k) u

theorem Explains.cons {i : Nat} {u : υ} {us : List υ} {r : Except PackError (List (List υ))}
    (hu : ¬Oversized capacity u) (h : Explains capacity (i + 1) us r) :
    Explains capacity i (u :: us) r := by
  cases r with
  | ok groups => exact List.forall_mem_cons.2 ⟨hu, h⟩
  | error e =>
    obtain ⟨k, v, hfirst, he⟩ := h
    rw [Nat.add_right_comm] at he
    exact ⟨k + 1, v, hfirst.cons hu, he⟩

theorem Explains.map {i : Nat} {us : List υ} {r : Except PackError (List (List υ))}
    (h : Explains capacity i us r) (f : List (List υ) → List (List υ)) :
    Explains capacity i us (r.map f) := by
  cases r with
  | ok groups => exact h
  | error e => exact h

section Drives

variable {i : Nat} {s s' : ReferenceCounter υ} {us : List υ} {r : Except PackError (List (List υ))}

/-- The induction keeps the pool in step with the group, so that each answer can be read off the units. -/
theorem Drives.explains (h : Drives i s us r s') (hs : s.Accounts capacity) :
    Explains capacity i us r := by
  induction h with
  | done => exact fun _ hu => absurd hu List.not_mem_nil
  | flush => exact fun _ hu => absurd hu List.not_mem_nil
  | accept haccepted _ ih => exact (ih (hs.tryAdd _)).cons (hs.not_oversized haccepted)
  | renew _ _ haccepted _ ih =>
    have hfresh := hs.startNewGroup
    exact ((ih (hfresh.tryAdd _)).cons (hfresh.not_oversized haccepted)).map _
  | giveUp hrefused hempty => exact ⟨0, _, .head (hs.oversized hempty hrefused), rfl⟩
  | giveUpAgain _ _ hagain =>
    exact ⟨0, _, .head (hs.startNewGroup.oversized (batch_startNewGroup _) hagain), rfl⟩

theorem Drives.eq_new (h : Drives i s us r s') (hs : s.Accounts capacity) : s' = .new capacity := by
  induction h with
  | done hempty => exact hs.eq_new hempty
  | flush => exact hs.startNewGroup_eq
  | accept _ _ ih => exact ih (hs.tryAdd _)
  | renew _ _ _ _ ih => exact ih (hs.startNewGroup.tryAdd _)
  | giveUp => exact hs.startNewGroup_eq
  | giveUpAgain => exact hs.startNewGroup.startNewGroup_eq

end Drives

variable {s : ReferenceCounter υ} {us : List υ}

theorem pack_explains (hs : s.Accounts capacity) (hempty : batch s = []) :
    Explains capacity 0 us (pack s us).1 := by
  rw [pack_of_empty hempty]
  exact (drives_packFrom 0 s us).explains hs

theorem pack_eq_new (hs : s.Accounts capacity) (hempty : batch s = []) :
    (pack s us).2 = .new capacity := by
  rw [pack_of_empty hempty]
  exact (drives_packFrom 0 s us).eq_new hs

theorem pack_eq_error_iff (hs : s.Accounts capacity) (hempty : batch s = []) {e : PackError} :
    (pack s us).1 = .error e ↔ ∃ i u, FirstOversized capacity us i u ∧ e = tooLarge i u := by
  have hexplains : Explains capacity 0 us (pack s us).1 := pack_explains hs hempty
  constructor
  · intro herror
    rw [herror] at hexplains
    obtain ⟨i, u, hfirst, he⟩ := hexplains
    rw [Nat.zero_add] at he
    exact ⟨i, u, hfirst, he⟩
  · rintro ⟨i, u, hfirst, rfl⟩
    cases hr : (pack s us).1 with
    | ok groups =>
      rw [hr] at hexplains
      exact absurd hfirst.oversized (hexplains u hfirst.mem)
    | error e =>
      rw [hr] at hexplains
      obtain ⟨j, v, hfirst', rfl⟩ := hexplains
      obtain ⟨rfl, rfl⟩ := hfirst.unique hfirst'
      rw [Nat.zero_add]

theorem exists_pack_eq_ok_iff (hs : s.Accounts capacity) (hempty : batch s = []) :
    (∃ groups, (pack s us).1 = .ok groups) ↔ ∀ u ∈ us, ¬Oversized capacity u := by
  constructor
  · rintro ⟨groups, hok⟩
    have hexplains : Explains capacity 0 us (pack s us).1 := pack_explains hs hempty
    rwa [hok] at hexplains
  · intro hsmall
    cases hr : (pack s us).1 with
    | ok groups => exact ⟨groups, rfl⟩
    | error e =>
      obtain ⟨i, u, hfirst, -⟩ := (pack_eq_error_iff hs hempty).1 hr
      exact absurd hfirst.oversized (hsmall u hfirst.mem)

theorem exists_pack_eq_error_iff (hs : s.Accounts capacity) (hempty : batch s = []) :
    (∃ e, (pack s us).1 = .error e) ↔ ∃ u ∈ us, Oversized capacity u := by
  constructor
  · rintro ⟨e, herror⟩
    obtain ⟨i, u, hfirst, -⟩ := (pack_eq_error_iff hs hempty).1 herror
    exact ⟨u, hfirst.mem, hfirst.oversized⟩
  · rintro ⟨u, hu, hlarge⟩
    cases hr : (pack s us).1 with
    | ok groups => exact absurd hlarge ((exists_pack_eq_ok_iff hs hempty).1 ⟨groups, hr⟩ u hu)
    | error e => exact ⟨e, rfl⟩

/-- Packing fails exactly when it must. With an open group nothing happens at all. Otherwise it fails
if and only if some unit is too large by itself, whatever comes before or after it; the error names the
first such unit, by its place and by how many different references it has of each sort; and whether
packing fails or not, the counter is as new afterwards, so that another packing starts afresh. -/
theorem pack_fails_exactly (capacity : Capacity) (s : ReferenceCounter υ) (us : List υ)
    (hreachable : s.Reachable capacity) :
    (batch s ≠ [] → pack s us = (.error (.groupNotEmpty (batch s).length), s)) ∧
    (batch s = [] →
      ((∃ e, (pack s us).1 = .error e) ↔ ∃ u ∈ us, Oversized capacity u) ∧
      (∀ e, (pack s us).1 = .error e ↔ ∃ i u, us[i]? = some u ∧ Oversized capacity u ∧
        (∀ v ∈ us.take i, ¬Oversized capacity v) ∧
        e = .unitTooLarge i (HasReferences.fields u).toFinset.card
          (HasReferences.methods u).toFinset.card) ∧
      (batch (pack s us).2 = [] ∧ (pack s us).2.pool.isEmpty = true ∧
        (pack s us).2.pool.capacity = s.pool.capacity) ∧
      ∀ vs, pack (pack s us).2 vs = pack (.new capacity) vs) := by
  have hs : s.Accounts capacity := hreachable.accounts
  refine ⟨fun hopen => pack_of_open hopen us, fun hempty => ?_⟩
  refine ⟨exists_pack_eq_error_iff hs hempty, fun e => ?_, ?_⟩
  · rw [pack_eq_error_iff hs hempty]
    constructor
    · rintro ⟨i, u, ⟨hu, hlarge, hbefore⟩, rfl⟩
      exact ⟨i, u, hu, hlarge, hbefore, tooLarge_eq i u⟩
    · rintro ⟨i, u, hu, hlarge, hbefore, rfl⟩
      exact ⟨i, u, ⟨hu, hlarge, hbefore⟩, (tooLarge_eq i u).symm⟩
  · rw [pack_eq_new hs hempty, hs.capacity_eq]
    refine ⟨⟨rfl, ?_, rfl⟩, fun _ => rfl⟩
    simp [ReferenceCounter.new, Pool.empty, Pool.isEmpty]

private def fieldNamed (name : String) : FieldRef := ⟨"LA;", name, "I"⟩

/-- A unit that names two fields five times, and two units that name too many. -/
private def repeating : List CompilationUnit :=
  [⟨"small", ["x", "y", "x", "y", "x"].map fieldNamed, []⟩,
    ⟨"large", ["x", "y", "z", "x"].map fieldNamed, []⟩,
    ⟨"larger", ["v", "x", "y", "z"].map fieldNamed, []⟩]

/-- Two fields to a group, and a counter that has sealed a group before, or holds one open. -/
theorem pack_fails_exactly_repeating :
    let small : CompilationUnit := ⟨"small", [fieldNamed "z"], []⟩
    let start : History (ReferenceCounter CompilationUnit) CompilationUnit := .start (.new ⟨2, 0⟩)
    let sealed := (start.run [.tryAdd small, .sealGroup]).state
    let opened := (start.run [.tryAdd small]).state
    (sealed.Reachable ⟨2, 0⟩ ∧ batch sealed = [] ∧
      (pack sealed repeating).1 = .error (.unitTooLarge 1 3 0) ∧
      batch (pack sealed repeating).2 = []) ∧
    (opened.Reachable ⟨2, 0⟩ ∧ batch opened = [small] ∧
      pack opened repeating = (.error (.groupNotEmpty 1), opened)) := by
  intro small start sealed opened
  have hsealed : sealed.Reachable ⟨2, 0⟩ := ⟨_, rfl⟩
  have hopened : opened.Reachable ⟨2, 0⟩ := ⟨_, rfl⟩
  have hbatch : batch opened = [small] := by
    have hfits : Fits ⟨2, 0⟩ [small] := fits_singleton_iff.2 (by decide)
    have haccepted := ((ReferenceCounter.accounts_new ⟨2, 0⟩).accepts_iff small).2 hfits
    exact batch_of_accepted _ small haccepted
  obtain ⟨-, herror, hclean, -⟩ := (pack_fails_exactly ⟨2, 0⟩ sealed repeating hsealed).2 rfl
  have huntouched := (pack_fails_exactly ⟨2, 0⟩ opened repeating hopened).1 (by simp [hbatch])
  rw [hbatch] at huntouched
  refine ⟨⟨hsealed, rfl, (herror _).2 ⟨1, _, rfl, ?_, ?_, ?_⟩, hclean.1⟩, hopened, hbatch, huntouched⟩
  · decide
  · decide
  · decide

end BuildDelta.Packing
