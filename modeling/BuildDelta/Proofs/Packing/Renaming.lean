import BuildDelta.Proofs.Packing.Stability
import Mathlib.Data.List.Forall2
/-!
# Renamed references

Which references a unit names does not matter to packing, only which of them are the same. Two
sequences of units that name the same references under other names are cut at the same places, or fail
at the same unit with the same numbers (`grouping_sees_coincidence_only`). The runs need not be
followed side by side: whether units fit into a group is the same on both sides (`fits_iff_of_renamed`),
so the image of a greedy cut is a greedy cut (`GreedyCut.transfer`), and there is no other one.
-/

namespace BuildDelta.Packing

/-- The second list names the images of what the first one names, in any order and any number of
times. -/
def Images {α β : Type} (f : α → β) (as : List α) (bs : List β) : Prop :=
  ∀ b, b ∈ bs ↔ ∃ a ∈ as, f a = b

namespace Images

variable {α β : Type} {f : α → β}

theorem map (f : α → β) (as : List α) : Images f as (as.map f) :=
  fun _ => List.mem_map

theorem card_eq [DecidableEq α] [DecidableEq β] {as : List α} {bs : List β} (h : Images f as bs)
    (hinj : Set.InjOn f {a | a ∈ as}) : bs.toFinset.card = as.toFinset.card := by
  have himage : bs.toFinset = as.toFinset.image f := by
    ext b
    rw [List.mem_toFinset, h b, Finset.mem_image]
    simp only [List.mem_toFinset]
  rw [himage, Finset.card_image_of_injOn]
  rwa [List.coe_toFinset]

theorem flatMap {υ ω : Type} {refs : υ → List α} {refs' : ω → List β} {us : List υ} {vs : List ω}
    (h : List.Forall₂ (fun u v => Images f (refs u) (refs' v)) us vs) :
    Images f (us.flatMap refs) (vs.flatMap refs') := by
  induction h with
  | nil => simp [Images]
  | cons hfirst _ ih =>
    intro b
    simp only [List.flatMap_cons, List.mem_append, hfirst b, ih b, or_and_right, exists_or]

end Images

section GreedyCut

variable {υ ω : Type} {R : υ → ω → Prop}

/-- Any cut of a sequence can be made in a related one. -/
theorem exists_related_cut {groups : List (List υ)} {vs : List ω}
    (h : List.Forall₂ R groups.flatten vs) :
    ∃ groups', groups'.flatten = vs ∧ List.Forall₂ (List.Forall₂ R) groups groups' := by
  induction groups generalizing vs with
  | nil => exact ⟨[], (List.forall₂_nil_left_iff.1 h).symm, .nil⟩
  | cons g groups ih =>
    rw [List.flatten_cons] at h
    have hfirst := List.forall₂_take g.length h
    have hrest := List.forall₂_drop g.length h
    rw [List.take_left] at hfirst
    rw [List.drop_left] at hrest
    obtain ⟨groups', hflatten, hgroups⟩ := ih hrest
    exact ⟨vs.take g.length :: groups', by rw [List.flatten_cons, hflatten, List.take_append_drop],
      .cons hfirst hgroups⟩

theorem GreedyCut.transfer {fits : List υ → Prop} {fits' : List ω → Prop} {us : List υ}
    {groups : List (List υ)} {groups' : List (List ω)}
    (hfits : ∀ as bs, as ⊆ us → List.Forall₂ R as bs → (fits as ↔ fits' bs))
    (h : GreedyCut fits us groups) (hrelated : List.Forall₂ (List.Forall₂ R) groups groups') :
    GreedyCut fits' groups'.flatten groups' := by
  induction hrelated generalizing us with
  | nil => exact .nil
  | @cons g g' groups groups' hg hgroups ih =>
    obtain rfl := h.flatten_eq
    have hne : g' ≠ [] := by
      rw [← List.length_pos_iff, ← hg.length_eq, List.length_pos_iff]
      exact h.ne_nil g List.mem_cons_self
    have hgsub : g ⊆ (g :: groups).flatten := List.subset_append_left _ _
    have hsub : groups.flatten ⊆ (g :: groups).flatten := List.subset_append_right _ _
    have htail := ih (fun as bs has => hfits as bs (List.Subset.trans has hsub)) h.tail
    refine htail.cons hne ((hfits g g' hgsub hg).1 (h.fits_all g List.mem_cons_self)) ?_
    -- The unit that stopped the image of the group is the image of the one that stopped the group.
    intro v hv hgrown
    obtain ⟨rest', hrest'⟩ := List.head?_eq_some_iff.1 hv
    have hall : List.Forall₂ R groups.flatten groups'.flatten := List.rel_flatten hgroups
    rw [hrest'] at hall
    obtain ⟨u, rest, huv, -, hrest⟩ := List.forall₂_cons_right_iff.1 hall
    have hnext : List.Forall₂ R (g ++ [u]) (g' ++ [v]) := List.rel_append hg (.cons huv .nil)
    have hnextSub : g ++ [u] ⊆ (g :: groups).flatten := by
      rw [List.flatten_cons, hrest]
      simp
    exact h.not_fits_next (by rw [hrest]; rfl) ((hfits _ _ hnextSub hnext).2 hgrown)

end GreedyCut

variable {υ ω : Type} [HasReferences υ] [HasReferences ω]

/-- The second unit names the references of the first one under other names. -/
structure Renamed (φ : FieldRef → FieldRef) (ψ : MethodRef → MethodRef) (u : υ) (v : ω) : Prop where
  fields : Images φ (HasReferences.fields u) (HasReferences.fields v)
  methods : Images ψ (HasReferences.methods u) (HasReferences.methods v)

/-- Different references stay different, as far as the units name them. -/
structure Faithful (φ : FieldRef → FieldRef) (ψ : MethodRef → MethodRef) (us : List υ) : Prop where
  fields : Set.InjOn φ {r | r ∈ fieldsOf us}
  methods : Set.InjOn ψ {r | r ∈ methodsOf us}

section Renamed

variable {φ : FieldRef → FieldRef} {ψ : MethodRef → MethodRef} {capacity : Capacity}
  {us : List υ} {vs : List ω} {u : υ} {v : ω} {i : Nat}

theorem Faithful.of_subset {as : List υ} (h : Faithful φ ψ us) (hsub : as ⊆ us) : Faithful φ ψ as where
  fields := h.fields.mono (flatMap_subset _ hsub)
  methods := h.methods.mono (flatMap_subset _ hsub)

theorem Faithful.of_mem (h : Faithful φ ψ us) (hu : u ∈ us) : Faithful φ ψ [u] :=
  h.of_subset (by simpa using hu)

theorem fits_iff_of_renamed (hfaithful : Faithful φ ψ us)
    (h : List.Forall₂ (Renamed φ ψ) us vs) : Fits capacity us ↔ Fits capacity vs := by
  have hfields : Images φ (fieldsOf us) (fieldsOf vs) := .flatMap (h.imp fun _ _ huv => huv.fields)
  have hmethods : Images ψ (methodsOf us) (methodsOf vs) :=
    .flatMap (h.imp fun _ _ huv => huv.methods)
  rw [fits_iff_card, fits_iff_card, hfields.card_eq hfaithful.fields,
    hmethods.card_eq hfaithful.methods]

theorem Renamed.oversized_iff (h : Renamed φ ψ u v) (hfaithful : Faithful φ ψ [u]) :
    Oversized capacity u ↔ Oversized capacity v := by
  rw [← not_iff_not, ← fits_singleton_iff, ← fits_singleton_iff]
  exact fits_iff_of_renamed hfaithful (.cons h .nil)

theorem Renamed.tooLarge_eq (h : Renamed φ ψ u v) (hfaithful : Faithful φ ψ [u]) :
    tooLarge i v = tooLarge i u := by
  have hfields := hfaithful.fields
  have hmethods := hfaithful.methods
  rw [fieldsOf_singleton] at hfields
  rw [methodsOf_singleton] at hmethods
  rw [Packing.tooLarge_eq, Packing.tooLarge_eq, h.fields.card_eq hfields, h.methods.card_eq hmethods]

theorem FirstOversized.renamed (h : FirstOversized capacity us i u) (hfaithful : Faithful φ ψ us)
    (hrenamed : List.Forall₂ (Renamed φ ψ) us vs) :
    ∃ v, Renamed φ ψ u v ∧ FirstOversized capacity vs i v := by
  induction hrenamed generalizing i with
  | nil => exact absurd h.mem List.not_mem_nil
  | @cons u' v' us vs huv _ ih =>
    have hiff : Oversized capacity u' ↔ Oversized capacity v' :=
      huv.oversized_iff (hfaithful.of_mem List.mem_cons_self)
    cases i with
    | zero =>
      obtain rfl : u' = u := Option.some.inj h.getElem?_eq
      exact ⟨v', huv, .head (hiff.1 h.oversized)⟩
    | succ i =>
      obtain ⟨hsmall, hrest⟩ := h.of_cons
      obtain ⟨v, huv', hfirst⟩ := ih hrest (hfaithful.of_subset (List.subset_cons_self _ _))
      exact ⟨v, huv', hfirst.cons (mt hiff.2 hsmall)⟩

end Renamed

/-- The parts of a reference, all of which have to agree for two references to be the same. -/
def FieldRef.parts (r : FieldRef) : String × String × String :=
  (r.declaringType, r.name, r.typeDescriptor)

def MethodRef.parts (r : MethodRef) : String × String × List String × String :=
  (r.declaringType, r.name, r.parameterTypes, r.returnType)

theorem FieldRef.parts_injective : Function.Injective FieldRef.parts := by
  rintro ⟨_, _, _⟩ ⟨_, _, _⟩ h
  simpa [FieldRef.parts] using h

theorem MethodRef.parts_injective : Function.Injective MethodRef.parts := by
  rintro ⟨_, _, _, _⟩ ⟨_, _, _, _⟩ h
  simpa [MethodRef.parts] using h

/-- What an open group is charged for: as many references as differ in some part. -/
theorem ReferenceCounter.Accounts.charged {capacity : Capacity} {s : ReferenceCounter υ}
    (hs : s.Accounts capacity) :
    s.pool.fields.size = ((fieldsOf s.batch).map FieldRef.parts).toFinset.card ∧
      s.pool.methods.size = ((methodsOf s.batch).map MethodRef.parts).toFinset.card := by
  rw [hs.fields_eq, hs.methods_eq, ← distinct, ← distinct, distinct_eq_card, distinct_eq_card,
    (Images.map _ _).card_eq FieldRef.parts_injective.injOn,
    (Images.map _ _).card_eq MethodRef.parts_injective.injOn]
  exact ⟨rfl, rfl⟩

/-- Packing sees which references coincide and nothing else. If units name the same references as
others do under other names, in any order and with any repetitions, both are cut into groups at the
same places, or both fail at the same place with the same numbers; it is enough that different
references that the units name get different names. References that differ in any part are never taken
for one, whether or not they are displayed alike: an open group is charged for as many references as
there are different tuples of parts. -/
theorem grouping_sees_coincidence_only (capacity : Capacity) (us : List υ) (vs : List ω)
    (φ : FieldRef → FieldRef) (ψ : MethodRef → MethodRef) (hφ : Set.InjOn φ {r | r ∈ fieldsOf us})
    (hψ : Set.InjOn ψ {r | r ∈ methodsOf us}) (hrenamed : List.Forall₂ (Renamed φ ψ) us vs) :
    ((∃ groups groups', (pack (.new capacity : ReferenceCounter υ) us).1 = .ok groups ∧
        (pack (.new capacity : ReferenceCounter ω) vs).1 = .ok groups' ∧
        groups.flatten = us ∧ groups'.flatten = vs ∧
        groups.map List.length = groups'.map List.length) ∨
      ∃ i f m, (pack (.new capacity : ReferenceCounter υ) us).1 = .error (.unitTooLarge i f m) ∧
        (pack (.new capacity : ReferenceCounter ω) vs).1 = .error (.unitTooLarge i f m)) ∧
    ∀ s : ReferenceCounter υ, s.Reachable capacity →
      s.pool.fields.size = ((fieldsOf (batch s)).map FieldRef.parts).toFinset.card ∧
      s.pool.methods.size = ((methodsOf (batch s)).map MethodRef.parts).toFinset.card := by
  refine ⟨?_, fun s hreachable => hreachable.accounts.charged⟩
  have hfaithful : Faithful φ ψ us := ⟨hφ, hψ⟩
  have hnew : ReferenceCounter.Accounts capacity (.new capacity : ReferenceCounter υ) :=
    ReferenceCounter.accounts_new capacity
  have hnew' : ReferenceCounter.Accounts capacity (.new capacity : ReferenceCounter ω) :=
    ReferenceCounter.accounts_new capacity
  cases hr : (pack (.new capacity : ReferenceCounter υ) us).1 with
  | ok groups =>
    have hcut := (pack_eq_ok_iff hnew rfl).1 hr
    obtain ⟨groups', rfl, hrelated⟩ := exists_related_cut (hcut.flatten_eq ▸ hrenamed)
    have hcut' : GreedyCut (Fits capacity) groups'.flatten groups' :=
      hcut.transfer (fun _ _ hsub => fits_iff_of_renamed (hfaithful.of_subset hsub)) hrelated
    have hlengths := List.rel_map (P := Eq) (fun _ _ h => List.Forall₂.length_eq h) hrelated
    rw [List.forall₂_eq_eq_eq] at hlengths
    exact .inl ⟨groups, groups', rfl, (pack_eq_ok_iff hnew' rfl).2 hcut', hcut.flatten_eq, rfl, hlengths⟩
  | error e =>
    obtain ⟨i, u, hfirst, rfl⟩ := (pack_eq_error_iff hnew rfl).1 hr
    obtain ⟨v, huv, hfirst'⟩ := hfirst.renamed hfaithful hrenamed
    refine .inr ⟨i, _, _, rfl, (pack_eq_error_iff hnew' rfl).2 ⟨i, v, hfirst', ?_⟩⟩
    exact (huv.tooLarge_eq (hfaithful.of_mem hfirst.mem)).symm

private def running (parameters : List String) : MethodRef := ⟨"LA;", "run", parameters, "V"⟩

private def namingMethods (name : String) (methods : List (List String)) : CompilationUnit :=
  ⟨name, [], methods.map running⟩

/-- Two methods that are displayed alike need two groups of one, as do two that are not. The map that
takes the one to the other is faithful only on what the units name. -/
theorem grouping_sees_coincidence_only_displayed_alike :
    let us := [namingMethods "a" [["I", "J"]], namingMethods "b" [["IJ"]]]
    let vs := [namingMethods "c" [["I"], ["I"]], namingMethods "d" [["J"]]]
    let ψ : MethodRef → MethodRef :=
      fun r => if r.parameterTypes = ["IJ"] then running ["J"] else running ["I"]
    let packed := fun us => (pack (.new ⟨0, 1⟩ : ReferenceCounter CompilationUnit) us).1
    (running ["I", "J"]).display = (running ["IJ"]).display ∧
      (Set.InjOn id {r | r ∈ fieldsOf us} ∧ Set.InjOn ψ {r | r ∈ methodsOf us} ∧
        List.Forall₂ (Renamed id ψ) us vs) ∧
      packed us = .ok (us.map fun u => [u]) ∧
      ∃ groups, packed vs = .ok groups ∧ groups.flatten = vs ∧ groups.map List.length = [1, 1] := by
  intro us vs ψ packed
  have hφ : Set.InjOn id {r | r ∈ fieldsOf us} := Set.injOn_id _
  have hψ : Set.InjOn ψ {r | r ∈ methodsOf us} := by
    have hall : ∀ q ∈ methodsOf us, ∀ r ∈ methodsOf us, ψ q = ψ r → q = r := by decide
    exact fun q hq r hr => hall q hq r hr
  have hrenamed : List.Forall₂ (Renamed id ψ) us vs := by
    refine .cons ⟨?_, ?_⟩ (.cons ⟨?_, ?_⟩ .nil)
    all_goals simp [Images, namingMethods, HasReferences.fields, HasReferences.methods, ψ, running, eq_comm]
  have hus : packed us = .ok (us.map fun u => [u]) := by
    refine (pack_eq_ok_iff (ReferenceCounter.accounts_new _) rfl).2 ⟨rfl, ?_, ?_, ?_⟩
    · decide
    · simp only [fits_iff_card]
      decide
    · simp only [fits_iff_card]
      decide
  refine ⟨by decide, ⟨hφ, hψ, hrenamed⟩, hus, ?_⟩
  obtain ⟨groups, groups', hok, hok', -, hflatten', hlengths⟩ | ⟨i, f, m, herror, -⟩ :=
    (grouping_sees_coincidence_only ⟨0, 1⟩ us vs id ψ hφ hψ hrenamed).1
  · obtain rfl := Except.ok.inj (hus.symm.trans hok)
    exact ⟨groups', hok', hflatten', hlengths.symm⟩
  · exact absurd (hus.symm.trans herror) (by simp)

end BuildDelta.Packing
