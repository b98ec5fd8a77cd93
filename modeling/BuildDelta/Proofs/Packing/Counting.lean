import BuildDelta.Packing.Packer
/-!
# What an open group counts

A pool counts references that are new to it and adds them up; a group is judged by how many
different references its units name together. Both come to the same (`Pool.offer_of_fits`,
`Pool.offer_of_not_fits`), because a pool is the set of what the group names: counting what is new is
counting the union. How much a group names can only shrink when units leave it (`Fits.of_subset`).
-/

namespace BuildDelta.Packing

section Distinct

variable {α : Type} [BEq α] [Hashable α] [LawfulBEq α]

theorem RefSet.size_le_of_subset {s t : RefSet α} (h : ∀ a, a ∈ s → a ∈ t) : s.size ≤ t.size := by
  rw [← Std.ExtHashSet.size_inter_eq_size_left h]
  exact Std.ExtHashSet.size_inter_le_size_right

theorem mem_ofList {refs : List α} {a : α} : a ∈ (Std.ExtHashSet.ofList refs : RefSet α) ↔ a ∈ refs := by
  rw [Std.ExtHashSet.mem_ofList, List.contains_iff_mem]

theorem distinct_le_of_subset {as bs : List α} (h : as ⊆ bs) : distinct as ≤ distinct bs := by
  refine RefSet.size_le_of_subset fun a ha => ?_
  exact mem_ofList.2 (h (mem_ofList.1 ha))

theorem distinct_le_length (refs : List α) : distinct refs ≤ refs.length :=
  Std.ExtHashSet.size_ofList_le

theorem ofList_append (as bs : List α) :
    (Std.ExtHashSet.ofList as : RefSet α) ∪ .ofList bs = .ofList (as ++ bs) := by
  ext a
  simp only [Std.ExtHashSet.mem_union_iff, mem_ofList, List.mem_append]

end Distinct

theorem flatMap_subset {υ β : Type} (refs : υ → List β) {us vs : List υ} (hsub : us ⊆ vs) :
    us.flatMap refs ⊆ vs.flatMap refs := by
  intro b hb
  obtain ⟨u, hu, hbu⟩ := List.mem_flatMap.1 hb
  exact List.mem_flatMap.2 ⟨u, hsub hu, hbu⟩

variable {υ : Type} [HasReferences υ]

/-- The fields that units name, unit after unit. -/
def fieldsOf (us : List υ) : List FieldRef := us.flatMap HasReferences.fields

/-- The methods that units name, unit after unit. -/
def methodsOf (us : List υ) : List MethodRef := us.flatMap HasReferences.methods

/-- Whether units may share a group: the different references of each sort, over all of the units,
are no more than the capacity allows. -/
def Fits (capacity : Capacity) (us : List υ) : Prop :=
  distinct (fieldsOf us) ≤ capacity.fields ∧ distinct (methodsOf us) ≤ capacity.methods

instance (capacity : Capacity) (us : List υ) : Decidable (Fits capacity us) :=
  inferInstanceAs (Decidable (_ ∧ _))

@[simp] theorem fieldsOf_append (us vs : List υ) : fieldsOf (us ++ vs) = fieldsOf us ++ fieldsOf vs :=
  List.flatMap_append

@[simp] theorem methodsOf_append (us vs : List υ) :
    methodsOf (us ++ vs) = methodsOf us ++ methodsOf vs :=
  List.flatMap_append

@[simp] theorem fieldsOf_singleton (u : υ) : fieldsOf [u] = HasReferences.fields u := by
  simp [fieldsOf]

@[simp] theorem methodsOf_singleton (u : υ) : methodsOf [u] = HasReferences.methods u := by
  simp [methodsOf]

theorem Fits.of_subset {capacity : Capacity} {us vs : List υ} (hfit : Fits capacity vs)
    (hsub : us ⊆ vs) : Fits capacity us := by
  constructor
  · exact Nat.le_trans (distinct_le_of_subset (flatMap_subset _ hsub)) hfit.1
  · exact Nat.le_trans (distinct_le_of_subset (flatMap_subset _ hsub)) hfit.2

namespace Pool

/-- Whether a pool has room for references besides those that it holds. -/
def HasRoom (p : Pool) (fields : List FieldRef) (methods : List MethodRef) : Prop :=
  (p.fields ∪ .ofList fields).size ≤ p.capacity.fields ∧
    (p.methods ∪ .ofList methods).size ≤ p.capacity.methods

theorem offer_of_hasRoom {p : Pool} {fields : List FieldRef} {methods : List MethodRef}
    (h : p.HasRoom fields methods) :
    p.offer fields methods =
      (.admitted (netNew p.fields (.ofList fields)) (netNew p.methods (.ofList methods)),
        ⟨p.capacity, p.fields ∪ .ofList fields, p.methods ∪ .ofList methods, h.1, h.2⟩) := by
  obtain ⟨hf, hm⟩ := h
  rw [size_union_eq] at hf hm
  rw [offer, dif_pos hf, dif_pos hm]

theorem offer_of_not_hasRoom {p : Pool} {fields : List FieldRef} {methods : List MethodRef}
    (h : ¬p.HasRoom fields methods) :
    (p.offer fields methods).1.isAdmitted = false ∧ (p.offer fields methods).2 = p := by
  rw [HasRoom, size_union_eq, size_union_eq] at h
  simp only [offer]
  split
  · rename_i hf
    split
    · rename_i hm
      exact absurd ⟨hf, hm⟩ h
    · exact ⟨rfl, rfl⟩
  · exact ⟨rfl, rfl⟩

end Pool

end BuildDelta.Packing
