import BuildDelta.Packing.Reference
import Std.Data.ExtHashSet
/-!
# Pools of distinct references

The open group's references are counted in a pool. A unit is admitted if the pool, together with
the unit's references, stays within both capacities; references that the pool holds already are
free. Admission is all or nothing, and a pool is never above its capacities.
-/

namespace BuildDelta.Packing

/-- How many distinct references of each sort one group may hold. -/
structure Capacity where
  fields : Nat
  methods : Nat
deriving DecidableEq, Repr

namespace Capacity

def uniform (limit : Nat) : Capacity := ⟨limit, limit⟩

/-- Sixteen bits of index space for both sorts. -/
def default : Capacity := uniform 65536

end Capacity

abbrev RefSet (α : Type) [BEq α] [Hashable α] := Std.ExtHashSet α

/-- How many different references a list names. -/
def distinct {α : Type} [BEq α] [Hashable α] [EquivBEq α] [LawfulHashable α] (refs : List α) : Nat :=
  (Std.ExtHashSet.ofList refs).size

/-- How many references of an offered set are not held yet. -/
def netNew {α : Type} [BEq α] [Hashable α] [EquivBEq α] [LawfulHashable α]
    (held offered : RefSet α) : Nat :=
  offered.size - (offered ∩ held).size

/-- Counting what is new to a set is counting the union. -/
theorem size_union_eq {α : Type} [BEq α] [Hashable α] [LawfulBEq α] (held offered : RefSet α) :
    (held ∪ offered).size = held.size + netNew held offered := by
  have hsum : held.size + offered.size = (held ∪ offered).size + (held ∩ offered).size :=
    Std.ExtHashSet.size_add_size_eq_size_union_add_size_inter
  have hcomm : offered ∩ held = held ∩ offered := by
    ext a
    simp only [Std.ExtHashSet.mem_inter_iff, And.comm]
  have hle : (held ∩ offered).size ≤ offered.size := Std.ExtHashSet.size_inter_le_size_right
  rw [netNew, hcomm]
  omega

/-- The outcome of offering references to a pool. -/
inductive Admission where
  | admitted (newFields newMethods : Nat)
  /-- The number of fields that the pool would have held. -/
  | fieldsExceeded (total : Nat)
  /-- The number of methods that the pool would have held. -/
  | methodsExceeded (total : Nat)
deriving DecidableEq, Repr

def Admission.isAdmitted : Admission → Bool
  | .admitted .. => true
  | _ => false

structure Pool where
  capacity : Capacity
  fields : RefSet FieldRef
  methods : RefSet MethodRef
  fields_size_le : fields.size ≤ capacity.fields
  methods_size_le : methods.size ≤ capacity.methods

namespace Pool

def empty (capacity : Capacity) : Pool :=
  ⟨capacity, ∅, ∅, by simp, by simp⟩

def isEmpty (p : Pool) : Bool :=
  p.fields.isEmpty && p.methods.isEmpty

/-- Fields are weighed before methods. A refused offer leaves the pool as it was. -/
def offer (p : Pool) (fields : List FieldRef) (methods : List MethodRef) : Admission × Pool :=
  let newFields := netNew p.fields (.ofList fields)
  if hf : p.fields.size + newFields ≤ p.capacity.fields then
    let newMethods := netNew p.methods (.ofList methods)
    if hm : p.methods.size + newMethods ≤ p.capacity.methods then
      (.admitted newFields newMethods,
        ⟨p.capacity, p.fields ∪ .ofList fields, p.methods ∪ .ofList methods,
          by rwa [size_union_eq], by rwa [size_union_eq]⟩)
    else (.methodsExceeded (p.methods.size + newMethods), p)
  else (.fieldsExceeded (p.fields.size + newFields), p)

def clear (p : Pool) : Pool :=
  empty p.capacity

end Pool

end BuildDelta.Packing
