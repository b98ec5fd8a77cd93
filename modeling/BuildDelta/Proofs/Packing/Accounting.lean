import BuildDelta.Proofs.Packing.Counting
import Mathlib.Algebra.GroupWithZero.Nat
import Mathlib.Data.Finset.Card
/-!
# What a pool holds and what it reports

A pool never looks at a union: it counts what an offer adds, weighs the sum and reports it. Here the
same numbers are read off the offers. After any run of offers and clears the pool holds the union of
what it has admitted since it was last cleared, and its counts are both the cardinality of that union
and the sum of what it reported as new (`pool_accounts_exactly`). One step lemma carries this,
`CountedAs.union`, and it is stated for one set of references, since fields and methods are counted
alike.
-/

namespace BuildDelta.Packing

section Cardinality

variable {α : Type} [DecidableEq α] [Hashable α]

theorem distinct_eq_card (refs : List α) : distinct refs = refs.toFinset.card := by
  have hset : (.ofList refs : RefSet α) = .ofList refs.dedup := by
    ext a
    rw [mem_ofList, mem_ofList, List.mem_dedup]
  rw [distinct, hset, Std.ExtHashSet.size_ofList, List.card_toFinset]
  exact (List.nodup_dedup refs).imp fun hne => beq_false_of_ne hne

/-- Nothing is cut off when what is held already is taken from what is offered. -/
theorem netNew_add_size_inter (held offered : RefSet α) :
    netNew held offered + (offered ∩ held).size = offered.size :=
  Nat.sub_add_cancel Std.ExtHashSet.size_inter_le_size_left

theorem size_eq_card {held : RefSet α} {named : Finset α} (h : ∀ r, r ∈ held ↔ r ∈ named) :
    held.size = named.card := by
  have hset : held = .ofList named.toList := by
    ext a
    rw [h, mem_ofList, Finset.mem_toList]
  rw [hset, ← distinct, distinct_eq_card, Finset.toList_toFinset]

/-- A set of references and its books: it holds what was named and nothing else, what was reported as
new adds up to its size, and it stays within its limit. -/
structure CountedAs (held : RefSet α) (named : Finset α) (reported : List Nat) (limit : Nat) : Prop where
  mem_iff : ∀ r, r ∈ held ↔ r ∈ named
  size_eq_card : held.size = named.card
  size_eq_sum : held.size = reported.sum
  size_le : held.size ≤ limit

namespace CountedAs

variable {held : RefSet α} {named : Finset α} {reported : List Nat} {limit : Nat}

theorem empty (limit : Nat) : CountedAs (∅ : RefSet α) ∅ [] limit where
  mem_iff r := by simp
  size_eq_card := by simp
  size_eq_sum := by simp
  size_le := by simp

theorem mem_union_iff (h : CountedAs held named reported limit) (refs : List α) (r : α) :
    r ∈ held ∪ .ofList refs ↔ r ∈ named ∪ refs.toFinset := by
  rw [Std.ExtHashSet.mem_union_iff, mem_ofList, Finset.mem_union, List.mem_toFinset, h.mem_iff]

theorem size_union (h : CountedAs held named reported limit) (refs : List α) :
    (held ∪ .ofList refs).size = (named ∪ refs.toFinset).card :=
  Packing.size_eq_card (h.mem_union_iff refs)

/-- What is new to the set is what makes it the union. -/
theorem union (h : CountedAs held named reported limit) {refs : List α}
    (hroom : (held ∪ .ofList refs).size ≤ limit) :
    CountedAs (held ∪ .ofList refs) (named ∪ refs.toFinset)
      (reported ++ [netNew held (.ofList refs)]) limit where
  mem_iff := h.mem_union_iff refs
  size_eq_card := h.size_union refs
  size_eq_sum := by rw [size_union_eq, h.size_eq_sum, List.sum_append, List.sum_singleton]
  size_le := hroom

end CountedAs

end Cardinality

/-- How an offer is judged that would leave a pool with `f` fields and `m` methods. Too many fields are
reported whatever the methods, too many methods only if the fields would do. -/
structure Admission.Judges (capacity : Capacity) (f m : Nat) (answer : Admission) : Prop where
  isAdmitted_iff : answer.isAdmitted = true ↔ f ≤ capacity.fields ∧ m ≤ capacity.methods
  fieldsExceeded_iff : ∀ n, answer = .fieldsExceeded n ↔ capacity.fields < f ∧ n = f
  methodsExceeded_iff : ∀ n,
    answer = .methodsExceeded n ↔ f ≤ capacity.fields ∧ capacity.methods < m ∧ n = m

namespace Pool

variable {p : Pool} {fields : List FieldRef} {methods : List MethodRef}

theorem offer_of_fields_exceed (hf : p.capacity.fields < (p.fields ∪ .ofList fields).size) :
    p.offer fields methods = (.fieldsExceeded (p.fields ∪ .ofList fields).size, p) := by
  rw [size_union_eq] at hf ⊢
  rw [offer, dif_neg (Nat.not_le_of_gt hf)]

theorem offer_of_methods_exceed (hf : (p.fields ∪ .ofList fields).size ≤ p.capacity.fields)
    (hm : p.capacity.methods < (p.methods ∪ .ofList methods).size) :
    p.offer fields methods = (.methodsExceeded (p.methods ∪ .ofList methods).size, p) := by
  rw [size_union_eq] at hf hm ⊢
  rw [offer, dif_pos hf, dif_neg (Nat.not_le_of_gt hm)]

theorem offer_of_refused (h : (p.offer fields methods).1.isAdmitted = false) :
    (p.offer fields methods).2 = p := by
  by_cases hroom : p.HasRoom fields methods
  · rw [offer_of_hasRoom hroom] at h
    exact Bool.noConfusion h
  · exact (offer_of_not_hasRoom hroom).2

theorem offer_judges (p : Pool) (fields : List FieldRef) (methods : List MethodRef) :
    (p.offer fields methods).1.Judges p.capacity (p.fields ∪ .ofList fields).size
      (p.methods ∪ .ofList methods).size := by
  rcases Nat.lt_or_ge p.capacity.fields (p.fields ∪ .ofList fields).size with hf | hf
  · rw [offer_of_fields_exceed hf]
    constructor <;> simp [Admission.isAdmitted, hf, Nat.not_le_of_gt hf, eq_comm]
  rcases Nat.lt_or_ge p.capacity.methods (p.methods ∪ .ofList methods).size with hm | hm
  · rw [offer_of_methods_exceed hf hm]
    constructor <;> simp [Admission.isAdmitted, hf, hm, eq_comm]
  · rw [offer_of_hasRoom ⟨hf, hm⟩]
    constructor <;> simp [Admission.isAdmitted, hf, hm]

/-- What a caller can do to a pool. -/
inductive Operation where
  | offer (fields : List FieldRef) (methods : List MethodRef)
  | clear

/-- An offer that was admitted, with what the pool reported as new. -/
structure Entry where
  fields : List FieldRef
  methods : List MethodRef
  newFields : Nat
  newMethods : Nat

/-- A pool together with the offers that it has admitted since it was last cleared. -/
structure Ledger where
  pool : Pool
  admitted : List Entry

namespace Ledger

def start (capacity : Capacity) : Ledger := ⟨.empty capacity, []⟩

def step (l : Ledger) : Operation → Ledger
  | .offer fields methods =>
    match l.pool.offer fields methods with
    | (.admitted newFields newMethods, pool) =>
      ⟨pool, l.admitted ++ [⟨fields, methods, newFields, newMethods⟩]⟩
    | (_, pool) => { l with pool }
  | .clear => ⟨l.pool.clear, []⟩

def run (l : Ledger) (ops : List Operation) : Ledger := ops.foldl step l

/-- The union of the field sets admitted. -/
def admittedFields (l : Ledger) : Finset FieldRef := (l.admitted.flatMap (·.fields)).toFinset

/-- The union of the method sets admitted. -/
def admittedMethods (l : Ledger) : Finset MethodRef := (l.admitted.flatMap (·.methods)).toFinset

/-- The pool agrees with the ledger. -/
structure Balanced (capacity : Capacity) (l : Ledger) : Prop where
  capacity_eq : l.pool.capacity = capacity
  fields : CountedAs l.pool.fields l.admittedFields (l.admitted.map (·.newFields)) capacity.fields
  methods : CountedAs l.pool.methods l.admittedMethods (l.admitted.map (·.newMethods))
    capacity.methods

variable {capacity : Capacity} {l : Ledger}

theorem balanced_start (capacity : Capacity) : (start capacity).Balanced capacity :=
  ⟨rfl, .empty _, .empty _⟩

theorem step_of_hasRoom (h : l.pool.HasRoom fields methods) :
    l.step (.offer fields methods) =
      ⟨⟨l.pool.capacity, l.pool.fields ∪ .ofList fields, l.pool.methods ∪ .ofList methods, h.1, h.2⟩,
        l.admitted ++ [⟨fields, methods, netNew l.pool.fields (.ofList fields),
          netNew l.pool.methods (.ofList methods)⟩]⟩ := by
  simp only [step, offer_of_hasRoom h]

theorem step_of_not_hasRoom (h : ¬l.pool.HasRoom fields methods) :
    l.step (.offer fields methods) = l := by
  obtain ⟨hrefused, hpool⟩ := offer_of_not_hasRoom h
  simp only [step]
  split
  · rename_i hoffer
    rw [hoffer] at hrefused
    exact Bool.noConfusion hrefused
  · rename_i hoffer
    rw [hoffer] at hpool
    subst hpool
    rfl

theorem Balanced.step (h : l.Balanced capacity) (op : Operation) : (l.step op).Balanced capacity := by
  obtain ⟨rfl, hfields, hmethods⟩ := h
  cases op with
  | offer fields methods =>
    by_cases hroom : l.pool.HasRoom fields methods
    · rw [step_of_hasRoom hroom]
      refine ⟨rfl, ?_, ?_⟩
      · simpa [admittedFields] using hfields.union hroom.1
      · simpa [admittedMethods] using hmethods.union hroom.2
    · rw [step_of_not_hasRoom hroom]
      exact ⟨rfl, hfields, hmethods⟩
  | clear => exact ⟨rfl, .empty _, .empty _⟩

theorem Balanced.run (h : l.Balanced capacity) (ops : List Operation) :
    (l.run ops).Balanced capacity := by
  induction ops generalizing l with
  | nil => exact h
  | cons op ops ih => exact ih (h.step op)

end Ledger

end Pool

/-- A pool in any run of offers and clears. It holds the union of the sets admitted since it was last
cleared; its counts are the cardinalities of the unions and the sums of what it reported as new, and
stay within capacity. An offer is judged by the cardinalities of the unions with it, a refusal changes
nothing, and what is new to the pool is counted without anything being cut off. -/
theorem pool_accounts_exactly (capacity : Capacity) (ops : List Pool.Operation) :
    let l := (Pool.Ledger.start capacity).run ops
    CountedAs l.pool.fields l.admittedFields (l.admitted.map (·.newFields)) capacity.fields ∧
    CountedAs l.pool.methods l.admittedMethods (l.admitted.map (·.newMethods)) capacity.methods ∧
    ∀ (fields : List FieldRef) (methods : List MethodRef),
      (l.pool.offer fields methods).1.Judges capacity (l.admittedFields ∪ fields.toFinset).card
        (l.admittedMethods ∪ methods.toFinset).card ∧
      ((l.pool.offer fields methods).1.isAdmitted = false → (l.pool.offer fields methods).2 = l.pool) ∧
      netNew l.pool.fields (.ofList fields) + (.ofList fields ∩ l.pool.fields : RefSet _).size =
        (.ofList fields : RefSet _).size ∧
      netNew l.pool.methods (.ofList methods) + (.ofList methods ∩ l.pool.methods : RefSet _).size =
        (.ofList methods : RefSet _).size := by
  intro l
  have hl : l.Balanced capacity := (Pool.Ledger.balanced_start capacity).run ops
  refine ⟨hl.fields, hl.methods, fun fields methods => ⟨?_, Pool.offer_of_refused, ?_, ?_⟩⟩
  · have hjudges := Pool.offer_judges l.pool fields methods
    rwa [hl.capacity_eq, hl.fields.size_union, hl.methods.size_union] at hjudges
  · exact netNew_add_size_inter l.pool.fields (.ofList fields)
  · exact netNew_add_size_inter l.pool.methods (.ofList methods)

end BuildDelta.Packing
