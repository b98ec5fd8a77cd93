import BuildDelta.Proofs.Packing.Counting
import BuildDelta.Proofs.Packing.Driver
/-!
# The reference counter over whole histories

A reference counter keeps two things: the units of the open group and a pool of their references.
They are changed on different ways, by accepting, by sealing and by the exits of packing.
`Accounts` says that they belong together, and every operation keeps it. With it, what a counter
accepts can be said without the pool: a unit is accepted if and only if the open group fits with it
(`accepts_iff`).
-/

namespace BuildDelta.Packing

namespace ReferenceCounter

variable {υ : Type} [HasReferences υ]

/-- The pool is what the open group's units name, and the capacity is the given one. -/
structure Accounts (capacity : Capacity) (s : ReferenceCounter υ) : Prop where
  capacity_eq : s.pool.capacity = capacity
  fields_eq : s.pool.fields = .ofList (fieldsOf s.batch)
  methods_eq : s.pool.methods = .ofList (methodsOf s.batch)

variable {capacity : Capacity} {s : ReferenceCounter υ}

theorem accounts_new (capacity : Capacity) : Accounts capacity (new capacity : ReferenceCounter υ) :=
  ⟨rfl, rfl, rfl⟩

theorem Accounts.fits (h : Accounts capacity s) : Fits capacity s.batch := by
  constructor
  · rw [distinct, ← h.fields_eq, ← h.capacity_eq]
    exact s.pool.fields_size_le
  · rw [distinct, ← h.methods_eq, ← h.capacity_eq]
    exact s.pool.methods_size_le

theorem Accounts.hasRoom_iff (h : Accounts capacity s) (u : υ) :
    s.pool.HasRoom (HasReferences.fields u) (HasReferences.methods u) ↔
      Fits capacity (s.batch ++ [u]) := by
  rw [Pool.HasRoom, h.fields_eq, h.methods_eq, h.capacity_eq, ofList_append, ofList_append, Fits,
    fieldsOf_append, methodsOf_append, fieldsOf_singleton, methodsOf_singleton, distinct, distinct]

/-- A unit for which there is room joins the pool and the batch at once. -/
theorem tryAdd_of_hasRoom {u : υ}
    (h : s.pool.HasRoom (HasReferences.fields u) (HasReferences.methods u)) :
    tryAdd s u = (true, ⟨⟨s.pool.capacity, s.pool.fields ∪ .ofList (HasReferences.fields u),
      s.pool.methods ∪ .ofList (HasReferences.methods u), h.1, h.2⟩, s.batch ++ [u]⟩) := by
  simp only [tryAdd, Pool.offer_of_hasRoom h]

theorem tryAdd_of_not_hasRoom {u : υ}
    (h : ¬s.pool.HasRoom (HasReferences.fields u) (HasReferences.methods u)) :
    tryAdd s u = (false, s) := by
  have hadmitted := (Pool.offer_of_not_hasRoom h).1
  simp only [tryAdd]
  split
  · rename_i hoffer
    rw [hoffer] at hadmitted
    simp [Admission.isAdmitted] at hadmitted
  · rfl

theorem accepted_iff_hasRoom (s : ReferenceCounter υ) (u : υ) :
    (tryAdd s u).1 = true ↔
      s.pool.HasRoom (HasReferences.fields u) (HasReferences.methods u) := by
  by_cases h : s.pool.HasRoom (HasReferences.fields u) (HasReferences.methods u)
  · simp only [tryAdd_of_hasRoom h, h]
  · simp only [tryAdd_of_not_hasRoom h, h, Bool.false_eq_true]

instance : LawfulPacker (ReferenceCounter υ) υ where
  batch_of_accepted s u haccepted := by
    rw [tryAdd_of_hasRoom ((accepted_iff_hasRoom s u).1 haccepted)]
    rfl
  state_of_refused s u hrefused := by
    have h : ¬s.pool.HasRoom (HasReferences.fields u) (HasReferences.methods u) := by
      rw [← accepted_iff_hasRoom s u, hrefused]
      exact Bool.false_ne_true
    rw [tryAdd_of_not_hasRoom h]
  batch_startNewGroup _ := rfl
  sealGroup_eq _ := rfl

/-- The counter weighs the whole open group together with the offered unit. -/
theorem Accounts.accepts_iff (h : Accounts capacity s) (u : υ) :
    (tryAdd s u).1 = true ↔ Fits capacity (Packer.batch s ++ [u]) :=
  (accepted_iff_hasRoom s u).trans (h.hasRoom_iff u)

theorem Accounts.tryAdd (h : Accounts capacity s) (u : υ) : Accounts capacity (tryAdd s u).2 := by
  by_cases hroom : s.pool.HasRoom (HasReferences.fields u) (HasReferences.methods u)
  · rw [tryAdd_of_hasRoom hroom]
    refine ⟨h.capacity_eq, ?_, ?_⟩
    · simp only [h.fields_eq, ofList_append, fieldsOf_append, fieldsOf_singleton]
    · simp only [h.methods_eq, ofList_append, methodsOf_append, methodsOf_singleton]
  · rw [tryAdd_of_not_hasRoom hroom]
    exact h

/-- A new group leaves no reference of the old one behind. -/
theorem Accounts.startNewGroup (h : Accounts capacity s) : Accounts capacity (startNewGroup s) :=
  ⟨h.capacity_eq, rfl, rfl⟩

theorem Accounts.sealGroup (h : Accounts capacity s) : Accounts capacity (sealGroup s).2 :=
  h.startNewGroup

theorem Accounts.pack (h : Accounts capacity s) (us : List υ) : Accounts capacity (pack s us).2 :=
  pack_preserves (P := Accounts capacity) (fun _ u hs => hs.tryAdd u)
    (fun _ hs => hs.startNewGroup) h us

end ReferenceCounter

/-- What a caller can do with a packer. -/
inductive Operation (υ : Type) where
  | tryAdd (u : υ)
  | startNewGroup
  | sealGroup
  | pack (units : List υ)

/-- A packer together with what its caller has seen: the units that were accepted when they were
offered one by one, and the groups that were handed out by sealing. -/
structure History (σ υ : Type) where
  state : σ
  accepted : List υ
  sealed : List (List υ)

namespace History

variable {σ υ : Type} [Packer σ υ] [HasReferences υ]

def start (s : σ) : History σ υ := ⟨s, [], []⟩

def step (h : History σ υ) : Operation υ → History σ υ
  | .tryAdd u =>
    let (accepted, s) := tryAdd h.state u
    ⟨s, if accepted then h.accepted ++ [u] else h.accepted, h.sealed⟩
  | .startNewGroup => { h with state := startNewGroup h.state }
  | .sealGroup =>
    let (group, s) := sealGroup h.state
    ⟨s, h.accepted, h.sealed ++ [group]⟩
  | .pack units => { h with state := (pack h.state units).2 }

def run (h : History σ υ) (ops : List (Operation υ)) : History σ υ := ops.foldl step h

/-- Offering and sealing move units on, and drop none. -/
theorem conserves_step [LawfulPacker σ υ] {h : History σ υ} {op : Operation υ}
    (hop : op ≠ .startNewGroup ∧ ∀ units, op ≠ .pack units)
    (hall : h.sealed.flatten ++ batch h.state = h.accepted) :
    (h.step op).sealed.flatten ++ batch (h.step op).state = (h.step op).accepted := by
  cases op with
  | tryAdd u =>
    cases haccepted : (tryAdd h.state u).1 with
    | true =>
      simp only [step, haccepted, batch_of_accepted _ _ haccepted, ← List.append_assoc, hall,
        if_true]
    | false =>
      simp only [step, haccepted, state_of_refused _ _ haccepted, hall, Bool.false_eq_true, if_false]
  | startNewGroup => exact absurd rfl hop.1
  | sealGroup =>
    simp only [step, sealGroup_eq, batch_startNewGroup, List.flatten_append, List.flatten_singleton,
      List.append_nil, hall]
  | pack units => exact absurd rfl (hop.2 units)

theorem conserves_run [LawfulPacker σ υ] {h : History σ υ} {ops : List (Operation υ)}
    (hops : ∀ op ∈ ops, op ≠ .startNewGroup ∧ ∀ units, op ≠ .pack units)
    (hall : h.sealed.flatten ++ batch h.state = h.accepted) :
    (h.run ops).sealed.flatten ++ batch (h.run ops).state = (h.run ops).accepted := by
  induction ops generalizing h with
  | nil => exact hall
  | cons op ops ih =>
    obtain ⟨hop, hrest⟩ := List.forall_mem_cons.1 hops
    exact ih hrest (conserves_step hop hall)

end History

namespace ReferenceCounter

variable {υ : Type} [HasReferences υ] {capacity : Capacity}

theorem Accounts.step {h : History (ReferenceCounter υ) υ} (hs : Accounts capacity h.state)
    (op : Operation υ) : Accounts capacity (h.step op).state := by
  cases op with
  | tryAdd u => exact hs.tryAdd u
  | startNewGroup => exact hs.startNewGroup
  | sealGroup => exact hs.sealGroup
  | pack units => exact hs.pack units

theorem Accounts.run {h : History (ReferenceCounter υ) υ} (hs : Accounts capacity h.state)
    (ops : List (Operation υ)) : Accounts capacity (h.run ops).state := by
  induction ops generalizing h with
  | nil => exact hs
  | cons op ops ih => exact ih (hs.step op)

/-- The states that a counter of this capacity can come into. -/
def Reachable (capacity : Capacity) (s : ReferenceCounter υ) : Prop :=
  ∃ ops, ((History.start (new capacity)).run ops).state = s

theorem Reachable.accounts {s : ReferenceCounter υ} (h : Reachable capacity s) :
    Accounts capacity s := by
  obtain ⟨ops, rfl⟩ := h
  exact (accounts_new capacity).run ops

end ReferenceCounter

variable {υ : Type} [HasReferences υ]

/-- A counter in any history: its pool is what its open group names, and stays within the capacity
that it was made with; it accepts a unit if and only if the group still fits with the unit, and a
refusal changes nothing; and as long as units are only offered and sealed, none is lost and none
changes its place. -/
theorem counter_invariant (capacity : Capacity) (ops : List (Operation υ)) :
    let h := (History.start (ReferenceCounter.new capacity : ReferenceCounter υ)).run ops
    (h.state.pool.fields = .ofList (fieldsOf (batch h.state)) ∧
      h.state.pool.methods = .ofList (methodsOf (batch h.state)) ∧
      h.state.pool.fields.size ≤ capacity.fields ∧ h.state.pool.methods.size ≤ capacity.methods ∧
      h.state.pool.capacity = capacity) ∧
    (∀ u, ((tryAdd h.state u).1 = true ↔ Fits capacity (batch h.state ++ [u])) ∧
      ((tryAdd h.state u).1 = true → batch (tryAdd h.state u).2 = batch h.state ++ [u]) ∧
      ((tryAdd h.state u).1 = false → (tryAdd h.state u).2 = h.state) ∧
      ((tryAdd (startNewGroup h.state) u).1 = true ↔ Fits capacity [u])) ∧
    ((∀ op ∈ ops, op ≠ .startNewGroup ∧ ∀ units, op ≠ .pack units) →
      h.sealed.flatten ++ batch h.state = h.accepted) := by
  intro h
  have hs : h.state.Accounts capacity := ReferenceCounter.Reachable.accounts ⟨ops, rfl⟩
  refine ⟨⟨hs.fields_eq, hs.methods_eq, ?_, ?_, hs.capacity_eq⟩, fun u => ⟨hs.accepts_iff u,
    batch_of_accepted _ u, state_of_refused _ u, ?_⟩, fun hops => History.conserves_run hops rfl⟩
  · exact hs.fields_eq ▸ hs.fits.1
  · exact hs.methods_eq ▸ hs.fits.2
  · exact hs.startNewGroup.accepts_iff u

end BuildDelta.Packing
