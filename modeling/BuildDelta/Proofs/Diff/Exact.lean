import BuildDelta.Diff.Basic
/-!
# What a difference says about a key

The entry of a key in a difference depends on nothing but what the two snapshots hold under that
key (`Snapshot.get?_diff`, `Change.between?`). So a difference leaves out no key that is not the same
on both sides, mentions no other, and mentions none twice.
-/

namespace BuildDelta

/-- Items that are the same item as soon as they have one key and count as unchanged. -/
class LawfulItem (τ : Type) [Item τ] : Prop where
  unchanged_iff : ∀ a b : τ, key a = key b → (Item.unchanged a b = true ↔ a = b)

instance : LawfulItem FileItem where
  unchanged_iff a b hkey := by
    cases a
    cases b
    simp only [key] at hkey
    simp [Item.unchanged, hkey]

instance : LawfulItem KeyItem where
  unchanged_iff a b hkey := by
    have heq : a = b := congrArg KeyItem.mk hkey
    simp [Item.unchanged, heq]

variable {τ : Type} [Item τ]

/-- What became of a key that has `current?` under it now and had `previous?` before. -/
def Change.between? : (current? previous? : Option τ) → Option (Change τ)
  | none, none => none
  | some current, none => some (.added current)
  | none, some previous => some (.removed previous)
  | some current, some previous =>
    if Item.unchanged current previous then none else some (.changed current previous)

section Between

variable {current? previous? : Option τ} {a b : τ}

theorem Change.between?_eq_added_iff : between? current? previous? = some (.added a) ↔
    current? = some a ∧ previous? = none := by
  cases current? <;> cases previous? <;> simp [between?]

theorem Change.between?_eq_removed_iff : between? current? previous? = some (.removed b) ↔
    current? = none ∧ previous? = some b := by
  cases current? <;> cases previous? <;> simp [between?]

theorem Change.between?_eq_changed_iff : between? current? previous? = some (.changed a b) ↔
    current? = some a ∧ previous? = some b ∧ Item.unchanged a b = false := by
  cases current? <;> cases previous? <;> grind [between?]

/-- Nothing became of a key only if the same stands under it in both tables. -/
theorem Change.between?_get?_eq_none_iff [LawfulItem τ] {t u : Table τ} {k : String} :
    between? (t.get? k) (u.get? k) = none ↔ t.get? k = u.get? k := by
  cases ht : t.get? k with
  | none => cases hu : u.get? k <;> simp [between?]
  | some a =>
    cases hu : u.get? k with
    | none => simp [between?]
    | some b =>
      have hkey : key a = key b := (Table.mem_of_get? ht).2.trans (Table.mem_of_get? hu).2.symm
      simp [between?, LawfulItem.unchanged_iff a b hkey]

end Between

theorem Snapshot.get?_diff (current previous : Snapshot τ) (k : String) :
    (current.diff previous).get? k = Change.between? (current.get? k) (previous.get? k) := by
  rw [diff, Table.get?_filterMap, Snapshot.get?, Snapshot.get?,
    ← Table.left?_get?_align current.items previous.items k,
    ← Table.right?_get?_align current.items previous.items k]
  cases (current.items.align previous.items).get? k with
  | none => rfl
  | some c => cases c <;> rfl

/-- A difference leaves out a key only if both sides hold the same under it. -/
theorem Snapshot.get?_diff_eq_none_iff [LawfulItem τ] {current previous : Snapshot τ} {k : String} :
    (current.diff previous).get? k = none ↔ current.get? k = previous.get? k := by
  rw [get?_diff]
  exact Change.between?_get?_eq_none_iff

/-- A table lists what it holds under a key once, and nothing else under that key. -/
theorem Table.filter_key_eq {α : Type} [Keyed α] (t : Table α) (k : String) :
    (t.toList.filter fun a => key a = k) = (t.get? k).toList := by
  have hpair : (t.toList.filter fun a => key a = k).Pairwise (key · < key ·) :=
    t.ascending.sublist List.filter_sublist
  have hkey : ∀ a ∈ t.toList.filter fun a => key a = k, key a = k := fun a ha => by
    simpa using (List.mem_filter.1 ha).2
  rw [get?, ← List.head?_filter]
  cases hfilter : t.toList.filter fun a => key a = k with
  | nil => rfl
  | cons a rest =>
    cases rest with
    | nil => rfl
    | cons b rest =>
      rw [hfilter] at hpair hkey
      have hlt := (List.pairwise_cons.1 hpair).1 b (by simp)
      rw [hkey a (by simp), hkey b (by simp)] at hlt
      exact absurd hlt (String.lt_irrefl k)

/-- All that a difference is asked to say, where `Same` tells whether two items under one key agree. -/
structure DiffExact (Same : τ → τ → Prop) (current previous : Snapshot τ) : Prop where
  none_iff : ∀ k, (current.diff previous).get? k = none ↔
    (current.get? k = none ∧ previous.get? k = none) ∨
      ∃ a b, current.get? k = some a ∧ previous.get? k = some b ∧ Same a b
  added_iff : ∀ k a, (current.diff previous).get? k = some (.added a) ↔
    current.get? k = some a ∧ previous.get? k = none
  removed_iff : ∀ k b, (current.diff previous).get? k = some (.removed b) ↔
    current.get? k = none ∧ previous.get? k = some b
  changed_iff : ∀ k a b, (current.diff previous).get? k = some (.changed a b) ↔
    current.get? k = some a ∧ previous.get? k = some b ∧ ¬Same a b
  own_key : ∀ k c, (current.diff previous).get? k = some c → key c = k
  one_entry : ∀ k, ((current.diff previous).toList.filter fun c => key c = k) =
    ((current.diff previous).get? k).toList
  roots_unread : ∀ root root' : String,
    Snapshot.diff ⟨root, current.items⟩ ⟨root', previous.items⟩ = current.diff previous

theorem diffExact_of_unchanged_iff {Same : τ → τ → Prop}
    (hsame : ∀ a b : τ, Item.unchanged a b = true ↔ Same a b) (current previous : Snapshot τ) :
    DiffExact Same current previous where
  none_iff k := by
    rw [Snapshot.get?_diff]
    cases current.get? k <;> cases previous.get? k <;> simp [Change.between?, hsame]
  added_iff k a := by
    rw [Snapshot.get?_diff, Change.between?_eq_added_iff]
  removed_iff k b := by
    rw [Snapshot.get?_diff, Change.between?_eq_removed_iff]
  changed_iff k a b := by
    rw [Snapshot.get?_diff, Change.between?_eq_changed_iff, ← hsame, Bool.not_eq_true]
  own_key _ _ hc := (Table.mem_of_get? hc).2
  one_entry := Table.filter_key_eq _
  roots_unread _ _ := rfl

/-- Between files a difference tells every key apart by presence and fingerprint, and between bare
keys by presence alone; bare keys never count as changed. -/
theorem diff_exact :
    (∀ current previous : Snapshot FileItem,
      DiffExact (fun a b => a.fingerprint = b.fingerprint) current previous) ∧
    ∀ current previous : Snapshot KeyItem,
      DiffExact (fun _ _ => True) current previous ∧
        ∀ k a b, (current.diff previous).get? k ≠ some (.changed a b) := by
  constructor
  · exact diffExact_of_unchanged_iff fun a b => by simp [Item.unchanged]
  · intro current previous
    have hexact : DiffExact (fun _ _ => True) current previous :=
      diffExact_of_unchanged_iff (fun a b => by simp [Item.unchanged]) current previous
    refine ⟨hexact, ?_⟩
    intro k a b hchanged
    exact ((hexact.changed_iff k a b).1 hchanged).2.2 trivial

end BuildDelta
