import BuildDelta.Proofs.FileSystem.Tree
/-!
# What a directory holds under a name

Nothing in a tree says that a directory has a name only once, so removing what is found under a name
might bring something else to light. `under` lists all that a directory holds under a name, with what
is found at its head; setting a name exchanges that head (`under_set_self`), and under other names the
list stays (`under_set_other`).
-/

namespace BuildDelta.FileSystem.Node

variable {top : Node} {place : Place} {name : Name}

def named (name : Name) (entries : List (Name × Node)) : List Node :=
  (entries.filter (·.1 = name)).map Prod.snd

def under (top : Node) (place : Place) (name : Name) : List Node :=
  match top.get? place with
  | some (.directory _ entries) => named name entries
  | _ => []

theorem named_cons (name other : Name) (n : Node) (entries : List (Name × Node)) :
    named name ((other, n) :: entries) =
      if other = name then n :: named name entries else named name entries := by
  unfold named
  by_cases h : other = name <;> simp [h]

theorem lookup_eq_head?_named (name : Name) (entries : List (Name × Node)) :
    entries.lookup name = (named name entries).head? := by
  induction entries with
  | nil => rfl
  | cons entry entries ih =>
    obtain ⟨other, n⟩ := entry
    rw [List.lookup_cons, named_cons]
    by_cases h : other = name
    · simp [h]
    · have hbeq : (name == other) = false := by simpa using Ne.symm h
      rw [hbeq, if_neg h, ih]

theorem named_setIn_self (name : Name) (n? : Option Node) (entries : List (Name × Node)) :
    named name (setIn name n? entries) = n?.toList ++ (named name entries).tail := by
  induction entries with
  | nil => cases n? <;> simp [setIn, named]
  | cons entry entries ih =>
    obtain ⟨other, n⟩ := entry
    unfold setIn
    split
    · rename_i heq
      rw [named_cons, if_pos heq]
      cases n? <;> simp [named]
    · rename_i hne
      rw [named_cons, if_neg hne, named_cons, if_neg hne, ih]

theorem named_setIn_other {other : Name} (h : other ≠ name) (n? : Option Node)
    (entries : List (Name × Node)) : named other (setIn name n? entries) = named other entries := by
  induction entries with
  | nil => cases n? <;> simp [setIn, named, Ne.symm h]
  | cons entry entries ih =>
    obtain ⟨another, n⟩ := entry
    unfold setIn
    split
    · rename_i heq
      have hne : another ≠ other := fun hother => h (hother.symm.trans heq)
      rw [named_cons, if_neg hne]
      cases n? <;> simp [named, Ne.symm h]
    · rw [named_cons, named_cons, ih]

theorem get?_concat (top : Node) (place : Place) (name : Name) :
    top.get? (place ++ [name]) = (top.under place name).head? := by
  rw [get?_append, under]
  cases top.get? place with
  | none => rfl
  | some d =>
    cases d with
    | file => rfl
    | link => rfl
    | special => rfl
    | directory readable entries =>
      refine Eq.trans ?_ (lookup_eq_head?_named name entries)
      rw [Option.bind_some, get?, entry?]
      cases entries.lookup name <;> rfl

theorem under_eq_nil_iff : top.under place name = [] ↔ top.get? (place ++ [name]) = none := by
  rw [get?_concat, List.head?_eq_none_iff]

theorem get?_set_place {d : Node} (h : top.get? place = some d) (name : Name) (n? : Option Node) :
    (top.set name n? place).get? place = some (d.setEntry name n?) := by
  induction place generalizing top with
  | nil =>
    cases h
    rfl
  | cons next place ih =>
    obtain ⟨inner, hinner, hplace⟩ := Option.bind_eq_some_iff.1 h
    have hset : top.set name n? (next :: place) =
        top.setEntry next (some (inner.set name n? place)) := by
      rw [set, hinner]
    rw [hset, get?_cons_of_inner (setEntry_self (isDirectory_of_inner hinner) _)]
    exact ih hplace

theorem under_set_self (h : top.DirectoryAt place) (n? : Option Node) :
    (top.set name n? place).under place name = n?.toList ++ (top.under place name).tail := by
  obtain ⟨d, hd, hdirectory⟩ := h
  rw [under, under, get?_set_place hd, hd]
  cases d with
  | file => cases hdirectory
  | link => cases hdirectory
  | special => cases hdirectory
  | directory readable entries => exact named_setIn_self name n? entries

theorem under_set_other {other : Name} (h : other ≠ name) (n? : Option Node) (top : Node) :
    (top.set name n? place).under place other = top.under place other := by
  cases hd : top.get? place with
  | none =>
    have hnil : top.under place other = [] := by rw [under, hd]
    rw [hnil, under_eq_nil_iff, get?_set_other h, ← under_eq_nil_iff, hnil]
  | some d =>
    rw [under, under, get?_set_place hd, hd]
    cases d with
    | file => rfl
    | link => rfl
    | special => rfl
    | directory readable entries => exact named_setIn_other h n? entries

end BuildDelta.FileSystem.Node
