import BuildDelta.Proofs.FileSystem.Tree
import Mathlib.Data.List.Nodup
/-!
# Trees whose directories name their entries

In a real directory all names are different, and none is empty, has a slash in it, or is one of the
two that mean a directory itself and the one above (`Node.WellNamed`). In such a tree, looking up a name
and listing it come to the same (`Node.lookup_eq_some_iff`), and facts about trees can be proved from
the leaves up (`Node.induction`).
-/

namespace BuildDelta.FileSystem

/-- What a directory can have for a name. -/
structure Name.Valid (name : Name) : Prop where
  ne_nil : name ≠ []
  no_slash : Path.slash ∉ name
  ne_here : name ≠ [Path.dot]
  ne_above : name ≠ [Path.dot, Path.dot]

instance (name : Name) : Decidable name.Valid :=
  decidable_of_iff (name ≠ [] ∧ Path.slash ∉ name ∧ name ≠ [Path.dot] ∧ name ≠ [Path.dot, Path.dot])
    ⟨fun ⟨hne, hslash, hhere, habove⟩ => ⟨hne, hslash, hhere, habove⟩,
      fun ⟨hne, hslash, hhere, habove⟩ => ⟨hne, hslash, hhere, habove⟩⟩

namespace Node

/-- What holds of a directory when it holds of all that is in it holds of every node. -/
theorem induction {P : Node → Prop} (file : ∀ f, P (.file f)) (link : ∀ target, P (.link target))
    (directory : ∀ readable entries, (∀ entry ∈ entries, P entry.2) →
      P (.directory readable entries))
    (special : P .special) (n : Node) : P n :=
  @Node.rec P (fun entries => ∀ entry ∈ entries, P entry.2) (fun entry => P entry.2)
    file link directory special nofun
    (fun _ _ hentry hrest => List.forall_mem_cons.2 ⟨hentry, hrest⟩) (fun _ _ h => h) n

/-- In every directory the names are different, and can be names. -/
def WellNamed (n : Node) : Prop :=
  ∀ place readable entries, n.get? place = some (.directory readable entries) →
    (entries.map Prod.fst).Nodup ∧ ∀ entry ∈ entries, entry.1.Valid

mutual

/-- All places in a tree. -/
def places : Node → List Place
  | .directory _ entries => [] :: placesOf entries
  | _ => [[]]

def placesOf : List (Name × Node) → List Place
  | [] => []
  | (name, n) :: rest => (places n).map (name :: ·) ++ placesOf rest

end

variable {n m inner : Node} {name : Name} {names : List Name} {readable : Bool}
  {entries : List (Name × Node)}

theorem exists_eq_directory (h : n.isDirectory = true) :
    ∃ readable entries, n = directory readable entries := by
  cases n with
  | directory readable entries => exact ⟨readable, entries, rfl⟩
  | file => cases h
  | link => cases h
  | special => cases h

theorem lookup_eq_some_iff (h : (entries.map Prod.fst).Nodup) :
    entries.lookup name = some n ↔ (name, n) ∈ entries := by
  induction entries with
  | nil => exact ⟨nofun, nofun⟩
  | cons entry entries ih =>
    obtain ⟨other, m⟩ := entry
    rw [List.map_cons, List.nodup_cons] at h
    by_cases hname : name = other
    · subst hname
      have hother : (name, n) ∉ entries := fun hmem => h.1 (List.mem_map.2 ⟨_, hmem, rfl⟩)
      simp [hother, eq_comm]
    · have hbeq : (name == other) = false := beq_eq_false_iff_ne.2 hname
      rw [List.lookup_cons, hbeq, List.mem_cons, ← ih h.2]
      simp [hname]

theorem mem_placesOf_of_lookup {place : Place} (h : entries.lookup name = some inner)
    (hplace : place ∈ inner.places) : name :: place ∈ placesOf entries := by
  induction entries with
  | nil => cases h
  | cons entry entries ih =>
    obtain ⟨other, n⟩ := entry
    rw [placesOf, List.mem_append]
    rw [List.lookup_cons] at h
    split at h
    · rename_i hname
      cases h
      rw [eq_of_beq hname]
      exact .inl (List.mem_map_of_mem hplace)
    · exact .inr (ih h)

theorem mem_places_of_get? {place : Place} (h : n.get? place = some m) : place ∈ n.places := by
  induction place generalizing n with
  | nil => cases n <;> simp [places]
  | cons name place ih =>
    obtain ⟨inner, hinner, hplace⟩ := Option.bind_eq_some_iff.1 h
    cases n with
    | file => cases hinner
    | link => cases hinner
    | special => cases hinner
    | directory readable entries =>
      exact List.mem_cons_of_mem _ (mem_placesOf_of_lookup hinner (ih hplace))

namespace WellNamed

theorem nodup (h : (directory readable entries).WellNamed) : (entries.map Prod.fst).Nodup :=
  (h [] readable entries rfl).1

theorem get?_cons_iff (h : (directory readable entries).WellNamed) :
    (directory readable entries).get? (name :: names) = some m ↔
      ∃ inner, (name, inner) ∈ entries ∧ inner.get? names = some m := by
  have hget : (directory readable entries).get? (name :: names) =
    (entries.lookup name).bind (get? names) := rfl
  simp only [hget, Option.bind_eq_some_iff, lookup_eq_some_iff h.nodup]

theorem entry (h : (directory readable entries).WellNamed) (hentry : (name, inner) ∈ entries) :
    inner.WellNamed := by
  intro place readable' entries' hplace
  exact h (name :: place) readable' entries' (h.get?_cons_iff.2 ⟨inner, hentry, hplace⟩)

theorem valid (h : n.WellNamed) (hm : n.get? names = some m) : ∀ name ∈ names, name.Valid := by
  induction names generalizing n with
  | nil => exact nofun
  | cons name names ih =>
    cases n with
    | file => cases hm
    | link => cases hm
    | special => cases hm
    | directory readable entries =>
      obtain ⟨inner, hentry, hrest⟩ := h.get?_cons_iff.1 hm
      exact List.forall_mem_cons.2 ⟨(h [] readable entries rfl).2 _ hentry, ih (h.entry hentry) hrest⟩

end WellNamed

theorem wellNamed_directory_iff : (directory readable entries).WellNamed ↔
    (entries.map Prod.fst).Nodup ∧ ∀ entry ∈ entries, entry.1.Valid ∧ entry.2.WellNamed := by
  constructor
  · intro h
    exact ⟨h.nodup, fun entry hentry =>
      ⟨(h [] readable entries rfl).2 entry hentry, h.entry hentry⟩⟩
  · rintro ⟨hnodup, hentries⟩ place readable' entries' hplace
    cases place with
    | nil =>
      cases hplace
      exact ⟨hnodup, fun entry hentry => (hentries entry hentry).1⟩
    | cons name place =>
      obtain ⟨inner, hentry, hrest⟩ := Option.bind_eq_some_iff.1 hplace
      exact (hentries _ ((lookup_eq_some_iff hnodup).1 hentry)).2 place readable' entries' hrest

theorem wellNamed_of_leaf (h : n.isDirectory = false) : n.WellNamed := by
  intro place readable entries hplace
  cases place with
  | nil =>
    cases hplace
    cases h
  | cons name place =>
    cases n with
    | directory => cases h
    | file => cases hplace
    | link => cases hplace
    | special => cases hplace

theorem WellNamed.below {place : Place} (h : n.WellNamed) (hm : n.get? place = some m) :
    m.WellNamed := by
  intro rest readable entries hrest
  refine h (place ++ rest) readable entries ?_
  rw [get?_append, hm]
  exact hrest

@[simp] theorem wellNamed_file (f : File) : (file f).WellNamed := wellNamed_of_leaf rfl

@[simp] theorem wellNamed_link (target : Bytes) : (link target).WellNamed := wellNamed_of_leaf rfl

@[simp] theorem wellNamed_special : special.WellNamed := wellNamed_of_leaf rfl

section Set

variable {n? : Option Node} {top : Node} {place : Place}

theorem mem_setIn {entry : Name × Node} (h : entry ∈ setIn name n? entries) :
    entry ∈ entries ∨ entry.1 = name ∧ n? = some entry.2 := by
  have hnew : ∀ {rest : List (Name × Node)}, entry ∈ (n?.map (name, ·)).toList ++ rest →
      entry ∈ rest ∨ entry.1 = name ∧ n? = some entry.2 := by
    intro rest hentry
    obtain hentry | hentry := List.mem_append.1 hentry
    · obtain ⟨inner, rfl, rfl⟩ := Option.map_eq_some_iff.1 (Option.mem_toList.1 hentry)
      exact .inr ⟨rfl, rfl⟩
    · exact .inl hentry
  induction entries with
  | nil =>
    rw [setIn, ← List.append_nil (Option.toList _)] at h
    exact hnew h
  | cons other entries ih =>
    rw [setIn] at h
    split at h
    · exact (hnew h).imp_left (List.mem_cons_of_mem _)
    · obtain rfl | h := List.mem_cons.1 h
      · exact .inl List.mem_cons_self
      · exact (ih h).imp_left (List.mem_cons_of_mem _)

theorem nodup_setIn (h : (entries.map Prod.fst).Nodup) :
    ((setIn name n? entries).map Prod.fst).Nodup := by
  induction entries with
  | nil => cases n? <;> simp [setIn]
  | cons entry entries ih =>
    obtain ⟨other, inner⟩ := entry
    rw [List.map_cons, List.nodup_cons] at h
    rw [setIn]
    split
    · rename_i heq
      subst heq
      cases n? with
      | none => exact h.2
      | some n => exact List.nodup_cons.2 h
    · rename_i hne
      refine List.nodup_cons.2 ⟨?_, ih h.2⟩
      intro hother
      obtain ⟨entry, hentry, rfl⟩ := List.mem_map.1 hother
      obtain hentry | ⟨hname, -⟩ := mem_setIn hentry
      · exact h.1 (List.mem_map.2 ⟨entry, hentry, rfl⟩)
      · exact hne hname

theorem lookup_setIn_none (h : (entries.map Prod.fst).Nodup) :
    (setIn name none entries).lookup name = none := by
  induction entries with
  | nil => rfl
  | cons entry entries ih =>
    obtain ⟨other, inner⟩ := entry
    rw [List.map_cons, List.nodup_cons] at h
    rw [setIn]
    split
    · rename_i heq
      subst heq
      refine List.lookup_eq_none_iff.2 fun entry (hentry : entry ∈ entries) => ?_
      have hne : other ≠ entry.1 := fun heq => h.1 (List.mem_map.2 ⟨entry, hentry, heq.symm⟩)
      simpa using hne
    · rename_i hne
      have hbeq : (name == other) = false := beq_eq_false_iff_ne.2 (Ne.symm hne)
      rw [List.lookup_cons, hbeq]
      exact ih h.2

theorem WellNamed.setEntry (h : top.WellNamed) (hname : name.Valid)
    (hn : ∀ n, n? = some n → n.WellNamed) : (top.setEntry name n?).WellNamed := by
  cases top with
  | file => exact h
  | link => exact h
  | special => exact h
  | directory readable entries =>
    refine wellNamed_directory_iff.2 ⟨nodup_setIn h.nodup, ?_⟩
    intro entry hentry
    obtain hentry | ⟨rfl, heq⟩ := mem_setIn hentry
    · exact (wellNamed_directory_iff.1 h).2 entry hentry
    · exact ⟨hname, hn _ heq⟩

theorem WellNamed.set (h : top.WellNamed) (hname : name.Valid)
    (hn : ∀ n, n? = some n → n.WellNamed) : (top.set name n? place).WellNamed := by
  induction place generalizing top with
  | nil => exact h.setEntry hname hn
  | cons next place ih =>
    rw [Node.set]
    cases hentry : top.entry? next with
    | none => exact h
    | some inner =>
      have hinner : top.get? [next] = some inner := get?_cons_of_inner hentry []
      refine h.setEntry (h.valid hinner next (List.mem_singleton_self next)) ?_
      rintro _ ⟨⟩
      exact ih (h.below hinner)

/-- No other entry has the name of one that is removed. -/
theorem WellNamed.get?_removed (h : top.WellNamed) :
    (top.set name none place).get? (place ++ [name]) = none := by
  induction place generalizing top with
  | nil =>
    cases top with
    | file => rfl
    | link => rfl
    | special => rfl
    | directory readable entries =>
      have hget : (directory readable (setIn name none entries)).get? [name] =
        ((setIn name none entries).lookup name).bind (get? []) := rfl
      exact hget.trans (by rw [lookup_setIn_none h.nodup, Option.bind_none])
  | cons next place ih =>
    cases hentry : top.entry? next with
    | none =>
      rw [Node.set, hentry, List.cons_append, get?, hentry]
      rfl
    | some inner =>
      have hset : top.set name none (next :: place) =
          top.setEntry next (some (inner.set name none place)) := by
        rw [Node.set, hentry]
      rw [hset, List.cons_append,
        get?_cons_of_inner (setEntry_self (isDirectory_of_inner hentry) _)]
      exact ih (h.below (get?_cons_of_inner hentry []))

end Set

end Node

end BuildDelta.FileSystem
