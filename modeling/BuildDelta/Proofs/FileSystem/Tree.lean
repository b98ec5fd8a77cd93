import BuildDelta.FileSystem.Node
/-!
# What a change in one directory leaves alone

Setting a name in a directory is seen under that name (`get?_set_self`); everywhere else a tree stays
as it was, but for the entries of the directories on the way (`face?_set`). Two relations say
what that means for following paths: a tree that `KeepsWays` has its old directories and links, and
a tree that `Grows` has all that it had.
-/

namespace BuildDelta.FileSystem.Node

variable {top : Node} {place rest : Place} {name : Name}

def DirectoryAt (top : Node) (place : Place) : Prop :=
  ∃ d, top.get? place = some d ∧ d.isDirectory = true

instance (top : Node) (place : Place) : Decidable (top.DirectoryAt place) :=
  decidable_of_iff ((top.get? place).any isDirectory = true) (by
    rw [DirectoryAt]
    cases top.get? place <;> simp)

/-- There is nothing at a place, or what no way leads through. -/
def PlainAt (top : Node) (place : Place) : Prop :=
  ∀ n, top.get? place = some n → n.isDirectory = false ∧ ∀ target, n ≠ .link target

theorem PlainAt.isDirectory_eq_false {n : Node} (h : top.PlainAt place)
    (hn : top.get? place = some n) : n.isDirectory = false :=
  (h n hn).1

theorem PlainAt.ne_link {target : Bytes} (h : top.PlainAt place) :
    top.get? place ≠ some (.link target) := fun hn => (h _ hn).2 target rfl

theorem plainAt_of_file {f : File} (h : top.get? place = some (.file f)) : top.PlainAt place := by
  intro n hn
  cases hn.symm.trans h
  exact ⟨rfl, nofun⟩

theorem plainAt_of_special (h : top.get? place = some .special) : top.PlainAt place := by
  intro n hn
  cases hn.symm.trans h
  exact ⟨rfl, nofun⟩

theorem get?_append (place rest : Place) (top : Node) :
    top.get? (place ++ rest) = (top.get? place).bind (get? rest) := by
  induction place generalizing top with
  | nil => rfl
  | cons next place ih =>
    rw [List.cons_append, get?, get?, Option.bind_assoc]
    exact congrArg _ (funext ih)

theorem isDirectory_of_inner {n inner : Node} (h : n.entry? name = some inner) :
    n.isDirectory = true := by
  cases n with
  | directory => rfl
  | file => cases h
  | link => cases h
  | special => cases h

theorem isDirectory_of_get? {n inner : Node} (h : n.get? rest = some inner) (hrest : rest ≠ []) :
    n.isDirectory = true := by
  cases rest with
  | nil => exact absurd rfl hrest
  | cons next rest =>
    obtain ⟨m, hentry, -⟩ := Option.bind_eq_some_iff.1 h
    exact isDirectory_of_inner hentry

/-- Whatever has something below it is a directory. -/
theorem directoryAt_of_get? {inner : Node} (h : top.get? (place ++ rest) = some inner)
    (hrest : rest ≠ []) : top.DirectoryAt place := by
  rw [get?_append] at h
  obtain ⟨d, hd, hinner⟩ := Option.bind_eq_some_iff.1 h
  exact ⟨d, hd, isDirectory_of_get? hinner hrest⟩

theorem DirectoryAt.of_append (h : top.DirectoryAt (place ++ rest)) : top.DirectoryAt place := by
  cases rest with
  | nil => rwa [List.append_nil] at h
  | cons next rest =>
    obtain ⟨d, hd, -⟩ := h
    exact directoryAt_of_get? hd (List.cons_ne_nil _ _)

theorem DirectoryAt.dropLast (h : top.DirectoryAt place) : top.DirectoryAt place.dropLast := by
  cases List.eq_nil_or_concat place with
  | inl hnil => rwa [hnil] at h ⊢
  | inr hconcat =>
    obtain ⟨above, last, rfl⟩ := hconcat
    rw [List.concat_eq_append] at h ⊢
    rw [List.dropLast_concat]
    exact h.of_append

theorem lookup_setIn_self (name : Name) (n : Node) (entries : List (Name × Node)) :
    (setIn name (some n) entries).lookup name = some n := by
  induction entries with
  | nil => simp [setIn]
  | cons entry entries ih =>
    obtain ⟨other, m⟩ := entry
    unfold setIn
    split
    · simp
    · rename_i hne
      have hbeq : (name == other) = false := by simpa using Ne.symm hne
      simpa [List.lookup_cons, hbeq] using ih

theorem lookup_setIn_of_ne {other : Name} (h : other ≠ name) (n? : Option Node)
    (entries : List (Name × Node)) :
    (setIn name n? entries).lookup other = entries.lookup other := by
  have hbeq : (other == name) = false := by simpa using h
  induction entries with
  | nil => cases n? <;> simp [setIn, List.lookup_cons, hbeq]
  | cons entry entries ih =>
    obtain ⟨another, m⟩ := entry
    unfold setIn
    split
    · rename_i heq
      subst heq
      cases n? <;> simp [List.lookup_cons, hbeq]
    · simp only [List.lookup_cons, ih]

@[simp] theorem isDirectory_setEntry (name : Name) (n? : Option Node) (n : Node) :
    (n.setEntry name n?).isDirectory = n.isDirectory := by
  cases n <;> rfl

theorem setEntry_self {n : Node} (h : n.isDirectory = true) (inner : Node) :
    entry? name (n.setEntry name (some inner)) = some inner := by
  cases n with
  | directory readable entries => exact lookup_setIn_self name inner entries
  | file => cases h
  | link => cases h
  | special => cases h

theorem setEntry_of_ne {other : Name} (h : other ≠ name) (n? : Option Node) (n : Node) :
    entry? other (n.setEntry name n?) = n.entry? other := by
  cases n with
  | directory readable entries => exact lookup_setIn_of_ne h n? entries
  | file => rfl
  | link => rfl
  | special => rfl

theorem not_concat_within (place : Place) (name : Name) : ¬place ++ [name] <+: place :=
  fun h => absurd h.length_le (by simp)

theorem get?_cons_of_inner {n inner : Node} (h : n.entry? name = some inner) (rest : Place) :
    n.get? (name :: rest) = inner.get? rest := by
  rw [get?, h, Option.bind_some]

theorem get?_set_self (h : top.DirectoryAt place) (n : Node) :
    (top.set name (some n) place).get? (place ++ [name]) = some n := by
  induction place generalizing top with
  | nil =>
    obtain ⟨d, hd, hdirectory⟩ := h
    cases hd
    exact get?_cons_of_inner (setEntry_self hdirectory n) []
  | cons next place ih =>
    obtain ⟨d, hd, hdirectory⟩ := h
    obtain ⟨inner, hinner, hplace⟩ := Option.bind_eq_some_iff.1 hd
    have hset : top.set name (some n) (next :: place) =
        top.setEntry next (some (inner.set name (some n) place)) := by
      rw [set, hinner]
    rw [hset, List.cons_append,
      get?_cons_of_inner (setEntry_self (isDirectory_of_inner hinner) _)]
    exact ih ⟨d, hplace, hdirectory⟩

/-- A node from outside: of a directory only whether it can be read. -/
def face : Node → Node
  | .directory readable _ => .directory readable []
  | n => n

/-- What is at a place, apart from what is below it. -/
def face? (place : Place) (top : Node) : Option Node := (top.get? place).map face

@[simp] theorem isDirectory_face (n : Node) : n.face.isDirectory = n.isDirectory := by
  cases n <;> rfl

theorem isDirectory_eq_of_face {n n' : Node} (h : n'.face = n.face) : n'.isDirectory = n.isDirectory := by
  rw [← isDirectory_face, h, isDirectory_face]

theorem exists_directory_of_face {n' : Node} {readable : Bool} {entries : List (Name × Node)}
    (h : n'.face = (directory readable entries).face) : ∃ entries', n' = .directory readable entries' := by
  cases n' with
  | directory readable' entries' =>
    obtain ⟨rfl, -⟩ := Node.directory.inj h
    exact ⟨entries', rfl⟩
  | file => cases h
  | link => cases h
  | special => cases h

theorem eq_of_face_eq {n n' : Node} (h : n'.face = n.face) (hn : n.isDirectory = false) : n' = n := by
  cases n with
  | directory => cases hn
  | file => cases n' <;> simp_all [face]
  | link => cases n' <;> simp_all [face]
  | special => cases n' <;> simp_all [face]

section Face

variable {top' : Node} {q : Place} (h : top'.face? q = top.face? q)
include h

theorem get?_of_face?_none (hq : top.get? q = none) : top'.get? q = none := by
  rw [face?, face?, hq] at h
  exact Option.map_eq_none_iff.1 h

theorem exists_of_face? {n : Node} (hq : top.get? q = some n) :
    ∃ n', top'.get? q = some n' ∧ n'.face = n.face := by
  rw [face?, face?, hq] at h
  exact Option.map_eq_some_iff.1 h

theorem DirectoryAt.of_face? (hq : top.DirectoryAt q) : top'.DirectoryAt q := by
  obtain ⟨d, hd, hdirectory⟩ := hq
  obtain ⟨d', hd', hface⟩ := exists_of_face? h hd
  exact ⟨d', hd', (isDirectory_eq_of_face hface).trans hdirectory⟩

theorem get?_of_face? {n : Node} (hq : top.get? q = some n) (hn : n.isDirectory = false) :
    top'.get? q = some n := by
  obtain ⟨n', hn', hface⟩ := exists_of_face? h hq
  rw [hn', eq_of_face_eq hface hn]

end Face

@[simp] theorem face_setEntry (name : Name) (n? : Option Node) (n : Node) :
    (n.setEntry name n?).face = n.face := by
  cases n <;> rfl

/-- Only what is at the name that is set, or below, becomes something else; the directories above get
other entries. -/
theorem face?_set {q : Place} (h : ¬place ++ [name] <+: q) (n? : Option Node) (top : Node) :
    (top.set name n? place).face? q = top.face? q := by
  induction place generalizing top q with
  | nil =>
    cases q with
    | nil => exact congrArg some (face_setEntry name n? top)
    | cons other rest =>
      have hne : other ≠ name := by
        intro heq
        subst heq
        exact h (by simp)
      rw [set, face?, face?, get?, get?, setEntry_of_ne hne]
  | cons next place ih =>
    cases hentry : top.entry? next with
    | none => rw [set, hentry]
    | some inner =>
      have hset : top.set name n? (next :: place) =
          top.setEntry next (some (inner.set name n? place)) := by
        rw [set, hentry]
      have hdirectory := isDirectory_of_inner hentry
      rw [hset]
      cases q with
      | nil => exact congrArg some (face_setEntry next _ top)
      | cons other rest =>
        by_cases hother : other = next
        · subst hother
          have hrest : ¬place ++ [name] <+: rest := fun hp => h (by simpa using hp)
          have hself : entry? other (top.setEntry other (some (inner.set name n? place))) =
              some (inner.set name n? place) := setEntry_self hdirectory _
          rw [face?, face?, get?_cons_of_inner hself, get?_cons_of_inner hentry]
          exact ih hrest inner
        · rw [face?, face?, get?, get?, setEntry_of_ne hother]

theorem get?_set_other {other : Name} (h : other ≠ name) (n? : Option Node) (top : Node) :
    (top.set name n? place).get? (place ++ [other]) = top.get? (place ++ [other]) := by
  induction place generalizing top with
  | nil =>
    rw [set, List.nil_append, get?, get?, setEntry_of_ne h]
  | cons next place ih =>
    cases hentry : top.entry? next with
    | none => rw [set, hentry]
    | some inner =>
      have hset : top.set name n? (next :: place) =
          top.setEntry next (some (inner.set name n? place)) := by
        rw [set, hentry]
      rw [hset, List.cons_append, get?_cons_of_inner (setEntry_self (isDirectory_of_inner hentry) _),
        get?_cons_of_inner hentry]
      exact ih inner

theorem get?_set_of_leaf {q : Place} {n : Node} (h : ¬place ++ [name] <+: q) (n? : Option Node)
    (hq : top.get? q = some n) (hn : n.isDirectory = false) :
    (top.set name n? place).get? q = some n :=
  get?_of_face? (face?_set h n? top) hq hn

theorem DirectoryAt.set {q : Place} (h : ¬place ++ [name] <+: q) (n? : Option Node)
    (hq : top.DirectoryAt q) : (top.set name n? place).DirectoryAt q :=
  hq.of_face? (face?_set h n? top)

/-- Where there was a directory is one, and where there was a link is the same link. -/
structure KeepsWays (top top' : Node) : Prop where
  directory : ∀ place, top.DirectoryAt place → top'.DirectoryAt place
  link : ∀ place target, top.get? place = some (.link target) → top'.get? place = some (.link target)

/-- Nothing is lost, and no file is changed. -/
structure Grows (top top' : Node) : Prop extends KeepsWays top top' where
  file : ∀ place f, top.get? place = some (.file f) → top'.get? place = some (.file f)

theorem KeepsWays.trans {first second third : Node} (h : KeepsWays first second)
    (h' : KeepsWays second third) : KeepsWays first third where
  directory place hplace := h'.directory place (h.directory place hplace)
  link place target hplace := h'.link place target (h.link place target hplace)

theorem Grows.refl (top : Node) : Grows top top where
  directory _ h := h
  link _ _ h := h
  file _ _ h := h

theorem Grows.trans {first second third : Node} (h : Grows first second)
    (h' : Grows second third) : Grows first third where
  toKeepsWays := h.toKeepsWays.trans h'.toKeepsWays
  file place f hplace := h'.file place f (h.file place f hplace)

/-- Nothing is below a place without a directory. -/
theorem get?_eq_none_of_leaf {q : Place}
    (h : ∀ n, top.get? place = some n → n.isDirectory = false) (hbelow : place <+: q)
    (hne : q ≠ place) : top.get? q = none := by
  obtain ⟨rest, rfl⟩ := hbelow
  have hrest : rest ≠ [] := fun hnil => hne (by rw [hnil, List.append_nil])
  rw [Option.eq_none_iff_forall_ne_some]
  intro n hn
  obtain ⟨d, hd, hdirectory⟩ := directoryAt_of_get? hn hrest
  rw [h d hd] at hdirectory
  cases hdirectory

theorem PlainAt.eq_of_prefix {q : Place} {n : Node} (h : top.PlainAt place)
    (hq : top.get? q = some n) (hbelow : place <+: q) : q = place := by
  refine Decidable.byContradiction fun hne => ?_
  rw [get?_eq_none_of_leaf (fun _ => h.isDirectory_eq_false) hbelow hne] at hq
  cases hq

/-- No way leads through a plain place, so whatever it is set to keeps all ways. -/
theorem PlainAt.keepsWays_set (h : top.PlainAt (place ++ [name])) (n? : Option Node) :
    KeepsWays top (top.set name n? place) := by
  constructor
  · intro q hq
    apply hq.set
    intro hbelow
    obtain ⟨d, hd, hdirectory⟩ := hq
    rw [h.eq_of_prefix hd hbelow] at hd
    rw [h.isDirectory_eq_false hd] at hdirectory
    cases hdirectory
  · intro q target hq
    refine get?_set_of_leaf ?_ n? hq rfl
    intro hbelow
    rw [h.eq_of_prefix hq hbelow] at hq
    exact h.ne_link hq

/-- Ways that are open where a name is missing lead past it, whatever the name is set to. -/
theorem KeepsWays.set_of_missing {top' : Node} (h : KeepsWays top top')
    (hmissing : (top.set name none place).get? (place ++ [name]) = none) (n? : Option Node) :
    KeepsWays (top.set name none place) (top'.set name n? place) := by
  have hplain : (top.set name none place).PlainAt (place ++ [name]) := by
    intro n hn
    cases hmissing.symm.trans hn
  have hpast : ∀ q n, (top.set name none place).get? q = some n → ¬place ++ [name] <+: q := by
    intro q n hq hbelow
    rw [hplain.eq_of_prefix hq hbelow] at hq
    cases hmissing.symm.trans hq
  constructor
  · intro q hq
    obtain ⟨d, hd, hdirectory⟩ := hq
    have hq : top.DirectoryAt q :=
      DirectoryAt.of_face? (face?_set (hpast q d hd) none top).symm ⟨d, hd, hdirectory⟩
    exact (h.directory q hq).set (hpast q d hd) n?
  · intro q target hq
    have hbelow := hpast q _ hq
    have hbefore := get?_of_face? (face?_set hbelow none top).symm hq rfl
    exact get?_set_of_leaf hbelow n? (h.link q target hbefore) rfl

theorem grows_set (h : top.get? (place ++ [name]) = none) (n? : Option Node) :
    Grows top (top.set name n? place) := by
  have hplain : top.PlainAt (place ++ [name]) := by
    intro n hn
    cases h.symm.trans hn
  refine ⟨hplain.keepsWays_set n?, ?_⟩
  intro q f hq
  refine get?_set_of_leaf ?_ n? hq rfl
  intro hbelow
  rw [hplain.eq_of_prefix hq hbelow, h] at hq
  cases hq

/-- Where there is a file or a link is one after a file has been put in a plain place. -/
theorem PlainAt.exists_leaf {q : Place} {n : Node} (h : top.PlainAt (place ++ [name]))
    (hq : top.get? q = some n) (hn : n.isDirectory = false) (f : File) :
    ∃ n', (top.set name (some (.file f)) place).get? q = some n' ∧ n'.isDirectory = false := by
  by_cases hbelow : place ++ [name] <+: q
  · have heq := h.eq_of_prefix hq hbelow
    subst heq
    have hparent := directoryAt_of_get? hq (List.cons_ne_nil name [])
    exact ⟨.file f, get?_set_self hparent (.file f), rfl⟩
  · exact ⟨n, get?_set_of_leaf hbelow (some (.file f)) hq hn, hn⟩

end BuildDelta.FileSystem.Node
