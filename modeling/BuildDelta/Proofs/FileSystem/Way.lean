import BuildDelta.FileSystem.Resolve
import BuildDelta.Proofs.FileSystem.Tree
/-!
# Ways through a tree

All but the last name of a path is a way that `Reaches` a directory, whatever the path is followed
for: following the path is then the same as looking up the last name from there
(`Reaches.walkLinks_append`), and a path that is followed without a refusal has such a way
(`exists_reaches`). A way that does not end is refused, for one reason whatever the path is followed
for (`reaches_or_refused`). A way stays open as long as the tree keeps its directories and links.
-/

namespace BuildDelta.FileSystem

open Node

/-- What `walkLinks` does at a link. -/
def jumpLinks (top : Node) (purpose : Purpose) : Nat → Place → List Step → Except Error Found
  | 0 => fun _ _ => .error .tooManyLinks
  | links + 1 => walkLinks top purpose links

theorem walkLinks_eq (top : Node) (purpose : Purpose) (links : Nat) :
    walkLinks top purpose links = walk top purpose (jumpLinks top purpose links) := by
  cases links <;> rfl

/-- The steps that `walkLinks` takes when nothing is refused. -/
inductive Follows (top : Node) (purpose : Purpose) : Nat → Place → List Step → Found → Prop
  | stop {links : Nat} {place : Place} {n : Node} (hplace : top.get? place = some n) :
    Follows top purpose links place [] (.node place n)
  | slash {links : Nat} {place : Place} {way : List Step} {found : Found}
    (h : Follows top purpose links place way found) :
    Follows top purpose links place (.slash :: way) found
  | here {links : Nat} {place : Place} {way : List Step} {found : Found}
    (h : Follows top purpose links place way found) :
    Follows top purpose links place (.component .here :: way) found
  | root {links : Nat} {place : Place} {way : List Step} {found : Found}
    (h : Follows top purpose links [] way found) :
    Follows top purpose links place (.component .root :: way) found
  | above {links : Nat} {place : Place} {way : List Step} {found : Found}
    (h : Follows top purpose links place.dropLast way found) :
    Follows top purpose links place (.component .above :: way) found
  | missing {links : Nat} {place : Place} {name : Name} (hname : name.length ≤ maxNameLength)
    (hplace : top.get? (place ++ [name]) = none) :
    Follows top purpose links place [.component (.name name)] (.missing place name)
  | leaf {links : Nat} {place : Place} {name : Name} {n : Node}
    (hname : name.length ≤ maxNameLength) (hplace : top.get? (place ++ [name]) = some n)
    (hn : n.isDirectory = false) (hlink : ∀ target, n = .link target → purpose = .entry) :
    Follows top purpose links place [.component (.name name)] (.node (place ++ [name]) n)
  | directory {links : Nat} {place : Place} {name : Name} {way : List Step} {found : Found}
    (hname : name.length ≤ maxNameLength) (hslash : purpose = .output → way ≠ [.slash])
    (hplace : top.DirectoryAt (place ++ [name]))
    (h : Follows top purpose links (place ++ [name]) way found) :
    Follows top purpose links place (.component (.name name) :: way) found
  | link {links : Nat} {place : Place} {name : Name} {way : List Step} {found : Found}
    {target : Bytes} (hname : name.length ≤ maxNameLength)
    (hslash : purpose = .output → way ≠ [.slash]) (hentry : purpose = .entry → way ≠ [])
    (hplace : top.get? (place ++ [name]) = some (.link target))
    (h : Follows top purpose links (if target.head? = some Path.slash then [] else place)
      (steps target ++ way) found) :
    Follows top purpose (links + 1) place (.component (.name name) :: way) found

variable {top top' : Node} {purpose : Purpose} {links links' : Nat} {place place' : Place}
  {way : List Step} {found : Found}

theorem Follows.of_walk
    (hjump : ∀ place way, jumpLinks top purpose links place way = .ok found →
      ∃ fewer, links = fewer + 1 ∧ Follows top purpose fewer place way found)
    (h : walk top purpose (jumpLinks top purpose links) place way = .ok found) :
    Follows top purpose links place way found := by
  induction way generalizing place with
  | nil =>
    unfold walk at h
    cases hplace : top.get? place with
    | none => simp [hplace] at h
    | some n =>
      rw [hplace] at h
      cases h
      exact .stop hplace
  | cons step way ih =>
    cases step with
    | slash => exact .slash (ih h)
    | component c =>
      cases c with
      | root => exact .root (ih h)
      | here => exact .here (ih h)
      | above => exact .above (ih h)
      | name name =>
        unfold walk at h
        split at h
        · cases h
        rename_i hout
        have hslash : purpose = .output → way ≠ [.slash] := fun hp hw => hout ⟨hp, hw⟩
        split at h
        · cases h
        rename_i hlong
        have hname : name.length ≤ maxNameLength := Nat.not_lt.1 hlong
        cases hplace : top.get? (place ++ [name]) with
        | none =>
          rw [hplace] at h
          cases way with
          | nil =>
            cases h
            exact .missing hname hplace
          | cons => cases h
        | some n =>
          rw [hplace] at h
          cases n with
          | directory readable entries => exact .directory hname hslash ⟨_, hplace, rfl⟩ (ih h)
          | file f =>
            cases way with
            | nil =>
              cases h
              exact .leaf hname hplace rfl (by simp)
            | cons => cases h
          | special =>
            cases way with
            | nil =>
              cases h
              exact .leaf hname hplace rfl (by simp)
            | cons => cases h
          | link target =>
            simp only [List.isEmpty_iff] at h
            split at h
            · rename_i hentry
              obtain ⟨rfl, hentry⟩ := hentry
              cases h
              exact .leaf hname hplace rfl (fun _ _ => hentry)
            · rename_i hentry
              obtain ⟨fewer, rfl, hfollows⟩ := hjump _ _ h
              exact .link hname hslash (fun hp hw => hentry ⟨hw, hp⟩) hplace hfollows

theorem Follows.of_walkLinks (h : walkLinks top purpose links place way = .ok found) :
    Follows top purpose links place way found := by
  induction links generalizing place way with
  | zero =>
    rw [walkLinks_eq] at h
    refine .of_walk (fun _ _ hjump => ?_) h
    cases hjump
  | succ links ih =>
    rw [walkLinks_eq] at h
    exact .of_walk (fun place way hjump => ⟨links, rfl, ih hjump⟩) h

theorem Follows.walkLinks (h : Follows top purpose links place way found) :
    walkLinks top purpose links place way = .ok found := by
  induction h with
  | stop hplace => rw [walkLinks_eq, walk, hplace]
  | slash _ ih => rwa [walkLinks_eq, walk, ← walkLinks_eq]
  | here _ ih => rwa [walkLinks_eq, walk, ← walkLinks_eq]
  | root _ ih => rwa [walkLinks_eq, walk, ← walkLinks_eq]
  | above _ ih => rwa [walkLinks_eq, walk, ← walkLinks_eq]
  | missing hname hplace =>
    rw [walkLinks_eq, walk, if_neg (by simp), if_neg (Nat.not_lt.2 hname), hplace]
    rfl
  | @leaf _ _ name n hname hplace hn hlink =>
    rw [walkLinks_eq, walk, if_neg (by simp), if_neg (Nat.not_lt.2 hname), hplace]
    cases n with
    | directory => cases hn
    | file => rfl
    | special => rfl
    | link target => simp [hlink target rfl]
  | directory hname hslash hplace _ ih =>
    obtain ⟨d, hd, hdirectory⟩ := hplace
    rw [walkLinks_eq, walk, if_neg (fun hout => hslash hout.1 hout.2),
      if_neg (Nat.not_lt.2 hname), hd]
    cases d with
    | directory => rwa [walkLinks_eq] at ih
    | file => cases hdirectory
    | link => cases hdirectory
    | special => cases hdirectory
  | link hname hslash hentry hplace _ ih =>
    rw [walkLinks_eq, walk, if_neg (fun hout => hslash hout.1 hout.2),
      if_neg (Nat.not_lt.2 hname), hplace]
    simp only [List.isEmpty_iff]
    rw [if_neg (fun hout => hentry hout.2 hout.1)]
    exact ih

/-- These steps, from the one place with so many links to go, end in the other with so many left. -/
inductive Reaches (top : Node) : Nat → Place → List Step → Nat → Place → Prop
  | stay (links : Nat) (place : Place) : Reaches top links place [] links place
  | slash {links links' : Nat} {place place' : Place} {way : List Step}
    (h : Reaches top links place way links' place') :
    Reaches top links place (.slash :: way) links' place'
  | here {links links' : Nat} {place place' : Place} {way : List Step}
    (h : Reaches top links place way links' place') :
    Reaches top links place (.component .here :: way) links' place'
  | root {links links' : Nat} {place place' : Place} {way : List Step}
    (h : Reaches top links [] way links' place') :
    Reaches top links place (.component .root :: way) links' place'
  | above {links links' : Nat} {place place' : Place} {way : List Step}
    (h : Reaches top links place.dropLast way links' place') :
    Reaches top links place (.component .above :: way) links' place'
  | directory {links links' : Nat} {place place' : Place} {way : List Step} {name : Name}
    (hname : name.length ≤ maxNameLength) (hplace : top.DirectoryAt (place ++ [name]))
    (h : Reaches top links (place ++ [name]) way links' place') :
    Reaches top links place (.component (.name name) :: way) links' place'
  | link {links links' : Nat} {place place' : Place} {way : List Step} {name : Name}
    {target : Bytes} (hname : name.length ≤ maxNameLength)
    (hplace : top.get? (place ++ [name]) = some (.link target))
    (h : Reaches top links (if target.head? = some Path.slash then [] else place)
      (steps target ++ way) links' place') :
    Reaches top (links + 1) place (.component (.name name) :: way) links' place'

theorem Reaches.walkLinks_append_steps (h : Reaches top links place way links' place')
    (rest : List Step) (last : Path.Component) :
    walkLinks top purpose links place (way ++ (rest ++ [.component last])) =
      walkLinks top purpose links' place' (rest ++ [.component last]) := by
  have hslash : ∀ way : List Step, way ++ (rest ++ [.component last]) ≠ [.slash] := by
    intro way heq
    have hlast := congrArg List.getLast? heq
    simp at hlast
  induction h with
  | stay => rfl
  | slash h ih => rw [← ih, walkLinks_eq, List.cons_append, walk]
  | here h ih => rw [← ih, walkLinks_eq, List.cons_append, walk]
  | root h ih => rw [← ih, walkLinks_eq, List.cons_append, walk]
  | above h ih => rw [← ih, walkLinks_eq, List.cons_append, walk]
  | directory hname hplace h ih =>
    obtain ⟨d, hd, hdirectory⟩ := hplace
    cases d with
    | directory readable entries =>
      rw [← ih, walkLinks_eq, List.cons_append, walk, if_neg (fun hout => hslash _ hout.2),
        if_neg (Nat.not_lt.2 hname), hd]
    | file => cases hdirectory
    | link => cases hdirectory
    | special => cases hdirectory
  | link hname hplace h ih =>
    rw [← ih, walkLinks_eq, List.cons_append, walk, if_neg (fun hout => hslash _ hout.2),
      if_neg (Nat.not_lt.2 hname), hplace]
    simp [jumpLinks]

theorem Reaches.walkLinks_append (h : Reaches top links place way links' place')
    (last : Path.Component) : walkLinks top purpose links place (way ++ [.component last]) =
      walkLinks top purpose links' place' [.component last] :=
  h.walkLinks_append_steps [] last

theorem Reaches.mono (hkeeps : KeepsWays top top') (h : Reaches top links place way links' place') :
    Reaches top' links place way links' place' := by
  induction h with
  | stay => exact .stay _ _
  | slash _ ih => exact .slash ih
  | here _ ih => exact .here ih
  | root _ ih => exact .root ih
  | above _ ih => exact .above ih
  | directory hname hplace _ ih => exact .directory hname (hkeeps.directory _ hplace) ih
  | link hname hplace _ ih => exact .link hname (hkeeps.link _ _ hplace) ih

theorem Reaches.directoryAt (h : Reaches top links place way links' place')
    (hplace : top.DirectoryAt place) : top.DirectoryAt place' := by
  have htop : top.DirectoryAt [] := by
    have happend : top.DirectoryAt ([] ++ place) := hplace
    exact happend.of_append
  induction h with
  | stay => exact hplace
  | slash _ ih => exact ih hplace
  | here _ ih => exact ih hplace
  | root _ ih => exact ih htop
  | above _ ih => exact ih hplace.dropLast
  | directory _ hinner _ ih => exact ih hinner
  | link _ _ _ ih =>
    apply ih
    split
    · exact htop
    · exact hplace

/-- A path that is followed has a way to the directory of its last name. -/
theorem Follows.exists_reaches {last : Path.Component}
    (h : Follows top purpose links place (way ++ [.component last]) found) :
    ∃ links' place', Reaches top links place way links' place' := by
  generalize hway : way ++ [.component last] = whole at h
  induction h generalizing way with
  | stop => simp at hway
  | slash _ ih =>
    cases way with
    | nil => exact ⟨_, _, .stay _ _⟩
    | cons _ rest =>
      cases hway
      obtain ⟨links', place', hreaches⟩ := ih rfl
      exact ⟨links', place', .slash hreaches⟩
  | here _ ih =>
    cases way with
    | nil => exact ⟨_, _, .stay _ _⟩
    | cons _ rest =>
      cases hway
      obtain ⟨links', place', hreaches⟩ := ih rfl
      exact ⟨links', place', .here hreaches⟩
  | root _ ih =>
    cases way with
    | nil => exact ⟨_, _, .stay _ _⟩
    | cons _ rest =>
      cases hway
      obtain ⟨links', place', hreaches⟩ := ih rfl
      exact ⟨links', place', .root hreaches⟩
  | above _ ih =>
    cases way with
    | nil => exact ⟨_, _, .stay _ _⟩
    | cons _ rest =>
      cases hway
      obtain ⟨links', place', hreaches⟩ := ih rfl
      exact ⟨links', place', .above hreaches⟩
  | missing =>
    cases way with
    | nil => exact ⟨_, _, .stay _ _⟩
    | cons _ rest => simp at hway
  | leaf =>
    cases way with
    | nil => exact ⟨_, _, .stay _ _⟩
    | cons _ rest => simp at hway
  | directory hname _ hplace _ ih =>
    cases way with
    | nil => exact ⟨_, _, .stay _ _⟩
    | cons _ rest =>
      cases hway
      obtain ⟨links', place', hreaches⟩ := ih rfl
      exact ⟨links', place', .directory hname hplace hreaches⟩
  | link hname _ _ hplace _ ih =>
    cases way with
    | nil => exact ⟨_, _, .stay _ _⟩
    | cons _ rest =>
      cases hway
      obtain ⟨links', place', hreaches⟩ := ih (List.append_assoc ..)
      exact ⟨links', place', .link hname hplace hreaches⟩

theorem Follows.length_name_le {name : Name}
    (h : Follows top purpose links place (.component (.name name) :: way) found) :
    name.length ≤ maxNameLength := by
  cases h <;> assumption

/-- The last name of a path is looked up where the way to it ends, unless a link there is gone behind. -/
theorem Follows.last {name : Name}
    (h : Follows top purpose links place [.component (.name name)] found)
    (hlink : ∀ target, top.get? (place ++ [name]) = some (.link target) → purpose = .entry) :
    name.length ≤ maxNameLength ∧
      ((top.get? (place ++ [name]) = none ∧ found = .missing place name) ∨
        ∃ n, top.get? (place ++ [name]) = some n ∧ found = .node (place ++ [name]) n) := by
  cases h with
  | missing hname hplace => exact ⟨hname, .inl ⟨hplace, rfl⟩⟩
  | leaf hname hplace => exact ⟨hname, .inr ⟨_, hplace, rfl⟩⟩
  | directory hname _ _ h =>
    cases h with
    | stop hplace => exact ⟨hname, .inr ⟨_, hplace, rfl⟩⟩
  | link _ _ hentry hplace => exact absurd rfl (hentry (hlink _ hplace))

theorem follows_last {name : Name} {n : Node} (links : Nat) (hname : name.length ≤ maxNameLength)
    (hplace : top.get? (place ++ [name]) = some n)
    (hlink : ∀ target, n = .link target → purpose = .entry) :
    Follows top purpose links place [.component (.name name)] (.node (place ++ [name]) n) := by
  cases hn : n.isDirectory with
  | false => exact .leaf hname hplace hn hlink
  | true => exact .directory hname (by simp) ⟨n, hplace, hn⟩ (.stop hplace)

theorem Reaches.follows_append_iff (h : Reaches top links place way links' place')
    (last : Path.Component) :
    Follows top purpose links place (way ++ [.component last]) found ↔
      Follows top purpose links' place' [.component last] found := by
  have heq : walkLinks top purpose links place (way ++ [.component last]) =
      walkLinks top purpose links' place' [.component last] := h.walkLinks_append last
  constructor
  · intro hfollows
    exact .of_walkLinks (heq ▸ hfollows.walkLinks)
  · intro hfollows
    exact .of_walkLinks (heq ▸ hfollows.walkLinks)

/-- A result that is true of a tree. -/
def Found.Describes (top : Node) : Found → Prop
  | .node place n => top.get? place = some n
  | .missing parent name => top.get? (parent ++ [name]) = none

theorem Follows.describes (h : Follows top purpose links place way found) :
    found.Describes top := by
  induction h with
  | stop hplace => exact hplace
  | slash _ ih => exact ih
  | here _ ih => exact ih
  | root _ ih => exact ih
  | above _ ih => exact ih
  | missing _ hplace => exact hplace
  | leaf _ hplace _ _ => exact hplace
  | directory _ _ _ _ ih => exact ih
  | link _ _ _ _ _ ih => exact ih

/-- Files stay where they are found, as do the links on the way. -/
theorem Follows.file_mono {f : File} (hgrows : Grows top top')
    (h : Follows top purpose links place way (.node place' (.file f))) :
    Follows top' purpose links place way (.node place' (.file f)) := by
  generalize hfound : Found.node place' (.file f) = found at h
  induction h with
  | stop hplace =>
    cases hfound
    exact .stop (hgrows.file _ _ hplace)
  | slash _ ih => exact .slash (ih hfound)
  | here _ ih => exact .here (ih hfound)
  | root _ ih => exact .root (ih hfound)
  | above _ ih => exact .above (ih hfound)
  | missing => cases hfound
  | leaf hname hplace hn hlink =>
    cases hfound
    exact .leaf hname (hgrows.file _ _ hplace) hn hlink
  | directory hname hslash hplace _ ih =>
    exact .directory hname hslash (hgrows.directory _ hplace) (ih hfound)
  | link hname hslash hentry hplace _ ih =>
    exact .link hname hslash hentry (hgrows.link _ _ hplace) (ih hfound)

/-- A way that starts with these steps goes through them. -/
theorem Reaches.of_append {rest : List Step}
    (h : Reaches top links place (way ++ rest) links' place') :
    ∃ links'' place'', Reaches top links place way links'' place'' := by
  -- a link puts the steps of its target before what is left, so it is not always the same `way`
  generalize hway : way ++ rest = whole at h
  induction h generalizing way with
  | stay =>
    obtain ⟨rfl, -⟩ := List.append_eq_nil_iff.1 hway
    exact ⟨_, _, .stay _ _⟩
  | slash _ ih =>
    cases way with
    | nil => exact ⟨_, _, .stay _ _⟩
    | cons _ way =>
      cases hway
      obtain ⟨links', place', hreaches⟩ := ih rfl
      exact ⟨links', place', .slash hreaches⟩
  | here _ ih =>
    cases way with
    | nil => exact ⟨_, _, .stay _ _⟩
    | cons _ way =>
      cases hway
      obtain ⟨links', place', hreaches⟩ := ih rfl
      exact ⟨links', place', .here hreaches⟩
  | root _ ih =>
    cases way with
    | nil => exact ⟨_, _, .stay _ _⟩
    | cons _ way =>
      cases hway
      obtain ⟨links', place', hreaches⟩ := ih rfl
      exact ⟨links', place', .root hreaches⟩
  | above _ ih =>
    cases way with
    | nil => exact ⟨_, _, .stay _ _⟩
    | cons _ way =>
      cases hway
      obtain ⟨links', place', hreaches⟩ := ih rfl
      exact ⟨links', place', .above hreaches⟩
  | directory hname hplace _ ih =>
    cases way with
    | nil => exact ⟨_, _, .stay _ _⟩
    | cons _ way =>
      cases hway
      obtain ⟨links', place', hreaches⟩ := ih rfl
      exact ⟨links', place', .directory hname hplace hreaches⟩
  | link hname hplace _ ih =>
    cases way with
    | nil => exact ⟨_, _, .stay _ _⟩
    | cons _ way =>
      cases hway
      obtain ⟨links', place', hreaches⟩ := ih (List.append_assoc ..)
      exact ⟨links', place', .link hname hplace hreaches⟩

theorem Reaches.append {rest : List Step} {links'' : Nat} {place'' : Place}
    (h : Reaches top links place way links' place')
    (hrest : Reaches top links' place' rest links'' place'') :
    Reaches top links place (way ++ rest) links'' place'' := by
  induction h with
  | stay => exact hrest
  | slash _ ih => exact .slash (ih hrest)
  | here _ ih => exact .here (ih hrest)
  | root _ ih => exact .root (ih hrest)
  | above _ ih => exact .above (ih hrest)
  | directory hname hplace _ ih => exact .directory hname hplace (ih hrest)
  | link hname hplace _ ih =>
    rw [List.append_assoc] at ih
    exact .link hname hplace (ih hrest)

/-- The end of a way is there, and so is the link that may be its last step. -/
theorem Reaches.exists_entry (h : Reaches top links place way links' place')
    (hplace : top.DirectoryAt place') :
    ∃ q n, Follows top .entry links place way (.node q n) := by
  induction h with
  | stay =>
    obtain ⟨d, hd, -⟩ := hplace
    exact ⟨_, d, .stop hd⟩
  | slash _ ih =>
    obtain ⟨q, n, hfollows⟩ := ih hplace
    exact ⟨q, n, .slash hfollows⟩
  | here _ ih =>
    obtain ⟨q, n, hfollows⟩ := ih hplace
    exact ⟨q, n, .here hfollows⟩
  | root _ ih =>
    obtain ⟨q, n, hfollows⟩ := ih hplace
    exact ⟨q, n, .root hfollows⟩
  | above _ ih =>
    obtain ⟨q, n, hfollows⟩ := ih hplace
    exact ⟨q, n, .above hfollows⟩
  | directory hname hinner _ ih =>
    obtain ⟨q, n, hfollows⟩ := ih hplace
    exact ⟨q, n, .directory hname nofun hinner hfollows⟩
  | @link _ _ place _ way name target hname hlink _ ih =>
    cases way with
    -- as the last step a link is not followed: it is the entry itself
    | nil => exact ⟨_, _, .leaf hname hlink rfl fun _ _ => rfl⟩
    | cons step way =>
      obtain ⟨q, n, hfollows⟩ := ih hplace
      exact ⟨q, n, .link hname nofun nofun hlink hfollows⟩

/-- A way that does not end is refused for a reason that has nothing to do with what comes behind. -/
def Refused (top : Node) (links : Nat) (place : Place) (way : List Step) : Prop :=
  ∃ e, ∀ purpose last, walkLinks top purpose links place (way ++ [.component last]) = .error e

theorem reaches_or_refused_of_jump
    (hjump : ∀ place way, (∃ fewer links' place', links = fewer + 1 ∧
        Reaches top fewer place way links' place') ∨
      ∃ e, ∀ purpose last, jumpLinks top purpose links place (way ++ [.component last]) = .error e)
    (place : Place) (way : List Step) :
    (∃ links' place', Reaches top links place way links' place') ∨ Refused top links place way := by
  simp only [Refused, walkLinks_eq]
  -- between two links the way only gets shorter; behind a link it may be longer, which is `hjump`
  induction way generalizing place with
  | nil => exact .inl ⟨_, _, .stay _ _⟩
  | cons step way ih =>
    cases step with
    | slash =>
      obtain ⟨links', place', h⟩ | h := ih place
      · exact .inl ⟨links', place', .slash h⟩
      · exact .inr h
    | component c =>
      cases c with
      | root =>
        obtain ⟨links', place', h⟩ | h := ih []
        · exact .inl ⟨links', place', .root h⟩
        · exact .inr h
      | here =>
        obtain ⟨links', place', h⟩ | h := ih place
        · exact .inl ⟨links', place', .here h⟩
        · exact .inr h
      | above =>
        obtain ⟨links', place', h⟩ | h := ih place.dropLast
        · exact .inl ⟨links', place', .above h⟩
        · exact .inr h
      | name name =>
        have hslash : ∀ last : Path.Component, way ++ [.component last] ≠ [.slash] := by
          intro last heq
          cases way with
          | nil => cases heq
          | cons step way => simp at heq
        have hrest : ∀ last : Path.Component, (way ++ [Step.component last]).isEmpty = false := by
          simp
        simp only [List.cons_append, walk, hslash, hrest, and_false, false_and, Bool.false_eq_true,
          if_false]
        by_cases hlong : maxNameLength < name.length
        · exact .inr ⟨.nameTooLong, fun _ _ => if_pos hlong⟩
        have hname := Nat.not_lt.1 hlong
        simp only [hlong, if_false]
        cases hn : top.get? (place ++ [name]) with
        | none => exact .inr ⟨.notFound, fun _ _ => rfl⟩
        | some n =>
          cases n with
          | file f => exact .inr ⟨.notDirectory, fun _ _ => rfl⟩
          | special => exact .inr ⟨.notDirectory, fun _ _ => rfl⟩
          | directory readable entries =>
            obtain ⟨links', place', h⟩ | h := ih (place ++ [name])
            · exact .inl ⟨links', place', .directory hname ⟨_, hn, rfl⟩ h⟩
            · exact .inr h
          | link target =>
            obtain ⟨fewer, links', place', rfl, h⟩ | ⟨e, h⟩ :=
              hjump (if target.head? = some Path.slash then [] else place) (steps target ++ way)
            · exact .inl ⟨links', place', .link hname hn h⟩
            · simp only [List.append_assoc] at h
              exact .inr ⟨e, h⟩

theorem reaches_or_refused (top : Node) (links : Nat) (place : Place) (way : List Step) :
    (∃ links' place', Reaches top links place way links' place') ∨ Refused top links place way := by
  induction links generalizing place way with
  | zero =>
    refine reaches_or_refused_of_jump ?_ place way
    intro place way
    exact .inr ⟨.tooManyLinks, fun _ _ => rfl⟩
  | succ links ih =>
    refine reaches_or_refused_of_jump ?_ place way
    intro place way
    obtain ⟨links', place', h⟩ | h := ih place way
    · exact .inl ⟨links, links', place', rfl, h⟩
    · exact .inr h

end BuildDelta.FileSystem
