import BuildDelta.Proofs.FileSystem.SameTree
/-!
# Where a path is looked up

Following a path looks at few places of a tree (`looked`). Whatever else becomes of the tree, a path is
followed as before as long as these places look the same from outside (`resolve_face`): what is put into
a directory, or taken away from it, is not seen on a way through it. Where a path leads to something, there is
something at all of them (`exists_of_mem_looked`). A change that has a `Footprint` leaves most paths alone.
-/

namespace BuildDelta.FileSystem

open Node

/-- The places that are looked at when steps are followed to the end. `jump` goes on after a link has been
replaced. -/
def lookedFrom (top : Node) (jump : Place → List Step → List Place) :
    Place → List Step → List Place
  | place, [] => [place]
  | place, .slash :: rest => lookedFrom top jump place rest
  | place, .component .here :: rest => lookedFrom top jump place rest
  | _, .component .root :: rest => lookedFrom top jump [] rest
  | place, .component .above :: rest => lookedFrom top jump place.dropLast rest
  | place, .component (.name name) :: rest =>
    (place ++ [name]) :: match top.get? (place ++ [name]) with
      | some (.directory ..) => lookedFrom top jump (place ++ [name]) rest
      | some (.link target) =>
        jump (if target.head? = some Path.slash then [] else place) (steps target ++ rest)
      | _ => []

def lookedLinks (top : Node) : (links : Nat) → Place → List Step → List Place
  | 0 => lookedFrom top fun _ _ => []
  | links + 1 => lookedFrom top (lookedLinks top links)

/-- The places that decide on what is behind a path. -/
def looked (fs : FileSystem) (p : Path) : List Place :=
  lookedLinks fs.top maxLinks (start fs p) (steps p.bytes)

/-- What is found, apart from what is below it. -/
def Found.face : Found → Found
  | .node place n => .node place n.face
  | .missing parent name => .missing parent name

variable {fs fs' : FileSystem} {top top' : Node} {links : Nat} {place : Place} {way : List Step}
  {p : Path}

theorem walk_face {jump jump' : Place → List Step → Except Error Found}
    {inspect : Place → List Step → List Place}
    (hjump : ∀ place way, (∀ q ∈ inspect place way, top'.face? q = top.face? q) →
      (jump' place way).map Found.face = (jump place way).map Found.face)
    (h : ∀ q ∈ lookedFrom top inspect place way, top'.face? q = top.face? q) :
    (walk top' .target jump' place way).map Found.face =
      (walk top .target jump place way).map Found.face := by
  induction way generalizing place with
  | nil =>
    have hplace := h place (List.mem_singleton_self place)
    unfold walk
    cases hn : top.get? place with
    | none => rw [get?_of_face?_none hplace hn]
    | some n =>
      obtain ⟨n', hn', hface⟩ := exists_of_face? hplace hn
      rw [hn']
      exact congrArg (fun n => Except.ok (Found.node place n)) hface
  | cons step way ih =>
    cases step with
    | slash => exact ih h
    | component c =>
      cases c with
      | root => exact ih h
      | here => exact ih h
      | above => exact ih h
      | name name =>
        rw [lookedFrom, List.forall_mem_cons] at h
        obtain ⟨hplace, h⟩ := h
        unfold walk
        simp only [reduceCtorEq, false_and, and_false, if_false]
        by_cases hlong : maxNameLength < name.length
        · simp only [hlong, if_true]
        simp only [hlong, if_false]
        cases hn : top.get? (place ++ [name]) with
        | none => rw [get?_of_face?_none hplace hn]
        | some n =>
          rw [hn] at h
          cases n with
          | directory readable entries =>
            obtain ⟨n', hn', hface⟩ := exists_of_face? hplace hn
            obtain ⟨entries', rfl⟩ := exists_directory_of_face hface
            rw [hn']
            exact ih h
          | link target =>
            rw [get?_of_face? hplace hn rfl]
            exact hjump _ _ h
          | file f => rw [get?_of_face? hplace hn rfl]
          | special => rw [get?_of_face? hplace hn rfl]

theorem walkLinks_face
    (h : ∀ q ∈ lookedLinks top links place way, top'.face? q = top.face? q) :
    (walkLinks top' .target links place way).map Found.face =
      (walkLinks top .target links place way).map Found.face := by
  induction links generalizing place way with
  | zero => exact walk_face (fun _ _ _ => rfl) h
  | succ links ih => exact walk_face (fun _ _ => ih) h

/-- A path leads to the same place if nothing is changed where it is looked up. -/
theorem resolve_face (hdirectory : fs'.workingDirectory = fs.workingDirectory)
    (h : ∀ q ∈ fs.looked p, fs'.top.face? q = fs.top.face? q) :
    (fs'.resolve .target p).map Found.face = (fs.resolve .target p).map Found.face := by
  have hlinks := walkLinks_face h
  unfold start at hlinks
  unfold resolve
  rw [hdirectory]
  cases checkPath p with
  | error e => rfl
  | ok => exact hlinks

theorem exists_node_of_face {r r' : Except Error Found} {q : Place} {n : Node}
    (h : r'.map Found.face = r.map Found.face) (hr : r = .ok (.node q n)) :
    ∃ n', r' = .ok (.node q n') ∧ n'.face = n.face := by
  rw [hr] at h
  obtain ⟨found, hfound, heq⟩ := map_eq_ok.1 h
  cases found with
  | missing => cases heq
  | node q' n' =>
    obtain ⟨rfl, hface⟩ := Found.node.inj heq
    exact ⟨n', hfound, hface⟩

theorem stat_file_of_face {f : File}
    (h : (fs'.resolve .target p).map Found.face = (fs.resolve .target p).map Found.face)
    (hstat : fs.stat p = .ok (.file f)) : fs'.stat p = .ok (.file f) := by
  obtain ⟨q, hresolve⟩ := stat_eq_ok_iff.1 hstat
  obtain ⟨n', hresolve', hface⟩ := exists_node_of_face h hresolve
  rw [eq_of_face_eq hface rfl] at hresolve'
  exact stat_eq_ok_iff.2 ⟨q, hresolve'⟩

/-- The path leads to the same file then, or to none as before. -/
theorem stat_file_iff {f : File} (hdirectory : fs'.workingDirectory = fs.workingDirectory)
    (h : ∀ q ∈ fs.looked p, fs'.top.face? q = fs.top.face? q) :
    fs'.stat p = .ok (.file f) ↔ fs.stat p = .ok (.file f) := by
  have hface := resolve_face hdirectory h
  exact ⟨stat_file_of_face hface.symm, stat_file_of_face hface⟩

theorem exists_of_mem_lookedFrom {jump : Place → List Step → Except Error Found}
    {inspect : Place → List Step → List Place} {q : Place} {n : Node}
    (hjump : ∀ place way, jump place way = .ok (.node q n) →
      ∀ looked ∈ inspect place way, ∃ m, top.get? looked = some m)
    (h : walk top .target jump place way = .ok (.node q n)) :
    ∀ looked ∈ lookedFrom top inspect place way, ∃ m, top.get? looked = some m := by
  induction way generalizing place with
  | nil =>
    intro looked hlooked
    obtain rfl := List.mem_singleton.1 hlooked
    unfold walk at h
    cases hplace : top.get? looked with
    | some m => exact ⟨m, rfl⟩
    | none =>
      rw [hplace] at h
      cases h
  | cons step way ih =>
    cases step with
    | slash => exact ih h
    | component c =>
      cases c with
      | root => exact ih h
      | here => exact ih h
      | above => exact ih h
      | name name =>
        unfold walk at h
        simp only [reduceCtorEq, false_and, and_false, if_false] at h
        split at h
        · cases h
        rw [lookedFrom, List.forall_mem_cons]
        cases hplace : top.get? (place ++ [name]) with
        | none =>
          rw [hplace] at h
          dsimp only at h
          split at h <;> cases h
        | some m =>
          refine ⟨⟨m, rfl⟩, ?_⟩
          rw [hplace] at h
          cases m with
          | directory => exact ih h
          | link target => exact hjump _ _ h
          | file => exact List.forall_mem_nil _
          | special => exact List.forall_mem_nil _

theorem exists_of_mem_lookedLinks {q : Place} {n : Node}
    (h : walkLinks top .target links place way = .ok (.node q n)) :
    ∀ looked ∈ lookedLinks top links place way, ∃ m, top.get? looked = some m := by
  induction links generalizing place way with
  | zero => exact exists_of_mem_lookedFrom (fun _ _ _ => List.forall_mem_nil _) h
  | succ links ih => exact exists_of_mem_lookedFrom (fun _ _ => ih) h

/-- A path that leads to something is looked up where something is. -/
theorem exists_of_mem_looked {q : Place} {n : Node} (h : fs.resolve .target p = .ok (.node q n)) :
    ∀ looked ∈ fs.looked p, ∃ m, fs.top.get? looked = some m := by
  obtain ⟨⟨⟩, -, hwalk⟩ := bind_eq_ok.1 h
  exact exists_of_mem_lookedLinks hwalk

/-- The places where something has changed: these, and the places of new directories. -/
def Touched (own : List Place) (fs fs' : FileSystem) (q : Place) : Prop :=
  q ∈ own ∨ fs.top.get? q = none ∧ fs'.top.DirectoryAt q

instance (own : List Place) (fs fs' : FileSystem) (q : Place) : Decidable (Touched own fs fs' q) :=
  inferInstanceAs (Decidable (_ ∨ _ ∧ _))

/-- A change of a tree in which files have come or gone at these places, and directories were made. -/
structure Footprint (own : List Place) (fs fs' : FileSystem) : Prop where
  workingDirectory : fs'.workingDirectory = fs.workingDirectory
  wellNamed : fs'.top.WellNamed
  own_file : ∀ q ∈ own, ∀ n, fs'.top.get? q = some n → ∃ f, n = .file f ∧ f.readable = true
  made_readable : ∀ q readable entries, fs.top.get? q = none →
    fs'.top.get? q = some (.directory readable entries) → readable = true
  untouched : ∀ q, ¬Touched own fs fs' q → fs'.top.face? q = fs.top.face? q

end BuildDelta.FileSystem
