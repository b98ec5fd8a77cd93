import BuildDelta.Proofs.Scan.Names
/-!
# What a walk lists

A walk of a tree lists a file for each way that leads to one, through real directories and at its end
perhaps through a link (`Scan.Meets`), provided that it gets into every directory (`Scan.Open`). If it
does not, it lists a place that it could not enter. No way is listed twice (`Scan.pairwise_visit`).
-/

namespace BuildDelta

open FileSystem

namespace Scan

/-- A way to a file, or to a link to one, through real directories. -/
inductive Meets (fs : FileSystem) (root : Path) (n : Node) : List Name → Bool → File → Prop
  | file {names : List Name} {f : File} (h : n.get? names = some (.file f)) :
    Meets fs root n names false f
  | link {names : List Name} {target : Bytes} {f : File} (h : n.get? names = some (.link target))
    (hstat : fs.stat (root.below names) = .ok (.file f)) : Meets fs root n names true f

/-- All directories can be entered. -/
def Open (root : Path) (n : Node) : Prop :=
  ∀ names readable entries, n.get? names = some (.directory readable entries) →
    tooLong (root.below names) = false ∧ readable = true

variable {fs : FileSystem} {path rel : Path} {n : Node} {name : Name} {names : List Name}
  {readable linked : Bool} {entries : List (Name × Node)} {f : File} {e : Event}

theorem visitEntries_eq (fs : FileSystem) (path rel : Path) (entries : List (Name × Node)) :
    visitEntries fs path rel entries = entries.flatMap fun entry =>
      visit fs (path.join ⟨entry.1⟩) (rel.join ⟨entry.1⟩) entry.2 := by
  induction entries with
  | nil => rfl
  | cons entry entries ih => rw [visitEntries, ih, List.flatMap_cons]

theorem mem_visitEntries_iff : e ∈ visitEntries fs path rel entries ↔
    ∃ name inner, (name, inner) ∈ entries ∧
      e ∈ visit fs (path.join ⟨name⟩) (rel.join ⟨name⟩) inner := by
  rw [visitEntries_eq, List.mem_flatMap]
  constructor
  · rintro ⟨⟨name, inner⟩, hentry, he⟩
    exact ⟨name, inner, hentry, he⟩
  · rintro ⟨name, inner, hentry, he⟩
    exact ⟨(name, inner), hentry, he⟩

theorem meets_cons_iff (hn : (Node.directory readable entries).WellNamed) :
    Meets fs path (.directory readable entries) (name :: names) linked f ↔
      ∃ inner, (name, inner) ∈ entries ∧ Meets fs (path.join ⟨name⟩) inner names linked f := by
  constructor
  · intro h
    cases h with
    | file h =>
      obtain ⟨inner, hentry, hrest⟩ := hn.get?_cons_iff.1 h
      exact ⟨inner, hentry, .file hrest⟩
    | link h hstat =>
      obtain ⟨inner, hentry, hrest⟩ := hn.get?_cons_iff.1 h
      exact ⟨inner, hentry, .link hrest hstat⟩
  · rintro ⟨inner, hentry, h⟩
    cases h with
    | file h => exact .file (hn.get?_cons_iff.2 ⟨inner, hentry, h⟩)
    | link h hstat => exact .link (hn.get?_cons_iff.2 ⟨inner, hentry, h⟩) hstat

theorem Meets.exists_node (h : Meets fs path n names linked f) :
    ∃ m, n.get? names = some m ∧ m.isDirectory = false := by
  cases h with
  | file h => exact ⟨_, h, rfl⟩
  | link h => exact ⟨_, h, rfl⟩

theorem Meets.valid (hn : n.WellNamed) (h : Meets fs path n names linked f) :
    ∀ name ∈ names, name.Valid := by
  obtain ⟨m, hm, -⟩ := h.exists_node
  exact hn.valid hm

/-- A way is a way in another tree if it ends at the same there, and the link that may be its end leads to
the same file. -/
theorem Meets.imp {fs' : FileSystem} {n' : Node}
    (hleaf : ∀ m, m.isDirectory = false → n.get? names = some m → n'.get? names = some m)
    (hlink : ∀ target, n.get? names = some (.link target) →
      fs.stat (path.below names) = .ok (.file f) → fs'.stat (path.below names) = .ok (.file f))
    (h : Meets fs path n names linked f) : Meets fs' path n' names linked f := by
  cases h with
  | file h => exact .file (hleaf _ rfl h)
  | link h hstat => exact .link (hleaf _ rfl h) (hlink _ h hstat)

theorem open_directory_iff (hn : (Node.directory readable entries).WellNamed) :
    Open path (.directory readable entries) ↔ (tooLong path = false ∧ readable = true) ∧
      ∀ name inner, (name, inner) ∈ entries → Open (path.join ⟨name⟩) inner := by
  constructor
  · intro h
    refine ⟨h [] readable entries rfl, ?_⟩
    intro name inner hentry names readable' entries' hnames
    exact h (name :: names) readable' entries' (hn.get?_cons_iff.2 ⟨inner, hentry, hnames⟩)
  · rintro ⟨hself, hentries⟩ names readable' entries' hnames
    cases names with
    | nil =>
      cases hnames
      exact hself
    | cons name names =>
      obtain ⟨inner, hentry, hrest⟩ := hn.get?_cons_iff.1 hnames
      exact hentries name inner hentry names readable' entries' hrest

/-- Whatever is listed is a place that could not be entered, or the end of a way to a file. -/
theorem cases_of_mem_visit (hn : n.WellNamed) (he : e ∈ visit fs path rel n) :
    (∃ p cause, e = .blocked p cause) ∨ ∃ names linked f, Meets fs path n names linked f ∧
      e = .file (path.below names) (rel.below names) linked f := by
  induction n using Node.induction generalizing path rel with
  | file f =>
    rw [visit, List.mem_singleton] at he
    exact .inr ⟨[], false, f, .file rfl, he⟩
  | link target =>
    rw [visit] at he
    split at he
    · rename_i f hstat
      rw [List.mem_singleton] at he
      exact .inr ⟨[], true, f, .link rfl hstat, he⟩
    · cases he
  | directory readable entries ih =>
    rw [visit] at he
    split at he
    · exact .inl ⟨_, _, List.mem_singleton.1 he⟩
    split at he
    · obtain ⟨name, inner, hentry, he⟩ := mem_visitEntries_iff.1 he
      obtain hblocked | ⟨names, linked, f, hmeets, rfl⟩ := ih _ hentry (hn.entry hentry) he
      · exact .inl hblocked
      · exact .inr ⟨name :: names, linked, f, (meets_cons_iff hn).2 ⟨inner, hentry, hmeets⟩, rfl⟩
    · exact .inl ⟨_, _, List.mem_singleton.1 he⟩
  | special =>
    rw [visit] at he
    cases he

theorem visit_open (hn : (Node.directory readable entries).WellNamed)
    (hopen : Open path (.directory readable entries)) :
    visit fs path rel (.directory readable entries) = visitEntries fs path rel entries := by
  obtain ⟨⟨hshort, rfl⟩, -⟩ := (open_directory_iff hn).1 hopen
  rw [visit, hshort]
  rfl

theorem mem_visit_of_meets (hn : n.WellNamed) (hopen : Open path n)
    (h : Meets fs path n names linked f) :
    .file (path.below names) (rel.below names) linked f ∈ visit fs path rel n := by
  induction names generalizing n path rel with
  | nil =>
    cases h with
    | file h =>
      cases h
      exact List.mem_singleton_self _
    | link h hstat =>
      cases h
      have hstat' : fs.stat path = .ok (.file f) := hstat
      rw [visit, hstat']
      exact List.mem_singleton_self _
  | cons name names ih =>
    obtain ⟨m, hm, -⟩ := h.exists_node
    cases n with
    | file => cases hm
    | link => cases hm
    | special => cases hm
    | directory readable entries =>
      obtain ⟨inner, hentry, hrest⟩ := (meets_cons_iff hn).1 h
      have hinner := ((open_directory_iff hn).1 hopen).2 name inner hentry
      rw [visit_open hn hopen, mem_visitEntries_iff]
      exact ⟨name, inner, hentry, ih (hn.entry hentry) hinner hrest⟩

theorem open_of_leaf (h : n.isDirectory = false) : Open path n := by
  intro names readable entries hnames
  have hdirectory : n.isDirectory = true := by
    cases names with
    | nil =>
      cases hnames
      rfl
    | cons name names => exact Node.isDirectory_of_get? hnames (List.cons_ne_nil name names)
  cases h.symm.trans hdirectory

theorem not_blocked_of_leaf (h : n.isDirectory = false) (p : Path) (cause : FileSystem.Error) :
    Event.blocked p cause ∉ visit fs path rel n := by
  intro he
  cases n with
  | directory => cases h
  | file f => cases List.mem_singleton.1 he
  | link target =>
    rw [visit] at he
    split at he
    · cases List.mem_singleton.1 he
    · cases he
  | special =>
    rw [visit] at he
    cases he

/-- A walk is stopped nowhere if it gets into every directory. -/
theorem open_iff (hn : n.WellNamed) :
    Open path n ↔ ∀ p cause, Event.blocked p cause ∉ visit fs path rel n := by
  induction n using Node.induction generalizing path rel with
  | file f => exact ⟨fun _ => not_blocked_of_leaf rfl, fun _ => open_of_leaf rfl⟩
  | link target => exact ⟨fun _ => not_blocked_of_leaf rfl, fun _ => open_of_leaf rfl⟩
  | special => exact ⟨fun _ => not_blocked_of_leaf rfl, fun _ => open_of_leaf rfl⟩
  | directory readable entries ih =>
    constructor
    · intro hopen p cause he
      rw [visit_open hn hopen, mem_visitEntries_iff] at he
      obtain ⟨name, inner, hentry, he⟩ := he
      have hinner := ((open_directory_iff hn).1 hopen).2 name inner hentry
      exact (ih _ hentry (hn.entry hentry)).1 hinner p cause he
    · intro h
      rw [visit] at h
      split at h
      · exact absurd (List.mem_singleton_self _) (h _ _)
      rename_i hshort
      split at h
      · rename_i hreadable
        rw [open_directory_iff hn]
        refine ⟨⟨Bool.eq_false_iff.2 hshort, hreadable⟩, ?_⟩
        intro name inner hentry
        refine (ih _ hentry (hn.entry hentry)).2
          fun p cause (he : _ ∈ visit fs _ (rel.join ⟨name⟩) inner) => ?_
        exact h p cause (mem_visitEntries_iff.2 ⟨name, inner, hentry, he⟩)
      · exact absurd (List.mem_singleton_self _) (h _ _)

/-- Two files are listed by different paths below the root. -/
def Event.Apart : Event → Event → Prop
  | .file _ relative _ _, .file _ relative' _ _ => relative ≠ relative'
  | _, _ => True

theorem apart_of_names_ne {before : List Name} {other : Name} {inner inner' : Node} {e' : Event}
    {path' : Path} (hne : name ≠ other) (hbefore : ∀ name ∈ before, name.Valid) (hname : name.Valid)
    (hother : other.Valid) (hinner : inner.WellNamed) (hinner' : inner'.WellNamed)
    (he : e ∈ visit fs path (((⟨[]⟩ : Path).below before).join ⟨name⟩) inner)
    (he' : e' ∈ visit fs path' (((⟨[]⟩ : Path).below before).join ⟨other⟩) inner') : e.Apart e' := by
  obtain ⟨p, cause, rfl⟩ | ⟨names, linked, f, hmeets, rfl⟩ := cases_of_mem_visit hinner he
  · trivial
  obtain ⟨p, cause, rfl⟩ | ⟨names', linked', f', hmeets', rfl⟩ := cases_of_mem_visit hinner' he'
  · trivial
  have hvalid : ∀ n ∈ before ++ name :: names, Name.Valid n :=
    List.forall_mem_append.2 ⟨hbefore, List.forall_mem_cons.2 ⟨hname, hmeets.valid hinner⟩⟩
  have hvalid' : ∀ n ∈ before ++ other :: names', Name.Valid n :=
    List.forall_mem_append.2 ⟨hbefore, List.forall_mem_cons.2 ⟨hother, hmeets'.valid hinner'⟩⟩
  intro heq
  have hway : (⟨[]⟩ : Path).below (before ++ name :: names) =
      (⟨[]⟩ : Path).below (before ++ other :: names') := by
    rw [Path.below_append, Path.below_append]
    exact heq
  rw [Path.below_empty hvalid, Path.below_empty hvalid'] at hway
  have hnames := List.append_cancel_left (relative_injective hvalid hvalid' hway)
  exact hne (List.cons.inj hnames).1

theorem pairwise_visit {before : List Name} (hn : n.WellNamed)
    (hbefore : ∀ name ∈ before, name.Valid) :
    (visit fs path ((⟨[]⟩ : Path).below before) n).Pairwise Event.Apart := by
  induction n using Node.induction generalizing path before with
  | file f => exact List.pairwise_singleton _ _
  | link target =>
    rw [visit]
    split
    · exact List.pairwise_singleton _ _
    · exact .nil
  | special => exact .nil
  | directory readable entries ih =>
    have hvalid := (hn [] readable entries rfl).2
    rw [visit]
    split
    · exact List.pairwise_singleton _ _
    split
    · rw [visitEntries_eq, List.pairwise_flatMap]
      constructor
      · intro entry hentry
        have hlonger : ∀ name ∈ before ++ [entry.1], name.Valid :=
          List.forall_mem_append.2 ⟨hbefore, List.forall_mem_singleton.2 (hvalid entry hentry)⟩
        have hrest : (visit fs (path.join ⟨entry.1⟩) _ entry.2).Pairwise Event.Apart :=
          ih entry hentry (hn.entry hentry) hlonger
        rwa [Path.below_append] at hrest
      · refine (List.pairwise_map.1 hn.nodup).imp_of_mem ?_
        intro entry other hentry hother hne e he e' he'
        exact apart_of_names_ne hne hbefore (hvalid entry hentry) (hvalid other hother)
          (hn.entry hentry) (hn.entry hother) he he'
    · exact List.pairwise_singleton _ _

end Scan

end BuildDelta
