import BuildDelta.FileSystem.Resolve
/-!
# A path and its name

A path is a directory part, empty or with a slash at its end, and a name without slashes
(`Path.exists_parts`). Exchanging the extension exchanges the name alone. The steps of a path are the
way of the directory part and then the name (`FileSystem.steps_append`), so two names beside each
other are looked up at the end of one way; a path with its extension exchanged is beside the path
(`Path.exists_beside_withExtension`).
-/

namespace BuildDelta

namespace Path

/-- A directory part, before a name is put behind it. -/
def Closed (directory : Bytes) : Prop :=
  directory = [] ∨ ∃ before, directory = before ++ [slash]

theorem split_of_not_mem {name : Bytes} (h : slash ∉ name) : split name = [name] := by
  induction name with
  | nil => rfl
  | cons b name ih =>
    rw [List.mem_cons, not_or] at h
    rw [split, if_neg (Ne.symm h.1), ih h.2]

theorem split_ne_nil (bs : Bytes) : split bs ≠ [] := by
  cases bs with
  | nil => simp [split]
  | cons b bs =>
    rw [split]
    split
    · simp
    · split <;> simp

theorem split_append_slash (before rest : Bytes) :
    split (before ++ slash :: rest) = split before ++ split rest := by
  induction before with
  | nil => simp [split]
  | cons b before ih =>
    rw [List.cons_append, split, split, ih]
    split
    · rfl
    · cases hsplit : split before with
      | nil => exact absurd hsplit (split_ne_nil before)
      | cons piece pieces => rfl

theorem split_append {directory name : Bytes} (hdirectory : Closed directory)
    (hname : slash ∉ name) (hne : name ≠ []) :
    (split (directory ++ name)).filter (· ≠ []) = (split directory).filter (· ≠ []) ++ [name] := by
  obtain rfl | ⟨before, rfl⟩ := hdirectory
  · simp [split, split_of_not_mem hname, hne]
  · rw [List.append_assoc, List.singleton_append, split_append_slash, split_append_slash,
      split_of_not_mem hname]
    simp [split, hne]

theorem exists_parts (bs : Bytes) : ∃ directory name, bs = directory ++ name ∧ Closed directory ∧
    slash ∉ name ∧ ∀ extension,
      withExtension ⟨bs⟩ extension = ⟨directory ++ renamed name (Utf8.encode extension)⟩ := by
  refine ⟨(bs.reverse.dropWhile (· ≠ slash)).reverse, (bs.reverse.takeWhile (· ≠ slash)).reverse,
    ?_, ?_, ?_, fun _ => rfl⟩
  · rw [← List.reverse_append, List.takeWhile_append_dropWhile, List.reverse_reverse]
  · cases hrest : bs.reverse.dropWhile (· ≠ slash) with
    | nil => exact .inl rfl
    | cons b rest =>
      have hb := List.head?_dropWhile_not (· ≠ slash) bs.reverse
      rw [hrest] at hb
      have hslash : b = slash := by simpa using hb
      exact .inr ⟨rest.reverse, by rw [hslash, List.reverse_cons]⟩
  · intro hmem
    have hall := List.all_takeWhile (p := (· ≠ slash)) (l := bs.reverse)
    rw [List.all_eq_true] at hall
    simpa using hall slash (List.mem_reverse.1 hmem)

/-- What has no slash and ends a path ends its name. -/
theorem exists_stem {before suffix directory name : Bytes} (hdirectory : Closed directory)
    (hsuffix : slash ∉ suffix) (h : directory ++ name = before ++ suffix) :
    ∃ stem, name = stem ++ suffix := by
  cases List.append_eq_append_iff.1 h with
  | inl hlonger =>
    obtain ⟨stem, -, hname⟩ := hlonger
    exact ⟨stem, hname⟩
  | inr hshorter =>
    obtain ⟨more, hmore, hwhole⟩ := hshorter
    cases List.eq_nil_or_concat more with
    | inl hnil => exact ⟨[], by rw [hwhole, hnil]; rfl⟩
    | inr hconcat =>
      obtain ⟨more', last, rfl⟩ := hconcat
      rw [List.concat_eq_append] at hmore hwhole
      have hlast : last = slash := by
        obtain rfl | ⟨before', rfl⟩ := hdirectory
        · simp at hmore
        · rw [← List.append_assoc] at hmore
          simpa using (List.append_inj_right' hmore rfl).symm
      refine absurd ?_ hsuffix
      rw [hwhole, hlast]
      simp

private theorem reverse_append_dot (stem extension : Bytes) :
    (stem ++ dot :: extension).reverse = extension.reverse ++ dot :: stem.reverse := by
  rw [List.reverse_append, List.reverse_cons, List.append_assoc, List.singleton_append]

private theorem ne_dot_of_mem_reverse {extension : Bytes} (h : dot ∉ extension) :
    ∀ b ∈ extension.reverse, decide (b ≠ dot) = true := by
  intro b hb
  rw [List.mem_reverse] at hb
  exact decide_eq_true fun heq => h (heq ▸ hb)

private theorem dropWhile_reverse (stem : Bytes) {extension : Bytes} (h : dot ∉ extension) :
    (stem ++ dot :: extension).reverse.dropWhile (· ≠ dot) = dot :: stem.reverse := by
  rw [reverse_append_dot, List.dropWhile_append_of_pos (ne_dot_of_mem_reverse h)]
  simp

private theorem takeWhile_reverse (stem : Bytes) {extension : Bytes} (h : dot ∉ extension) :
    (stem ++ dot :: extension).reverse.takeWhile (· ≠ dot) = extension.reverse := by
  rw [reverse_append_dot, List.takeWhile_append_of_pos (ne_dot_of_mem_reverse h)]
  simp

theorem splitExtension_append {stem extension : Bytes} (hstem : stem ≠ [])
    (hextension : dot ∉ extension) :
    splitExtension (stem ++ dot :: extension) = (stem, some extension) := by
  unfold splitExtension
  rw [dropWhile_reverse stem hextension, takeWhile_reverse stem hextension]
  cases hreverse : stem.reverse with
  | nil => exact absurd (List.reverse_eq_nil_iff.1 hreverse) hstem
  | cons b rest => simp [← hreverse]

theorem splitExtension_hidden {extension : Bytes} (hextension : dot ∉ extension) :
    splitExtension (dot :: extension) = (dot :: extension, none) := by
  unfold splitExtension
  rw [← List.nil_append (dot :: extension), dropWhile_reverse [] hextension]
  rfl

end Path

namespace FileSystem

/-- The steps of a directory part. -/
def way (directory : Bytes) : List Step :=
  ((Path.split directory).filter (· ≠ [])).map fun piece => .component (.ofPiece piece)

theorem steps_append {directory name : Bytes} (hdirectory : Path.Closed directory)
    (hname : Path.slash ∉ name) (hne : name ≠ []) :
    steps (directory ++ name) = way directory ++ [.component (.ofPiece name)] := by
  have hlast : (directory ++ name).getLast? ≠ some Path.slash := by
    rw [List.getLast?_append, List.getLast?_eq_some_getLast hne]
    intro heq
    exact hname (Option.some.inj heq ▸ List.getLast_mem hne)
  rw [steps, Path.split_append hdirectory hname hne, if_neg hlast, way, List.append_nil,
    List.map_append]
  rfl

theorem isAbsolute_append {directory name : Bytes} (hname : Path.slash ∉ name) :
    Path.isAbsolute ⟨directory ++ name⟩ = Path.isAbsolute ⟨directory⟩ := by
  cases directory with
  | cons b directory => rfl
  | nil =>
    cases name with
    | nil => rfl
    | cons b name =>
      have hb : b ≠ Path.slash := by
        intro heq
        subst heq
        exact hname (by simp)
      simp [Path.isAbsolute, hb]

/-- Two paths that differ in the last step alone, where the first one has a name. -/
structure Beside (p q : Path) (way : List Step) (name : Name)
    (last : Path.Component) : Prop where
  steps : steps p.bytes = way ++ [.component (.name name)]
  steps_beside : BuildDelta.FileSystem.steps q.bytes = way ++ [.component last]
  isAbsolute_beside : q.isAbsolute = p.isAbsolute
  last_cases : last = .above ∨ ∃ other, last = .name other ∧ other ≠ name

end FileSystem

namespace Path

open FileSystem

theorem ofPiece_of_length {piece : Bytes} (h : 2 < piece.length) :
    Component.ofPiece piece = .name piece := by
  have hhere : piece ≠ [dot] := by
    intro heq
    subst heq
    exact absurd h (by decide)
  have habove : piece ≠ [dot, dot] := by
    intro heq
    subst heq
    exact absurd h (by decide)
  rw [Component.ofPiece, if_neg hhere, if_neg habove]

theorem renamed_cases {stem extension : Bytes} (hextension : dot ∉ extension) (other : Bytes) :
    renamed (stem ++ dot :: extension) other = [dot, dot] ∨ ∃ stem',
      renamed (stem ++ dot :: extension) other = stem' ++ dot :: other ∧
        (stem' = stem ∨ stem' = stem ++ dot :: extension) := by
  cases stem with
  | nil =>
    refine .inr ⟨dot :: extension, ?_, .inr rfl⟩
    rw [renamed, List.nil_append, splitExtension_hidden hextension]
  | cons b stem =>
    rw [renamed, splitExtension_append (List.cons_ne_nil b stem) hextension]
    by_cases hdot : b :: stem = [dot]
    · exact .inl (if_pos hdot)
    · exact .inr ⟨b :: stem, if_neg hdot, .inl rfl⟩

/-- Exchanging an extension leads to another name beside the first, or to the directory above. -/
theorem ofPiece_append_dot {extension : Bytes} (h : 2 ≤ extension.length) (stem : Bytes) :
    Component.ofPiece (stem ++ dot :: extension) = .name (stem ++ dot :: extension) := by
  apply ofPiece_of_length
  rw [List.length_append, List.length_cons]
  omega

/-- A name with another extension is another name, unless it becomes a step up. -/
theorem ofPiece_renamed {stem extension other : Bytes} (hdot : dot ∉ extension)
    (hslash : slash ∉ stem ++ dot :: extension) (hslash' : slash ∉ dot :: other)
    (hlong : 2 ≤ other.length) (hother : other ≠ extension) :
    slash ∉ renamed (stem ++ dot :: extension) other ∧
      renamed (stem ++ dot :: extension) other ≠ [] ∧
      ∃ last, Component.ofPiece (renamed (stem ++ dot :: extension) other) = last ∧
        (last = .above ∨ ∃ n, last = .name n ∧ n ≠ stem ++ dot :: extension) := by
  obtain habove | ⟨stem', hrenamed, hcases⟩ := renamed_cases hdot other
  · rw [habove]
    exact ⟨by decide, by simp, .above, by decide, .inl rfl⟩
  rw [hrenamed]
  refine ⟨?_, by simp, _, ofPiece_append_dot hlong stem', .inr ⟨_, rfl, ?_⟩⟩
  · rw [List.mem_append, not_or]
    refine ⟨?_, hslash'⟩
    intro hmem
    apply hslash
    obtain rfl | rfl := hcases
    · exact List.mem_append_left _ hmem
    · exact hmem
  · intro heq
    obtain rfl | rfl := hcases
    · exact hother (List.cons.inj (List.append_cancel_left heq)).2
    · have hlength := congrArg List.length heq
      simp only [List.length_append, List.length_cons] at hlength
      omega

/-- Two names in one directory part. -/
theorem beside_append {directory name name' : Bytes} {n : Name} {last : Component}
    (hdirectory : Closed directory) (hname : slash ∉ name) (hne : name ≠ [])
    (hpiece : Component.ofPiece name = .name n) (hname' : slash ∉ name') (hne' : name' ≠ [])
    (hpiece' : Component.ofPiece name' = last)
    (hcases : last = .above ∨ ∃ other, last = .name other ∧ other ≠ n) :
    Beside ⟨directory ++ name⟩ ⟨directory ++ name'⟩ (FileSystem.way directory) n last := by
  refine ⟨?_, ?_, ?_, hcases⟩
  · rw [steps_append hdirectory hname hne, hpiece]
  · rw [steps_append hdirectory hname' hne', hpiece']
  · rw [isAbsolute_append hname', isAbsolute_append hname]

theorem exists_beside_withExtension {p : Path} {before extension : Bytes} {other : String}
    (hp : p.bytes = before ++ dot :: extension) (hslash : slash ∉ dot :: extension)
    (hdot : dot ∉ extension) (hlong : 2 ≤ extension.length)
    (hslash' : slash ∉ dot :: Utf8.encode other) (hlong' : 2 ≤ (Utf8.encode other).length)
    (hother : Utf8.encode other ≠ extension) :
    ∃ way name last, Beside p (p.withExtension other) way name last := by
  obtain ⟨directory, name, hparts, hdirectory, hname, hrenamed⟩ := exists_parts p.bytes
  obtain ⟨stem, rfl⟩ := exists_stem hdirectory hslash (hparts.symm.trans hp)
  obtain ⟨hname', hne', last, hpiece', hcases⟩ :=
    ofPiece_renamed hdot hname hslash' hlong' hother
  have hpath : p = ⟨directory ++ (stem ++ dot :: extension)⟩ := congrArg Path.mk hparts
  have hpath' : p.withExtension other =
      ⟨directory ++ renamed (stem ++ dot :: extension) (Utf8.encode other)⟩ := hrenamed other
  rw [hpath', hpath]
  exact ⟨_, _, last, beside_append hdirectory hname (by simp) (ofPiece_append_dot hlong stem) hname'
    hne' hpiece' hcases⟩

end Path

end BuildDelta
