import BuildDelta.Proofs.FileSystem.Action
import BuildDelta.Proofs.FileSystem.WellNamed
/-!
# What making directories does to a tree

Where directories are made there was nothing before, and everywhere else a tree looks as it did
(`makeDirectories_made`). The names of the new directories come from paths, so a tree whose directories
name their entries stays one.
-/

namespace BuildDelta

open FileSystem Node

theorem Path.slash_notMem_of_mem_split {bs piece : Bytes} (h : piece ∈ split bs) : slash ∉ piece := by
  induction bs generalizing piece with
  | nil =>
    rw [List.mem_singleton.1 h]
    exact List.not_mem_nil
  | cons b bs ih =>
    rw [split] at h
    split at h
    · obtain rfl | h := List.mem_cons.1 h
      · exact List.not_mem_nil
      · exact ih h
    rename_i hb
    cases hsplit : split bs with
    | nil =>
      rw [hsplit] at h
      rw [List.mem_singleton.1 h, List.mem_singleton]
      exact Ne.symm hb
    | cons first pieces =>
      rw [hsplit] at h ih
      obtain rfl | h := List.mem_cons.1 h
      · rw [List.mem_cons, not_or]
        exact ⟨Ne.symm hb, ih List.mem_cons_self⟩
      · exact ih (List.mem_cons_of_mem _ h)

namespace FileSystem

variable {fs fs' : FileSystem} {top : Node} {purpose : Purpose} {links : Nat} {place parent : Place}
  {name : Name} {way : List Step}

/-- The names in these steps can be names in a directory. -/
def ValidNames (way : List Step) : Prop :=
  ∀ name : Name, Step.component (.name name) ∈ way → name.Valid

theorem ValidNames.tail {step : Step} (h : ValidNames (step :: way)) : ValidNames way :=
  fun name hname => h name (List.mem_cons_of_mem step hname)

/-- What stands between slashes and is no dots can be a name. -/
theorem validNames_steps (p : Bytes) : ValidNames (steps p) := by
  intro name h
  obtain hpiece | hslash := List.mem_append.1 h
  · obtain ⟨piece, hpiece, heq⟩ := List.mem_map.1 hpiece
    obtain ⟨hsplit, hne⟩ := List.mem_filter.1 hpiece
    have hname := Step.component.inj heq
    unfold Path.Component.ofPiece at hname
    split at hname
    · cases hname
    split at hname
    · cases hname
    rename_i hhere habove
    cases hname
    exact ⟨of_decide_eq_true hne, Path.slash_notMem_of_mem_split hsplit, hhere, habove⟩
  · split at hslash
    · cases List.mem_singleton.1 hslash
    · cases hslash

/-- A name that is found missing has come from the path or from the target of a link. -/
theorem Follows.valid_of_missing (hway : ValidNames way)
    (h : Follows top purpose links place way (.missing parent name)) : name.Valid := by
  generalize hfound : Found.missing parent name = found at h
  induction h with
  | stop => cases hfound
  | slash _ ih => exact ih hway.tail hfound
  | here _ ih => exact ih hway.tail hfound
  | root _ ih => exact ih hway.tail hfound
  | above _ ih => exact ih hway.tail hfound
  | missing =>
    cases hfound
    exact hway _ List.mem_cons_self
  | leaf => cases hfound
  | directory _ _ _ _ ih => exact ih hway.tail hfound
  | link _ _ _ _ _ ih =>
    refine ih (fun other hother => ?_) hfound
    obtain hother | hother := List.mem_append.1 hother
    · exact validNames_steps _ other hother
    · exact hway.tail other hother

/-- A tree in which directories were made, as seen by the same program. -/
structure Made (fs fs' : FileSystem) : Prop where
  workingDirectory : fs'.workingDirectory = fs.workingDirectory
  face?_cases : ∀ q, fs'.top.face? q = fs.top.face? q ∨
    fs.top.get? q = none ∧ fs'.top.face? q = some .emptyDirectory
  wellNamed : fs.top.WellNamed → fs'.top.WellNamed

namespace Made

theorem refl (fs : FileSystem) : Made fs fs := ⟨rfl, fun _ => .inl rfl, id⟩

theorem trans {first second third : FileSystem} (h : Made first second) (h' : Made second third) :
    Made first third where
  workingDirectory := h'.workingDirectory.trans h.workingDirectory
  face?_cases q := by
    obtain hsame | ⟨hnone, hmade⟩ := h.face?_cases q
    · obtain hsame' | ⟨hnone', hmade'⟩ := h'.face?_cases q
      · exact .inl (hsame'.trans hsame)
      · exact .inr ⟨get?_of_face?_none hsame.symm hnone', hmade'⟩
    · obtain hsame' | ⟨hnone', -⟩ := h'.face?_cases q
      · exact .inr ⟨hnone, hsame'.trans hmade⟩
      · rw [face?, hnone'] at hmade
        cases hmade
  wellNamed hn := h'.wellNamed (h.wellNamed hn)

end Made

/-- An empty directory where there was nothing has nothing below it either. -/
theorem face?_set_emptyDirectory (h : top.get? (place ++ [name]) = none) (q : Place) :
    (top.set name (some .emptyDirectory) place).face? q = top.face? q ∨
      top.get? q = none ∧
        (top.set name (some .emptyDirectory) place).face? q = some .emptyDirectory := by
  by_cases hbelow : place ++ [name] <+: q
  · obtain ⟨rest, rfl⟩ := hbelow
    have hbefore : top.get? (place ++ [name] ++ rest) = none := by
      rw [get?_append, h, Option.bind_none]
    by_cases hplace : top.DirectoryAt place
    · have hself : (top.set name (some .emptyDirectory) place).get? (place ++ [name]) =
          some .emptyDirectory := get?_set_self hplace _
      cases rest with
      | nil => exact .inr ⟨hbefore, by rw [List.append_nil, face?, hself]; rfl⟩
      | cons next rest => exact .inl (by rw [face?, face?, hbefore, get?_append, hself]; rfl)
    · have hafter : (top.set name (some .emptyDirectory) place).get? (place ++ [name] ++ rest) = none := by
        rw [List.append_assoc, Option.eq_none_iff_forall_ne_some]
        intro n hn
        have hplace' := directoryAt_of_get? hn (List.cons_ne_nil name rest)
        exact hplace (hplace'.of_face? (face?_set (not_concat_within place name) _ top).symm)
      exact .inl (by rw [face?, face?, hbefore, hafter])
  · exact .inl (face?_set hbelow _ top)

theorem makeDirectory_made (p : Path) : (makeDirectory p).Does Made := by
  intro fs
  obtain hidle | ⟨parent, name, q, hresolve, hmade⟩ := makeDirectory_eq p fs
  · rw [hidle]
    exact .refl fs
  · obtain ⟨-, hfollows⟩ := resolve_eq_ok.1 hresolve
    have hvalid : name.Valid := hfollows.valid_of_missing (validNames_steps q.bytes)
    rw [hmade]
    refine ⟨rfl, face?_set_emptyDirectory hfollows.describes, ?_⟩
    intro hn
    refine hn.set hvalid ?_
    rintro _ ⟨⟩
    exact wellNamed_directory_iff.2 ⟨.nil, nofun⟩

theorem makeDirectories_made (p : Path) : (makeDirectories p).Does Made :=
  makeDirectories_does .refl (fun _ _ _ => .trans) makeDirectory_made p

end FileSystem

end BuildDelta
