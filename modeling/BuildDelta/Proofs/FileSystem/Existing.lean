import BuildDelta.Proofs.FileSystem.Action
import BuildDelta.Proofs.Path
import Mathlib.Data.List.TakeWhile
/-!
# Making directories that are there

Where the way along a path is open, making the directories of the path, or of one that it begins with,
leaves the tree as it is (`makeDirectories_idle`).
-/

namespace BuildDelta

/-- A path itself, or what stands before one of its slashes. -/
def Path.Above (above p : Path) : Prop :=
  above = p ∨ ∃ rest, p.bytes = above.bytes ++ slash :: rest

namespace FileSystem

open Node

theorem way_append_slash (before rest : Bytes) :
    way (before ++ Path.slash :: rest) = way before ++ way rest := by
  rw [way, Path.split_append_slash, List.filter_append, List.map_append]
  rfl

theorem way_append_slashes (bs : Bytes) (k : Nat) :
    way (bs ++ List.replicate k Path.slash) = way bs := by
  induction k with
  | zero => rw [List.replicate_zero, List.append_nil]
  | succ k ih =>
    rw [List.replicate_succ', ← List.append_assoc, way_append_slash, ih]
    exact List.append_nil _

theorem exists_trimmed (p : Path) :
    ∃ k, p.bytes = (trimSlashes p).bytes ++ List.replicate k Path.slash := by
  have hslashes : ∀ b ∈ p.bytes.reverse.takeWhile (· = Path.slash), b = Path.slash := by
    intro b hb
    simpa using List.mem_takeWhile_imp hb
  refine ⟨(p.bytes.reverse.takeWhile (· = Path.slash)).length, ?_⟩
  rw [trimSlashes, ← List.reverse_replicate, ← List.eq_replicate_of_mem hslashes,
    ← List.reverse_append, List.takeWhile_append_dropWhile, List.reverse_reverse]

/-- Without slashes at its end, a path has the steps of its way. -/
theorem steps_trimSlashes (p : Path) : steps (trimSlashes p).bytes = way p.bytes := by
  obtain ⟨k, hk⟩ := exists_trimmed p
  have hlast : (trimSlashes p).bytes.getLast? ≠ some Path.slash := by
    rw [trimSlashes, List.getLast?_reverse]
    intro heq
    have hnot := List.head?_dropWhile_not (· = Path.slash) p.bytes.reverse
    rw [heq] at hnot
    simp at hnot
  rw [steps, if_neg hlast, List.append_nil]
  exact ((congrArg way hk).trans (way_append_slashes _ k)).symm

theorem isAbsolute_trimSlashes {p : Path} (h : trimSlashes p ≠ ⟨[]⟩) :
    (trimSlashes p).isAbsolute = p.isAbsolute := by
  obtain ⟨k, hk⟩ := exists_trimmed p
  rw [Path.isAbsolute, Path.isAbsolute, hk]
  cases hbytes : (trimSlashes p).bytes with
  | nil => exact absurd (congrArg Path.mk hbytes) h
  | cons b bs => rfl

/-- A path that is not empty is not refused as missing. -/
theorem ne_notFound_of_checkPath {p : Path} {e : Error} (hne : p.bytes ≠ [])
    (h : checkPath p = .error e) : e ≠ .notFound := by
  unfold checkPath at h
  split at h
  · cases h
    nofun
  split at h
  · cases h
    nofun
  · simp [hne] at h

section Idle

variable {fs : FileSystem} {p : Path} {links : Nat} {place : Place}

/-- Where the way of a path is open, there is something under the path already. -/
theorem exists_resolve_entry
    (hreaches : Reaches fs.top maxLinks (start fs p) (way p.bytes) links place)
    (hplace : fs.top.DirectoryAt place) :
    (∃ q n, fs.resolve .entry (if trimSlashes p = ⟨[]⟩ then p else trimSlashes p) =
      .ok (.node q n)) ∨
    ∃ e, checkPath (if trimSlashes p = ⟨[]⟩ then p else trimSlashes p) = .error e := by
  obtain ⟨q, n, hfollows⟩ := hreaches.exists_entry hplace
  split
  -- nothing but slashes is left as it is, and then the way has no steps
  · rename_i hnil
    cases hcheck : checkPath p with
    | error e => exact .inr ⟨e, rfl⟩
    | ok =>
      refine .inl ⟨q, n, resolve_eq_ok.2 ⟨hcheck, ?_⟩⟩
      have hway : way p.bytes = [] := by
        rw [← steps_trimSlashes, hnil]
        rfl
      have hsteps : steps p.bytes = way p.bytes ++
          (if p.bytes.getLast? = some Path.slash then [.slash] else []) := rfl
      rw [hsteps]
      split
      · rw [hway] at hfollows ⊢
        exact .slash hfollows
      · rwa [List.append_nil]
  · rename_i hne
    cases hcheck : checkPath (trimSlashes p) with
    | error e => exact .inr ⟨e, rfl⟩
    | ok =>
      refine .inl ⟨q, n, resolve_eq_ok.2 ⟨hcheck, ?_⟩⟩
      have hstart : start fs (trimSlashes p) = start fs p := by
        rw [start, start, isAbsolute_trimSlashes hne]
      rwa [hstart, steps_trimSlashes]

theorem makeDirectory_error
    (hreaches : Reaches fs.top maxLinks (start fs p) (way p.bytes) links place)
    (hplace : fs.top.DirectoryAt place) (hne : p.bytes ≠ []) :
    ∃ e, (makeDirectory p).run fs = (.error e, fs) ∧ e ≠ .notFound := by
  have htrimmed : (if trimSlashes p = ⟨[]⟩ then p else trimSlashes p).bytes ≠ [] := by
    split
    · exact hne
    · rename_i hnil
      exact fun heq => hnil (congrArg Path.mk heq)
  unfold makeDirectory
  rw [Action.run_bind, Action.run_ask]
  cases hcheck : checkPath p with
  | error e => exact ⟨e, rfl, ne_notFound_of_checkPath hne hcheck⟩
  | ok =>
    simp only
    rw [Action.run_bind, Action.run_ask]
    obtain ⟨q, n, hresolve⟩ | ⟨e, hrefused⟩ := exists_resolve_entry hreaches hplace
    · rw [hresolve]
      exact ⟨.exists, rfl, nofun⟩
    · refine ⟨e, ?_, ne_notFound_of_checkPath htrimmed hrefused⟩
      rw [resolve, hrefused]
      rfl

theorem run_orExisting (p : Path) (e : Error) (fs : FileSystem) :
    ((orExisting p e).run fs).2 = fs := by
  unfold orExisting
  rw [Action.run_bind, Action.run_ask]
  cases fs.isDirectory p <;> rfl

/-- If a directory cannot be made for another reason than a missing one above, nothing is. -/
theorem makeDirectories_of_error {e : Error} (hmake : (makeDirectory p).run fs = (.error e, fs))
    (he : e ≠ .notFound) : ((makeDirectories p).run fs).2 = fs := by
  unfold makeDirectories
  split
  · rfl
  unfold makeWith
  rw [Action.run_bind, Action.run_attempt, hmake]
  cases e with
  | notFound => exact absurd rfl he
  | _ => exact run_orExisting p _ fs

theorem makeDirectories_idle
    (hreaches : Reaches fs.top maxLinks (start fs p) (way p.bytes) links place)
    (hplace : fs.top.DirectoryAt place) : ((makeDirectories p).run fs).2 = fs := by
  by_cases hne : p.bytes = []
  · rw [makeDirectories, if_pos (List.isEmpty_iff.2 hne)]
    rfl
  · obtain ⟨e, hmake, he⟩ := makeDirectory_error hreaches hplace hne
    exact makeDirectories_of_error hmake he

theorem start_above {above p : Path} (h : above.Above p) (hne : above.bytes ≠ []) (fs : FileSystem) :
    start fs above = start fs p := by
  obtain rfl | ⟨rest, hrest⟩ := h
  · rfl
  · rw [start, start, Path.isAbsolute, Path.isAbsolute, hrest, List.head?_append,
      List.head?_eq_some_head hne]
    rfl

/-- The way along a path goes along the paths above. -/
theorem exists_reaches_above {above : Path} (h : above.Above p)
    (hreaches : Reaches fs.top maxLinks (start fs p) (way p.bytes) links place) :
    above.bytes = [] ∨ ∃ links' place',
      Reaches fs.top maxLinks (start fs above) (way above.bytes) links' place' := by
  by_cases hne : above.bytes = []
  · exact .inl hne
  refine .inr ?_
  rw [start_above h hne]
  obtain rfl | ⟨rest, hrest⟩ := h
  · exact ⟨links, place, hreaches⟩
  · rw [hrest, way_append_slash] at hreaches
    exact hreaches.of_append

end Idle

end FileSystem

end BuildDelta
