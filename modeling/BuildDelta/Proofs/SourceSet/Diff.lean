import BuildDelta.Proofs.Diff.Exact
import BuildDelta.Proofs.Table.Building
import BuildDelta.SourceSet.Basic
import Mathlib.Data.List.Basic
/-!
# Comparing source sets name by name

A comparison goes through the directories that are there now and then through those that are gone. In
source sets whose names belong to their snapshots (`SourceSet.Coherent`) the two rounds never meet
under one name, so what is found in a directory is the difference of what the two sides have under its
name, and a directory without any is left out (`SourceSet.filesIn_diff`).
-/

namespace BuildDelta

theorem Table.keys_differ {α : Type} [Keyed α] (t : Table α) :
    t.toList.Pairwise fun a b => key a ≠ key b := by
  refine t.ascending.imp ?_
  intro a b hlt heq
  exact String.lt_irrefl _ (heq ▸ hlt)

/-- A bare key is all that can be under it. -/
theorem KeyItem.eq_of_get? {t : Table KeyItem} {k : String} {i : KeyItem} (h : t.get? k = some i) :
    i = ⟨k⟩ :=
  congrArg KeyItem.mk (Table.mem_of_get? h).2

namespace Diff

variable {τ : Type} [Item τ] {d : Diff τ}

theorem mem_keysWithStatus {status : Status} {k : String} :
    k ∈ d.keysWithStatus status ↔ ∃ c, d.get? k = some c ∧ c.status = status := by
  rw [keysWithStatus, withStatus, Table.mem_map_key_filter]
  simp only [decide_eq_true_eq]

theorem pairwise_keysWithStatus (d : Diff τ) (status : Status) :
    (d.keysWithStatus status).Pairwise (· ≠ ·) :=
  List.pairwise_map.2 (d.keys_differ.sublist List.filter_sublist)

end Diff

namespace SourceSetDiff

variable {τ : Type} [Item τ] {α : Type}

theorem get?_addFiles (files : Table (String × Diff τ)) (name : String) (changes : Diff τ)
    (d : String) : (addFiles files name changes).get? d =
      if name = d ∧ changes.isEmpty = false then some (name, changes) else files.get? d := by
  unfold addFiles
  split
  · rename_i hempty
    simp [hempty]
  · rename_i hchanges
    rw [Table.get?_insert]
    simp [hchanges, key]

/-- Adds the changes of several directories. -/
def addAll (name : α → String) (changes : α → Diff τ) (files : Table (String × Diff τ))
    (as : List α) : Table (String × Diff τ) :=
  as.foldl (fun files a => addFiles files (name a) (changes a)) files

variable {name : α → String} {changes : α → Diff τ} {files : Table (String × Diff τ)} {as : List α}
  {d : String}

theorem get?_addAll_of_not_mem (h : ∀ a ∈ as, name a ≠ d) :
    (addAll name changes files as).get? d = files.get? d := by
  induction as generalizing files with
  | nil => rfl
  | cons a as ih =>
    rw [List.forall_mem_cons] at h
    refine (ih h.2).trans ?_
    rw [get?_addFiles, if_neg fun hname => h.1 hname.1]

/-- What stands under a name was there before or has been added under it. -/
theorem cases_of_get?_addAll {p : String × Diff τ} (h : (addAll name changes files as).get? d = some p) :
    files.get? d = some p ∨ ∃ a ∈ as, p = (name a, changes a) := by
  induction as generalizing files with
  | nil => exact .inl h
  | cons a as ih =>
    obtain hfirst | ⟨b, hb, heq⟩ := ih h
    · rw [get?_addFiles] at hfirst
      split at hfirst
      · exact .inr ⟨a, List.mem_cons_self, (Option.some.inj hfirst).symm⟩
      · exact .inl hfirst
    · exact .inr ⟨b, List.mem_cons_of_mem a hb, heq⟩

/-- No directory is added twice, so nothing that was added gives way. -/
theorem get?_addAll_of_mem (hdistinct : as.Pairwise fun a b => name a ≠ name b)
    (hnew : ∀ a ∈ as, files.get? (name a) = none) {a : α} (ha : a ∈ as) :
    (addAll name changes files as).get? (name a) =
      if (changes a).isEmpty then none else some (name a, changes a) := by
  induction as generalizing files with
  | nil => cases ha
  | cons b as ih =>
    rw [List.pairwise_cons] at hdistinct
    rw [List.forall_mem_cons] at hnew
    cases List.mem_cons.1 ha with
    | inl heq =>
      -- everything behind has other names and leaves this entry alone
      subst heq
      refine (get?_addAll_of_not_mem fun c hc => (hdistinct.1 c hc).symm).trans ?_
      rw [get?_addFiles, hnew.1]
      cases (changes a).isEmpty <;> simp
    | inr hmem =>
      refine ih hdistinct.2 (fun c hc => ?_) hmem
      rw [get?_addFiles, if_neg fun hname => hdistinct.1 c hc hname.1]
      exact hnew.2 c hc

end SourceSetDiff

namespace SourceSet

variable {τ : Type} [Item τ] {current previous : SourceSet τ} {d : String}

/-- Every name has its snapshot, and there is no other snapshot. -/
def Coherent (s : SourceSet τ) : Prop :=
  ∀ d, s.directories.items.contains d = s.sets.contains d

/-- What is under a key in one of the directories. -/
def item? (s : SourceSet τ) (d k : String) : Option τ :=
  (s.set? d).bind (·.get? k)

/-- The snapshot under a name; without one, nothing is there. -/
def setOrEmpty (s : SourceSet τ) (d : String) : Snapshot τ :=
  (s.set? d).getD (.empty "")

theorem get?_setOrEmpty (s : SourceSet τ) (d k : String) : (s.setOrEmpty d).get? k = s.item? d k := by
  unfold setOrEmpty item?
  cases s.set? d <;> rfl

theorem set?_eq_some_iff {s : SourceSet τ} {x : Snapshot τ} :
    s.set? d = some x ↔ (d, x) ∈ s.sets.toList := by
  simp only [set?, Option.map_eq_some_iff, Table.get?_eq_some_iff, Prod.exists, key]
  constructor
  · rintro ⟨_, _, ⟨hmem, rfl⟩, rfl⟩
    exact hmem
  · intro hmem
    exact ⟨d, x, ⟨hmem, rfl⟩, rfl⟩

theorem Coherent.get?_directory {s : SourceSet τ} (hs : s.Coherent) (d : String) :
    s.directories.get? d = (s.set? d).map fun _ => ⟨d⟩ := by
  have hsome : (s.directories.get? d).isSome = (s.set? d).isSome := by
    rw [set?, Option.isSome_map]
    exact hs d
  cases hname : s.directories.get? d with
  | none =>
    rw [hname] at hsome
    rw [Option.not_isSome_iff_eq_none.1 (Bool.eq_false_iff.1 hsome.symm)]
    rfl
  | some i =>
    rw [hname] at hsome
    obtain ⟨x, hx⟩ := Option.isSome_iff_exists.1 hsome.symm
    rw [hx, KeyItem.eq_of_get? hname]
    rfl

/-- What the first round of a comparison adds for a directory that is there now. -/
def changesSince (previous : SourceSet τ) (p : String × Snapshot τ) : Diff τ :=
  p.2.diff ((previous.set? p.1).getD (.empty p.2.root))

/-- What the second round adds for a directory that is gone. -/
def changesOfRemoved (previous : SourceSet τ) (d : String) : Diff τ :=
  Snapshot.diff (.empty "") (previous.setOrEmpty d)

theorem changesSince_eq {now : Snapshot τ} (h : current.set? d = some now) :
    previous.changesSince (d, now) = (current.setOrEmpty d).diff (previous.setOrEmpty d) := by
  unfold changesSince setOrEmpty
  rw [h]
  cases previous.set? d <;> rfl

theorem changesOfRemoved_eq (h : current.set? d = none) :
    previous.changesOfRemoved d = (current.setOrEmpty d).diff (previous.setOrEmpty d) := by
  unfold changesOfRemoved setOrEmpty
  rw [h]
  rfl

theorem files_diff (current previous : SourceSet τ) : (current.diff previous).files =
    SourceSetDiff.addAll id previous.changesOfRemoved
      (SourceSetDiff.addAll Prod.fst previous.changesSince .empty current.sets.toList)
      ((current.diff previous).directories.keysWithStatus .removed) := by
  refine List.foldl_ext _ _ _ fun files name _ => ?_
  simp only [changesOfRemoved, setOrEmpty]
  cases previous.set? name <;> rfl

/-- Every round of a comparison compares two snapshots, however the names and the snapshots of a source
set go together. -/
theorem exists_diff_of_filesIn {changes : Diff τ}
    (h : (current.diff previous).filesIn d = some changes) :
    ∃ s t : Snapshot τ, changes = s.diff t := by
  obtain ⟨p, hp, rfl⟩ := Option.map_eq_some_iff.1 h
  rw [files_diff] at hp
  obtain hfirst | ⟨name, -, rfl⟩ := SourceSetDiff.cases_of_get?_addAll hp
  · obtain hnone | ⟨⟨name, now⟩, -, rfl⟩ := SourceSetDiff.cases_of_get?_addAll hfirst
    · cases hnone
    · exact ⟨now, _, rfl⟩
  · exact ⟨.empty "", previous.setOrEmpty name, rfl⟩

theorem mem_removed_iff (hcurrent : current.Coherent) (hprevious : previous.Coherent) :
    d ∈ (current.diff previous).directories.keysWithStatus .removed ↔
      current.set? d = none ∧ (previous.set? d).isSome := by
  simp only [Diff.mem_keysWithStatus, diff, Snapshot.get?_diff, hcurrent.get?_directory,
    hprevious.get?_directory]
  cases current.set? d <;> cases previous.set? d <;>
    simp [Change.between?, Change.status, Item.unchanged]

/-- The rounds of a comparison never meet under one name, whether or not they find a change there. -/
theorem get?_files_diff (hcurrent : current.Coherent) (hprevious : previous.Coherent) (d : String) :
    (current.diff previous).files.get? d =
      let changes := (current.setOrEmpty d).diff (previous.setOrEmpty d)
      if changes.isEmpty then none else some (d, changes) := by
  have hremoved : ∀ {d}, d ∈ (current.diff previous).directories.keysWithStatus .removed ↔ _ :=
    mem_removed_iff hcurrent hprevious
  have hsets : current.sets.toList.Pairwise fun a b => a.1 ≠ b.1 := current.sets.keys_differ
  have habsent : ∀ {d}, current.set? d = none →
      (SourceSetDiff.addAll Prod.fst previous.changesSince .empty current.sets.toList).get? d =
        none := by
    intro d hnone
    refine SourceSetDiff.get?_addAll_of_not_mem ?_
    rintro ⟨_, now⟩ hmem rfl
    rw [set?_eq_some_iff.2 hmem] at hnone
    cases hnone
  rw [files_diff]
  cases hnow : current.set? d with
  | some now =>
    rw [SourceSetDiff.get?_addAll_of_not_mem, ← changesSince_eq hnow]
    · exact SourceSetDiff.get?_addAll_of_mem hsets (fun _ _ => rfl) (set?_eq_some_iff.1 hnow)
    · rintro _ hmem rfl
      rw [id, (hremoved.1 hmem).1] at hnow
      cases hnow
  | none =>
    cases hbefore : previous.set? d with
    | some before =>
      have hmem := hremoved.2 ⟨hnow, hbefore ▸ rfl⟩
      rw [← changesOfRemoved_eq hnow]
      refine SourceSetDiff.get?_addAll_of_mem ?_ ?_ hmem
      · exact Diff.pairwise_keysWithStatus ..
      intro a ha
      exact habsent (hremoved.1 ha).1
    | none =>
      rw [SourceSetDiff.get?_addAll_of_not_mem, habsent hnow]
      · simp only [setOrEmpty, hnow, hbefore]
        rfl
      · rintro _ hmem rfl
        rw [id, ← Option.not_isSome_iff_eq_none] at hbefore
        exact hbefore (hremoved.1 hmem).2

theorem filesIn_diff (hcurrent : current.Coherent) (hprevious : previous.Coherent) (d : String) :
    (current.diff previous).filesIn d =
      let changes := (current.setOrEmpty d).diff (previous.setOrEmpty d)
      if changes.isEmpty then none else some changes := by
  rw [SourceSetDiff.filesIn, get?_files_diff hcurrent hprevious]
  dsimp only
  split <;> rfl

end SourceSet

end BuildDelta
