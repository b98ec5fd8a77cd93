import BuildDelta.Proofs.Diff.Exact
import BuildDelta.Proofs.SourceSet.Exact
import BuildDelta.Proofs.Table.Merging
/-!
# What an entry of a difference can be relied on for

Whoever reads an entry goes by its status: an added key has an item now, a removed one had an item
before, and a changed one has two that are told apart. Which items there are goes with the status in
every entry. But that both have the key of the entry, and that the two of a changed one are not the same,
comes only from the way in which differences come about (`Change.WellFormed`). Every way keeps it:
comparing snapshots, comparing source sets, whether or not their names belong to their snapshots, and
merging what has nothing to do with each other (`Diff.Obtained`).
-/

namespace BuildDelta

variable {τ : Type} [Item τ]

/-- The parts of an entry under a key agree with each other and with the key. For its status and the items
that are there this is so in every entry. -/
structure Change.WellFormed (k : String) (c : Change τ) : Prop where
  key_eq : key c = k
  added : c.status = .added → (∃ a, c.current? = some a) ∧ c.previous? = none
  removed : c.status = .removed → c.current? = none ∧ ∃ b, c.previous? = some b
  changed : c.status = .changed →
    ∃ a b, c.current? = some a ∧ c.previous? = some b ∧ Item.unchanged a b = false
  current_key : ∀ a, c.current? = some a → key a = k
  previous_key : ∀ b, c.previous? = some b → key b = k

/-- What becomes of a key, by what two tables hold under it, is well formed. -/
theorem Change.wellFormed_of_between? {t u : Table τ} {k : String} {c : Change τ}
    (h : between? (t.get? k) (u.get? k) = some c) : c.WellFormed k := by
  cases c with
  | added a =>
    obtain ⟨hcurrent, -⟩ := between?_eq_added_iff.1 h
    have hkey : key a = k := (Table.mem_of_get? hcurrent).2
    refine ⟨hkey, fun _ => ⟨⟨a, rfl⟩, rfl⟩, nofun, nofun, ?_, nofun⟩
    rintro _ ⟨⟩
    exact hkey
  | removed b =>
    obtain ⟨-, hprevious⟩ := between?_eq_removed_iff.1 h
    have hkey : key b = k := (Table.mem_of_get? hprevious).2
    refine ⟨hkey, nofun, fun _ => ⟨rfl, b, rfl⟩, nofun, nofun, ?_⟩
    rintro _ ⟨⟩
    exact hkey
  | changed a b =>
    obtain ⟨hcurrent, hprevious, hdiffer⟩ := between?_eq_changed_iff.1 h
    have hkey : key a = k := (Table.mem_of_get? hcurrent).2
    refine ⟨hkey, nofun, nofun, fun _ => ⟨a, b, rfl, rfl, hdiffer⟩, ?_, ?_⟩
    · rintro _ ⟨⟩
      exact hkey
    · rintro _ ⟨⟩
      exact (Table.mem_of_get? hprevious).2

namespace Diff

/-- The differences that there can be: none at all, what two snapshots differ in, what two source sets
differ in, as to their names and in each directory, and what all these are merged to. -/
inductive Obtained : {τ : Type} → [Item τ] → Diff τ → Prop
  | empty {τ : Type} [Item τ] : Obtained (.empty : Diff τ)
  | diff {τ : Type} [Item τ] (current previous : Snapshot τ) : Obtained (current.diff previous)
  | directories {σ : Type} [Item σ] (current previous : SourceSet σ) :
    Obtained (current.diff previous).directories
  | files {τ : Type} [Item τ] (current previous : SourceSet τ) {directory : String} {d : Diff τ}
    (h : (current.diff previous).filesIn directory = some d) : Obtained d
  | merge {τ : Type} [Item τ] {d e : Diff τ} (hd : Obtained d) (he : Obtained e) :
    Obtained (d.merge e)

/-- Every entry is well formed under its key. -/
def WellFormed (d : Diff τ) : Prop :=
  ∀ k c, d.get? k = some c → c.WellFormed k

theorem wellFormed_empty : WellFormed (.empty : Diff τ) := by
  intro k c h
  rw [Table.get?_empty] at h
  cases h

theorem wellFormed_diff (current previous : Snapshot τ) : WellFormed (current.diff previous) := by
  intro k c h
  rw [Snapshot.get?_diff] at h
  exact Change.wellFormed_of_between? h

/-- Whichever side an entry comes from, it comes as it was. -/
theorem WellFormed.merge {d e : Diff τ} (hd : d.WellFormed) (he : e.WellFormed) :
    WellFormed (d.merge e) := by
  intro k c h
  rw [Table.get?_merge, Option.or_eq_some_iff] at h
  rcases h with hlater | ⟨-, hearlier⟩
  · exact he k c hlater
  · exact hd k c hearlier

theorem Obtained.wellFormed {d : Diff τ} (h : d.Obtained) : d.WellFormed := by
  induction h with
  | empty => exact wellFormed_empty
  | diff current previous => exact wellFormed_diff current previous
  | directories current previous => exact wellFormed_diff current.directories previous.directories
  | files current previous h =>
    obtain ⟨s, t, rfl⟩ := SourceSet.exists_diff_of_filesIn h
    exact wellFormed_diff s t
  | merge _ _ hd he => exact hd.merge he

end Diff

/-- Every difference that can be obtained is well formed, and so an entry for two files holds two
fingerprints and there is none for two bare keys. Merging keeps it that way: of two entries under one key
the later stands, and all other entries stand as they are. -/
theorem differences_are_well_formed :
    (∀ (τ : Type) [Item τ] (d : Diff τ), d.Obtained → ∀ k c, d.get? k = some c → c.WellFormed k) ∧
    (∀ d : Diff FileItem, d.Obtained → ∀ k c, d.get? k = some c → c.status = .changed →
      ∃ a b, c.current? = some a ∧ c.previous? = some b ∧ a.fingerprint ≠ b.fingerprint) ∧
    (∀ d : Diff KeyItem, d.Obtained → ∀ k c, d.get? k = some c → c.status ≠ .changed) ∧
    ∀ (τ : Type) [Item τ] (a b c : Diff τ),
      (∀ k, (a.merge b).get? k = (b.get? k).or (a.get? k)) ∧
      (a.merge b).merge c = a.merge (b.merge c) ∧
      a.merge a = a ∧ a.merge .empty = a ∧ Table.empty.merge a = a ∧
      (a.merge b).size = (a.keys.toFinset ∪ b.keys.toFinset).card := by
  refine ⟨fun τ _ d h => h.wellFormed, ?_, ?_, ?_⟩
  · intro d h k c hc hstatus
    obtain ⟨a, b, ha, hb, hdiffer⟩ := (h.wellFormed k c hc).changed hstatus
    exact ⟨a, b, ha, hb, of_decide_eq_false hdiffer⟩
  · intro d h k c hc hstatus
    obtain ⟨a, b, -, -, hdiffer⟩ := (h.wellFormed k c hc).changed hstatus
    cases hdiffer
  · intro τ _ a b c
    exact ⟨a.get?_merge b, a.merge_assoc b c, a.merge_self, a.merge_empty, a.empty_merge,
      a.size_merge b⟩

/-- Two files of another place. -/
def Snapshot.elsewhere : Snapshot FileItem where
  root := "/q"
  items := ⟨[⟨"b", .metadata 1 1⟩, ⟨"z", .metadata 1 1⟩], by decide +kernel⟩

/-- All that was in one place, and over it what became of another place. -/
def Diff.unrelated : Diff FileItem :=
  Table.merge (Snapshot.diff (.empty "") .widths) (Snapshot.elsewhere.diff .widths)

/-- In the middle a removed file has been taken for a changed one. -/
theorem differences_are_well_formed_unrelated :
    Diff.Obtained Diff.unrelated ∧
      Diff.unrelated.toList.map (fun c => (key c, c.status)) = [("", .removed), ("a", .removed),
        ("b", .changed), ("z", .added), ("ü", .removed)] ∧
      (∀ k c, Diff.unrelated.get? k = some c → c.WellFormed k) ∧
      (∃ c, Diff.unrelated.get? "b" = some c ∧ c.status = .changed ∧
        ∃ a b, c.current? = some a ∧ c.previous? = some b ∧ a.fingerprint ≠ b.fingerprint) ∧
      let names := (SourceSet.edited.diff SourceSet.widths).directories
      names.Obtained ∧ ∃ c, names.get? "z" = some c ∧ c.status ≠ .changed := by
  have hgone : (SourceSet.edited.diff SourceSet.widths).filesIn "a" =
      some (Snapshot.diff (.empty "") .widths) := by
    decide +kernel
  have hobtained : Diff.Obtained Diff.unrelated := (Diff.Obtained.files _ _ hgone).merge (.diff _ _)
  have hnames := Diff.Obtained.directories SourceSet.edited SourceSet.widths
  have hb : Diff.unrelated.get? "b" =
      some (.changed ⟨"b", .metadata 1 1⟩ ⟨"b", .metadata 4294967295 4294967296⟩) := by
    decide +kernel
  have hz : (SourceSet.edited.diff SourceSet.widths).directories.get? "z" = some (.added ⟨"z"⟩) := by
    decide +kernel
  obtain ⟨hformed, hfiles, hkeys, -⟩ := differences_are_well_formed
  exact ⟨hobtained, by decide +kernel, hformed _ _ hobtained,
    ⟨_, hb, rfl, hfiles _ hobtained _ _ hb rfl⟩, hnames, _, hz, hkeys _ hnames _ _ hz⟩

end BuildDelta
