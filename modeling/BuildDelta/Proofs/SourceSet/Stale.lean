import BuildDelta.Proofs.Diff.Stale
import BuildDelta.Proofs.SourceSet.Exact
/-!
# Stale outputs of a source set

From two source sets to the set of patterns a comparison goes by the names of the directories, then by
the keys in each of them, leaves out the directories in which it finds nothing, and forgets in the end
which directory a pattern came from. What comes out are the outputs of the sources that are new or not
the same as before (`SourceSet.Renewed`), in one directory or in several
(`SourceSet.mem_stalePatterns_diff`).
-/

namespace BuildDelta

variable {τ : Type} [Item τ]

namespace SourceSetDiff

theorem mem_stalePatterns {d : SourceSetDiff τ} {sourceExt outputExt p : String} :
    p ∈ (d.stalePatterns sourceExt outputExt).toList ↔
      ∃ directory k c, d.change? directory k = some c ∧ c.status ≠ .removed ∧
        p ∈ Diff.outputPatterns sourceExt outputExt k := by
  rw [stalePatterns, Table.mem_ofList_text, List.mem_flatMap]
  constructor
  · rintro ⟨⟨directory, changes⟩, hfiles, hp⟩
    obtain ⟨k, hk, hp⟩ := Diff.mem_stalePatterns.1 hp
    obtain ⟨c, hc, hstatus⟩ := Diff.mem_addedOrChangedKeys.1 hk
    have hentry : d.files.get? directory = some (directory, changes) :=
      Table.get?_eq_some_iff.2 ⟨hfiles, rfl⟩
    have hin : d.filesIn directory = some changes := by
      rw [filesIn, hentry]
      rfl
    refine ⟨directory, k, c, ?_, hstatus, hp⟩
    rw [change?, hin]
    exact hc
  · rintro ⟨directory, k, c, hc, hstatus, hp⟩
    obtain ⟨changes, hin, hk⟩ := Option.bind_eq_some_iff.1 hc
    obtain ⟨entry, hentry, rfl⟩ := Option.map_eq_some_iff.1 hin
    refine ⟨entry, (Table.mem_of_get? hentry).1, ?_⟩
    exact Diff.mem_stalePatterns.2 ⟨k, Diff.mem_addedOrChangedKeys.2 ⟨c, hk, hstatus⟩, hp⟩

end SourceSetDiff

namespace SourceSet

variable {current previous : SourceSet τ} {Same : τ → τ → Prop} {sourceExt outputExt p : String}

/-- There is an item under the key in the directory, and before there was no such directory, no such key
in it, or an item that is not the same. -/
def Renewed (Same : τ → τ → Prop) (current previous : SourceSet τ) (d k : String) : Prop :=
  ∃ now a, current.set? d = some now ∧ now.get? k = some a ∧
    (previous.set? d = none ∨ ∃ before, previous.set? d = some before ∧
      (before.get? k = none ∨ ∃ b, before.get? k = some b ∧ ¬Same a b))

theorem renewed_iff_item? {d k : String} : Renewed Same current previous d k ↔
    ∃ a, current.item? d k = some a ∧ ∀ b, previous.item? d k = some b → ¬Same a b := by
  have hbefore : ∀ a, (previous.set? d = none ∨ ∃ before, previous.set? d = some before ∧
      (before.get? k = none ∨ ∃ b, before.get? k = some b ∧ ¬Same a b)) ↔
        ∀ b, previous.item? d k = some b → ¬Same a b := by
    intro a
    unfold item?
    cases previous.set? d with
    | none => simp
    | some before => cases hk : before.get? k <;> simp [hk]
  unfold Renewed
  simp only [hbefore]
  constructor
  · rintro ⟨now, a, hnow, ha, hb⟩
    exact ⟨a, Option.bind_eq_some_iff.2 ⟨now, hnow, ha⟩, hb⟩
  · rintro ⟨a, ha, hb⟩
    obtain ⟨now, hnow, ha⟩ := Option.bind_eq_some_iff.1 ha
    exact ⟨now, a, hnow, ha, hb⟩

/-- What is renewed is what a comparison calls added or changed. -/
theorem renewed_iff_change? (hsame : ∀ a b : τ, Item.unchanged a b = true ↔ Same a b)
    (hcurrent : current.Coherent) (hprevious : previous.Coherent) {d k : String} :
    Renewed Same current previous d k ↔
      ∃ c, (current.diff previous).change? d k = some c ∧ c.status ≠ .removed := by
  rw [renewed_iff_item?, change?_diff hcurrent hprevious]
  cases current.item? d k with
  | none =>
    cases previous.item? d k with
    | none => simp [Change.between?]
    | some b => simp [Change.between?, Change.status]
  | some a =>
    cases previous.item? d k with
    | none => simp [Change.between?, Change.status]
    | some b =>
      by_cases hunchanged : Item.unchanged a b = true
      · simp [Change.between?, hunchanged, (hsame a b).1 hunchanged]
      · have hdiffer : ¬Same a b := fun h => hunchanged ((hsame a b).2 h)
        simp [Change.between?, hunchanged, hdiffer, Change.status]

theorem mem_stalePatterns_diff (hsame : ∀ a b : τ, Item.unchanged a b = true ↔ Same a b)
    (hcurrent : current.Coherent) (hprevious : previous.Coherent) :
    p ∈ ((current.diff previous).stalePatterns sourceExt outputExt).toList ↔
      ∃ d k stem, Renewed Same current previous d k ∧ k = stem ++ "." ++ Text.dropDots sourceExt ∧
        Diff.IsOutputOf outputExt stem p := by
  rw [SourceSetDiff.mem_stalePatterns]
  constructor
  · rintro ⟨d, k, c, hc, hstatus, hp⟩
    obtain ⟨stem, hk, hp⟩ := Diff.mem_outputPatterns.1 hp
    exact ⟨d, k, stem, (renewed_iff_change? hsame hcurrent hprevious).2 ⟨c, hc, hstatus⟩, hk, hp⟩
  · rintro ⟨d, k, stem, hrenewed, hk, hp⟩
    obtain ⟨c, hc, hstatus⟩ := (renewed_iff_change? hsame hcurrent hprevious).1 hrenewed
    exact ⟨d, k, c, hc, hstatus, Diff.mem_outputPatterns.2 ⟨stem, hk, hp⟩⟩

/-- All that is asked of the stale outputs between two source sets, where `Same` tells whether two items
under one key agree. -/
structure StaleExact (Same : τ → τ → Prop) (current previous : SourceSet τ)
    (sourceExt outputExt : String) : Prop where
  mem_iff : ∀ p, p ∈ ((current.diff previous).stalePatterns sourceExt outputExt).toList ↔
    ∃ d k stem, Renewed Same current previous d k ∧ k = stem ++ "." ++ Text.dropDots sourceExt ∧
      Diff.IsOutputOf outputExt stem p
  once : ((current.diff previous).stalePatterns sourceExt outputExt).toList.Nodup
  /-- Nothing is stale where all that is there was there before. -/
  removed : (∀ d k a, current.item? d k = some a → ∃ b, previous.item? d k = some b ∧ Same a b) →
    (current.diff previous).stalePatterns sourceExt outputExt = .empty
  /-- A source that was in one directory before and is in another one now. -/
  moved : ∀ d d' stem p, (previous.item? d (stem ++ "." ++ Text.dropDots sourceExt)).isSome →
    current.item? d (stem ++ "." ++ Text.dropDots sourceExt) = none →
    previous.item? d' (stem ++ "." ++ Text.dropDots sourceExt) = none →
    (current.item? d' (stem ++ "." ++ Text.dropDots sourceExt)).isSome →
    Diff.IsOutputOf outputExt stem p →
      p ∈ ((current.diff previous).stalePatterns sourceExt outputExt).toList

theorem staleExact_of_coherent (hsame : ∀ a b : τ, Item.unchanged a b = true ↔ Same a b)
    (hcurrent : current.Coherent) (hprevious : previous.Coherent) (sourceExt outputExt : String) :
    StaleExact Same current previous sourceExt outputExt := by
  have hmem : ∀ p, p ∈ ((current.diff previous).stalePatterns sourceExt outputExt).toList ↔ _ :=
    fun p => mem_stalePatterns_diff hsame hcurrent hprevious
  refine ⟨hmem, Table.nodup _, ?_, ?_⟩
  · intro hkept
    apply Table.ext
    apply List.eq_nil_iff_forall_not_mem.2
    intro p hp
    obtain ⟨d, k, stem, hrenewed, -, -⟩ := (hmem p).1 hp
    obtain ⟨a, ha, hbefore⟩ := renewed_iff_item?.1 hrenewed
    obtain ⟨b, hb, hab⟩ := hkept d k a ha
    exact hbefore b hb hab
  · intro d d' stem p _ _ hbefore hnow hp
    obtain ⟨a, ha⟩ := Option.isSome_iff_exists.1 hnow
    refine (hmem p).2 ⟨d', _, stem, renewed_iff_item?.2 ⟨a, ha, fun b hb => ?_⟩, rfl, hp⟩
    rw [hbefore] at hb
    cases hb

end SourceSet

/-- Stale are the outputs of those sources, in all directories, that are new or have another fingerprint
than before; among bare keys, of those that are new. -/
theorem stale_outputs_are_those_of_renewed_sources :
    (∀ current previous : SourceSet FileItem, current.Coherent → previous.Coherent →
      ∀ sourceExt outputExt, SourceSet.StaleExact (fun a b => a.fingerprint = b.fingerprint)
        current previous sourceExt outputExt) ∧
    ∀ current previous : SourceSet KeyItem, current.Coherent → previous.Coherent →
      ∀ sourceExt outputExt, SourceSet.StaleExact (fun _ _ => True) current previous sourceExt
        outputExt := by
  constructor
  · intro current previous hcurrent hprevious
    exact SourceSet.staleExact_of_coherent (fun a b => by simp [Item.unchanged]) hcurrent hprevious
  · intro current previous hcurrent hprevious
    exact SourceSet.staleExact_of_coherent (fun a b => by simp [Item.unchanged]) hcurrent hprevious

/-- Three sources in one directory. -/
def SourceSet.gathered : SourceSet FileItem where
  projectRoot := "/p"
  directories := ⟨"/p", ⟨[⟨"main"⟩], by decide +kernel⟩⟩
  sets := ⟨[("main", ⟨"/p/main", ⟨[⟨"A.java", .metadata 1 1⟩, ⟨"B.java", .metadata 1 1⟩,
    ⟨"C.java", .metadata 1 1⟩], by decide +kernel⟩⟩)], by decide +kernel⟩

/-- One of them edited, one moved to another directory, in which there is also a new one of the name of
the first, and one gone. -/
def SourceSet.scattered : SourceSet FileItem where
  projectRoot := "/p"
  directories := ⟨"/p", ⟨[⟨"main"⟩, ⟨"test"⟩], by decide +kernel⟩⟩
  sets := ⟨[("main", ⟨"/p/main", ⟨[⟨"A.java", .metadata 2 1⟩], by decide +kernel⟩⟩),
    ("test", ⟨"/p/test", ⟨[⟨"A.java", .metadata 1 1⟩, ⟨"B.java", .metadata 1 1⟩], by decide +kernel⟩⟩)],
    by decide +kernel⟩

theorem stale_outputs_are_those_of_renewed_sources_scattered :
    (SourceSet.scattered.Coherent ∧ SourceSet.gathered.Coherent ∧
      ((SourceSet.scattered.diff SourceSet.gathered).stalePatterns "java" ".class").toList =
        ["A$*.class", "A.class", "B$*.class", "B.class"] ∧
      SourceSet.StaleExact (fun a b => a.fingerprint = b.fingerprint) SourceSet.scattered
        SourceSet.gathered "java" ".class" ∧
      "B.class" ∈ ((SourceSet.scattered.diff SourceSet.gathered).stalePatterns "java" ".class").toList) ∧
    SourceSet.bare.Coherent ∧
      SourceSet.StaleExact (fun _ _ => True) SourceSet.bare SourceSet.bare "..kt" "" := by
  obtain ⟨hfiles, hnames⟩ := stale_outputs_are_those_of_renewed_sources
  have hscattered : SourceSet.scattered.Coherent := SourceSet.coherent_of_keys_eq (by decide)
  have hgathered : SourceSet.gathered.Coherent := SourceSet.coherent_of_keys_eq (by decide)
  have hbare : SourceSet.bare.Coherent := SourceSet.coherent_of_keys_eq (by decide)
  have hexact := hfiles _ _ hscattered hgathered "java" ".class"
  refine ⟨⟨hscattered, hgathered, by decide +kernel, hexact, ?_⟩, hbare, hnames _ _ hbare hbare _ _⟩
  exact hexact.moved "main" "test" "B" "B.class" (by decide +kernel) (by decide +kernel)
    (by decide +kernel) (by decide +kernel) (.inl (by decide +kernel))

end BuildDelta
