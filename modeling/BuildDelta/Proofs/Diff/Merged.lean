import BuildDelta.Proofs.Diff.Stale
import BuildDelta.Proofs.SourceSet.Diff
/-!
# Differences merged over many builds

A build that is left out loses nothing if its difference is merged with the next one. What a difference
has to keep is that it leads from one snapshot to another (`Diff.LeadsTo`): a key that it leaves out is
the same on both sides, and under a key that it mentions stands what the later side holds. The
difference of two snapshots leads from one to the other, and merging goes along a chain
(`Diff.LeadsTo.merge`), however often a key comes and goes on the way.
-/

namespace BuildDelta

variable {τ : Type} [Item τ]

theorem Change.current?_of_between? {current? previous? : Option τ} {c : Change τ}
    (h : between? current? previous? = some c) : c.current? = current? := by
  cases c with
  | added a => exact (between?_eq_added_iff.1 h).1.symm
  | removed b => exact (between?_eq_removed_iff.1 h).1.symm
  | changed a b => exact (between?_eq_changed_iff.1 h).1.symm

omit [Item τ] in
theorem Change.status_eq_removed_iff {c : Change τ} : c.status = .removed ↔ c.current? = none := by
  cases c <;> simp [status, current?]

theorem Change.key_of_current? {c : Change τ} {a : τ} (h : c.current? = some a) : key a = key c := by
  cases c with
  | added b | changed b _ =>
    obtain rfl := Option.some.inj h
    rfl
  | removed b => simp [current?] at h

/-- The differences between each snapshot of a chain and the one before it. -/
def Snapshot.successiveDiffs (s : Snapshot τ) : List (Snapshot τ) → List (Diff τ)
  | [] => []
  | next :: rest => next.diff s :: next.successiveDiffs rest

namespace Diff

/-- Differences merged one after the other, beginning with none. -/
def mergeAll (ds : List (Diff τ)) : Diff τ := ds.foldl Table.merge .empty

/-- Takes the removed items away and puts the current items of all other changes in. -/
def applyTo (d : Diff τ) (items : Table τ) : Table τ :=
  (items.filterMap (fun a => if key a ∈ d.keysWithStatus .removed then none else some a) (by
    intro a b h
    split at h
    · cases h
    · rw [Option.some.inj h])).merge
    (d.filterMap Change.current? fun _ _ => Change.key_of_current?)

theorem get?_applyTo (d : Diff τ) (items : Table τ) (k : String) :
    (d.applyTo items).get? k = ((d.get? k).map Change.current?).getD (items.get? k) := by
  rw [applyTo, Table.get?_merge, Table.get?_filterMap, Table.get?_filterMap]
  have hkept (a : τ) (ha : items.get? k = some a) :
      key a ∈ d.keysWithStatus .removed ↔ ∃ c, d.get? k = some c ∧ c.current? = none := by
    rw [(Table.mem_of_get? ha).2, mem_keysWithStatus]
    simp only [Change.status_eq_removed_iff]
  cases hd : d.get? k with
  | none =>
    cases ha : items.get? k with
    | none => rfl
    | some a => simp [hkept a ha, hd]
  | some c =>
    cases hc : c.current? with
    | some b => simp [hc]
    | none =>
      cases ha : items.get? k with
      | none => simp [hc]
      | some a => simp [hkept a ha, hd, hc]

/-- What a difference knows of the way from one snapshot to a later one. -/
structure LeadsTo (d : Diff τ) (s t : Snapshot τ) : Prop where
  get?_eq : ∀ k, d.get? k = none → s.get? k = t.get? k
  current?_eq : ∀ k c, d.get? k = some c → c.current? = t.get? k

section LeadsTo

variable {d e : Diff τ} {s t u : Snapshot τ}

theorem leadsTo_empty (s : Snapshot τ) : LeadsTo .empty s s where
  get?_eq _ _ := rfl
  current?_eq k c h := by simp [Table.get?, Table.empty] at h

theorem leadsTo_diff [LawfulItem τ] (s t : Snapshot τ) : LeadsTo (t.diff s) s t where
  get?_eq k h := (Snapshot.get?_diff_eq_none_iff.1 h).symm
  current?_eq k c h := by
    rw [Snapshot.get?_diff] at h
    exact Change.current?_of_between? h

theorem LeadsTo.merge (hd : d.LeadsTo s t) (he : e.LeadsTo t u) : LeadsTo (d.merge e) s u where
  get?_eq k h := by
    rw [Table.get?_merge, Option.or_eq_none_iff] at h
    exact (hd.get?_eq k h.2).trans (he.get?_eq k h.1)
  current?_eq k c h := by
    rw [Table.get?_merge] at h
    cases hlater : e.get? k with
    | some c' =>
      rw [hlater, Option.some_or] at h
      obtain rfl := Option.some.inj h
      exact he.current?_eq k c' hlater
    | none =>
      -- what the later difference leaves out is still as the earlier one left it
      rw [hlater, Option.none_or] at h
      exact (hd.current?_eq k c h).trans (he.get?_eq k hlater)

theorem LeadsTo.foldl_merge [LawfulItem τ] (hd : d.LeadsTo s t) (rest : List (Snapshot τ)) :
    LeadsTo ((t.successiveDiffs rest).foldl Table.merge d) s (rest.getLastD t) := by
  induction rest generalizing d t with
  | nil => exact hd
  | cons next rest ih =>
    rw [List.getLastD_cons]
    exact ih (hd.merge (leadsTo_diff t next))

theorem leadsTo_mergeAll [LawfulItem τ] (s : Snapshot τ) (rest : List (Snapshot τ)) :
    LeadsTo (mergeAll (s.successiveDiffs rest)) s (rest.getLastD s) :=
  (leadsTo_empty s).foldl_merge rest

theorem LeadsTo.applyTo_eq (h : d.LeadsTo s t) : d.applyTo s.items = t.items := by
  refine Table.ext_get? fun k => ?_
  rw [get?_applyTo]
  cases hd : d.get? k with
  | none => exact h.get?_eq k hd
  | some c => exact h.current?_eq k c hd

theorem LeadsTo.status_eq_removed_iff (h : d.LeadsTo s t) {k : String} {c : Change τ}
    (hc : d.get? k = some c) : c.status = .removed ↔ t.get? k = none := by
  rw [Change.status_eq_removed_iff, h.current?_eq k c hc]

/-- No difference that leads from one snapshot to the other has fewer keys than their own. -/
theorem LeadsTo.get?_ne_none [LawfulItem τ] (h : d.LeadsTo s t) {k : String}
    (hk : (t.diff s).get? k ≠ none) : d.get? k ≠ none := by
  intro hnone
  exact hk (Snapshot.get?_diff_eq_none_iff.2 (h.get?_eq k hnone).symm)

theorem LeadsTo.addedOrChangedKeys_subset [LawfulItem τ] (h : d.LeadsTo s t) :
    (t.diff s).addedOrChangedKeys ⊆ d.addedOrChangedKeys := by
  intro k hk
  obtain ⟨c, hc, hstatus⟩ := mem_addedOrChangedKeys.1 hk
  obtain ⟨c', hc'⟩ := Option.ne_none_iff_exists'.1 (h.get?_ne_none (by rw [hc]; simp))
  refine mem_addedOrChangedKeys.2 ⟨c', hc', ?_⟩
  rwa [Ne, h.status_eq_removed_iff hc', ← (leadsTo_diff s t).status_eq_removed_iff hc]

theorem LeadsTo.stalePatterns_subset [LawfulItem τ] (h : d.LeadsTo s t)
    (sourceExt outputExt : String) :
    ((t.diff s).stalePatterns sourceExt outputExt).toList ⊆
      (d.stalePatterns sourceExt outputExt).toList := by
  intro p hp
  obtain ⟨k, hk, hpk⟩ := mem_stalePatterns.1 hp
  exact mem_stalePatterns.2 ⟨k, h.addedOrChangedKeys_subset hk, hpk⟩

end LeadsTo

/-- What a difference has to say to whoever knows the snapshot `s` and builds the snapshot `t`: it
mentions all that their own difference mentions, it holds what is there now, it turns the items of `s`
into those of `t`, and it leaves nothing stale. -/
structure Suffices (d : Diff τ) (s t : Snapshot τ) : Prop where
  mentions : ∀ k, (t.diff s).get? k ≠ none → d.get? k ≠ none
  current?_eq : ∀ k c, d.get? k = some c →
    c.current? = t.get? k ∧ (c.status = .removed ↔ t.get? k = none)
  applyTo_eq : d.applyTo s.items = t.items
  rebuilds : (t.diff s).addedOrChangedKeys ⊆ d.addedOrChangedKeys
  stales : ∀ sourceExt outputExt, ((t.diff s).stalePatterns sourceExt outputExt).toList ⊆
    (d.stalePatterns sourceExt outputExt).toList

theorem LeadsTo.suffices [LawfulItem τ] {d : Diff τ} {s t : Snapshot τ} (h : d.LeadsTo s t) :
    d.Suffices s t where
  mentions _ := h.get?_ne_none
  current?_eq k c hc := ⟨h.current?_eq k c hc, h.status_eq_removed_iff hc⟩
  applyTo_eq := h.applyTo_eq
  rebuilds := h.addedOrChangedKeys_subset
  stales := h.stalePatterns_subset

/-- The differences of successive builds, merged in their order, lose no rebuild. -/
theorem mergeAll_suffices :
    (∀ (s : Snapshot FileItem) (rest : List (Snapshot FileItem)),
      (mergeAll (s.successiveDiffs rest)).Suffices s (rest.getLastD s)) ∧
    ∀ (s : Snapshot KeyItem) (rest : List (Snapshot KeyItem)),
      (mergeAll (s.successiveDiffs rest)).Suffices s (rest.getLastD s) :=
  ⟨fun s rest => (leadsTo_mergeAll s rest).suffices, fun s rest => (leadsTo_mergeAll s rest).suffices⟩

end Diff

end BuildDelta
